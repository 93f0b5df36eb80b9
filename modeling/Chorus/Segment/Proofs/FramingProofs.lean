import Chorus.Segment.Proofs.FrameProofs

/-!
# Framing is an exact code

The four loops over a segment's bytes agree with the encoder and with one another on every input. A
complete segment decodes to `records` exactly if it is the concatenation of their encodings
(`decodeAll_eq_ok_iff`), and what is found in torn or malformed bytes is the longest stream at their
front (`prefix_completeRecords`).
-/

namespace Chorus

open RecordFrame

/-- `bytes` is the concatenation of the encodings of `records`. -/
def Encodes (records : List RecordFrame) (bytes : Bytes) : Prop :=
  ∃ chunks : List Bytes, records.map RecordFrame.encode = chunks.map .ok ∧ bytes = chunks.flatten

theorem fits_iff {record : RecordFrame} :
    record.Fits ↔ record.payload.length ≤ maxPayloadBytes := by
  unfold RecordFrame.Fits maxPayloadBytes headerLen u32Limit
  omega

theorem encodes_iff {records : List RecordFrame} {bytes : Bytes} :
    Encodes records bytes ↔ (∀ r ∈ records, r.Fits) ∧ bytes = streamBytes records := by
  constructor
  · rintro ⟨chunks, hmap, rfl⟩
    induction records generalizing chunks with
    | nil =>
      obtain rfl : chunks = [] := List.map_eq_nil_iff.1 hmap.symm
      exact ⟨fun r hr => absurd hr List.not_mem_nil, rfl⟩
    | cons record records ih =>
      cases chunks with
      | nil => cases hmap
      | cons chunk chunks =>
        obtain ⟨hencode, hrest⟩ := List.cons.inj hmap
        obtain ⟨hfits, rfl⟩ := encode_eq_ok.1 hencode
        obtain ⟨hall, hbytes⟩ := ih chunks hrest
        refine ⟨List.forall_mem_cons.2 ⟨hfits, hall⟩, ?_⟩
        rw [List.flatten_cons, hbytes, streamBytes_cons]
  · rintro ⟨hfits, rfl⟩
    refine ⟨records.map chunk, ?_, rfl⟩
    rw [List.map_map]
    exact List.map_congr_left fun r hr => encode_eq_ok.2 ⟨hfits r hr, rfl⟩

/-- A record that is found takes its header and does not reach past the bytes. -/
theorem decodedLen_bounds {input : Bytes} {recordLen : Nat} (h : decodedLen input = .ok recordLen) :
    0 < recordLen ∧ recordLen ≤ input.length := by
  obtain ⟨record, -, hlength, hchunk, -⟩ := decodedLen_eq_ok h
  have hpos := chunk_pos record
  have hle := congrArg List.length hchunk
  rw [List.length_take] at hle
  omega

/-! ## The number of rounds -/

/-- A loop that goes on behind the record it finds has enough rounds if it has as many as there are
bytes: the bytes that are left shrink in every round. -/
theorem rounds_eq {σ β : Type} (loop : Nat → σ → Bytes → β)
    (hnil : ∀ rounds rounds' state, loop rounds state [] = loop rounds' state [])
    (hstep : ∀ rounds rounds' state input,
      (∀ recordLen state', decodedLen input = .ok recordLen →
        loop rounds state' (input.drop recordLen) = loop rounds' state' (input.drop recordLen)) →
      loop (rounds + 1) state input = loop (rounds' + 1) state input)
    {rounds rounds' : Nat} {input : Bytes} (h : input.length ≤ rounds)
    (h' : input.length ≤ rounds') (state : σ) :
    loop rounds state input = loop rounds' state input := by
  induction rounds generalizing rounds' state input with
  | zero =>
    obtain rfl : input = [] := List.length_eq_zero_iff.1 (by omega)
    exact hnil _ _ _
  | succ rounds ih =>
    cases rounds' with
    | zero =>
      obtain rfl : input = [] := List.length_eq_zero_iff.1 (by omega)
      exact hnil _ _ _
    | succ rounds' =>
      refine hstep _ _ _ _ fun recordLen state' hdec => ?_
      have hbounds := decodedLen_bounds hdec
      apply ih
      · rw [List.length_drop]
        omega
      · rw [List.length_drop]
        omega

section Rounds

variable {rounds : Nat} {input : Bytes}

theorem completePrefixEndsFrom_rounds (h : input.length ≤ rounds) :
    completePrefixEndsFrom rounds 0 input = completePrefixEnds input := by
  refine rounds_eq completePrefixEndsFrom ?_ ?_ h (Nat.le_refl _) 0
  · intro rounds rounds' consumed
    cases rounds <;> cases rounds' <;> rfl
  · intro rounds rounds' consumed input hrest
    unfold completePrefixEndsFrom
    cases hdec : decodedLen input with
    | error error => rfl
    | ok recordLen =>
      simp only
      rw [hrest _ _ hdec]

theorem decodeCompletePrefixFrom_rounds (h : input.length ≤ rounds) :
    decodeCompletePrefixFrom rounds input = decodeCompletePrefix input := by
  refine rounds_eq (fun rounds (_ : Unit) => decodeCompletePrefixFrom rounds) ?_ ?_ h
    (Nat.le_refl _) ()
  · intro rounds rounds' _
    cases rounds <;> cases rounds' <;> rfl
  · intro rounds rounds' _ input hrest
    simp only [decodeCompletePrefixFrom]
    cases hdec : decodedLen input with
    | error error => rfl
    | ok recordLen =>
      simp only
      rw [hrest _ () hdec]

theorem decodeAllFrom_rounds (h : input.length ≤ rounds) :
    decodeAllFrom rounds input = decodeAll input := by
  refine rounds_eq (fun rounds (_ : Unit) => decodeAllFrom rounds) ?_ ?_ h (Nat.le_refl _) ()
  · intro rounds rounds' _
    cases rounds <;> cases rounds' <;> rfl
  · intro rounds rounds' _ input hrest
    simp only [decodeAllFrom]
    cases hdec : decodedLen input with
    | error error => rfl
    | ok recordLen =>
      simp only
      rw [hrest _ () hdec]

theorem validateAllFrom_rounds (h : input.length ≤ rounds) :
    validateAllFrom rounds 0 input = validateAll input := by
  refine rounds_eq validateAllFrom ?_ ?_ h (Nat.le_refl _) 0
  · intro rounds rounds' records
    cases rounds <;> cases rounds' <;> rfl
  · intro rounds rounds' records input hrest
    unfold validateAllFrom
    cases hdec : decodedLen input with
    | error error => rfl
    | ok recordLen =>
      simp only
      rw [hrest _ _ hdec]

end Rounds

/-! ## Complete segments -/

theorem streamBytes_of_decodeAllFrom {rounds : Nat} {input : Bytes} {records : List RecordFrame}
    (hrounds : input.length ≤ rounds) (h : decodeAllFrom rounds input = .ok records) :
    (∀ r ∈ records, r.Fits) ∧ input = streamBytes records := by
  induction rounds generalizing input records with
  | zero =>
    obtain rfl : input = [] := List.length_eq_zero_iff.1 (by omega)
    cases h
    exact ⟨fun r hr => absurd hr List.not_mem_nil, rfl⟩
  | succ rounds ih =>
    rw [decodeAllFrom] at h
    by_cases hempty : input.isEmpty = true
    · rw [if_pos hempty] at h
      cases h
      exact ⟨fun r hr => absurd hr List.not_mem_nil, List.isEmpty_iff.1 hempty⟩
    · rw [if_neg hempty] at h
      cases hdec : decodedLen input with
      | error error =>
        rw [hdec] at h
        cases h
      | ok totalLen =>
        rw [hdec] at h
        obtain ⟨record, hfits, -, hchunk, hpayload⟩ := decodedLen_eq_ok hdec
        have hbounds := decodedLen_bounds hdec
        cases hrest : decodeAllFrom rounds (input.drop totalLen) with
        | error error =>
          simp only [hrest] at h
          cases h
        | ok rest =>
          simp only [hrest] at h
          cases h
          have hlength : (input.drop totalLen).length ≤ rounds := by
            rw [List.length_drop]
            omega
          obtain ⟨hall, hbytes⟩ := ih hlength hrest
          rw [← hpayload]
          refine ⟨List.forall_mem_cons.2 ⟨hfits, hall⟩, ?_⟩
          rw [streamBytes_cons, hchunk, ← hbytes, List.take_append_drop]

theorem decodeAll_eq_ok_iff {input : Bytes} {records : List RecordFrame} :
    decodeAll input = .ok records ↔ Encodes records input := by
  rw [encodes_iff]
  constructor
  · exact streamBytes_of_decodeAllFrom (Nat.le_refl _)
  · rintro ⟨hfits, rfl⟩
    exact decodeAll_streamBytes hfits

/-- Validation counts what decoding returns, and fails with the same error. -/
theorem validateAllFrom_eq (rounds records : Nat) (input : Bytes) :
    validateAllFrom rounds records input =
      (decodeAllFrom rounds input).map fun decoded => records + decoded.length := by
  induction rounds generalizing records input with
  | zero => rfl
  | succ rounds ih =>
    rw [validateAllFrom, decodeAllFrom]
    by_cases hempty : input.isEmpty = true
    · rw [if_pos hempty, if_pos hempty]
      rfl
    · rw [if_neg hempty, if_neg hempty]
      cases hdec : decodedLen input with
      | error error => rfl
      | ok consumed =>
        simp only
        rw [ih]
        cases decodeAllFrom rounds (input.drop consumed) with
        | error error => rfl
        | ok rest =>
          show Except.ok (records + 1 + rest.length) = Except.ok (records + (rest.length + 1))
          rw [Nat.add_assoc, Nat.add_comm 1]

theorem validateAll_eq (input : Bytes) : validateAll input = (decodeAll input).map List.length := by
  rw [validateAll, validateAllFrom_eq, decodeAll]
  simp only [Nat.zero_add]

/-! ## The complete prefix of a segment -/

theorem decodeCompletePrefixFrom_consumed (rounds : Nat) (input : Bytes) :
    (decodeCompletePrefixFrom rounds input).2 =
      (streamBytes (decodeCompletePrefixFrom rounds input).1).length := by
  induction rounds generalizing input with
  | zero => rfl
  | succ rounds ih =>
    unfold decodeCompletePrefixFrom
    cases hdec : decodedLen input with
    | error error => rfl
    | ok recordLen =>
      obtain ⟨record, -, hlength, -, hpayload⟩ := decodedLen_eq_ok hdec
      simp only
      rw [← hpayload, streamBytes_cons, List.length_append, hlength, ih]

/-- Record framing is an exact code that is stable under cutting. Decoding inverts the concatenation
of the encodings, validation counts what decoding returns, the complete prefix is the longest stream
of records at the front with its length and its ends, more bytes only add records to it, and the
loops have enough rounds. -/
theorem record_framing_exact (b : Bytes) :
    (∀ rs : List RecordFrame, (∀ r ∈ rs, r.payload.length ≤ maxPayloadBytes) ↔
      ∃ bytes, Encodes rs bytes) ∧
    (∀ rs, decodeAll b = .ok rs ↔ Encodes rs b) ∧
    validateAll b = (decodeAll b).map List.length ∧
    (∃ bytes, Encodes (decodeCompletePrefix b).1 bytes ∧ bytes <+: b ∧
      (decodeCompletePrefix b).2 = bytes.length) ∧
    (∀ rs bytes, Encodes rs bytes → bytes <+: b → rs <+: (decodeCompletePrefix b).1) ∧
    completePrefixEnds b = recordEnds (decodeCompletePrefix b).1 ∧
    (∀ b', b <+: b' → (decodeCompletePrefix b).1 <+: (decodeCompletePrefix b').1) ∧
    ∀ rounds, b.length ≤ rounds →
      decodeAllFrom rounds b = decodeAll b ∧ validateAllFrom rounds 0 b = validateAll b ∧
      decodeCompletePrefixFrom rounds b = decodeCompletePrefix b ∧
      completePrefixEndsFrom rounds 0 b = completePrefixEnds b := by
  refine ⟨fun rs => ?_, fun rs => decodeAll_eq_ok_iff, validateAll_eq b, ?_, ?_,
    completePrefixEnds_eq b, ?_, ?_⟩
  · constructor
    · intro hpayloads
      exact ⟨_, encodes_iff.2 ⟨fun r hr => fits_iff.2 (hpayloads r hr), rfl⟩⟩
    · rintro ⟨bytes, hencodes⟩ r hr
      exact fits_iff.1 ((encodes_iff.1 hencodes).1 r hr)
  · exact ⟨_, encodes_iff.2 ⟨fits_completeRecords b, rfl⟩, streamBytes_completeRecords b,
      decodeCompletePrefixFrom_consumed _ b⟩
  · intro rs bytes hencodes hbytes
    obtain ⟨hfits, rfl⟩ := encodes_iff.1 hencodes
    exact prefix_completeRecords hfits hbytes
  · intro b' hb
    exact prefix_completeRecords (fits_completeRecords b) ((streamBytes_completeRecords b).trans hb)
  · intro rounds hrounds
    exact ⟨decodeAllFrom_rounds hrounds, validateAllFrom_rounds hrounds,
      decodeCompletePrefixFrom_rounds hrounds, completePrefixEndsFrom_rounds hrounds⟩

end Chorus
