import Chorus.Segment.Frame
import Mathlib.Data.List.Basic
import Mathlib.Data.List.TakeWhile

/-!
# Framing of a record stream

A lane persists some prefix of the bytes of the record stream, cut anywhere. Decoding any bytes
finds a stream at their front (`streamBytes_completeRecords`), and every stream at their front is
found (`prefix_completeRecords`). So a cut gives exactly the records that lie wholly inside it
(`le_completeCount_iff`).
-/

namespace Chorus

open RecordFrame

/-- The record's length fits the header, so `encode` accepts it. -/
def RecordFrame.Fits (record : RecordFrame) : Prop := headerLen + record.payload.length < u32Limit

theorem encode_eq_ok {record : RecordFrame} {bytes : Bytes} :
    record.encode = .ok bytes ↔ record.Fits ∧ bytes = record.chunk := by
  by_cases h : headerLen + record.payload.length < u32Limit
  · simp [encode, encodedLen, Fits, Except.map, h, eq_comm]
  · simp [encode, encodedLen, Fits, Except.map, h]

theorem fromBeBytes_putU32 {value : Nat} (h : value < u32Limit) :
    fromBeBytes (UInt8.ofNat (value / 2 ^ 24)) (UInt8.ofNat (value / 2 ^ 16))
      (UInt8.ofNat (value / 2 ^ 8)) (UInt8.ofNat value) = value := by
  simp only [fromBeBytes, UInt8.toNat_ofNat', u32Limit] at h ⊢
  omega

theorem length_chunk (record : RecordFrame) :
    record.chunk.length = headerLen + record.payload.length := by
  rw [chunk, List.length_append]
  rfl

theorem chunk_pos (record : RecordFrame) : 0 < record.chunk.length := by
  rw [length_chunk, headerLen]
  omega

/-- A record at the front is found whatever follows it. -/
theorem decodedLen_append {record : RecordFrame} (hfits : record.Fits) (rest : Bytes) :
    decodedLen (record.chunk ++ rest) = .ok record.chunk.length := by
  rw [length_chunk]
  simp only [chunk, putU32, List.cons_append, List.nil_append, decodedLen, fromBeBytes_putU32 hfits]
  rw [if_neg (by omega), if_neg (by simp [headerLen]; omega)]

theorem length_endsFrom (offset : Nat) (records : List RecordFrame) :
    (endsFrom offset records).length = records.length := by
  induction records generalizing offset with
  | nil => rfl
  | cons record records ih => simp [endsFrom, ih]

theorem streamBytes_cons (record : RecordFrame) (records : List RecordFrame) :
    streamBytes (record :: records) = record.chunk ++ streamBytes records := rfl

theorem streamBytes_append (records records' : List RecordFrame) :
    streamBytes (records ++ records') = streamBytes records ++ streamBytes records' := by
  simp [streamBytes]

theorem getElem?_endsFrom (offset : Nat) (records : List RecordFrame) (i : Nat) :
    (endsFrom offset records)[i]? =
      if i < records.length then some (offset + (streamBytes (records.take (i + 1))).length)
      else none := by
  induction records generalizing offset i with
  | nil => rfl
  | cons record records ih =>
    cases i with
    | zero => simp [endsFrom, streamBytes]
    | succ i =>
      rw [endsFrom, List.getElem?_cons_succ, ih]
      simp only [List.length_cons, Nat.add_lt_add_iff_right, List.take_succ_cons, streamBytes_cons,
        List.length_append, Nat.add_assoc]

theorem getElem?_recordEnds (records : List RecordFrame) (i : Nat) :
    (recordEnds records)[i]? =
      if i < records.length then some (streamBytes (records.take (i + 1))).length else none := by
  rw [recordEnds, getElem?_endsFrom, Nat.zero_add]

theorem length_recordEnds (records : List RecordFrame) :
    (recordEnds records).length = records.length := length_endsFrom 0 records

theorem streamBytes_mono {records records' : List RecordFrame} (h : records <+: records') :
    streamBytes records <+: streamBytes records' := by
  obtain ⟨t, rfl⟩ := h
  rw [streamBytes_append]
  exact List.prefix_append _ _

theorem streamBytes_take_mono (records : List RecordFrame) (k : Nat) :
    streamBytes (records.take k) <+: streamBytes records :=
  streamBytes_mono (List.take_prefix _ _)

theorem length_streamBytes_take_lt {records : List RecordFrame} {k m : Nat} (hkm : k < m)
    (hm : m ≤ records.length) :
    (streamBytes (records.take k)).length < (streamBytes (records.take m)).length := by
  have hsplit : records.take m = records.take k ++ (records.take m).drop k := by
    have htake : (records.take m).take k = records.take k := by
      rw [List.take_take, Nat.min_eq_left hkm.le]
    rw [← htake, List.take_append_drop]
  have hne : (records.take m).drop k ≠ [] := by
    rw [ne_eq, List.drop_eq_nil_iff, List.length_take, Nat.min_eq_left hm]
    omega
  obtain ⟨record, rest, hrest⟩ := List.exists_cons_of_ne_nil hne
  rw [hsplit, hrest, streamBytes_append, List.length_append, streamBytes_cons, List.length_append]
  have := chunk_pos record
  omega

theorem endsFrom_take (offset : Nat) (records : List RecordFrame) (k : Nat) :
    endsFrom offset (records.take k) = (endsFrom offset records).take k := by
  induction records generalizing offset k with
  | nil => simp [endsFrom]
  | cons record records ih =>
    cases k with
    | zero => rfl
    | succ k => simp [endsFrom, ih]

theorem getLast?_take_recordEnds {records : List RecordFrame} {k : Nat} (hk : k ≤ records.length) :
    ((recordEnds records).take k).getLast?.getD 0 = (streamBytes (records.take k)).length := by
  cases k with
  | zero => rfl
  | succ k =>
    have hlen : ((recordEnds records).take (k + 1)).length = k + 1 := by
      rw [List.length_take, length_recordEnds, Nat.min_eq_left hk]
    rw [List.getLast?_eq_getElem?, hlen, Nat.add_sub_cancel, List.getElem?_take_of_lt (by omega),
      getElem?_recordEnds, if_pos (by omega), Option.getD_some]

theorem decodeAll_streamBytes {records : List RecordFrame} (hfits : ∀ r ∈ records, r.Fits) :
    decodeAll (streamBytes records) = .ok records := by
  have hfrom : ∀ rounds, (streamBytes records).length ≤ rounds →
      decodeAllFrom rounds (streamBytes records) = .ok records := by
    intro rounds hrounds
    induction records generalizing rounds with
    | nil => cases rounds <;> rfl
    | cons record records ih =>
      rw [streamBytes_cons] at hrounds ⊢
      have hpos := chunk_pos record
      rw [List.length_append] at hrounds
      obtain ⟨rounds, rfl⟩ : ∃ k, rounds = k + 1 := ⟨rounds - 1, by omega⟩
      have hdec := decodedLen_append (hfits record List.mem_cons_self) (streamBytes records)
      have hne : (record.chunk ++ streamBytes records).isEmpty = false := by
        rw [List.isEmpty_eq_false_iff, ne_eq, ← List.length_eq_zero_iff, List.length_append]
        omega
      have hpayload : (record.chunk.drop headerLen) = record.payload := rfl
      rw [decodeAllFrom, hne, hdec]
      simp only [Bool.false_eq_true, if_false, List.drop_left, List.take_left, hpayload,
        ih (fun r hr => hfits r (List.mem_cons_of_mem _ hr)) rounds (by omega), Except.map]
  exact hfrom _ (Nat.le_refl _)

/-! ## The complete records of arbitrary bytes -/

/-- A record that is found at the front is there with its header and all its bytes. -/
theorem decodedLen_eq_ok {input : Bytes} {recordLen : Nat} (h : decodedLen input = .ok recordLen) :
    ∃ record : RecordFrame, record.Fits ∧ record.chunk.length = recordLen ∧
      record.chunk = input.take recordLen ∧
      record.payload = (input.take recordLen).drop headerLen := by
  unfold decodedLen at h
  split at h
  · rename_i b₀ b₁ b₂ b₃ tail
    simp only at h
    split_ifs at h with hshort hlong
    cases h
    generalize hlen : fromBeBytes b₀ b₁ b₂ b₃ = totalLen at hshort hlong ⊢
    have hlimit : totalLen < u32Limit := by
      rw [← hlen]
      simp only [fromBeBytes, u32Limit]
      have h₀ := b₀.toNat_lt
      have h₁ := b₁.toNat_lt
      have h₂ := b₂.toNat_lt
      have h₃ := b₃.toNat_lt
      omega
    have hsize : ((b₀ :: b₁ :: b₂ :: b₃ :: tail).take totalLen).length = totalLen := by
      rw [List.length_take]
      omega
    have hpayload :
        headerLen + (((b₀ :: b₁ :: b₂ :: b₃ :: tail).take totalLen).drop headerLen).length =
        totalLen := by
      rw [List.length_drop, hsize]
      omega
    have hheader : putU32 totalLen = [b₀, b₁, b₂, b₃] := by
      have hbyte : ∀ {k : Nat} {b : UInt8}, k % 256 = b.toNat → UInt8.ofNat k = b := by
        intro k b hk
        apply UInt8.toNat_inj.1
        rw [UInt8.toNat_ofNat']
        exact hk
      have h₀ := b₀.toNat_lt
      have h₁ := b₁.toNat_lt
      have h₂ := b₂.toNat_lt
      have h₃ := b₃.toNat_lt
      rw [← hlen, putU32, fromBeBytes, hbyte (b := b₀) (by omega), hbyte (b := b₁) (by omega),
        hbyte (b := b₂) (by omega), hbyte (b := b₃) (by omega)]
    have hfour : ((b₀ :: b₁ :: b₂ :: b₃ :: tail).take totalLen).take headerLen =
        [b₀, b₁, b₂, b₃] := by
      rw [List.take_take, Nat.min_eq_left (by omega)]
      rfl
    refine ⟨⟨((b₀ :: b₁ :: b₂ :: b₃ :: tail).take totalLen).drop headerLen⟩, ?_, ?_, ?_, rfl⟩
    · rw [RecordFrame.Fits, hpayload]
      exact hlimit
    · rw [length_chunk, hpayload]
    · rw [chunk, hpayload, hheader, ← hfour, List.take_append_drop]
  · cases h

/-- The ends that are found in arbitrary bytes are those of the records that are decoded from
them. -/
theorem decodeCompletePrefixFrom_spec (rounds consumed : Nat) (input : Bytes) :
    (∀ r ∈ (decodeCompletePrefixFrom rounds input).1, r.Fits) ∧
      streamBytes (decodeCompletePrefixFrom rounds input).1 <+: input ∧
      completePrefixEndsFrom rounds consumed input =
        endsFrom consumed (decodeCompletePrefixFrom rounds input).1 := by
  induction rounds generalizing consumed input with
  | zero => exact ⟨nofun, List.nil_prefix, rfl⟩
  | succ rounds ih =>
    unfold decodeCompletePrefixFrom completePrefixEndsFrom
    cases hdec : decodedLen input with
    | error error => exact ⟨nofun, List.nil_prefix, rfl⟩
    | ok recordLen =>
      obtain ⟨record, hfits, hlength, hchunk, hpayload⟩ := decodedLen_eq_ok hdec
      obtain ⟨hrest, hbytes, hends⟩ := ih (consumed + recordLen) (input.drop recordLen)
      simp only
      rw [← hpayload, hends]
      refine ⟨?_, ?_, ?_⟩
      · intro r hr
        rcases List.mem_cons.1 hr with rfl | hr
        · exact hfits
        · exact hrest r hr
      · rw [streamBytes_cons, hchunk]
        obtain ⟨tail, htail⟩ := hbytes
        refine ⟨tail, ?_⟩
        rw [List.append_assoc, htail, List.take_append_drop]
      · rw [endsFrom, hlength]

def completeRecords (input : Bytes) : List RecordFrame := (decodeCompletePrefix input).1

section Complete

variable (input : Bytes)

theorem fits_completeRecords : ∀ r ∈ completeRecords input, r.Fits :=
  (decodeCompletePrefixFrom_spec input.length 0 input).1

theorem streamBytes_completeRecords : streamBytes (completeRecords input) <+: input :=
  (decodeCompletePrefixFrom_spec input.length 0 input).2.1

theorem completePrefixEnds_eq : completePrefixEnds input = recordEnds (completeRecords input) :=
  (decodeCompletePrefixFrom_spec input.length 0 input).2.2

theorem take_getLast?_completePrefixEnds_eq :
    input.take ((completePrefixEnds input).getLast?.getD 0) =
      streamBytes (completeRecords input) := by
  have hlast := getLast?_take_recordEnds (Nat.le_refl (completeRecords input).length)
  rw [← length_recordEnds, List.take_length, length_recordEnds, List.take_length] at hlast
  rw [completePrefixEnds_eq, hlast]
  exact (List.prefix_iff_eq_take.1 (streamBytes_completeRecords input)).symm

end Complete

/-- A stream at the front of some bytes holds only records that are found there. -/
theorem prefix_decodeCompletePrefixFrom {records : List RecordFrame} (hfits : ∀ r ∈ records, r.Fits)
    {rounds : Nat} {input : Bytes} (hrounds : input.length ≤ rounds)
    (h : streamBytes records <+: input) :
    records <+: (decodeCompletePrefixFrom rounds input).1 := by
  induction records generalizing rounds input with
  | nil => exact List.nil_prefix
  | cons record records ih =>
    obtain ⟨rest, hinput⟩ := h
    rw [streamBytes_cons, List.append_assoc] at hinput
    have hpos := chunk_pos record
    have hlength := congrArg List.length hinput
    rw [List.length_append] at hlength
    have hdec : decodedLen input = .ok record.chunk.length := by
      rw [← hinput]
      exact decodedLen_append (hfits record List.mem_cons_self) _
    cases rounds with
    | zero => omega
    | succ rounds =>
      have htake : input.take record.chunk.length = record.chunk := by
        rw [← hinput, List.take_left]
      have hdrop : input.drop record.chunk.length = streamBytes records ++ rest := by
        rw [← hinput, List.drop_left]
      have hrest :
          records <+: (decodeCompletePrefixFrom rounds (input.drop record.chunk.length)).1 := by
        apply ih fun r hr => hfits r (List.mem_cons_of_mem _ hr)
        · rw [List.length_drop]
          omega
        · rw [hdrop]
          exact List.prefix_append _ _
      unfold decodeCompletePrefixFrom
      simp only [hdec]
      have hpayload : record.chunk.drop headerLen = record.payload := rfl
      rw [htake, hpayload]
      exact List.cons_prefix_cons.2 ⟨rfl, hrest⟩

theorem prefix_completeRecords {records : List RecordFrame} {input : Bytes}
    (hfits : ∀ r ∈ records, r.Fits) (h : streamBytes records <+: input) :
    records <+: completeRecords input :=
  prefix_decodeCompletePrefixFrom hfits (Nat.le_refl _) h

theorem completeRecords_streamBytes {records : List RecordFrame} (hfits : ∀ r ∈ records, r.Fits) :
    completeRecords (streamBytes records) = records := by
  obtain ⟨rest, hrest⟩ := prefix_completeRecords hfits (List.prefix_refl (streamBytes records))
  have hle := (streamBytes_completeRecords (streamBytes records)).length_le
  rw [← hrest, streamBytes_append, List.length_append] at hle
  cases rest with
  | nil => rw [← hrest, List.append_nil]
  | cons record rest =>
    have hpos := chunk_pos record
    rw [streamBytes_cons, List.length_append] at hle
    omega

/-! ## The complete records of a cut -/

def completeCount (input : Bytes) : Nat := (completePrefixEnds input).length

theorem completeCount_eq (input : Bytes) :
    completeCount input = (completeRecords input).length := by
  rw [completeCount, completePrefixEnds_eq, length_recordEnds]

section Cut

variable {records : List RecordFrame} {input : Bytes}

theorem completeRecords_of_cut (hfits : ∀ r ∈ records, r.Fits) (h : input <+: streamBytes records) :
    completeRecords input <+: records := by
  have hfound := prefix_completeRecords (fits_completeRecords input)
      ((streamBytes_completeRecords input).trans h)
  rwa [completeRecords_streamBytes hfits] at hfound

theorem completeCount_le (hfits : ∀ r ∈ records, r.Fits) (h : input <+: streamBytes records) :
    completeCount input ≤ records.length := by
  rw [completeCount_eq]
  exact (completeRecords_of_cut hfits h).length_le

/-- Where a cut has its complete records: exactly those whose last byte lies inside. -/
theorem le_completeCount_iff (hfits : ∀ r ∈ records, r.Fits) (h : input <+: streamBytes records)
    {m : Nat} (hm : m ≤ records.length) :
    m ≤ completeCount input ↔ (streamBytes (records.take m)).length ≤ input.length := by
  have hlength : (records.take m).length = m := by rw [List.length_take, Nat.min_eq_left hm]
  rw [completeCount_eq]
  constructor
  · intro hle
    have hpre : records.take m <+: completeRecords input :=
      List.prefix_of_prefix_length_le (List.take_prefix _ _) (completeRecords_of_cut hfits h)
        (hlength.trans_le hle)
    exact ((streamBytes_mono hpre).trans (streamBytes_completeRecords input)).length_le
  · intro hle
    have hfound := prefix_completeRecords (fun r hr => hfits r (List.mem_of_mem_take hr))
      (List.prefix_of_prefix_length_le (streamBytes_take_mono records m) h hle)
    exact hlength.symm.trans_le hfound.length_le

end Cut

theorem chunk_injective : Function.Injective RecordFrame.chunk := by
  intro record record' h
  have hpayload := congrArg (List.drop headerLen) h
  cases record
  cases record'
  exact congrArg RecordFrame.mk hpayload

theorem streamBytes_inj {records records' : List RecordFrame} (hfits : ∀ r ∈ records, r.Fits)
    (hfits' : ∀ r ∈ records', r.Fits) : streamBytes records = streamBytes records' ↔
    records = records' := by
  constructor
  · intro h
    have hdec := decodeAll_streamBytes hfits
    rw [h, decodeAll_streamBytes hfits'] at hdec
    exact (Except.ok.inj hdec).symm
  · rintro rfl
    rfl

end Chorus
