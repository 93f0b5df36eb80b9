import Chorus.Segment.Proofs.SelectionProofs
import Chorus.Segment.Recovery

/-!
# What recovery decides from the copies it read

From cuts of one record stream recovery returns the complete records of the longest copy, cut at the
committed size and at the expected count (`decideCandidate_of_cuts`). `holds_of_held` is the
counting argument: an offset that a majority of the zones holds is never above the committed size,
and one of the copies that were read reaches it.
-/

namespace Chorus

open Quorum RecordFrame

variable {records : List RecordFrame} {n : Nat}

/-- The canonical prefix of the first `count` records. -/
def canonicalOf (records : List RecordFrame) (count : Nat) : CanonicalPrefix :=
  ⟨streamBytes (records.take count), (recordEnds records).take count⟩

/-- A recovered candidate holds exactly the first `count` records. -/
def RecoveryCandidate.Holds (records : List RecordFrame) (count : Nat) : RecoveryCandidate → Prop
  | .absent => count = 0
  | .empty _ => count = 0
  | .nonEmpty tail => 0 < count ∧ count ≤ records.length ∧
      tail.canonical = canonicalOf records count

theorem take_cut {input : Bytes} (h : input <+: streamBytes records) (size : Nat) :
    input.take size <+: streamBytes records := (List.take_prefix _ _).trans h

/-- What is decided from cuts of one stream. -/
theorem decideCandidate_of_cuts (hfits : ∀ r ∈ records, r.Fits) {crc : Bytes → Nat}
    {quorum size maxSize : Nat} {expected : Option Nat} {evidence : Evidence} (h₀ : 0 < quorum)
    (hq : quorum ≤ (evidence.snapshots ++ evidence.placeholders).length)
    (hcuts : ∀ s ∈ evidence.snapshots ++ evidence.placeholders, s.bytes <+: streamBytes records) :
    ∃ count ≤ records.length,
      (∀ s ∈ evidence.snapshots, completeCount (s.bytes.take size) ≤ count) ∧
      ((∃ s ∈ evidence.snapshots, completeCount (s.bytes.take size) = count) ∨
        ∃ s ∈ evidence.placeholders, completeCount s.bytes = count) ∧
      (∀ e ∈ expected, count < e →
        decideCandidate crc quorum size maxSize expected evidence =
          .error (.recoveryPrefixTooShort e count)) ∧
      ((∀ e ∈ expected, e ≤ count) → ∃ candidate,
        decideCandidate crc quorum size maxSize expected evidence = .ok candidate ∧
          candidate.Holds records (expected.getD count) ∧
          ∀ tail, candidate = .nonEmpty tail →
            tail.crc32c = crc tail.canonical.bytes ∧
            tail.hadDiscardedSuffix =
              decide ((streamBytes (records.take count)).length < maxSize)) := by
  generalize hcut : (evidence.snapshots.map fun s => { s with bytes := s.bytes.take size }) = cut
  have hcuts' : ∀ s ∈ cut ++ evidence.placeholders, s.bytes <+: streamBytes records := by
    intro s hs
    rcases List.mem_append.1 hs with hs | hs
    · rw [← hcut, List.mem_map] at hs
      obtain ⟨s₀, hs₀, rfl⟩ := hs
      exact take_cut (hcuts s₀ (List.mem_append_left _ hs₀)) size
    · exact hcuts s (List.mem_append_right _ hs)
  have hlen : quorum ≤ (cut ++ evidence.placeholders).length := by
    rw [← hcut, List.length_append, List.length_map, ← List.length_append]
    exact hq
  obtain ⟨i, s, hs, hsel, hmax⟩ := selectCanonicalQuorum_of_cuts hfits hcuts' h₀ hlen
  have hsmem := List.mem_of_getElem? hs
  have hcount := completeCount_le hfits (hcuts' s hsmem)
  refine ⟨completeCount s.bytes, hcount, ?_, ?_, ?_, ?_⟩
  · intro s₀ hs₀
    have hin : { s₀ with bytes := s₀.bytes.take size } ∈ cut := by
      rw [← hcut]
      exact List.mem_map.2 ⟨s₀, hs₀, rfl⟩
    exact hmax _ (List.mem_append_left _ hin)
  · rcases List.mem_append.1 hsmem with hin | hin
    · rw [← hcut, List.mem_map] at hin
      obtain ⟨s₀, hs₀, rfl⟩ := hin
      exact Or.inl ⟨s₀, hs₀, rfl⟩
    · exact Or.inr ⟨s, hin, rfl⟩
  · intro e he hlt
    obtain rfl := Option.mem_def.1 he
    have hends : ((recordEnds records).take (completeCount s.bytes)).length =
        completeCount s.bytes := by
      rw [List.length_take, length_recordEnds, Nat.min_eq_left hcount]
    unfold decideCandidate
    simp only [hcut, hsel, hends, Option.filter_some, hlt, decide_true, if_true]
  · intro hexp
    have hends : ((recordEnds records).take (completeCount s.bytes)).length =
        completeCount s.bytes := by
      rw [List.length_take, length_recordEnds, Nat.min_eq_left hcount]
    have hgetD : expected.getD (completeCount s.bytes) ≤ completeCount s.bytes := by
      cases expected with
      | none => exact Nat.le_refl _
      | some e => exact hexp e rfl
    have hfilter : (expected.filter fun e => decide (completeCount s.bytes < e)) = none := by
      cases expected with
      | none => rfl
      | some e =>
        rw [Option.filter_some, decide_eq_false (Nat.not_lt.2 (hexp e rfl))]
        rfl
    have hrecordEnds : limitRecords expected ((recordEnds records).take (completeCount s.bytes)) =
        (recordEnds records).take (expected.getD (completeCount s.bytes)) := by
      cases expected with
      | none => rfl
      | some e =>
        rw [limitRecords, List.take_take, Nat.min_eq_left (hexp e rfl)]
        rfl
    generalize hc : expected.getD (completeCount s.bytes) = count at *
    have hcount' : count ≤ records.length := by omega
    have hlast := getLast?_take_recordEnds hcount'
    have htake : s.bytes.take (streamBytes (records.take count)).length =
        streamBytes (records.take count) := by
      have hin := (le_completeCount_iff hfits (hcuts' s hsmem) hcount').1 hgetD
      have hpre := streamBytes_take_mono records count
      exact (List.prefix_iff_eq_take.1
        (List.prefix_of_prefix_length_le hpre (hcuts' s hsmem) hin)).symm
    unfold decideCandidate
    simp only [hcut, hsel, hends, hfilter, hrecordEnds]
    cases hl : ((recordEnds records).take count).getLast? with
    | none =>
      have hzero : count = 0 := by
        rw [List.getLast?_eq_none_iff] at hl
        have := congrArg List.length hl
        rw [List.length_take, length_recordEnds, Nat.min_eq_left hcount'] at this
        simpa using this
      exact ⟨_, rfl, hzero, fun tail htail => by cases htail⟩
    | some canonicalLen =>
      rw [hl, Option.getD_some] at hlast
      have hpos : 0 < count := by
        rcases Nat.eq_zero_or_pos count with rfl | hpos
        · simp at hl
        · exact hpos
      refine ⟨_, rfl, ⟨hpos, hcount', ?_⟩, ?_⟩
      · simp only [hs, Option.map_some, Option.getD_some, canonicalOf, hlast, htake]
      · intro tail htail
        cases htail
        refine ⟨rfl, ?_⟩
        rw [getLast?_take_recordEnds hcount]

/-! ## The counting argument -/

/-- The copies that were read come from different zones and hold what those zones hold. -/
structure EvidenceFrom (held : Fin n → Option Bytes) (evidence : Evidence) : Prop where
  held : ∀ s ∈ evidence.snapshots ++ evidence.placeholders, ∃ z : Fin n, s.zone = z ∧
    held z = some s.bytes
  distinct : ((evidence.snapshots ++ evidence.placeholders).map (·.zone)).Nodup
  empty : ∀ s ∈ evidence.placeholders, s.bytes = []

/-- A candidate that follows from what the zones that answered hold. -/
def Justified (crc : Bytes → Nat) (expected : Option Nat) (held : Fin n → Option Bytes)
    (candidate : RecoveryCandidate) : Prop :=
  (candidate = .absent ∧ ∀ z bytes, held z = some bytes → bytes = []) ∨
  ((∃ tokens, candidate = .empty tokens) ∧
    selectRecoverySize (collect fun z => (held z).map List.length) n = some 0) ∨
  ∃ size maxSize evidence,
    selectRecoverySize (collect fun z => (held z).map List.length) n = some size ∧
    EvidenceFrom held evidence ∧
    decideCandidate crc (majority n) size maxSize expected evidence = .ok candidate

/-- One of the copies that were read belongs to any given majority of zones. -/
theorem EvidenceFrom.exists_mem {held : Fin n → Option Bytes} {evidence : Evidence}
    (h : EvidenceFrom held evidence) {holders : Finset (Fin n)} (hq : majority n ≤ holders.card)
    (hlen : majority n ≤ (evidence.snapshots ++ evidence.placeholders).length) :
    ∃ z ∈ holders, ∃ s ∈ evidence.snapshots ++ evidence.placeholders, held z = some s.bytes := by
  obtain ⟨zones, hzones⟩ : ∃ zones : Finset (Fin n),
      zones.card = (evidence.snapshots ++ evidence.placeholders).length ∧
      ∀ z ∈ zones, ∃ s ∈ evidence.snapshots ++ evidence.placeholders, s.zone = z := by
    refine ⟨Finset.univ.filter fun z : Fin n =>
      (z : Nat) ∈ (evidence.snapshots ++ evidence.placeholders).map (·.zone), ?_, fun z hz => ?_⟩
    · rw [← List.length_map (f := fun s : ReplicaSnapshot => s.zone),
        ← List.toFinset_card_of_nodup h.distinct, ← Finset.card_map Fin.valEmbedding]
      congr 1
      ext k
      simp only [Finset.mem_map, Finset.mem_filter, Finset.mem_univ, true_and,
        Fin.valEmbedding_apply, List.mem_toFinset]
      constructor
      · rintro ⟨z, hz, rfl⟩
        exact hz
      · intro hk
        obtain ⟨s, hs, rfl⟩ := List.mem_map.1 hk
        obtain ⟨z, hz, -⟩ := h.held s hs
        exact ⟨z, hz ▸ hk, hz.symm⟩
    · rw [Finset.mem_filter, List.mem_map] at hz
      obtain ⟨-, s, hs, heq⟩ := hz
      exact ⟨s, hs, heq⟩
  have htwo := lt_two_mul_majority n
  obtain ⟨z, hz, hz'⟩ := exists_mem_inter (A := holders) (B := zones) (by omega)
  obtain ⟨s, hs, hsz⟩ := hzones.2 z hz'
  obtain ⟨z', hz₁, hheld⟩ := h.held s hs
  obtain rfl : z = z' := Fin.ext (by omega)
  exact ⟨z, hz, s, hs, hheld⟩

/-- A justified candidate holds a prefix of the stream, and that prefix contains every record that a
majority of the zones holds. -/
theorem Justified.holds (hfits : ∀ r ∈ records, r.Fits) {crc : Bytes → Nat}
    {held : Fin n → Option Bytes} {candidate : RecoveryCandidate}
    (hcuts : ∀ z bytes, held z = some bytes → bytes <+: streamBytes records)
    (hmajority : majority n ≤ (collect held).length) (h : Justified crc none held candidate) :
    ∃ count, candidate.Holds records count ∧ ∀ m ≤ records.length, ∀ holders : Finset (Fin n),
      majority n ≤ holders.card → (∀ z ∈ holders, ∀ bytes, held z = some bytes →
        (streamBytes (records.take m)).length ≤ bytes.length) → m ≤ count := by
  have hpos : ∀ m ≤ records.length, 0 < m → 0 < (streamBytes (records.take m)).length := by
    intro m hm h₀
    have := length_streamBytes_take_lt h₀ hm
    omega
  have hsizes : ∀ {size x : Nat} {holders : Finset (Fin n)},
      selectRecoverySize (collect fun z => (held z).map List.length) n = some size →
      majority n ≤ holders.card →
      (∀ z ∈ holders, ∀ bytes, held z = some bytes → x ≤ bytes.length) → x ≤ size := by
    intro size x holders hsel hq hx
    refine le_selectRecoverySize hsel hq fun z hz y hy => ?_
    obtain ⟨bytes, hbytes, rfl⟩ := Option.map_eq_some_iff.1 hy
    exact hx z hz bytes hbytes
  rcases h with ⟨rfl, hempty⟩ | ⟨⟨tokens, rfl⟩, hzero⟩ |
    ⟨size, maxSize, evidence, hsel, hev, hdecide⟩
  · -- a zone of the majority answered, and it holds nothing
    refine ⟨0, rfl, fun m hm holders hq hx => ?_⟩
    by_contra hne
    have htwo := lt_two_mul_majority n
    rw [length_collect] at hmajority
    obtain ⟨z, hz, hz'⟩ := @exists_mem_inter n holders
      (Finset.univ.filter fun z => (held z).isSome = true) (by omega)
    rw [Finset.mem_filter] at hz'
    obtain ⟨bytes, hbytes⟩ := Option.isSome_iff_exists.1 hz'.2
    have hle := hx z hz bytes hbytes
    rw [hempty z bytes hbytes, List.length_nil] at hle
    have := hpos m hm (by omega)
    omega
  · refine ⟨0, rfl, fun m hm holders hq hx => ?_⟩
    by_contra hne
    have hle := hsizes hzero hq hx
    have := hpos m hm (by omega)
    omega
  · have hq : majority n ≤ (evidence.snapshots ++ evidence.placeholders).length := by
      by_contra hlt
      unfold decideCandidate selectCanonicalQuorum at hdecide
      simp only [List.length_append, List.length_map] at hlt hdecide
      rw [if_pos (by omega)] at hdecide
      cases hdecide
    have hcuts' : ∀ s ∈ evidence.snapshots ++ evidence.placeholders,
        s.bytes <+: streamBytes records := by
      intro s hs
      obtain ⟨z, -, hheld⟩ := hev.held s hs
      exact hcuts z _ hheld
    have h₀ : 0 < majority n := by
      unfold majority
      omega
    obtain ⟨count, hcount, hmax, -, -, hok⟩ :=
      @decideCandidate_of_cuts records hfits crc (majority n) size maxSize
        none evidence h₀ hq hcuts'
    obtain ⟨candidate', hdecide', hholds, -⟩ := hok fun _ hnone => by cases hnone
    rw [hdecide, Except.ok.injEq] at hdecide'
    subst hdecide'
    refine ⟨count, hholds, fun m hm holders hqh hx => ?_⟩
    have hsize := hsizes hsel hqh hx
    obtain ⟨z, hz, s, hs, hheld⟩ := hev.exists_mem hqh hq
    have hle := hx z hz _ hheld
    rcases List.mem_append.1 hs with hs' | hs'
    · -- the copy reaches the offset, and so does its cut at the committed size
      refine ((le_completeCount_iff hfits (take_cut (hcuts' s hs) size) hm).2 ?_).trans
        (hmax s hs')
      rw [List.length_take]
      omega
    · rw [hev.empty s hs', List.length_nil] at hle
      rcases Nat.eq_zero_or_pos m with rfl | hm₀
      · exact Nat.zero_le _
      · have := hpos m hm hm₀
        omega

end Chorus
