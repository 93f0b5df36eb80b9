import Chorus.Segment.Proofs.FrameProofs
import Chorus.Segment.Selection
import Mathlib.Data.List.MinMax
import Mathlib.Data.List.Sublists

/-!
# What canonical selection selects

`selectCanonicalQuorum` works on byte ranges, a table of conflicts and enumerated subsets. At the
level of records it does this: among the copies that belong to a quorum of pairwise agreeing copies
it takes the longest ones (`IsLongest`), and it succeeds if there is one and they all hold the same
records (`selectCanonicalQuorum_spec`). Copies of one stream all agree, so the longest one is
selected (`selectCanonicalQuorum_of_stream`). `selectRecoverySize` is never below an offset that a
write quorum holds (`le_selectRecoverySize`).
-/

namespace Chorus

open Quorum RecordFrame

/-! ## The recovery size -/

theorem lt_two_mul_majority (n : Nat) : n < 2 * majority n := by
  unfold majority
  omega

/-- The sizes of the zones that answered select something whenever they form a majority. -/
theorem selectRecoverySize_isSome {sizes : List Nat} {n : Nat} (hq : majority n ≤ sizes.length)
    (hn : sizes.length ≤ n) : (selectRecoverySize sizes n).isSome := by
  have htwo := lt_two_mul_majority n
  unfold selectRecoverySize
  simp only
  rw [if_neg (by omega), if_neg (by omega), if_pos (by omega)]
  exact kthLargest_isSome (by omega) (by omega)

/-- An offset that a majority holds is held by enough of the zones that answered. -/
theorem le_selectRecoverySize {n : Nat} {held : Fin n → Option Nat} {size x : Nat}
    {holders : Finset (Fin n)} (hsel : selectRecoverySize (collect held) n = some size)
    (hq : majority n ≤ holders.card) (hx : ∀ z ∈ holders, ∀ y, held z = some y → x ≤ y) :
    x ≤ size := by
  unfold selectRecoverySize at hsel
  simp only at hsel
  split_ifs at hsel with hlen hun hreq
  rw [le_kthLargest_iff hsel, countP_collect]
  have hshare := card_add_card_le holders (Finset.univ.filter fun z => (held z).isSome = true)
  rw [← length_collect held] at hshare
  have hsub : holders ∩ (Finset.univ.filter fun z => (held z).isSome = true) ⊆
      Finset.univ.filter fun z => ∃ y, held z = some y ∧ decide (x ≤ y) = true := by
    intro z hz
    rw [Finset.mem_inter, Finset.mem_filter] at hz
    obtain ⟨y, hy⟩ := Option.isSome_iff_exists.1 hz.2.2
    rw [Finset.mem_filter]
    exact ⟨Finset.mem_univ z, y, hy, decide_eq_true (hx z hz.1 y hy)⟩
  have hcard := Finset.card_le_card hsub
  omega

/-! ## Quorums of copies -/

/-- The subsets are the sublists of quorum length, enumerated with the first copy first. -/
theorem mem_quorumSubsets {α : Type} {quorum : Nat} {l c : List α} :
    c ∈ quorumSubsets quorum l ↔ c.Sublist l ∧ c.length = quorum := by
  rw [← List.mem_sublistsLen]
  induction l generalizing quorum c with
  | nil => cases quorum <;> simp [quorumSubsets]
  | cons x xs ih =>
    cases quorum with
    | zero => simp [quorumSubsets]
    | succ quorum =>
      simp only [quorumSubsets, List.sublistsLen_succ_cons, List.mem_append,
        List.mem_map, ih, or_comm]

theorem exists_quorumSubset_mem {α : Type} {quorum : Nat} {l : List α} {x : α} (hx : x ∈ l)
    (h₀ : 0 < quorum) (hq : quorum ≤ l.length) : ∃ c ∈ quorumSubsets quorum l, x ∈ c := by
  obtain ⟨before, after, rfl⟩ := List.append_of_mem hx
  -- as many as possible from before `x`, and the rest from behind it
  refine ⟨before.take (quorum - 1) ++ x :: after.take (quorum - 1 - before.length),
    mem_quorumSubsets.2 ⟨?_, ?_⟩, by simp⟩
  · exact (List.take_sublist _ _).append ((List.take_sublist _ _).cons_cons x)
  · simp only [List.length_append, List.length_cons, List.length_take] at hq ⊢
    omega

theorem longestMember_spec (first : Witness) (rest : List Witness) :
    longestMember first rest ∈ first :: rest ∧
      ∀ w ∈ first :: rest, w.decoded.len ≤ (longestMember first rest).decoded.len := by
  induction rest generalizing first with
  | nil => simp [longestMember]
  | cons member rest ih =>
    obtain ⟨next, hnext, hstep⟩ : ∃ next, (if first.decoded.len < member.decoded.len then member
        else first) = next ∧ longestMember first (member :: rest) = longestMember next rest :=
      ⟨_, rfl, rfl⟩
    have hchoice : next = member ∨ next = first := by
      split_ifs at hnext
      · exact Or.inl hnext.symm
      · exact Or.inr hnext.symm
    have hfirst : first.decoded.len ≤ next.decoded.len := by
      split_ifs at hnext <;> subst hnext <;> omega
    have hmember : member.decoded.len ≤ next.decoded.len := by
      split_ifs at hnext <;> subst hnext <;> omega
    obtain ⟨hmem, hall⟩ := ih next
    have hbest := hall next List.mem_cons_self
    rw [hstep]
    constructor
    · rcases List.mem_cons.1 hmem with heq | hmem
      · rw [heq]
        rcases hchoice with rfl | rfl <;> simp
      · exact List.mem_cons_of_mem _ (List.mem_cons_of_mem _ hmem)
    · intro w hw
      rcases List.mem_cons.1 hw with rfl | hw
      · omega
      · rcases List.mem_cons.1 hw with rfl | hw
        · omega
        · exact hall w (List.mem_cons_of_mem _ hw)

theorem foldl_preferLowerZones_mem (first : Witness × List Witness)
    (rest : List (Witness × List Witness)) : rest.foldl preferLowerZones first ∈ first :: rest := by
  induction rest generalizing first with
  | nil => simp
  | cons other rest ih =>
    rw [List.foldl_cons]
    rcases List.mem_cons.1 (ih (preferLowerZones first other)) with heq | hmem
    · rw [heq]
      unfold preferLowerZones
      split_ifs <;> simp
    · exact List.mem_cons_of_mem _ (List.mem_cons_of_mem _ hmem)

theorem forall_orderedPairs {α : Type} {l : List α} {p : α × α → Prop} :
    (∀ pair ∈ orderedPairs l, p pair) ↔ l.Pairwise fun x y => p (x, y) := by
  induction l with
  | nil => simp [orderedPairs]
  | cons x xs ih =>
    simp only [orderedPairs, List.mem_append, List.mem_map, List.pairwise_cons, ← ih]
    constructor
    · intro h
      exact ⟨fun y hy => h _ (Or.inl ⟨y, hy, rfl⟩), fun pair hpair => h pair (Or.inr hpair)⟩
    · rintro ⟨hfirst, hrest⟩ pair (⟨y, hy, rfl⟩ | hpair)
      · exact hfirst y hy
      · exact hrest pair hpair

/-! ## Agreement -/

def ReplicaSnapshot.records (snapshot : ReplicaSnapshot) : List RecordFrame :=
  completeRecords snapshot.bytes

/-- The two sequences have the same record wherever both have one. -/
def Agree (left right : List RecordFrame) : Prop :=
  ∀ i, i < left.length → i < right.length → left[i]? = right[i]?

/-- As many copies as make a quorum, all of which agree with each other. -/
structure AgreeingQuorum (quorum : Nat) (snapshots subset : List ReplicaSnapshot) : Prop where
  sublist : subset.Sublist snapshots
  size : subset.length = quorum
  agree : ∀ s ∈ subset, ∀ s' ∈ subset, Agree s.records s'.records

/-- The copy belongs to an agreeing quorum, and no member of an agreeing quorum has more records. -/
structure IsLongest (quorum : Nat) (snapshots : List ReplicaSnapshot)
    (s : ReplicaSnapshot) : Prop where
  member : ∃ subset, AgreeingQuorum quorum snapshots subset ∧ s ∈ subset
  longest : ∀ subset, AgreeingQuorum quorum snapshots subset → ∀ s' ∈ subset,
    s'.records.length ≤ s.records.length

theorem Agree.refl (records : List RecordFrame) : Agree records records := fun _ _ _ => rfl

theorem Agree.symm {left right : List RecordFrame} (h : Agree left right) : Agree right left :=
  fun i hright hleft => (h i hleft hright).symm

theorem Agree.eq_of_length_eq {left right : List RecordFrame} (h : Agree left right)
    (hlength : left.length = right.length) : left = right := by
  apply List.ext_getElem?
  intro i
  by_cases hi : i < left.length
  · exact h i hi (hlength ▸ hi)
  · rw [List.getElem?_eq_none (by omega), List.getElem?_eq_none (by omega)]

theorem agree_of_prefix {records left right : List RecordFrame} (hleft : left <+: records)
    (hright : right <+: records) : Agree left right := by
  obtain ⟨t, ht⟩ := hleft
  obtain ⟨t', ht'⟩ := hright
  intro i hi hi'
  calc left[i]? = (left ++ t)[i]? := (List.getElem?_append_left hi).symm
    _ = (right ++ t')[i]? := by rw [ht, ht']
    _ = right[i]? := List.getElem?_append_left hi'

/-! ## The records behind a well-formed prefix -/

/-- The well-formed prefix that consists of the given records. -/
def wholePrefix (records : List RecordFrame) : WitnessPrefix :=
  ⟨streamBytes records, recordEnds records⟩

theorem fromSnapshot_eq (snapshot : ReplicaSnapshot) :
    WitnessPrefix.fromSnapshot snapshot = wholePrefix snapshot.records := by
  simp only [WitnessPrefix.fromSnapshot, take_getLast?_completePrefixEnds_eq]
  rw [completePrefixEnds_eq]
  rfl

@[simp]
theorem len_wholePrefix (records : List RecordFrame) : (wholePrefix records).len = records.length :=
  length_recordEnds records

theorem recordBytes_wholePrefix {records : List RecordFrame} {i : Nat} {record : RecordFrame}
    (h : records[i]? = some record) : (wholePrefix records).recordBytes i = record.chunk := by
  obtain ⟨hi, hget⟩ := List.getElem?_eq_some_iff.1 h
  have hstart : (if i = 0 then 0 else (recordEnds records).getD (i - 1) 0) =
      (streamBytes (records.take i)).length := by
    split_ifs with hzero
    · rw [hzero]
      rfl
    · rw [List.getD_eq_getElem?_getD, getElem?_recordEnds, if_pos (by omega), Option.getD_some,
        Nat.sub_add_cancel (by omega)]
  have hend : (recordEnds records).getD i 0 = (streamBytes (records.take (i + 1))).length := by
    rw [List.getD_eq_getElem?_getD, getElem?_recordEnds, if_pos hi, Option.getD_some]
  have hnext : streamBytes (records.take (i + 1)) = streamBytes (records.take i) ++
      record.chunk := by
    rw [List.take_add_one, h, Option.toList_some, streamBytes_append]
    simp [streamBytes]
  simp only [WitnessPrefix.recordBytes, wholePrefix]
  rw [hstart, hend, ← List.prefix_iff_eq_take.1 (streamBytes_take_mono records (i + 1)), hnext,
    List.drop_left]

theorem conflict_wholePrefix {left right : List RecordFrame} :
    (wholePrefix left).conflict (wholePrefix right) = none ↔ Agree left right := by
  unfold WitnessPrefix.conflict
  rw [List.find?_eq_none]
  simp only [List.mem_range, len_wholePrefix, lt_min_iff, ne_eq, decide_not, Bool.not_eq_true',
    decide_eq_false_iff_not, not_not, Agree, and_imp]
  refine forall_congr' fun i => forall_congr' fun hleft => forall_congr' fun hright => ?_
  have hl := List.getElem?_eq_getElem hleft
  have hr := List.getElem?_eq_getElem hright
  rw [recordBytes_wholePrefix hl, recordBytes_wholePrefix hr, hl, hr, Option.some.injEq]
  exact ⟨fun h => chunk_injective h, fun h => by rw [h]⟩

/-! ## Candidates -/

section Candidates

variable {copy : Witness → ReplicaSnapshot}

/-- The subsets that give a candidate are those whose members agree. -/
theorem candidate_eq_some {subset : List Witness} {c : Witness × List Witness}
    (hcopy : ∀ w ∈ subset, w.decoded = wholePrefix (copy w).records) :
    candidate subset = some c ↔ c.2 = subset ∧
      (∀ w ∈ subset, ∀ w' ∈ subset, Agree (copy w).records (copy w').records) ∧
      ∃ first rest, subset = first :: rest ∧ c.1 = longestMember first rest := by
  have hagree : ((orderedPairs subset).all fun pair =>
      (pair.1.decoded.conflict pair.2.decoded).isNone) = true ↔
      ∀ w ∈ subset, ∀ w' ∈ subset, Agree (copy w).records (copy w').records := by
    have hconflict : ∀ w ∈ subset, ∀ w' ∈ subset, (w.decoded.conflict w'.decoded = none ↔
        Agree (copy w).records (copy w').records) := by
      intro w hw w' hw'
      rw [hcopy w hw, hcopy w' hw', conflict_wholePrefix]
    simp only [List.all_eq_true, Option.isNone_iff_eq_none]
    constructor
    · intro h
      have hnone : subset.Pairwise fun w w' => w.decoded.conflict w'.decoded = none :=
        forall_orderedPairs.1 h
      have hpairs : subset.Pairwise fun w w' => Agree (copy w).records (copy w').records :=
        hnone.imp_of_mem fun hw hw' => (hconflict _ hw _ hw').1
      intro w hw w' hw'
      exact List.Pairwise.forall_of_forall_of_flip
        (R := fun w w' => Agree (copy w).records (copy w').records) (fun _ _ => Agree.refl _) hpairs
        (hpairs.imp fun h => h.symm) hw hw'
    · intro h
      exact forall_orderedPairs.2
        (List.pairwise_of_forall_mem_list fun w hw w' hw' => (hconflict w hw w' hw').2
          (h w hw w' hw'))
  unfold candidate
  split
  · simp
  · rename_i first rest
    rw [Option.ite_none_right_eq_some, hagree, Option.some.injEq]
    constructor
    · rintro ⟨h, rfl⟩
      exact ⟨rfl, h, first, rest, rfl, rfl⟩
    · rintro ⟨hsub, h, first', rest', heq, hlongest⟩
      cases heq
      exact ⟨h, by rw [← hlongest, ← hsub]⟩

/-- The candidates of some copies, and what they say about the agreeing quorums. -/
structure Candidates (quorum : Nat) (snapshots : List ReplicaSnapshot)
    (copy : Witness → ReplicaSnapshot) (candidates : List (Witness × List Witness)) : Prop where
  decoded : ∀ c ∈ candidates, c.1.decoded = wholePrefix (copy c.1).records
  found : ∀ c ∈ candidates, snapshots[c.1.index]? = some (copy c.1)
  agreeing : ∀ c ∈ candidates, ∃ subset, AgreeingQuorum quorum snapshots subset ∧
    copy c.1 ∈ subset ∧ ∀ s ∈ subset, s.records.length ≤ (copy c.1).records.length
  complete : ∀ subset, AgreeingQuorum quorum snapshots subset → ∃ c ∈ candidates,
    copy c.1 ∈ subset ∧ ∀ s ∈ subset, s.records.length ≤ (copy c.1).records.length

/-- The witnesses that `selectCanonicalQuorum` builds. -/
def witnessesOf (snapshots : List ReplicaSnapshot) : List Witness :=
  snapshots.mapIdx fun index snapshot => ⟨index, snapshot.zone, WitnessPrefix.fromSnapshot snapshot⟩

theorem candidates_of_snapshots {quorum : Nat} (h₀ : 0 < quorum)
    (snapshots : List ReplicaSnapshot) : ∃ copy, Candidates quorum snapshots copy
      ((quorumSubsets quorum (witnessesOf snapshots)).filterMap candidate) := by
  let copy : Witness → ReplicaSnapshot := fun w =>
    (snapshots[w.index]?).getD ⟨0, 0, 0, 0, false, none, [], []⟩
  have hwitness : ∀ w ∈ witnessesOf snapshots, snapshots[w.index]? = some (copy w) ∧
      w.decoded = wholePrefix (copy w).records := by
    intro w hw
    obtain ⟨i, hi, rfl⟩ := List.mem_mapIdx.1 hw
    have hget := List.getElem?_eq_getElem hi
    simp only [copy, hget, Option.getD_some, true_and]
    exact fromSnapshot_eq _
  have hmap : (witnessesOf snapshots).map copy = snapshots := by
    apply List.ext_getElem?
    intro i
    simp only [witnessesOf, List.getElem?_map, List.getElem?_mapIdx, copy]
    cases hget : snapshots[i]? with
    | none => rfl
    | some s => simp [hget]
  have hsubset : ∀ c ∈ quorumSubsets quorum (witnessesOf snapshots),
      (∀ w ∈ c, w ∈ witnessesOf snapshots) ∧ (c.map copy).Sublist snapshots ∧
      c.length = quorum := by
    intro c hc
    obtain ⟨hsub, hlen⟩ := mem_quorumSubsets.1 hc
    exact ⟨fun w hw => hsub.subset hw, hmap ▸ hsub.map copy, hlen⟩
  have hcandidate : ∀ subset c, subset ∈ quorumSubsets quorum (witnessesOf snapshots) →
      (candidate subset = some c ↔ c.2 = subset ∧
        (∀ w ∈ subset, ∀ w' ∈ subset, Agree (copy w).records (copy w').records) ∧
        ∃ first rest, subset = first :: rest ∧ c.1 = longestMember first rest) := by
    intro subset c hsub
    exact candidate_eq_some fun w hw => (hwitness w ((hsubset subset hsub).1 w hw)).2
  -- the longest member of a subset of witnesses is longest among the copies
  have hlongest : ∀ subset ∈ quorumSubsets quorum (witnessesOf snapshots), ∀ first rest,
      subset = first :: rest → longestMember first rest ∈ subset ∧ ∀ s ∈ subset.map copy,
        s.records.length ≤ (copy (longestMember first rest)).records.length := by
    rintro subset hsub first rest rfl
    obtain ⟨hmem, hall⟩ := longestMember_spec first rest
    refine ⟨hmem, fun s hs => ?_⟩
    obtain ⟨w, hw, rfl⟩ := List.mem_map.1 hs
    have hle := hall w hw
    rwa [(hwitness w ((hsubset _ hsub).1 w hw)).2, (hwitness _ ((hsubset _ hsub).1 _ hmem)).2,
      len_wholePrefix, len_wholePrefix] at hle
  have hfound : ∀ c ∈ (quorumSubsets quorum (witnessesOf snapshots)).filterMap candidate,
      ∃ subset ∈ quorumSubsets quorum (witnessesOf snapshots), c.1 ∈ subset ∧
        (∀ w ∈ subset, ∀ w' ∈ subset, Agree (copy w).records (copy w').records) ∧
        ∀ s ∈ subset.map copy, s.records.length ≤ (copy c.1).records.length := by
    intro c hc
    obtain ⟨subset, hsub, hsome⟩ := List.mem_filterMap.1 hc
    obtain ⟨-, hagree, first, rest, heq, hlong⟩ := (hcandidate subset c hsub).1 hsome
    obtain ⟨hmem, hall⟩ := hlongest subset hsub first rest heq
    rw [← hlong] at hmem hall
    exact ⟨subset, hsub, hmem, hagree, hall⟩
  refine ⟨copy, ?_, ?_, ?_, ?_⟩
  · intro c hc
    obtain ⟨subset, hsub, hmem, -⟩ := hfound c hc
    exact (hwitness _ ((hsubset subset hsub).1 _ hmem)).2
  · intro c hc
    obtain ⟨subset, hsub, hmem, -⟩ := hfound c hc
    exact (hwitness _ ((hsubset subset hsub).1 _ hmem)).1
  · intro c hc
    obtain ⟨subset, hsub, hmem, hagree, hall⟩ := hfound c hc
    obtain ⟨-, hsublist, hlen⟩ := hsubset subset hsub
    refine ⟨subset.map copy, ⟨hsublist, by rw [List.length_map, hlen], ?_⟩,
      List.mem_map_of_mem hmem, hall⟩
    intro s hs s' hs'
    obtain ⟨w, hw, rfl⟩ := List.mem_map.1 hs
    obtain ⟨w', hw', rfl⟩ := List.mem_map.1 hs'
    exact hagree w hw w' hw'
  · intro subset hquorum
    have hsublist := hquorum.sublist
    rw [← hmap] at hsublist
    obtain ⟨chosen, hchosen, rfl⟩ := List.sublist_map_iff.1 hsublist
    have hsize := hquorum.size
    rw [List.length_map] at hsize
    have hsub : chosen ∈ quorumSubsets quorum (witnessesOf snapshots) :=
      mem_quorumSubsets.2 ⟨hchosen, hsize⟩
    obtain ⟨first, rest, rfl⟩ := List.exists_cons_of_length_pos (by omega : 0 < chosen.length)
    obtain ⟨hmem, hall⟩ := hlongest _ hsub first rest rfl
    refine ⟨(longestMember first rest, first :: rest), List.mem_filterMap.2 ⟨_, hsub, ?_⟩,
      List.mem_map_of_mem hmem, hall⟩
    refine (hcandidate _ _ hsub).2 ⟨rfl, fun w hw w' hw' => ?_, first, rest, rfl, rfl⟩
    exact hquorum.agree _ (List.mem_map_of_mem hw) _ (List.mem_map_of_mem hw')

namespace Candidates

variable {quorum : Nat} {snapshots : List ReplicaSnapshot}
  {candidates : List (Witness × List Witness)} {longest : Nat}

theorem len (h : Candidates quorum snapshots copy candidates) {c : Witness × List Witness}
    (hc : c ∈ candidates) : c.1.decoded.len = (copy c.1).records.length := by
  rw [h.decoded c hc, len_wholePrefix]

theorem bytes_eq_iff (h : Candidates quorum snapshots copy candidates)
    {c c' : Witness × List Witness} (hc : c ∈ candidates) (hc' : c' ∈ candidates) :
    c.1.decoded.bytes = c'.1.decoded.bytes ↔ (copy c.1).records = (copy c'.1).records := by
  rw [h.decoded c hc, h.decoded c' hc']
  exact streamBytes_inj (fits_completeRecords _) (fits_completeRecords _)

/-- The candidates of the greatest length are longest copies. -/
theorem isLongest (h : Candidates quorum snapshots copy candidates)
    (hmax : (candidates.map fun c => c.1.decoded.len).max? = some longest)
    {c : Witness × List Witness} (hc : c ∈ candidates) (heq : c.1.decoded.len = longest) :
    IsLongest quorum snapshots (copy c.1) := by
  obtain ⟨subset, hquorum, hmem, -⟩ := h.agreeing c hc
  refine ⟨⟨subset, hquorum, hmem⟩, fun subset' hquorum' s hs => ?_⟩
  obtain ⟨c', hc', -, hall⟩ := h.complete subset' hquorum'
  have hupper := (List.max?_eq_some_iff.1 hmax).2 _ (List.mem_map_of_mem hc')
  rw [h.len hc'] at hupper
  rw [← h.len hc, heq]
  exact (hall s hs).trans hupper

/-- Every longest copy has the records of a candidate of the greatest length. -/
theorem represented (h : Candidates quorum snapshots copy candidates)
    (hmax : (candidates.map fun c => c.1.decoded.len).max? = some longest) {s : ReplicaSnapshot}
    (hs : IsLongest quorum snapshots s) :
    ∃ c ∈ candidates, c.1.decoded.len = longest ∧ (copy c.1).records = s.records := by
  obtain ⟨hattained, hupper⟩ := List.max?_eq_some_iff.1 hmax
  obtain ⟨subset, hquorum, hmem⟩ := hs.member
  obtain ⟨c, hc, hcmem, hall⟩ := h.complete subset hquorum
  have hsame : (copy c.1).records.length = s.records.length :=
    Nat.le_antisymm (hs.longest subset hquorum _ hcmem) (hall s hmem)
  refine ⟨c, hc, ?_, (hquorum.agree _ hcmem _ hmem).eq_of_length_eq hsame⟩
  obtain ⟨top, htop, htoplen⟩ := List.mem_map.1 hattained
  obtain ⟨subset', hquorum', hmem', -⟩ := h.agreeing top htop
  have hle := hs.longest subset' hquorum' _ hmem'
  have hge := hupper _ (List.mem_map_of_mem hc)
  rw [h.len htop] at htoplen
  rw [h.len hc] at hge ⊢
  omega

end Candidates

end Candidates

/-! ## The selection -/

/-- Selection succeeds exactly if there is an agreeing quorum and the longest copies hold the same
records, and then it names one of these copies with its record ends. -/
theorem selectCanonicalQuorum_spec {quorum : Nat} (h₀ : 0 < quorum)
    (snapshots : List ReplicaSnapshot) :
    ((∃ selection, selectCanonicalQuorum snapshots quorum = .ok selection) ↔
      (∃ subset, AgreeingQuorum quorum snapshots subset) ∧ ∀ s s', IsLongest quorum snapshots s →
        IsLongest quorum snapshots s' → s.records = s'.records) ∧
    ∀ selection, selectCanonicalQuorum snapshots quorum = .ok selection → ∃ s,
      IsLongest quorum snapshots s ∧ snapshots[selection.witness]? = some s ∧
        selection.recordEnds = recordEnds s.records := by
  obtain ⟨copy, hcandidates⟩ := candidates_of_snapshots h₀ snapshots
  unfold selectCanonicalQuorum
  by_cases hfew : snapshots.length < quorum
  · -- there are not enough copies for a quorum
    rw [if_pos hfew]
    refine ⟨⟨nofun, ?_⟩, nofun⟩
    rintro ⟨⟨subset, hquorum⟩, -⟩
    have hle := hquorum.sublist.length_le
    rw [hquorum.size] at hle
    omega
  rw [if_neg hfew]
  simp only
  change Candidates quorum snapshots copy
    ((quorumSubsets quorum (snapshots.mapIdx fun index snapshot =>
    (⟨index, snapshot.zone, WitnessPrefix.fromSnapshot snapshot⟩ : Witness))).filterMap candidate)
    at hcandidates
  generalize (quorumSubsets quorum (snapshots.mapIdx fun index snapshot =>
    (⟨index, snapshot.zone, WitnessPrefix.fromSnapshot snapshot⟩ : Witness))).filterMap candidate =
    candidates at hcandidates ⊢
  cases hmax : (candidates.map fun c => c.1.decoded.len).max? with
  | none =>
    -- no candidate, hence no agreeing quorum
    have hnil : candidates = [] := List.map_eq_nil_iff.1 (List.max?_eq_none_iff.1 hmax)
    refine ⟨⟨nofun, ?_⟩, nofun⟩
    rintro ⟨⟨subset, hquorum⟩, -⟩
    obtain ⟨c, hc, -⟩ := hcandidates.complete subset hquorum
    rw [hnil] at hc
    cases hc
  | some longest =>
    have hfilter : ∀ c, c ∈ (candidates.filter fun c => decide (c.1.decoded.len = longest)) ↔
        c ∈ candidates ∧ c.1.decoded.len = longest := by
      intro c
      rw [List.mem_filter, decide_eq_true_eq]
    simp only
    cases hlist : candidates.filter fun c => decide (c.1.decoded.len = longest) with
    | nil =>
      obtain ⟨c, hc, heq⟩ := List.mem_map.1 (List.max?_eq_some_iff.1 hmax).1
      have hmem := (hfilter c).2 ⟨hc, heq⟩
      rw [hlist] at hmem
      cases hmem
    | cons first rest =>
      rw [hlist] at hfilter
      have hfirst := (hfilter first).1 List.mem_cons_self
      simp only
      cases hfind : rest.find? fun other =>
        decide (other.1.decoded.bytes ≠ first.1.decoded.bytes) with
      | some other =>
        -- two longest copies differ
        have hother := (hfilter other).1 (List.mem_cons_of_mem _ (List.mem_of_find?_eq_some hfind))
        have hne : other.1.decoded.bytes ≠ first.1.decoded.bytes := by
          simpa using List.find?_some hfind
        refine ⟨⟨nofun, ?_⟩, nofun⟩
        rintro ⟨-, hsame⟩
        have heq := hsame _ _ (hcandidates.isLongest hmax hother.1 hother.2)
          (hcandidates.isLongest hmax hfirst.1 hfirst.2)
        exact absurd ((hcandidates.bytes_eq_iff hother.1 hfirst.1).2 heq) hne
      | none =>
        have hall : ∀ c ∈ first :: rest, (copy c.1).records = (copy first.1).records := by
          intro c hc
          rcases List.mem_cons.1 hc with rfl | hrest
          · rfl
          · have heq := List.find?_eq_none.1 hfind c hrest
            simp only [ne_eq, decide_not, Bool.not_eq_true', decide_eq_false_iff_not,
              not_not] at heq
            exact (hcandidates.bytes_eq_iff ((hfilter c).1 hc).1 hfirst.1).1 heq
        have hrecords : ∀ s, IsLongest quorum snapshots s → s.records = (copy first.1).records := by
          intro s hs
          obtain ⟨c, hc, heq, hcopy⟩ := hcandidates.represented hmax hs
          rw [← hcopy]
          exact hall c ((hfilter c).2 ⟨hc, heq⟩)
        refine ⟨⟨fun _ => ⟨?_, ?_⟩, fun _ => ⟨_, rfl⟩⟩, ?_⟩
        · obtain ⟨subset, hquorum, -⟩ := hcandidates.agreeing first hfirst.1
          exact ⟨subset, hquorum⟩
        · intro s s' hs hs'
          rw [hrecords s hs, hrecords s' hs']
        · intro selection hselection
          cases hselection
          have hselected := (hfilter _).1 (foldl_preferLowerZones_mem first rest)
          refine ⟨_, hcandidates.isLongest hmax hselected.1 hselected.2,
            hcandidates.found _ hselected.1, ?_⟩
          rw [hcandidates.decoded _ hselected.1]
          rfl

/-! ## Copies of one stream -/

section Stream

variable {quorum : Nat} {snapshots : List ReplicaSnapshot}

theorem AgreeingQuorum.mem {subset : List ReplicaSnapshot}
    (h : AgreeingQuorum quorum snapshots subset) {s : ReplicaSnapshot} (hs : s ∈ subset) :
    s ∈ snapshots := h.sublist.subset hs

theorem IsLongest.mem {s : ReplicaSnapshot} (h : IsLongest quorum snapshots s) : s ∈ snapshots := by
  obtain ⟨subset, hsubset, hs⟩ := h.member
  exact hsubset.mem hs

/-- Among the members of agreeing quorums there is a longest copy. -/
theorem exists_isLongest (h₀ : 0 < quorum) {subset : List ReplicaSnapshot}
    (h : AgreeingQuorum quorum snapshots subset) : ∃ s, IsLongest quorum snapshots s := by
  obtain ⟨copy, hcandidates⟩ := candidates_of_snapshots h₀ snapshots
  generalize (quorumSubsets quorum (witnessesOf snapshots)).filterMap candidate =
    candidates at hcandidates
  obtain ⟨c, hc, -⟩ := hcandidates.complete subset h
  obtain ⟨longest, hmax⟩ : ∃ m, (candidates.map fun c => c.1.decoded.len).max? = some m := by
    rw [← Option.isSome_iff_exists, List.isSome_max?_iff, ne_eq, List.map_eq_nil_iff]
    exact List.ne_nil_of_mem hc
  obtain ⟨top, htop, heq⟩ := List.mem_map.1 (List.max?_eq_some_iff.1 hmax).1
  exact ⟨_, hcandidates.isLongest hmax htop heq⟩

/-- A copy of the stream belongs to an agreeing quorum if there are enough of them. -/
theorem exists_agreeingQuorum_of_prefix (h₀ : 0 < quorum) {stream : List RecordFrame}
    (hcount : quorum ≤ snapshots.countP fun s => decide (s.records <+: stream))
    {s : ReplicaSnapshot} (hs : s ∈ snapshots) (hstream : s.records <+: stream) :
    ∃ subset, AgreeingQuorum quorum snapshots subset ∧ s ∈ subset := by
  have hmem : s ∈ snapshots.filter fun s => decide (s.records <+: stream) :=
    List.mem_filter.2 ⟨hs, decide_eq_true hstream⟩
  rw [List.countP_eq_length_filter] at hcount
  obtain ⟨subset, hsubset, hin⟩ := exists_quorumSubset_mem hmem h₀ hcount
  obtain ⟨hsub, hlen⟩ := mem_quorumSubsets.1 hsubset
  have hall : ∀ s' ∈ subset, s'.records <+: stream := by
    intro s' hs'
    exact of_decide_eq_true (List.mem_filter.1 (hsub.subset hs')).2
  exact ⟨subset, ⟨hsub.trans List.filter_sublist, hlen,
    fun s₁ h₁ s₂ h₂ => agree_of_prefix (hall s₁ h₁) (hall s₂ h₂)⟩, hin⟩

/-- From copies of one stream the longest one is selected. -/
theorem selectCanonicalQuorum_of_stream (h₀ : 0 < quorum) {stream : List RecordFrame}
    (hall : ∀ s ∈ snapshots, s.records <+: stream) (hq : quorum ≤ snapshots.length) :
    ∃ selection s, selectCanonicalQuorum snapshots quorum = .ok selection ∧
      IsLongest quorum snapshots s ∧
      snapshots[selection.witness]? = some s ∧ selection.recordEnds = recordEnds s.records ∧
      ∀ s' ∈ snapshots, s'.records <+: s.records := by
  have hcount : quorum ≤ snapshots.countP fun s => decide (s.records <+: stream) := by
    rw [List.countP_eq_length.2 fun s hs => decide_eq_true (hall s hs)]
    exact hq
  have hquorum : ∀ s ∈ snapshots, ∃ subset, AgreeingQuorum quorum snapshots subset ∧ s ∈ subset :=
    fun s hs => exists_agreeingQuorum_of_prefix h₀ hcount hs (hall s hs)
  have hbelow : ∀ s, IsLongest quorum snapshots s → ∀ s' ∈ snapshots, s'.records <+: s.records := by
    intro s hs s' hs'
    obtain ⟨subset, hsubset, hmem⟩ := hquorum s' hs'
    exact List.prefix_of_prefix_length_le (hall s' hs') (hall s hs.mem)
      (hs.longest subset hsubset s' hmem)
  have hsame : ∀ s s', IsLongest quorum snapshots s → IsLongest quorum snapshots s' →
      s.records = s'.records :=
    fun s s' h h' => (hbelow s' h' s h.mem).eq_of_length_le (hbelow s h s' h'.mem).length_le
  obtain ⟨hiff, hnamed⟩ := selectCanonicalQuorum_spec h₀ snapshots
  obtain ⟨first, hfirst⟩ := List.exists_mem_of_length_pos (h₀.trans_le hq)
  obtain ⟨subset, hsubset, -⟩ := hquorum first hfirst
  obtain ⟨selection, hselection⟩ := hiff.2 ⟨⟨subset, hsubset⟩, hsame⟩
  obtain ⟨s, hs, hfound, hends⟩ := hnamed selection hselection
  exact ⟨selection, s, hselection, hs, hfound, hends, hbelow s hs⟩

theorem selectCanonicalQuorum_of_cuts {records : List RecordFrame} (hfits : ∀ r ∈ records, r.Fits)
    (hcuts : ∀ s ∈ snapshots, s.bytes <+: streamBytes records) (h₀ : 0 < quorum)
    (hq : quorum ≤ snapshots.length) :
    ∃ i s, snapshots[i]? = some s ∧ selectCanonicalQuorum snapshots quorum =
        .ok ⟨i, (recordEnds records).take (completeCount s.bytes)⟩ ∧
      ∀ s' ∈ snapshots, completeCount s'.bytes ≤ completeCount s.bytes := by
  have hall : ∀ s ∈ snapshots, s.records <+: records :=
    fun s hs => completeRecords_of_cut hfits (hcuts s hs)
  obtain ⟨⟨i, ends⟩, s, hselection, -, hfound, hends, hbelow⟩ :=
    selectCanonicalQuorum_of_stream h₀ hall hq
  have htake : s.records = records.take (completeCount s.bytes) := by
    rw [completeCount_eq]
    exact List.prefix_iff_eq_take.1 (hall s (List.mem_of_getElem? hfound))
  refine ⟨i, s, hfound, ?_, fun s' hs' => ?_⟩
  · rw [hselection, show ends = recordEnds s.records from hends, htake, recordEnds, endsFrom_take]
    rfl
  · rw [completeCount_eq, completeCount_eq]
    exact (hbelow s' hs').length_le

end Stream

end Chorus
