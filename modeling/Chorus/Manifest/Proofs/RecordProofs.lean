import Chorus.Manifest.Record
import Mathlib.Data.List.Nodup
import Mathlib.Data.List.Pairwise
import Mathlib.Tactic.SplitIfs

/-!
# What a valid manifest record is

`WellFormed` states the checks of `validate` as propositions (`validate_eq_ok_iff`). `rangesFrom`
gives every directory entry its derived end; in a well-formed directory the ranges are consecutive,
so an index between the first base and the tail lies in exactly one of them
(`length_filter_rangesFrom`).
-/

namespace Chorus

namespace ManifestRecord

def directoryIds (r : ManifestRecord) : List SegmentId := r.segments.map DirectoryEntry.id

/-- An id that can stand in an encoded document. -/
structure IdText (id : SegmentId) : Prop where
  nonempty : id.isEmpty = false
  noColon : ':' ∉ id.toList
  noComma : ',' ∉ id.toList

/-- The propositions `validate` checks. -/
structure WellFormed (r : ManifestRecord) : Prop where
  sealFields : r.sealBase.isSome = r.sealDigest.isSome
  tailPresent : 0 < r.epoch → r.tailId.isSome
  basesIncrease : r.segments.Pairwise fun e e' => e.base < e'.base
  basesBelowTail : ∀ e ∈ r.segments, e.base < r.tailBase
  idsDistinct : r.directoryIds.Nodup
  tailNotSealed : ∀ id, r.tailId = some id → id ∉ r.directoryIds
  pendingText : ∀ id, r.pendingId = some id → IdText id
  pendingNotTail : ∀ id, r.pendingId = some id → r.tailId ≠ some id
  pendingNotSealed : ∀ id, r.pendingId = some id → id ∉ r.directoryIds
  sealNamesLast : r.trunc < r.tailBase → ∀ last, r.segments.getLast? = some last →
    r.sealId = some last.id ∧ r.sealBase = some last.base
  bucketNames : validateBucketNames r.buckets = .ok ()

/-- What the directory loop of `validate` accepts. -/
theorem validateSegments_eq_ok {tailBase : Nat} {segments : List DirectoryEntry}
    {previousBase : Option Nat} {ids ids' : List SegmentId} :
    validateSegments tailBase previousBase ids segments = .ok ids' ↔
      (∀ base, previousBase = some base → ∀ e ∈ segments, base < e.base) ∧
      (segments.Pairwise fun e e' => e.base < e'.base) ∧
      (∀ e ∈ segments, e.base < tailBase) ∧
      (segments.map DirectoryEntry.id).Nodup ∧
      (∀ e ∈ segments, e.id ∉ ids) ∧
      ids' = (segments.map DirectoryEntry.id).reverse ++ ids := by
  induction segments generalizing previousBase ids with
  | nil => simp [validateSegments, eq_comm]
  | cons entry rest ih =>
    have hprev : (previousBase.any fun base => decide (entry.base ≤ base)) = true ↔
        ∃ base, previousBase = some base ∧ entry.base ≤ base := by
      cases previousBase <;> simp
    by_cases hp : ∃ base, previousBase = some base ∧ entry.base ≤ base
    · obtain ⟨base, hbase, hle⟩ := hp
      simp only [validateSegments, hprev.2 ⟨base, hbase, hle⟩, if_true, reduceCtorEq, false_iff]
      intro h
      exact absurd (h.1 base hbase entry (by simp)) (by omega)
    · simp only [validateSegments, mt hprev.1 hp]
      by_cases ht : tailBase ≤ entry.base
      · simp only [Bool.false_eq_true, if_false, ht, if_true, reduceCtorEq, false_iff]
        intro h
        exact absurd (h.2.2.1 entry (by simp)) (by omega)
      · by_cases hi : entry.id ∈ ids
        · simp only [Bool.false_eq_true, if_false, ht, hi, if_true, reduceCtorEq, false_iff]
          intro h
          exact h.2.2.2.2.1 entry (by simp) hi
        · simp only [Bool.false_eq_true, if_false, ht, hi, ih, List.map_cons, List.nodup_cons,
            List.pairwise_cons, forall_eq_or_imp, List.reverse_cons, List.mem_cons,
            List.append_assoc, List.singleton_append, Option.some.injEq, forall_eq']
          constructor
          · rintro ⟨h1, h2, h3, h4, h5, h6⟩
            refine ⟨fun base hbase => ⟨?_, fun e he => ?_⟩, ⟨h1, h2⟩, ⟨by omega, h3⟩, ⟨?_, h4⟩,
              ⟨not_false, fun e he hm => h5 e he (Or.inr hm)⟩, h6⟩
            · by_contra hlt
              exact hp ⟨base, hbase, by omega⟩
            · have : ¬ entry.base ≤ base := fun hle => hp ⟨base, hbase, hle⟩
              have := h1 e he
              omega
            · intro hm
              obtain ⟨e, he, heq⟩ := List.mem_map.1 hm
              exact h5 e he (Or.inl heq)
          · rintro ⟨h1, ⟨h2, h2'⟩, ⟨_, h3⟩, ⟨h4, h4'⟩, ⟨_, h5⟩, h6⟩
            refine ⟨h2, h2', h3, h4', fun e he hm => ?_, h6⟩
            rcases hm with heq | hm
            · exact h4 (heq ▸ List.mem_map_of_mem he)
            · exact h5 e he hm

theorem validatePending_eq_ok {r : ManifestRecord} {ids : List SegmentId} {u : Unit} :
    r.validatePending ids = .ok u ↔
      ∀ id, r.pendingId = some id → IdText id ∧ r.tailId ≠ some id ∧ id ∉ ids := by
  unfold validatePending
  cases hp : r.pendingId with
  | none => simp
  | some id =>
    simp only [Option.some.injEq, forall_eq']
    split_ifs with h1 h2 h3
    · simp only [false_iff]
      rintro ⟨⟨h, h', h''⟩, -⟩
      rcases h1 with h1 | h1 | h1
      · simp [h] at h1
      · exact h' h1
      · exact h'' h1
    · simp [h2]
    · simp [h3]
    · push Not at h1
      simpa [h2, h3] using ⟨by simpa using h1.1, h1.2.1, h1.2.2⟩

theorem validateSeal_eq_ok {r : ManifestRecord} {u : Unit} :
    r.validateSeal = .ok u ↔ (r.trunc < r.tailBase → ∀ last, r.segments.getLast? = some last →
      r.sealId = some last.id ∧ r.sealBase = some last.base) := by
  unfold validateSeal
  cases hl : r.segments.getLast? with
  | none => simp
  | some last =>
    simp only [Option.some.injEq, forall_eq']
    split_ifs with h
    · simp only [false_iff, Classical.not_imp]
      exact ⟨h.1, fun ⟨h1, h2⟩ => h.2.elim (· h1) (· h2)⟩
    · simp only [true_iff]
      intro ht
      by_contra hne
      exact h ⟨ht, by tauto⟩

/-- `validate` accepts exactly the well-formed records. -/
theorem validate_eq_ok_iff {r : ManifestRecord} : r.validate = .ok () ↔ r.WellFormed := by
  have htail : ∀ ids : List SegmentId, ¬ r.tailId.any (· ∈ ids) = true ↔
      ∀ id, r.tailId = some id → id ∉ ids := by
    intro ids
    cases r.tailId <;> simp
  have hepoch : ¬ (0 < r.epoch ∧ r.tailId.isNone = true) ↔ (0 < r.epoch → r.tailId.isSome) := by
    cases r.tailId <;> simp
  simp only [validate, bind_eq_ok, failIf_eq_ok, validateSegments_eq_ok, validatePending_eq_ok,
    validateSeal_eq_ok, htail, hepoch, not_not, exists_const, List.append_nil, reduceCtorEq,
    false_imp_iff, implies_true, true_and, List.not_mem_nil, not_false_eq_true]
  constructor
  · rintro ⟨hseal, hepoch, ids, ⟨hinc, hbelow, hnodup, rfl⟩, htail, hpending, hlast, hbuckets⟩
    simp only [List.mem_reverse] at htail hpending
    exact ⟨hseal, hepoch, hinc, hbelow, hnodup, htail, fun id h => (hpending id h).1,
      fun id h => (hpending id h).2.1, fun id h => (hpending id h).2.2, hlast, hbuckets⟩
  · intro h
    refine ⟨h.sealFields, h.tailPresent, _, ⟨h.basesIncrease, h.basesBelowTail, h.idsDistinct, rfl⟩,
      ?_, ?_, h.sealNamesLast, h.bucketNames⟩
    · simp only [List.mem_reverse]
      exact h.tailNotSealed
    · simp only [List.mem_reverse]
      exact fun id hid => ⟨h.pendingText id hid, h.pendingNotTail id hid, h.pendingNotSealed id hid⟩

/-! ## Derived ends -/

/-- Every entry with its derived end: one before the base of the entry that follows it, and one
before the tail base for the last entry. -/
def rangesFrom (tailBase : Nat) : List DirectoryEntry → List (DirectoryEntry × Nat)
  | [] => []
  | entry :: rest =>
    (entry, (rest.head?.map DirectoryEntry.base).getD tailBase - 1) :: rangesFrom tailBase rest

def ranges (r : ManifestRecord) : List (DirectoryEntry × Nat) := rangesFrom r.tailBase r.segments

/-- The entries that hold an index at or above the floor. -/
def liveRanges (r : ManifestRecord) : List (DirectoryEntry × Nat) :=
  r.ranges.filter fun range => r.trunc ≤ range.2

def inRange (i : Nat) (range : DirectoryEntry × Nat) : Bool := range.1.base ≤ i ∧ i ≤ range.2

theorem mem_rangesFrom_fst {tailBase : Nat} {segments : List DirectoryEntry}
    {range : DirectoryEntry × Nat} (h : range ∈ rangesFrom tailBase segments) :
    range.1 ∈ segments := by
  induction segments with
  | nil => simp [rangesFrom] at h
  | cons entry rest ih =>
    rcases List.mem_cons.1 h with rfl | h
    · simp
    · exact List.mem_cons_of_mem _ (ih h)

theorem last_mem_rangesFrom {tailBase : Nat} {segments : List DirectoryEntry}
    {last : DirectoryEntry} (h : segments.getLast? = some last) :
    (last, tailBase - 1) ∈ rangesFrom tailBase segments := by
  induction segments with
  | nil => simp at h
  | cons entry rest ih =>
    cases rest with
    | nil =>
      simp only [List.getLast?_singleton, Option.some.injEq] at h
      simp [rangesFrom, h]
    | cons next rest =>
      rw [List.getLast?_cons_cons] at h
      exact List.mem_cons_of_mem _ (ih h)

/-- In a directory with increasing bases below the tail, an index below the tail lies in exactly one
range if it is not below the first base, and in none otherwise. -/
theorem length_filter_rangesFrom {tailBase : Nat} {segments : List DirectoryEntry} {i : Nat}
    (hinc : segments.Pairwise fun e e' => e.base < e'.base)
    (hbelow : ∀ e ∈ segments, e.base < tailBase) (hi : i < tailBase) :
    ((rangesFrom tailBase segments).filter (inRange i)).length =
      if segments.head?.any (fun e => e.base ≤ i) then 1 else 0 := by
  induction segments with
  | nil => simp [rangesFrom]
  | cons entry rest ih =>
    have ih := ih (List.pairwise_cons.1 hinc).2 fun e he => hbelow e (List.mem_cons_of_mem _ he)
    cases rest with
    | nil =>
      have hb := hbelow entry (by simp)
      by_cases h : entry.base ≤ i
      · have : i ≤ tailBase - 1 := by omega
        simp [rangesFrom, inRange, h, this]
      · simp [rangesFrom, inRange, h]
    | cons next rest =>
      have hlt : entry.base < next.base := (List.pairwise_cons.1 hinc).1 next (by simp)
      simp only [rangesFrom, List.filter_cons, List.head?_cons, Option.map_some, Option.getD_some,
        Option.any_some, decide_eq_true_eq] at ih ⊢
      by_cases hnext : next.base ≤ i
      · have hout : inRange i (entry, next.base - 1) = false := by simp [inRange]; omega
        simp only [hnext, if_true] at ih
        simp only [hout, Bool.false_eq_true, if_false, ih, if_pos (show entry.base ≤ i by omega)]
      · have hiff : inRange i (entry, next.base - 1) = true ↔ entry.base ≤ i := by
          simp [inRange]
          omega
        simp only [hnext, if_false] at ih
        by_cases hentry : entry.base ≤ i
        · simp only [hiff.2 hentry, if_true, List.length_cons, ih, hentry]
        · simp only [mt hiff.1 hentry, Bool.false_eq_true, if_false, ih, hentry]

/-- If the first entry starts at or below `t`, so does the first entry that ends at or above `t`. -/
theorem find?_rangesFrom_base_le {tailBase t : Nat} {segments : List DirectoryEntry}
    {range : DirectoryEntry × Nat} (hhead : segments.head?.any (fun e => e.base ≤ t) = true)
    (hfind : (rangesFrom tailBase segments).find? (fun range => t ≤ range.2) = some range) :
    range.1.base ≤ t := by
  induction segments with
  | nil => simp [rangesFrom] at hfind
  | cons entry rest ih =>
    simp only [rangesFrom, List.find?_cons] at hfind
    split at hfind
    · simp only [List.head?_cons, Option.any_some, decide_eq_true_eq] at hhead
      cases hfind
      exact hhead
    · rename_i hlt
      cases rest with
      | nil => simp [rangesFrom] at hfind
      | cons next rest =>
        have hlt : ¬ t ≤ next.base - 1 := of_decide_eq_false hlt
        refine ih ?_ hfind
        simp only [List.head?_cons, Option.any_some, decide_eq_true_eq]
        omega

/-- The ranges in which an index at or above the floor lies are live. -/
theorem filter_liveRanges {r : ManifestRecord} {i : Nat} (hi : r.trunc ≤ i) :
    r.liveRanges.filter (inRange i) = r.ranges.filter (inRange i) := by
  simp only [liveRanges, List.filter_filter]
  refine List.filter_congr fun range _ => ?_
  by_cases h : inRange i range
  · have : r.trunc ≤ range.2 := by simp [inRange] at h; omega
    simp [h, this]
  · simp [h]

/-- What `validate_removals` accepts: the named entries end below the floor. -/
theorem validateRemovalsFrom_ok {tailBase floor : Nat} {ids : List SegmentId}
    {segments : List DirectoryEntry} {u : Unit}
    (h : validateRemovalsFrom tailBase ids floor segments = .ok u) :
    ∀ range ∈ rangesFrom tailBase segments, range.1.id ∈ ids → range.2 < floor := by
  induction segments with
  | nil => simp [rangesFrom]
  | cons entry rest ih =>
    simp only [validateRemovalsFrom] at h
    intro range hrange hid
    split_ifs at h with h1 h2 h3
    · rcases List.mem_cons.1 hrange with rfl | hrange
      · exact Nat.lt_of_not_le h3
      · exact ih h range hrange hid
    · rcases List.mem_cons.1 hrange with rfl | hrange
      · exact absurd hid h1
      · exact ih h range hrange hid

end ManifestRecord

end Chorus
