import Chorus.Manifest.Proofs.InvariantProofs

/-!
# What the register retains

Derived ends of live entries never change (`Sound.liveRanges_removeSegments`). A directory entry
that ends below the floor is `Doomed`: in every later document its segment is neither in the
frontier nor does it hold an index at or above the floor.
-/

namespace Chorus

open Concurrency ManifestRecord Manifest

namespace ManifestRecord

/-- The base that follows a suffix of the directory. -/
def nextBase (tailBase : Nat) (segments : List DirectoryEntry) : Nat :=
  (segments.head?.map DirectoryEntry.base).getD tailBase

theorem rangesFrom_cons (tailBase : Nat) (entry : DirectoryEntry) (rest : List DirectoryEntry) :
    rangesFrom tailBase (entry :: rest) =
      (entry, nextBase tailBase rest - 1) :: rangesFrom tailBase rest := rfl

theorem map_fst_rangesFrom (tailBase : Nat) (segments : List DirectoryEntry) :
    (rangesFrom tailBase segments).map Prod.fst = segments := by
  induction segments with
  | nil => rfl
  | cons entry rest ih => rw [rangesFrom_cons, List.map_cons, ih]

/-- An appended entry ends where the new tail begins; the others keep their ends if it begins at the
old tail. -/
theorem rangesFrom_concat {tailBase : Nat} (segments : List DirectoryEntry) {entry : DirectoryEntry}
    (next : Nat) (hbase : entry.base = tailBase) :
    rangesFrom next (segments ++ [entry]) = rangesFrom tailBase segments ++
      [(entry, next - 1)] := by
  induction segments with
  | nil => rfl
  | cons first rest ih =>
    rw [List.cons_append, rangesFrom_cons, rangesFrom_cons, ih, List.cons_append]
    have hnext : nextBase next (rest ++ [entry]) = nextBase tailBase rest := by
      cases rest with
      | nil => simp [nextBase, hbase]
      | cons second rest => rfl
    rw [hnext]

section Removal

variable {tailBase floor : Nat} {ids : List SegmentId}

def keptEntries (ids : List SegmentId) (segments : List DirectoryEntry) : List DirectoryEntry :=
  segments.filter fun entry => entry.id ∉ ids

/-- Removing entries below the floor moves the next base only below the floor. -/
theorem nextBase_kept {segments : List DirectoryEntry}
    (hinc : segments.Pairwise fun e e' => e.base < e'.base)
    (hbelow : ∀ e ∈ segments, e.base < tailBase)
    (hdead : ∀ range ∈ rangesFrom tailBase segments, range.1.id ∈ ids → range.2 < floor) :
    nextBase tailBase (keptEntries ids segments) = nextBase tailBase segments ∨
      (nextBase tailBase segments - 1 < floor ∧
        nextBase tailBase (keptEntries ids segments) - 1 < floor) := by
  induction segments with
  | nil => exact Or.inl rfl
  | cons entry rest ih =>
    by_cases hid : entry.id ∈ ids
    · have hrest :=
        ih (List.pairwise_cons.1 hinc).2 (fun e he => hbelow e (List.mem_cons_of_mem _ he))
        (fun range hrange => hdead range (List.mem_cons_of_mem _ hrange))
      have hend : nextBase tailBase rest - 1 < floor := hdead _ List.mem_cons_self hid
      have hlt : entry.base < nextBase tailBase rest := by
        cases rest with
        | nil => exact hbelow entry List.mem_cons_self
        | cons second rest => exact (List.pairwise_cons.1 hinc).1 second List.mem_cons_self
      have hkept : keptEntries ids (entry :: rest) = keptEntries ids rest := by
        simp [keptEntries, hid]
      have hbase : nextBase tailBase (entry :: rest) = entry.base := rfl
      rw [hkept, hbase]
      rcases hrest with heq | ⟨-, hlast⟩
      · exact Or.inr ⟨by omega, by omega⟩
      · exact Or.inr ⟨by omega, hlast⟩
    · have hkept : keptEntries ids (entry :: rest) = entry :: keptEntries ids rest := by
        simp [keptEntries, hid]
      exact Or.inl (by rw [hkept]; rfl)

/-- Removing entries below the floor leaves the ranges that reach the floor as they are. -/
theorem filter_rangesFrom_kept {segments : List DirectoryEntry}
    (hinc : segments.Pairwise fun e e' => e.base < e'.base)
    (hbelow : ∀ e ∈ segments, e.base < tailBase)
    (hdead : ∀ range ∈ rangesFrom tailBase segments, range.1.id ∈ ids → range.2 < floor) :
    (rangesFrom tailBase (keptEntries ids segments)).filter (fun range => floor ≤ range.2) =
      (rangesFrom tailBase segments).filter (fun range => floor ≤ range.2) := by
  induction segments with
  | nil => rfl
  | cons entry rest ih =>
    have hinc' := (List.pairwise_cons.1 hinc).2
    have hbelow' : ∀ e ∈ rest, e.base < tailBase := fun e he => hbelow e (List.mem_cons_of_mem _ he)
    have hdead' : ∀ range ∈ rangesFrom tailBase rest, range.1.id ∈ ids → range.2 < floor :=
      fun range hrange => hdead range (List.mem_cons_of_mem _ hrange)
    have hrest := ih hinc' hbelow' hdead'
    by_cases hid : entry.id ∈ ids
    · have hend : nextBase tailBase rest - 1 < floor := hdead _ List.mem_cons_self hid
      have hkept : keptEntries ids (entry :: rest) = keptEntries ids rest := by
        simp [keptEntries, hid]
      rw [hkept, hrest, rangesFrom_cons, List.filter_cons_of_neg]
      simpa using hend
    · have hkept : keptEntries ids (entry :: rest) = entry :: keptEntries ids rest := by
        simp [keptEntries, hid]
      rw [hkept, rangesFrom_cons, rangesFrom_cons, List.filter_cons, List.filter_cons, hrest]
      rcases nextBase_kept hinc' hbelow' hdead' with heq | ⟨hold, hnew⟩
      · rw [heq]
      · rw [if_neg (by simpa using hnew), if_neg (by simpa using hold)]

end Removal

theorem Sound.liveRanges_removeSegments {r : ManifestRecord} (h : r.Sound) {ids : List SegmentId}
    {floor : Nat} (hv : r.validateRemovals ids floor = .ok ()) :
    liveRanges { r with segments := r.segments.filter fun entry => entry.id ∉ ids } =
      r.liveRanges := by
  simp only [validateRemovals] at hv
  split_ifs at hv with hfloor
  refine filter_rangesFrom_kept h.basesIncrease h.basesBelowTail fun range hrange hid => ?_
  exact (validateRemovalsFrom_ok hv range hrange hid).trans_le (Nat.le_of_not_lt hfloor)

theorem Sound.range_unique {r : ManifestRecord} (h : r.Sound) {range range' : DirectoryEntry × Nat}
    (hrange : range ∈ r.ranges) (hrange' : range' ∈ r.ranges) (hid : range.1.id = range'.1.id) :
    range = range' := by
  have hnodup : (r.ranges.map fun range => range.1.id).Nodup := by
    have hmap : (r.ranges.map fun range => range.1.id) = r.directoryIds := by
      rw [directoryIds, ← map_fst_rangesFrom r.tailBase r.segments, List.map_map]
      rfl
    rw [hmap]
    exact h.idsDistinct
  exact List.inj_on_of_nodup_map hnodup hrange hrange' hid

end ManifestRecord

/-- What a write does to the ranges: a fold appends the range of the old tail, and every other write
keeps the ranges that reach its floor. -/
theorem Mutation.ranges_cases {a : Author} {r next : ManifestRecord} (h : Mutation a r next)
    (hs : r.Sound) :
    (∃ fold, a.call = .foldPending fold ∧ r.tailId = some fold.oldTailId ∧ next.trunc = r.trunc ∧
      next.ranges = r.ranges ++
        [(⟨fold.oldTailId, fold.oldTailBase, fold.oldTailCrc32c⟩, fold.oldTailEnd)]) ∨
    (∀ fold, a.call ≠ .foldPending fold) ∧ r.trunc ≤ next.trunc ∧
      ∀ range, next.trunc ≤ range.2 → (range ∈ next.ranges ↔ range ∈ r.ranges) := by
  cases h with
  | @foldPending fold hc _ _ ht hb _ he _ =>
    refine Or.inl ⟨fold, hc, ht, rfl, ?_⟩
    exact rangesFrom_concat r.segments (fold.oldTailEnd + 1) hb.symm
  | claim hc => exact Or.inr ⟨by simp [hc], le_rfl, fun _ _ => Iff.rfl⟩
  | registerPending hc => exact Or.inr ⟨by simp [hc], le_rfl, fun _ _ => Iff.rfl⟩
  | replaceEmptyFrontier hc => exact Or.inr ⟨by simp [hc], le_rfl, fun _ _ => Iff.rfl⟩
  | raiseTrunc hc _ hf => exact Or.inr ⟨by simp [hc], hf.le, fun _ _ => Iff.rfl⟩
  | removeSegments hc hv =>
    refine Or.inr ⟨by simp [hc], le_rfl, fun range hlive => ?_⟩
    have hkeep := hs.liveRanges_removeSegments hv
    have hmem : ∀ r' : ManifestRecord, r'.trunc ≤ range.2 →
        (range ∈ r'.liveRanges ↔ range ∈ r'.ranges) := by
      intro r' hle
      simp [liveRanges, hle]
    rw [← hmem _ hlive, hkeep, hmem r hlive]

/-- The document names a segment that ends below its floor. -/
def ManifestRecord.EndsBelowFloor (r : ManifestRecord) (id : SegmentId) : Prop :=
  ∃ range ∈ r.ranges, range.1.id = id ∧ range.2 < r.trunc

/-- Some document of the register has named the segment and ended it below its floor. -/
def Doomed (s : Store Author) (id : SegmentId) : Prop := ∃ v r, s.At v r ∧ r.EndsBelowFloor id

theorem Doomed.mono {s s' : Store Author} {id : SegmentId} (h : Doomed s id) (hg : s.Grows s') :
    Doomed s' id := by
  obtain ⟨v, r, hat, hend⟩ := h
  exact ⟨v, r, hat.mono hg, hend⟩

theorem ManifestRecord.EndsBelowFloor.mem_directoryIds {r : ManifestRecord} {id : SegmentId}
    (hend : r.EndsBelowFloor id) : id ∈ r.directoryIds := by
  obtain ⟨range, hrange, rfl, -⟩ := hend
  exact List.mem_map_of_mem (mem_rangesFrom_fst hrange)

namespace Fresh

variable {h : History} {issued : List ManifestCall} {v w : Nat} {r r' : ManifestRecord}
  {a a' : Option Author} {id : SegmentId}

/-- A segment that ended below the floor never returns to the frontier. -/
theorem not_frontier_of_endsBelowFloor (hf : Fresh h issued) (he : History.Entry h v r a)
    (hend : r.EndsBelowFloor id) (he' : History.Entry h w r' a') (hle : v ≤ w) :
    id ∉ r'.frontierIds := by
  have hsound := hf.sound _ _ _ he
  have hmem := hend.mem_directoryIds
  have hepoch : r.epoch ≠ 0 := by
    intro hzero
    have := (hsound.unclaimed hzero).2.2.1
    simp [directoryIds, this] at hmem
  have hgone : id ∉ r.frontierIds := by
    simp only [frontierIds, List.mem_append, Option.mem_toList]
    rintro (htail | hpending)
    · exact hsound.tailNotSealed id htail hmem
    · exact hsound.pendingNotSealed id hpending hmem
  exact hf.not_mem_frontierIds (mem_ids.2 (Or.inr (Or.inr hmem))) he le_rfl he hepoch hgone he' hle

/-- No later document gives the segment an end at or above its floor. -/
theorem range_lt_of_endsBelowFloor (hf : Fresh h issued) (he : History.Entry h v r a)
    (hend : r.EndsBelowFloor id) (he' : History.Entry h w r' a') (hle : v ≤ w) :
    ∀ range ∈ r'.ranges, range.1.id = id → range.2 < r'.trunc := by
  refine hf.derived.rel (P := fun r r' => r.Sound → r.EndsBelowFloor id →
    ∀ range ∈ r'.ranges, range.1.id = id → range.2 < r'.trunc) ?_ ?_ he he' hle
    (hf.sound _ _ _ he) hend
  · rintro r hsound ⟨range₀, hrange₀, hid₀, hlt⟩ range hrange hid
    rw [hsound.range_unique hrange hrange₀ (hid.trans hid₀.symm)]
    exact hlt
  · intro r₁ r₂ r₃ _ b u hvu he₂ he₃ hrel hm hsound hend₁ range hrange hid
    have hbefore := hrel hsound hend₁
    rcases hm.ranges_cases (hf.sound _ _ _ he₂) with ⟨fold, -, htail, htrunc, hranges⟩ |
      ⟨-, -, hranges⟩
    · rw [hranges, List.mem_append, List.mem_singleton] at hrange
      rw [htrunc]
      rcases hrange with hrange | rfl
      · exact hbefore range hrange hid
      · -- the folded segment was the tail, and this one is not in the frontier any more
        have hgone := hf.not_frontier_of_endsBelowFloor he hend he₂ hvu
        exact absurd (by simp [frontierIds, htail, ← hid]) hgone
    · by_contra hge
      have hlive : r₃.trunc ≤ range.2 := Nat.le_of_not_lt hge
      have hlt := hbefore range ((hranges range hlive).1 hrange) hid
      have hmono := hm.mono.2
      omega

/-- The range that a fold committed stays in the directory while it reaches the floor. -/
theorem folded_range_stays (hf : Fresh h issued) {b : Author} {fold : PendingFold}
    (he : History.Entry h v r (some b)) (hb : b.call = .foldPending fold)
    (he' : History.Entry h w r' a') (hle : v ≤ w) (hlive : r'.trunc ≤ fold.oldTailEnd) :
    (⟨fold.oldTailId, fold.oldTailBase, fold.oldTailCrc32c⟩, fold.oldTailEnd) ∈ r'.ranges := by
  refine hf.derived.rel (P := fun r r' =>
    (⟨fold.oldTailId, fold.oldTailBase, fold.oldTailCrc32c⟩, fold.oldTailEnd) ∈ r.ranges →
      r'.trunc ≤ fold.oldTailEnd →
      (⟨fold.oldTailId, fold.oldTailBase, fold.oldTailCrc32c⟩, fold.oldTailEnd) ∈ r'.ranges)
    (fun _ hmem _ => hmem) ?_ he he' hle ?_ hlive
  · intro r₁ r₂ r₃ _ b u _ he₂ he₃ hrel hm hmem hlive
    have hbefore := hrel hmem (hm.mono.2.trans hlive)
    rcases hm.ranges_cases (hf.sound _ _ _ he₂) with ⟨_, -, -, -, hranges⟩ | ⟨-, -, hranges⟩
    · rw [hranges]
      exact List.mem_append_left _ hbefore
    · exact (hranges _ hlive).2 hbefore
  · obtain ⟨u, r₀, a₀, rfl, he₀, hm⟩ := hf.derived.exists_mutation he
    rcases hm.ranges_cases (hf.sound _ _ _ he₀) with ⟨fold', hb', -, -, hranges⟩ | ⟨hother, -⟩
    · rw [hb] at hb'
      cases hb'
      rw [hranges]
      exact List.mem_append_right _ (List.mem_singleton_self _)
    · exact absurd hb (hother fold)

/-- The end that a fold committed for the segment lies below the floor. -/
theorem fold_lt_of_endsBelowFloor (hf : Fresh h issued) (he : History.Entry h v r a)
    (hend : r.EndsBelowFloor id) {b : Author} {fold : PendingFold}
    (he' : History.Entry h w r' (some b)) (hb : b.call = .foldPending fold)
    (hid : fold.oldTailId = id) : fold.oldTailEnd < r.trunc := by
  by_cases hle : w ≤ v
  · by_contra hge
    have hmem := hf.folded_range_stays he' hb he hle (Nat.le_of_not_lt hge)
    obtain ⟨range, hrange, hrangeId, hlt⟩ := hend
    have heq := (hf.sound _ _ _ he).range_unique hmem hrange (hid.trans hrangeId.symm)
    rw [← heq] at hlt
    exact hge hlt
  · -- a later fold would find the segment as the tail
    obtain ⟨u, r₀, a₀, rfl, he₀, hm⟩ := hf.derived.exists_mutation he'
    have hgone := hf.not_frontier_of_endsBelowFloor he hend he₀ (by omega)
    have htail := (hm.of_foldPending hb).2.1
    exact absurd (by simp [frontierIds, htail, hid]) hgone

end Fresh

end Chorus
