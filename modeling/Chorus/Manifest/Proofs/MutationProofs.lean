import Chorus.Manifest.System
import Chorus.Manifest.Proofs.SegmentIdProofs
import Mathlib.Tactic.Tauto

/-!
# What one write does to the register

`Mutation a r next` lists, one constructor for each mutator, what a write by the author `a` finds in
the document `r` and what it leaves (`transform_update`); every fact about the history is a case
analysis over it. `Sound` is the inductive invariant of a document: the checks of `validate`, the
coverage of the retained indices, and what an unclaimed register looks like.
-/

namespace Chorus

open Manifest

namespace ManifestRecord

def OwnedBy (r : ManifestRecord) (claim : WriterClaim) : Prop :=
  r.epoch = claim.epoch ∧ r.owner = claim.owner

def frontierIds (r : ManifestRecord) : List SegmentId := r.tailId.toList ++ r.pendingId.toList

def ids (r : ManifestRecord) : List SegmentId := r.frontierIds ++ r.directoryIds

structure Sound (r : ManifestRecord) : Prop extends WellFormed r where
  /-- Some entry starts at or below the floor, as long as the floor lies below the tail. -/
  covered : r.trunc < r.tailBase → ∃ e ∈ r.segments, e.base ≤ r.trunc
  /-- Before the first claim the register names no segment. -/
  unclaimed : r.epoch = 0 →
    r.tailId = none ∧ r.pendingId = none ∧ r.segments = [] ∧ r.tailBase = 0

end ManifestRecord

open ManifestRecord

/-- What a write by `a` finds in the document `r`, and the document it installs. -/
inductive Mutation (a : Author) (r : ManifestRecord) : ManifestRecord → Prop where
  | claim (hc : a.call = .claim) (he : r.epoch + 1 < u64Limit) :
      Mutation a r { r with
        epoch := r.epoch + 1
        owner := a.handle.owner
        tailId := some (r.tailId.getD (segmentId (r.epoch + 1) 0)) }
  | registerPending {id : SegmentId} (hc : a.call = .registerPending id)
      (hclaim : a.handle.epoch ≠ 0) (ho : r.OwnedBy a.handle) (hp : r.pendingId = none) :
      Mutation a r { r with pendingId := some id }
  | replaceEmptyFrontier {tailBase : Nat} {activeId pendingId : SegmentId}
      (hc : a.call = .replaceEmptyFrontier r.tailId r.pendingId tailBase activeId pendingId)
      (hclaim : a.handle.epoch ≠ 0) (ho : r.OwnedBy a.handle) (hb : r.tailBase = tailBase) :
      Mutation a r { r with tailId := some activeId, pendingId := some pendingId }
  | foldPending {fold : PendingFold} (hc : a.call = .foldPending fold)
      (hclaim : a.handle.epoch ≠ 0) (ho : r.OwnedBy a.handle)
      (ht : r.tailId = some fold.oldTailId) (hb : r.tailBase = fold.oldTailBase)
      (hp : r.pendingId = some fold.consumedPendingId) (he : fold.oldTailEnd + 1 < u64Limit)
      (hroom : r.directoryHasRoom 1 a.maxDirectoryBytes) :
      Mutation a r (foldRecord fold r)
  | raiseTrunc {writer : WriterClaim} {floor : Nat} (hc : a.call = .raiseTrunc writer floor)
      (ho : r.OwnedBy writer) (hf : r.trunc < floor) :
      Mutation a r { r with trunc := floor }
  | removeSegments {ids : List SegmentId} {floor : Nat} (hc : a.call = .removeSegments ids floor)
      (hv : r.validateRemovals ids floor = .ok ()) :
      Mutation a r { r with segments := r.segments.filter fun entry => entry.id ∉ ids }

@[simp]
theorem checkClaim_eq_ok {r : ManifestRecord} {claim : WriterClaim} {u : Unit} :
    checkClaim r claim.epoch claim.owner = .ok u ↔ r.OwnedBy claim := by
  simp only [checkClaim, failIf_eq_ok, OwnedBy]
  tauto

theorem isNone_checkedAdd {a b : Nat} : (checkedAdd a b).isNone = true ↔ ¬ a + b < u64Limit := by
  unfold checkedAdd
  split <;> simp [*]

theorem claimed_eq_ok {a : Author} {r : ManifestRecord} {d : CasTransform Unit}
    {f : WriterClaim → ManifestRecord → Except ProtocolError (CasTransform Unit)} :
    a.claimed r f = .ok d ↔ a.handle.epoch ≠ 0 ∧ f a.handle r = .ok d := by
  unfold Author.claimed
  split <;> simp [*]

/-- A call that updates the register makes one of the mutations. -/
theorem transform_update {a : Author} {r next : ManifestRecord}
    (h : a.transform r = .ok (.update next ())) : Mutation a r next := by
  obtain ⟨call, handle, maxDirectoryBytes⟩ := a
  cases call with
  | openHandle => simp [Author.transform] at h
  | refresh => simp [Author.transform] at h
  | validateOwner =>
    simp only [Author.transform, Except.map] at h
    split at h <;> cases h
  | claim =>
    simp only [Author.transform, claimTransform, checkedAdd] at h
    split_ifs at h with he
    · simp only [Except.ok.injEq, CasTransform.update.injEq, and_true] at h
      subst h
      exact .claim rfl he
  | registerPending id =>
    simp only [Author.transform, claimed_eq_ok, registerPendingTransform, bind_eq_ok,
      checkClaim_eq_ok, exists_const] at h
    obtain ⟨hclaim, ho, h⟩ := h
    cases hp : r.pendingId with
    | some committed =>
      simp only [hp] at h
      split at h <;> cases h
    | none =>
      simp only [hp, Except.ok.injEq, CasTransform.update.injEq, and_true] at h
      subst h
      exact .registerPending rfl hclaim ho hp
  | replaceEmptyFrontier expectedTailId expectedPendingId tailBase activeId pendingId =>
    simp only [Author.transform, claimed_eq_ok, replaceEmptyFrontierTransform, bind_eq_ok,
      checkClaim_eq_ok, exists_const] at h
    obtain ⟨hclaim, ho, h⟩ := h
    split at h
    · cases h
    · simp only [bind_eq_ok, failIf_eq_ok, exists_const, Except.ok.injEq, CasTransform.update.injEq,
        and_true] at h
      obtain ⟨hm, rfl⟩ := h
      push Not at hm
      obtain ⟨rfl, rfl, hb⟩ := hm
      exact .replaceEmptyFrontier rfl hclaim ho hb
  | foldPending fold =>
    simp only [Author.transform, claimed_eq_ok, foldPendingTransform, bind_eq_ok, checkClaim_eq_ok,
      exists_const] at h
    obtain ⟨hclaim, ho, h⟩ := h
    split at h
    · simp [bind_eq_ok] at h
    · simp only [bind_eq_ok, failIf_eq_ok, exists_const, Except.ok.injEq, CasTransform.update.injEq,
        and_true, isNone_checkedAdd, not_not] at h
      obtain ⟨hm, he, hroom, rfl⟩ := h
      push Not at hm
      exact .foldPending rfl hclaim ho hm.1 hm.2.1 hm.2.2 he hroom
  | raiseTrunc writer floor =>
    simp only [Author.transform, raiseTruncTransform, bind_eq_ok, checkClaim_eq_ok,
      exists_const] at h
    obtain ⟨ho, h⟩ := h
    split at h
    · cases h
    · simp only [Except.ok.injEq, CasTransform.update.injEq, and_true] at h
      subst h
      exact .raiseTrunc rfl ho (by omega)
  | removeSegments ids floor =>
    simp only [Author.transform, removeSegmentsTransform] at h
    split at h
    · cases h
    · simp only [bind_eq_ok] at h
      obtain ⟨u, hv, h⟩ := h
      split at h
      · cases h
      · simp only [Except.ok.injEq, CasTransform.update.injEq, and_true] at h
        subst h
        exact .removeSegments rfl hv

/-! ## What a write preserves -/

/-- What the callers promise about a call: the ids it introduces are distinct segment ids, and a
fold names an end at or after its base. -/
structure ManifestCall.Admissible (call : ManifestCall) : Prop where
  nodup : call.introduces.Nodup
  minted : ∀ id ∈ call.introduces, ∃ epoch seq, id = segmentId epoch seq
  foldEnd : ∀ fold, call = .foldPending fold → fold.oldTailBase ≤ fold.oldTailEnd

variable {a : Author} {r next : ManifestRecord}

theorem Mutation.of_registerPending {id : SegmentId} (h : Mutation a r next)
    (hc : a.call = .registerPending id) : r.OwnedBy a.handle ∧ r.pendingId = none := by
  cases h <;> simp_all

theorem Mutation.of_replaceEmptyFrontier {tailId pendingId : Option SegmentId} {tailBase : Nat}
    {active pending : SegmentId} (h : Mutation a r next)
    (hc : a.call = .replaceEmptyFrontier tailId pendingId tailBase active pending) :
    r.OwnedBy a.handle ∧ r.tailId = tailId ∧ r.pendingId = pendingId := by
  cases h <;> simp_all

theorem Mutation.of_foldPending {fold : PendingFold} (h : Mutation a r next)
    (hc : a.call = .foldPending fold) :
    r.OwnedBy a.handle ∧ r.tailId = some fold.oldTailId ∧ r.tailBase = fold.oldTailBase ∧
      r.pendingId = some fold.consumedPendingId ∧ fold.oldTailEnd + 1 < u64Limit ∧
      r.directoryHasRoom 1 a.maxDirectoryBytes ∧ next = foldRecord fold r := by
  cases h <;> simp_all

theorem Mutation.of_raiseTrunc {writer : WriterClaim} {floor : Nat} (h : Mutation a r next)
    (hc : a.call = .raiseTrunc writer floor) :
    r.OwnedBy writer ∧ next = { r with trunc := floor } := by
  cases h <;> simp_all

theorem Mutation.mono (h : Mutation a r next) : r.epoch ≤ next.epoch ∧ r.trunc ≤ next.trunc := by
  cases h with
  | claim => exact ⟨Nat.le_succ _, le_rfl⟩
  | raiseTrunc _ _ hf => exact ⟨le_rfl, hf.le⟩
  | _ => exact ⟨le_rfl, le_rfl⟩

theorem Mutation.buckets_eq (h : Mutation a r next) : next.buckets = r.buckets := by
  cases h <;> rfl

/-- A write either grants the next epoch or keeps the epoch with its owner. -/
theorem Mutation.epoch_cases (h : Mutation a r next) :
    (next.epoch = r.epoch + 1 ∧ a.call = .claim ∧ next.owner = a.handle.owner) ∨
      (next.epoch = r.epoch ∧ next.owner = r.owner ∧ a.call ≠ .claim) := by
  cases h with
  | claim hc => exact Or.inl ⟨rfl, hc, rfl⟩
  | registerPending hc => exact Or.inr ⟨rfl, rfl, by simp [hc]⟩
  | replaceEmptyFrontier hc => exact Or.inr ⟨rfl, rfl, by simp [hc]⟩
  | foldPending hc => exact Or.inr ⟨rfl, rfl, by simp [hc]⟩
  | raiseTrunc hc => exact Or.inr ⟨rfl, rfl, by simp [hc]⟩
  | removeSegments hc => exact Or.inr ⟨rfl, rfl, by simp [hc]⟩

/-- A write that carries a claim replaces a document owned by exactly that claim. -/
theorem Mutation.ownedBy {claim : WriterClaim} (h : Mutation a r next)
    (hc : a.carried = some claim) : r.OwnedBy claim := by
  cases h with
  | claim hcall => simp [Author.carried, hcall] at hc
  | removeSegments hcall => simp [Author.carried, hcall] at hc
  | raiseTrunc hcall ho =>
    simp only [Author.carried, hcall, Option.some.injEq] at hc
    exact hc ▸ ho
  | registerPending hcall _ ho =>
    simp only [Author.carried, hcall, Option.some.injEq] at hc
    exact hc ▸ ho
  | replaceEmptyFrontier hcall _ ho =>
    simp only [Author.carried, hcall, Option.some.injEq] at hc
    exact hc ▸ ho
  | foldPending hcall _ ho =>
    simp only [Author.carried, hcall, Option.some.injEq] at hc
    exact hc ▸ ho

/-- The range that holds the floor, in a sound document whose floor lies below the tail. -/
theorem ManifestRecord.Sound.exists_range (h : r.Sound) (ht : r.trunc < r.tailBase) :
    ∃ range ∈ r.ranges, range.1.base ≤ r.trunc ∧ r.trunc ≤ range.2 := by
  obtain ⟨e, he, hle⟩ := h.covered ht
  have hhead : r.segments.head?.any (fun e => e.base ≤ r.trunc) = true := by
    cases hs : r.segments with
    | nil => simp [hs] at he
    | cons first rest =>
      have hinc := h.basesIncrease
      rw [hs] at he hinc
      simp only [List.head?_cons, Option.any_some, decide_eq_true_eq]
      rcases List.mem_cons.1 he with rfl | he
      · exact hle
      · have := (List.pairwise_cons.1 hinc).1 e he
        omega
  have hlen := length_filter_rangesFrom h.basesIncrease h.basesBelowTail ht
  rw [if_pos hhead] at hlen
  obtain ⟨range, hrange⟩ := List.length_pos_iff_exists_mem.1 (hlen ▸ Nat.one_pos)
  rw [List.mem_filter] at hrange
  have hin := hrange.2
  simp only [inRange, Bool.decide_and, Bool.and_eq_true, decide_eq_true_eq] at hin
  exact ⟨range, hrange.1, hin⟩

/-- Entries at or above the floor survive a removal. -/
theorem mem_filter_of_live {ids : List SegmentId} {floor : Nat} {range : DirectoryEntry × Nat}
    (hv : r.validateRemovals ids floor = .ok ()) (hrange : range ∈ r.ranges)
    (hlive : r.trunc ≤ range.2) :
    range.1 ∈ r.segments.filter fun entry => entry.id ∉ ids := by
  simp only [validateRemovals] at hv
  split_ifs at hv with hfloor
  refine List.mem_filter.2 ⟨mem_rangesFrom_fst hrange, decide_eq_true fun hid => ?_⟩
  have := validateRemovalsFrom_ok hv range hrange hid
  omega

theorem mem_ids {id : SegmentId} : id ∈ r.ids ↔
    r.tailId = some id ∨ r.pendingId = some id ∨ id ∈ r.directoryIds := by
  simp [ids, frontierIds]

theorem ManifestRecord.Sound.claim (h : r.Sound) (owner : String) :
    Sound { r with
      epoch := r.epoch + 1
      owner := owner
      tailId := some (r.tailId.getD (segmentId (r.epoch + 1) 0)) } := by
  cases ht : r.tailId with
  | some tail =>
    have hkeep := h.toWellFormed
    exact
      { hkeep with
        tailPresent := fun _ => rfl
        tailNotSealed := fun id hid => h.tailNotSealed id (by simpa [ht] using hid)
        pendingNotTail := fun id hid => by simpa [ht] using h.pendingNotTail id hid
        covered := h.covered
        unclaimed := fun he => absurd he (Nat.succ_ne_zero _) }
  | none =>
    -- only an unclaimed register has no tail, and it names no other segment either
    have he : r.epoch = 0 := by
      by_contra he
      simpa [ht] using h.tailPresent (Nat.pos_of_ne_zero he)
    obtain ⟨-, hpending, hsegments, hbase⟩ := h.unclaimed he
    have hkeep := h.toWellFormed
    exact
      { hkeep with
        tailPresent := fun _ => rfl
        tailNotSealed := fun id _ => by simp [directoryIds, hsegments]
        pendingNotTail := fun id hid => by simp [hpending] at hid
        covered := h.covered
        unclaimed := fun he => absurd he (Nat.succ_ne_zero _) }

/-- Replacing the frontier by new ids keeps a document sound. The pending slot alone may be
replaced: then the tail is the old one. -/
theorem ManifestRecord.Sound.setFrontier (h : r.Sound) {tail pending : SegmentId}
    (hepoch : r.epoch ≠ 0) (htail : tail ∉ r.directoryIds) (htext : IdText pending)
    (hne : tail ≠ pending) (hpending : pending ∉ r.directoryIds) :
    Sound { r with tailId := some tail, pendingId := some pending } := by
  have hkeep := h.toWellFormed
  exact
    { hkeep with
      tailPresent := fun _ => rfl
      tailNotSealed := fun id hid => by cases hid; exact htail
      pendingText := fun id hid => by cases hid; exact htext
      pendingNotTail := fun id hid => by cases hid; simpa using hne
      pendingNotSealed := fun id hid => by cases hid; exact hpending
      covered := h.covered
      unclaimed := fun he => absurd he hepoch }

theorem ManifestRecord.Sound.fold (h : r.Sound) {fold : PendingFold} (hepoch : r.epoch ≠ 0)
    (ht : r.tailId = some fold.oldTailId) (hb : r.tailBase = fold.oldTailBase)
    (hend : fold.oldTailBase ≤ fold.oldTailEnd)
    (hsucc : fold.successorTailId ∉ r.directoryIds) (hsucc' : fold.successorTailId ≠ fold.oldTailId)
    (hrefill : fold.refillPendingId ∉ r.directoryIds)
    (hrefill' : fold.refillPendingId ≠ fold.oldTailId)
    (hne : fold.successorTailId ≠ fold.refillPendingId) (htext : IdText fold.refillPendingId) :
    Sound (foldRecord fold r) := by
  have hids : (foldRecord fold r).directoryIds = r.directoryIds ++ [fold.oldTailId] := by
    simp [directoryIds, foldRecord]
  exact
    { sealFields := rfl
      tailPresent := fun _ => rfl
      basesIncrease := by
        refine List.pairwise_append.2 ⟨h.basesIncrease, List.pairwise_singleton _ _, ?_⟩
        intro e he e' he'
        rw [List.mem_singleton.1 he', ← hb]
        exact h.basesBelowTail e he
      basesBelowTail := by
        intro e he
        simp only [foldRecord, List.mem_append, List.mem_singleton] at he ⊢
        rcases he with he | rfl
        · have := h.basesBelowTail e he
          omega
        · simp only
          omega
      idsDistinct := by
        rw [hids]
        refine List.nodup_append.2 ⟨h.idsDistinct, List.nodup_singleton _, ?_⟩
        intro id hid id' hid' heq
        exact h.tailNotSealed _ ht (by rwa [← List.mem_singleton.1 hid', ← heq])
      tailNotSealed := by
        intro id hid
        cases hid
        simp [hids, hsucc, hsucc']
      pendingText := fun id hid => by cases hid; exact htext
      pendingNotTail := fun id hid => by cases hid; simpa [foldRecord] using hne
      pendingNotSealed := by
        intro id hid
        cases hid
        simp [hids, hrefill, hrefill']
      sealNamesLast := by
        intro _ last hlast
        simp only [foldRecord, List.getLast?_concat, Option.some.injEq] at hlast
        subst hlast
        exact ⟨rfl, rfl⟩
      bucketNames := h.bucketNames
      covered := by
        intro hlt
        by_cases htrunc : r.trunc < r.tailBase
        · obtain ⟨e, he, hle⟩ := h.covered htrunc
          exact ⟨e, by simp [foldRecord, he], hle⟩
        · exact ⟨⟨fold.oldTailId, fold.oldTailBase, fold.oldTailCrc32c⟩, by simp [foldRecord],
            by simp only [foldRecord]; omega⟩
      unclaimed := fun he => absurd he hepoch }

theorem ManifestRecord.Sound.raiseTrunc (h : r.Sound) {floor : Nat} (hf : r.trunc < floor) :
    Sound { r with trunc := floor } := by
  have hkeep := h.toWellFormed
  exact
    { hkeep with
      sealNamesLast := fun ht => h.sealNamesLast (by simp only at ht; omega)
      covered := by
        intro ht
        obtain ⟨e, he, hle⟩ := h.covered (by simp only at ht; omega)
        exact ⟨e, he, by simp only; omega⟩
      unclaimed := h.unclaimed }

theorem ManifestRecord.Sound.removeSegments (h : r.Sound) {ids : List SegmentId} {floor : Nat}
    (hv : r.validateRemovals ids floor = .ok ()) :
    Sound { r with segments := r.segments.filter fun entry => entry.id ∉ ids } := by
  have hkeep := h.toWellFormed
  have hsub : (r.segments.filter fun entry => entry.id ∉ ids).Sublist r.segments :=
    List.filter_sublist
  have hids : ∀ id, id ∉ r.directoryIds →
      id ∉ (r.segments.filter fun entry => entry.id ∉ ids).map DirectoryEntry.id :=
    fun id hid hmem => hid ((hsub.map _).subset hmem)
  exact
    { hkeep with
      basesIncrease := h.basesIncrease.sublist hsub
      basesBelowTail := fun e he => h.basesBelowTail e (hsub.subset he)
      idsDistinct := h.idsDistinct.sublist (hsub.map _)
      tailNotSealed := fun id hid => hids id (h.tailNotSealed id hid)
      pendingNotSealed := fun id hid => hids id (h.pendingNotSealed id hid)
      sealNamesLast := by
        intro ht last hlast
        -- the last entry reaches up to the tail, so it is not among the removed ones
        cases hold : r.segments.getLast? with
        | none =>
          rw [List.getLast?_eq_none_iff] at hold
          simp [hold] at hlast
        | some old =>
          have hlast_range : (old, r.tailBase - 1) ∈ r.ranges := last_mem_rangesFrom hold
          have hmem := mem_filter_of_live hv hlast_range (by simp only at ht ⊢; omega)
          obtain ⟨init, hinit⟩ := List.getLast?_eq_some_iff.1 hold
          have hkept := (List.mem_filter.1 hmem).2
          simp only [hinit, List.filter_append, List.filter_singleton, hkept, cond_true,
            List.getLast?_concat, Option.some.injEq] at hlast
          subst hlast
          exact h.sealNamesLast ht _ hold
      covered := by
        intro ht
        obtain ⟨range, hrange, hle, hge⟩ := h.exists_range ht
        exact ⟨range.1, mem_filter_of_live hv hrange hge, hle⟩
      unclaimed := by
        intro he
        obtain ⟨h1, h2, h3, h4⟩ := h.unclaimed he
        exact ⟨h1, h2, by simp [h3], h4⟩ }

/-- A write by an admissible call whose new ids are unused keeps a document sound. -/
theorem Mutation.sound (h : Mutation a r next) (hs : r.Sound) (ha : a.call.Admissible)
    (hfresh : ∀ id ∈ a.call.introduces, id ∉ r.ids) : next.Sound := by
  have htext : ∀ id ∈ a.call.introduces, IdText id := by
    intro id hid
    obtain ⟨epoch, seq, rfl⟩ := ha.minted id hid
    exact idText_segmentId epoch seq
  have hnew : ∀ id ∈ a.call.introduces,
      r.tailId ≠ some id ∧ r.pendingId ≠ some id ∧ id ∉ r.directoryIds := by
    intro id hid
    simpa only [mem_ids, not_or] using hfresh id hid
  cases h with
  | claim => exact hs.claim _
  | raiseTrunc _ _ hf => exact hs.raiseTrunc hf
  | removeSegments _ hv => exact hs.removeSegments hv
  | @registerPending id hc hclaim ho _ =>
    have hepoch : r.epoch ≠ 0 := ho.1 ▸ hclaim
    have hid : id ∈ a.call.introduces := by simp [hc, ManifestCall.introduces]
    obtain ⟨tail, htail⟩ := Option.isSome_iff_exists.1 (hs.tailPresent (Nat.pos_of_ne_zero hepoch))
    have := hs.setFrontier hepoch (hs.tailNotSealed tail htail) (htext id hid)
      (fun heq => (hnew id hid).1 (heq ▸ htail)) (hnew id hid).2.2
    rwa [← htail] at this
  | @replaceEmptyFrontier _ activeId pendingId hc hclaim ho _ =>
    have hactive : activeId ∈ a.call.introduces := by simp [hc, ManifestCall.introduces]
    have hpending : pendingId ∈ a.call.introduces := by simp [hc, ManifestCall.introduces]
    have hne : activeId ≠ pendingId := by
      have := ha.nodup
      simp only [hc, ManifestCall.introduces, List.nodup_cons, List.mem_singleton] at this
      exact this.1
    exact hs.setFrontier (ho.1 ▸ hclaim) (hnew _ hactive).2.2 (htext _ hpending) hne
      (hnew _ hpending).2.2
  | @foldPending fold hc hclaim ho ht hb hp _ _ =>
    have hrefill : fold.refillPendingId ∈ a.call.introduces := by
      simp [hc, ManifestCall.introduces]
    have hrefillTail : fold.refillPendingId ≠ fold.oldTailId := fun heq =>
      (hnew _ hrefill).1 (heq ▸ ht)
    have hfold := hs.fold (ho.1 ▸ hclaim) ht hb (ha.foldEnd fold hc)
    by_cases hcons : fold.successorTailId = fold.consumedPendingId
    · rw [hcons] at hfold
      exact hfold (hs.pendingNotSealed _ hp) (fun heq => hs.pendingNotTail _ hp (heq ▸ ht))
        (hnew _ hrefill).2.2 hrefillTail (fun heq => (hnew _ hrefill).2.1 (heq ▸ hp))
        (htext _ hrefill)
    · have hsucc : fold.successorTailId ∈ a.call.introduces := by
        simp [hc, ManifestCall.introduces, hcons]
      have hne : fold.successorTailId ≠ fold.refillPendingId := by
        have := ha.nodup
        simp only [hc, ManifestCall.introduces, if_neg hcons, List.singleton_append,
          List.nodup_cons, List.mem_singleton] at this
        exact this.1
      exact hfold (hnew _ hsucc).2.2 (fun heq => (hnew _ hsucc).1 (heq ▸ ht))
        (hnew _ hrefill).2.2 hrefillTail hne (htext _ hrefill)

theorem sound_initial {buckets : List String} (h : validateBucketNames buckets = .ok ()) :
    (initial buckets).Sound where
  sealFields := rfl
  tailPresent := fun h => absurd h (Nat.lt_irrefl _)
  basesIncrease := List.Pairwise.nil
  basesBelowTail := by simp [initial]
  idsDistinct := List.nodup_nil
  tailNotSealed := by simp [initial]
  pendingText := by simp [initial]
  pendingNotTail := by simp [initial]
  pendingNotSealed := by simp [initial]
  sealNamesLast := by simp [initial]
  bucketNames := h
  covered := by simp [initial]
  unclaimed := fun _ => ⟨rfl, rfl, rfl, rfl⟩

/-- The segment ids a write adds to a document: those its call introduces, and the id a first claim
mints for the tail. -/
theorem Mutation.mem_ids_cases (h : Mutation a r next) {id : SegmentId} (hid : id ∈ next.ids) :
    id ∈ r.ids ∨ id ∈ a.call.introduces ∨
      (r.tailId = none ∧ id = segmentId (r.epoch + 1) 0) := by
  rw [mem_ids] at hid
  cases h with
  | claim hc =>
    cases ht : r.tailId with
    | none =>
      simp only [ht, Option.getD_none, Option.some.injEq] at hid
      rcases hid with hid | hid
      · exact Or.inr (Or.inr ⟨rfl, hid.symm⟩)
      · exact Or.inl (mem_ids.2 (Or.inr hid))
    | some tail =>
      simp only [ht, Option.getD_some] at hid
      exact Or.inl (mem_ids.2 (by rwa [ht]))
  | registerPending hc =>
    simp only [Option.some.injEq] at hid
    rcases hid with hid | rfl | hid
    · exact Or.inl (mem_ids.2 (Or.inl hid))
    · exact Or.inr (Or.inl (by simp [hc, ManifestCall.introduces]))
    · exact Or.inl (mem_ids.2 (Or.inr (Or.inr hid)))
  | replaceEmptyFrontier hc =>
    simp only [Option.some.injEq] at hid
    rcases hid with rfl | rfl | hid
    · exact Or.inr (Or.inl (by simp [hc, ManifestCall.introduces]))
    · exact Or.inr (Or.inl (by simp [hc, ManifestCall.introduces]))
    · exact Or.inl (mem_ids.2 (Or.inr (Or.inr hid)))
  | @foldPending fold hc _ _ ht _ hp =>
    simp only [foldRecord, Option.some.injEq, directoryIds, List.map_append, List.map_cons,
      List.map_nil, List.mem_append, List.mem_singleton] at hid
    rcases hid with rfl | rfl | hid | rfl
    · by_cases hcons : fold.successorTailId = fold.consumedPendingId
      · exact Or.inl (mem_ids.2 (Or.inr (Or.inl (hcons ▸ hp))))
      · exact Or.inr (Or.inl (by simp [hc, ManifestCall.introduces, hcons]))
    · exact Or.inr (Or.inl (by simp [hc, ManifestCall.introduces]))
    · exact Or.inl (mem_ids.2 (Or.inr (Or.inr hid)))
    · exact Or.inl (mem_ids.2 (Or.inl ht))
  | raiseTrunc => exact Or.inl (mem_ids.2 hid)
  | removeSegments hc =>
    rcases hid with hid | hid | hid
    · exact Or.inl (mem_ids.2 (Or.inl hid))
    · exact Or.inl (mem_ids.2 (Or.inr (Or.inl hid)))
    · refine Or.inl (mem_ids.2 (Or.inr (Or.inr ?_)))
      exact (List.filter_sublist.map _).subset hid

/-- The ids a write adds to the tail and the pending slot. -/
theorem Mutation.mem_frontierIds_cases (h : Mutation a r next) {id : SegmentId}
    (hid : id ∈ next.frontierIds) :
    id ∈ r.frontierIds ∨ id ∈ a.call.introduces ∨ r.tailId = none := by
  simp only [frontierIds, List.mem_append, Option.mem_toList] at hid ⊢
  cases h with
  | claim hc =>
    cases ht : r.tailId with
    | none => exact Or.inr (Or.inr rfl)
    | some tail => exact Or.inl (by simpa [ht] using hid)
  | registerPending hc =>
    rcases hid with hid | hid
    · exact Or.inl (Or.inl hid)
    · cases hid
      exact Or.inr (Or.inl (by simp [hc, ManifestCall.introduces]))
  | replaceEmptyFrontier hc =>
    rcases hid with hid | hid <;> cases hid <;>
      exact Or.inr (Or.inl (by simp [hc, ManifestCall.introduces]))
  | @foldPending fold hc _ _ _ _ hp =>
    rcases hid with hid | hid <;> cases hid
    · by_cases hcons : fold.successorTailId = fold.consumedPendingId
      · exact Or.inl (Or.inr (hcons ▸ hp))
      · exact Or.inr (Or.inl (by simp [hc, ManifestCall.introduces, hcons]))
    · exact Or.inr (Or.inl (by simp [hc, ManifestCall.introduces]))
  | raiseTrunc => exact Or.inl hid
  | removeSegments => exact Or.inl hid

end Chorus
