import Chorus.Manifest.Proofs.HistoryProofs

/-!
# The register invariant

The callers of the manifest promise to introduce only segment ids that were never used before
(`CallerOk`; the same request may be issued again). Under that promise every document is sound:
`Fresh` says where the ids in the register come from, and that no call that introduces ids writes
twice, since it never finds its precondition again (`Fresh.not_again`).
-/

namespace Chorus

open Concurrency ManifestRecord

/-- An id that was never used: no call that was ever issued introduces it, and it is not the id the
first claim mints for the tail. -/
structure Unused (s : ManifestSystem) (id : SegmentId) : Prop where
  notIssued : ∀ call ∈ s.issued, id ∉ call.introduces
  notFirst : id ≠ segmentId 1 0

/-- What the callers of the manifest promise: calls are admissible, and a request that was not
issued before introduces only unused ids. -/
def CallerOk (s : ManifestSystem) : ManifestSystem.Action → Prop
  | .call _ call => call.Admissible ∧ (call ∈ s.issued ∨ ∀ id ∈ call.introduces, Unused s id)
  | _ => True

/-- An executable form of the promise, for ids minted from the given epochs and sequence numbers. -/
def callerCheck (minted : List (Nat × Nat)) (s : ManifestSystem) : ManifestSystem.Action → Bool
  | .call _ call =>
    decide call.introduces.Nodup &&
    call.introduces.all (fun id => minted.any fun p => id == segmentId p.1 p.2) &&
    (match call with
      | .foldPending fold => decide (fold.oldTailBase ≤ fold.oldTailEnd)
      | _ => true) &&
    (decide (call ∈ s.issued) || call.introduces.all fun id =>
      s.issued.all (fun call' => decide (id ∉ call'.introduces)) && decide (id ≠ segmentId 1 0))
  | _ => true

theorem callerOk_of_check {minted : List (Nat × Nat)} {s : ManifestSystem}
    {act : ManifestSystem.Action} (h : callerCheck minted s act = true) : CallerOk s act := by
  cases act with
  | call i call =>
    simp only [callerCheck, Bool.and_eq_true, Bool.or_eq_true, decide_eq_true_eq, List.all_eq_true,
      List.any_eq_true, beq_iff_eq] at h
    obtain ⟨⟨⟨hnodup, hminted⟩, hfold⟩, hnew⟩ := h
    refine ⟨⟨hnodup, fun id hid => ?_, ?_⟩, hnew.imp_right fun hall id hid => ?_⟩
    · obtain ⟨p, -, hp⟩ := hminted id hid
      exact ⟨p.1, p.2, hp⟩
    · rintro fold rfl
      simpa using hfold
    · exact ⟨(hall id hid).1, (hall id hid).2⟩
  | _ => trivial

/-- Where the segment ids of a history come from. -/
structure Fresh (h : History) (issued : List ManifestCall) : Prop where
  derived : Derived h
  written : ∀ v r a, History.Entry h v r (some a) → a.call ∈ issued
  admissible : ∀ call ∈ issued, call.Admissible
  disjoint : ∀ call ∈ issued, ∀ call' ∈ issued, ∀ id ∈ call.introduces, id ∈ call'.introduces →
    call = call'
  notFirst : ∀ call ∈ issued, segmentId 1 0 ∉ call.introduces
  sound : ∀ v r a, History.Entry h v r a → r.Sound
  /-- An introduced id stands in the register only after its call has written. -/
  origin : ∀ call ∈ issued, ∀ id ∈ call.introduces, ∀ v r a, History.Entry h v r a → id ∈ r.ids →
    ∃ w r' b, w ≤ v ∧ History.Entry h w r' (some b) ∧ b.call = call
  /-- A call that introduces ids writes at most once. -/
  once : ∀ v w r r' b b', History.Entry h v r (some b) → History.Entry h w r' (some b') →
    b.call = b'.call → b.call.introduces ≠ [] → v = w

namespace Fresh

variable {h : History} {issued : List ManifestCall} {u v w : Nat} {r r' next : ManifestRecord}
  {a a' : Option Author} {b b' : Author} {id : SegmentId}

/-- A pending slot that was filled stays filled. -/
theorem pending_isSome (hf : Fresh h issued) (he : History.Entry h v r a)
    (he' : History.Entry h w r' a') (hle : v ≤ w) (hp : r.pendingId.isSome) :
    r'.pendingId.isSome := by
  refine hf.derived.rel (P := fun r r' => r.pendingId.isSome → r'.pendingId.isSome) (fun _ => id)
    ?_ he he' hle hp
  intro r r₀ r₁ _ b u _ _ _ hrel hm hp
  have hp₀ := hrel hp
  cases hm with
  | registerPending => rfl
  | replaceEmptyFrontier => rfl
  | foldPending => rfl
  | _ => exact hp₀

/-- An id that was named by a document and has left the frontier never returns to it. -/
theorem not_mem_frontierIds (hf : Fresh h issued) (hid : id ∈ r.ids) (he : History.Entry h u r a)
    (huv : u ≤ v) {r₁ : ManifestRecord} {a₁ : Option Author} (he₁ : History.Entry h v r₁ a₁)
    (hepoch : r₁.epoch ≠ 0) (hgone : id ∉ r₁.frontierIds) (he' : History.Entry h w r' a')
    (hle : v ≤ w) : id ∉ r'.frontierIds := by
  refine (hf.derived.rel (P := fun r₁ r' => r₁.epoch ≠ 0 → id ∉ r₁.frontierIds →
    r'.epoch ≠ 0 ∧ id ∉ r'.frontierIds) (fun _ h₁ h₂ => ⟨h₁, h₂⟩) ?_ he₁ he' hle hepoch hgone).2
  intro r₁ r₂ r₃ _ b t hvt he₂ he₃ hrel hm h₁ h₂
  obtain ⟨hepoch₂, hgone₂⟩ := hrel h₁ h₂
  have hepoch₃ : r₃.epoch ≠ 0 := by
    have := hm.mono.1
    omega
  refine ⟨hepoch₃, fun hmem => ?_⟩
  rcases hm.mem_frontierIds_cases hmem with hmem | hmem | hnone
  · exact hgone₂ hmem
  · -- the call that would bring the id back has already written before
    obtain ⟨w', r₄, b', hw', he₄, hcall⟩ :=
      hf.origin b.call (hf.written _ _ _ he₃) id hmem u r a he hid
    have := hf.once w' (t + 1) r₄ r₃ b' b he₄ he₃ hcall (by
      rw [hcall]
      exact List.ne_nil_of_mem hmem)
    omega
  · have := (hf.sound _ _ _ he₂).tailPresent (Nat.pos_of_ne_zero hepoch₂)
    simp [hnone] at this

/-- A call that introduces ids and has written never finds its precondition again. -/
theorem not_again (hf : Fresh h issued) (he : History.Entry h w r' (some b'))
    (he' : History.Entry h v r a) (hle : w ≤ v) (hcall : b.call = b'.call)
    (hintro : b.call.introduces ≠ []) : ¬ Mutation b r next := by
  intro hm
  obtain ⟨u, r₀, a₀, rfl, he₀, hm'⟩ := hf.derived.exists_mutation he
  cases hm' with
  | claim hc => exact hintro (by rw [hcall, hc]; rfl)
  | raiseTrunc hc => exact hintro (by rw [hcall, hc]; rfl)
  | removeSegments hc => exact hintro (by rw [hcall, hc]; rfl)
  | registerPending hc =>
    have hsome := hf.pending_isSome he he' hle rfl
    simp [(hm.of_registerPending (hcall.trans hc)).2] at hsome
  | @foldPending fold hc =>
    have hbase := hf.derived.tailBase_le he he' hle
    have hend := (hf.admissible _ (hf.written _ _ _ he)).foldEnd fold hc
    have hnow := (hm.of_foldPending (hcall.trans hc)).2.2.1
    simp only [Manifest.foldRecord] at hbase
    omega
  | @replaceEmptyFrontier tailBase activeId pendingId hc hclaim ho =>
    have hepoch : r₀.epoch ≠ 0 := ho.1 ▸ hclaim
    obtain ⟨tail, htail⟩ := Option.isSome_iff_exists.1
      ((hf.sound _ _ _ he₀).tailPresent (Nat.pos_of_ne_zero hepoch))
    have hmem : tail ∈ r₀.ids := mem_ids.2 (Or.inl htail)
    -- the replaced tail is neither of the two new ids
    have hgone : ∀ id ∈ b'.call.introduces, id ≠ tail := by
      rintro id hid rfl
      obtain ⟨w', r₁, b₁, hw', he₁, hcall₁⟩ :=
        hf.origin b'.call (hf.written _ _ _ he) id hid u r₀ a₀ he₀ hmem
      have := hf.once w' (u + 1) _ _ b₁ b' he₁ he hcall₁ (by
        rw [hcall₁]
        exact List.ne_nil_of_mem hid)
      omega
    have hnew : tail ∉ ManifestRecord.frontierIds
        { r₀ with tailId := some activeId, pendingId := some pendingId } := by
      simp only [frontierIds, Option.toList_some, List.singleton_append, List.mem_cons,
        List.not_mem_nil, or_false]
      rintro (heq | heq)
      · exact hgone activeId (by simp [hc, ManifestCall.introduces]) heq.symm
      · exact hgone pendingId (by simp [hc, ManifestCall.introduces]) heq.symm
    have hout := hf.not_mem_frontierIds hmem he₀ (Nat.le_succ u) he hepoch hnew he' hle
    have hnow := (hm.of_replaceEmptyFrontier (hcall.trans hc)).2.1
    exact hout (by simp [frontierIds, hnow, htail])

/-- A derived history whose writes come from such calls is fresh. -/
theorem of_derived (hd : Derived h)
    (written : ∀ v r a, History.Entry h v r (some a) → a.call ∈ issued)
    (admissible : ∀ call ∈ issued, call.Admissible)
    (disjoint : ∀ call ∈ issued, ∀ call' ∈ issued, ∀ id ∈ call.introduces,
      id ∈ call'.introduces → call = call')
    (notFirst : ∀ call ∈ issued, segmentId 1 0 ∉ call.introduces) : Fresh h issued := by
  induction hd with
  | nil =>
    have hnil : ∀ v r a, ¬ History.Entry ([] : History) v r a := by
      rintro v r a ⟨rest, hs, -⟩
      simp at hs
    exact
      { derived := .nil, written, admissible, disjoint, notFirst
        sound := fun v r a he => absurd he (hnil v r a)
        origin := fun _ _ _ _ v r a he => absurd he (hnil v r a)
        once := fun v _ r _ b _ he => absurd he (hnil v r _) }
  | @create buckets hb =>
    have hone : ∀ v r a, History.Entry [(initial buckets, none)] v r a →
        r = initial buckets ∧ a = none := by
      intro v r a he
      rcases History.entry_cons.1 he with ⟨-, heq⟩ | ⟨rest, hs, -⟩
      · simp only [Prod.mk.injEq] at heq
        exact ⟨heq.1.symm, heq.2.symm⟩
      · simp at hs
    exact
      { derived := .create hb, written, admissible, disjoint, notFirst
        sound := fun v r a he => (hone v r a he).1 ▸ sound_initial hb
        origin := fun _ _ id _ v r a he hid => by
          rw [(hone v r a he).1] at hid
          simp [ids, frontierIds, directoryIds, initial] at hid
        once := fun v _ r _ b _ he => by cases (hone v r _ he).2 }
  | @write r next b b₀ rest hd ht hv ih =>
    have hf := ih fun v r a he => written v r a (History.entry_cons.2 (Or.inr he))
    have hm := transform_update ht
    have hcur : History.Entry ((r, b₀) :: rest) (rest.length + 1) r b₀ :=
      ⟨rest, List.suffix_refl _, rfl⟩
    have hnew : History.Entry ((next, some b) :: (r, b₀) :: rest)
        (rest.length + 1 + 1) next (some b) :=
      ⟨_, List.suffix_refl _, rfl⟩
    have hissued : b.call ∈ issued := written _ _ _ hnew
    have hnotAgain : ∀ w r' b', History.Entry ((r, b₀) :: rest) w r' (some b') →
        b.call.introduces ≠ [] → b'.call ≠ b.call := fun w r' b' he hne hcall =>
      hf.not_again he hcur (by have := he.le_length; simpa using this) hcall.symm hne hm
    have hunused : ∀ id ∈ b.call.introduces, id ∉ r.ids := by
      intro id hid hmem
      obtain ⟨w, r', b', -, he, hcall⟩ := hf.origin b.call hissued id hid _ _ _ hcur hmem
      exact hnotAgain w r' b' he (List.ne_nil_of_mem hid) hcall
    refine
      { derived := .write hd ht hv, written, admissible, disjoint, notFirst
        sound := fun v r' a he => ?_
        origin := fun call hcall id hid v r' a he hmem => ?_
        once := fun v w r₁ r₂ b₁ b₂ he₁ he₂ hcall hne => ?_ }
    · rcases History.entry_cons.1 he with ⟨-, heq⟩ | he
      · simp only [Prod.mk.injEq] at heq
        rw [← heq.1]
        exact hm.sound (hf.sound _ _ _ hcur) (admissible _ hissued) hunused
      · exact hf.sound _ _ _ he
    · have hold : ∀ u r₁ a₁, u ≤ v → History.Entry ((r, b₀) :: rest) u r₁ a₁ → id ∈ r₁.ids →
          ∃ w r' b', w ≤ v ∧ History.Entry ((next, some b) :: (r, b₀) :: rest) w r' (some b') ∧
            b'.call = call := by
        intro u r₁ a₁ hu he₁ hmem₁
        obtain ⟨w, r', b', hw, he', hb'⟩ := hf.origin call hcall id hid u r₁ a₁ he₁ hmem₁
        exact ⟨w, r', b', hw.trans hu, History.entry_cons.2 (Or.inr he'), hb'⟩
      rcases History.entry_cons.1 he with ⟨hlen, heq⟩ | he
      · simp only [Prod.mk.injEq] at heq
        obtain ⟨rfl, -⟩ := heq
        simp only [List.length_cons] at hlen
        rcases hm.mem_ids_cases hmem with hmem | hmem | ⟨hnone, rfl⟩
        · exact hold _ r b₀ (by omega) hcur hmem
        · exact ⟨_, next, b, hlen.ge, hnew, disjoint _ hissued _ hcall id hmem hid⟩
        · -- only an unclaimed register has no tail, so the claim grants epoch one
          have hzero : r.epoch = 0 := by
            by_contra hne
            have := (hf.sound _ _ _ hcur).tailPresent (Nat.pos_of_ne_zero hne)
            simp [hnone] at this
          rw [hzero] at hid
          exact absurd hid (notFirst call hcall)
      · exact hold v r' a le_rfl he hmem
    · rcases History.entry_cons.1 he₁ with ⟨hv₁, heq₁⟩ | he₁ <;>
        rcases History.entry_cons.1 he₂ with ⟨hv₂, heq₂⟩ | he₂
      · omega
      · simp only [Prod.mk.injEq, Option.some.injEq] at heq₁
        obtain ⟨-, rfl⟩ := heq₁
        exact absurd hcall.symm (hnotAgain _ _ _ he₂ hne)
      · simp only [Prod.mk.injEq, Option.some.injEq] at heq₂
        obtain ⟨-, rfl⟩ := heq₂
        exact absurd hcall (hnotAgain _ _ _ he₁ (hcall ▸ hne))
      · exact hf.once v w r₁ r₂ b₁ b₂ he₁ he₂ hcall hne

/-- Every candidate an issued call computes from a document of the register passes `validate`. -/
theorem candidate_valid (hf : Fresh h issued) (hb : b.call ∈ issued) (he : History.Entry h v r a)
    (ht : b.transform r = .ok (.update next ())) : next.validate = .ok () := by
  have hm := transform_update ht
  refine validate_eq_ok_iff.2 (hm.sound (hf.sound _ _ _ he) (hf.admissible _ hb) ?_).toWellFormed
  intro id hid hmem
  obtain ⟨w, r', b', hw, he', hcall⟩ := hf.origin b.call hb id hid _ _ _ he hmem
  exact hf.not_again he' he hw hcall.symm (List.ne_nil_of_mem hid) hm

end Fresh

/-- The removal check never reports a refused document. -/
theorem validateRemovals_ne_record {r : ManifestRecord} {ids : List SegmentId} {floor : Nat}
    {fault : ManifestFault} :
    r.validateRemovals ids floor ≠ .error (.invalidManifest (.record fault)) := by
  have hloop : ∀ segments : List DirectoryEntry,
      validateRemovalsFrom r.tailBase ids floor segments ≠
      .error (.invalidManifest (.record fault)) := by
    intro segments
    induction segments with
    | nil => simp [validateRemovalsFrom]
    | cons entry rest ih =>
      simp only [validateRemovalsFrom]
      split_ifs <;> simp [ih]
  unfold validateRemovals
  split_ifs
  · simp
  · exact hloop _

/-- The checks of a call never report a refused document: only `validate` does. -/
theorem transform_ne_record {a : Author} {r : ManifestRecord} {fault : ManifestFault} :
    a.transform r ≠ .error (.invalidManifest (.record fault)) := by
  obtain ⟨call, handle, maxDirectoryBytes⟩ := a
  have hclaim : ∀ c : WriterClaim, Manifest.checkClaim r c.epoch c.owner ≠
      .error (.invalidManifest (.record fault)) := fun c => by simp [Manifest.checkClaim]
  have hclaimed : ∀ {f : WriterClaim → ManifestRecord → Except ProtocolError (CasTransform Unit)},
      f handle r ≠ .error (.invalidManifest (.record fault)) →
      Author.claimed ⟨call, handle, maxDirectoryBytes⟩ r f ≠
        .error (.invalidManifest (.record fault)) := by
    intro f hf
    unfold Author.claimed
    split <;> simp [hf]
  cases call with
  | openHandle => simp [Author.transform]
  | refresh => simp [Author.transform]
  | validateOwner =>
    simp only [Author.transform, Except.map]
    split
    · rename_i heq
      exact fun h => hclaim handle (heq.trans (by simpa using h))
    · simp
  | claim =>
    simp only [Author.transform, Manifest.claimTransform]
    cases checkedAdd r.epoch 1 <;> simp
  | registerPending id =>
    simp only [Author.transform]
    refine hclaimed fun h => ?_
    simp only [Manifest.registerPendingTransform, bind_eq_error, hclaim, false_or] at h
    obtain ⟨-, -, h⟩ := h
    split at h
    · split_ifs at h
      cases h
    · cases h
  | replaceEmptyFrontier expectedTailId expectedPendingId tailBase activeId pendingId =>
    simp only [Author.transform]
    refine hclaimed fun h => ?_
    simp only [Manifest.replaceEmptyFrontierTransform, bind_eq_error, hclaim, false_or] at h
    obtain ⟨-, -, h⟩ := h
    split_ifs at h
    simp [bind_eq_error] at h
  | foldPending fold =>
    simp only [Author.transform]
    refine hclaimed fun h => ?_
    simp only [Manifest.foldPendingTransform, bind_eq_error, hclaim, false_or] at h
    obtain ⟨-, -, h⟩ := h
    split_ifs at h <;> simp [bind_eq_error] at h
  | raiseTrunc writer floor =>
    simp only [Author.transform, Manifest.raiseTruncTransform]
    intro h
    simp only [bind_eq_error, hclaim, false_or] at h
    obtain ⟨-, -, h⟩ := h
    split_ifs at h
  | removeSegments ids floor =>
    simp only [Author.transform]
    split
    · simp
    · intro h
      simp only [Manifest.removeSegmentsTransform, bind_eq_error, validateRemovals_ne_record,
        false_or] at h
      obtain ⟨-, -, h⟩ := h
      split_ifs at h

/-- The promises of the callers about the calls they have issued. -/
structure IssuedOk (issued : List ManifestCall) : Prop where
  admissible : ∀ call ∈ issued, call.Admissible
  disjoint : ∀ call ∈ issued, ∀ call' ∈ issued, ∀ id ∈ call.introduces, id ∈ call'.introduces →
    call = call'
  notFirst : ∀ call ∈ issued, segmentId 1 0 ∉ call.introduces

theorem IssuedOk.cons {s : ManifestSystem} {call : ManifestCall} (h : IssuedOk s.issued)
    (ha : call.Admissible) (hnew : call ∈ s.issued ∨ ∀ id ∈ call.introduces, Unused s id) :
    IssuedOk (call :: s.issued) := by
  rcases hnew with hmem | hnew
  · -- the same request again adds nothing
    have hsub : ∀ c ∈ call :: s.issued, c ∈ s.issued := by
      intro c hc
      rcases List.mem_cons.1 hc with rfl | hc
      · exact hmem
      · exact hc
    exact ⟨fun c hc => h.admissible c (hsub c hc),
      fun c hc c' hc' => h.disjoint c (hsub c hc) c' (hsub c' hc'),
      fun c hc => h.notFirst c (hsub c hc)⟩
  · refine ⟨?_, ?_, ?_⟩
    · intro c hc
      rcases List.mem_cons.1 hc with rfl | hc
      · exact ha
      · exact h.admissible c hc
    · intro c hc c' hc' id hid hid'
      rcases List.mem_cons.1 hc with heq | hold <;> rcases List.mem_cons.1 hc' with heq' | hold'
      · exact heq.trans heq'.symm
      · exact absurd hid' ((hnew id (heq ▸ hid)).notIssued c' hold')
      · exact absurd hid ((hnew id (heq' ▸ hid')).notIssued c hold)
      · exact h.disjoint c hold c' hold' id hid hid'
    · intro c hc
      rcases List.mem_cons.1 hc with rfl | hc
      · exact fun hid => (hnew _ hid).notFirst rfl
      · exact h.notFirst c hc

/-- A step changes the issued calls only by issuing one more. -/
theorem issuedOk_of_reaches {s : ManifestSystem}
    (hs : Reaches ManifestSystem.step CallerOk ManifestSystem.init s) : IssuedOk s.issued := by
  refine hs.invariant (I := fun s => IssuedOk s.issued) ?_ fun s s' act h hok hstep => ?_
  · exact ⟨by simp [ManifestSystem.init], by simp [ManifestSystem.init],
      by simp [ManifestSystem.init]⟩
  · rcases ManifestSystem.issued_cases hstep with heq | ⟨i, call, rfl, heq⟩
    · rwa [heq]
    · rw [heq]
      exact h.cons hok.1 hok.2

theorem fresh_of_reaches {s : ManifestSystem}
    (hs : Reaches ManifestSystem.step CallerOk ManifestSystem.init s) :
    Fresh s.store.history s.issued := by
  have hissued := issuedOk_of_reaches hs
  have hinv := SystemInv.of_reaches hs
  exact Fresh.of_derived hinv.store.derived hinv.written hissued.admissible hissued.disjoint
    hissued.notFirst

/-- In a sound document whose floor lies below the tail, the first live range starts at or below the
floor, and the live ranges hold every index between the floor and the tail exactly once. -/
theorem ManifestRecord.Sound.live_cover {r : ManifestRecord} (h : r.Sound)
    (ht : r.trunc < r.tailBase) :
    (∃ range, r.ranges.find? (fun range => r.trunc ≤ range.2) = some range ∧
      range.1.base ≤ r.trunc) ∧
    ∀ i, r.trunc ≤ i → i < r.tailBase → (r.liveRanges.filter (inRange i)).length = 1 := by
  obtain ⟨range₀, hmem₀, hle₀, hge₀⟩ := h.exists_range ht
  have hhead : r.segments.head?.any (fun e => e.base ≤ r.trunc) = true := by
    by_contra hnot
    have hlen := length_filter_rangesFrom h.basesIncrease h.basesBelowTail ht
    rw [if_neg hnot, List.length_eq_zero_iff, List.filter_eq_nil_iff] at hlen
    exact hlen range₀ hmem₀ (by simp [inRange, hle₀, hge₀])
  refine ⟨?_, fun i hi hlt => ?_⟩
  · cases hfind : r.ranges.find? (fun range => decide (r.trunc ≤ range.2)) with
    | none => exact absurd (decide_eq_true hge₀) (List.find?_eq_none.1 hfind range₀ hmem₀)
    | some first =>
      exact ⟨first, rfl, find?_rangesFrom_base_le hhead hfind⟩
  · rw [filter_liveRanges hi, ranges, length_filter_rangesFrom h.basesIncrease h.basesBelowTail hlt,
      if_pos]
    cases hs : r.segments.head? with
    | none => simp [hs] at hhead
    | some e =>
      simp only [hs, Option.any_some, decide_eq_true_eq] at hhead ⊢
      omega

/-- The register invariant. In every interleaving of any number of handles whose callers introduce
only unused segment ids: epochs, floors and tail bases never decrease along the register's history
and each epoch has one owner; every candidate an issued call computes from a document the register
has held passes `validate`, so no call ever returns its error; and in every document whose floor
lies below the tail the first live directory entry starts at or below the floor, and the live
entries cover every index from the floor to the tail exactly once. -/
theorem manifest_register_invariant {s : ManifestSystem}
    (hs : Reaches ManifestSystem.step CallerOk ManifestSystem.init s) :
    (∀ v w r r', s.store.At v r → s.store.At w r' → v ≤ w →
      r.epoch ≤ r'.epoch ∧ r.trunc ≤ r'.trunc ∧ r.tailBase ≤ r'.tailBase ∧
        (r.epoch = r'.epoch → r.owner = r'.owner)) ∧
    (∀ a : Author, a.call ∈ s.issued → ∀ v r next, s.store.At v r →
      a.transform r = .ok (.update next ()) → next.validate = .ok ()) ∧
    (∀ c ∈ s.completions, ∀ fault, c.outcome ≠ .error (.invalidManifest (.record fault))) ∧
    ∀ v r, s.store.At v r → r.trunc < r.tailBase →
      (∃ range, r.ranges.find? (fun range => r.trunc ≤ range.2) = some range ∧
        range.1.base ≤ r.trunc) ∧
      ∀ i, r.trunc ≤ i → i < r.tailBase → (r.liveRanges.filter (inRange i)).length = 1 := by
  have hfresh := fresh_of_reaches hs
  have hinv := SystemInv.of_reaches hs
  refine ⟨?_, ?_, ?_, ?_⟩
  · rintro v w r r' ⟨a, he⟩ ⟨a', he'⟩ hle
    obtain ⟨hepoch, htrunc, howner⟩ := hfresh.derived.mono he he' hle
    exact ⟨hepoch, htrunc, hfresh.derived.tailBase_le he he' hle, howner⟩
  · rintro a ha v r next ⟨b, he⟩ ht
    exact hfresh.candidate_valid ha he ht
  · intro c hc fault hout
    obtain ⟨hissued, t, hgrows, -, -, hres⟩ := hinv.done c hc
    simp only [hout] at hres
    rcases hres with hstore | ⟨-, hcontention⟩ | ⟨v, r, hat, -, hdec⟩
    · rcases hstore with h | h <;> cases h
    · cases hcontention
    · obtain ⟨b, he⟩ := hat.mono hgrows
      rcases hdec with ht | ⟨m, hm, -⟩ | ⟨next, fault', ht, hinvalid, -⟩
      · exact transform_ne_record ht
      · -- documents that were read are sound, so only the configured buckets may be refused
        unfold Manifest.accepted at hm
        rw [validate_eq_ok_iff.2 (hfresh.sound _ _ _ he).toWellFormed] at hm
        simp only [Manifest.validateConfiguration] at hm
        split_ifs at hm
        cases hm
      · have hcall : c.author.call ∈ s.issued := by
          refine hissued.resolve_left fun hopen => ?_
          simp [Author.transform, hopen] at ht
        rw [hfresh.candidate_valid hcall he ht] at hinvalid
        cases hinvalid
  · rintro v r ⟨a, he⟩ ht
    exact (hfresh.sound _ _ _ he).live_cover ht

/-- A writer claims and preregisters a successor. -/
def registeredRun (buckets : List String) (budget maxRetries : Nat) : List ManifestSystem.Action :=
  answeredRun 0 2 (.openHandle "writer" buckets.length buckets budget maxRetries) ++
  answeredRun 0 1 (.call 0 .claim) ++ answeredRun 0 1 (.call 0 (.registerPending (segmentId 1 1)))

/-- It folds its first segment of three records. -/
def foldedRun : List ManifestSystem.Action :=
  registeredRun ["bucket"] 6144 0 ++ answeredRun 0 1 (.call 0 (.foldPending
    ⟨segmentId 1 0, 0, 2, "digest", 7, segmentId 1 1, segmentId 1 1, segmentId 1 2⟩))

/-- In the last document of that run the directory covers the index 1 exactly once. -/
theorem manifest_register_invariant_folded : ∃ s r,
    Reaches ManifestSystem.step CallerOk ManifestSystem.init s ∧ s.store.At 4 r ∧
      r.trunc < r.tailBase ∧ (r.liveRanges.filter (inRange 1)).length = 1 := by
  have hrun : (runChecked ManifestSystem.step (callerCheck [(1, 1), (1, 2)]) ManifestSystem.init
      foldedRun).any (fun s => decide (s.store.version = 4) && s.store.current.any fun r =>
        decide (r.trunc = 0 ∧ r.tailBase = 3)) = true := by
    decide +kernel
  obtain ⟨s, hreach, hfacts⟩ := exists_reaches (fun _ _ => callerOk_of_check) hrun
  simp only [Bool.and_eq_true, decide_eq_true_eq, Option.any_eq_true] at hfacts
  obtain ⟨hversion, r, hcur, htrunc, htail⟩ := hfacts
  have hat : s.store.At 4 r := hversion ▸ Store.at_of_current hcur
  exact ⟨s, r, hreach, hat, by omega,
    ((manifest_register_invariant hreach).2.2.2 4 r hat (by omega)).2 1 (by omega) (by omega)⟩

end Chorus
