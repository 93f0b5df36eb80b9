import Chorus.Maintenance.Proofs.PassProofs

/-!
# Maintenance deletes nothing that is needed

Truncation deletes only segments below the floor, now and in every later document
(`truncation_keeps_retained`), and the dead-segment sweep deletes no segment that the register names
or ever will name (`sweep_spares_live`).
-/

namespace Chorus

open Concurrency Relation ManifestRecord

variable {n : Nat} {crc : Bytes → Nat}

structure MaintenanceInv (crc : Bytes → Nat) (s : MaintenanceSystem n) : Prop where
  world : WorldInv s.world
  tasks : ∀ task ∈ s.tasks, Passes crc task.1 task.2 (fun _ _ => True) s.world
  deletes : ∀ d ∈ s.world.deletes, Authorized s.world.manifest.store d

variable {s s' : MaintenanceSystem n}

theorem follows_manifestStep {action : ManifestSystem.Action} {seqs : List Nat}
    (hs : s.manifestStep action seqs = some s') :
    ∃ w, s' = { s with world := w } ∧ Follows s.world w ∧ w.deletes = s.world.deletes ∧
      s.world.manifest.step action = some w.manifest := by
  simp only [MaintenanceSystem.manifestStep] at hs
  obtain ⟨nextSeq, hcounters, hs⟩ := Option.bind_eq_some_iff.1 hs
  obtain ⟨manifest, hstep, rfl⟩ := Option.map_eq_some_iff.1 hs
  refine ⟨_, rfl, ⟨step_grows hstep, fun hw => ?_⟩, rfl, hstep⟩
  have hquiet : (∀ i call, action ≠ .call i call) → nextSeq = s.world.nextSeq →
      WorldInv { s.world with manifest := manifest, nextSeq := nextSeq } := by
    rintro haction rfl
    exact hw.quiet haction hstep
  cases action with
  | call i call =>
    simp only at hcounters
    split at hcounters
    · rename_i m hi
      split_ifs at hcounters
      exact hw.mint hi hcounters hstep
    · cases hcounters
  | finish i =>
    simp only at hcounters
    split_ifs at hcounters
    exact hquiet (by simp) (Option.some.inj hcounters).symm
  | _ => exact hquiet (by simp) (Option.some.inj hcounters).symm

namespace MaintenanceInv

theorem init (objects : SegmentId → Fin n → Slot) :
    MaintenanceInv crc (MaintenanceSystem.init objects) where
  world := WorldInv.init objects
  tasks := by simp [MaintenanceSystem.init]
  deletes := by simp [MaintenanceSystem.init]

theorem follow (h : MaintenanceInv crc s) {w : MaintenanceWorld n} (hw : Follows s.world w)
    (hd : w.deletes = s.world.deletes) : MaintenanceInv crc { s with world := w } where
  world := hw.inv h.world
  tasks := fun task htask => wp_rely (h.tasks task htask) (.single hw)
  deletes := fun d hmem => (h.deletes d (hd ▸ hmem)).mono hw.grows

theorem manifestStep (h : MaintenanceInv crc s) {action : ManifestSystem.Action} {seqs : List Nat}
    (hs : s.manifestStep action seqs = some s') : MaintenanceInv crc s' := by
  obtain ⟨w, rfl, hw, hd, -⟩ := follows_manifestStep hs
  exact h.follow hw hd

theorem spawn (h : MaintenanceInv crc s) {i : Nat} {prog : MaintenanceProg n Unit}
    (hprog : Passes crc i prog (fun _ _ => True) s.world) (hs : s.spawn i prog = some s') :
    MaintenanceInv crc s' := by
  simp only [MaintenanceSystem.spawn] at hs
  split at hs
  · split_ifs at hs
    cases hs
    refine ⟨h.world, fun task htask => ?_, h.deletes⟩
    rcases List.mem_append.1 htask with htask | htask
    · exact h.tasks task htask
    · rw [List.mem_singleton.1 htask]
      exact hprog
  · cases hs

theorem follows_taskStep (h : MaintenanceInv crc s) {task i : Nat}
    {prog prog' : MaintenanceProg n Unit} {choice : Choice MaintenanceOutcome n}
    {w : MaintenanceWorld n} (htask : s.tasks[task]? = some (i, prog))
    (hs : (maintenanceMachine n crc i).step prog s.world choice = some (w, prog')) :
    Follows s.world w := by
  cases (wp_step (h.tasks _ (List.mem_of_getElem? htask)) hs).1 with
  | refl => exact .refl _
  | single hkeeps => exact hkeeps.toFollows

theorem taskStep (h : MaintenanceInv crc s) {task i : Nat} {prog prog' : MaintenanceProg n Unit}
    {choice : Choice MaintenanceOutcome n} {w : MaintenanceWorld n}
    (htask : s.tasks[task]? = some (i, prog))
    (hs : (maintenanceMachine n crc i).step prog s.world choice = some (w, prog')) :
    MaintenanceInv crc { world := w, tasks := s.tasks.set task (i, prog') } := by
  obtain ⟨hkeeps, hprog'⟩ := wp_step (h.tasks _ (List.mem_of_getElem? htask)) hs
  have hw := h.follows_taskStep htask hs
  have hdeletes : ∀ d ∈ w.deletes, Authorized w.manifest.store d := by
    intro d hd
    cases hkeeps with
    | refl => exact h.deletes d hd
    | single hkeeps =>
      rcases hkeeps.mem_deletes hd with hold | hnew
      · exact (h.deletes d hold).mono hw.grows
      · exact hnew.mono hw.grows
  refine ⟨hw.inv h.world, fun t ht => ?_, hdeletes⟩
  rcases List.mem_or_eq_of_mem_set ht with ht | rfl
  · exact wp_rely (h.tasks t ht) (.single hw)
  · exact hprog'

theorem follows_step (h : MaintenanceInv crc s) {action : MaintenanceSystem.Action n}
    (hs : s.step crc action = some s') : Follows s.world s'.world := by
  have hspawn : ∀ {i : Nat} {prog : MaintenanceProg n Unit}, s.spawn i prog = some s' →
      Follows s.world s'.world := by
    intro i prog hs
    simp only [MaintenanceSystem.spawn] at hs
    split at hs
    · split_ifs at hs
      cases hs
      exact .refl _
    · cases hs
  cases action with
  | manifest action seqs =>
    obtain ⟨w, rfl, hw, -⟩ := follows_manifestStep hs
    exact hw
  | objects objects =>
    cases hs
    exact .of_eq rfl rfl
  | truncate i sealedSegments checkpointFloor claim floor => exact hspawn hs
  | cleanup i sealedSegments => exact hspawn hs
  | sweep i rounds => exact hspawn hs
  | step task choice =>
    simp only [MaintenanceSystem.step] at hs
    split at hs
    · cases hs
    · obtain ⟨⟨w, prog'⟩, hstep, rfl⟩ := Option.map_eq_some_iff.1 hs
      exact h.follows_taskStep ‹_› hstep
  | retire task =>
    simp only [MaintenanceSystem.step] at hs
    split at hs
    · cases hs
      exact .refl _
    · cases hs

theorem step (h : MaintenanceInv crc s) {action : MaintenanceSystem.Action n}
    (hs : s.step crc action = some s') : MaintenanceInv crc s' := by
  have hunit : ∀ {α : Type} {i : Nat} {prog : MaintenanceProg n α},
      Passes crc i prog (fun _ w' => Follows s.world w') s.world →
      Passes crc i (prog.bind fun _ => .ret ()) (fun _ _ => True) s.world := fun hprog =>
    wp_seq hprog fun _ _ _ => passes_ret fun _ _ => trivial
  cases action with
  | manifest action seqs => exact h.manifestStep hs
  | objects objects =>
    cases hs
    exact h.follow (.of_eq rfl rfl) rfl
  | truncate i sealedSegments checkpointFloor claim floor =>
    exact h.spawn (hunit (passes_truncatePass h.world)) hs
  | cleanup i sealedSegments => exact h.spawn (hunit (passes_cleanupTombstonesPass h.world)) hs
  | sweep i rounds =>
    exact h.spawn (wp_mono (passes_claimAndSweep h.world) (fun _ _ => id) (fun _ _ => id)
      fun _ _ _ => trivial) hs
  | step task choice =>
    simp only [MaintenanceSystem.step] at hs
    split at hs
    · cases hs
    · obtain ⟨⟨w, prog'⟩, hstep, rfl⟩ := Option.map_eq_some_iff.1 hs
      exact h.taskStep ‹_› hstep
  | retire task =>
    simp only [MaintenanceSystem.step] at hs
    split at hs
    · cases hs
      exact ⟨h.world, fun t ht => h.tasks t (List.mem_of_mem_eraseIdx ht), h.deletes⟩
    · cases hs

theorem of_reaches {objects : SegmentId → Fin n → Slot}
    (hs : Reaches (MaintenanceSystem.step crc) (fun _ _ => True) (.init objects) s) :
    MaintenanceInv crc s :=
  hs.invariant (init objects) fun _ _ _ h _ hstep => h.step hstep

end MaintenanceInv

/-- In every interleaving of truncation and cleanup passes of current and deposed processes with
each other and with any other use of the register: a segment that a pass has issued a delete for is
neither the tail nor the pending segment of the current document, every directory entry of it ends
below the current floor, and so does the end that was committed when it was folded; and a removal of
entries leaves every entry that reaches the floor as it is, with its derived end, and lets no other
entry reach it. -/
theorem truncation_keeps_retained {objects : SegmentId → Fin n → Slot} {s : MaintenanceSystem n}
    (hs : Reaches (MaintenanceSystem.step crc) (fun _ _ => True) (.init objects) s) :
    (∀ id, (PassLabel.truncation, id) ∈ s.world.deletes →
      ∀ r, s.world.manifest.store.current = some r →
        id ∉ r.frontierIds ∧ (∀ range ∈ r.ranges, range.1.id = id → range.2 < r.trunc) ∧
        ∀ v r' a fold, History.Entry s.world.manifest.store.history v r' (some a) →
          a.call = .foldPending fold → fold.oldTailId = id → fold.oldTailEnd < r.trunc) ∧
    ∀ v r r' a b ids floor, History.Entry s.world.manifest.store.history v r b →
      History.Entry s.world.manifest.store.history (v + 1) r' (some a) →
      a.call = .removeSegments ids floor → r'.trunc = r.trunc ∧ r'.liveRanges = r.liveRanges := by
  have hinv := MaintenanceInv.of_reaches hs
  have hfresh := hinv.world.fresh
  refine ⟨fun id hid r hcur => ?_, fun v r r' a b ids floor he he' hcall => ?_⟩
  · obtain ⟨v, r₀, ⟨a, he⟩, hend⟩ := hinv.deletes _ hid
    obtain ⟨b, he'⟩ := Store.at_of_current hcur
    have hle : v ≤ s.world.manifest.store.version := he.le_length
    refine ⟨hfresh.not_frontier_of_endsBelowFloor he hend he' hle,
      hfresh.range_lt_of_endsBelowFloor he hend he' hle, fun u r' a' fold hf hcall hfold => ?_⟩
    have hlt := hfresh.fold_lt_of_endsBelowFloor he hend hf hcall hfold
    exact hlt.trans_le (hfresh.derived.mono he he' hle).2.1
  · obtain ⟨u, r₀, a₀, hu, he₀, hm⟩ := hfresh.derived.exists_mutation he'
    obtain rfl : v = u := by omega
    obtain ⟨rfl, -⟩ := he.unique he₀
    cases hm with
    | removeSegments _ hv => exact ⟨rfl, (hfresh.sound _ _ _ he).liveRanges_removeSegments hv⟩
    | claim hc => simp [hc] at hcall
    | registerPending hc => simp [hc] at hcall
    | replaceEmptyFrontier hc => simp [hc] at hcall
    | foldPending hc => simp [hc] at hcall
    | raiseTrunc hc => simp [hc] at hcall

/-- A manifest call of another process that is answered after the given number of requests. -/
def answeredCall (i : Nat) (call : ManifestCall) (seqs : List Nat) (requests : Nat) :
    List (MaintenanceSystem.Action 1) :=
  .manifest (.call i call) seqs :: List.replicate requests
    (.manifest (.step i (.op .answered)) []) ++ [.manifest (.finish i) []]

def claimedActions : List (MaintenanceSystem.Action 1) :=
  [.manifest (.openHandle "writer" 1 ["bucket"] 6144 0) [], .manifest (.step 0 (.op .answered)) [],
    .manifest (.step 0 (.op .answered)) [], .manifest (.finish 0) []] ++ answeredCall 0 .claim [] 1

/-- It folds its first segment of three records and truncates at the new tail. -/
def truncatingActions : List (MaintenanceSystem.Action 1) :=
  claimedActions ++ answeredCall 0 (.registerPending (segmentId 1 1)) [1] 1 ++
  answeredCall 0 (.foldPending ⟨segmentId 1 0, 0, 2, "digest", 7, segmentId 1 1, segmentId 1 1,
    segmentId 1 2⟩) [2] 1 ++
  [.truncate 0 [] 0 ⟨1, "writer"⟩ 3, .step 0 (.op .proceed), .manifest (.step 0 (.op .answered)) [],
    .manifest (.step 0 (.op .answered)) [], .step 0 (.op .proceed),
    .step 0 (.task 0 (.op (.replica .answered))), .step 0 .gather,
    .step 0 (.op (.replica .answered))]

def oneCopy : SegmentId → Fin 1 → Slot :=
  fun _ _ => Slot.empty.install [] protocolMetadata

/-- The pass deletes the first segment, whose last record lies below the floor. -/
theorem truncation_keeps_retained_first : ∃ s r,
    Reaches (MaintenanceSystem.step crc32c) (fun _ _ => True) (.init oneCopy) s ∧
      (PassLabel.truncation, segmentId 1 0) ∈ s.world.deletes ∧
      s.world.manifest.store.current = some r ∧ r.trunc = 3 ∧ segmentId 1 0 ∉ r.frontierIds := by
  have hrun : (runChecked (MaintenanceSystem.step crc32c) (fun _ _ => true) (.init oneCopy)
      truncatingActions).any (fun s =>
        decide ((PassLabel.truncation, segmentId 1 0) ∈ s.world.deletes) &&
        s.world.manifest.store.current.any fun r => decide (r.trunc = 3)) = true := by
    decide +kernel
  obtain ⟨s, hreach, hfacts⟩ := exists_reaches (fun _ _ _ => trivial) hrun
  simp only [Bool.and_eq_true, decide_eq_true_eq, Option.any_eq_true] at hfacts
  obtain ⟨hdelete, r, hcur, htrunc⟩ := hfacts
  exact ⟨s, r, hreach, hdelete, hcur, htrunc,
    ((truncation_keeps_retained hreach).1 _ hdelete r hcur).1⟩

/-- In every interleaving of the sweeps of current and deposed processes with any other use of the
register: a segment that the sweep of the claim with epoch `e` has issued a delete for is not named
by the current document, and its id is none that an incarnation with an epoch from `e` on mints. -/
theorem sweep_spares_live {objects : SegmentId → Fin n → Slot} {s : MaintenanceSystem n}
    (hs : Reaches (MaintenanceSystem.step crc) (fun _ _ => True) (.init objects) s) :
    ∀ e id, (PassLabel.sweep e, id) ∈ s.world.deletes →
      (∀ r, s.world.manifest.store.current = some r →
        r.tailId ≠ some id ∧ r.pendingId ≠ some id ∧ id ∉ r.directoryIds) ∧
      ∀ epoch seq, e ≤ epoch → epoch < u64Limit → id ≠ segmentId epoch seq := by
  intro e id hid
  have hinv := MaintenanceInv.of_reaches hs
  obtain ⟨v, r₀, ⟨a, he⟩, rfl, hout, epoch, hepoch, hlt⟩ := hinv.deletes _ hid
  have hold : ∀ epoch' seq, r₀.epoch ≤ epoch' → epoch' < u64Limit → id ≠ segmentId epoch' seq := by
    rintro epoch' seq hle hlimit rfl
    rw [idEpoch_segmentId seq hlimit] at hepoch
    cases hepoch
    omega
  refine ⟨fun r hcur => ?_, hold⟩
  obtain ⟨b, he'⟩ := Store.at_of_current hcur
  have hstill := hinv.world.fresh.minted_stays_out hinv.world.authors.written he hout hold he'
    he.le_length
  simpa only [mem_ids, not_or] using hstill

/-- A second process claims and finds an object that the first one never registered. -/
def sweepingActions : List (MaintenanceSystem.Action 1) :=
  claimedActions ++
  [.manifest (.openHandle "second" 1 ["bucket"] 6144 0) [], .manifest (.step 1 (.op .answered)) [],
    .manifest (.finish 1) [], .sweep 1 1, .step 0 (.op .proceed),
    .manifest (.step 1 (.op .answered)) [], .step 0 (.op .proceed),
    .step 0 (.task 0 (.op (.listed (.ok [⟨segmentId 1 7, protocolMetadata⟩])))), .step 0 .gather,
    .step 0 (.op (.replica .answered)), .step 0 (.op (.replica .answered))]

/-- The sweep deletes that object, which the document of the second process does not name, and it is
none that an incarnation from epoch two on mints. -/
theorem sweep_spares_live_orphan : ∃ s r,
    Reaches (MaintenanceSystem.step crc32c) (fun _ _ => True) (.init oneCopy) s ∧
      (PassLabel.sweep 2, segmentId 1 7) ∈ s.world.deletes ∧
      s.world.manifest.store.current = some r ∧ r.tailId = some (segmentId 1 0) ∧
      (r.tailId ≠ some (segmentId 1 7) ∧ r.pendingId ≠ some (segmentId 1 7) ∧
        segmentId 1 7 ∉ r.directoryIds) ∧
      ∀ seq, segmentId 1 7 ≠ segmentId 2 seq := by
  have hrun : (runChecked (MaintenanceSystem.step crc32c) (fun _ _ => true) (.init oneCopy)
      sweepingActions).any (fun s =>
        decide ((PassLabel.sweep 2, segmentId 1 7) ∈ s.world.deletes) &&
        s.world.manifest.store.current.any fun r => decide (r.tailId = some (segmentId 1 0))) =
          true := by
    decide +kernel
  obtain ⟨s, hreach, hfacts⟩ := exists_reaches (fun _ _ _ => trivial) hrun
  simp only [Bool.and_eq_true, decide_eq_true_eq, Option.any_eq_true] at hfacts
  obtain ⟨hdelete, r, hcur, htail⟩ := hfacts
  obtain ⟨hspared, hminted⟩ := sweep_spares_live hreach 2 _ hdelete
  exact ⟨s, r, hreach, hdelete, hcur, htail, hspared r hcur,
    fun seq => hminted 2 seq le_rfl (by decide)⟩

end Chorus
