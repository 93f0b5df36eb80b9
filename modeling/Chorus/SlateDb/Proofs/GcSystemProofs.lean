import Chorus.SlateDb.Proofs.GcProofs

/-!
# Collections among all other processes

As long as every `raise_trunc` settles at the floor it was asked for, a collection deletes no
segment that holds a referenced or an uncommitted record (`collect_keeps_referenced`). A floor that
was committed behind a lost answer breaks this (`collect_deletes_referenced`).
-/

namespace Chorus.SlateDb

open Concurrency Relation ManifestRecord

variable {n : Nat} {crc : Bytes → Nat} {i : Nat} {s s' : GcSystem n}

/-- Neither a referenced nor an uncommitted record has the index. -/
def CollectCall.Unneeded (call : CollectCall) (k : Nat) : Prop :=
  k < call.committedEnd ∧ ∀ range ∈ call.ranges, ∀ id : UInt64, id.toNat = k + 1 →
    range.contains id = false

/-- Each `raise_trunc` of a collection returns with a floor that is not above the one it asked
for. -/
def GcOk (s : GcSystem n) : GcSystem.Action n → Prop
  | .pass _ => ∀ c, s.collection = some c → settled c.handle c.call.floor s.maintenance.world = true
  | _ => True

/-- What is known of the running truncation. -/
structure RunningInv (crc : Bytes → Nat) (calls : List CollectCall) (m : MaintenanceSystem n)
    (c : Collection n) : Prop where
  begun : c.call ∈ calls
  free : ∀ task ∈ m.tasks, task.1 ≠ c.handle
  pass : wp (settlingMachine n crc c.handle c.call.floor) c.pass (Undisturbed c.handle)
    (KeepsTo (Reclaims c.call.floor)) (fun _ _ => True) m.world

structure GcInv (crc : Bytes → Nat) (s : GcSystem n) : Prop where
  maintenance : MaintenanceInv crc s.maintenance
  running : ∀ c, s.collection = some c → RunningInv crc s.calls s.maintenance c
  recovered : s.recoveredEnd ≤ s.durable
  committed : ∀ position, s.progress.committed = some position → position.walId ≤ s.durable
  requests : ∀ request ∈ s.requests, request.floor = retainFrom request.ranges
  calls : ∀ call ∈ s.calls, call.floor = min (retainFrom call.ranges) call.committedEnd ∧
    call.committedEnd ≤ call.durable
  deleted : ∀ p ∈ s.deleted, p.1 ∈ s.calls ∧
    Reclaims p.1.floor s.maintenance.world.manifest.store (.truncation, p.2)

theorem Reclaims.mono {floor : Nat} {store store' : Store Author} {d : PassLabel × SegmentId}
    (h : Reclaims floor store d) (hg : store.Grows store') : Reclaims floor store' d := by
  obtain ⟨hlabel, v, r, hat, hend, htrunc⟩ := h
  exact ⟨hlabel, v, r, hat.mono hg, hend, htrunc⟩

/-! ## Steps of the other processes -/

/-- What the others do leaves the handle of the truncation to it: no other task takes the handle,
and the call that runs on it stays the same. -/
theorem free_otherStep {m m' : MaintenanceSystem n} {action : MaintenanceSystem.Action n}
    (hs : m.step crc action = some m') (htouch : touches i action = false)
    (hfree : ∀ task ∈ m.tasks, task.1 ≠ i) : (∀ task ∈ m'.tasks, task.1 ≠ i) ∧
      ∀ running p, m.world.manifest.handles[i]? = some (.busy running p) →
        ∃ p', m'.world.manifest.handles[i]? = some (.busy running p') := by
  have hspawn : ∀ {j : Nat} {prog : MaintenanceProg n Unit}, decide (j = i) = false →
      m.spawn j prog = some m' → (∀ task ∈ m'.tasks, task.1 ≠ i) ∧ m'.world = m.world := by
    intro j prog hj hspawn
    simp only [MaintenanceSystem.spawn] at hspawn
    split at hspawn
    · split_ifs at hspawn
      cases hspawn
      refine ⟨fun task htask => ?_, rfl⟩
      rcases List.mem_append.1 htask with htask | htask
      · exact hfree task htask
      · rw [List.mem_singleton.1 htask]
        exact of_decide_eq_false hj
    · cases hspawn
  have hkept : m'.world = m.world → ∀ running p,
      m.world.manifest.handles[i]? = some (.busy running p) →
      ∃ p', m'.world.manifest.handles[i]? = some (.busy running p') :=
    fun hworld _ p hp => ⟨p, hworld ▸ hp⟩
  cases action with
  | manifest action seqs =>
    obtain ⟨w, rfl, -, -, hstep⟩ := follows_manifestStep hs
    refine ⟨hfree, fun running p hp => busy_step hstep ?_ hp⟩
    rintro rfl
    exact absurd rfl (of_decide_eq_false htouch)
  | objects objects =>
    cases hs
    exact ⟨hfree, fun _ p hp => ⟨p, hp⟩⟩
  | truncate j sealedSegments checkpointFloor claim floor =>
    exact (hspawn htouch hs).imp_right hkept
  | cleanup j sealedSegments => exact (hspawn htouch hs).imp_right hkept
  | sweep j rounds => exact (hspawn htouch hs).imp_right hkept
  | step task choice =>
    simp only [MaintenanceSystem.step] at hs
    split at hs
    · cases hs
    · rename_i j prog htask
      obtain ⟨⟨w, prog'⟩, hstep, rfl⟩ := Option.map_eq_some_iff.1 hs
      have hj : j ≠ i := hfree _ (List.mem_of_getElem? htask)
      refine ⟨fun task' htask' => ?_, fun _ _ => busy_taskStep hj hstep⟩
      rcases List.mem_or_eq_of_mem_set htask' with htask' | rfl
      · exact hfree task' htask'
      · exact hj
  | retire task =>
    simp only [MaintenanceSystem.step] at hs
    split at hs
    · cases hs
      exact ⟨fun task' htask' => hfree task' (List.mem_of_mem_eraseIdx htask'), hkept rfl⟩
    · cases hs

namespace GcInv

theorem init (objects : SegmentId → Fin n → Slot) : GcInv crc (.init objects) where
  maintenance := MaintenanceInv.init objects
  running := nofun
  recovered := Nat.le_refl _
  committed := nofun
  requests := nofun
  calls := nofun
  deleted := nofun

theorem other (h : GcInv crc s) {action : MaintenanceSystem.Action n}
    (hs : s.step crc (.other action) = some s') : GcInv crc s' := by
  simp only [GcSystem.step] at hs
  split_ifs at hs with htouch
  obtain ⟨m, hm, rfl⟩ := Option.map_eq_some_iff.1 hs
  have hw := h.maintenance.follows_step hm
  refine { h with
    maintenance := h.maintenance.step hm
    running := fun c hc => ?_
    deleted := fun p hp => ⟨(h.deleted p hp).1, (h.deleted p hp).2.mono hw.grows⟩ }
  obtain ⟨hbegun, hfree, hpass⟩ := h.running c hc
  have htouch' : touches c.handle action = false := by
    rw [Option.any_eq_true] at htouch
    by_contra hnot
    exact htouch ⟨c, hc, Bool.eq_true_of_not_eq_false hnot⟩
  obtain ⟨hfree', hbusy⟩ := free_otherStep hm htouch' hfree
  exact ⟨hbegun, hfree', wp_rely hpass (.single ⟨hw, hbusy⟩)⟩

/-- The progress never runs ahead of what was reported durable. -/
theorem complete (h : GcInv crc s) (position : Position) (result : Except Chorus.WalError Nat)
    (hs : s.step crc (.complete position result) = some s') : GcInv crc s' := by
  cases hs
  have hfail : ∀ error, (s.progress.fail error).committed = s.progress.committed := by
    intro error
    unfold Progress.fail
    split_ifs <;> rfl
  cases result with
  | error error =>
    refine { h with committed := fun p hp => h.committed p ?_ }
    simp only [Progress.completion] at hp
    split_ifs at hp
    · exact hp
    · rwa [hfail] at hp
  | ok nextSeqno =>
    have hmono : s.durable ≤ max s.durable nextSeqno := Nat.le_max_left _ _
    refine { h with recovered := h.recovered.trans hmono, committed := fun p hp => ?_ }
    simp only [Progress.completion] at hp
    split_ifs at hp with hfailed hposition
    · exact (h.committed p hp).trans hmono
    · cases hp
      exact hposition.symm.le.trans (Nat.le_max_right _ _)
    · rw [hfail] at hp
      exact (h.committed p hp).trans hmono

theorem committedEnd_le (h : GcInv crc s) : s.progress.committedEnd s.recoveredEnd ≤ s.durable := by
  unfold Progress.committedEnd
  cases hcommitted : s.progress.committed with
  | none => exact h.recovered
  | some position => exact max_le (h.committed position hcommitted) h.recovered

theorem beginCollection (h : GcInv crc s) {sealedSegments : List SegmentDescriptor}
    (hs : s.beginCollection i sealedSegments = some s') : GcInv crc s' := by
  simp only [GcSystem.beginCollection] at hs
  split at hs
  · rename_i claim request requests hclaim hrequests hcollection
    split_ifs at hs with hfree
    cases hs
    refine { h with
      running := fun c hc => ?_
      requests := fun r hr => h.requests r (hrequests ▸ List.mem_cons_of_mem _ hr)
      calls := fun call hcall => ?_
      deleted := fun p hp => ⟨List.mem_cons_of_mem _ (h.deleted p hp).1, (h.deleted p hp).2⟩ }
    · cases hc
      refine ⟨List.mem_cons_self, fun task htask heq => ?_,
        settles_truncatePass h.maintenance.world⟩
      have howned := hfree.2
      rw [MaintenanceSystem.owned, List.any_eq_false] at howned
      exact howned task htask (beq_iff_eq.2 heq)
    · rcases List.mem_cons.1 hcall with rfl | hcall
      · have hrequest := h.requests request (hrequests ▸ List.mem_cons_self)
        refine ⟨?_, h.committedEnd_le⟩
        simp only [GcSystem.clamp, Progress.clampFloor]
        rw [hrequest]
      · exact h.calls call hcall
  · cases hs

theorem issued_eq {w w' : MaintenanceWorld n} {l : List (PassLabel × SegmentId)}
    (h : w'.deletes = l ++ w.deletes) : GcSystem.issued w w' = l.map Prod.snd := by
  rw [GcSystem.issued, h, List.length_append, Nat.add_sub_cancel, List.take_left]

/-- One step of the truncation deletes only what its own floor covers. -/
theorem passStep (h : GcInv crc s) {choice : Choice MaintenanceOutcome n}
    (hok : GcOk s (.pass choice)) (hs : s.passStep crc choice = some s') : GcInv crc s' := by
  obtain ⟨c, hc, hs⟩ := Option.bind_eq_some_iff.1 hs
  obtain ⟨⟨w, pass⟩, hstep, rfl⟩ := Option.map_eq_some_iff.1 hs
  obtain ⟨hbegun, hfree, hpass⟩ := h.running c hc
  have hrestricted :
      (settlingMachine n crc c.handle c.call.floor).step c.pass s.maintenance.world choice =
      some (w, pass) := Machine.restrict_step (fun _ _ => hok c hc) hstep
  obtain ⟨hkeeps, hpass'⟩ := wp_step hpass hrestricted
  have hissued : ∃ l, w.deletes = l ++ s.maintenance.world.deletes ∧
      ∀ d ∈ l, Reclaims c.call.floor s.maintenance.world.manifest.store d := by
    cases hkeeps with
    | refl => exact ⟨[], rfl, nofun⟩
    | single hkeeps => exact hkeeps.deletes
  have hw : Follows s.maintenance.world w := by
    cases hkeeps with
    | refl => exact .refl _
    | single hkeeps => exact hkeeps.toFollows
  obtain ⟨l, hl, hreclaims⟩ := hissued
  refine { h with
    maintenance := ⟨hw.inv h.maintenance.world, fun task htask => ?_, fun d hd => ?_⟩
    running := fun c' hc' => ?_
    deleted := fun p hp => ?_ }
  · exact wp_rely (h.maintenance.tasks task htask) (.single hw)
  · rw [hl] at hd
    rcases List.mem_append.1 hd with hd | hd
    · exact (hreclaims d hd).authorized.mono hw.grows
    · exact (h.maintenance.deletes d hd).mono hw.grows
  · cases hc'
    exact ⟨hbegun, hfree, hpass'⟩
  · rw [issued_eq hl, List.map_map] at hp
    rcases List.mem_append.1 hp with hp | hp
    · obtain ⟨d, hd, rfl⟩ := List.mem_map.1 hp
      have hreclaimed := hreclaims d hd
      refine ⟨hbegun, ?_⟩
      rw [← hreclaimed.1]
      exact hreclaimed.mono hw.grows
    · exact ⟨(h.deleted p hp).1, (h.deleted p hp).2.mono hw.grows⟩

theorem step (h : GcInv crc s) {action : GcSystem.Action n} (hok : GcOk s action)
    (hs : s.step crc action = some s') : GcInv crc s' := by
  cases action with
  | other action => exact h.other hs
  | start i recoveredEnd =>
    simp only [GcSystem.step] at hs
    split at hs
    · split_ifs at hs
      cases hs
      exact { h with recovered := Nat.le_refl _, committed := nofun }
    · cases hs
  | complete position result => exact h.complete position result hs
  | fail error =>
    cases hs
    refine { h with committed := fun p hp => h.committed p ?_ }
    simp only [Progress.fail] at hp
    split_ifs at hp <;> exact hp
  | collect ranges dryRun closed =>
    simp only [GcSystem.step] at hs
    split_ifs at hs
    · cases hs
      exact h
    · cases hs
      refine { h with requests := fun r hr => ?_ }
      rcases List.mem_append.1 hr with hr | hr
      · exact h.requests r hr
      · rw [List.mem_singleton.1 hr]
  | beginCollection i sealedSegments => exact h.beginCollection hs
  | pass choice => exact h.passStep hok hs
  | collected =>
    simp only [GcSystem.step, GcSystem.collected] at hs
    split at hs
    · obtain ⟨record, -, rfl⟩ := Option.map_eq_some_iff.1 hs
      exact { h with running := nofun }
    · cases hs
  | observeFloor i =>
    simp only [GcSystem.step] at hs
    obtain ⟨record, -, rfl⟩ := Option.map_eq_some_iff.1 hs
    exact { h with }

theorem of_reaches {objects : SegmentId → Fin n → Slot}
    (hs : Reaches (GcSystem.step crc) GcOk (.init objects) s) : GcInv crc s :=
  hs.invariant (init objects) fun _ _ _ h hok hstep => h.step hok hstep

end GcInv

/-- A record below the floor of a collection is neither referenced nor uncommitted. -/
theorem unneeded_of_lt_floor {call : CollectCall}
    (hfloor : call.floor = min (retainFrom call.ranges) call.committedEnd) {k : Nat}
    (hk : k < call.floor) : call.Unneeded k := by
  obtain ⟨hspares, hcommitted, -⟩ := collectFloor_spec call.ranges call.committedEnd
  rw [← hfloor] at hspares hcommitted
  refine ⟨hk.trans_le hcommitted, fun range hrange id hid => ?_⟩
  by_contra hnot
  have hle := hspares range hrange id (by omega) (Bool.eq_true_of_not_eq_false hnot)
  omega

/-- In every run in which the truncations settle, among any other processes, commits and
collections: the floor of a collection lies below every referenced record and within the committed
ones, and no larger floor does; and a segment for which a collection has issued a delete holds no
referenced and no uncommitted record, neither by the document that the truncation went by nor by the
fold that ended the segment. -/
theorem collect_keeps_referenced {objects : SegmentId → Fin n → Slot}
    (hs : Reaches (GcSystem.step crc) GcOk (.init objects) s) :
    (∀ call ∈ s.calls,
      (∀ range ∈ call.ranges, ∀ id : UInt64, 1 ≤ id.toNat → range.contains id →
        call.floor ≤ id.toNat - 1) ∧
      call.floor ≤ call.committedEnd ∧ call.committedEnd ≤ call.durable ∧
      ((∀ range ∈ call.ranges, range.contains 0 = false) → ∀ x, x < u64Limit →
        x ≤ call.committedEnd →
        (∀ range ∈ call.ranges, ∀ id : UInt64, 1 ≤ id.toNat → range.contains id →
          x ≤ id.toNat - 1) →
        x ≤ call.floor) ∧
      ((∃ range ∈ call.ranges, range.contains 0) → call.floor = 0)) ∧
    ∀ call id, (call, id) ∈ s.deleted → call ∈ s.calls ∧
      (∃ v r range, s.maintenance.world.manifest.store.At v r ∧ range ∈ r.ranges ∧ range.1.id = id ∧
        ∀ k, k ≤ range.2 → call.Unneeded k) ∧
      ∀ v r a fold, History.Entry s.maintenance.world.manifest.store.history v r (some a) →
        a.call = .foldPending fold → fold.oldTailId = id → ∀ k, k ≤ fold.oldTailEnd →
          call.Unneeded k := by
  have hinv := GcInv.of_reaches hs
  refine ⟨fun call hcall => ?_, fun call id hdeleted => ?_⟩
  · obtain ⟨hfloor, hdurable⟩ := hinv.calls call hcall
    obtain ⟨hspares, hcommitted, hlargest, hzero⟩ := collectFloor_spec call.ranges call.committedEnd
    rw [← hfloor] at hspares hcommitted hlargest hzero
    exact ⟨hspares, hcommitted, hdurable, hlargest, hzero⟩
  · obtain ⟨hcall, -, v, r, ⟨author, he⟩, hend, htrunc⟩ := hinv.deleted _ hdeleted
    have hfloor := (hinv.calls call hcall).1
    refine ⟨hcall, ?_, fun u r' a fold hf hfold hid k hk => ?_⟩
    · obtain ⟨range, hrange, hid, hlt⟩ := hend
      refine ⟨v, r, range, ⟨author, he⟩, hrange, hid, fun k hk => unneeded_of_lt_floor hfloor ?_⟩
      exact (hk.trans_lt hlt).trans_le htrunc
    · have hlt := hinv.maintenance.world.fresh.fold_lt_of_endsBelowFloor he hend hf hfold hid
      exact unneeded_of_lt_floor hfloor ((hk.trans_lt hlt).trans_le htrunc)

/-! ## Runs -/

section Runs

def threeCommits : List (GcSystem.Action 1) :=
  [.complete ⟨1, 1, 1⟩ (.ok 1), .complete ⟨2, 2, 2⟩ (.ok 2), .complete ⟨3, 3, 3⟩ (.ok 3)]

/-- A maintenance handle is opened and reads the register. -/
def openedHandle (i : Nat) : List (GcSystem.Action 1) :=
  [.other (.manifest (.openHandle "maintenance" 1 ["bucket"] 6144 0) []),
    .other (.manifest (.step i (.op .answered)) []), .other (.manifest (.finish i) [])]

/-- A writer claims the register, commits three records and folds the segment that holds them. -/
def foldedActions : List (GcSystem.Action 1) :=
  claimedActions.map .other ++ [.start 0 0] ++ threeCommits ++
  (answeredCall 0 (.registerPending (segmentId 1 1)) [1] 1 ++
    answeredCall 0 (.foldPending ⟨segmentId 1 0, 0, 2, "digest", 7, segmentId 1 1, segmentId 1 1,
      segmentId 1 2⟩) [2] 1).map .other ++ openedHandle 1

/-- The truncation finds one entry below the floor and deletes its copy. -/
def deletedCopy : List (GcSystem.Action 1) :=
  [.pass (.task 0 (.op (.replica .answered))), .pass .gather, .pass (.op (.replica .answered))]

/-- A collection that keeps the ids from 4 on. -/
def settledActions : List (GcSystem.Action 1) :=
  foldedActions ++ [.collect [⟨.included 4, .unbounded⟩] false false, .beginCollection 1 [],
    .pass (.op .proceed), .other (.manifest (.step 1 (.op .answered)) []),
    .other (.manifest (.step 1 (.op .answered)) []), .pass (.op .proceed)] ++ deletedCopy

def gcCheck (s : GcSystem 1) : GcSystem.Action 1 → Bool
  | .pass _ => s.collection.all fun c => settled c.handle c.call.floor s.maintenance.world
  | _ => true

theorem gcCheck_ok (s : GcSystem 1) (action : GcSystem.Action 1) (h : gcCheck s action = true) :
    GcOk s action := by
  cases action with
  | pass choice =>
    intro c hc
    simp only [gcCheck, hc, Option.all_some] at h
    exact h
  | _ => trivial

/-- The collection deletes the segment of the first three records, which the ids from 4 on do not
need. -/
theorem collect_keeps_referenced_folded : ∃ s : GcSystem 1, ∃ call,
    Reaches (GcSystem.step crc32c) GcOk (.init oneCopy) s ∧ (call, segmentId 1 0) ∈ s.deleted ∧
      call.ranges = [⟨.included 4, .unbounded⟩] ∧ call ∈ s.calls ∧ call.floor ≤ 3 := by
  have hrun :
      (runChecked (GcSystem.step crc32c) gcCheck (.init oneCopy) settledActions).any (fun s =>
      decide ((⟨[⟨.included 4, .unbounded⟩], 3, 3, 3⟩, segmentId 1 0) ∈ s.deleted)) = true := by
    decide +kernel
  obtain ⟨s, hreach, hdeleted⟩ := exists_reaches gcCheck_ok hrun
  have hdeleted := of_decide_eq_true hdeleted
  obtain ⟨hfloors, hdeletes⟩ := collect_keeps_referenced hreach
  obtain ⟨hcall, -⟩ := hdeletes _ _ hdeleted
  exact ⟨s, _, hreach, hdeleted, rfl, hcall, (hfloors _ hcall).2.1⟩

/-- A collection that keeps the ids from 4 on commits its floor, but the answer is lost and the
register cannot be read again. The next one keeps the ids from 2 on. -/
def lostActions : List (GcSystem.Action 1) :=
  foldedActions ++ [.collect [⟨.included 4, .unbounded⟩] false false, .beginCollection 1 [],
    .pass (.op .proceed), .other (.manifest (.step 1 (.op .answered)) []),
    .other (.manifest (.step 1 (.op (.unavailable .applied))) []),
    .other (.manifest (.step 1 (.op (.unavailable .dropped))) []), .pass (.op .proceed),
    .collected] ++
  openedHandle 2 ++ [.collect [⟨.included 2, .unbounded⟩] false false, .beginCollection 2 [],
    .pass (.op .proceed), .other (.manifest (.step 2 (.op .answered)) []), .pass (.op .proceed)] ++
  deletedCopy

/-- The second collection deletes the segment that holds the records with the ids 1 to 3, although
its ranges refer to the ids 2 and 3. -/
theorem collect_deletes_referenced : ∃ s : GcSystem 1, ∃ call r range,
    Reaches (GcSystem.step crc32c) (fun _ _ => True) (.init oneCopy) s ∧
      (call, segmentId 1 0) ∈ s.deleted ∧ call.ranges = [⟨.included 2, .unbounded⟩] ∧
      call.floor = 1 ∧ s.maintenance.world.manifest.store.current = some r ∧ range ∈ r.ranges ∧
      range.1.id = segmentId 1 0 ∧ range.1.base ≤ 2 ∧ 2 ≤ range.2 ∧ ¬ call.Unneeded 2 := by
  have hrun : (runChecked (GcSystem.step crc32c) (fun _ _ => true) (.init oneCopy) lostActions).any
      (fun s => decide ((⟨[⟨.included 2, .unbounded⟩], 3, 3, 1⟩, segmentId 1 0) ∈ s.deleted) &&
        s.maintenance.world.manifest.store.current.any fun r =>
          r.ranges.any fun range => decide (range.1.id = segmentId 1 0 ∧ range.1.base ≤ 2 ∧
            2 ≤ range.2)) =
      true := by decide +kernel
  obtain ⟨s, hreach, hfacts⟩ := exists_reaches (fun _ _ _ => trivial) hrun
  rw [Bool.and_eq_true, Option.any_eq_true] at hfacts
  obtain ⟨hdeleted, r, hcurrent, hranges⟩ := hfacts
  obtain ⟨range, hrange, hfacts⟩ := List.any_eq_true.1 hranges
  obtain ⟨hid, hbase, hend⟩ := of_decide_eq_true hfacts
  refine ⟨s, _, r, range, hreach, of_decide_eq_true hdeleted, rfl, rfl, hcurrent,
    hrange, hid, hbase, hend, fun hunneeded => ?_⟩
  have hnot := hunneeded.2 _ List.mem_cons_self 3 rfl
  revert hnot
  decide

end Runs

end Chorus.SlateDb
