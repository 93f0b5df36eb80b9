import Chorus.Engine.Proofs.LedgerProofs

/-!
# What a step of the loop does

`Turn` says once what a step of the loop does to the state that the books, the gauge of the active
segment, the tally and the frontier of the writer are read from. Each of these accounts follows from
it by one case analysis, without another look at the loop.
-/

namespace Chorus

variable {n : Nat} {crc : Bytes → Nat} {config : WalEngineConfig} {e e' f : Engine n}
  {action : Engine.Action n}

/-- A writer that gets no record. -/
inductive SegmentWriter.Touched (writer : SegmentWriter n) : SegmentWriter n → Prop where
  | refl : Touched writer writer
  | dropLane (zone : Fin n) : Touched writer (writer.dropLane zone)
  | poison : Touched writer writer.poison
  | sealed : Touched writer { writer with sealed := true }

theorem SegmentWriter.Touched.advances {writer writer' : SegmentWriter n}
    (h : writer.Touched writer') (crc : Bytes → Nat) : writer.Advances crc writer' := by
  cases h with
  | refl => exact .refl crc writer
  | dropLane zone => exact .dropLane crc writer zone
  | poison => exact .poison crc writer
  | sealed => exact ⟨id, Nat.le_refl _, rfl, rfl⟩

/-- The window in hand has joined the stream of the active segment. -/
def Phase.sent : Phase n → Bool
  | .send .. => true
  | _ => false

/-- The loop is handing a window to the lanes. -/
def Phase.windowed : Phase n → Bool
  | .reserve .. | .send .. => true
  | _ => false

/-- The loop runs and holds no window. -/
def Phase.free : Phase n → Bool
  | .reserve .. | .send .. | .stopped => false
  | _ => true

def Phase.plain : Phase n → Bool
  | .completing .. | .swap => false
  | phase => phase.free

theorem Phase.inHand_of_free {phase : Phase n} (h : phase.free = true) :
    phase.inHand = [] ∧ phase.sent = false := by
  cases phase <;> first | exact ⟨rfl, rfl⟩ | cases h

theorem Phase.windowed_of_free {phase : Phase n} (h : phase.free = true) :
    phase.windowed = false := by
  cases phase <;> first | rfl | cases h

theorem Phase.ne_stopped {phase : Phase n} (h : phase.free = true) : phase ≠ .stopped := by
  rintro rfl
  cases h

theorem Phase.ne_stopped_of_windowed {phase : Phase n} (h : phase.windowed = true) :
    phase ≠ .stopped := by
  rintro rfl
  cases h

theorem CommitFailure.mayHaveCommitted (failure : CommitFailure) :
    (WalError.protocol failure.protocolError).mayHaveCommitted = true := by
  cases failure <;> rfl

theorem Rotation.swap?_markDue (rotation : Rotation) (due : Bool) :
    (rotation.markDue due).swap? = rotation.swap? := by
  cases rotation <;> cases due <;> rfl

theorem Rotation.swap?_releaseFoldCapacityBlock (rotation : Rotation) :
    rotation.releaseFoldCapacityBlock.swap? = rotation.swap? := by
  cases rotation <;> rfl

theorem Rotation.swap?_retryElapsed (rotation : Rotation) :
    rotation.retryElapsed.swap? = rotation.swap? := by
  cases rotation <;> rfl

theorem Rotation.eq_due {rotation : Rotation} (h : rotation.swapReady = true) :
    rotation = .due := by
  cases rotation <;> first | rfl | cases h

namespace Engine

/-- The actions of the loop. -/
def loop : Action n → Bool
  | .enqueueAppend .. | .sendAppend | .cancelAppend | .shutdown | .dropHandle | .abort
  | .segment .. => false
  | _ => true

/-- The steps that move the frontier. -/
def turning : Action n → Bool
  | .provision .. | .swap | .wake (.provisioned _) _ => true
  | _ => false

/-- The actions that open a window or hand it out. -/
def windowing : Action n → Bool
  | .window | .reserveLane _ | .sendLane _ => true
  | _ => false

def writes : Action n → Bool
  | .reserveLane _ | .sendLane _ => true
  | _ => false

/-- The state without the point that the loop has reached and without its flags. -/
def frame (e : Engine n) : Engine n :=
  { e with
    handleOpen := true
    capacity := { e.capacity with sealRoom := true }
    inputClosed := false
    rotation := .idle
    spareRequested := none
    spareRetry := false
    recheckDue := false
    recheckRetry := false
    recheckOpen := true
    phase := .drain
    spare := e.spare.map fun spare => ⟨spare.segment, true⟩
    directoryRoom := 0 }

theorem ledger_congr (h : e'.frame = e.frame) : e'.ledger = e.ledger := by
  have hframe : ∀ e : Engine n, e.frame.ledger = e.ledger := by
    intro e
    simp only [frame, ledger, Option.map_map]
    rfl
  rw [← hframe, h, hframe]

/-- The part of the frontier that the frame leaves out. -/
def control (e : Engine n) : Option PendingSwap × Option ProvisionAttempt × Option PreparedSpare :=
  (e.rotation.swap?, e.spareRequested, e.spare)

/-- The engine with the completions and the queues of one that has ended. -/
def ending (e e' : Engine n) : Engine n :=
  { e with
    completions := e'.completions
    completionBatches := e'.completionBatches
    queue := e'.queue
    channel := e'.channel
    channelOpen := false }

/-- The loop ends and fails some of the outstanding appends, in order. An error that rules a commit
out goes only to appends that were never dispatched. -/
structure Ends (action : Action n) (e e' : Engine n) : Prop where
  phase : e'.phase = .stopped
  frame : ∃ segments, (∀ k, (e.segments k).Touched (segments k)) ∧
    e'.frame = ({ e with segments := segments }.ending e').frame
  failed : ∃ failed : List (AdmittedAppend × WalError),
    e'.completions = e.completions ++ failed.map (fun f => (f.1.seqno, .error f.2)) ∧
      (∀ f ∈ failed, f.2.mayHaveCommitted = false →
        f.1 ∈ e.ledger.undispatched e.phase.inHand e.phase.sent) ∧
      (failed.map Prod.fst).Sublist (e.ledger.outstanding e.phase.inHand)
  control : turning action = false → e'.control = e.control

/-- What a step of the loop does. -/
inductive Turn (crc : Bytes → Nat) (config : WalEngineConfig) (action : Action n)
    (e e' : Engine n) : Prop where
  /-- Appends move from the channel to the queue; nothing is completed and no segment gets a
  record. -/
  | idle {segments : Nat → SegmentWriter n} (htouched : ∀ k, (e.segments k).Touched (segments k))
      (hfrom : e.phase.free = true) (hto : e'.phase.free = true)
      (hframe : e'.frame =
        { e with queue := e'.queue, channel := e'.channel, segments := segments }.frame)
      (hroute : queuedAppends e'.queue ++ queuedAppends e'.channel =
        queuedAppends e.queue ++ queuedAppends e.channel)
      (hread : ∀ committedEnd failure, e'.phase = .completing committedEnd failure →
        e'.ledger.WatermarkRead committedEnd)
      (hcontrol : turning action = false → e'.control = e.control)
      (hswap : e'.phase = .swap → e'.rotation = .due)
  | ended (hfrom : e.phase ≠ .stopped) (hends : e.Ends action e')
  /-- The loop holds an append and counts none. -/
  | inconsistent {commits : RecordCommitRange} {append : AdmittedAppend}
      {appends : List AdmittedAppend} {batches : List CompletionBatch} (hfrom : e.phase.free = true)
      (hbatches : e.completionBatches = ⟨commits, append :: appends⟩ :: batches)
      (hpending : e.pendingRecords = 0) (he : e' = e.failInvariant)
  | popped {commits : RecordCommitRange} {batches : List CompletionBatch}
      (hfrom : e.phase.free = true) (hbatches : e.completionBatches = ⟨commits, []⟩ :: batches)
      (he : e' = { e with completionBatches := batches, phase := .completion })
  | completed {committedEnd : Nat} {failure : Option CommitFailure} {commits : RecordCommitRange}
      {append : AdmittedAppend} {appends : List AdmittedAppend} {batches : List CompletionBatch}
      (hfrom : e.phase = .completing committedEnd failure)
      (hbatches : e.completionBatches = ⟨commits, append :: appends⟩ :: batches)
      (hlt : append.seqno < committedEnd)
        (he : e' = e.completeAppend config commits append appends batches)
  | swapped {pending : PendingSwap} {successor : Nat} (haction : turning action = true)
      (hfrom : e.phase.free = true) (hswap : e.beginSwap = .ok (some (pending, successor)))
      (he : e' = { e with
        baseRecordIndex := pending.endRecordIndex + 1
        activeSegment := successor
        spare := none
        rotation := .draining pending false false
        capacity := ⟨e.lastDispatchedAdmissionBytes, (e.segments successor).physicalSize,
          e.directoryHasRoom 1⟩
        phase := .drain })
  | adopted {start : Fin n → ZoneStart} {registered : Bool} (haction : turning action = true)
      (hfrom : e.phase.free = true) (hto : e'.phase = .drain)
      (hframe : e'.frame = (e.adoptSpare start registered).frame)
  | opened {appends : List AdmittedAppend} {queue : List Command}
      (haction : windowing action = true) (hfrom : e.phase.free = true) (hne : appends ≠ [])
      (htaken : appends ++ queuedAppends queue = queuedAppends e.queue)
      (he : e' = { e with queue := queue, phase := .reserve appends (List.finRange n) [] })
  /-- A lane answers, or is dropped. -/
  | lane {segments : Nat → SegmentWriter n} (haction : windowing action = true)
      (htouched : ∀ k, (e.segments k).Touched (segments k)) (hfrom : e.phase.windowed = true)
      (hto : e'.phase.windowed = true) (hinHand : e'.phase.inHand = e.phase.inHand)
      (hsent : e'.phase.sent = e.phase.sent)
        (hframe : e'.frame = { e with segments := segments }.frame)
      (hcontrol : e'.control = e.control)
  | joined {appends : List AdmittedAppend} {zones : List (Fin n)} {segment : SegmentSystem n}
      (haction : windowing action = true) (hwrites : writes action = true)
      (hfrom : e.phase = .reserve appends [] zones)
      (hdispatch : e.active.segment.step crc (.dispatch (appends.map (·.record))) = some segment)
      (he : e' = { e.setActive { e.active with segment := segment } with
        phase := .send appends zones [] })
  | dispatched {appends : List AdmittedAppend} {represented : List (Fin n)}
      (haction : windowing action = true) (hwrites : writes action = true)
      (hfrom : e.phase = .send appends [] represented)
      (hadmits : e.admitWindow crc appends represented = some e')

namespace Turn

/-- The loop moves on and changes its flags only. -/
theorem still (hfrom : e.phase.free = true) (hto : e'.phase.plain = true)
    (hframe : e'.frame = e.frame) (hcontrol : turning action = false → e'.control = e.control) :
    e.Turn crc config action e' := by
  have hqueue : e'.queue = e.queue := congrArg Ledger.queue (ledger_congr hframe)
  have hchannel : e'.channel = e.channel := congrArg Ledger.channel (ledger_congr hframe)
  refine .idle (fun k => .refl) hfrom ?_ ?_ ?_ (fun _ _ h => ?_) hcontrol fun h => ?_
  · cases hphase : e'.phase <;> rw [hphase] at hto <;> first | rfl | cases hto
  · rw [hqueue, hchannel]
    exact hframe
  · rw [hqueue, hchannel]
  · rw [h] at hto
    cases hto
  · rw [h] at hto
    cases hto

/-! ## The end of the loop -/

theorem map_failed (appends : List AdmittedAppend) (error : WalError) :
    ((appends.map fun append => (append, error)).map fun f =>
      (f.1.seqno, (.error f.2 : Except WalError Unit))) =
      appends.map fun append => (append.seqno, .error error) := by
  rw [List.map_map]
  rfl

theorem fst_failed (appends : List AdmittedAppend) (error : WalError) :
    (appends.map fun append => (append, error)).map Prod.fst = appends := by
  rw [List.map_map]
  exact List.map_id _

/-- The loop ends and fails appends that it has not dispatched. -/
theorem failed {segments : Nat → SegmentWriter n} (appends : List AdmittedAppend) (error : WalError)
    (hfrom : e.phase ≠ .stopped) (hsent : e.phase.sent = false) (hto : e'.phase = .stopped)
    (htouched : ∀ k, (e.segments k).Touched (segments k))
    (hcompletions : e'.completions = e.completions ++
      appends.map fun append => (append.seqno, .error error))
    (hsublist : appends.Sublist (e.phase.inHand ++ queuedAppends e.queue ++
      queuedAppends e.channel))
    (hframe : e'.frame = ({ e with segments := segments }.ending e').frame)
    (hcontrol : turning action = false → e'.control = e.control) : e.Turn crc config action e' := by
  refine .ended hfrom ⟨hto, ⟨segments, htouched, hframe⟩,
    ⟨appends.map fun append => (append, error), ?_, ?_, ?_⟩, hcontrol⟩
  · rw [hcompletions, map_failed]
  · intro f hf _
    obtain ⟨append, hmem, rfl⟩ := List.mem_map.1 hf
    rw [hsent]
    exact hsublist.subset hmem
  · rw [fst_failed, Ledger.outstanding, List.append_assoc, List.append_assoc,
      ← List.append_assoc e.phase.inHand]
    exact hsublist.trans (List.sublist_append_right _ _)

theorem failQueued {segments : Nat → SegmentWriter n} (hfrom : e.phase.free = true)
    (htouched : ∀ k, (e.segments k).Touched (segments k))
    (hframe : f.frame = { e with segments := segments }.frame)
    (hcontrol : turning action = false → f.control = e.control) (error : WalError) :
    e.Turn crc config action (f.failQueued error).stop := by
  have hledger := ledger_congr hframe
  have hqueue : f.queue = e.queue := congrArg Ledger.queue hledger
  have hchannel : f.channel = e.channel := congrArg Ledger.channel hledger
  have hcompletions : f.completions = e.completions := congrArg Ledger.completions hledger
  obtain ⟨hnone, hsent⟩ := Phase.inHand_of_free hfrom
  refine failed (queuedAppends (f.queue ++ f.channel)) error (Phase.ne_stopped hfrom) hsent rfl
    htouched ?_ ?_ ?_ hcontrol
  · rw [← hcompletions]
    rfl
  · rw [hqueue, hchannel, queuedAppends_append, hnone]
    exact List.Sublist.refl _
  · exact congrArg (fun e : Engine n => e.ending (f.failQueued error).stop) hframe

theorem failQueued_self (hfrom : e.phase.free = true) (error : WalError) :
    e.Turn crc config action (e.failQueued error).stop :=
  failQueued hfrom (fun _ => .refl) rfl (fun _ => rfl) error

theorem failWindow {segments : Nat → SegmentWriter n} {queue : List Command}
    {appends : List AdmittedAppend} (hfrom : e.phase ≠ .stopped) (hsent : e.phase.sent = false)
    (htouched : ∀ k, (e.segments k).Touched (segments k))
    (hout : appends ++ queuedAppends queue = e.phase.inHand ++ queuedAppends e.queue)
    (error : WalError) :
    e.Turn crc config action
      (({ e with queue := queue, segments := segments } : Engine n).failWindow appends error) := by
  refine failed (appends ++ queuedAppends (queue ++ e.channel)) error hfrom hsent rfl htouched ?_ ?_
    rfl fun _ => rfl
  · rw [List.map_append, ← List.append_assoc]
    rfl
  · rw [queuedAppends_append, ← List.append_assoc, hout]

/-- The loop ends and fails every outstanding append with an error that leaves a commit open. -/
theorem poisoned (failed : List (AdmittedAppend × WalError)) (hfrom : e.phase.free = true)
    (hto : e'.phase = .stopped)
    (hcompletions : e'.completions = e.completions ++ failed.map fun f => (f.1.seqno, .error f.2))
    (herrors : ∀ f ∈ failed, f.2.mayHaveCommitted = true)
    (hall : failed.map Prod.fst =
      e.completionBatches.flatMap CompletionBatch.appends ++ queuedAppends (e.queue ++ e.channel))
    (hframe : e'.frame = (e.ending e').frame) (hcontrol : e'.control = e.control) :
    e.Turn crc config action e' := by
  refine .ended (Phase.ne_stopped hfrom) ⟨hto, ⟨e.segments, fun _ => .refl, hframe⟩,
    ⟨failed, hcompletions, ?_, ?_⟩, fun _ => hcontrol⟩
  · intro f hf hfalse
    rw [herrors f hf] at hfalse
    cases hfalse
  · rw [hall, (Phase.inHand_of_free hfrom).1, queuedAppends_append, Ledger.outstanding,
      List.append_nil, ← List.append_assoc]
    exact List.Sublist.refl _

theorem frame_poison_stop (e : Engine n) :
    e.poison.stop.frame = (e.ending e.poison.stop).frame := rfl

theorem control_poison_stop (e : Engine n) : e.poison.stop.control = e.control := rfl

theorem failOldest {commits : RecordCommitRange} {append : AdmittedAppend}
    {appends : List AdmittedAppend} {batches : List CompletionBatch} {error : WalError}
    (hfrom : e.phase.free = true)
    (hbatches : e.completionBatches = ⟨commits, append :: appends⟩ :: batches)
    (herror : error.mayHaveCommitted = true) :
    e.Turn crc config action (e.failOldest commits append appends batches error) := by
  unfold Engine.failOldest
  refine poisoned ((append, error) :: (appends ++ batches.flatMap CompletionBatch.appends ++
    queuedAppends (e.queue ++ e.channel)).map fun append => (append, .protocol .poisoned))
    hfrom rfl ?_ ?_ ?_ (frame_poison_stop _) (control_poison_stop _)
  · rw [List.map_cons, map_failed, List.map_append]
    show e.completions ++ [_] ++ _ ++ _ = _
    rw [List.append_assoc, List.append_assoc]
    rfl
  · intro f hf
    rcases List.mem_cons.1 hf with rfl | hf
    · exact herror
    · obtain ⟨append, -, rfl⟩ := List.mem_map.1 hf
      rfl
  · rw [List.map_cons, fst_failed, hbatches]
    simp

theorem poison (hfrom : e.phase.free = true) : e.Turn crc config action e.poison.stop := by
  refine poisoned ((e.completionBatches.flatMap CompletionBatch.appends ++
    queuedAppends (e.queue ++ e.channel)).map fun append => (append, .protocol .poisoned))
    hfrom rfl ?_ ?_ (fst_failed ..) (frame_poison_stop e) (control_poison_stop e)
  · rw [map_failed, List.map_append, ← List.append_assoc]
    rfl
  · intro f hf
    obtain ⟨append, -, rfl⟩ := List.mem_map.1 hf
    rfl

/-! ## The loop -/

theorem complete {committedEnd : Nat} {failure : Option CommitFailure}
    (hphase : e.phase = .completing committedEnd failure)
    (h : e.complete config committedEnd failure = some e') : e.Turn crc config action e' := by
  have hfrom : e.phase.free = true := congrArg Phase.free hphase
  unfold Engine.complete at h
  split at h
  · cases h
  · rename_i commits batches hbatches
    cases h
    exact .popped hfrom hbatches rfl
  · rename_i commits append appends batches hbatches
    by_cases hzero : e.pendingRecords = 0
    · simp only [if_pos hzero] at h
      split at h
      · cases h
        exact .inconsistent hfrom hbatches hzero rfl
      · split at h <;> cases h
        · exact .still hfrom rfl rfl fun _ => rfl
        · exact .inconsistent hfrom hbatches hzero rfl
    · simp only [if_neg hzero] at h
      split_ifs at h with hlt
      · cases h
        exact .completed hphase hbatches hlt rfl
      · split at h <;> cases h
        · exact .still hfrom rfl rfl fun _ => rfl
        · exact failOldest hfrom hbatches (CommitFailure.mayHaveCommitted _)

theorem recheck (hfrom : e.phase.free = true) (room : Option Nat) :
    e.Turn crc config action (e.recheck config room) := by
  unfold Engine.recheck
  simp only
  split_ifs
  · cases room with
    | none => exact .still hfrom rfl rfl fun _ => rfl
    | some room =>
      refine .still hfrom rfl rfl fun _ => ?_
      simp only [control, markRotationDue, Rotation.swap?_markDue,
        Rotation.swap?_releaseFoldCapacityBlock]
  · exact .still hfrom rfl rfl fun _ => rfl

theorem provision (hfrom : e.phase.free = true) (parts : Except ProtocolError Unit) (sent : Bool) :
    e.Turn crc config (.provision parts sent) (e.provision parts sent) := by
  unfold Engine.provision
  split
  · split
    · exact failQueued_self hfrom _
    · exact .still hfrom rfl rfl fun _ => rfl
    · split
      · exact failQueued_self hfrom _
      · exact .still hfrom rfl rfl fun h => by cases h
  · exact .still hfrom rfl rfl fun _ => rfl

theorem checkSwap (hfrom : e.phase.free = true) : e.Turn crc config action e.checkSwap := by
  unfold Engine.checkSwap
  split_ifs with hready
  · simp only [Bool.and_eq_true] at hready
    exact .idle (fun _ => .refl) hfrom rfl rfl rfl (fun _ _ h => by cases h) (fun _ => rfl)
      fun _ => Rotation.eq_due hready.1.1
  · exact .still hfrom rfl rfl fun _ => rfl

theorem swap (hfrom : e.phase.free = true) : e.Turn crc config .swap e.swap := by
  unfold Engine.swap
  split
  · exact failQueued_self hfrom _
  · exact .still hfrom rfl rfl fun h => by cases h
  · rename_i pending successor hswap
    exact .swapped rfl hfrom hswap rfl

theorem checkShutdown (hfrom : e.phase.free = true) : e.Turn crc config action e.checkShutdown := by
  unfold Engine.checkShutdown
  split
  · rename_i queue hqueue
    split_ifs
    · refine failed (queuedAppends queue) .closed (Phase.ne_stopped hfrom)
        (Phase.inHand_of_free hfrom).2 rfl (fun _ => .refl) rfl ?_ rfl fun _ => rfl
      have hskip : queuedAppends e.queue = queuedAppends queue := by
        rw [hqueue]
        rfl
      rw [(Phase.inHand_of_free hfrom).1, hskip]
      exact List.sublist_append_left _ _
    · exact .still hfrom rfl rfl fun _ => rfl
  · exact .still hfrom rfl rfl fun _ => rfl

theorem checkExit (hfrom : e.phase.free = true) : e.Turn crc config action e.checkExit := by
  unfold Engine.checkExit
  split
  · exact failed [] .closed (Phase.ne_stopped hfrom) (Phase.inHand_of_free hfrom).2 rfl
      (fun _ => .refl) (List.append_nil _).symm (List.nil_sublist _) rfl fun _ => rfl
  · exact .still hfrom rfl rfl fun _ => rfl

/-! ## Dispatch -/

theorem takeWindow_eq (pendingRecords room : Nat) (taken : List AdmittedAppend)
    (queue : List Command) : (takeWindow pendingRecords room taken queue).1 ++
      queuedAppends (takeWindow pendingRecords room taken queue).2 = taken ++
        queuedAppends queue := by
  fun_induction takeWindow pendingRecords room taken queue with
  | case1 room taken append queue hfull => rfl
  | case2 room taken append queue hfits ih =>
    rw [ih, List.append_assoc]
    rfl
  | case3 => rfl

theorem touched_active {writer : SegmentWriter n} (h : e.active.Touched writer) (k : Nat) :
    (e.segments k).Touched (Function.update e.segments e.activeSegment writer k) :=
  update_of_rel (fun _ => .refl) h k

theorem window (hfrom : e.phase.free = true) : e.Turn crc config .window (e.window config) := by
  obtain ⟨hnone, hsent⟩ := Phase.inHand_of_free hfrom
  have hne := Phase.ne_stopped hfrom
  unfold Engine.window
  split
  · obtain ⟨taken, htaken⟩ : ∃ w, takeWindow e.pendingRecords
      (config.pipelineWindowBytes - e.pendingBytes) [] e.queue = w := ⟨_, rfl⟩
    have hout : taken.1 ++ queuedAppends taken.2 = queuedAppends e.queue := by
      rw [← htaken]
      exact takeWindow_eq ..
    rw [htaken]
    obtain ⟨appends, queue⟩ := taken
    cases appends with
    | nil => exact .still hfrom rfl rfl fun _ => rfl
    | cons append appends =>
      have hout' : append :: appends ++ queuedAppends queue = e.phase.inHand ++
          queuedAppends e.queue := by
        rw [hnone]
        exact hout
      simp only
      split
      · exact failWindow hne hsent (fun _ => .refl) hout' _
      · split
        · exact failWindow hne hsent (fun _ => .refl) hout' _
        · split
          · exact failWindow hne hsent (fun _ => .refl) hout' _
          · split
            · exact failWindow hne hsent (touched_active .poison) hout' _
            · exact .opened rfl hfrom (List.cons_ne_nil _ _) hout rfl
  · exact .still hfrom rfl rfl fun _ => rfl

theorem reserveLane {appends : List AdmittedAppend} {zone : Fin n} {todo zones : List (Fin n)}
    (hphase : e.phase = .reserve appends (zone :: todo) zones) (fits : Bool) :
    e.Turn crc config (.reserveLane fits) (e.reserveLane appends zone todo zones fits) := by
  have hfrom : e.phase.windowed = true := congrArg Phase.windowed hphase
  have hinHand : e.phase.inHand = appends := congrArg Phase.inHand hphase
  have hsent : e.phase.sent = false := congrArg Phase.sent hphase
  unfold Engine.reserveLane
  split
  · exact .lane rfl (fun _ => .refl) hfrom rfl hinHand.symm hsent.symm rfl rfl
  · split
    · exact .lane rfl (fun _ => .refl) hfrom rfl hinHand.symm hsent.symm rfl rfl
    · exact .lane rfl (touched_active (.dropLane zone)) hfrom rfl hinHand.symm hsent.symm rfl rfl

theorem reserved {appends : List AdmittedAppend} {zones : List (Fin n)}
    (hphase : e.phase = .reserve appends [] zones) (h : e.reserved crc appends zones = some e')
    {fits : Bool} : e.Turn crc config (.reserveLane fits) e' := by
  unfold Engine.reserved at h
  split at h
  · cases h
    have hinHand : e.phase.inHand = appends := congrArg Phase.inHand hphase
    exact failWindow (by simp [hphase]) (congrArg Phase.sent hphase) (touched_active .poison)
      (congrArg (· ++ queuedAppends e.queue) hinHand.symm) _
  · obtain ⟨segment, hdispatch, rfl⟩ := Option.map_eq_some_iff.1 h
    exact .joined rfl rfl hphase hdispatch rfl

theorem sendLane {appends : List AdmittedAppend} {zone : Fin n} {todo represented : List (Fin n)}
    (hphase : e.phase = .send appends (zone :: todo) represented) (sent : Bool) :
    e.Turn crc config (.sendLane sent) (e.sendLane appends zone todo represented sent) := by
  have hfrom : e.phase.windowed = true := congrArg Phase.windowed hphase
  have hinHand : e.phase.inHand = appends := congrArg Phase.inHand hphase
  have hsent : e.phase.sent = true := congrArg Phase.sent hphase
  unfold Engine.sendLane
  split
  · exact .lane rfl (fun _ => .refl) hfrom rfl hinHand.symm hsent.symm rfl rfl
  · exact .lane rfl (touched_active (.dropLane zone)) hfrom rfl hinHand.symm hsent.symm rfl rfl

/-! ## Events -/

theorem failClosedCommits (hfrom : e.phase.free = true) :
    e.Turn crc config action e.failClosedCommits := by
  unfold Engine.failClosedCommits
  split
  · rename_i commits append appends batches hbatches
    exact failOldest hfrom hbatches rfl
  · exact poison hfrom

theorem control_of_turning (haction : turning action = true) (h : turning action = false) :
    f.control = e.control := by
  rw [haction] at h
  cases h

/-- The answer of the provisioning worker is taken before it is looked at. -/
theorem folded (haction : turning action = true) (hfrom : e.phase.free = true) (room : Nat)
    (queued : Bool) :
    e.Turn crc config action
      (({ e with spareRequested := none } : Engine n).folded config room queued) := by
  have hcontrol : ∀ {f : Engine n}, turning action = false → f.control = e.control :=
    control_of_turning haction
  unfold Engine.folded
  split
  · exact failQueued hfrom (fun _ => .refl) (by rfl) hcontrol _
  · split
    · exact failQueued hfrom (fun _ => .refl) (by rfl) hcontrol _
    · rename_i spare hspare
      have hframe : (({ e with spareRequested := none } : Engine n).confirmFold room spare).frame =
          e.frame := by
        simp only [frame, confirmFold]
        rw [show e.spare = some spare from hspare]
        rfl
      simp only
      split
      · exact .still hfrom rfl hframe hcontrol
      · rename_i i hwriter
        have hsealed : ∀ k, (e.segments k).Touched
            (Function.update e.segments i { e.segments i with sealed := true } k) :=
          update_of_rel (fun _ => .refl) .sealed
        split
        · refine .idle hsealed hfrom rfl ?_ rfl (fun _ _ h => by cases h) hcontrol
            fun h => by cases h
          exact congrArg (fun e : Engine n => e.sealSegment i) hframe
        · refine failQueued hfrom hsealed ?_ hcontrol _
          exact congrArg (fun e : Engine n => e.sealSegment i) hframe

theorem provisionFailed (haction : turning action = true) (hfrom : e.phase.free = true)
    (error : ProtocolError) :
    e.Turn crc config action
      (({ e with spareRequested := none } : Engine n).provisionFailed error) := by
  have hcontrol : ∀ {f : Engine n}, turning action = false → f.control = e.control :=
    control_of_turning haction
  unfold Engine.provisionFailed
  simp only
  split
  · split
    · exact .still hfrom rfl rfl hcontrol
    · exact .still hfrom rfl rfl hcontrol
  · exact failQueued hfrom (fun _ => .refl) (by rfl) hcontrol _
  · exact failQueued hfrom (fun _ => .refl) (by rfl) hcontrol _
  · split
    · exact .still hfrom rfl rfl hcontrol
    · exact .still hfrom rfl rfl hcontrol

theorem provisioned (haction : turning action = true) (hfrom : e.phase.free = true)
    {outcome : ProvisionOutcome n} {queued : Bool}
    (h : e.provisioned config outcome queued = some e') : e.Turn crc config action e' := by
  unfold Engine.provisioned at h
  split at h
  · cases h
  · simp only at h
    split at h
    · cases h
      exact .adopted haction hfrom rfl rfl
    · cases h
      exact .adopted haction hfrom rfl rfl
    · cases h
      exact folded haction hfrom _ _
    · cases h
      exact provisionFailed haction hfrom _
    · cases h
      exact failQueued hfrom (fun _ => .refl) (by rfl) (control_of_turning haction) _
    · cases h

theorem wake (hfrom : e.phase.free = true) {event : Wake n} {queued : Bool}
    (h : e.wake config event queued = some e') : e.Turn crc config (.wake event queued) e' := by
  cases event with
  | commitsClosed =>
    obtain ⟨-, heq⟩ := Option.ite_none_left_eq_some.1 h
    cases heq
    exact failClosedCommits hfrom
  | sealed =>
    obtain ⟨hsealing, heq⟩ := Option.ite_none_right_eq_some.1 h
    cases heq
    refine .still hfrom rfl rfl fun _ => ?_
    simp only [control, markRotationDue, Rotation.swap?_markDue, hsealing]
    rfl
  | sealLost =>
    obtain ⟨-, heq⟩ := Option.ite_none_right_eq_some.1 h
    cases heq
    exact failQueued_self hfrom _
  | retryElapsed =>
    obtain ⟨-, heq⟩ := Option.ite_none_right_eq_some.1 h
    cases heq
    refine .still hfrom rfl rfl fun _ => ?_
    simp only [control, Rotation.swap?_retryElapsed]
  | provisioned outcome => exact provisioned rfl hfrom h
  | command =>
    simp only [Engine.wake] at h
    split at h
    · rename_i command channel hchannel
      cases h
      refine .idle (fun _ => .refl) hfrom rfl rfl ?_ (fun _ _ h => by cases h)
        (fun _ => rfl) fun h => by cases h
      have hcons : queuedAppends (command :: channel) =
          queuedAppends [command] ++ queuedAppends channel := queuedAppends_append [command] channel
      rw [hchannel, hcons, queuedAppends_append, List.append_assoc]
    · obtain ⟨-, heq⟩ := Option.ite_none_left_eq_some.1 h
      cases heq
      exact .still hfrom rfl rfl fun _ => rfl
  | commitUpdate =>
    obtain ⟨-, heq⟩ := Option.ite_none_left_eq_some.1 h
    cases heq
    exact .still hfrom rfl rfl fun _ => rfl
  | recheckRequest | recheckClosed | recheckElapsed | spareElapsed =>
    obtain ⟨-, heq⟩ := Option.ite_none_right_eq_some.1 h
    cases heq
    exact .still hfrom rfl rfl fun _ => rfl

/-! ## Steps -/

theorem of_step (hloop : loop action = true) (h : e.step crc config action = some e') :
    e.Turn crc config action e' := by
  cases action with
  | enqueueAppend | sendAppend | cancelAppend | shutdown | dropHandle | abort | segment =>
    cases hloop
  | drain =>
    simp only [Engine.step] at h
    split at h <;> cases h
    rename_i hphase
    refine .idle (fun _ => .refl) (congrArg Phase.free hphase) rfl rfl ?_ (fun _ _ h => by cases h)
      (fun _ => rfl) fun h => by cases h
    show queuedAppends (e.queue ++ e.channel) ++ queuedAppends [] = _
    rw [queuedAppends_append]
    exact List.append_nil _
  | progress =>
    simp only [Engine.step] at h
    split at h <;> cases h
    rename_i hphase
    unfold Engine.progress
    split
    · exact .still (congrArg Phase.free hphase) rfl rfl fun _ => rfl
    · rename_i batch batches hbatches
      refine .idle (fun _ => .refl) (congrArg Phase.free hphase) rfl rfl rfl (fun _ _ h => ?_)
        (fun _ => rfl) fun h => by cases h
      cases h
      exact ⟨batch, batches, hbatches, Nat.le_refl _⟩
  | complete =>
    simp only [Engine.step] at h
    split at h
    · rename_i hphase
      exact complete hphase h
    · cases h
  | recheck | provision | checkSwap | swap | checkShutdown | window | checkExit =>
    simp only [Engine.step] at h
    split at h <;> cases h
    rename_i hphase
    have hfree := congrArg Phase.free hphase
    first
      | exact recheck hfree _
      | exact provision hfree _ _
      | exact checkSwap hfree
      | exact swap hfree
      | exact checkShutdown hfree
      | exact window hfree
      | exact checkExit hfree
  | reserveLane fits =>
    simp only [Engine.step] at h
    split at h
    · rename_i hphase
      cases h
      exact reserveLane hphase fits
    · rename_i hphase
      exact reserved hphase h
    · cases h
  | sendLane sent =>
    simp only [Engine.step] at h
    split at h
    · rename_i hphase
      cases h
      exact sendLane hphase sent
    · rename_i hphase
      exact .dispatched rfl rfl hphase h
    · cases h
  | markDue =>
    simp only [Engine.step] at h
    split at h <;> cases h
    rename_i hphase
    refine .still (congrArg Phase.free hphase) rfl rfl fun _ => ?_
    simp only [control, markRotationDue, Rotation.swap?_markDue]
  | wake event queued =>
    simp only [Engine.step] at h
    split at h
    · rename_i hphase
      exact wake (congrArg Phase.free hphase) h
    · cases h

end Turn

end Engine

end Chorus
