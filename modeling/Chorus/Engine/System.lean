import Chorus.Engine.State

/-!
# The engine loop

One step of `run_engine` for every read of shared state and for every wait, so that the commit
trackers, the lanes and the admission handle may move between any two of them. The environment
chooses what the manifest, the provisioning worker, the maintenance task and the byte budgets
answer.
-/

namespace Chorus

open RecordFrame

/-- What the provisioning worker answers. A manifest update brings the room of its directory. -/
inductive ProvisionOutcome (n : Nat) where
  | registered (start : Fin n → ZoneStart) (room : Nat)
  | unregistered (start : Fin n → ZoneStart)
  | folded (room : Nat)
  | failed (error : ProtocolError)
  | stopped

/-- What wakes the loop at its single wait point. -/
inductive Wake (n : Nat) where
  | commitUpdate
  | commitsClosed
  | sealed
  | sealLost
  | retryElapsed
  | recheckRequest
  | recheckClosed
  | recheckElapsed
  | spareElapsed
  | provisioned (outcome : ProvisionOutcome n)
  | command

namespace Engine

variable {n : Nat}

/-! ## Admission -/

/-- The checks of an append before it waits for its permits. -/
def checkAppend (config : WalEngineConfig) (e : Engine n) (seqno : Nat) (record : RecordFrame) :
    Except WalError AdmittedAppend := do
  failIf (e.channelOpen = false) .closed
  failIf (seqno ≠ e.nextSeqno) (.outOfOrder e.nextSeqno seqno)
  failIf (seqno = maxSeqno) .sequenceExhausted
  failIf (record.encode.isOk = false) (.recordTooLarge maxPayloadBytes record.payload.length)
  failIf (e.capacity.sealRoom = false) (.protocol .segmentDirectoryFull)
  failIf (e.totalAdmittedBytes < e.capacity.admissionStartBytes) (.internal .admissionBoundary)
  let encodedBytes := record.payload.length + headerLen
  let currentActive :=
    e.capacity.existingBytes + (e.totalAdmittedBytes - e.capacity.admissionStartBytes)
  failIf (config.maxActiveSegmentBytes < currentActive + encodedBytes)
    (.activeSegmentFull config.maxActiveSegmentBytes currentActive encodedBytes)
  return ⟨seqno, record, e.totalAdmittedBytes + encodedBytes⟩

/-- The permits of the waiting call are there: the append enters the channel. -/
def sendAppend (e : Engine n) (append : AdmittedAppend) : Engine n :=
  if e.channelOpen then
    { e with
      admission := none
      channel := e.channel ++ [.append append]
      totalAdmittedBytes := append.admissionEndBytes
      nextSeqno := e.nextSeqno + 1
      accepted := e.accepted ++ [append.record] }
  else { e with admission := none }

def sendShutdown (e : Engine n) : Engine n :=
  { e with
    handleOpen := false
    channel := if e.channelOpen then e.channel ++ [.shutdown] else e.channel }

/-! ## The loop -/

def drainAvailable (e : Engine n) : Engine n :=
  { e with
    queue := e.queue ++ e.channel
    channel := []
    inputClosed := e.inputClosed || !e.handleOpen
    phase := .completion }

def progress (e : Engine n) : Engine n :=
  match e.completionBatches with
  | [] => { e with phase := .recheck }
  | batch :: _ =>
    let snapshot := (e.segments batch.commits.segment).segment.commits.snapshot
    { e with
      phase := .completing (batch.commits.baseRecordIndex + snapshot.committed) snapshot.failure }

def failInvariant (e : Engine n) : Engine n := { e.poison with invariantFailed := true }.stop

def completeAppend (config : WalEngineConfig) (e : Engine n) (commits : RecordCommitRange)
    (append : AdmittedAppend) (appends : List AdmittedAppend) (batches : List CompletionBatch) :
    Engine n :=
  markRotationDue config { e with
    pendingRecords := e.pendingRecords - 1
    pendingBytes := e.pendingBytes - append.encodedBytes
    completions := e.completions ++ [(append.seqno, .ok ())]
    nextCompletion := e.nextCompletion + 1
    completionBatches := ⟨commits, appends⟩ :: batches }

/-- The oldest append is failed with its own error, and the engine is poisoned. -/
def failOldest (e : Engine n) (commits : RecordCommitRange) (append : AdmittedAppend)
    (appends : List AdmittedAppend) (batches : List CompletionBatch) (error : WalError) :
    Engine n :=
  (({ e with completionBatches := ⟨commits, appends⟩ :: batches }.failAppends
    [append] error).poison).stop

/-- One turn of the completion loop under the watermark that was read. -/
def complete (config : WalEngineConfig) (e : Engine n) (committedEnd : Nat)
    (failure : Option CommitFailure) : Option (Engine n) :=
  match e.completionBatches with
  | [] => none
  | ⟨_, []⟩ :: batches => some { e with completionBatches := batches, phase := .completion }
  | ⟨commits, append :: appends⟩ :: batches =>
    if append.seqno < committedEnd then
      if e.pendingRecords = 0 then some e.failInvariant
      else some (e.completeAppend config commits append appends batches)
    else match failure with
      | none => some { e with phase := .recheck }
      | some failure =>
        if e.pendingRecords = 0 then some e.failInvariant
        else some (e.failOldest commits append appends batches (.protocol failure.protocolError))

/-- Read the manifest again after a truncation; `none` means that the read failed. -/
def recheck (config : WalEngineConfig) (e : Engine n) (room : Option Nat) : Engine n :=
  let e := { e with phase := .provision }
  if e.recheckDue then
    match room with
    | none => { e with recheckDue := false, recheckRetry := true }
    | some room =>
      let e := { e with
        recheckDue := false
        directoryRoom := room
        rotation := e.rotation.releaseFoldCapacityBlock }
      let e := e.markRotationDue config
      { e with capacity := { e.capacity with sealRoom := e.directoryHasRoom 1 } }
  else e

/-- The work that the provisioning worker is asked for next. -/
def nextAttempt (e : Engine n) : Except WalError (Option ProvisionAttempt) :=
  if e.rotation.foldReady e.nextCompletion && e.unregisteredSpareReady then
    match e.rotation.swap? with
    | none => .error (.internal .foldWithoutSwap)
    | some _ => .ok (some .fold)
  else if e.spareWanted then
    .ok (some (if e.rotation.hasPendingFold then .unregistered else .registered))
  else .ok none

/-- Hand work to the provisioning worker; `parts` is what `provision_parts` answers. -/
def provision (e : Engine n) (parts : Except ProtocolError Unit) (sent : Bool) : Engine n :=
  if e.spareRequested.isNone && !e.spareRetry then
    match e.nextAttempt with
    | .error error => (e.failQueued error).stop
    | .ok none => { e with phase := .swapCheck }
    | .ok (some attempt) =>
      match parts with
      | .error error => (e.failQueued (.protocol error)).stop
      | .ok () =>
        { e with phase := .swapCheck, spareRequested := if sent then some attempt else none }
  else { e with phase := .swapCheck }

def checkSwap (e : Engine n) : Engine n :=
  if e.rotation.swapReady && e.spareReady && e.active.swapBoundaryReady then
    { e with phase := .swap }
  else { e with phase := .shutdownCheck }

/-- Freeze the active segment at its committed boundary. The result names the swapped-out range and
the segment that takes over. -/
def beginSwap (e : Engine n) : Except WalError (Option (PendingSwap × Nat)) := do
  failIf (e.active.isPoisoned = true) (.protocol .poisoned)
  let admitted := e.active.admittedLen
  if admitted = 0 then return none
  let committed := e.active.committedLen
  failIf (admitted ≠ committed) (.internal (.rotationBoundary committed admitted))
  match e.spare with
  | none => .error (.internal .swapWithoutSpare)
  | some spare =>
    failIf (spare.registered = false) (.internal .swapUnregisteredSpare)
    return some (⟨e.baseRecordIndex, e.baseRecordIndex + committed - 1, some e.activeSegment⟩,
      spare.segment)

/-- Route admissions to the spare. -/
def swap (e : Engine n) : Engine n :=
  match e.beginSwap with
  | .error error => (e.failQueued error).stop
  | .ok none => { e with rotation := .idle, phase := .shutdownCheck }
  | .ok (some (pending, successor)) => { e with
      baseRecordIndex := pending.endRecordIndex + 1
      activeSegment := successor
      spare := none
      rotation := .draining pending false false
      capacity := ⟨e.lastDispatchedAdmissionBytes, (e.segments successor).physicalSize,
        e.directoryHasRoom 1⟩
      phase := .drain }

def checkShutdown (e : Engine n) : Engine n :=
  match e.queue with
  | .shutdown :: queue =>
    if e.pendingRecords = 0 then ({ e with queue := queue }.failAll .closed).stop
    else { e with phase := .dispatch }
  | _ => { e with phase := .dispatch }

/-- The appends of the next window. A record is never split; one that is larger than the window runs
alone. -/
def takeWindow (pendingRecords : Nat) :
    (room : Nat) → (taken : List AdmittedAppend) → List Command → List AdmittedAppend × List Command
  | room, taken, .append append :: queue =>
    if room < append.encodedBytes ∧ (pendingRecords ≠ 0 ∨ taken ≠ []) then
      (taken, .append append :: queue)
    else takeWindow pendingRecords (room - append.encodedBytes) (taken ++ [append]) queue
  | _, taken, queue => (taken, queue)

/-- A window that could not be dispatched fails with everything queued behind it. -/
def failWindow (e : Engine n) (appends : List AdmittedAppend) (error : WalError) : Engine n :=
  ((e.stopAdmission.failAppends appends error).failAll error).stop

/-- Take the next window from the queue and hand it to the active segment. -/
def window (config : WalEngineConfig) (e : Engine n) : Engine n :=
  if !e.rotation.dispatchPaused e.spareReady && e.pendingBytes < config.pipelineWindowBytes then
    match takeWindow e.pendingRecords (config.pipelineWindowBytes - e.pendingBytes) [] e.queue with
    | ([], _) => { e with phase := .exitCheck }
    | (appends, queue) =>
      let e := { e with queue := queue }
      if e.active.sealed then e.failWindow appends (.protocol .finalized)
      else if e.active.isPoisoned then e.failWindow appends (.protocol .poisoned)
      else if !(appends.all fun append => append.record.encode.isOk) then
        e.failWindow appends (.protocol .record)
      else if e.active.activeLanes < majority n then
        (e.setActive e.active.poison).failWindow appends (.protocol .noQuorum)
      else { e with phase := .reserve appends (List.finRange n) [] }
  else { e with phase := .exitCheck }

/-- Reserve the window's bytes in one lane; a lane without room is retired. -/
def reserveLane (e : Engine n) (appends : List AdmittedAppend) (zone : Fin n)
    (todo reserved : List (Fin n)) (fits : Bool) : Engine n :=
  if e.active.lanes zone = false then { e with phase := .reserve appends todo reserved }
  else if fits then { e with phase := .reserve appends todo (reserved ++ [zone]) }
  else { e.setActive (e.active.dropLane zone) with phase := .reserve appends todo reserved }

/-- All lanes have answered: the window joins the admitted stream, or no quorum is left. -/
def reserved (crc : Bytes → Nat) (e : Engine n) (appends : List AdmittedAppend)
    (zones : List (Fin n)) : Option (Engine n) :=
  if zones.length < majority n then
    some ((e.setActive e.active.poison).failWindow appends (.protocol .noQuorum))
  else
    (e.active.segment.step crc (.dispatch (appends.map (·.record)))).map fun segment =>
      { e.setActive { e.active with segment := segment } with phase := .send appends zones [] }

/-- Queue the window on one lane; a lane whose task has ended is dropped. -/
def sendLane (e : Engine n) (appends : List AdmittedAppend) (zone : Fin n)
    (todo represented : List (Fin n)) (sent : Bool) : Engine n :=
  if sent then { e with phase := .send appends todo (represented ++ [zone]) }
  else { e.setActive (e.active.dropLane zone) with phase := .send appends todo represented }

def assignedRange (e : Engine n) (count : Nat) : RecordCommitRange :=
  { segment := e.activeSegment
    baseRecordIndex := e.baseRecordIndex
    firstGlobalRecordIndex := e.baseRecordIndex + e.active.admittedLen
    endGlobalRecordIndex := e.baseRecordIndex + e.active.admittedLen + count }

/-- The window is in the commit tracker with the indices it was assigned. -/
def dispatched (e : Engine n) (appends : List AdmittedAppend) (commits : RecordCommitRange) :
    Engine n :=
  let expectedFirst := (appends.head?.map fun append => append.seqno).getD 0
  let expectedStop := (appends.getLast?.map fun append => append.seqno + 1).getD 0
  if commits.firstGlobalRecordIndex ≠ expectedFirst ∨
      commits.endGlobalRecordIndex ≠ expectedStop then
    { e with invariantFailed := true }.failWindow appends (.internal (.assignedRange
      commits.firstGlobalRecordIndex commits.endGlobalRecordIndex expectedFirst expectedStop))
  else { e with
    pendingRecords := e.pendingRecords + appends.length
    pendingBytes := e.pendingBytes + (appends.map AdmittedAppend.encodedBytes).sum
    completionBatches := e.completionBatches ++ [⟨commits, appends⟩]
    phase := .markDue }

def admitWindow (crc : Bytes → Nat) (e : Engine n) (appends : List AdmittedAppend)
    (represented : List (Fin n)) : Option (Engine n) :=
  (e.active.segment.step crc (.admitWindow represented)).map fun segment =>
    let count := segment.commits.admitted - e.active.admittedLen
    dispatched { e.setActive { e.active with segment := segment } with
      lastDispatchedAdmissionBytes :=
        (appends.getLast?.map AdmittedAppend.admissionEndBytes).getD e.lastDispatchedAdmissionBytes
      placements := e.placements ++
        (List.range' e.active.admittedLen count).map fun offset =>
          ⟨e.activeSegment, offset, e.baseRecordIndex + offset⟩ }
      appends (e.assignedRange count)

def checkExit (e : Engine n) : Engine n :=
  if e.inputClosed && e.queue.isEmpty && e.pendingRecords = 0 then e.stop
  else { e with phase := .wait }

/-- The commit notifications closed before the oldest append was resolved. -/
def failClosedCommits (e : Engine n) : Engine n :=
  match e.completionBatches with
  | ⟨commits, append :: appends⟩ :: batches =>
    e.failOldest commits append appends batches (.protocol .pipelineClosed)
  | _ => e.poison.stop

def adoptSpare (e : Engine n) (start : Fin n → ZoneStart) (registered : Bool) : Engine n :=
  { e with
    segments := Function.update e.segments e.segmentCount (.create start)
    segmentCount := e.segmentCount + 1
    spare := some ⟨e.segmentCount, registered⟩ }

/-- The register holds the fold, and the spare it names is registered. -/
def confirmFold (e : Engine n) (room : Nat) (spare : PreparedSpare) : Engine n :=
  { e with
    directoryRoom := room
    spare := some { spare with registered := true }
    capacity := { e.capacity with sealRoom := 1 ≤ room }
    phase := .drain }

/-- The writer of a segment goes to the maintenance task, which seals it. -/
def sealSegment (e : Engine n) (i : Nat) : Engine n :=
  { e with segments := Function.update e.segments i { e.segments i with sealed := true } }

/-- The fold of the swapped-out segment is committed; `queued` says whether the maintenance task
still takes work. -/
def folded (config : WalEngineConfig) (e : Engine n) (room : Nat) (queued : Bool) : Engine n :=
  match e.rotation.swap? with
  | none => (e.failQueued (.protocol .poisoned)).stop
  | some pending =>
    match e.spare with
    | none => (e.failQueued (.internal .foldWithoutRefill)).stop
    | some spare =>
      let e := { e.confirmFold room spare with rotation := .idle }
      match pending.writer with
      | none => e.markRotationDue config
      | some i =>
        if queued then { e.sealSegment i with rotation := .sealing }
        else ((e.sealSegment i).failQueued .closed).stop

def provisionFailed (e : Engine n) (error : ProtocolError) : Engine n :=
  let e := { e with phase := .drain }
  match error with
  | .segmentDirectoryFull =>
    if e.rotation.hasPendingFold then { e with rotation := e.rotation.blockFoldOnCapacity }
    else { e with spareRetry := true }
  | .poisoned => (e.failQueued (.protocol .poisoned)).stop
  | .fenced reason => (e.failQueued (.protocol (.fenced reason))).stop
  | _ =>
    if e.rotation.hasPendingFold && e.unregisteredSpareReady then
      { e with rotation := e.rotation.armFoldRetry }
    else { e with spareRetry := true }

/-- The answer of the provisioning worker to what it was asked for. -/
def provisioned (config : WalEngineConfig) (e : Engine n) (outcome : ProvisionOutcome n)
    (queued : Bool) : Option (Engine n) :=
  match e.spareRequested with
  | none => none
  | some attempt =>
    let e := { e with spareRequested := none }
    match outcome, attempt with
    | .registered start room, .registered =>
      some { e.adoptSpare start true with directoryRoom := room, phase := .drain }
    | .unregistered start, .unregistered => some { e.adoptSpare start false with phase := .drain }
    | .folded room, .fold => some (e.folded config room queued)
    | .failed error, _ => some (e.provisionFailed error)
    | .stopped, _ => some (e.failQueued .closed).stop
    | _, _ => none

def wake (config : WalEngineConfig) (e : Engine n) (event : Wake n) (queued : Bool) :
    Option (Engine n) :=
  match event with
  | .commitUpdate => if e.pendingRecords = 0 then none else some { e with phase := .drain }
  | .commitsClosed => if e.pendingRecords = 0 then none else some e.failClosedCommits
  | .sealed =>
    if e.rotation = .sealing then
      some (markRotationDue config { e with rotation := .idle, phase := .drain })
    else none
  | .sealLost => if e.rotation = .sealing then some (e.failQueued .closed).stop else none
  | .retryElapsed =>
    if e.rotation.retryPending then
      some { e with rotation := e.rotation.retryElapsed, phase := .drain }
    else none
  | .recheckRequest =>
    if e.recheckOpen then some { e with recheckDue := true, recheckRetry := false, phase := .drain }
    else none
  | .recheckClosed =>
    if e.recheckOpen then some { e with recheckOpen := false, phase := .drain } else none
  | .recheckElapsed =>
    if e.recheckRetry then
      some { e with recheckRetry := false, recheckDue := true, phase := .drain }
    else none
  | .spareElapsed =>
    if e.spareRetry then some { e with spareRetry := false, phase := .drain } else none
  | .provisioned outcome => e.provisioned config outcome queued
  | .command =>
    match e.channel with
    | command :: channel =>
      some { e with queue := e.queue ++ [command], channel := channel, phase := .drain }
    | [] => if e.handleOpen then none else some { e with inputClosed := true, phase := .drain }

/-! ## The system -/

inductive Action (n : Nat) where
  | enqueueAppend (seqno : Nat) (record : RecordFrame)
  | sendAppend
  | cancelAppend
  | shutdown
  | dropHandle
  | abort
  /-- A lane, a recovery or the maintenance task acts on one segment. -/
  | segment (i : Nat) (action : SegmentSystem.Action n)
  /-- The loop takes its next step, with what the environment answers. -/
  | drain
  | progress
  | complete
  | recheck (room : Option Nat)
  | provision (parts : Except ProtocolError Unit) (sent : Bool)
  | checkSwap
  | swap
  | checkShutdown
  | window
  | reserveLane (fits : Bool)
  | sendLane (sent : Bool)
  | markDue
  | checkExit
  | wake (event : Wake n) (queued : Bool)

/-- The actions on a segment that are not the engine's own. -/
def external : SegmentSystem.Action n → Bool
  | .dispatch _ => false
  | .admitWindow _ => false
  | .poison => false
  | _ => true

/-- The actions that are not calls of the handle. -/
def background : Action n → Bool
  | .enqueueAppend .. | .sendAppend | .cancelAppend | .shutdown | .dropHandle | .abort => false
  | _ => true

def step (crc : Bytes → Nat) (config : WalEngineConfig) (e : Engine n) :
    Action n → Option (Engine n)
  | .enqueueAppend seqno record =>
    if e.handleOpen ∧ e.admission = none then
      match e.checkAppend config seqno record with
      | .error _ => some e
      | .ok append => some { e with admission := some append }
    else none
  | .sendAppend => e.admission.map e.sendAppend
  | .cancelAppend => some { e with admission := none }
  | .shutdown => if e.handleOpen ∧ e.admission = none then some e.sendShutdown else none
  | .dropHandle => if e.admission = none then some { e with handleOpen := false } else none
  | .abort => some { e with handleOpen := false }.stop
  | .segment i action =>
    if external action ∧ i < e.segmentCount then
      ((e.segments i).segment.step crc action).map fun segment =>
        { e with segments := Function.update e.segments i { e.segments i with segment := segment } }
    else none
  | .drain => match e.phase with
    | .drain => some e.drainAvailable
    | _ => none
  | .progress => match e.phase with
    | .completion => some e.progress
    | _ => none
  | .complete => match e.phase with
    | .completing committedEnd failure => e.complete config committedEnd failure
    | _ => none
  | .recheck room => match e.phase with
    | .recheck => some (e.recheck config room)
    | _ => none
  | .provision parts sent => match e.phase with
    | .provision => some (e.provision parts sent)
    | _ => none
  | .checkSwap => match e.phase with
    | .swapCheck => some e.checkSwap
    | _ => none
  | .swap => match e.phase with
    | .swap => some e.swap
    | _ => none
  | .checkShutdown => match e.phase with
    | .shutdownCheck => some e.checkShutdown
    | _ => none
  | .window => match e.phase with
    | .dispatch => some (e.window config)
    | _ => none
  | .reserveLane fits => match e.phase with
    | .reserve appends (zone :: todo) zones => some (e.reserveLane appends zone todo zones fits)
    | .reserve appends [] zones => e.reserved crc appends zones
    | _ => none
  | .sendLane sent => match e.phase with
    | .send appends (zone :: todo) represented =>
      some (e.sendLane appends zone todo represented sent)
    | .send appends [] represented => e.admitWindow crc appends represented
    | _ => none
  | .markDue => match e.phase with
    | .markDue => some { e.markRotationDue config with phase := .dispatch }
    | _ => none
  | .checkExit => match e.phase with
    | .exitCheck => some e.checkExit
    | _ => none
  | .wake event queued => match e.phase with
    | .wait => e.wake config event queued
    | _ => none

end Engine

end Chorus
