import Chorus.Engine.Rotation
import Chorus.Segment.System

/-!
# The state of the append engine

One `Engine` holds the admission handle, the command channel, the state of the engine loop, the
segmented writer, and the point the loop has reached (`Phase`). Segments are numbered in the order
in which the engine acquires them. What the manifest answers is left to the environment: only the
room of the cached directory matters here (`directoryRoom`, in entries). Byte permits and backoff
times are not modelled; an admission may wait for any time and a retry may come at any time.

The last fields record what an observer sees: the admitted records, the resolved completions in
order, and where each dispatched record was placed.
-/

namespace Chorus

open RecordFrame

def maxSeqno : Nat := 2 ^ 64 - 1

def maxPayloadBytes : Nat := u32Limit - 1 - headerLen

/-- The limits of an engine that the model reads. -/
structure WalEngineConfig where
  pipelineWindowBytes : Nat
  maxSegmentBytes : Nat
  maxActiveSegmentBytes : Nat
  deriving DecidableEq, Repr

structure AdmittedAppend where
  seqno : Nat
  record : RecordFrame
  /-- Cumulative encoded admission boundary after this record. -/
  admissionEndBytes : Nat
  deriving DecidableEq, Repr

def AdmittedAppend.encodedBytes (append : AdmittedAppend) : Nat :=
  append.record.payload.length + headerLen

inductive Command where
  | append (admitted : AdmittedAppend)
  | shutdown
  deriving DecidableEq, Repr

def Command.append? : Command → Option AdmittedAppend
  | .append admitted => some admitted
  | .shutdown => none

def queuedAppends (queue : List Command) : List AdmittedAppend := queue.filterMap Command.append?

/-- A dispatched window: where its records went and which global indices they were given. -/
structure RecordCommitRange where
  segment : Nat
  baseRecordIndex : Nat
  firstGlobalRecordIndex : Nat
  endGlobalRecordIndex : Nat
  deriving DecidableEq, Repr

structure CompletionBatch where
  commits : RecordCommitRange
  appends : List AdmittedAppend
  deriving DecidableEq, Repr

/-- One segment's writer: its lanes and commit tracker, and which lane tasks are still held. -/
structure SegmentWriter (n : Nat) where
  segment : SegmentSystem n
  lanes : Fin n → Bool
  sealed : Bool

namespace SegmentWriter

variable {n : Nat}

def create (start : Fin n → ZoneStart) : SegmentWriter n :=
  ⟨.init start, fun zone => (start zone).session.isSome, false⟩

def admittedLen (writer : SegmentWriter n) : Nat := writer.segment.commits.admitted

def committedLen (writer : SegmentWriter n) : Nat := writer.segment.commits.committed

def isPoisoned (writer : SegmentWriter n) : Bool := writer.segment.commits.failure.isSome

def physicalSize (writer : SegmentWriter n) : Nat := writer.segment.commits.committedBytes

def activeLanes (writer : SegmentWriter n) : Nat := (List.finRange n).countP writer.lanes

/-- Every admitted record is committed, and there is one. -/
def swapBoundaryReady (writer : SegmentWriter n) : Bool :=
  writer.admittedLen ≠ 0 && writer.admittedLen = writer.committedLen

/-- The lane's task is gone; the tracker is told. -/
def dropLane (writer : SegmentWriter n) (zone : Fin n) : SegmentWriter n :=
  { writer with
    lanes := Function.update writer.lanes zone false
    segment := { writer.segment with commits := writer.segment.commits.finishLane zone none } }

def poison (writer : SegmentWriter n) : SegmentWriter n :=
  { writer with segment := { writer.segment with commits := writer.segment.commits.poison } }

end SegmentWriter

/-- Where a dispatched record went and the global index its segment assigned to it. -/
structure Placement where
  segment : Nat
  offset : Nat
  recordIndex : Nat
  deriving DecidableEq, Repr

structure PreparedSpare where
  segment : Nat
  registered : Bool
  deriving DecidableEq, Repr

structure ActiveSegmentCapacity where
  admissionStartBytes : Nat
  existingBytes : Nat
  sealRoom : Bool
  deriving DecidableEq, Repr

inductive ProvisionAttempt where
  | registered
  | unregistered
  | fold
  deriving DecidableEq, Repr

inductive Phase (n : Nat) where
  | drain
  | completion
  /-- The watermark and failure of the oldest batch were read. -/
  | completing (committedEnd : Nat) (failure : Option CommitFailure)
  | recheck
  | provision
  | swapCheck
  | swap
  | shutdownCheck
  | dispatch
  /-- A window waits for the lanes' byte budgets. -/
  | reserve (appends : List AdmittedAppend) (todo reserved : List (Fin n))
  /-- A window is handed to the lanes. -/
  | send (appends : List AdmittedAppend) (todo represented : List (Fin n))
  | markDue
  | exitCheck
  | wait
  | stopped

/-- The appends that a step of the loop holds. -/
def Phase.inHand {n : Nat} : Phase n → List AdmittedAppend
  | .reserve appends _ _ => appends
  | .send appends _ _ => appends
  | _ => []

structure Engine (n : Nat) where
  -- the admission handle and the command channel
  nextSeqno : Nat
  totalAdmittedBytes : Nat
  /-- A call that waits for its byte permits. -/
  admission : Option AdmittedAppend
  handleOpen : Bool
  channel : List Command
  channelOpen : Bool
  capacity : ActiveSegmentCapacity
  -- the loop
  queue : List Command
  completionBatches : List CompletionBatch
  pendingRecords : Nat
  pendingBytes : Nat
  nextCompletion : Nat
  lastDispatchedAdmissionBytes : Nat
  inputClosed : Bool
  rotation : Rotation
  spareRequested : Option ProvisionAttempt
  spareRetry : Bool
  recheckDue : Bool
  recheckRetry : Bool
  recheckOpen : Bool
  phase : Phase n
  -- the segmented writer
  segments : Nat → SegmentWriter n
  segmentCount : Nat
  activeSegment : Nat
  baseRecordIndex : Nat
  spare : Option PreparedSpare
  directoryRoom : Nat
  -- what an observer sees
  accepted : List RecordFrame
  completions : List (Nat × Except WalError Unit)
  placements : List Placement
  /-- The loop found its own bookkeeping inconsistent. -/
  invariantFailed : Bool

namespace Engine

variable {n : Nat}

def active (e : Engine n) : SegmentWriter n := e.segments e.activeSegment

def setActive (e : Engine n) (writer : SegmentWriter n) : Engine n :=
  { e with segments := Function.update e.segments e.activeSegment writer }

/-- The engine right after recovery handed over an active segment and a spare. A fold that recovery
deferred is carried along, and the spare is then not registered. -/
def init (base room : Nat) (active spare : Fin n → ZoneStart) (recoveredFold : Option PendingSwap) :
    Engine n where
  nextSeqno := base
  totalAdmittedBytes := 0
  admission := none
  handleOpen := true
  channel := []
  channelOpen := true
  capacity := ⟨0, 0, 1 ≤ room⟩
  queue := []
  completionBatches := []
  pendingRecords := 0
  pendingBytes := 0
  nextCompletion := base
  lastDispatchedAdmissionBytes := 0
  inputClosed := false
  rotation := match recoveredFold with
    | none => .idle
    | some swap => .draining swap false false
  spareRequested := none
  spareRetry := false
  recheckDue := false
  recheckRetry := false
  recheckOpen := true
  phase := .drain
  segments i := .create (if i = 0 then active else if i = 1 then spare else fun _ => .absent)
  segmentCount := 2
  activeSegment := 0
  baseRecordIndex := base
  spare := some ⟨1, recoveredFold.isNone⟩
  directoryRoom := room
  accepted := []
  completions := []
  placements := []
  invariantFailed := false

/-- `WalEngine::start`: the engine around a writer whose active segment may already hold committed
records. They count against the ceiling of the segment. -/
def start (base room : Nat) (active : SegmentWriter n) (spare : Option (Fin n → ZoneStart))
    (recoveredFold : Option PendingSwap) : Except ProtocolError (Engine n) :=
  if active.physicalSize ≠ 0 ∧ room < 1 then .error .segmentDirectoryFull
  else
    let fresh := init base room (fun _ => .absent) (spare.getD fun _ => .absent) recoveredFold
    .ok { fresh with
      nextSeqno := base + active.committedLen
      nextCompletion := base + active.committedLen
      capacity := ⟨0, active.physicalSize, 1 ≤ room⟩
      segments := Function.update fresh.segments 0 active
      segmentCount := if spare.isSome then 2 else 1
      spare := if spare.isSome then fresh.spare else none }

def directoryHasRoom (e : Engine n) (entries : Nat) : Bool := entries ≤ e.directoryRoom

def spareReady (e : Engine n) : Bool := e.spare.any (·.registered)

def unregisteredSpareReady (e : Engine n) : Bool := e.spare.any (!·.registered)

def spareWanted (e : Engine n) : Bool := e.spare.isNone

def rotationDue (config : WalEngineConfig) (e : Engine n) : Bool :=
  e.active.committedLen ≠ 0 && !e.active.isPoisoned &&
    config.maxSegmentBytes ≤ e.active.physicalSize && e.directoryHasRoom 2

def markRotationDue (config : WalEngineConfig) (e : Engine n) : Engine n :=
  { e with rotation := e.rotation.markDue (e.rotationDue config) }

/-! ## Completions -/

def failAppends (e : Engine n) (appends : List AdmittedAppend) (error : WalError) : Engine n :=
  { e with completions := e.completions ++ appends.map fun append => (append.seqno, .error error) }

def stopAdmission (e : Engine n) : Engine n :=
  { e with channelOpen := false, queue := e.queue ++ e.channel, channel := [] }

def failAll (e : Engine n) (error : WalError) : Engine n :=
  { e.failAppends (queuedAppends e.queue) error with queue := [] }

def failCompletionBatches (e : Engine n) (error : WalError) : Engine n :=
  { e.failAppends (e.completionBatches.flatMap (·.appends)) error with completionBatches := [] }

def failQueued (e : Engine n) (error : WalError) : Engine n := e.stopAdmission.failAll error

def poison (e : Engine n) : Engine n :=
  (e.stopAdmission.failCompletionBatches (.protocol .poisoned)).failAll (.protocol .poisoned)

/-- The loop ends and its receiver is dropped. -/
def stop (e : Engine n) : Engine n :=
  { e with phase := .stopped, channelOpen := false, channel := [] }

/-- The records that the lanes were given, segment by segment. -/
def handed (e : Engine n) : List RecordFrame :=
  (List.range e.segmentCount).flatMap fun i => (e.segments i).segment.stream

/-- What the future of an admitted append resolves to. The end of the loop drops the senders that it
has not used, and the future of a dropped sender reads `Closed`. -/
def resolution (e : Engine n) (seqno : Nat) : Option (Except WalError Unit) :=
  match e.completions.lookup seqno, e.phase with
  | some result, _ => some result
  | none, .stopped => some (.error .closed)
  | none, _ => none

end Engine

end Chorus
