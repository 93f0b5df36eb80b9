import Chorus.Engine.System
import Chorus.SlateDb.Observer

/-!
# The writer and the coordinator of the SlateDB adapter

The writer numbers its batches itself and hands each one to the coordinator with the index and the
position that it computed. The coordinator owns the engine's handle: at its select point it takes
one request at a time, polls the engine with it until it is admitted or its caller is gone, and
passes the completion ticket to the task that resolves tickets in order. A caller may drop its call
at any of its waits.
-/

namespace Chorus.SlateDb

/-- A batch on its way to the engine. The number of the call stands for the reply channel. -/
structure AppendRequest where
  call : Nat
  index : Nat
  bytes : Bytes
  position : Position
  deriving DecidableEq, Repr

/-- A successful reply carries an `Admission`, whose drop fails the adapter. A dropped reply channel
reads as `Closed`. -/
inductive CallStage where
  /-- Waiting for room in the channel. -/
  | sending
  | waiting
  /-- The reply is there, but not read. -/
  | answered (result : Except WalError Unit)
  deriving DecidableEq

structure AppendCall where
  request : AppendRequest
  stage : CallStage
  deriving DecidableEq

inductive WriterHandle where
  /-- Replay has not handed the engine over. -/
  | replaying
  | ready
  | started
  | gone
  deriving DecidableEq, Repr

structure Writer where
  handle : WriterHandle
  /-- The writer fails through the shared progress. -/
  progressHeld : Bool
  nextIndex : Nat
  lastAdmittedSeq : Option UInt64
  totalRows : Nat
  call : Option AppendCall
  /-- A log of the requests that the writer has computed, by the number of their call. -/
  calls : List AppendRequest

namespace Writer

def new (nextIndex : Nat) : Writer where
  handle := .replaying
  progressHeld := false
  nextIndex := nextIndex
  lastAdmittedSeq := none
  totalRows := 0
  call := none
  calls := []

def u128Limit : Nat := 2 ^ 128

/-- The checks of `append_inner` before it needs the engine. The result is the payload and the
sequence number of the batch. -/
def checkBatch (w : Writer) (o : Observer) (rows : List RowEntry) :
    Except WalError (Bytes × UInt64) := do
  let status ← o.status
  match encode rows maxPayloadBytes, rows with
  | .error fault, _ => .error (.adapter (.batch fault))
  | .ok _, [] => .error (.adapter (.batch .empty))
  | .ok payload, first :: _ =>
    failIf ((w.lastAdmittedSeq.or status.lastFlushedSeq).any (first.seq ≤ ·))
      (.adapter .batchSequence)
    failIf (u64Limit ≤ w.nextIndex + 2) (.adapter .walIdsExhausted)
    return (payload, first.seq)

/-- The request of a batch; `receives` says whether the notification task still runs. -/
def request (w : Writer) (receives : Bool) (rows : List RowEntry) (payload : Bytes) (seq : UInt64) :
    Except WalError AppendRequest := do
  failIf (receives = false) (.adapter .notificationStopped)
  let totalRows := w.totalRows + rows.length
  failIf (u128Limit ≤ totalRows) (.adapter .rowCount)
  return ⟨w.calls.length, w.nextIndex, payload, ⟨w.nextIndex + 1, seq, totalRows⟩⟩

def beginCall (w : Writer) (request : AppendRequest) : Writer :=
  { w with call := some ⟨request, .sending⟩, calls := w.calls ++ [request] }

/-- The call has returned `Ok`. -/
def recordAdmission (w : Writer) (request : AppendRequest) : Writer :=
  { w with
    call := none
    nextIndex := w.nextIndex + 1
    lastAdmittedSeq := some request.position.seq
    totalRows := request.position.totalRows }

/-- The caller still waits for the reply of a request. -/
def awaits (w : Writer) (request : AppendRequest) : Bool :=
  w.call.any fun call => call.stage = .waiting && call.request.call = request.call

/-- A successful reply is there, but not read. -/
def holdsAdmission (w : Writer) : Bool := w.call.any (·.stage = .answered (.ok ()))

def unread (w : Writer) : Bool :=
  match w.call with
  | some ⟨_, .answered _⟩ => true
  | _ => false

end Writer

/-- The point that the coordinator has reached. -/
inductive CoordinatorPhase where
  | select
  /-- The engine has answered; the ticket is named by its sequence number. -/
  | admitted (request : AppendRequest) (result : Except Chorus.WalError Nat)
  | replying (request : AppendRequest) (result : Except WalError Unit)
  | stopping
  | stopped
  deriving DecidableEq

def CoordinatorPhase.request? : CoordinatorPhase → Option AppendRequest
  | .admitted request _ => some request
  | .replying request _ => some request
  | _ => none

structure Coordinator where
  phase : CoordinatorPhase
  /-- The append channel holds one request. -/
  queued : Option AppendRequest
  pending : Option AppendRequest
  /-- The tickets that were not resolved yet, with the positions of their batches. -/
  tickets : List (Nat × Position)
  /-- The floors of the collections that wait, and the one that runs. -/
  collections : List Nat
  collection : Option Nat
  stopping : Option Bool
  recoveredEnd : Nat

namespace Coordinator

def start (recoveredEnd : Nat) : Coordinator where
  phase := .select
  queued := none
  pending := none
  tickets := []
  collections := []
  collection := none
  stopping := none
  recoveredEnd := recoveredEnd

def requests (c : Coordinator) : List AppendRequest :=
  c.phase.request?.toList ++ c.pending.toList ++ c.queued.toList

/-- `Event::Append`: an append is refused once the adapter has failed. -/
def receive (c : Coordinator) (progress : Progress) : Option Coordinator :=
  match c.phase, c.pending, c.queued with
  | .select, none, some request =>
    match progress.failure with
    | some error => some { c with queued := none, phase := .replying request (.error error) }
    | none => some { c with queued := none, pending := some request }
  | _, _, _ => none

/-- The ticket of an admitted batch goes to the task that resolves it. -/
def issueTicket (c : Coordinator) : Option Coordinator :=
  match c.phase with
  | .admitted request (.error error) =>
    some { c with phase := .replying request (.error (walError error)) }
  | .admitted request (.ok seqno) => some { c with
      phase := .replying request (.ok ())
      tickets := c.tickets ++ [(seqno, request.position)] }
  | _ => none

/-- `Event::Collect`. -/
def beginCollection (c : Coordinator) (progress : Progress) : Option Coordinator :=
  match c.phase, c.collection, c.collections with
  | .select, none, floor :: collections => some { c with
      collections := collections
      collection := some (progress.clampFloor c.recoveredEnd floor) }
  | _, _, _ => none

def collected (c : Coordinator) : Option Coordinator :=
  match c.phase, c.collection with
  | .select, some _ => some { c with collection := none }
  | _, _ => none

end Coordinator

end Chorus.SlateDb
