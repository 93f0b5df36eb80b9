import Chorus.Concurrency.Run
import Chorus.Segment.Lane

/-!
# One append lane and its session

`run_lane` as a machine with one state for every point at which the lane waits: at its `select!`, in
a call to the replica, or between two attempts of a recovery. What the lane waits for is an event.
Other events are those around the lane: the writer admits windows, other lanes pack and stage the
same batches, the transport takes bytes of a send in progress, and the service persists bytes.

The service appends what a session was sent to the object, in order, and reports some length that
the object has. A session that is resumed begins at the end of the object: what the session before
it was sent and the service has not persisted is lost. The offset of a send is not looked at.

A call that is cut off by the stall deadline and the look at the session that follows it are one
event.
-/

namespace Chorus

open Concurrency

structure AppendStream where
  object : Bytes
  /-- Bytes that the session was sent and that are not persisted. -/
  queued : Bytes
  /-- Bytes of the send in progress that the session has not taken. -/
  pending : Bytes
  session : Nat
  /-- Offsets of the flushes that the session was sent. -/
  flushed : List Nat

namespace AppendStream

def new : AppendStream := ⟨[], [], [], 0, []⟩

/-- The offset at which the session takes the next byte. -/
def position (st : AppendStream) : Nat := st.object.length + st.queued.length

def resume (st : AppendStream) : AppendStream := ⟨st.object, [], [], st.session + 1, []⟩

/-- A resumption that fails leaves the lane without a session. Where it has reached the service, the
bytes that the old session was sent are lost. -/
def lapse (st : AppendStream) (revoked : Bool) : AppendStream :=
  { st with queued := if revoked then [] else st.queued, flushed := [] }

/-- The send in progress ends, whatever the session has taken of it. -/
def cut (st : AppendStream) : AppendStream := { st with pending := [] }

/-- The session takes bytes of the send in progress. -/
def take (st : AppendStream) (count : Nat) : AppendStream :=
  { st with queued := st.queued ++ st.pending.take count, pending := st.pending.drop count }

/-- The service persists bytes that the session was sent. -/
def persist (st : AppendStream) (count : Nat) : AppendStream :=
  { st with object := st.object ++ st.queued.take count, queued := st.queued.drop count }

def flush (st : AppendStream) (offsets : List Nat) : AppendStream :=
  { st with flushed := st.flushed ++ offsets }

end AppendStream

/-- Which call of the lane a send belongs to. -/
inductive SendOrigin where
  | staged
  /-- A recovery at the given durable offset, after the batches up to `stop` were staged. -/
  | resent (durable stop : Nat)
  deriving DecidableEq, Repr

/-- A send as an observer sees it. -/
structure LaneSend where
  session : Nat
  /-- Where the session stood. -/
  position : Nat
  offset : Nat
  packed : PackedAppend
  flush : Bool
  origin : SendOrigin

def LaneSend.stop (send : LaneSend) : Nat := send.offset + send.packed.content.length

/-- What a recovery returns to. -/
inductive LaneReturn where
  /-- The progress arm, which dispatches next. -/
  | dispatch
  /-- The end of a dispatch. -/
  | dispatched
  /-- The loop that writes held batches without a flush. -/
  | unflushed
  deriving DecidableEq, Repr

inductive LanePoint where
  | select
  | sending (flush : Bool) (stop : Nat)
  | flushing (sentEnd : Nat)
  | resuming (next : LaneReturn)
  | resending (next : LaneReturn) (bytes : Nat)
  | backingOff (next : LaneReturn)
  | ended (death : Option LaneDeath)
  | aborted
  deriving DecidableEq, Repr

def LanePoint.isOver : LanePoint → Bool
  | .ended _ | .aborted => true
  | _ => false

inductive SendOutcome where
  | ok
  | failed (error : TransportError)
  | timedOut (observed : LaneProgress)

inductive ResumeOutcome where
  | ok
  | failed (error : TransportError) (revoked : Bool)
  | timedOut (observed : LaneProgress) (revoked : Bool)

inductive LaneEvent where
  /-- The writer admits a window, which `lanes` lanes are to stage. -/
  | admitWindow (records : List RecordFrame) (lanes : Nat)
  /-- The writer lets go of the lane's work queue. -/
  | dropSender
  | abort
  /-- Another lane packs `count` batches from the one with the given index on. -/
  | otherPacks (index count : Nat)
  | otherStages (index : Nat)
  | take (count : Nat)
  | persist (count : Nat)
  /-- The progress arm. -/
  | progress (observed : LaneProgress)
  /-- The work arm, with a batch and with the end of the queue. -/
  | receive
  | disconnected
  | sent (outcome : SendOutcome)
  | resumed (outcome : ResumeOutcome)
  | slept
  | sleepTimedOut (observed : LaneProgress)

structure LaneSystem where
  lane : LaneRuntime
  point : LanePoint
  closed : Bool
  work : List BatchDescriptor
  senderDropped : Bool
  shared : SharedBatches
  stream : AppendStream
  /-- All windows of the segment. -/
  admitted : List BatchDescriptor
  staged : List BatchDescriptor
  sends : List LaneSend

def batchBytes (batches : List BatchDescriptor) : Bytes := batches.flatMap (·.bytes)

namespace LaneSystem

def init : LaneSystem where
  lane := .new
  point := .select
  closed := false
  work := []
  senderDropped := false
  shared _ := ⟨0, []⟩
  stream := .new
  admitted := []
  staged := []
  sends := []

def bytes (s : LaneSystem) : Bytes := batchBytes s.admitted

/-- End offset of the last batch that was staged. -/
def stagedEnd (s : LaneSystem) : Nat := (s.staged.getLast?.map (·.stop)).getD 0

/-- The head of the loop. -/
def loopTop (s : LaneSystem) : LaneSystem :=
  let done := s.closed && s.lane.retained.isEmpty && s.lane.held.isEmpty
  { s with point := if done then .ended none else .select }

/-- The end of an arm that dispatches; the progress arm has set the flag before. -/
def dispatched (s : LaneSystem) : LaneSystem :=
  loopTop { s with lane := { s.lane with monitorSession := true } }

/-- The lane drops what it retains and what is queued for it. -/
def die (s : LaneSystem) (death : LaneDeath) : LaneSystem :=
  { s with lane := { s.lane with retained := [] }
           work := []
           stream := s.stream.cut
           point := .ended (some death) }

/-- Begin to send `packed` at `offset`. -/
def send (s : LaneSystem) (offset : Nat) (packed : PackedAppend) (flush : Bool)
    (origin : SendOrigin) : LaneSystem :=
  { s with stream := { s.stream with pending := packed.content }
           sends := s.sends ++
             [⟨s.stream.session, s.stream.position, offset, packed, flush, origin⟩] }

/-- Write one group. The batches are retained before the call. -/
def stage (s : LaneSystem) (first : BatchDescriptor) (rest : List BatchDescriptor) (flush : Bool) :
    LaneSystem :=
  let group := first :: rest
  let r := packedGroup s.shared first rest
  let retained := s.lane.retained ++ group.map fun batch => ⟨batch, 0⟩
  let s := { s with lane := { s.lane with retained := retained }
                    shared := r.1.groupStaged group
                    staged := s.staged ++ group
                    point := .sending flush (groupStop first rest) }
  s.send first.start r.2 flush .staged

/-- One round of the loop that writes held batches without a flush. -/
def unflushedRound (s : LaneSystem) : LaneSystem :=
  if laneUnflushedSendBytes ≤ s.lane.heldBytes then
    let r := LaneRuntime.unflushedCount 0 s.lane.held
    match s.lane.held.take r.1 with
    -- the held bytes are those of the held batches, so the group is never empty
    | [] => s.dispatched
    | first :: rest =>
      let lane := { s.lane with held := s.lane.held.drop r.1, heldBytes := s.lane.heldBytes - r.2 }
      stage { s with lane := lane } first rest false
  else s.dispatched

def dispatch (s : LaneSystem) : LaneSystem :=
  let s := { s with lane := s.lane.pruneFlushes }
  if s.lane.flushes.length < maxOutstandingFlushes then
    match s.lane.held with
    | first :: rest =>
      stage { s with lane := { s.lane with held := [], heldBytes := 0 } } first rest true
    | [] =>
      if s.lane.flushedThrough < s.lane.sentEnd then
        { s with point := .flushing s.lane.sentEnd }
      else s.dispatched
  else s.unflushedRound

/-- What runs when a recovery has succeeded. -/
def returnTo (s : LaneSystem) : LaneReturn → LaneSystem
  | .dispatch => dispatch { s with lane := { s.lane with monitorSession := true } }
  | .dispatched => s.dispatched
  | .unflushed => s.unflushedRound

/-- Settle the deadline of a call: stop the lane, or go on by whether a recovery is needed. -/
def confirm (s : LaneSystem) (observed : LaneProgress) (go : LaneSystem → Bool → LaneSystem) :
    LaneSystem :=
  let r := s.lane.confirmTimeout observed
  let s := { s with lane := r.1 }
  match r.2 with
  | .error death => s.die death
  | .ok failed => go s failed

/-- The rest of `stage` and of a data-less flush: note the flush, and recover a failed session. -/
def finishSend (flush : Option Nat) (next : LaneReturn) (s : LaneSystem) (failed : Bool) :
    LaneSystem :=
  let s := { s with lane := { s.lane with flushes := s.lane.flushes ++ flush.toList } }
  if failed then { s with point := .resuming next } else s.returnTo next

/-- Whether a recovery runs again after the deadline of one of its calls. -/
def finishAttempt (next : LaneReturn) (s : LaneSystem) (failed : Bool) : LaneSystem :=
  if failed then { s with point := .resuming next } else s.returnTo next

def failAttempt (s : LaneSystem) (next : LaneReturn) (error : TransportError) : LaneSystem :=
  if error.code.transient then { s with point := .backingOff next } else s.die (.transport error)

def resend (s : LaneSystem) (next : LaneReturn) : LaneSystem :=
  let suffix := s.lane.suffix
  if suffix = [] then
    returnTo { s with lane := { s.lane with flushes := [] } } next
  else
    let packed := packAppend suffix
    let s := { s with point := .resending next packed.len }
    s.send s.lane.durable packed true (.resent s.lane.durable s.stagedEnd)

/-- The session is resumed: publish its tail. -/
def resumeAt (s : LaneSystem) (next : LaneReturn) : LaneSystem :=
  let stream := s.stream.resume
  let lane := s.lane.publishLaneProgress stream.object.length
  resend { s with stream := stream, lane := lane } next

/-- An observation that the session can make: a tail past the one the lane knows, which the object
has. -/
def observable (s : LaneSystem) : LaneProgress → Bool
  | .advanced change =>
    s.lane.durable < change.persistedSize && change.persistedSize ≤ s.stream.object.length
  | _ => true

/-- The end of a call that sends something. -/
def sendDone (s : LaneSystem) (flush : Option Nat) (next : LaneReturn) :
    SendOutcome → Option LaneSystem
  | .ok =>
    if s.stream.pending = [] then
      some (finishSend flush next { s with stream := s.stream.flush flush.toList } false)
    else none
  | .failed _ => some (finishSend flush next { s with stream := s.stream.cut } true)
  | .timedOut observed =>
    if s.observable observed then
      some (confirm { s with stream := s.stream.cut } observed (finishSend flush next))
    else none

/-- The end of the call that sends the missing bytes. -/
def resendDone (s : LaneSystem) (next : LaneReturn) (bytes : Nat) : SendOutcome → Option LaneSystem
  | .ok =>
    if s.stream.pending = [] then
      let stop := s.lane.durable + bytes
      some (returnTo { s with lane := { s.lane with flushes := [stop] }
                              stream := s.stream.flush [stop] } next)
    else none
  | .failed error => some (failAttempt { s with stream := s.stream.cut } next error)
  | .timedOut observed =>
    if s.observable observed then
      some (confirm { s with stream := s.stream.cut } observed (finishAttempt next))
    else none

def resumeDone (s : LaneSystem) (next : LaneReturn) : ResumeOutcome → Option LaneSystem
  | .ok => some (s.resumeAt next)
  | .failed error revoked =>
    some (failAttempt { s with stream := s.stream.lapse revoked } next error)
  | .timedOut observed revoked =>
    if s.observable observed then
      some (confirm { s with stream := s.stream.lapse revoked } observed (finishAttempt next))
    else none

def progressArm (s : LaneSystem) : LaneProgress → LaneSystem
  | .advanced change =>
    let r := s.lane.publishAdvance change
    let s := { s with lane := r.1 }
    match r.2 with
    | .ok false => s.returnTo .dispatch
    | .ok true => { s with point := .resuming .dispatch }
    | .error death => s.die death
  | .stalled => s.die .stalled
  | .failed error =>
    if error.code.transient then
      let s := { s with lane := { s.lane with monitorSession := false } }
      if s.lane.retained.isEmpty && s.lane.held.isEmpty then s.loopTop
      else { s with point := .resuming .dispatch }
    else s.die (.transport error)

/-- Whether the progress arm can end with an observation. Without retained batches there is no stall
deadline. -/
def progressEnabled (s : LaneSystem) (observed : LaneProgress) : Bool :=
  (s.lane.monitorSession || !s.lane.retained.isEmpty) && s.observable observed &&
    !(observed == .stalled && s.lane.retained.isEmpty)

/-- A window is admitted, and queued for the lane unless it is over. -/
def admitWindow (s : LaneSystem) (batch : BatchDescriptor) (lanes : Nat) : LaneSystem :=
  { s with admitted := s.admitted ++ [batch]
           work := if s.point.isOver then s.work else s.work ++ [batch]
           shared := Function.update s.shared batch.start ⟨lanes, []⟩ }

def environment (s : LaneSystem) : LaneEvent → Option LaneSystem
  | .admitWindow records lanes =>
    if h : records ≠ [] ∧ s.senderDropped = false then
      some (s.admitWindow (.ofRecords s.bytes.length records h.1) lanes)
    else none
  | .dropSender => some { s with senderDropped := true }
  | .otherPacks index count =>
    match (s.admitted.drop index).take count with
    | [] => none
    | first :: rest => some { s with shared := (packedGroup s.shared first rest).1 }
  | .otherStages index =>
    s.admitted[index]?.map fun batch => { s with shared := s.shared.laneStaged batch.start }
  | .take count =>
    if count ≤ s.stream.pending.length then some { s with stream := s.stream.take count } else none
  | .persist count =>
    if count ≤ s.stream.queued.length then some { s with stream := s.stream.persist count }
    else none
  | _ => none

/-- What the lane waits for at its point. -/
def laneStep (s : LaneSystem) (e : LaneEvent) : Option LaneSystem :=
  match s.point, e with
  | .select, .progress observed =>
    if s.progressEnabled observed then some (s.progressArm observed) else none
  | .select, .receive =>
    -- the queue is drained up to its length at this moment
    if s.closed = false ∧ s.work ≠ [] then
      some (dispatch { s with lane := s.work.foldl LaneRuntime.hold s.lane, work := [] })
    else none
  | .select, .disconnected =>
    if s.closed = false ∧ s.work = [] ∧ s.senderDropped then
      some (loopTop { s with closed := true })
    else none
  | .sending flush stop, .sent outcome =>
    if flush then s.sendDone (some stop) .dispatched outcome else s.sendDone none .unflushed outcome
  | .flushing sentEnd, .sent outcome => s.sendDone (some sentEnd) .dispatched outcome
  | .resuming next, .resumed outcome => s.resumeDone next outcome
  | .resending next bytes, .sent outcome => s.resendDone next bytes outcome
  | .backingOff next, .slept => some { s with point := .resuming next }
  | .backingOff next, .sleepTimedOut observed =>
    if s.observable observed then some (s.confirm observed (finishAttempt next)) else none
  | point, .abort =>
    if point.isOver then none else some { s with point := .aborted, stream := s.stream.cut }
  | _, _ => none

def step (s : LaneSystem) (e : LaneEvent) : Option LaneSystem :=
  match s.environment e with
  | some s' => some s'
  | none => s.laneStep e

end LaneSystem

/-! ## Answers in the middle of an unflushed write -/

def LaneProgress.tail? : LaneProgress → Option Nat
  | .advanced change => some change.persistedSize
  | _ => none

/-- The lane is in the loop that writes held batches without a flush. -/
def LanePoint.writesUnflushed : LanePoint → Bool
  | .sending false _ | .resuming .unflushed | .resending .unflushed _
  | .backingOff .unflushed => true
  | _ => false

namespace LaneSystem

/-- The durable tail that the lane learns from the end of a call. -/
def reported (s : LaneSystem) : LaneEvent → Option Nat
  | .sent (.timedOut observed) | .resumed (.timedOut observed _) | .sleepTimedOut observed =>
    observed.tail?
  | .resumed .ok => some s.stream.object.length
  | _ => none

/-- While the lane writes held batches without a flush and holds more of them, no call tells it that
everything it has sent is durable. -/
def LeavesUnflushed (s : LaneSystem) (e : LaneEvent) : Prop :=
  s.point.writesUnflushed = true → s.lane.held ≠ [] → ∀ tail ∈ s.reported e, tail < s.lane.sentEnd

instance (s : LaneSystem) (e : LaneEvent) : Decidable (s.LeavesUnflushed e) :=
  inferInstanceAs (Decidable (_ → _ → _))

end LaneSystem

end Chorus
