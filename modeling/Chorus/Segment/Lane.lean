import Chorus.Segment.PackedAppend
import Mathlib.Logic.Function.Basic

/-!
# The runtime of one append lane

A lane receives batches in offset order. It holds them, stages them on its append session in groups,
and retains what it staged until the durable tail has passed it. This module has the parts of
`LaneRuntime` between two calls to the replica; `LaneSystem` puts them together.

Bookkeeping that no decision of the lane reads is left out: byte reservations, and the instants from
which the stall deadline and the diagnostics are computed.
-/

namespace Chorus

/-- End offsets of consecutive chunks, the first of which begins at `start`. -/
def boundariesFrom (start : Nat) : List Bytes → List Nat
  | [] => []
  | chunk :: chunks => (start + chunk.length) :: boundariesFrom (start + chunk.length) chunks

/-- One admitted window, as all lanes see it. -/
structure BatchDescriptor where
  start : Nat
  chunks : List Bytes
  boundaries : List Nat
  boundaries_eq : boundaries = boundariesFrom start chunks
  chunks_ne_nil : chunks ≠ []
  /-- An encoded record has a header. -/
  chunk_ne_nil : ∀ chunk ∈ chunks, chunk ≠ []

namespace BatchDescriptor

theorem boundaries_ne_nil (b : BatchDescriptor) : b.boundaries ≠ [] := by
  obtain ⟨chunk, chunks, h⟩ := List.exists_cons_of_ne_nil b.chunks_ne_nil
  rw [b.boundaries_eq, h]
  exact List.cons_ne_nil _ _

def stop (b : BatchDescriptor) : Nat := b.boundaries.getLast b.boundaries_ne_nil

def size (b : BatchDescriptor) : Nat := b.stop - b.start

def bytes (b : BatchDescriptor) : Bytes := b.chunks.flatten

/-- The window of encoded `records` at `start`. -/
def ofRecords (start : Nat) (records : List RecordFrame) (h : records ≠ []) : BatchDescriptor where
  start := start
  chunks := records.map RecordFrame.chunk
  boundaries := boundariesFrom start (records.map RecordFrame.chunk)
  boundaries_eq := rfl
  chunks_ne_nil := by simpa using h
  chunk_ne_nil := by
    intro chunk hchunk
    obtain ⟨record, -, rfl⟩ := List.mem_map.1 hchunk
    exact List.cons_ne_nil _ _

end BatchDescriptor

/-- The part of a batch descriptor that lanes change: the number of lanes that have not staged the
batch, and the packed groups that begin with it, by their end offsets. -/
structure BatchShared where
  pendingLanes : Nat
  packedGroups : List (Nat × PackedAppend)

/-- The shared part of every batch, by the batch's start offset. -/
abbrev SharedBatches := Nat → BatchShared

def BatchShared.laneStaged (b : BatchShared) : BatchShared where
  pendingLanes := b.pendingLanes - 1
  packedGroups := if b.pendingLanes = 1 then [] else b.packedGroups

/-- One more lane has staged or dropped the batch at `start`. -/
def SharedBatches.laneStaged (shared : SharedBatches) (start : Nat) : SharedBatches :=
  Function.update shared start (shared start).laneStaged

/-- The lane has staged every batch of a group. -/
def SharedBatches.groupStaged (shared : SharedBatches) (group : List BatchDescriptor) :
    SharedBatches :=
  group.foldl (fun shared batch => shared.laneStaged batch.start) shared

def groupStop (first : BatchDescriptor) (rest : List BatchDescriptor) : Nat :=
  ((first :: rest).getLast (List.cons_ne_nil _ _)).stop

/-- The messages of a group of batches: those that some lane has packed already, or new ones, which
the other lanes can then use. -/
def packedGroup (shared : SharedBatches) (first : BatchDescriptor) (rest : List BatchDescriptor) :
    SharedBatches × PackedAppend :=
  let stop := groupStop first rest
  let cell := shared first.start
  match cell.packedGroups.lookup stop with
  | some packed => (shared, packed)
  | none =>
    let packed := packAppend ((first :: rest).flatMap (·.chunks))
    (Function.update shared first.start
      { cell with packedGroups := (stop, packed) :: cell.packedGroups }, packed)

/-- A staged batch and the first of its chunks that is not durable. -/
structure RetainedBatch where
  batch : BatchDescriptor
  nextChunk : Nat

/-- Why a lane stops for good. -/
inductive LaneDeath where
  | stalled
  | transport (error : TransportError)
  deriving DecidableEq, Repr

/-- A durable tail that the session reports, with the error that ended the session if one did. -/
structure LaneDurableChange where
  persistedSize : Nat
  error : Option TransportError
  deriving DecidableEq, Repr

/-- What waiting for the durable tail ends with. -/
inductive LaneProgress where
  | advanced (change : LaneDurableChange)
  | stalled
  | failed (error : TransportError)
  deriving DecidableEq, Repr

def maxOutstandingFlushes : Nat := 2

/-- Held bytes at which a lane without a free flush slot writes what it holds without a flush. -/
def laneUnflushedSendBytes : Nat := 2 ^ 20

structure LaneRuntime where
  durable : Nat
  retained : List RetainedBatch
  /-- Batches received and not yet written to the session. -/
  held : List BatchDescriptor
  heldBytes : Nat
  /-- End offsets of the flushes sent. -/
  flushes : List Nat
  monitorSession : Bool

/-- The first position of a sorted list of boundaries past `durable`. -/
def partitionPoint (durable : Nat) (boundaries : List Nat) : Nat :=
  (boundaries.takeWhile (· ≤ durable)).length

/-- Move the cursors of the retained batches, and release the batches that are durable. -/
def ackThrough (durable : Nat) : List RetainedBatch → List RetainedBatch
  | [] => []
  | r :: retained =>
    let nextChunk := max (partitionPoint durable r.batch.boundaries) r.nextChunk
    if nextChunk = r.batch.chunks.length then ackThrough durable retained
    else { r with nextChunk := nextChunk } :: retained

/-- The inner body of the loop that collects what has to be sent again. The first piece is cut at
the durable offset. -/
def pushSuffix (durable : Nat) (r : RetainedBatch) (suffix : List Bytes) (index : Nat) :
    List Bytes :=
  match r.batch.chunks[index]? with
  | none => suffix
  | some chunk =>
    if suffix = [] then
      let offset := (if index = 0 then none else r.batch.boundaries[index - 1]?).getD r.batch.start
      let skip := durable - offset
      if chunk.length ≤ skip then suffix else suffix ++ [chunk.drop skip]
    else suffix ++ [chunk]

namespace LaneRuntime

def new : LaneRuntime := ⟨0, [], [], 0, [], true⟩

def sentEnd (lane : LaneRuntime) : Nat :=
  max ((lane.retained.getLast?.map (·.batch.stop)).getD lane.durable) lane.durable

def hold (lane : LaneRuntime) (batch : BatchDescriptor) : LaneRuntime :=
  { lane with held := lane.held ++ [batch], heldBytes := lane.heldBytes + batch.size }

def publishLaneProgress (lane : LaneRuntime) (tail : Nat) : LaneRuntime :=
  { lane with durable := max lane.durable tail
              retained := ackThrough (max lane.durable tail) lane.retained }

/-- Publish the durable tail, then say whether the session has to be recovered. -/
def publishAdvance (lane : LaneRuntime) (change : LaneDurableChange) :
    LaneRuntime × Except LaneDeath Bool :=
  (lane.publishLaneProgress change.persistedSize,
    match change.error with
    | none => .ok false
    | some error => if error.code.transient then .ok true else .error (.transport error))

/-- What the last look at the session says once the deadline of a call has passed. -/
def confirmLaneStall : LaneProgress → Except LaneDeath LaneDurableChange
  | .advanced change => .ok change
  | .stalled => .error .stalled
  | .failed error => if error.code.transient then .error .stalled else .error (.transport error)

/-- Whether the lane still needs a recovery after the deadline of a call has passed. -/
def confirmTimeout (lane : LaneRuntime) (observed : LaneProgress) :
    LaneRuntime × Except LaneDeath Bool :=
  match confirmLaneStall observed with
  | .error death => (lane, .error death)
  | .ok change =>
    let r := lane.publishAdvance change
    (r.1, r.2.map fun streamFailed => streamFailed || !r.1.retained.isEmpty)

/-- The chunks that have to be sent again from the durable offset on. -/
def suffix (lane : LaneRuntime) : List Bytes :=
  lane.retained.foldl (fun suffix r =>
    (List.range' r.nextChunk (r.batch.chunks.length - r.nextChunk)).foldl
      (pushSuffix lane.durable r) suffix) []

/-- Drop the flushes at the front that the durable tail covers. -/
def pruneFlushes (lane : LaneRuntime) : LaneRuntime :=
  { lane with flushes := lane.flushes.dropWhile (· ≤ lane.durable) }

/-- The offset through which the session has been told to flush. -/
def flushedThrough (lane : LaneRuntime) : Nat := lane.flushes.getLast?.getD lane.durable

/-- How many of the batches together reach the threshold for an unflushed write, and their bytes. -/
def unflushedCount (bytes : Nat) : List BatchDescriptor → Nat × Nat
  | [] => (0, bytes)
  | batch :: held =>
    if bytes < laneUnflushedSendBytes then
      let r := unflushedCount (bytes + batch.size) held
      (r.1 + 1, r.2)
    else (0, bytes)

end LaneRuntime

end Chorus
