import Chorus.Segment.Selection

/-!
# The commit watermark of one segment

Lanes publish monotonic byte offsets. The tracker resolves the offset that a quorum of lanes has
reached against the boundaries of the admitted records and moves one contiguous record watermark.
Every change of the watermark or of the failure is broadcast, so what subscribers see is `snapshot`.
-/

namespace Chorus

open Quorum

inductive CommitFailure where
  | poisoned
  | fenced (error : TransportError)
  | transport (error : TransportError)
  deriving DecidableEq, Repr

def CommitFailure.protocolError : CommitFailure → ProtocolError
  | .poisoned => .poisoned
  | .fenced error => .fenced (.stream error)
  | .transport error => .transport error

/-- The commit state of one lane. A lane that was never activated counts as finished. -/
structure LaneCommitState where
  durable : Nat := 0
  representedEnd : Nat := 0
  finished : Bool := true
  error : Option TransportError := none
  deriving DecidableEq, Repr

/-- The lane's task has ended, with the error that ended it. -/
def LaneCommitState.finish (lane : LaneCommitState) (error : Option TransportError) :
    LaneCommitState where
  durable := lane.durable
  representedEnd := lane.representedEnd
  finished := true
  error := if error.isSome then error else lane.error

structure CommitSnapshot where
  committed : Nat
  failure : Option CommitFailure
  deriving DecidableEq, Repr

/-- Segment-scoped aggregation of lane durability. -/
structure CommitTracker (n : Nat) where
  /-- End offsets of the admitted records that are not committed yet. -/
  boundaries : List Nat
  admitted : Nat
  committed : Nat
  committedBytes : Nat
  failure : Option CommitFailure
  lanes : Fin n → LaneCommitState

variable {n : Nat}

/-- The offset that a quorum of lanes has reached. -/
def quorumDurableWatermark (lanes : Fin n → LaneCommitState) (quorum : Nat) : Nat :=
  (kthLargest quorum (collect fun zone => some (lanes zone).durable)).getD 0

def preferLowerZone (current : Option TransportError) (candidate : TransportError) :
    Option TransportError :=
  match current with
  | none => some candidate
  | some existing => if candidate.zone < existing.zone then some candidate else some existing

/-- Among the lanes that were to carry the boundary, a fence wins over another terminal error. -/
def selectCommitFailure (lanes : Fin n → LaneCommitState) (boundary : Nat) : CommitFailure :=
  let errors := collect fun zone =>
    if boundary ≤ (lanes zone).representedEnd then (lanes zone).error else none
  let fenced := (errors.filter (·.code.fencesWriter)).foldl preferLowerZone none
  let terminal := (errors.filter fun error =>
    !error.code.fencesWriter && !error.code.transient).foldl preferLowerZone none
  match fenced, terminal with
  | some error, _ => .fenced error
  | none, some error => .transport error
  | none, none => .poisoned

namespace CommitTracker

def new : CommitTracker n := ⟨[], 0, 0, 0, none, fun _ => {}⟩

def snapshot (t : CommitTracker n) : CommitSnapshot := ⟨t.committed, t.failure⟩

def setLane (t : CommitTracker n) (zone : Fin n) (lane : LaneCommitState) : CommitTracker n :=
  { t with lanes := Function.update t.lanes zone lane }

def activateLane (t : CommitTracker n) (zone : Fin n) (durable : Nat) : CommitTracker n :=
  t.setLane zone { t.lanes zone with durable := durable, finished := false }

/-- Move the watermark over the boundaries that a quorum has reached. -/
def resolve (t : CommitTracker n) : CommitTracker n :=
  let watermark := quorumDurableWatermark t.lanes (majority n)
  let resolved := t.boundaries.takeWhile (· ≤ watermark)
  { t with
    boundaries := t.boundaries.dropWhile (· ≤ watermark)
    committed := t.committed + resolved.length
    committedBytes := resolved.getLast?.getD t.committedBytes }

/-- Fail once the oldest boundary can no longer reach a quorum. -/
def checkPossible (t : CommitTracker n) : CommitTracker n :=
  match t.boundaries with
  | [] => t
  | oldest :: _ =>
    let possible := (List.finRange n).countP fun zone =>
      oldest ≤ (t.lanes zone).durable ||
        (!(t.lanes zone).finished && oldest ≤ (t.lanes zone).representedEnd)
    if possible < majority n then { t with failure := some (selectCommitFailure t.lanes oldest) }
    else t

def recompute (t : CommitTracker n) : CommitTracker n :=
  if t.failure.isSome then t else t.resolve.checkPossible

def admitWindow (t : CommitTracker n) (boundaries : List Nat) (representedZones : List (Fin n)) :
    CommitTracker n :=
  let windowEnd := boundaries.getLast?.getD 0
  recompute { t with
    admitted := t.admitted + boundaries.length
    boundaries := t.boundaries ++ boundaries
    lanes := fun zone =>
      if zone ∈ representedZones then
        { t.lanes zone with representedEnd := max (t.lanes zone).representedEnd windowEnd }
      else t.lanes zone }

def publishDurable (t : CommitTracker n) (zone : Fin n) (durable : Nat) : CommitTracker n :=
  if durable ≤ (t.lanes zone).durable then t
  else (t.setLane zone { t.lanes zone with durable := durable }).recompute

def finishLane (t : CommitTracker n) (zone : Fin n) (error : Option TransportError) :
    CommitTracker n :=
  let t := t.setLane zone ((t.lanes zone).finish error)
  match error.filter (·.code.fencesWriter) with
  | some fence => if t.failure.isNone then { t with failure := some (.fenced fence) } else t
  | none => t.recompute

def poison (t : CommitTracker n) : CommitTracker n :=
  if t.failure.isNone then { t with failure := some .poisoned } else t

end CommitTracker

end Chorus
