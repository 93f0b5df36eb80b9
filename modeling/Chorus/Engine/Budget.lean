import Chorus.Engine.System
import Chorus.Segment.Lane

/-!
# Byte budgets

Three budgets count the bytes on their way to storage, and each counts something else. An append
holds in-flight permits for itself from its admission to its completion. The pipeline window counts
the records that were dispatched and have not completed. A lane reserves the bytes of a whole batch
and gives them back when the whole batch is durable.
-/

namespace Chorus

open RecordFrame

/-! ## Limits -/

/-- What `WalEngineConfig::validate` finds wrong. -/
inductive ConfigFault where
  | queueCapacityZero
  | pipelineWindowZero
  | maxInflightZero
  | maxReplicaLagZero
  | replicaLagBelowInflight
  | laneStallTimeoutZero
  | inflightPermits
  | queuePermits
  | maxSegmentZero
  | maxActiveSegmentZero
  | activeBelowSegment
  | repairIntervalZero
  | shutdownTimeoutZero
  deriving DecidableEq, Repr

def ConfigFault.text : ConfigFault → String
  | .queueCapacityZero => "queue_capacity_bytes must be nonzero"
  | .pipelineWindowZero => "pipeline_window_bytes must be nonzero"
  | .maxInflightZero => "max_inflight_bytes must be nonzero"
  | .maxReplicaLagZero => "max_replica_lag_bytes must be nonzero"
  | .replicaLagBelowInflight => "max_replica_lag_bytes must be at least max_inflight_bytes"
  | .laneStallTimeoutZero => "lane_stall_timeout must be nonzero"
  | .inflightPermits => "max_inflight_bytes exceeds the semaphore limit"
  | .queuePermits => "queue_capacity_bytes exceeds the semaphore limit"
  | .maxSegmentZero => "max_segment_bytes must be nonzero"
  | .maxActiveSegmentZero => "max_active_segment_bytes must be nonzero"
  | .activeBelowSegment => "max_active_segment_bytes must be at least max_segment_bytes"
  | .repairIntervalZero => "repair_interval must be nonzero"
  | .shutdownTimeoutZero => "shutdown_timeout must be nonzero"

/-- The number of permits that a semaphore can hold on a 64-bit machine. -/
def maxPermits : Nat := (2 ^ 64 - 1) / 2 ^ 3

/-- The limits of an engine with its byte budgets. Times are in nanoseconds. -/
structure EngineLimits extends WalEngineConfig where
  queueCapacityBytes : Nat
  maxInflightBytes : Nat
  maxReplicaLagBytes : Nat
  laneStallTimeout : Nat
  repairInterval : Option Nat
  shutdownTimeout : Nat
  deriving DecidableEq, Repr

def EngineLimits.validate (limits : EngineLimits) : Except ConfigFault Unit := do
  failIf (limits.queueCapacityBytes = 0) .queueCapacityZero
  failIf (limits.pipelineWindowBytes = 0) .pipelineWindowZero
  failIf (limits.maxInflightBytes = 0) .maxInflightZero
  failIf (limits.maxReplicaLagBytes = 0) .maxReplicaLagZero
  failIf (limits.maxReplicaLagBytes < limits.maxInflightBytes) .replicaLagBelowInflight
  failIf (limits.laneStallTimeout = 0) .laneStallTimeoutZero
  failIf (maxPermits < limits.maxInflightBytes) .inflightPermits
  failIf (maxPermits < limits.queueCapacityBytes) .queuePermits
  failIf (limits.maxSegmentBytes = 0) .maxSegmentZero
  failIf (limits.maxActiveSegmentBytes = 0) .maxActiveSegmentZero
  failIf (limits.maxActiveSegmentBytes < limits.maxSegmentBytes) .activeBelowSegment
  failIf (limits.repairInterval = some 0) .repairIntervalZero
  failIf (limits.shutdownTimeout = 0) .shutdownTimeoutZero

/-! ## The budget of a lane -/

inductive LaneCharge where
  | ordinary (bytes : Nat)
  | oversized
  deriving DecidableEq, Repr

/-- Ordinary bytes and the single oversized record have independent budgets. -/
structure LaneBudget where
  limit : Nat
  outstanding : Nat
  oversized : Bool
  deriving DecidableEq, Repr

namespace LaneBudget

/-- Reserve a batch. A record that is larger than the budget goes alone. -/
def tryReserve (budget : LaneBudget) (bytes : Nat) (oversizedRecord : Bool) :
    Option (LaneBudget × LaneCharge) :=
  if budget.limit < bytes then
    if !oversizedRecord || budget.oversized then none
    else some ({ budget with oversized := true }, .oversized)
  else
    -- a sum that overflows is past the limit as well
    let next := budget.outstanding + bytes
    if budget.limit < next then none
    else some ({ budget with outstanding := next }, .ordinary bytes)

/-- A reservation is dropped. -/
def release (budget : LaneBudget) : LaneCharge → LaneBudget
  | .ordinary bytes => { budget with outstanding := budget.outstanding - bytes }
  | .oversized => { budget with oversized := false }

end LaneBudget

/-- A batch that a lane holds, with the reservation for its bytes. -/
structure ReservedBatch extends RetainedBatch where
  charge : LaneCharge

/-- A lane with the batches it holds, those in its work channel included. -/
structure BudgetedLane where
  budget : LaneBudget
  retained : List ReservedBatch
  durable : Nat
  /-- The reservation for the window that is being handed out. -/
  reservation : Option LaneCharge
  /-- The bytes that the lane was given. -/
  sent : Nat

namespace BudgetedLane

def new (limit : Nat) : BudgetedLane := ⟨⟨limit, 0, false⟩, [], 0, none, 0⟩

def reserve (lane : BudgetedLane) (bytes : Nat) (oversizedRecord : Bool) : BudgetedLane :=
  match lane.budget.tryReserve bytes oversizedRecord with
  | none => lane
  | some (budget, charge) => { lane with budget := budget, reservation := some charge }

def dropReservation (lane : BudgetedLane) : BudgetedLane :=
  match lane.reservation with
  | none => lane
  | some charge => { lane with budget := lane.budget.release charge, reservation := none }

def send (lane : BudgetedLane) (batch : BatchDescriptor) : BudgetedLane :=
  match lane.reservation with
  | none => lane
  | some charge =>
    { lane with
      retained := lane.retained ++ [⟨⟨batch, 0⟩, charge⟩]
      reservation := none
      sent := batch.stop }

/-- Advance each batch's cursor and drop the batches that are fully durable with their
reservations. -/
def ackThrough (durable : Nat) (budget : LaneBudget) :
    List ReservedBatch → LaneBudget × List ReservedBatch
  | [] => (budget, [])
  | r :: retained =>
    let nextChunk := max (partitionPoint durable r.batch.boundaries) r.nextChunk
    if nextChunk = r.batch.chunks.length then ackThrough durable (budget.release r.charge) retained
    else (budget, { r with nextChunk := nextChunk } :: retained)

/-- The lane learns of a durable tail. -/
def publishLaneProgress (lane : BudgetedLane) (tail : Nat) : BudgetedLane :=
  let acked := ackThrough (max lane.durable tail) lane.budget lane.retained
  { lane with durable := max lane.durable tail, budget := acked.1, retained := acked.2 }

/-- The lane's task has ended and drops what it holds. -/
def clear (lane : BudgetedLane) : BudgetedLane :=
  { lane with
    budget := lane.retained.foldl (fun budget r => budget.release r.charge) lane.budget
    retained := [] }

end BudgetedLane

/-! ## The engine under its budgets -/

/-- The appends that hold in-flight permits. -/
def Engine.heldAppends {n : Nat} (e : Engine n) : List AdmittedAppend :=
  e.completionBatches.flatMap CompletionBatch.appends ++ e.phase.inHand ++ queuedAppends e.queue ++
    queuedAppends e.channel

/-- The appends that hold queue permits. -/
def Engine.queuedHeld {n : Nat} (e : Engine n) : List AdmittedAppend :=
  e.phase.inHand ++ queuedAppends e.queue ++ queuedAppends e.channel

/-- An append takes its encoded bytes from a budget, or the whole budget if it is larger. -/
def AdmittedAppend.permits (budget : Nat) (append : AdmittedAppend) : Nat :=
  min append.encodedBytes budget

/-- How the reservation of the current window went in one zone. -/
structure LaneVerdict (n : Nat) where
  zone : Fin n
  /-- The writer had a lane there, and its durable offset was at or past the committed bytes. -/
  caughtUp : Bool
  reserved : Bool
  deriving DecidableEq, Repr

structure BudgetedEngine (n : Nat) where
  engine : Engine n
  lanes : Nat → Fin n → BudgetedLane
  /-- What an observer sees: the verdicts on the lanes for the latest window. -/
  verdicts : List (LaneVerdict n)

namespace BudgetedEngine

variable {n : Nat}

inductive Action (n : Nat) where
  | engine (action : Engine.Action n)
  /-- The task of a lane that has finished drops what it holds. -/
  | clearLane (i : Nat) (zone : Fin n)

def init (limits : EngineLimits) (base room : Nat) (active spare : Fin n → ZoneStart)
    (recoveredFold : Option PendingSwap) : BudgetedEngine n :=
  ⟨.init base room active spare recoveredFold, fun _ _ => .new limits.maxReplicaLagBytes, []⟩

def lane (s : BudgetedEngine n) (zone : Fin n) : BudgetedLane := s.lanes s.engine.activeSegment zone

def setLane (s : BudgetedEngine n) (i : Nat) (zone : Fin n) (lane : BudgetedLane) :
    Nat → Fin n → BudgetedLane :=
  Function.update s.lanes i (Function.update (s.lanes i) zone lane)

def caughtUp (s : BudgetedEngine n) (zone : Fin n) : Bool :=
  s.engine.active.physicalSize ≤ (s.lane zone).durable

def admits (limits : EngineLimits) (s : BudgetedEngine n) (append : AdmittedAppend) : Bool :=
  (s.engine.heldAppends.map (·.permits limits.maxInflightBytes)).sum +
      append.permits limits.maxInflightBytes ≤ limits.maxInflightBytes &&
    (s.engine.queuedHeld.map (·.permits limits.queueCapacityBytes)).sum +
      append.permits limits.queueCapacityBytes ≤ limits.queueCapacityBytes

def windowBytes (appends : List AdmittedAppend) : Nat :=
  (appends.map AdmittedAppend.encodedBytes).sum

def fits (s : BudgetedEngine n) (appends : List AdmittedAppend) (zone : Fin n) : Bool :=
  ((s.lane zone).budget.tryReserve (windowBytes appends) (appends.length = 1)).isSome

/-- What the budgets allow. -/
def permitted (limits : EngineLimits) (s : BudgetedEngine n) : Engine.Action n → Bool
  | .sendAppend => s.engine.admission.all (s.admits limits)
  | .reserveLane answer =>
    match s.engine.phase with
    | .reserve appends (zone :: _) _ => answer == s.fits appends zone
    | _ => true
  | .segment i (.persist zone length) => length ≤ (s.lanes i zone).sent
  | .segment i (.publishDurable zone durable) => durable ≤ (s.lanes i zone).sent
  | _ => true

/-- The window is given up with its reservations. -/
def dropReservations (s : BudgetedEngine n) : Nat → Fin n → BudgetedLane :=
  Function.update s.lanes s.engine.activeSegment fun zone => (s.lane zone).dropReservation

/-- The window goes to a lane. It has joined the stream by then, so it ends at the end of the
stream. -/
def sendBatch (s : BudgetedEngine n) (zone : Fin n) (records : List RecordFrame) : BudgetedLane :=
  if h : records ≠ [] then
    let start := (streamBytes s.engine.active.segment.stream).length - (streamBytes records).length
    (s.lane zone).send (.ofRecords start records h)
  else s.lane zone

/-- How the lanes move with the engine. -/
def lanesAfter (s : BudgetedEngine n) : Engine.Action n → Nat → Fin n → BudgetedLane
  | .reserveLane _ =>
    match s.engine.phase with
    | .reserve appends (zone :: _) _ =>
      if s.engine.active.lanes zone then
        s.setLane s.engine.activeSegment zone
          ((s.lane zone).reserve (windowBytes appends) (appends.length = 1))
      else s.lanes
    | .reserve _ [] zones => if zones.length < majority n then s.dropReservations else s.lanes
    | _ => s.lanes
  | .sendLane sent =>
    match s.engine.phase with
    | .send appends (zone :: _) _ =>
      s.setLane s.engine.activeSegment zone
        (if sent then s.sendBatch zone (appends.map AdmittedAppend.record)
        else (s.lane zone).dropReservation)
    | _ => s.lanes
  | .segment i (.publishDurable zone durable) =>
      s.setLane i zone ((s.lanes i zone).publishLaneProgress durable)
  | .abort => s.dropReservations
  | _ => s.lanes

def verdictsAfter (s : BudgetedEngine n) : Engine.Action n → List (LaneVerdict n)
  | .window => []
  | .reserveLane answer =>
    match s.engine.phase with
    | .reserve _ (zone :: _) _ =>
      let present := s.engine.active.lanes zone
      s.verdicts ++ [⟨zone, present && s.caughtUp zone, present && answer⟩]
    | _ => s.verdicts
  | _ => s.verdicts

def step (crc : Bytes → Nat) (limits : EngineLimits) (s : BudgetedEngine n) :
    Action n → Option (BudgetedEngine n)
  | .engine action =>
    if s.permitted limits action then
      (s.engine.step crc limits.toWalEngineConfig action).map fun engine =>
        ⟨engine, s.lanesAfter action, s.verdictsAfter action⟩
    else none
  | .clearLane i zone =>
    if ((s.engine.segments i).segment.commits.lanes zone).finished then
      some { s with lanes := s.setLane i zone (s.lanes i zone).clear }
    else none

end BudgetedEngine

end Chorus
