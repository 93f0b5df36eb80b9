import Chorus.Maintenance.System
import Chorus.SlateDb.Progress

/-!
# Garbage collection through the SlateDB adapter

SlateDB hands the collector the ranges of WAL ids that are still referenced. The collector keeps
everything from the first referenced record on (`retainFrom`); the coordinator lowers that floor to
the end of what is known to be committed and truncates there, one collection after another.

`GcSystem` is the adapter of one process among all maintenance tasks and all uses of the register.
The commits, the collections and the steps of a truncation interleave freely. Its last fields are a
log: the collections that were begun, and the deletes that each one has issued.
-/

namespace Chorus.SlateDb

open Concurrency

inductive Bound where
  | included (id : UInt64)
  | excluded (id : UInt64)
  | unbounded
  deriving DecidableEq, Repr

namespace Bound

def admitsFrom : Bound → UInt64 → Bool
  | .included first, id => first ≤ id
  | .excluded before, id => before < id
  | .unbounded, _ => true

def admitsTo : Bound → UInt64 → Bool
  | .included last, id => id ≤ last
  | .excluded stop, id => id < stop
  | .unbounded, _ => true

/-- The first WAL id that a start admits. -/
def first : Bound → Option Nat
  | .included id => some id.toNat
  | .excluded id => checkedAdd id.toNat 1
  | .unbounded => some 0

/-- The ids from the given one to the end are not empty. -/
def reaches : Bound → Nat → Bool
  | .included last, id => id ≤ last.toNat
  | .excluded stop, id => id < stop.toNat
  | .unbounded, _ => true

end Bound

structure WalFileRange where
  start : Bound
  stop : Bound
  deriving DecidableEq, Repr

namespace WalFileRange

def contains (range : WalFileRange) (id : UInt64) : Bool :=
  range.start.admitsFrom id && range.stop.admitsTo id

/-- The first record index that the range protects, if it is not empty. -/
def retained (range : WalFileRange) : Option Nat :=
  range.start.first.bind fun first => if range.stop.reaches first then some (first - 1) else none

end WalFileRange

/-- The first record index that any range protects. -/
def retainFrom (ranges : List WalFileRange) : Nat :=
  (ranges.filterMap WalFileRange.retained).min?.getD (u64Limit - 1)

/-- A call of `collect` on its way to the coordinator. -/
structure CollectRequest where
  ranges : List WalFileRange
  floor : Nat
  deriving DecidableEq, Repr

/-- A collection that the coordinator has begun: the ranges it was asked to keep, the number of
records known to be committed and the number reported durable at that moment, and the floor it hands
to `truncate_before`. -/
structure CollectCall where
  ranges : List WalFileRange
  committedEnd : Nat
  durable : Nat
  floor : Nat
  deriving DecidableEq, Repr

/-- A running truncation and the manifest handle that it works through. -/
structure Collection (n : Nat) where
  call : CollectCall
  handle : Nat
  pass : MaintenanceProg n (List SegmentDescriptor × Nat × Except MaintenanceError TruncationReport)

structure GcSystem (n : Nat) where
  maintenance : MaintenanceSystem n
  /-- The claim of the adapter's process, once it has started. -/
  claim : Option WriterClaim
  recoveredEnd : Nat
  progress : Progress
  requests : List CollectRequest
  collection : Option (Collection n)
  checkpointFloor : Nat
  /-- The number of records that recovery or a receipt has reported durable. -/
  durable : Nat
  calls : List CollectCall
  deleted : List (CollectCall × SegmentId)

/-- The action uses the handle from outside of the process that owns it. -/
def touches {n : Nat} (i : Nat) : MaintenanceSystem.Action n → Bool
  | .manifest (.call j _) _ => j = i
  | .manifest (.installUpdate j _) _ => j = i
  | .manifest (.finish j) _ => j = i
  | .truncate j .. => j = i
  | .cleanup j _ => j = i
  | .sweep j _ => j = i
  | _ => false

namespace GcSystem

variable {n : Nat}

def init (objects : SegmentId → Fin n → Slot) : GcSystem n where
  maintenance := .init objects
  claim := none
  recoveredEnd := 0
  progress := .default
  requests := []
  collection := none
  checkpointFloor := 0
  durable := 0
  calls := []
  deleted := []

inductive Action (n : Nat) where
  /-- Any other process or task acts. -/
  | other (action : MaintenanceSystem.Action n)
  /-- The process has recovered the volume through a handle and starts its engine. -/
  | start (i recoveredEnd : Nat)
  /-- The engine resolves the completion of a batch. -/
  | complete (position : Position) (result : Except Chorus.WalError Nat)
  /-- The writer fails, or a caller goes away with its admission. -/
  | fail (error : WalError)
  /-- SlateDB asks for a collection; the observer may have closed. -/
  | collect (ranges : List WalFileRange) (dryRun closed : Bool)
  /-- The coordinator takes the oldest request, and the maintenance task begins with it. -/
  | beginCollection (i : Nat) (sealedSegments : List SegmentDescriptor)
  | pass (choice : Choice MaintenanceOutcome n)
  | collected
  /-- A cleanup pass of the process has read the register. -/
  | observeFloor (i : Nat)

def cached (s : GcSystem n) (i : Nat) : Option ManifestRecord :=
  match s.maintenance.world.manifest.handles[i]? with
  | some (.idle m) => some m.record
  | _ => none

/-- The call that the coordinator makes of a request. -/
def clamp (s : GcSystem n) (request : CollectRequest) : CollectCall :=
  ⟨request.ranges, s.progress.committedEnd s.recoveredEnd, s.durable,
    s.progress.clampFloor s.recoveredEnd request.floor⟩

def beginCollection (s : GcSystem n) (i : Nat) (sealedSegments : List SegmentDescriptor) :
    Option (GcSystem n) :=
  match s.claim, s.requests, s.collection with
  | some claim, request :: requests, none =>
    if (s.cached i).isSome ∧ s.maintenance.owned i = false then
      let call := s.clamp request
      some { s with
        requests := requests
        collection := some ⟨call, i, truncatePass sealedSegments s.checkpointFloor claim call.floor⟩
        calls := call :: s.calls }
    else none
  | _, _, _ => none

def issued (w w' : MaintenanceWorld n) : List SegmentId :=
  (w'.deletes.take (w'.deletes.length - w.deletes.length)).map Prod.snd

def passStep (crc : Bytes → Nat) (s : GcSystem n) (choice : Choice MaintenanceOutcome n) :
    Option (GcSystem n) :=
  s.collection.bind fun c =>
  ((maintenanceMachine n crc c.handle).step c.pass s.maintenance.world choice).map fun r =>
    { s with
      maintenance := { s.maintenance with world := r.1 }
      collection := some { c with pass := r.2 }
      deleted := (issued s.maintenance.world r.1).map (fun id => (c.call, id)) ++ s.deleted }

/-- The truncation has returned; its floor and the one that its handle has read are kept. -/
def collected (s : GcSystem n) : Option (GcSystem n) :=
  match s.collection with
  | some ⟨_, i, .ret (_, checkpointFloor, _)⟩ => (s.cached i).map fun record =>
    { s with collection := none, checkpointFloor := max checkpointFloor record.trunc }
  | _ => none

def step (crc : Bytes → Nat) (s : GcSystem n) : Action n → Option (GcSystem n)
  | .other action =>
    if s.collection.any (fun c => touches c.handle action) then none
    else (s.maintenance.step crc action).map fun maintenance =>
      { s with maintenance := maintenance }
  | .start i recoveredEnd =>
    match s.claim, s.maintenance.world.manifest.handles[i]? with
    | none, some (.idle m) =>
      if m.epoch = 0 then none
      else some { s with
        claim := some m.claimed
        recoveredEnd := recoveredEnd
        progress := .default
        checkpointFloor := m.record.trunc
        durable := recoveredEnd }
    | _, _ => none
  | .complete position result => some { s with
      progress := s.progress.completion position result
      durable := match result with
        | .ok nextSeqno => max s.durable nextSeqno
        | .error _ => s.durable }
  | .fail error => some { s with progress := s.progress.fail error }
  | .collect ranges dryRun closed =>
    if s.claim.isNone ∨ closed ∨ dryRun then some s
    else some { s with requests := s.requests ++ [⟨ranges, retainFrom ranges⟩] }
  | .beginCollection i sealedSegments => s.beginCollection i sealedSegments
  | .pass choice => s.passStep crc choice
  | .collected => s.collected
  | .observeFloor i => (s.cached i).map fun record =>
      { s with checkpointFloor := max s.checkpointFloor record.trunc }

end GcSystem

end Chorus.SlateDb
