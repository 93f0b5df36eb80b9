import Chorus.Maintenance.Passes

/-!
# Maintenance among all processes

The passes of current and deposed processes run beside each other and beside every other use of the
register. A manifest call that brings segment ids into the register takes them from the caller's
counter: ids are `segmentId epoch seq` with the epoch of the handle and sequence numbers that only
rise. An epoch is granted to one incarnation, so the counters are kept by epoch here. The objects
may be changed by other processes in any way.

The log records every delete that a pass has issued.
-/

namespace Chorus

open Concurrency

structure MaintenanceWorld (n : Nat) where
  manifest : ManifestSystem
  /-- The next sequence number that the holder of an epoch mints. -/
  nextSeq : Nat → Nat
  objects : SegmentId → Fin n → Slot
  /-- The deletes that were issued, newest first. -/
  deletes : List (PassLabel × SegmentId)

inductive MaintenanceOutcome where
  | proceed
  | replica (outcome : ReplicaOutcome)
  | listed (result : Except TransportError (List ObjectSummary))

def HandleOp.exec {n : Nat} (i : Nat) (w : MaintenanceWorld n) :
    {β : Type} → HandleOp β → Option (MaintenanceWorld n × β)
  | _, .start call => (w.manifest.step (.call i call)).map fun s => ({ w with manifest := s }, ())
  | _, .await =>
    match w.manifest.handles[i]? with
    | some (.busy _ (.ret (m, outcome))) =>
      (w.manifest.step (.finish i)).map fun s => ({ w with manifest := s }, (m.record, outcome))
    | _ => none

def ZoneOp.isDelete {n : Nat} : {β : Type} → ZoneOp n β → Bool
  | _, .mk _ (.delete _) => true
  | _, _ => false

def ListOp.answer {n : Nat} : {β : Type} → ListOp n β →
    Except TransportError (List ObjectSummary) → β
  | _, .list _, result => result

/-- The operations of a task that works through the handle `i`. -/
def maintenanceMachine (n : Nat) (crc : Bytes → Nat) (i : Nat) :
    Machine (MaintenanceOp n) (MaintenanceWorld n) MaintenanceOutcome where
  exec w op outcome :=
    match op, outcome with
    | .handle op, .proceed => op.exec i w
    | .replica label id op, .replica outcome =>
      ((replicaMachine n crc).exec (w.objects id) op outcome).map fun r =>
        ({ w with
          objects := Function.update w.objects id r.1
          deletes := if op.isDelete then (label, id) :: w.deletes else w.deletes }, r.2)
    | .listing op, .listed result => some (w, op.answer result)
    | _, _ => none

/-- All maintenance tasks and the world around them. A task is the handle it owns and its
program. -/
structure MaintenanceSystem (n : Nat) where
  world : MaintenanceWorld n
  tasks : List (Nat × MaintenanceProg n Unit)

namespace MaintenanceSystem

variable {n : Nat}

/-- The counter of the first epoch starts behind the id that its claim mints for the tail. -/
def init (objects : SegmentId → Fin n → Slot) : MaintenanceSystem n where
  world := ⟨.init, fun epoch => if epoch = 1 then 1 else 0, objects, []⟩
  tasks := []

inductive Action (n : Nat) where
  /-- Any process acts on the register; `seqs` are the numbers of the ids that a call brings
  along. -/
  | manifest (action : ManifestSystem.Action) (seqs : List Nat)
  /-- Other processes write to the objects. -/
  | objects (objects : SegmentId → Fin n → Slot)
  | truncate (i : Nat) (sealedSegments : List SegmentDescriptor) (checkpointFloor : Nat)
      (claim : WriterClaim) (floor : Nat)
  | cleanup (i : Nat) (sealedSegments : List SegmentDescriptor)
  | sweep (i : Nat) (rounds : Nat)
  | step (task : Nat) (choice : Choice MaintenanceOutcome n)
  | retire (task : Nat)

def owned (s : MaintenanceSystem n) (i : Nat) : Bool := s.tasks.any fun task => task.1 == i

/-- The counters after a call by the holder of an epoch, if the call takes its new ids from them. A
request may be issued again as it was; a fold never ends before its base. -/
def mint (w : MaintenanceWorld n) (epoch : Nat) (call : ManifestCall) (seqs : List Nat) :
    Option (Nat → Nat) :=
  let ends := match call with
    | .foldPending fold => decide (fold.oldTailBase ≤ fold.oldTailEnd)
    | _ => true
  if !ends then none
  else if call ∈ w.manifest.issued ∧ call.introduces = seqs.map (segmentId epoch) then
    some w.nextSeq
  else if call.introduces = seqs.map (segmentId epoch) ∧ seqs.Pairwise (· < ·) ∧
      ∀ seq ∈ seqs, w.nextSeq epoch ≤ seq then
    some (Function.update w.nextSeq epoch ((seqs.getLast?.map (· + 1)).getD (w.nextSeq epoch)))
  else none

def manifestStep (s : MaintenanceSystem n) (action : ManifestSystem.Action) (seqs : List Nat) :
    Option (MaintenanceSystem n) :=
  let counters := match action with
    | .call i call =>
      match s.world.manifest.handles[i]? with
      | some (.idle m) => if s.owned i then none else mint s.world m.epoch call seqs
      | _ => none
    | .finish i => if s.owned i then none else some s.world.nextSeq
    | _ => some s.world.nextSeq
  counters.bind fun nextSeq => (s.world.manifest.step action).map fun manifest =>
    { s with world := { s.world with manifest := manifest, nextSeq := nextSeq } }

/-- A task takes over an idle handle. -/
def spawn (s : MaintenanceSystem n) (i : Nat) (prog : MaintenanceProg n Unit) :
    Option (MaintenanceSystem n) :=
  match s.world.manifest.handles[i]? with
  | some (.idle _) => if s.owned i then none else some { s with tasks := s.tasks ++ [(i, prog)] }
  | _ => none

def step (crc : Bytes → Nat) (s : MaintenanceSystem n) : Action n → Option (MaintenanceSystem n)
  | .manifest action seqs => s.manifestStep action seqs
  | .objects objects => some { s with world := { s.world with objects := objects } }
  | .truncate i sealedSegments checkpointFloor claim floor =>
    s.spawn i ((truncatePass sealedSegments checkpointFloor claim floor).bind fun _ => .ret ())
  | .cleanup i sealedSegments =>
    s.spawn i ((cleanupTombstonesPass sealedSegments).bind fun _ => .ret ())
  | .sweep i rounds => s.spawn i (claimAndSweep rounds)
  | .step task choice =>
    match s.tasks[task]? with
    | none => none
    | some (i, prog) =>
      ((maintenanceMachine n crc i).step prog s.world choice).map fun r =>
        { world := r.1, tasks := s.tasks.set task (i, r.2) }
  | .retire task =>
    match s.tasks[task]? with
    | some (_, .ret ()) => some { s with tasks := s.tasks.eraseIdx task }
    | _ => none

end MaintenanceSystem

end Chorus
