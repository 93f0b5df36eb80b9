import Chorus.Maintenance.Repair
import Chorus.Concurrency.Run

/-!
# Any number of repair passes

Repair passes of current and deposed processes run beside each other over the objects of all zones.
The content of a copy may be rotted: then content reads fail with `DATA_LOSS`, and metadata reads do
not notice. A healthy copy does not rot; an unfinished rewrite may. A rewrite that fails may leave a
new generation with any part of the data, since it is sent as a stream of messages.

The log records, for every finalize that was answered with success, whether it left a healthy copy.
-/

namespace Chorus

open Concurrency

/-- One object of one zone, and whether the content of its current generation is unreadable. -/
structure Cell where
  slot : Slot
  rotted : Bool

namespace Cell

/-- The cell after an operation on its object. A new generation is readable. -/
def set (cell : Cell) (slot : Slot) : Cell where
  slot := slot
  rotted := cell.rotted &&
    decide (slot.copy.map Copy.generation = cell.slot.copy.map Copy.generation)

/-- A finalized, well-formed and readable copy of exactly the committed bytes. -/
def healthy (cell : Cell) (committed : Bytes) : Bool :=
  !cell.rotted && cell.slot.copy.any fun c =>
    c.finalized && validFormat c.metadata && decide (c.bytes = committed)

end Cell

/-- A finalize that was answered with success. -/
structure FinalizedCopy where
  pass : Nat
  id : SegmentId
  zone : Nat
  healthy : Bool
  deriving DecidableEq, Repr

structure RepairWorld (n : Nat) where
  cells : SegmentId → Fin n → Cell
  /-- The finalizes that were answered with success, newest first. -/
  finalized : List FinalizedCopy

namespace RepairWorld

variable {n : Nat}

def set (w : RepairWorld n) (id : SegmentId) (zone : Fin n) (cell : Cell) : RepairWorld n :=
  { w with cells := Function.update w.cells id (Function.update (w.cells id) zone cell) }

def healthy (w : RepairWorld n) (committed : SegmentId → Bytes) (id : SegmentId) (zone : Fin n) :
    Bool :=
  (w.cells id zone).healthy (committed id)

/-- How many finalizes of a pass left a healthy copy. -/
def repairedBy (w : RepairWorld n) (pass : Nat) : Nat :=
  w.finalized.countP fun f => decide (f.pass = pass) && f.healthy

end RepairWorld

/-- How the environment lets an operation end. -/
inductive RepairOutcome where
  | replica (outcome : ReplicaOutcome)
  /-- A rewrite breaks off after some of its bytes were written. -/
  | torn (written : Nat) (code : TransportCode)
  | listed (result : Except TransportError (List ListedObject))

namespace ReplicaOp

def readsContent : {β : Type} → ReplicaOp β → Bool
  | _, .snapshot => true
  | _, .readRange _ => true
  | _, _ => false

/-- The operation finalizes the object, and the answer reports success. -/
def finalizes : {β : Type} → ReplicaOp β → β → Bool
  | _, .finalize .., .ok _ => true
  | _, _, _ => false

end ReplicaOp

def RepairListOp.answer {n : Nat} : {β : Type} → RepairListOp n β →
    Except TransportError (List ListedObject) → β
  | _, .list _, result => result

def ZoneOp.repair {n : Nat} {β : Type} (crc : Bytes → Nat) (committed : SegmentId → Bytes)
    (pass : Nat) (w : RepairWorld n) (id : SegmentId) :
    ZoneOp n β → RepairOutcome → Option (RepairWorld n × β)
  | .mk zone op, .replica .answered =>
    let cell := w.cells id zone
    if op.readsContent ∧ cell.rotted then some (w, op.failure ⟨zone, .dataLoss⟩)
    else
      let result := op.perform crc zone cell.slot
      let w' := w.set id zone (cell.set result.1)
      some ({ w' with finalized :=
        if op.finalizes result.2 then ⟨pass, id, zone, w'.healthy committed id zone⟩ :: w.finalized
        else w.finalized }, result.2)
  | .mk zone op, .replica (.failed code applied) =>
    let cell := w.cells id zone
    if op.mayFail code ∧ ¬ (op.readsContent ∧ code = .dataLoss) then
      some (if applied then w.set id zone (cell.set (op.perform crc zone cell.slot).1) else w,
        op.failure ⟨zone, code⟩)
    else none
  | .mk zone op, .torn written code =>
    let cell := w.cells id zone
    (op.tear cell.slot written).map fun slot =>
      (w.set id zone (cell.set slot), op.failure ⟨zone, code⟩)
  | _, .listed _ => none

def repairMachine (n : Nat) (crc : Bytes → Nat) (committed : SegmentId → Bytes) (pass : Nat) :
    Machine (RepairOp n) (RepairWorld n) RepairOutcome where
  exec w op outcome :=
    match op, outcome with
    | .replica id op, outcome => op.repair crc committed pass w id outcome
    | .listing op, .listed result => some (w, op.answer result)
    | .listing _, _ => none

/-- All repair passes, each under its number. -/
structure RepairSystem (n : Nat) where
  world : RepairWorld n
  passes : List (RepairProg n RepairReport)

namespace RepairSystem

variable {n : Nat}

def init (cells : SegmentId → Fin n → Cell) : RepairSystem n := ⟨⟨cells, []⟩, []⟩

inductive Action (n : Nat) where
  /-- A process starts a pass over segments with their committed descriptors. -/
  | start (segments : List SegmentDescriptor) (floor : Nat)
  | step (pass : Nat) (choice : Choice RepairOutcome n)
  /-- A copy that is not healthy rots. -/
  | rot (id : SegmentId) (zone : Fin n)

def step (crc : Bytes → Nat) (committed : SegmentId → Bytes) (s : RepairSystem n) :
    Action n → Option (RepairSystem n)
  | .start segments floor =>
    if ∀ segment ∈ segments, segment.crc32c = crc (committed segment.id) then
      some { s with passes := s.passes ++ [repairSealedPass crc segments floor] }
    else none
  | .step pass choice =>
    match s.passes[pass]? with
    | none => none
    | some prog =>
      ((repairMachine n crc committed pass).step prog s.world choice).map fun r =>
        { world := r.1, passes := s.passes.set pass r.2 }
  | .rot id zone =>
    let cell := s.world.cells id zone
    if cell.slot.copy.isSome ∧ ¬ cell.healthy (committed id) then
      some { s with world := s.world.set id zone { cell with rotted := true } }
    else none

end RepairSystem

end Chorus
