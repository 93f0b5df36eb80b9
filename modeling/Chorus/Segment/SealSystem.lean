import Chorus.Segment.Seal
import Chorus.Concurrency.Run

/-!
# Enforcing a seal again and again

One caller enforces a decided prefix on the copies of a segment. Operations fail, with or without
having been applied, a rewrite may break off after some of its bytes (it is sent as a stream of
messages), and the caller may crash at any step and start over.

How far a zone may fail is a parameter (`ZoneMode`), so that a rerun on which some zones answer is a
run of the same machine with stricter modes.
-/

namespace Chorus

open Concurrency

/-- How an operation on one zone ends. -/
inductive SealOutcome where
  | replica (outcome : ReplicaOutcome)
  | torn (written : Nat) (code : TransportCode)
  deriving DecidableEq, Repr

/-- The failures that are expected of one zone. -/
inductive ZoneMode where
  | arbitrary
  /-- Failures are transient, and a takeover does not fail. -/
  | lapsing
  | answering
  deriving DecidableEq, Repr

def ReplicaOp.isTakeover : {β : Type} → ReplicaOp β → Bool
  | _, .takeover _ => true
  | _, _ => false

/-- The operation may fail with this code. -/
def ZoneMode.lets {β : Type} (op : ReplicaOp β) (code : TransportCode) : ZoneMode → Bool
  | .arbitrary => true
  | .lapsing => code.transient && !op.isTakeover
  | .answering => false

def sealMachine (n : Nat) (crc : Bytes → Nat) (modes : Fin n → ZoneMode) :
    Machine (ZoneOp n) (Fin n → Slot) SealOutcome where
  exec slots op outcome :=
    match op, outcome with
    | .mk zone op, .replica .answered => (replicaMachine n crc).exec slots (.mk zone op) .answered
    | .mk zone op, .replica (.failed code applied) =>
      if (modes zone).lets op code then
        (replicaMachine n crc).exec slots (.mk zone op) (.failed code applied)
      else none
    | .mk zone op, .torn written code =>
      if (modes zone).lets op code then (op.tear (slots zone) written).map fun slot =>
        (Function.update slots zone slot, op.failure ⟨zone, code⟩)
      else none

def Slot.holds (slot : Slot) (data : Bytes) : Bool := slot.copy.any fun c => data.isPrefixOf c.bytes

def Slot.sealedWith (slot : Slot) (data : Bytes) : Bool :=
  slot.copy.any fun c => c.finalized && decide (c.bytes = data)

/-- A copy that recovery noted as sealed still is, as long as its generation is in place. -/
def SealedWitness.genuine {n : Nat} (data : Bytes) (slots : Fin n → Slot)
    (witness : SealedWitness) : Bool :=
  (List.finRange n).all fun zone => zone.val ≠ witness.zone || (slots zone).copy.all fun c =>
    c.generation ≠ witness.generation || c.finalized && decide (c.bytes = data)

/-- What recovery returned for the decided bytes. It returns at least one record. -/
def RecoveredTail.genuine {n : Nat} (data : Bytes) (slots : Fin n → Slot) (tail : RecoveredTail) :
    Bool :=
  decide (tail.canonical.bytes = data ∧ data ≠ []) && tail.sealedWitnesses.all
    (·.genuine data slots)

/-- The copies of a segment and the enforcement that is under way. -/
structure SealSystem (n : Nat) where
  slots : Fin n → Slot
  running : Option (ReplicaProg n (Except ProtocolError Unit))

namespace SealSystem

variable {n : Nat}

def init (slots : Fin n → Slot) : SealSystem n := ⟨slots, none⟩

inductive Action (n : Nat) where
  | start (tail : RecoveredTail)
  | step (choice : Choice SealOutcome n)
  /-- The caller crashes or is done. -/
  | stop

def step (crc : Bytes → Nat) (config : ClientConfig) (data : Bytes) (s : SealSystem n) :
    Action n → Option (SealSystem n)
  | .start tail =>
    if s.running.isNone ∧ tail.genuine data s.slots then
      some { s with running := some (enforceSeal config tail) }
    else none
  | .step choice => s.running.bind fun prog =>
    ((sealMachine n crc fun _ => .arbitrary).step prog s.slots choice).map fun r => ⟨r.1, some r.2⟩
  | .stop => some { s with running := none }

end SealSystem

end Chorus
