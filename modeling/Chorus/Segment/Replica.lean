import Chorus.Concurrency.Prog
import Chorus.Segment.Frame
import Mathlib.Tactic.SplitIfs

/-!
# Zonal objects

One object of one zone is a `Slot`: its current generation, if any, and the source of generation and
session numbers, none of which is ever used twice. A zone answers the operations of `Replica` on the
object it is bound to (`ReplicaOp.perform`). An operation may also fail without an answer, with or
without having been applied (`ReplicaOutcome`). A failure never invents the two answers the protocol
draws conclusions from: a read, which has no precondition, reports `NotFound` only for an absent
object, and a takeover reports `FailedPrecondition` only for a finalized or replaced one.
-/

namespace Chorus

open Concurrency

-- The zones of a volume are written as numerals; the sizes in use are one zone and three.
instance neZeroOne : NeZero 1 := ⟨by decide⟩

instance neZeroThree : NeZero 3 := ⟨by decide⟩

abbrev Metadata := List (String × String)

def metaFormat : String := "chorus.format"

def formatVersion : String := "1"

def protocolMetadata : Metadata := [(metaFormat, formatVersion)]

def validFormat (metadata : Metadata) : Bool := metadata.lookup metaFormat = some formatVersion

structure Copy where
  generation : Nat
  metageneration : Nat
  finalized : Bool
  /-- The most recent append open. A newer open fences older sessions. -/
  session : Nat
  metadata : Metadata
  bytes : Bytes
  deriving DecidableEq, Repr

def Copy.freeze (c : Copy) : Copy :=
  if c.finalized then c else { c with finalized := true, metageneration := c.metageneration + 1 }

@[simp] theorem Copy.freeze_generation (c : Copy) : c.freeze.generation = c.generation := by
  unfold freeze
  split_ifs <;> rfl

@[simp] theorem Copy.freeze_session (c : Copy) : c.freeze.session = c.session := by
  unfold freeze
  split_ifs <;> rfl

@[simp] theorem Copy.freeze_bytes (c : Copy) : c.freeze.bytes = c.bytes := by
  unfold freeze
  split_ifs <;> rfl

@[simp] theorem Copy.freeze_metadata (c : Copy) : c.freeze.metadata = c.metadata := by
  unfold freeze
  split_ifs <;> rfl

@[simp] theorem Copy.freeze_finalized (c : Copy) : c.freeze.finalized = true := by
  unfold freeze
  split_ifs with h
  · exact h
  · rfl

/-- Full object read used by recovery and replay validation. -/
structure ReplicaSnapshot where
  zone : Nat
  generation : Nat
  metageneration : Nat
  persistedSize : Nat
  finalized : Bool
  crc32c : Option Nat
  metadata : Metadata
  bytes : Bytes
  deriving DecidableEq, Repr

/-- Byte range read from an open object. -/
structure ReplicaRangeRead where
  zone : Nat
  generation : Nat
  bytes : Bytes
  deriving DecidableEq, Repr

/-- State of one live append stream. A stream that created its object does not know the
generation. -/
structure AppendToken where
  zone : Nat
  generation : Option Nat
  metageneration : Option Nat
  persistedSize : Nat
  writeHandle : Option Nat
  deriving DecidableEq, Repr

/-- One object of one zone. Generations and sessions are numbered from one counter. -/
structure Slot where
  copy : Option Copy
  nextId : Nat
  issued : ∀ c ∈ copy, c.generation < nextId ∧ c.session < nextId

namespace Slot

def empty : Slot := ⟨none, 0, by simp⟩

/-- Write a new appendable generation. -/
def install (slot : Slot) (bytes : Bytes) (metadata : Metadata) : Slot where
  copy := some ⟨slot.nextId, 1, false, slot.nextId, metadata, bytes⟩
  nextId := slot.nextId + 1
  issued := by simp

def reopen (slot : Slot) : Slot where
  copy := slot.copy.map fun c => { c with session := slot.nextId }
  nextId := slot.nextId + 1
  issued := by
    intro c hc
    obtain ⟨c₀, hc₀, rfl⟩ := Option.mem_map.1 hc
    have := slot.issued c₀ hc₀
    exact ⟨Nat.lt_succ_of_lt this.1, Nat.lt_succ_self _⟩

def freeze (slot : Slot) : Slot where
  copy := slot.copy.map Copy.freeze
  nextId := slot.nextId
  issued := by
    intro c hc
    obtain ⟨c₀, hc₀, rfl⟩ := Option.mem_map.1 hc
    rw [Copy.freeze_generation, Copy.freeze_session]
    exact slot.issued c₀ hc₀

/-- The object's append session makes its bytes durable up to the given content. -/
def append (slot : Slot) (bytes : Bytes) : Slot where
  copy := slot.copy.map fun c => { c with bytes := bytes }
  nextId := slot.nextId
  issued := by
    intro c hc
    obtain ⟨c₀, hc₀, rfl⟩ := Option.mem_map.1 hc
    exact slot.issued c₀ hc₀

def remove (slot : Slot) : Slot := ⟨none, slot.nextId, by simp⟩

end Slot

/-- The operations of one zone on one object. -/
inductive ReplicaOp : Type → Type where
  | snapshot : ReplicaOp (Except TransportError ReplicaSnapshot)
  | readRange (offset : Nat) : ReplicaOp (Except TransportError ReplicaRangeRead)
  /-- Metadata only; the snapshot carries no bytes. -/
  | stat : ReplicaOp (Except TransportError ReplicaSnapshot)
  | createAppendSession (metadata : Metadata) : ReplicaOp (Except TransportError AppendToken)
  | takeover (observed : ReplicaSnapshot) : ReplicaOp (Except TransportError AppendToken)
  | replaceAppendable (observed : Option ReplicaSnapshot) (data : Bytes) (metadata : Metadata) :
      ReplicaOp (Except TransportError AppendToken)
  | finalize (token : AppendToken) (writeOffset : Nat) :
      ReplicaOp (Except TransportError ReplicaSnapshot)
  | delete (generation : Nat) : ReplicaOp (Except TransportError Unit)

namespace ReplicaOp

def snapshotOf (crc : Bytes → Nat) (zone : Nat) (c : Copy) : ReplicaSnapshot where
  zone := zone
  generation := c.generation
  metageneration := c.metageneration
  persistedSize := c.bytes.length
  finalized := c.finalized
  crc32c := if c.finalized then some (crc c.bytes) else none
  metadata := c.metadata
  bytes := c.bytes

/-- An operation that the zone carries out and answers. -/
def perform (crc : Bytes → Nat) (zone : Nat) (slot : Slot) : {β : Type} → ReplicaOp β → Slot × β
  | _, .snapshot =>
    match slot.copy with
    | none => (slot, .error ⟨zone, .notFound⟩)
    | some c => (slot, .ok (snapshotOf crc zone c))
  | _, .readRange offset =>
    match slot.copy with
    | none => (slot, .error ⟨zone, .notFound⟩)
    | some c =>
      if offset ≤ c.bytes.length then (slot, .ok ⟨zone, c.generation, c.bytes.drop offset⟩)
      else (slot, .error ⟨zone, .outOfRange⟩)
  | _, .stat =>
    match slot.copy with
    | none => (slot, .error ⟨zone, .notFound⟩)
    | some c => (slot, .ok { snapshotOf crc zone c with bytes := [] })
  | _, .createAppendSession metadata =>
    match slot.copy with
    | none => (slot.install [] metadata, .ok ⟨zone, none, none, 0, some slot.nextId⟩)
    | some _ => (slot, .error ⟨zone, .alreadyExists⟩)
  | _, .takeover observed =>
    match slot.copy with
    | none => (slot, .error ⟨zone, .notFound⟩)
    | some c =>
      if c.finalized ∨ c.generation ≠ observed.generation then
        (slot, .error ⟨zone, .failedPrecondition⟩)
      else
        (slot.reopen, .ok ⟨zone, some c.generation, some c.metageneration, c.bytes.length,
          some slot.nextId⟩)
  | _, .replaceAppendable observed data metadata =>
    if slot.copy.map (fun c => (c.generation, c.metageneration)) =
        observed.map (fun o => (o.generation, o.metageneration)) then
      (slot.install data metadata,
        .ok ⟨zone, some slot.nextId, some 1, data.length, some slot.nextId⟩)
    else (slot, .error ⟨zone, .failedPrecondition⟩)
  | _, .finalize _ writeOffset =>
    match slot.copy with
    | none => (slot, .error ⟨zone, .notFound⟩)
    | some c =>
      if c.bytes.length ≠ writeOffset then (slot, .error ⟨zone, .dataLoss⟩)
      else (slot.freeze, .ok (snapshotOf crc zone c.freeze))
  | _, .delete generation =>
    match slot.copy with
    | none => (slot, .error ⟨zone, .notFound⟩)
    | some c =>
      if c.generation ≠ generation then (slot, .error ⟨zone, .failedPrecondition⟩)
      else (slot.remove, .ok ())

def failure (error : TransportError) : {β : Type} → ReplicaOp β → β
  | _, .snapshot => .error error
  | _, .readRange _ => .error error
  | _, .stat => .error error
  | _, .createAppendSession _ => .error error
  | _, .takeover _ => .error error
  | _, .replaceAppendable .. => .error error
  | _, .finalize .. => .error error
  | _, .delete _ => .error error

/-- What a rewrite leaves that breaks off after some of its bytes. -/
def tear (slot : Slot) (written : Nat) : {β : Type} → ReplicaOp β → Option Slot
  | _, .replaceAppendable observed data metadata =>
    if slot.copy.map (fun c => (c.generation, c.metageneration)) =
        observed.map (fun o => (o.generation, o.metageneration)) then
      some (slot.install (data.take written) metadata)
    else none
  | _, _ => none

/-- The codes with which an operation may fail for reasons of its own. -/
def mayFail : {β : Type} → ReplicaOp β → TransportCode → Bool
  | _, .snapshot, code => code ≠ .notFound ∧ code ≠ .failedPrecondition
  | _, .readRange _, code => code ≠ .notFound ∧ code ≠ .failedPrecondition
  | _, .stat, code => code ≠ .notFound ∧ code ≠ .failedPrecondition
  | _, .takeover _, code => code ≠ .failedPrecondition
  | _, _, _ => true

end ReplicaOp

/-- The outcome of one replica operation: it is answered, or it fails with or without having been
applied. -/
inductive ReplicaOutcome where
  | answered
  | failed (code : TransportCode) (applied : Bool)
  deriving DecidableEq, Repr

inductive ZoneOp (n : Nat) : Type → Type where
  | mk {β : Type} (zone : Fin n) (op : ReplicaOp β) : ZoneOp n β

/-- The contents that an answer carries. -/
def ZoneOp.contents {n : Nat} : {β : Type} → ZoneOp n β → β → List Bytes
  | _, .mk _ .snapshot, .ok snapshot => [snapshot.bytes]
  | _, _, _ => []

def replicaMachine (n : Nat) (crc : Bytes → Nat) :
    Machine (ZoneOp n) (Fin n → Slot) ReplicaOutcome where
  exec slots op outcome :=
    match op, outcome with
    | .mk zone op, .answered =>
      let result := op.perform crc zone (slots zone)
      some (Function.update slots zone result.1, result.2)
    | .mk zone op, .failed code applied =>
      if op.mayFail code then
        some (if applied then Function.update slots zone (op.perform crc zone (slots zone)).1
          else slots, op.failure ⟨zone, code⟩)
      else none

end Chorus
