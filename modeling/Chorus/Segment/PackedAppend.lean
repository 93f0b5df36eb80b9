import Chorus.Segment.Frame

/-!
# Packing chunks into wire messages

Small chunks are concatenated, a chunk above the target size is split. The loop that splits takes a
full message from the chunk in every round, so the number of bytes bounds its rounds. A one-shot
write sends the messages of one chunk as the requests of a write stream.
-/

namespace Chorus

/-- One data-carrying wire message of a group, placed relative to the start of the group. -/
structure PackedAppendMessage where
  relativeOffset : Nat
  content : Bytes
  crc32c : Nat
  deriving DecidableEq, Repr

/-- A group of chunks as the messages it is sent in, with the number of bytes of all chunks. -/
structure PackedAppend where
  messages : List PackedAppendMessage
  len : Nat
  deriving DecidableEq, Repr

def PackedAppend.content (packed : PackedAppend) : Bytes := packed.messages.flatMap (·.content)

/-- Target size of a data-carrying message. -/
def wireMessageTargetBytes : Nat := 262144

structure Packing where
  messages : List PackedAppendMessage
  relativeOffset : Nat
  packed : Bytes

namespace Packing

def push (p : Packing) (content : Bytes) : Packing where
  messages := p.messages ++ [⟨p.relativeOffset, content, crc32c content⟩]
  relativeOffset := p.relativeOffset + content.length
  packed := p.packed

/-- Send what is packed so far. -/
def split (p : Packing) : Packing := { p.push p.packed with packed := [] }

/-- Full-size pieces of a large chunk are messages of their own; the rest is returned. -/
def pieces : Nat → Packing → Bytes → Packing × Bytes
  | 0, p, rest => (p, rest)
  | rounds + 1, p, rest =>
    if wireMessageTargetBytes < rest.length then
      pieces rounds (p.push (rest.take wireMessageTargetBytes)) (rest.drop wireMessageTargetBytes)
    else (p, rest)

/-- Start a new message where the chunk would not fit. -/
def makeRoom (p : Packing) (data : Bytes) : Packing :=
  if p.packed ≠ [] ∧ wireMessageTargetBytes < p.packed.length + data.length then p.split else p

/-- One round of the loop over the chunks. -/
def addChunk (p : Packing) (data : Bytes) : Packing :=
  let r := pieces data.length (p.makeRoom data) data
  { r.1 with packed := r.1.packed ++ r.2 }

end Packing

def packAppend (chunks : List Bytes) : PackedAppend :=
  let p := chunks.foldl Packing.addChunk ⟨[], 0, []⟩
  let p := if p.packed = [] then p else p.split
  ⟨p.messages, (chunks.map List.length).sum⟩

/-! ## One-shot writes -/

structure ChecksummedData where
  content : Bytes
  crc32c : Option Nat
  deriving DecidableEq, Repr

/-- One message of a write stream. `α` is what names the object. -/
structure BidiWriteObjectRequest (α : Type) where
  firstMessage : Option α
  writeOffset : Int64
  data : ChecksummedData
  flush : Bool
  stateLookup : Bool
  deriving DecidableEq

variable {α : Type}

/-- The requests of the messages from `index` on; `first` is taken by the first of them. -/
def writeRequests (writeOffset : Int64) (lastIndex : Nat) :
    Nat → Option α → List PackedAppendMessage → List (BidiWriteObjectRequest α)
  | _, _, [] => []
  | index, first, message :: messages =>
    let last := index == lastIndex
    { firstMessage := first
      writeOffset := writeOffset + Int64.ofNat message.relativeOffset
      data := ⟨message.content, some message.crc32c⟩
      flush := last
      stateLookup := last } :: writeRequests writeOffset lastIndex (index + 1) none messages

/-- The requests that write `data` from `writeOffset` on. Empty data is one empty message, because
the service answers only a message that carries data with the persisted size. -/
def oneShotWriteRequests (first : α) (writeOffset : Int64) (data : Bytes) :
    List (BidiWriteObjectRequest α) :=
  let messages := (packAppend [data]).messages
  if messages.isEmpty then
    [{ firstMessage := some first
       writeOffset := writeOffset
       data := ⟨[], some (crc32c [])⟩
       flush := true
       stateLookup := true }]
  else writeRequests writeOffset (messages.length - 1) 0 (some first) messages

end Chorus
