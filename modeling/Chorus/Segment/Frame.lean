import Chorus.Error
import Mathlib.Algebra.Order.Ring.Nat

/-!
# Durable record frames

The layout of one record is `total_len: u32 | payload`, with the length in network byte order. The
loops over a segment's bytes (`decodeAll`, `validateAll`, `decodeCompletePrefix`,
`completePrefixEnds`) consume at least the four header bytes a round, so the number of bytes bounds
their rounds.
-/

namespace Chorus

abbrev Bytes := List UInt8

/-- `crc32c_append`: CRC32C, reflected and with the usual inversions, of some bytes continued over
further ones. -/
def crc32cAppend (crc : Nat) (bytes : Bytes) : Nat :=
  let shift (crc : Nat) : Nat := if crc % 2 = 1 then (crc / 2) ^^^ 0x82F63B78 else crc / 2
  let update (crc : Nat) (byte : UInt8) : Nat := Nat.repeat shift 8 (crc ^^^ byte.toNat)
  bytes.foldl update (crc ^^^ 0xFFFFFFFF) ^^^ 0xFFFFFFFF

/-- Where no result depends on the checksum, the model takes it as a parameter. -/
def crc32c (bytes : Bytes) : Nat := crc32cAppend 0 bytes

example : crc32c [0x31, 0x32, 0x33, 0x34, 0x35, 0x36, 0x37, 0x38, 0x39] = 0xE3069283 := by
  decide +kernel

/-- Structural failure while encoding or decoding a durable record. -/
inductive RecordError where
  | truncated
  | invalidLength (length : Nat)
  | tooLarge
  deriving DecidableEq, Repr

/-- Durable envelope for one opaque application record. -/
structure RecordFrame where
  payload : Bytes
  deriving DecidableEq, Repr

namespace RecordFrame

/-- Bytes the length field adds to every encoded record. -/
def headerLen : Nat := 4

def u32Limit : Nat := 2 ^ 32

/-- The longest payload whose record still has a length of 32 bits. -/
def maxPayloadBytes : Nat := u32Limit - 1 - headerLen

/-- Four bytes in network byte order. -/
def putU32 (value : Nat) : Bytes :=
  [UInt8.ofNat (value / 2 ^ 24), UInt8.ofNat (value / 2 ^ 16), UInt8.ofNat (value / 2 ^ 8),
    UInt8.ofNat value]

def fromBeBytes (b₀ b₁ b₂ b₃ : UInt8) : Nat :=
  b₀.toNat * 2 ^ 24 + b₁.toNat * 2 ^ 16 + b₂.toNat * 2 ^ 8 + b₃.toNat

def encodedLen (record : RecordFrame) : Except RecordError Nat :=
  let totalLen := headerLen + record.payload.length
  if totalLen < u32Limit then .ok totalLen else .error .tooLarge

/-- The bytes of a record whose length fits the header. -/
def chunk (record : RecordFrame) : Bytes :=
  putU32 (headerLen + record.payload.length) ++ record.payload

def encode (record : RecordFrame) : Except RecordError Bytes :=
  record.encodedLen.map fun _ => record.chunk

/-- The length the header at the front of `input` names, if the whole record is there. -/
def decodedLen (input : Bytes) : Except RecordError Nat :=
  match input with
  | b₀ :: b₁ :: b₂ :: b₃ :: _ =>
    let totalLen := fromBeBytes b₀ b₁ b₂ b₃
    if totalLen < headerLen then .error (.invalidLength totalLen)
    else if input.length < totalLen then .error .truncated
    else .ok totalLen
  | _ => .error .truncated

/-- The loop of `complete_prefix_ends`; `consumed` is the offset of `input` in the segment. -/
def completePrefixEndsFrom : Nat → Nat → Bytes → List Nat
  | 0, _, _ => []
  | rounds + 1, consumed, input =>
    match decodedLen input with
    | .ok recordLen =>
      (consumed + recordLen) :: completePrefixEndsFrom rounds (consumed + recordLen)
        (input.drop recordLen)
    | .error _ => []

/-- End offset of each record in the contiguous well-formed prefix of a segment. A partial or
malformed tail ends the prefix. -/
def completePrefixEnds (input : Bytes) : List Nat := completePrefixEndsFrom input.length 0 input

/-- The loop of `decode_complete_prefix`: the records, and the bytes that they take. -/
def decodeCompletePrefixFrom : Nat → Bytes → List RecordFrame × Nat
  | 0, _ => ([], 0)
  | rounds + 1, input =>
    match decodedLen input with
    | .ok recordLen =>
      let rest := decodeCompletePrefixFrom rounds (input.drop recordLen)
      (⟨(input.take recordLen).drop headerLen⟩ :: rest.1, recordLen + rest.2)
    | .error _ => ([], 0)

/-- The records of the contiguous well-formed prefix of a segment, and the length of that prefix. -/
def decodeCompletePrefix (input : Bytes) : List RecordFrame × Nat :=
  decodeCompletePrefixFrom input.length input

/-- The loop of `decode_all_bytes`. -/
def decodeAllFrom : Nat → Bytes → Except RecordError (List RecordFrame)
  | 0, _ => .ok []
  | rounds + 1, input =>
    if input.isEmpty then .ok []
    else match decodedLen input with
      | .error error => .error error
      | .ok totalLen =>
        (decodeAllFrom rounds (input.drop totalLen)).map fun rest =>
          ⟨(input.take totalLen).drop headerLen⟩ :: rest

/-- Every record of a complete segment. -/
def decodeAll (input : Bytes) : Except RecordError (List RecordFrame) :=
  decodeAllFrom input.length input

/-- The loop of `validate_all`; `records` counts what it has seen. -/
def validateAllFrom : Nat → Nat → Bytes → Except RecordError Nat
  | 0, records, _ => .ok records
  | rounds + 1, records, input =>
    if input.isEmpty then .ok records
    else match decodedLen input with
      | .error error => .error error
      | .ok consumed => validateAllFrom rounds (records + 1) (input.drop consumed)

/-- The number of records of a complete segment. -/
def validateAll (input : Bytes) : Except RecordError Nat := validateAllFrom input.length 0 input

end RecordFrame

def streamBytes (records : List RecordFrame) : Bytes := (records.map RecordFrame.chunk).flatten

/-- End offsets of a stream of records that starts at the given offset. -/
def endsFrom (offset : Nat) : List RecordFrame → List Nat
  | [] => []
  | record :: records =>
    (offset + record.chunk.length) :: endsFrom (offset + record.chunk.length) records

def recordEnds (records : List RecordFrame) : List Nat := endsFrom 0 records

end Chorus
