import Chorus.Manifest.Record
import Chorus.Segment.Frame
import Chorus.Wire.Reader

/-!
# The batch encoding of the SlateDB adapter

One SlateDB write batch is one record of the log. The layout is a magic number with the format
version, the number of rows, the sequence number that all rows share, and the rows one after the
other. A row is its key, a tag for the kind of its value, flags for its optional timestamps, the
timestamps, and the value unless the row is a tombstone. All numbers are in network byte order.
-/

namespace Chorus.SlateDb

open Wire

/-- The value of a row (`ValueDeletable`). -/
inductive ValueDeletable where
  | value (bytes : Bytes)
  | merge (bytes : Bytes)
  | tombstone
  deriving DecidableEq, Repr

namespace ValueDeletable

def len : ValueDeletable → Nat
  | .value bytes => bytes.length
  | .merge bytes => bytes.length
  | .tombstone => 0

def isTombstone : ValueDeletable → Bool
  | .tombstone => true
  | _ => false

def asBytes : ValueDeletable → Option Bytes
  | .value bytes => some bytes
  | .merge bytes => some bytes
  | .tombstone => none

def tag : ValueDeletable → UInt8
  | .value _ => 0
  | .merge _ => 1
  | .tombstone => 2

end ValueDeletable

structure RowEntry where
  key : Bytes
  value : ValueDeletable
  seq : UInt64
  createTs : Option Int64
  expireTs : Option Int64
  deriving DecidableEq

inductive BatchFault where
  | empty
  | tooManyRows
  | mixedSequence
  | keyTooLarge
  | valueTooLarge
  | sizeOverflow
  | overLimit (size maxBytes : Nat)
  deriving DecidableEq, Repr

def BatchFault.text : BatchFault → String
  | .empty => "empty SlateDB write batch"
  | .tooManyRows => "too many batch rows"
  | .mixedSequence => "all rows in a SlateDB batch must share a sequence"
  | .keyTooLarge => "key too large"
  | .valueTooLarge => "value too large"
  | .sizeOverflow => "batch size overflow"
  | .overLimit size maxBytes =>
      s!"encoded SlateDB batch is {size} bytes, exceeding the {maxBytes}-byte record limit"

inductive BatchDataFault where
  | truncated
  | format
  | rowCount
  | rowFlags
  | valueTag
  | trailing
  deriving DecidableEq, Repr

def BatchDataFault.text : BatchDataFault → String
  | .truncated => "truncated SlateDB WAL batch"
  | .format => "unknown Chorus SlateDB WAL format/version"
  | .rowCount => "invalid SlateDB WAL row count"
  | .rowFlags => "unknown SlateDB WAL row flags"
  | .valueTag => "unknown SlateDB WAL value tag"
  | .trailing => "trailing bytes in SlateDB WAL batch"

/-- `CHSLWAL` and the format version. -/
def magic : Bytes := [0x43, 0x48, 0x53, 0x4C, 0x57, 0x41, 0x4C, 0x01]

def u32Max : Nat := 2 ^ 32 - 1

/-! ## Encoding -/

/-- The bytes of a row besides its key and its value. -/
def RowEntry.metadataLen (row : RowEntry) : Nat :=
  6 + (if row.createTs.isSome then 8 else 0) + (if row.expireTs.isSome then 8 else 0) +
    (if row.value.isTombstone then 0 else 4)

/-- The loop that checks the rows and adds up their sizes. -/
def measure (seq : UInt64) : Nat → List RowEntry → Except BatchFault Nat
  | size, [] => .ok size
  | size, row :: rows => do
    failIf (row.seq ≠ seq) .mixedSequence
    failIf (u32Max < row.key.length) .keyTooLarge
    failIf (u32Max < row.value.len) .valueTooLarge
    match checkedAdd size row.metadataLen |>.bind (checkedAdd · row.key.length)
        |>.bind (checkedAdd · row.value.len) with
    | none => .error .sizeOverflow
    | some size => measure seq size rows

def putTs (ts : Option Int64) : Bytes :=
  match ts with
  | some ts => putBe 8 ts.toUInt64.toNat
  | none => []

def RowEntry.flags (row : RowEntry) : UInt8 :=
  (if row.createTs.isSome then (1 : UInt8) else 0) |||
    ((if row.expireTs.isSome then (1 : UInt8) else 0) <<< 1)

def putField (bytes : Bytes) : Bytes := putBe 4 bytes.length ++ bytes

def ValueDeletable.encode (value : ValueDeletable) : Bytes :=
  match value.asBytes with
  | some bytes => putField bytes
  | none => []

def RowEntry.encode (row : RowEntry) : Bytes :=
  putField row.key ++ [row.value.tag] ++ [row.flags] ++ putTs row.createTs ++ putTs row.expireTs ++
    row.value.encode

def encode (rows : List RowEntry) (maxBytes : Nat) : Except BatchFault Bytes :=
  match rows with
  | [] => .error .empty
  | first :: _ => do
    failIf (u32Max < rows.length) .tooManyRows
    let size ← measure first.seq (magic.length + 4 + 8) rows
    failIf (maxBytes < size) (.overLimit size maxBytes)
    return magic ++ putBe 4 rows.length ++ putBe 8 first.seq.toNat ++ rows.flatMap RowEntry.encode

/-! ## Decoding -/

abbrev BatchReader := Reader BatchDataFault

/-- `take`, with the error of a batch that ends too early. -/
def takeBytes (count : Nat) : BatchReader Bytes := Wire.take .truncated count

def getU8 : BatchReader UInt8 := do return UInt8.ofNat (← number .truncated 1)

def getU32 : BatchReader Nat := number .truncated 4

def getU64 : BatchReader UInt64 := do return UInt64.ofNat (← number .truncated 8)

def getI64 : BatchReader Int64 := do return (← getU64).toInt64

def field : BatchReader Bytes := do takeBytes (← getU32)

def getTs (present : Bool) : BatchReader (Option Int64) := do
  if present then return some (← getI64) else return none

def getValue (tag : UInt8) : BatchReader ValueDeletable :=
  match tag with
  | 0 => do return .value (← field)
  | 1 => do return .merge (← field)
  | 2 => pure .tombstone
  | _ => throw .valueTag

def getRow (seq : UInt64) : BatchReader RowEntry := do
  let key ← field
  let tag ← getU8
  let flags ← getU8
  reject (flags &&& ~~~3 ≠ 0) .rowFlags
  let createTs ← getTs (flags &&& 1 ≠ 0)
  let expireTs ← getTs (flags &&& 2 ≠ 0)
  let value ← getValue tag
  return ⟨key, value, seq, createTs, expireTs⟩

def getBatch : BatchReader (List RowEntry) := do
  let found ← takeBytes magic.length
  reject (found ≠ magic) .format
  let count ← getU32
  let seq ← getU64
  -- a row takes at least six bytes
  let left ← get
  reject (count = 0 ∨ left.length / 6 < count) .rowCount
  replicate (getRow seq) count

def decode (bytes : Bytes) : Except BatchDataFault (List RowEntry) := do
  let (rows, rest) ← getBatch.run bytes
  failIf (rest ≠ []) .trailing
  return rows

end Chorus.SlateDb
