import Chorus.Error
import Mathlib.Algebra.Order.Ring.Nat
import Mathlib.Data.List.Basic

/-!
# The manifest record

The contents of the manifest register and the checks on them: the sealed segment directory with its
derived ends, `validate`, the removal check and the room check of the directory's byte budget.

Indices, epochs and sizes are natural numbers; where the source's arithmetic is checked or
saturating on 64 bits the bound is written out.
-/

namespace Chorus

/-- Segment ids are object names. -/
abbrev SegmentId := String

def u64Limit : Nat := 2 ^ 64

def checkedAdd (a b : Nat) : Option Nat := if a + b < u64Limit then some (a + b) else none

def checkedMul (a b : Nat) : Option Nat := if a * b < u64Limit then some (a * b) else none

def saturatingAdd (a b : Nat) : Nat := min (a + b) (u64Limit - 1)

/-- One sealed chain member of the segment directory. -/
structure DirectoryEntry where
  id : SegmentId
  /-- First global record index of the segment. -/
  base : Nat
  /-- CRC32C of the exact sealed bytes. -/
  crc32c : Nat
  deriving DecidableEq, Repr

structure ManifestRecord where
  /-- Highest writer epoch granted. -/
  epoch : Nat
  /-- Incarnation id the epoch was granted to. -/
  owner : String
  /-- Base record index of the active segment. -/
  tailBase : Nat
  /-- Object id of the active segment; absent only in the uninitialised register. -/
  tailId : Option SegmentId
  /-- The successor preregistered for the next rotation. -/
  pendingId : Option SegmentId
  /-- Base of the most recently sealed segment. -/
  sealBase : Option Nat
  /-- Object id of the most recently sealed segment. -/
  sealId : Option SegmentId
  /-- SHA-256 hex digest of that segment's exact sealed bytes. -/
  sealDigest : Option String
  /-- Truncation floor: the first record index the log still retains. -/
  trunc : Nat
  /-- The sealed segment directory, ordered by base. -/
  segments : List DirectoryEntry
  /-- Ordered zonal bucket names. -/
  buckets : List String
  deriving DecidableEq, Repr

def supportedReplicaCounts : List Nat := [1, 3, 5]

/-- The loop of `validate_bucket_names`; `unique` holds the names seen so far. -/
def validateBuckets (unique : List String) : List String → Except ManifestFault Unit
  | [] => .ok ()
  | bucket :: rest =>
    if bucket.isEmpty ∨ ',' ∈ bucket.toList then .error (.invalidBucket bucket)
    else if bucket ∈ unique then .error (.repeatedBucket bucket)
    else validateBuckets (bucket :: unique) rest

/-- The bucket list names one, three or five distinct buckets. -/
def validateBucketNames (buckets : List String) : Except ManifestFault Unit :=
  if buckets.isEmpty then .error .bucketsEmpty
  else if buckets.length ∉ supportedReplicaCounts then .error (.replicaCount buckets.length)
  else validateBuckets [] buckets

namespace ManifestRecord

/-- The constant record a missing register is created with. -/
def initial (buckets : List String) : ManifestRecord where
  epoch := 0
  owner := ""
  tailBase := 0
  tailId := none
  pendingId := none
  sealBase := none
  sealId := none
  sealDigest := none
  trunc := 0
  segments := []
  buckets := buckets

/-- One directory entry as text, `id:base:crc32c`. -/
def encodeEntry (entry : DirectoryEntry) : String :=
  entry.id ++ ":" ++ toString entry.base ++ ":" ++ hex 8 entry.crc32c

/-- The encoded directory: its entries in base order, joined by commas. -/
def encodeSegments (segments : List DirectoryEntry) : String :=
  String.intercalate "," (segments.map encodeEntry)

/-- The loop of `validate` over the directory; it returns the ids it has seen. -/
def validateSegments (tailBase : Nat) (previousBase : Option Nat) (ids : List SegmentId) :
    List DirectoryEntry → Except ManifestFault (List SegmentId)
  | [] => .ok ids
  | entry :: rest =>
    if previousBase.any (fun base => entry.base ≤ base) then .error .basesNotIncreasing
    else if tailBase ≤ entry.base then .error (.entryPastTail entry.id entry.base tailBase)
    else if entry.id ∈ ids then .error (.repeatedSegment entry.id)
    else validateSegments tailBase (some entry.base) (entry.id :: ids) rest

/-- The checks of `validate` on the pending slot. -/
def validatePending (record : ManifestRecord) (ids : List SegmentId) : Except ManifestFault Unit :=
  match record.pendingId with
  | none => .ok ()
  | some pendingId =>
    if pendingId.isEmpty ∨ ':' ∈ pendingId.toList ∨ ',' ∈ pendingId.toList then
      .error (.invalidPending pendingId)
    else if record.tailId = some pendingId then .error .pendingIsTail
    else if pendingId ∈ ids then .error .pendingCollides
    else .ok ()

/-- The check of `validate` that the seal record names the last directory entry. It is skipped once
the floor has reached the tail: the last entry may have been removed then. -/
def validateSeal (record : ManifestRecord) : Except ManifestFault Unit :=
  match record.segments.getLast? with
  | none => .ok ()
  | some last =>
    if record.trunc < record.tailBase ∧
        (record.sealId ≠ some last.id ∨ record.sealBase ≠ some last.base) then
      .error (.sealMismatch last.id last.base record.sealId record.sealBase)
    else .ok ()

/-- Structural validation of a register document. -/
def validate (record : ManifestRecord) : Except ManifestFault Unit := do
  failIf (record.sealBase.isSome ≠ record.sealDigest.isSome) .sealFieldsApart
  failIf (0 < record.epoch ∧ record.tailId.isNone) .tailIdMissing
  let ids ← validateSegments record.tailBase none [] record.segments
  failIf (record.tailId.any (· ∈ ids)) .tailCollides
  record.validatePending ids
  record.validateSeal
  validateBucketNames record.buckets

/-- The loop of `validate_removals`: each entry's end derives from the base of the entry that
follows it, and the last entry's from the tail base. -/
def validateRemovalsFrom (tailBase : Nat) (ids : List SegmentId) (floor : Nat) :
    List DirectoryEntry → Except ProtocolError Unit
  | [] => .ok ()
  | entry :: rest =>
    if entry.id ∉ ids then validateRemovalsFrom tailBase ids floor rest
    else
      let nextBase := (rest.head?.map DirectoryEntry.base).getD tailBase
      if nextBase = 0 then .error (.invalidManifest (.removalEnd entry.id entry.base))
      else if floor ≤ nextBase - 1 then
        .error (.invalidManifest (.removalLive entry.id (nextBase - 1) floor))
      else validateRemovalsFrom tailBase ids floor rest

/-- Every entry named by `ids` ends below `floor`, and `floor` is committed. -/
def validateRemovals (record : ManifestRecord) (ids : List SegmentId) (floor : Nat) :
    Except ProtocolError Unit :=
  if record.trunc < floor then .error (.invalidManifest (.removalFloor floor record.trunc))
  else validateRemovalsFrom record.tailBase ids floor record.segments

end ManifestRecord

/-- Bytes reserved for one further directory entry: a full-width id, a base in decimal, an
eight-digit checksum and the separators. -/
def worstCaseEntryBytes : Nat := 16 + 1 + 16 + 1 + 20 + 1 + 8 + 1

/-- Whether a directory of `currentEncodedLen` bytes can take `additional` more entries. -/
def directoryHasRoomFor (currentEncodedLen additional maxDirectoryBytes : Nat) : Bool :=
  match (checkedMul additional worstCaseEntryBytes).bind (checkedAdd currentEncodedLen) with
  | some required => required ≤ maxDirectoryBytes
  | none => false

def ManifestRecord.directoryHasRoom (record : ManifestRecord)
    (additional maxDirectoryBytes : Nat) : Bool :=
  directoryHasRoomFor (encodeSegments record.segments).utf8ByteSize additional maxDirectoryBytes

/-- The id of the `seq`-th segment created under one claimed epoch. -/
def segmentId (epoch seq : Nat) : SegmentId := hex 16 epoch ++ "-" ++ hex 8 seq

end Chorus
