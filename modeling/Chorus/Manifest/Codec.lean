import Chorus.Manifest.Record
import Chorus.Wire.Text
import Mathlib.Logic.Function.Basic

/-!
# The manifest record as object metadata

The register is an object without contents whose metadata holds the record, one text a field. The
directory is a text of entries joined by commas, whose fields are joined by colons; the bucket names
are joined by commas.
-/

namespace Chorus

open Wire

abbrev RegisterMetadata := String → Option String

namespace RegisterMetadata

def ofEntries (entries : List (String × String)) : RegisterMetadata := fun key => entries.lookup key

/-- Insert a field that may be absent. -/
def insertSome (metadata : RegisterMetadata) (key : String) : Option String → RegisterMetadata
  | some value => Function.update metadata key (some value)
  | none => metadata

/-- A field that has to be there. -/
def require (metadata : RegisterMetadata) (key : String) : Except ProtocolError String :=
  match metadata key with
  | some value => .ok value
  | none => .error (.invalidManifest (.missing key))

end RegisterMetadata

namespace ManifestRecord

def metaFormat : String := "chorus.format"
/-- The one supported register format. -/
def formatVersion : String := "1"
def metaEpoch : String := "chorus.epoch"
def metaOwner : String := "chorus.owner"
def metaTailBase : String := "chorus.tail_base"
def metaTailId : String := "chorus.tail_id"
def metaPendingId : String := "chorus.pending_id"
def metaSealId : String := "chorus.seal_id"
def metaSealBase : String := "chorus.seal_base"
def metaSealDigest : String := "chorus.seal_digest"
def metaTrunc : String := "chorus.trunc"
def metaSegments : String := "chorus.segments"
def metaBuckets : String := "chorus.buckets"

end ManifestRecord

/-- `str::parse` at 64 bits. The value only grows with more digits, so the range may be checked at
the end. -/
def parseU64 (text : String) : Option Nat := (parseRadix 10 text.toList).filter (· < u64Limit)

/-- `u32::from_str_radix` at radix 16. -/
def parseHexU32 (text : String) : Option Nat := (parseRadix 16 text.toList).filter (· < 2 ^ 32)

/-- A hexadecimal digit as the encoder writes it. -/
def isLowerHex (c : Char) : Bool := ('0' ≤ c && c ≤ '9') || ('a' ≤ c && c ≤ 'f')

namespace ManifestRecord

def decodeEntry (part : String) : Option DirectoryEntry :=
  match splitText ':' part with
  | [id, base, crc] =>
    if crc.utf8ByteSize ≠ 8 ∨ ¬ crc.toList.all isLowerHex then none
    else match parseHexU32 crc with
      | none => none
      | some crc32c =>
        if id.isEmpty then none
        else (parseU64 base).map fun base => ⟨id, base, crc32c⟩
  | _ => none

/-- The loop of `decode_segments`; `previous` is the base of the entry before. -/
def decodeSegmentsFrom (previous : Option Nat) :
    List String → Except ProtocolError (List DirectoryEntry)
  | [] => .ok []
  | part :: parts =>
    match decodeEntry part with
    | none => .error (.invalidManifest (.invalidEntry part))
    | some entry =>
      if previous.any (fun base => entry.base ≤ base) then
        .error (.invalidManifest (.record .basesNotIncreasing))
      else (decodeSegmentsFrom (some entry.base) parts).map (entry :: ·)

def decodeSegments (value : String) : Except ProtocolError (List DirectoryEntry) :=
  if value.isEmpty then .ok [] else decodeSegmentsFrom none (splitText ',' value)

def decodeBuckets (value : String) : Except ProtocolError (List String) :=
  if value.isEmpty then .error (.invalidManifest (.record .bucketsEmpty))
  else .ok (splitText ',' value)

def encode (record : ManifestRecord) : RegisterMetadata :=
  RegisterMetadata.ofEntries
    [(metaFormat, formatVersion),
      (metaEpoch, toString record.epoch),
      (metaOwner, record.owner),
      (metaTailBase, toString record.tailBase),
      (metaTrunc, toString record.trunc),
      (metaSegments, encodeSegments record.segments),
      (metaBuckets, String.intercalate "," record.buckets)]
    |>.insertSome metaTailId record.tailId
    |>.insertSome metaPendingId record.pendingId
    |>.insertSome metaSealBase (record.sealBase.map toString)
    |>.insertSome metaSealId record.sealId
    |>.insertSome metaSealDigest record.sealDigest

/-- A number that has to be there. -/
def decodeField (metadata : RegisterMetadata) (key : String) : Except ProtocolError Nat :=
  match metadata key with
  | none => .error (.invalidManifest (.missing key))
  | some value =>
    match parseU64 value with
    | none => .error (.invalidManifest (.invalidField key))
    | some number => .ok number

/-- A number that may be absent. -/
def decodeOptionalField (metadata : RegisterMetadata) (key : String) :
    Except ProtocolError (Option Nat) :=
  match metadata key with
  | none => .ok none
  | some value =>
    match parseU64 value with
    | none => .error (.invalidManifest (.invalidField key))
    | some number => .ok (some number)

def decode (metadata : RegisterMetadata) : Except ProtocolError ManifestRecord := do
  failIf (metadata metaFormat ≠ some formatVersion) (.invalidManifest .format)
  let segments ← decodeSegments (← metadata.require metaSegments)
  let sealBase ← decodeOptionalField metadata metaSealBase
  let buckets ← decodeBuckets (← metadata.require metaBuckets)
  let epoch ← decodeField metadata metaEpoch
  let tailBase ← decodeField metadata metaTailBase
  let trunc ← decodeField metadata metaTrunc
  let record : ManifestRecord := {
    epoch, tailBase, trunc, sealBase, segments, buckets
    owner := (metadata metaOwner).getD ""
    tailId := metadata metaTailId
    pendingId := metadata metaPendingId
    sealId := metadata metaSealId
    sealDigest := metadata metaSealDigest }
  match record.validate with
  | .error fault => .error (.invalidManifest (.record fault))
  | .ok () => .ok record

end ManifestRecord

end Chorus
