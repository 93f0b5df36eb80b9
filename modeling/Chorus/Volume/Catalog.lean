import Chorus.Manifest.Record
import Chorus.Segment.Seal

/-!
# Sealed segments

A committed seal fixes the record range, the SHA-256 digest and the CRC32C of a segment.
`recoverAndSealSegment` finishes such a seal without taking a decision of its own, and
`readSealedSegment` reads a sealed segment back.
-/

namespace Chorus

open Concurrency Quorum RecordFrame

/-- The reasons for which recovery refuses the segment catalog. -/
inductive CatalogFault where
  | checkpointBelowFloor (checkpoint floor : Nat)
  | basesNotPositive
  | entryOverlaps (id : SegmentId) (base nextBase : Nat)
  | oldestAfterCheckpoint (base checkpoint : Nat)
  | tailMissing
  | pendingAfterEmptyTail
  | pendingAbsent
  | checkpointPastEnd (checkpoint committedEnd : Nat)
  | noCompleteRecords
  | endOverflow
  | zeroRecordSeal
  | emptyFinalized (base : Nat)
  | finalizedDigest (base : Nat)
  | finalizedCrc32c (base actual expected : Nat)
  | sealsElsewhere (base completedEnd requiredEnd : Nat)
  | invalidCommittedEnd (base committedEnd : Nat)
  | recoveredCount (base actual expected : Nat)
  | recoveredDigest (base : Nat) (actual expected : String)
  | recoveredCrc32c (base actual expected : Nat)
  | pendingNotAcquired
  | sequenceOverflow
  | invalidEnd (base segmentEnd : Nat)
  | noSealedReplicas
  | noConfiguredReplicas
  deriving DecidableEq, Repr

def CatalogFault.text : CatalogFault → String
  | .checkpointBelowFloor checkpoint floor =>
      s!"checkpoint {checkpoint} lies below the committed truncation floor {floor}: those records " ++
        "were deleted after the database checkpointed them"
  | .basesNotPositive => "segment bases must be positive and increasing"
  | .entryOverlaps id base nextBase =>
      s!"directory entry {id} at base {base} extends past the following base {nextBase}"
  | .oldestAfterCheckpoint base checkpoint =>
      s!"oldest segment starts at {base}, after checkpoint boundary {checkpoint}"
  | .tailMissing => "claimed manifest has no tail id"
  | .pendingAfterEmptyTail => "pending segment is non-empty after an empty tail frontier"
  | .pendingAbsent => "manifest pending segment is absent on a quorum"
  | .checkpointPastEnd checkpoint committedEnd =>
      s!"checkpoint {checkpoint} lies past the committed end {committedEnd}"
  | .noCompleteRecords => "non-empty recovery candidate contains no complete records"
  | .endOverflow => "segment end overflowed u64"
  | .zeroRecordSeal => "committed seal has zero records"
  | .emptyFinalized base => s!"finalized segment {base} is empty"
  | .finalizedDigest base =>
      s!"finalized segment {base} does not match the committed seal digest"
  | .finalizedCrc32c base actual expected =>
      s!"finalized segment {base} has CRC32C {hex 8 actual}, expected {hex 8 expected}"
  | .sealsElsewhere base completedEnd requiredEnd =>
      s!"segment {base} seals at {completedEnd}, following segment requires {requiredEnd}"
  | .invalidCommittedEnd base committedEnd =>
      s!"segment {base} has invalid committed end {committedEnd}"
  | .recoveredCount base actual expected =>
      s!"segment {base} recovered {actual} records, expected {expected}"
  | .recoveredDigest base actual expected =>
      s!"segment {base} recovered seal digest {actual}, expected {expected}"
  | .recoveredCrc32c base actual expected =>
      s!"segment {base} recovered CRC32C {hex 8 actual}, expected {hex 8 expected}"
  | .pendingNotAcquired => "recovery did not acquire the manifest pending segment"
  | .sequenceOverflow => "segment id sequence overflowed u64"
  | .invalidEnd base segmentEnd => s!"sealed segment {base} has invalid end {segmentEnd}"
  | .noSealedReplicas => "sealed segment has no configured replicas"
  | .noConfiguredReplicas => "active segment has no configured replicas"

inductive SegmentDataFault where
  | recordCount (base expected actual : Nat)
  | quorumCrc32c (base actual expected : Nat)
  deriving DecidableEq, Repr

def SegmentDataFault.text : SegmentDataFault → String
  | .recordCount base expected actual =>
      s!"segment {base} should contain {expected} records but contains {actual}"
  | .quorumCrc32c base actual expected =>
      s!"segment {base} quorum bytes have CRC32C {hex 8 actual}, expected {hex 8 expected}"

inductive VolumeError where
  | protocol (error : ProtocolError)
  | invalidCatalog (fault : CatalogFault)
  | invalidSegmentData (fault : SegmentDataFault)
  | record (error : RecordError)
  | transport (error : TransportError)
  | noReadQuorum
  deriving DecidableEq, Repr

/-- One sealed segment of the chain. -/
structure SegmentDescriptor where
  id : SegmentId
  baseRecordIndex : Nat
  endRecordIndex : Nat
  crc32c : Nat
  /-- The seal is committed and its enforcement may still be on its way. -/
  sealPending : Bool
  deriving DecidableEq, Repr

variable {n : Nat}

/-- The descriptor of a sealed segment with a known number of records. -/
def sealedDescriptor (id : SegmentId) (base records crc32c : Nat) (empty : CatalogFault) :
    Except VolumeError SegmentDescriptor :=
  if records = 0 then .error (.invalidCatalog empty)
  else match checkedAdd base (records - 1) with
    | none => .error (.invalidCatalog .endOverflow)
    | some segmentEnd => .ok ⟨id, base, segmentEnd, crc32c, false⟩

/-- Each distinct content with the number of copies that hold it. -/
def groupCopies (copies : List Bytes) : List (Bytes × Nat) :=
  copies.foldl (fun groups bytes =>
    if groups.any (fun group => group.1 = bytes) then
      groups.map fun group => if group.1 = bytes then (group.1, group.2 + 1) else group
    else groups ++ [(bytes, 1)]) []

/-- The contents that a quorum of finalized copies shares and that decode to the expected number of
records. Two different contents cannot both have a quorum, so the longest is the only one. -/
def quorumContent (quorum : Nat) (expectedRecords : Option Nat) (copies : List Bytes) :
    Option (Bytes × Nat) :=
  ((groupCopies copies).filterMap fun group =>
    match decodeAll group.1 with
    | .error _ => none
    | .ok records =>
      if quorum ≤ group.2 ∧ expectedRecords.all (fun expected => records.length = expected) then
        some (group.1, records.length)
      else none).foldl (fun best content =>
        if best.all fun longest => longest.1.length ≤ content.1.length then some content
        else best) none

/-- A seal that a finalized quorum holds already. The metadata alone decides the healthy case;
otherwise the copies are read. -/
def finalizedSegmentDescriptor (crc : Bytes → Nat) (digest : Bytes → String) (id : SegmentId)
    (base : Nat) (expectedRecords : Option Nat) (expectedDigest : Option String)
    (expectedCrc32c : Nat) : ReplicaProg n (Except VolumeError (Option SegmentDescriptor)) :=
  let fromBytes := (Prog.joinAll fun zone => Prog.replica zone .snapshot).bind fun reads =>
    let finalized := (collect fun zone => (reads zone).toOption).filter fun snapshot =>
      snapshot.finalized && validFormat snapshot.metadata
    if finalized.length < majority n then .ret (.ok none)
    else match quorumContent (majority n) expectedRecords (finalized.map (·.bytes)) with
      | none => .ret (.ok none)
      | some (bytes, records) => .ret do
        failIf (records = 0) (.invalidCatalog (.emptyFinalized base))
        failIf (expectedDigest.any (· ≠ digest bytes)) (.invalidCatalog (.finalizedDigest base))
        failIf (crc bytes ≠ expectedCrc32c)
          (.invalidCatalog (.finalizedCrc32c base (crc bytes) expectedCrc32c))
        (sealedDescriptor id base records expectedCrc32c (.emptyFinalized base)).map some
  match expectedRecords with
  | none => fromBytes
  | some expected => (Prog.joinAll fun zone => Prog.replica zone .stat).bind fun stats =>
    let matching := (collect fun zone => (stats zone).toOption).countP fun snapshot =>
      snapshot.finalized && validFormat snapshot.metadata && snapshot.crc32c = some expectedCrc32c
    if majority n ≤ matching then
      .ret ((sealedDescriptor id base expected expectedCrc32c .zeroRecordSeal).map some)
    else fromBytes

/-- Reconstruct and enforce a seal whose record range is already decided. -/
def enforceCommittedSeal (crc : Bytes → Nat) (digest : Bytes → String) (config : ClientConfig)
    (id : SegmentId) (base committedEnd : Nat) (expectedDigest : Option String)
    (expectedCrc32c : Nat) : ReplicaProg n (Except VolumeError SegmentDescriptor) :=
  if committedEnd < base then
    .ret (.error (.invalidCatalog (.invalidCommittedEnd base committedEnd)))
  else
    let expected := committedEnd - base + 1
    (recoverForSeal crc config (some expected)).bind fun
    | .error error => .ret (.error (.protocol error))
    | .ok recovered =>
      let actual := recovered.canonical.bytes
      if recovered.len ≠ expected then
        .ret (.error (.invalidCatalog (.recoveredCount base recovered.len expected)))
      else match expectedDigest.filter (· ≠ digest actual) with
      | some expected =>
        .ret (.error (.invalidCatalog (.recoveredDigest base (digest actual) expected)))
      | none =>
        if recovered.crc32c ≠ expectedCrc32c then
          .ret (.error (.invalidCatalog (.recoveredCrc32c base recovered.crc32c expectedCrc32c)))
        else (enforceSeal config recovered).bind fun
          | .error error => .ret (.error (.protocol error))
          | .ok () => .ret (.ok ⟨id, base, committedEnd, expectedCrc32c, false⟩)

/-- Finish a seal whose decision is already committed. -/
def recoverAndSealSegment (crc : Bytes → Nat) (digest : Bytes → String) (config : ClientConfig)
    (id : SegmentId) (base committedEnd : Nat) (canonicalRecords : Option Nat)
    (expectedDigest : Option String) (expectedCrc32c : Nat) :
    ReplicaProg n (Except VolumeError SegmentDescriptor) :=
  (finalizedSegmentDescriptor crc digest id base canonicalRecords expectedDigest
    expectedCrc32c).bind fun
  | .error error => .ret (.error error)
  | .ok (some completed) => .ret
      (if completed.endRecordIndex ≠ committedEnd then
        .error (.invalidCatalog (.sealsElsewhere base completed.endRecordIndex committedEnd))
      else .ok completed)
  | .ok none =>
    enforceCommittedSeal crc digest config id base committedEnd expectedDigest expectedCrc32c

/-! ## Reading a sealed segment -/

/-- A copy that is well formed and holds exactly the expected number of complete records. -/
def usableSealedSnapshot (snapshot : ReplicaSnapshot) (expectedRecords : Nat)
    (requireFinalized : Bool) : Bool :=
  (!requireFinalized || snapshot.finalized) && validFormat snapshot.metadata &&
    match decodeAll snapshot.bytes with
    | .ok records => records.length = expectedRecords
    | .error _ => false

/-- A read failure that polling again cannot clear. -/
def permanentReadCode : TransportCode → Bool
  | .permissionDenied | .unauthenticated | .invalidArgument => true
  | _ => false

/-- The longest prefix that a quorum of copies agrees on. -/
def canonicalPrefixBytes (snapshots : List ReplicaSnapshot) (quorum : Nat) :
    Except ProtocolError Bytes :=
  (selectCanonicalQuorum snapshots quorum).map fun selection =>
    ((snapshots[selection.witness]?.map (·.bytes)).getD []).take
      (selection.recordEnds.getLast?.getD 0)

/-- A sealed segment's verified bytes and the records decoded from them. -/
structure SealedSegmentRead where
  bytes : Bytes
  records : List RecordFrame
  deriving DecidableEq, Repr

/-- No single copy could be verified: fall back to a quorum of usable ones. -/
def readSealedQuorum (n : Nat) (crc : Bytes → Nat) (segment : SegmentDescriptor) (expected : Nat)
    (snapshots : List ReplicaSnapshot) (permanent : List TransportError) :
    Except VolumeError SealedSegmentRead :=
  let usable := snapshots.filter fun snapshot => usableSealedSnapshot snapshot expected true
  if usable.length < majority n then
    .error (if majority n ≤ n - permanent.length then .noReadQuorum
      else (permanent.head?.map VolumeError.transport).getD .noReadQuorum)
  else match canonicalPrefixBytes usable (majority n) with
    | .error error => .error (.protocol error)
    | .ok bytes =>
      match decodeAll bytes with
      | .error error => .error (.record error)
      | .ok records => do
        failIf (records.length ≠ expected) (.invalidSegmentData
          (.recordCount segment.baseRecordIndex expected records.length))
        failIf (crc bytes ≠ segment.crc32c) (.invalidSegmentData
          (.quorumCrc32c segment.baseRecordIndex (crc bytes) segment.crc32c))
        return ⟨bytes, records⟩

/-- The loop of `read_sealed_segment_bytes` over the zones. -/
def readSealedLoop (crc : Bytes → Nat) (segment : SegmentDescriptor) (expected : Nat)
    (acceptUnfinalized : Bool) : List (Fin n) → List ReplicaSnapshot → List TransportError →
      ReplicaProg n (Except VolumeError SealedSegmentRead)
  | [], snapshots, permanent => .ret (readSealedQuorum n crc segment expected snapshots permanent)
  | zone :: zones, snapshots, permanent => (Prog.replica zone .snapshot).bind fun
    | .ok snapshot =>
      if snapshot.crc32c = some segment.crc32c ∧ crc snapshot.bytes = segment.crc32c ∧
          usableSealedSnapshot snapshot expected (!acceptUnfinalized) then
        match decodeAll snapshot.bytes with
        | .ok records => .ret (.ok ⟨snapshot.bytes, records⟩)
        | .error error => .ret (.error (.record error))
      else readSealedLoop crc segment expected acceptUnfinalized zones (snapshots ++ [snapshot])
        permanent
    | .error error => readSealedLoop crc segment expected acceptUnfinalized zones snapshots
        (if permanentReadCode error.code then permanent ++ [error] else permanent)

def readSealedSegmentBytes (crc : Bytes → Nat) (segment : SegmentDescriptor)
    (acceptUnfinalized : Bool) : ReplicaProg n (Except VolumeError SealedSegmentRead) :=
  let expected := segment.endRecordIndex - segment.baseRecordIndex + 1
  if segment.endRecordIndex < segment.baseRecordIndex ∨ u64Limit ≤ expected then
    .ret (.error (.invalidCatalog (.invalidEnd segment.baseRecordIndex segment.endRecordIndex)))
  else if n = 0 then .ret (.error (.invalidCatalog .noSealedReplicas))
  else readSealedLoop crc segment expected acceptUnfinalized (List.finRange n) [] []

def readSealedSegment (crc : Bytes → Nat) (segment : SegmentDescriptor) (acceptUnfinalized : Bool) :
    ReplicaProg n (Except VolumeError (List RecordFrame)) :=
  (readSealedSegmentBytes crc segment acceptUnfinalized).bind fun read =>
    .ret (read.map SealedSegmentRead.records)

/-- The records of a segment with their indices, cut to `[start, stop)`. -/
def replayRecords (segment : SegmentDescriptor) (frames : List RecordFrame) (start stop : Nat) :
    List (Nat × RecordFrame) :=
  (frames.mapIdx fun offset frame => (segment.baseRecordIndex + offset, frame)).filter fun record =>
    start ≤ record.1 ∧ record.1 < stop

end Chorus
