import Chorus.Volume.World

/-!
# Startup recovery

A new incarnation claims the register, adopts the committed chain, fences the tail and the pending
segment and seals whatever they hold (`prepareRecovery`), replays the chain to the application
(`scanSealedRange`) and opens its writer (`openWriter`). A fold may be left to the engine; the
pending segment is then the active one while the register still names the old tail.
-/

namespace Chorus

open Concurrency RecordFrame

structure VolumeConfig where
  owner : String
  maxDirectoryBytes : Nat
  client : ClientConfig
  deriving DecidableEq, Repr

namespace Volume

/-- A segment that admits nothing any more and whose fold is not committed. -/
structure PendingSwap where
  id : SegmentId
  baseRecordIndex : Nat
  endRecordIndex : Nat
  digest : String
  crc32c : Nat
  /-- The pending segment that the fold names as the new tail. -/
  successorId : SegmentId
  deriving DecidableEq, Repr

/-- A frontier segment with records. -/
structure RecoveredPredecessor where
  id : SegmentId
  baseRecordIndex : Nat
  endRecordIndex : Nat
  digest : String
  crc32c : Nat
  hadProvenGap : Bool
  tail : RecoveredTail
  deriving DecidableEq, Repr

namespace RecoveredPredecessor

def intoPendingFold (p : RecoveredPredecessor) (successorId : SegmentId) : PendingSwap :=
  ⟨p.id, p.baseRecordIndex, p.endRecordIndex, p.digest, p.crc32c, successorId⟩

def descriptor (p : RecoveredPredecessor) : SegmentDescriptor :=
  ⟨p.id, p.baseRecordIndex, p.endRecordIndex, p.crc32c, false⟩

/-- The fold that seals this segment. -/
def fold (p : RecoveredPredecessor) (consumed successor refill : SegmentId) : PendingFold where
  oldTailId := p.id
  oldTailBase := p.baseRecordIndex
  oldTailEnd := p.endRecordIndex
  oldTailDigest := p.digest
  oldTailCrc32c := p.crc32c
  consumedPendingId := consumed
  successorTailId := successor
  refillPendingId := refill

end RecoveredPredecessor

inductive RecoveredCandidate where
  | absent
  | empty (reusableWriter : Option (List AppendToken))
  | nonEmpty (predecessor : RecoveredPredecessor)
  deriving DecidableEq, Repr

/-- The write frontier that recovery has established. -/
structure Frontier where
  /-- The frontier segments that were sealed or are about to be. -/
  predecessors : List SegmentDescriptor
  nextRecordIndex : Nat
  activeId : SegmentId
  /-- The sessions of the active segment; absent if its creation is deferred. -/
  activeWriter : Option (List AppendToken)
  spare : Option (SegmentId × List AppendToken)
  pendingFold : Option PendingSwap
  nextSegmentSeq : Nat
  /-- The document that the manifest handle has cached. -/
  record : ManifestRecord
  deriving DecidableEq, Repr

structure RecoveredWriterState extends Frontier where
  sealedSegments : List SegmentDescriptor
  checkpointFloor : Nat
  /-- The ids that the dead-segment sweep keeps. -/
  keep : List SegmentId
  deriving DecidableEq, Repr

/-- The live entries of the directory, each with its derived end. -/
def chainFrom (tailBase floor : Nat) :
    List DirectoryEntry → Except VolumeError (List (DirectoryEntry × Nat))
  | [] => .ok []
  | entry :: rest => do
    let nextBase := (rest.head?.map DirectoryEntry.base).getD tailBase
    failIf (nextBase = 0) (.invalidCatalog .basesNotPositive)
    failIf (nextBase - 1 < entry.base)
      (.invalidCatalog (.entryOverlaps entry.id entry.base nextBase))
    let chain ← chainFrom tailBase floor rest
    return if nextBase - 1 < floor then chain else (entry, nextBase - 1) :: chain

section Recovery

variable {n : Nat} (crc : Bytes → Nat) (digest : Bytes → String) (config : VolumeConfig)

/-- Adopt the committed chain. Only the most recent seal may still be unenforced; it is finished
here. -/
def adoptChain (adopted : ManifestRecord) :
    List (DirectoryEntry × Nat) → VolumeM n (List SegmentDescriptor)
  | [] => pure []
  | (entry, segmentEnd) :: rest => do
    let segment ←
      if adopted.sealId = some entry.id then
        VolumeM.onObject entry.id
          (recoverAndSealSegment crc digest config.client entry.id entry.base
          segmentEnd (some (segmentEnd - entry.base + 1))
          (if adopted.sealBase = some entry.base then adopted.sealDigest else none) entry.crc32c)
      else pure ⟨entry.id, entry.base, segmentEnd, entry.crc32c, false⟩
    let segments ← adoptChain adopted rest
    return segment :: segments

/-- Fence one frontier segment and recover what it holds. -/
def recoverManifestCandidate (id : SegmentId) (base : Nat) : VolumeM n RecoveredCandidate := do
  match ← VolumeM.onReplicas id (recoverCandidate crc config.client none) with
  | .absent => return .absent
  | .empty reusableWriter => return .empty reusableWriter
  | .nonEmpty tail =>
    if tail.len = 0 then VolumeM.refuse .noCompleteRecords
    else match checkedAdd base (tail.len - 1) with
      | none => VolumeM.refuse .endOverflow
      | some segmentEnd =>
        return .nonEmpty ⟨id, base, segmentEnd, digest tail.canonical.bytes, tail.crc32c,
          tail.hadDiscardedSuffix, tail⟩

def provisionSegment (id : SegmentId) : VolumeM n (List AppendToken) :=
  VolumeM.onReplicas id (createWriter config.client)

def enforcePredecessor (p : RecoveredPredecessor) : VolumeM n Unit :=
  VolumeM.onReplicas p.id (enforceSeal config.client p.tail)

/-- A manifest call of the incarnation that claimed `epoch`. -/
def claimedCall (epoch : Nat) (call : ManifestCall) : VolumeM n ManifestRecord :=
  VolumeM.manifest ⟨call, ⟨epoch, config.owner⟩, config.maxDirectoryBytes⟩

/-- Retire an empty frontier that cannot be reused. -/
def replaceFrontier (adopted : ManifestRecord) (tailId : SegmentId) (seq : Nat) :
    VolumeM n Frontier := do
  let activeId := segmentId adopted.epoch seq
  let pendingId := segmentId adopted.epoch (seq + 1)
  let activeWriter ← provisionSegment config activeId
  let pendingWriter ← provisionSegment config pendingId
  let record ← claimedCall config adopted.epoch
    (.replaceEmptyFrontier (some tailId) adopted.pendingId adopted.tailBase activeId pendingId)
  return ⟨[], adopted.tailBase, activeId, some activeWriter, some (pendingId, pendingWriter), none,
    seq + 2, record⟩

/-- The tail is empty and its sessions were taken over: find a spare. -/
def recoverEmptyTail (adopted : ManifestRecord) (tailId : SegmentId) (writer : List AppendToken)
    (seq : Nat) : VolumeM n Frontier :=
  match adopted.pendingId with
  | none => do
    let pendingId := segmentId adopted.epoch seq
    let pendingWriter ← provisionSegment config pendingId
    let record ← claimedCall config adopted.epoch (.registerPending pendingId)
    return ⟨[], adopted.tailBase, tailId, some writer, some (pendingId, pendingWriter), none,
      seq + 1, record⟩
  | some pendingId => do
    match ← recoverManifestCandidate crc digest config pendingId adopted.tailBase with
    | .empty (some pendingWriter) =>
      return ⟨[], adopted.tailBase, tailId, some writer, some (pendingId, pendingWriter), none, seq,
        adopted⟩
    | .empty none => replaceFrontier config adopted tailId seq
    | .absent => replaceFrontier config adopted tailId seq
    | .nonEmpty _ => VolumeM.refuse .pendingAfterEmptyTail

/-- Seal the tail and open a new frontier behind it. -/
def foldOntoFresh (adopted : ManifestRecord) (tail : RecoveredPredecessor) (pendingId : SegmentId)
    (seq : Nat) (enforceFirst : Bool) : VolumeM n Frontier := do
  let activeId := segmentId adopted.epoch seq
  let replacementId := segmentId adopted.epoch (seq + 1)
  if enforceFirst then enforcePredecessor config tail
  let activeWriter ← provisionSegment config activeId
  let pendingWriter ← provisionSegment config replacementId
  let record ← claimedCall config adopted.epoch
    (.foldPending (tail.fold pendingId activeId replacementId))
  if !enforceFirst then enforcePredecessor config tail
  return ⟨[tail.descriptor], tail.endRecordIndex + 1, activeId, some activeWriter,
    some (replacementId, pendingWriter), none, seq + 2, record⟩

/-- Both frontier segments hold records and the tail has no gap: seal both. -/
def foldBoth (adopted : ManifestRecord) (tail pending : RecoveredPredecessor) (seq : Nat) :
    VolumeM n Frontier := do
  let refillId := segmentId adopted.epoch seq
  let replacementId := segmentId adopted.epoch (seq + 1)
  enforcePredecessor config pending
  let refillWriter ← provisionSegment config refillId
  enforcePredecessor config tail
  let _ ← claimedCall config adopted.epoch
    (.foldPending (tail.fold pending.id pending.id refillId))
  let pendingWriter ← provisionSegment config replacementId
  let record ← claimedCall config adopted.epoch
    (.foldPending (pending.fold refillId refillId replacementId))
  return ⟨[tail.descriptor, pending.descriptor], pending.endRecordIndex + 1, refillId,
    some refillWriter, some (replacementId, pendingWriter), none, seq + 2, record⟩

/-- The tail holds records: walk on to the pending segment. -/
def recoverNonEmptyTail (adopted : ManifestRecord) (tail : RecoveredPredecessor) (seq : Nat) :
    VolumeM n Frontier :=
  match adopted.pendingId with
  | none => do
    let pendingId := segmentId adopted.epoch seq
    let pendingWriter ← provisionSegment config pendingId
    let record ← claimedCall config adopted.epoch (.registerPending pendingId)
    enforcePredecessor config tail
    return ⟨[tail.descriptor], tail.endRecordIndex + 1, pendingId, some pendingWriter, none,
      some (tail.intoPendingFold pendingId), seq + 1, record⟩
  | some pendingId => do
    match ← recoverManifestCandidate crc digest config pendingId (tail.endRecordIndex + 1) with
    | .empty (some writer) =>
      enforcePredecessor config tail
      return ⟨[tail.descriptor], tail.endRecordIndex + 1, pendingId, some writer, none,
        some (tail.intoPendingFold pendingId), seq, adopted⟩
    | .empty none => foldOntoFresh config adopted tail pendingId seq true
    | .nonEmpty pending =>
      -- bytes beyond the recovered tail prefix: no pending record can have been acknowledged
      if tail.hadProvenGap then foldOntoFresh config adopted tail pendingId seq false
      else foldBoth config adopted tail pending seq
    | .absent => VolumeM.refuse .pendingAbsent

/-- Walk the two frontier segments in manifest order. -/
def recoverFrontier (adopted : ManifestRecord) (tailId : SegmentId) (seq : Nat) :
    VolumeM n Frontier :=
  if tailId = segmentId adopted.epoch 0 ∧ adopted.pendingId = none then
    -- the claim minted this id; both objects are created after the replay
    return ⟨[], adopted.tailBase, tailId, none, none, none, seq, adopted⟩
  else do
    match ← recoverManifestCandidate crc digest config tailId adopted.tailBase with
    | .empty (some writer) => recoverEmptyTail crc digest config adopted tailId writer seq
    | .empty none => replaceFrontier config adopted tailId seq
    | .absent => replaceFrontier config adopted tailId seq
    | .nonEmpty tail => recoverNonEmptyTail crc digest config adopted tail seq

def prepareRecovery (checkpoint : Nat) (adopted : ManifestRecord) :
    VolumeM n RecoveredWriterState := do
  VolumeM.check (failIf (checkpoint < adopted.trunc)
    (.invalidCatalog (.checkpointBelowFloor checkpoint adopted.trunc)))
  let chain ← VolumeM.check (chainFrom adopted.tailBase adopted.trunc adopted.segments)
  VolumeM.check (match chain.head? with
    | none => .ok ()
    | some first => failIf (checkpoint < first.1.base ∧ adopted.trunc < first.1.base)
        (.invalidCatalog (.oldestAfterCheckpoint first.1.base checkpoint)))
  let segments ← adoptChain crc digest config adopted chain
  match adopted.tailId with
  | none => VolumeM.refuse .tailMissing
  | some tailId =>
    let seq := if tailId = segmentId adopted.epoch 0 then 1 else 0
    let frontier ← recoverFrontier crc digest config adopted tailId seq
    VolumeM.check (failIf (frontier.nextRecordIndex < checkpoint)
      (.invalidCatalog (.checkpointPastEnd checkpoint frontier.nextRecordIndex)))
    return { frontier with
      sealedSegments := segments ++ frontier.predecessors
      checkpointFloor := adopted.trunc
      keep := adopted.segments.map DirectoryEntry.id ++ adopted.tailId.toList ++
        adopted.pendingId.toList }

/-- The records of the sealed chain in `[start, stop)`. -/
def scanSealedRange (start stop : Nat) : List SegmentDescriptor →
    VolumeM n (List (Nat × RecordFrame))
  | [] => pure []
  | segment :: rest => do
    if segment.endRecordIndex < start ∨ stop ≤ segment.baseRecordIndex then
      scanSealedRange start stop rest
    else
      let frames ← VolumeM.onObject segment.id (readSealedSegment crc segment false)
      let records ← scanSealedRange start stop rest
      return replayRecords segment frames start stop ++ records

structure Recovery where
  checkpoint : Nat
  state : RecoveredWriterState
  records : List (Nat × RecordFrame)
  deriving DecidableEq, Repr

/-- Claim the register, prepare the frontier and replay from the checkpoint. -/
def recover (checkpoint : Nat) : VolumeM n Recovery := do
  let adopted ← VolumeM.manifest ⟨.claim, ⟨0, config.owner⟩, config.maxDirectoryBytes⟩
  let state ← prepareRecovery crc digest config checkpoint adopted
  let records ← scanSealedRange crc checkpoint state.nextRecordIndex state.sealedSegments
  return ⟨checkpoint, state, records⟩

/-! ## Opening the writer -/

/-- The chain and the sessions that the engine starts from. -/
structure SegmentedWriter where
  epoch : Nat
  record : ManifestRecord
  sealedSegments : List SegmentDescriptor
  activeId : SegmentId
  activeWriter : List AppendToken
  baseRecordIndex : Nat
  checkpointFloor : Nat
  keep : List SegmentId
  nextSegmentSeq : Nat
  spareId : SegmentId
  spareWriter : List AppendToken
  spareRegistered : Bool
  pendingFold : Option PendingSwap
  deriving DecidableEq, Repr

/-- Create what recovery deferred, and check that nobody has claimed the register since. -/
def openWriter (state : RecoveredWriterState) : VolumeM n SegmentedWriter := do
  let epoch := state.record.epoch
  let activeWriter ← match state.activeWriter with
    | some writer => pure writer
    | none => provisionSegment config state.activeId
  let (spareId, spareWriter, seq) ← match state.spare with
    | some spare => pure (spare.1, spare.2, state.nextSegmentSeq)
    | none => do
      VolumeM.check (failIf (state.pendingFold = none ∧ state.record.pendingId ≠ none)
        (.invalidCatalog .pendingNotAcquired))
      VolumeM.check (failIf ((checkedAdd state.nextSegmentSeq 1).isNone)
        (.invalidCatalog .sequenceOverflow))
      let pendingId := segmentId epoch state.nextSegmentSeq
      let pendingWriter ← provisionSegment config pendingId
      if state.pendingFold = none then
        let _ ← claimedCall config epoch (.registerPending pendingId)
      pure (pendingId, pendingWriter, state.nextSegmentSeq + 1)
  let record ← claimedCall config epoch .validateOwner
  return { epoch, record, sealedSegments := state.sealedSegments, activeId := state.activeId,
           activeWriter, baseRecordIndex := state.nextRecordIndex
           checkpointFloor := state.checkpointFloor, keep := state.keep, nextSegmentSeq := seq
           spareId, spareWriter, spareRegistered := state.pendingFold = none
           pendingFold := state.pendingFold }

/-- `Recovery::start` up to the start of the engine. -/
def start (recovery : Recovery) : VolumeM n SegmentedWriter := do
  let _ ← claimedCall config recovery.state.record.epoch .validateOwner
  openWriter config recovery.state

end Recovery

end Volume

end Chorus
