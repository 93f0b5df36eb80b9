import Chorus.Concurrency.Prog
import Chorus.Manifest.Record

/-!
# The manifest register

`Store` is the linearizable compare-and-swap register behind the manifest: the list of documents it
has held, newest first, whose length is the version token. A request may be answered, or fail with
the request dropped, applied, or still on its way (`inflight`), to be applied later if its version
still matches.

`Manifest` is one handle: a claim and a cached document. Its operations are client programs over the
store: `refresh`, the shared retry loop `casTransform` and the six mutators. Each mutator's own
checks and its candidate document are a pure function of the cached document.
-/

namespace Chorus

open Concurrency

/-- One conditional write on its way to the store: it applies only at `version`. -/
structure StoreRequest (A : Type) where
  /-- The version the request witnesses; `0` for the creation of a missing register. -/
  version : Nat
  record : ManifestRecord
  /-- Who sent it; absent for the creation of the register. -/
  author : Option A

/-- The register: every document it has held, newest first, with the author of each write, and the
requests that are still on their way. -/
structure Store (A : Type) where
  /-- Documents held so far, newest first. -/
  history : List (ManifestRecord × Option A)
  /-- Requests whose sender has stopped waiting for them. -/
  inflight : List (StoreRequest A)

namespace Store

variable {A : Type}

def empty : Store A := ⟨[], []⟩

/-- The version token: it grows with every write and is never reused. -/
def version (s : Store A) : Nat := s.history.length

def current (s : Store A) : Option ManifestRecord := s.history.head?.map Prod.fst

def apply (s : Store A) (r : StoreRequest A) : Store A :=
  if s.version = r.version then { s with history := (r.record, r.author) :: s.history } else s

end Store

/-- What became of a write whose response was lost. -/
inductive RequestFate where
  | dropped
  | applied
  | delayed
  deriving DecidableEq, Repr

/-- What a write whose response was lost does to the store. -/
def Store.resolve {A : Type} (s : Store A) (r : StoreRequest A) : RequestFate → Store A
  | .dropped => s
  | .applied => s.apply r
  | .delayed => { s with inflight := r :: s.inflight }

inductive StoreOp : Type → Type where
  | read : StoreOp (Except ManifestStoreError (Option (Nat × ManifestRecord)))
  | create (record : ManifestRecord) : StoreOp (Except ManifestStoreError Nat)
  | update (version : Nat) (record : ManifestRecord) : StoreOp (Except ManifestStoreError Nat)

/-- How the environment lets a store operation end. -/
inductive StoreOutcome where
  | answered
  | unavailable (fate : RequestFate)
  | backend (fate : RequestFate)
  deriving DecidableEq, Repr

def storeMachine {A : Type} (author : A) : Machine StoreOp (Store A) StoreOutcome where
  exec s op ω :=
    match op, ω with
    | .read, .answered => some (s, .ok (s.current.map fun record => (s.version, record)))
    | .read, .unavailable _ => some (s, .error .unavailable)
    | .read, .backend _ => some (s, .error .backend)
    | .create record, .answered =>
        if s.version = 0 then some (s.apply ⟨0, record, none⟩, .ok 1)
        else some (s, .error .alreadyExists)
    | .create record, .unavailable fate =>
        some (s.resolve ⟨0, record, none⟩ fate, .error .unavailable)
    | .create record, .backend fate => some (s.resolve ⟨0, record, none⟩ fate, .error .backend)
    | .update version record, .answered =>
        if s.version = version ∧ version ≠ 0 then
          some (s.apply ⟨version, record, some author⟩, .ok (version + 1))
        else some (s, .error .conflict)
    | .update version record, .unavailable fate =>
        some (if version = 0 then s else s.resolve ⟨version, record, some author⟩ fate,
          .error .unavailable)
    | .update version record, .backend fate =>
        some (if version = 0 then s else s.resolve ⟨version, record, some author⟩ fate,
          .error .backend)

/-- The `(epoch, owner)` pair one writer incarnation was granted. -/
structure WriterClaim where
  epoch : Nat
  owner : String
  deriving DecidableEq, Repr

/-- Inputs to the atomic fold/refill transition. -/
structure PendingFold where
  oldTailId : SegmentId
  oldTailBase : Nat
  oldTailEnd : Nat
  oldTailDigest : String
  oldTailCrc32c : Nat
  consumedPendingId : SegmentId
  successorTailId : SegmentId
  refillPendingId : SegmentId
  deriving DecidableEq, Repr

/-- One manifest handle: configuration, claim and cached document. -/
structure Manifest where
  owner : String
  /-- The claimed epoch, `0` before a claim. -/
  epoch : Nat
  bucketNames : List String
  maxDirectoryBytes : Nat
  maxRetries : Nat
  version : Nat
  record : ManifestRecord
  deriving DecidableEq, Repr

/-- What a mutator decides on the cached document: nothing to do, or a candidate to install. -/
inductive CasTransform (α : Type) where
  | done (value : α)
  | update (record : ManifestRecord) (value : α)
  deriving DecidableEq, Repr

namespace Manifest

variable {n : Nat} {α : Type}

def installCache (m : Manifest) (version : Nat) (record : ManifestRecord) : Manifest :=
  { m with version := version, record := record }

/-- Adopt a state returned by an off-path mutation, unless it is older than the cache. -/
def installUpdate (m : Manifest) (version : Nat) (record : ManifestRecord) : Manifest :=
  if m.version ≤ version then m.installCache version record else m

def directoryHasRoom (m : Manifest) (additional : Nat) : Bool :=
  m.record.directoryHasRoom additional m.maxDirectoryBytes

def claimed (m : Manifest) : WriterClaim := ⟨m.epoch, m.owner⟩

def validateConfiguration (m : Manifest) (record : ManifestRecord) : Except ProtocolError Unit :=
  if record.buckets ≠ m.bucketNames then
    .error (.invalidManifest (.configuration record.buckets m.bucketNames))
  else .ok ()

/-- The checks on a document that was just read. -/
def accepted (m : Manifest) (record : ManifestRecord) : Except ProtocolError Unit :=
  match record.validate with
  | .error fault => .error (.invalidManifest (.record fault))
  | .ok () => m.validateConfiguration record

/-- The loop of `refresh`, for the given number of attempts. -/
def refreshLoop (m : Manifest) : Nat → Prog StoreOp n (Manifest × Except ProtocolError Unit)
  | 0 => .ret (m, .error .manifestUnavailable)
  | attempts + 1 => .call .read fun
    | .ok (some (version, record)) =>
      match m.accepted record with
      | .error error => .ret (m, .error error)
      | .ok () => .ret (m.installCache version record, .ok ())
    | .ok none => .call (.create (ManifestRecord.initial m.bucketNames)) fun
      | .ok version => .ret (m.installCache version (ManifestRecord.initial m.bucketNames), .ok ())
      | .error .backend => .ret (m, .error (.manifestStore .backend))
      | .error _ => refreshLoop m attempts
    | .error .unavailable => refreshLoop m attempts
    | .error error => .ret (m, .error (.manifestStore error))

/-- Re-read the register, creating it with the constant initial record when it is missing. -/
def refresh (m : Manifest) : Prog StoreOp n (Manifest × Except ProtocolError Unit) :=
  m.refreshLoop (m.maxRetries + 1)

def maxCasRounds : Nat := 16

/-- The loop of `cas_transform`: decide on the cached document, validate the candidate, install it
if the register still carries the cached version, and otherwise re-read and decide again. -/
def casLoop (exhausted : ProtocolError)
    (transform : ManifestRecord → Except ProtocolError (CasTransform α)) :
    Nat → Manifest → Prog StoreOp n (Manifest × Except ProtocolError α)
  | 0, m => .ret (m, .error exhausted)
  | rounds + 1, m =>
    match transform m.record with
    | .error error => .ret (m, .error error)
    | .ok (.done value) => .ret (m, .ok value)
    | .ok (.update next value) =>
      match next.validate with
      | .error fault => .ret (m, .error (.invalidManifest (.record fault)))
      | .ok () => .call (.update m.version next) fun
        | .ok version => .ret (m.installCache version next, .ok value)
        | .error .conflict | .error .unavailable => m.refresh.bind fun
          | (m, .error error) => .ret (m, .error error)
          | (m, .ok ()) => casLoop exhausted transform rounds m
        | .error error => .ret (m, .error (.manifestStore error))

def casTransform (m : Manifest) (exhausted : ProtocolError)
    (transform : ManifestRecord → Except ProtocolError (CasTransform α)) :
    Prog StoreOp n (Manifest × Except ProtocolError α) :=
  casLoop exhausted transform maxCasRounds m

/-- The record is owned by exactly `(epoch, owner)`. -/
def checkClaim (record : ManifestRecord) (epoch : Nat) (owner : String) :
    Except ProtocolError Unit :=
  failIf (record.epoch ≠ epoch ∨ record.owner ≠ owner) (.fenced .higherEpoch)

/-- The transform of `claim`: raise the epoch, and name the first segment of a fresh log. -/
def claimTransform (owner : String) (record : ManifestRecord) :
    Except ProtocolError (CasTransform Nat) :=
  match checkedAdd record.epoch 1 with
  | none => .error (.invalidManifest .epochOverflow)
  | some candidate =>
    .ok (.update
      { record with
        epoch := candidate
        owner := owner
        tailId := some (record.tailId.getD (segmentId candidate 0)) }
      candidate)

def registerPendingTransform (claim : WriterClaim) (pendingId : SegmentId)
    (record : ManifestRecord) : Except ProtocolError (CasTransform Unit) := do
  checkClaim record claim.epoch claim.owner
  match record.pendingId with
  | some committed =>
    if committed = pendingId then .ok (.done ()) else .error (.fenced (.pendingSlot committed))
  | none => .ok (.update { record with pendingId := some pendingId } ())

def replaceEmptyFrontierTransform (claim : WriterClaim)
    (expectedTailId expectedPendingId : Option SegmentId) (tailBase : Nat)
    (activeId pendingId : SegmentId) (record : ManifestRecord) :
    Except ProtocolError (CasTransform Unit) := do
  checkClaim record claim.epoch claim.owner
  if record.tailId = some activeId ∧ record.pendingId = some pendingId ∧
      record.tailBase = tailBase then
    .ok (.done ())
  else do
    failIf (record.tailId ≠ expectedTailId ∨ record.pendingId ≠ expectedPendingId ∨
      record.tailBase ≠ tailBase) (.fenced .frontierMoved)
    .ok (.update { record with tailId := some activeId, pendingId := some pendingId } ())

/-- The register already shows the outcome of `fold`. -/
def foldApplied (fold : PendingFold) (record : ManifestRecord) : Prop :=
  record.tailId = some fold.successorTailId ∧
  record.tailBase = saturatingAdd fold.oldTailEnd 1 ∧
  record.pendingId = some fold.refillPendingId ∧
  record.sealId = some fold.oldTailId ∧
  record.sealBase = some fold.oldTailBase ∧
  record.sealDigest = some fold.oldTailDigest

instance (fold : PendingFold) (record : ManifestRecord) : Decidable (foldApplied fold record) :=
  inferInstanceAs (Decidable (_ ∧ _))

/-- The checksum of the last directory entry, if that entry is the folded segment. -/
def committedCrc32c (fold : PendingFold) (record : ManifestRecord) : Option Nat :=
  (record.segments.getLast?.filter fun entry =>
    entry.id = fold.oldTailId ∧ entry.base = fold.oldTailBase).map DirectoryEntry.crc32c

def foldRecord (fold : PendingFold) (record : ManifestRecord) : ManifestRecord :=
  { record with
    segments := record.segments ++ [⟨fold.oldTailId, fold.oldTailBase, fold.oldTailCrc32c⟩]
    tailBase := fold.oldTailEnd + 1
    tailId := some fold.successorTailId
    pendingId := some fold.refillPendingId
    sealBase := some fold.oldTailBase
    sealId := some fold.oldTailId
    sealDigest := some fold.oldTailDigest }

def foldPendingTransform (claim : WriterClaim) (maxDirectoryBytes : Nat) (fold : PendingFold)
    (record : ManifestRecord) : Except ProtocolError (CasTransform Unit) := do
  checkClaim record claim.epoch claim.owner
  if foldApplied fold record then do
    failIf (committedCrc32c fold record ≠ some fold.oldTailCrc32c) (.invalidManifest
      (.foldChecksum (committedCrc32c fold record) fold.oldTailCrc32c))
    .ok (.done ())
  else do
    failIf (record.tailId ≠ some fold.oldTailId ∨ record.tailBase ≠ fold.oldTailBase ∨
      record.pendingId ≠ some fold.consumedPendingId) (.fenced .foldMoved)
    failIf ((checkedAdd fold.oldTailEnd 1).isNone) (.invalidManifest .foldEndOverflow)
    failIf (¬ record.directoryHasRoom 1 maxDirectoryBytes) .segmentDirectoryFull
    .ok (.update (foldRecord fold record) ())

def raiseTruncTransform (claim : WriterClaim) (floor : Nat) (record : ManifestRecord) :
    Except ProtocolError (CasTransform Unit) := do
  checkClaim record claim.epoch claim.owner
  if floor ≤ record.trunc then .ok (.done ())
  else .ok (.update { record with trunc := floor } ())

def removeSegmentsTransform (ids : List SegmentId) (floor : Nat) (record : ManifestRecord) :
    Except ProtocolError (CasTransform Unit) := do
  record.validateRemovals ids floor
  if ¬ record.segments.any (fun entry => entry.id ∈ ids) then .ok (.done ())
  else .ok (.update
    { record with segments := record.segments.filter fun entry => entry.id ∉ ids } ())

/-- Claim a fresh epoch. The handle keeps the granted epoch. -/
def claim (m : Manifest) : Prog StoreOp n (Manifest × Except ProtocolError Unit) :=
  (m.casTransform (.fenced .claimContention) (claimTransform m.owner)).bind fun
    | (m, .ok candidate) => .ret ({ m with epoch := candidate }, .ok ())
    | (m, .error error) => .ret (m, .error error)

/-- A mutator that needs this handle's own claim. -/
def claimedTransform (m : Manifest)
    (transform : WriterClaim → ManifestRecord → Except ProtocolError (CasTransform Unit)) :
    Prog StoreOp n (Manifest × Except ProtocolError Unit) :=
  if m.epoch = 0 then .ret (m, .error (.fenced .noClaim))
  else m.casTransform .manifestUnavailable (transform m.claimed)

/-- Authorise one already-created successor. -/
def registerPending (m : Manifest) (pendingId : SegmentId) :
    Prog StoreOp n (Manifest × Except ProtocolError Unit) :=
  m.claimedTransform fun claim => registerPendingTransform claim pendingId

/-- Replace an unusable empty frontier with two newly created objects. -/
def replaceEmptyFrontier (m : Manifest) (expectedTailId expectedPendingId : Option SegmentId)
    (tailBase : Nat) (activeId pendingId : SegmentId) :
    Prog StoreOp n (Manifest × Except ProtocolError Unit) :=
  m.claimedTransform fun claim =>
    replaceEmptyFrontierTransform claim expectedTailId expectedPendingId tailBase activeId pendingId

/-- Fold the consumed tail into the directory, advance the tail and refill the pending slot. -/
def foldPending (m : Manifest) (fold : PendingFold) :
    Prog StoreOp n (Manifest × Except ProtocolError Unit) :=
  m.claimedTransform fun claim => foldPendingTransform claim m.maxDirectoryBytes fold

/-- Raise the truncation floor while `claim` owns the register. The handle re-reads first, so that a
deposed writer is not told that its cached floor is enough. -/
def raiseTrunc (m : Manifest) (claim : WriterClaim) (floor : Nat) :
    Prog StoreOp n (Manifest × Except ProtocolError Unit) :=
  m.refresh.bind fun
    | (m, .error error) => .ret (m, .error error)
    | (m, .ok ()) => m.casTransform .manifestUnavailable (raiseTruncTransform claim floor)

/-- Drop directory entries below the floor. No claim is needed. -/
def removeSegments (m : Manifest) (ids : List SegmentId) (floor : Nat) :
    Prog StoreOp n (Manifest × Except ProtocolError Unit) :=
  if ids.isEmpty then .ret (m, .ok ())
  else m.casTransform .manifestUnavailable (removeSegmentsTransform ids floor)

/-- Re-read the register and confirm that this handle still holds the epoch. -/
def validateOwner (m : Manifest) : Prog StoreOp n (Manifest × Except ProtocolError Unit) :=
  m.refresh.bind fun
    | (m, .error error) => .ret (m, .error error)
    | (m, .ok ()) => .ret (m, checkClaim m.record m.epoch m.owner)

/-- Open a handle for a new incarnation. The cache it starts with is replaced by `refresh` before
the handle is given out. -/
def openHandle (owner : String) (replicaCount : Nat) (bucketNames : List String)
    (maxDirectoryBytes maxRetries : Nat) :
    Except ProtocolError (Prog StoreOp n (Manifest × Except ProtocolError Unit)) :=
  match validateBucketNames bucketNames with
  | .error fault => .error (.invalidManifest (.record fault))
  | .ok () =>
    if replicaCount ≠ bucketNames.length then
      .error (.invalidManifest (.factoryCount replicaCount bucketNames.length))
    else
      match (ManifestRecord.initial bucketNames).validate with
      | .error fault => .error (.invalidManifest (.record fault))
      | .ok () => .ok (refresh
          { owner, epoch := 0, bucketNames, maxDirectoryBytes, maxRetries, version := 0
            record := ManifestRecord.initial bucketNames })

end Manifest

end Chorus
