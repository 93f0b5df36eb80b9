import Chorus.Engine.System
import Chorus.Manifest.System

/-!
# An engine with its register

The engine of one incarnation together with the manifest register that its folds go to. The
segmented writer owns one manifest handle; the provisioning worker and the shutdown seal work on
clones of it. Beside the engine's own state stand the names its writer keeps: the id of every
segment, the admitted prefix of every segment with its running digest and checksum, and the identity
of the segment that was swapped out.

Every other process acts on the register as it likes through handles of its own. The maintenance
task of the same incarnation holds clones too, but makes only calls that leave the frontier alone.
What room the cached directory has is still left to the environment.

The last fields record what an observer sees: the fold requests that were submitted, and how they
were answered.
-/

namespace Chorus

open Concurrency RecordFrame

/-! ## The admitted prefix -/

/-- A hasher is the bytes it was given. -/
inductive DigestState where
  | ready (hashed : Bytes)
  /-- A worker hashes the batches in the order in which they were queued. -/
  | pending (hashed : Bytes) (queued : List (List Bytes))
  deriving DecidableEq, Repr

/-- What a segment's writer remembers of the records it admitted. -/
structure AdmittedPrefix where
  records : Nat
  bytes : Nat
  digest : DigestState
  crc32c : Nat
  deriving DecidableEq, Repr

namespace AdmittedPrefix

def empty : AdmittedPrefix := ⟨0, 0, .ready [], 0⟩

def extendMetadata (p : AdmittedPrefix) (chunks : List Bytes) : AdmittedPrefix :=
  chunks.foldl (fun p chunk =>
    { p with
      crc32c := crc32cAppend p.crc32c chunk
      bytes := p.bytes + chunk.length
      records := p.records + 1 }) p

def queueDigest (p : AdmittedPrefix) (chunks : List Bytes) : AdmittedPrefix :=
  match p.digest with
  | .ready hashed => { p with digest := .pending hashed [chunks] }
  | .pending hashed queued => { p with digest := .pending hashed (queued ++ [chunks]) }

def hashNext (p : AdmittedPrefix) : AdmittedPrefix :=
  match p.digest with
  | .pending hashed (chunks :: queued) =>
    { p with digest := .pending (hashed ++ chunks.flatten) queued }
  | _ => p

/-- The bytes that the hasher has seen once the worker has hashed everything. -/
def hashed (p : AdmittedPrefix) : Bytes :=
  match p.digest with
  | .ready hashed => hashed
  | .pending hashed queued => hashed ++ (queued.map List.flatten).flatten

/-- Wait for the worker, read the digest and keep the hasher. -/
def takeDigest (sha256 : Bytes → String) (p : AdmittedPrefix) : String × AdmittedPrefix :=
  (sha256 p.hashed, { p with digest := .ready p.hashed })

end AdmittedPrefix

/-! ## The writer's names -/

/-- The identity of the swapped-out segment, beside the range that `PendingSwap` holds. -/
structure SwapNames where
  id : SegmentId
  digest : String
  crc32c : Nat
  successorId : SegmentId
  deriving DecidableEq, Repr

/-- A fold request, with the swapped-out segment and the segment that was active when it was
made. -/
structure FoldRequest where
  fold : PendingFold
  writer : Option Nat
  active : Nat
  deriving DecidableEq, Repr

/-- What the provisioning worker has for the engine. -/
inductive ProvisionAnswer where
  | registered (id : SegmentId) (handle : Nat)
  | folded (handle : Nat)
  | failed (error : ProtocolError)
  deriving DecidableEq, Repr

/-- The provisioning worker. It works on one attempt at a time, on a manifest handle of its own. -/
inductive ProvisionWorker where
  | idle
  /-- The objects of a spare are being created; it is registered afterwards if a handle was given
  along. -/
  | creating (id : SegmentId) (handle : Option Nat)
  | registering (id : SegmentId) (handle : Nat)
  | folding (handle : Nat)
  | done (answer : ProvisionAnswer)
  deriving DecidableEq, Repr

def ProvisionWorker.handle? : ProvisionWorker → Option Nat
  | .creating _ handle => handle
  | .registering _ handle => some handle
  | .folding handle => some handle
  | .done (.registered _ handle) => some handle
  | .done (.folded handle) => some handle
  | _ => none

/-- How far `seal_active_on_shutdown` has come. A step that is not taken before the deadline is
never taken. -/
inductive ShutdownSeal where
  /-- The loop runs, or has ended without a shutdown command. -/
  | off
  | ready
  /-- The objects of the refill are being created. -/
  | refilling (id : SegmentId) (handle : Nat)
  | folding (handle : Nat)
  | ended
  deriving DecidableEq, Repr

def ShutdownSeal.handle? : ShutdownSeal → Option Nat
  | .refilling _ handle => some handle
  | .folding handle => some handle
  | _ => none

structure LiveWal (n : Nat) where
  engine : Engine n
  manifest : ManifestSystem
  /-- The claim under which the incarnation runs, and the handle of its writer. -/
  claim : WriterClaim
  self : Nat
  nextSegmentSeq : Nat
  ids : Nat → SegmentId
  prefixes : Nat → AdmittedPrefix
  /-- The identity of the segment that waits for its fold. -/
  names : Option SwapNames
  worker : ProvisionWorker
  shutdownSeal : ShutdownSeal
  -- what an observer sees
  requests : List FoldRequest
  /-- The fold calls that have returned, newest first. -/
  answers : List Completion

namespace LiveWal

variable {n : Nat}

inductive Action (n : Nat) where
  /-- A step of the engine, with what its writer does along with it. -/
  | engine (action : Engine.Action n)
  | hash (i : Nat)
  /-- The writer reads the manifest again after a truncation. -/
  | refresh
  | register
  | finishWork
  | sealRefill
  | sealFold
  | finishSeal
  /-- A running call, a request on its way or another process acts on the register. -/
  | manifest (action : ManifestSystem.Action)

/-- The handle belongs to the writer, to the worker or to the shutdown seal. -/
def holds (s : LiveWal n) (i : Nat) : Bool :=
  i == s.self || s.worker.handle? == some i || s.shutdownSeal.handle? == some i

/-- What other tasks and processes may do on the register. Incarnation ids are unique, and only the
engine uses the claim to change the frontier. -/
def permits (s : LiveWal n) : ManifestSystem.Action → Bool
  | .openHandle owner _ _ _ _ => owner != s.claim.owner
  | .offPathAccess _ => true
  | .installUpdate i _ => !s.holds i
  | .call i call =>
    !s.holds i && match s.manifest.handles[i]? with
      | some (.idle m) => m.owner != s.claim.owner || call.isHousekeeping
      | _ => false
  | .step .. => true
  | .finish i => !s.holds i
  | .deliver _ => true

def nextSegmentId (s : LiveWal n) (m : Manifest) : SegmentId :=
  segmentId m.record.epoch s.nextSegmentSeq

def pendingFoldRequest (swap : PendingSwap) (names : SwapNames) (refillId : SegmentId) :
    PendingFold where
  oldTailId := names.id
  oldTailBase := swap.baseRecordIndex
  oldTailEnd := swap.endRecordIndex
  oldTailDigest := names.digest
  oldTailCrc32c := names.crc32c
  consumedPendingId := names.successorId
  successorTailId := names.successorId
  refillPendingId := refillId

def foldRequest (s : LiveWal n) : Option FoldRequest :=
  match s.engine.rotation.swap?, s.names, s.engine.spare with
  | some swap, some names, some spare =>
    some ⟨pendingFoldRequest swap names (s.ids spare.segment), swap.writer, s.engine.activeSegment⟩
  | _, _, _ => none

def submit (s : LiveWal n) (handle : Nat) (request : FoldRequest) : Option (LiveWal n) :=
  (s.manifest.step (.call handle (.foldPending request.fold))).map fun manifest =>
    { s with manifest := manifest, requests := request :: s.requests }

/-- The names of the active segment when it is swapped for the given successor, and its prefix after
the digest was read. -/
def swapNames (sha256 : Bytes → String) (s : LiveWal n) (successor : Nat) :
    SwapNames × AdmittedPrefix :=
  let active := s.engine.activeSegment
  let (digest, admitted) := (s.prefixes active).takeDigest sha256
  (⟨s.ids active, digest, admitted.crc32c, s.ids successor⟩, admitted)

/-! ## What the writer does along with the engine -/

def followRecheck (s : LiveWal n) (e : Engine n) (room : Option Nat) : Option (LiveWal n) :=
  if s.engine.recheckDue then
    match s.manifest.handles[s.self]? with
    | some (.busy _ (.ret (_, outcome))) =>
      if room.isSome = outcome.isOk then
        (s.manifest.step (.finish s.self)).map fun manifest =>
          { s with engine := e, manifest := manifest }
      else none
    | _ => none
  else some { s with engine := e }

/-- An attempt goes to the worker with a clone of the writer's handle; `sent` is what `try_send`
answers. -/
def attempt (s : LiveWal n) (m : Manifest) (handle : Nat) (sent : Bool) :
    ProvisionAttempt → Option (LiveWal n)
  | .fold =>
    match s.foldRequest with
    | none => none
    | some request =>
      if sent then ({ s with worker := .folding handle } : LiveWal n).submit handle request
      else some s
  | .unregistered => some { s with
      nextSegmentSeq := s.nextSegmentSeq + 1
      worker := if sent then .creating (s.nextSegmentId m) none else s.worker }
  | .registered => some { s with
      nextSegmentSeq := s.nextSegmentSeq + 1
      worker := if sent then .creating (s.nextSegmentId m) (some handle) else s.worker }

def followProvision (s : LiveWal n) (e : Engine n) (parts : Except ProtocolError Unit)
    (sent : Bool) : Option (LiveWal n) :=
  if s.engine.spareRequested.isNone && !s.engine.spareRetry then
    match s.engine.nextAttempt with
    | .ok (some attempt) =>
      -- `provision_parts` clones the writer's handle, which fails only without a claim
      match s.manifest.handles[s.self]?, s.manifest.step (.offPathAccess s.self), parts with
      | some (.idle m), some manifest, .ok () =>
        ({ s with manifest := manifest } : LiveWal n).attempt m s.manifest.handles.length
          sent attempt
          |>.map fun s => { s with engine := e }
      | some (.idle _), none, .error _ => some { s with engine := e }
      | _, _, _ => none
    | _ => some { s with engine := e }
  else some { s with engine := e }

/-- `begin_swap` freezes the names of the active segment. -/
def followSwap (sha256 : Bytes → String) (s : LiveWal n) (e : Engine n) : LiveWal n :=
  match s.engine.beginSwap with
  | .ok (some (_, successor)) =>
    let (names, admitted) := s.swapNames sha256 successor
    { s with
      engine := e
      names := some names
      prefixes := Function.update s.prefixes s.engine.activeSegment admitted }
  | _ => { s with engine := e }

def followShutdown (s : LiveWal n) (e : Engine n) : LiveWal n :=
  match s.engine.queue with
  | .shutdown :: _ => if s.engine.pendingRecords = 0 then
      { s with engine := e, shutdownSeal := .ready } else { s with engine := e }
  | _ => { s with engine := e }

/-- A window that a quorum of lanes has reserved extends the prefix. -/
def followReserve (s : LiveWal n) (e : Engine n) : LiveWal n :=
  match s.engine.phase, e.phase with
  | .reserve appends [] _, .send .. =>
    let active := s.engine.activeSegment
    let chunks := appends.map (·.record.chunk)
    { s with
      engine := e
      prefixes := Function.update s.prefixes active ((s.prefixes active).extendMetadata chunks) }
  | _, _ => { s with engine := e }

/-- A window that was handed to the lanes is queued for hashing. -/
def followSend (s : LiveWal n) (e : Engine n) : LiveWal n :=
  match s.engine.phase with
  | .send appends [] _ =>
    let active := s.engine.activeSegment
    let chunks := appends.map (·.record.chunk)
    { s with
      engine := e
      prefixes := Function.update s.prefixes active ((s.prefixes active).queueDigest chunks) }
  | _ => { s with engine := e }

/-- The writer installs what an off-path handle has cached. -/
def installUpdate (s : LiveWal n) (handle : Nat) : Option (LiveWal n) :=
  (s.manifest.step (.installUpdate s.self handle)).map fun manifest =>
    { s with manifest := manifest }

def followProvisioned (s : LiveWal n) (e : Engine n) (outcome : ProvisionOutcome n) :
    Option (LiveWal n) :=
  match outcome, s.worker with
  | .registered _ _, .done (.registered id handle) =>
    (s.installUpdate handle).map fun s => { s with
      engine := e
      ids := Function.update s.ids s.engine.segmentCount id
      worker := .idle }
  | .unregistered _, .creating id none => some { s with
      engine := e
      ids := Function.update s.ids s.engine.segmentCount id
      worker := .idle }
  | .folded _, .done (.folded handle) =>
    (s.installUpdate handle).map fun s => { s with engine := e, names := none, worker := .idle }
  | .failed _, .creating _ _ => some { s with engine := e, worker := .idle }
  | .failed error, .done (.failed error') =>
    if error = error' then some { s with engine := e, worker := .idle } else none
  | .stopped, _ => some { s with engine := e }
  | _, _ => none

/-- What follows from the step of the engine to `e`. -/
def follow (sha256 : Bytes → String) (s : LiveWal n) (e : Engine n) : Engine.Action n →
    Option (LiveWal n)
  | .recheck room => s.followRecheck e room
  | .provision parts sent => s.followProvision e parts sent
  | .swap => some (s.followSwap sha256 e)
  | .checkShutdown => some (s.followShutdown e)
  | .reserveLane _ => some (s.followReserve e)
  | .sendLane _ => some (s.followSend e)
  | .wake (.provisioned outcome) _ => s.followProvisioned e outcome
  | _ => some { s with engine := e }

/-! ## The worker and the shutdown seal -/

def finishWork (s : LiveWal n) : Option (LiveWal n) :=
  match s.worker with
  | .registering id handle =>
    (s.manifest.step (.finish handle)).bind fun manifest =>
      match manifest.completions.head? with
      | none => none
      | some c => some { s with
          manifest := manifest
          worker := .done (match c.outcome with
            | .ok () => .registered id handle
            | .error error => .failed error) }
  | .folding handle =>
    (s.manifest.step (.finish handle)).bind fun manifest =>
      match manifest.completions.head? with
      | none => none
      | some c => some { s with
          manifest := manifest
          worker := .done (match c.outcome with
            | .ok () => .folded handle
            | .error error => .failed error)
          answers := c :: s.answers }
  | _ => none

/-- Graceful shutdown can seal the active segment. -/
def shutdownSealReady (e : Engine n) : Bool :=
  !e.active.isPoisoned && e.active.swapBoundaryReady && e.spareReady && e.directoryHasRoom 1

/-- Provision the refill. A fold that is still due ends the attempt; a seal that is not enforced yet
is waited for. -/
def sealRefill (s : LiveWal n) : Option (LiveWal n) :=
  match s.shutdownSeal, s.manifest.handles[s.self]? with
  | .ready, some (.idle m) =>
    if !s.engine.rotation.hasPendingFold && shutdownSealReady s.engine then
      (s.manifest.step (.offPathAccess s.self)).map fun manifest => { s with
        manifest := manifest
        nextSegmentSeq := s.nextSegmentSeq + 1
        shutdownSeal := .refilling (s.nextSegmentId m) s.manifest.handles.length }
    else none
  | _, _ => none

/-- Swap, adopt the refill and submit the fold. -/
def sealFold (sha256 : Bytes → String) (s : LiveWal n) : Option (LiveWal n) :=
  match s.shutdownSeal with
  | .refilling refillId handle =>
    match s.engine.beginSwap with
    | .ok (some (pending, successor)) =>
      let (names, admitted) := s.swapNames sha256 successor
      ({ s with
        prefixes := Function.update s.prefixes s.engine.activeSegment admitted
        shutdownSeal := .folding handle } : LiveWal n).submit handle
          ⟨pendingFoldRequest pending names refillId, pending.writer, successor⟩
    | _ => some { s with shutdownSeal := .ended }
  | _ => none

def finishSeal (s : LiveWal n) : Option (LiveWal n) :=
  match s.shutdownSeal with
  | .folding handle =>
    (s.manifest.step (.finish handle)).bind fun manifest =>
      match manifest.completions.head? with
      | none => none
      | some c =>
        some { s with manifest := manifest, shutdownSeal := .ended, answers := c :: s.answers }
  | _ => none

def step (crc : Bytes → Nat) (sha256 : Bytes → String) (config : WalEngineConfig) (s : LiveWal n) :
    Action n → Option (LiveWal n)
  | .engine action => (s.engine.step crc config action).bind fun e => s.follow sha256 e action
  | .hash i => some { s with prefixes := Function.update s.prefixes i (s.prefixes i).hashNext }
  | .refresh =>
    match s.engine.phase with
    | .recheck =>
      if s.engine.recheckDue then
        (s.manifest.step (.call s.self .refresh)).map fun manifest =>
          { s with manifest := manifest }
      else none
    | _ => none
  | .register =>
    match s.worker with
    | .creating id (some handle) =>
      (s.manifest.step (.call handle (.registerPending id))).map fun manifest =>
        { s with manifest := manifest, worker := .registering id handle }
    | _ => none
  | .finishWork => s.finishWork
  | .sealRefill => s.sealRefill
  | .sealFold => s.sealFold sha256
  | .finishSeal => s.finishSeal
  | .manifest action =>
    if s.permits action then
      (s.manifest.step action).map fun manifest => { s with manifest := manifest }
    else none

end LiveWal

end Chorus
