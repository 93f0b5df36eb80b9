import Chorus.Concurrency.Run
import Chorus.Manifest.Register

/-!
# Any number of manifest handles on one register

The handles of all processes share one store. Each handle runs one call at a time; a step of the
system is one store operation of one handle, the delivery of a request that was still on its way,
or the start or the end of a call. Handles are opened by new incarnations, cloned for off-path work
(clones keep a cache of any age) and may adopt each other's results.

The store keeps the author of every write, and the system keeps the calls that were ever issued and
the outcomes of the calls that have returned, with the register versions current at the call and at
the return.
-/

namespace Chorus

open Concurrency

inductive ManifestCall where
  | openHandle
  | claim
  | registerPending (pendingId : SegmentId)
  | replaceEmptyFrontier (expectedTailId expectedPendingId : Option SegmentId) (tailBase : Nat)
      (activeId pendingId : SegmentId)
  | foldPending (fold : PendingFold)
  | raiseTrunc (writer : WriterClaim) (floor : Nat)
  | removeSegments (ids : List SegmentId) (floor : Nat)
  | refresh
  | validateOwner
  deriving DecidableEq, Repr

namespace ManifestCall

def prog (m : Manifest) :
    ManifestCall → Prog StoreOp 0 (Manifest × Except ProtocolError Unit)
  | .openHandle => m.refresh
  | .claim => m.claim
  | .registerPending pendingId => m.registerPending pendingId
  | .replaceEmptyFrontier expectedTailId expectedPendingId tailBase activeId pendingId =>
      m.replaceEmptyFrontier expectedTailId expectedPendingId tailBase activeId pendingId
  | .foldPending fold => m.foldPending fold
  | .raiseTrunc writer floor => m.raiseTrunc writer floor
  | .removeSegments ids floor => m.removeSegments ids floor
  | .refresh => m.refresh
  | .validateOwner => m.validateOwner

/-- The segment ids a call brings into the register. A fold's successor is new unless it is the
pending id the fold consumes. -/
def introduces : ManifestCall → List SegmentId
  | .registerPending pendingId => [pendingId]
  | .replaceEmptyFrontier _ _ _ activeId pendingId => [activeId, pendingId]
  | .foldPending fold =>
      (if fold.successorTailId = fold.consumedPendingId then [] else [fold.successorTailId]) ++
        [fold.refillPendingId]
  | _ => []

/-- The calls of the maintenance task and of readers: they leave claim and frontier alone. -/
def isHousekeeping : ManifestCall → Bool
  | .raiseTrunc .. | .removeSegments .. | .refresh | .validateOwner => true
  | _ => false

end ManifestCall

/-- Who writes to the register: the call, the claim of the handle that runs it and the byte budget
the handle was opened with. -/
structure Author where
  call : ManifestCall
  handle : WriterClaim
  maxDirectoryBytes : Nat
  deriving DecidableEq, Repr

namespace Author

def of (m : Manifest) (call : ManifestCall) : Author := ⟨call, m.claimed, m.maxDirectoryBytes⟩

/-- The claim a call carries. Claiming and removing carry none. -/
def carried (a : Author) : Option WriterClaim :=
  match a.call with
  | .registerPending _ | .replaceEmptyFrontier .. | .foldPending _ => some a.handle
  | .raiseTrunc writer _ => some writer
  | _ => none

/-- The checks that need the handle's own claim come before the transform. -/
def claimed (a : Author) (record : ManifestRecord)
    (transform : WriterClaim → ManifestRecord → Except ProtocolError (CasTransform Unit)) :
    Except ProtocolError (CasTransform Unit) :=
  if a.handle.epoch = 0 then .error (.fenced .noClaim) else transform a.handle record

/-- The decision of a call on a document. -/
def transform (a : Author) (record : ManifestRecord) : Except ProtocolError (CasTransform Unit) :=
  match a.call with
  | .claim =>
    match Manifest.claimTransform a.handle.owner record with
    | .ok (.update next _) => .ok (.update next ())
    | .ok (.done _) => .ok (.done ())
    | .error error => .error error
  | .registerPending pendingId =>
      a.claimed record fun claim => Manifest.registerPendingTransform claim pendingId
  | .replaceEmptyFrontier expectedTailId expectedPendingId tailBase activeId pendingId =>
      a.claimed record fun claim => Manifest.replaceEmptyFrontierTransform claim expectedTailId
        expectedPendingId tailBase activeId pendingId
  | .foldPending fold =>
      a.claimed record fun claim => Manifest.foldPendingTransform claim a.maxDirectoryBytes fold
  | .raiseTrunc writer floor => Manifest.raiseTruncTransform writer floor record
  | .removeSegments ids floor =>
      if ids.isEmpty then .ok (.done ()) else Manifest.removeSegmentsTransform ids floor record
  | .openHandle | .refresh => .ok (.done ())
  | .validateOwner =>
      (Manifest.checkClaim record a.handle.epoch a.handle.owner).map fun _ => .done ()

end Author

/-- A running call: its author, and the versions of the register and of the handle's cache when it
started. -/
structure Running where
  author : Author
  startedAt : Nat
  cachedAt : Nat

/-- One handle: waiting for a call, running one, or gone. -/
inductive HandleState where
  | idle (m : Manifest)
  | busy (call : Running) (prog : Prog StoreOp 0 (Manifest × Except ProtocolError Unit))
  | closed

/-- A call that has returned, with the version current at its return. -/
structure Completion extends Running where
  endedAt : Nat
  outcome : Except ProtocolError Unit

/-- All handles of all processes on one register. -/
structure ManifestSystem where
  store : Store Author
  handles : List HandleState
  issued : List ManifestCall
  /-- Calls that have returned, newest first. -/
  completions : List Completion

namespace ManifestSystem

/-- No handle is open and the register does not exist. -/
def init : ManifestSystem := ⟨Store.empty, [], [], []⟩

inductive Action where
  | openHandle (owner : String) (replicaCount : Nat) (bucketNames : List String)
      (maxDirectoryBytes maxRetries : Nat)
  /-- An off-path handle is cloned from a claimed one. -/
  | offPathAccess (i : Nat)
  /-- Handle `i` adopts the cache of handle `j`. -/
  | installUpdate (i j : Nat)
  | call (i : Nat) (call : ManifestCall)
  | step (i : Nat) (choice : Choice StoreOutcome 0)
  | finish (i : Nat)
  /-- A request that was on its way reaches the store. -/
  | deliver (k : Nat)

def step (s : ManifestSystem) : Action → Option ManifestSystem
  | .openHandle owner replicaCount bucketNames maxDirectoryBytes maxRetries =>
    match Manifest.openHandle owner replicaCount bucketNames maxDirectoryBytes maxRetries with
    | .error _ => none
    | .ok prog => some { s with
        handles := s.handles ++
          [.busy ⟨⟨.openHandle, ⟨0, owner⟩, maxDirectoryBytes⟩, s.store.version, 0⟩ prog] }
  | .offPathAccess i =>
    match s.handles[i]? with
    | some (.idle m) =>
      if m.epoch = 0 then none else some { s with handles := s.handles ++ [.idle m] }
    | _ => none
  | .installUpdate i j =>
    match s.handles[i]?, s.handles[j]? with
    | some (.idle m), some (.idle m') =>
      some { s with handles := s.handles.set i (.idle (m.installUpdate m'.version m'.record)) }
    | _, _ => none
  | .call i call =>
    match s.handles[i]? with
    | some (.idle m) =>
      if call = .openHandle then none
      else some { s with
        handles := s.handles.set i (.busy ⟨.of m call, s.store.version, m.version⟩ (call.prog m))
        issued := call :: s.issued }
    | _ => none
  | .step i choice =>
    match s.handles[i]? with
    | some (.busy running prog) =>
      ((storeMachine running.author).step prog s.store choice).map fun r =>
        { s with store := r.1, handles := s.handles.set i (.busy running r.2) }
    | _ => none
  | .finish i =>
    match s.handles[i]? with
    | some (.busy running (.ret (m, outcome))) =>
      some { s with
        handles := s.handles.set i
          (if running.author.call = .openHandle ∧ ¬ outcome.isOk then .closed else .idle m)
        completions := ⟨running, s.store.version, outcome⟩ :: s.completions }
    | _ => none
  | .deliver k =>
    match s.store.inflight[k]? with
    | some request => some { s with
        store := { s.store.apply request with inflight := s.store.inflight.eraseIdx k } }
    | none => none

end ManifestSystem

end Chorus
