import Chorus.Manifest.System
import Chorus.Volume.Catalog
import Mathlib.Data.String.Basic

/-!
# Maintenance passes

Truncation deletes the objects of directory entries that lie wholly below the committed floor and
then drops the entries (`truncatePass`, `cleanupTombstonesPass`). The dead-segment sweep deletes
objects that earlier incarnations left behind (`sweepDeadSegments`). A pass works through the
manifest handle of its task and reads the document that the handle has cached; other processes move
between any two of its operations.
-/

namespace Chorus

open Concurrency Quorum

/-- What a listing says about one object of the segment directory. -/
structure ObjectSummary where
  id : SegmentId
  metadata : Metadata
  deriving DecidableEq, Repr

inductive MaintenanceError where
  | checkpointRegression (current requested : Nat)
  | protocol (error : ProtocolError)
  | transport (error : TransportError)
  deriving DecidableEq, Repr

/-- Which pass issues an operation on an object. The zones do not see it. -/
inductive PassLabel where
  | truncation
  | sweep (claimedEpoch : Nat)
  deriving DecidableEq, Repr

/-- A manifest call on the task's handle: it starts, and its result is awaited. -/
inductive HandleOp : Type → Type where
  | start (call : ManifestCall) : HandleOp Unit
  | await : HandleOp (ManifestRecord × Except ProtocolError Unit)

inductive ListOp (n : Nat) : Type → Type where
  | list (zone : Fin n) : ListOp n (Except TransportError (List ObjectSummary))

inductive MaintenanceOp (n : Nat) (β : Type) : Type where
  | handle (op : HandleOp β)
  | replica (label : PassLabel) (id : SegmentId) (op : ZoneOp n β)
  | listing (op : ListOp n β)

abbrev MaintenanceProg (n : Nat) := Prog (MaintenanceOp n) n

variable {n : Nat}

/-- Run a manifest call; the answer carries the document that the handle has cached at its
return. -/
def manifestCall (call : ManifestCall) :
    MaintenanceProg n (ManifestRecord × Except ProtocolError Unit) :=
  (Prog.send (.handle (.start call))).bind fun _ => Prog.send (.handle .await)

def onCopy {β : Type} (label : PassLabel) (id : SegmentId) (zone : Fin n) (op : ReplicaOp β) :
    MaintenanceProg n β :=
  Prog.send (.replica label id (.mk zone op))

/-! ## Truncation -/

/-- How many copies are known to be gone, and how many of them this pass deleted. -/
structure Absences where
  absent : Nat
  deletedObjects : Nat
  deriving DecidableEq, Repr

namespace Absences

def deleted (a : Absences) : Absences := ⟨a.absent + 1, a.deletedObjects + 1⟩

/-- A stat or a delete failed: the copy was gone already, or the zone is left for the next pass. -/
def failed (a : Absences) (error : TransportError) : Except MaintenanceError Absences :=
  if error.code = .notFound then .ok { a with absent := a.absent + 1 }
  else if error.code.transient then .ok a
  else .error (.transport error)

end Absences

/-- Delete the copies that the stats found, zone by zone. -/
def deleteCopies (id : SegmentId) (snapshots : Fin n → Except TransportError ReplicaSnapshot) :
    List (Fin n) → Absences → MaintenanceProg n (Except MaintenanceError Absences)
  | [], absences => .ret (.ok absences)
  | zone :: zones, absences =>
    match snapshots zone with
    | .error error =>
      match absences.failed error with
      | .error error => .ret (.error error)
      | .ok absences => deleteCopies id snapshots zones absences
    | .ok snapshot => (onCopy .truncation id zone (.delete snapshot.generation)).bind fun
      | .ok () => deleteCopies id snapshots zones absences.deleted
      | .error error =>
        match absences.failed error with
        | .error error => .ret (.error error)
        | .ok absences => deleteCopies id snapshots zones absences

/-- What a pass has deleted so far: copies, the bases of entries that a quorum has lost, and the ids
of entries that every zone has lost. -/
structure Deletions where
  deletedObjects : Nat
  deletedBases : List Nat
  fullyDeleted : List SegmentId
  deriving DecidableEq, Repr

def Deletions.add (n : Nat) (d : Deletions) (entry : DirectoryEntry) (a : Absences) :
    Deletions where
  deletedObjects := d.deletedObjects + a.deletedObjects
  deletedBases := if majority n ≤ a.absent then d.deletedBases ++ [entry.base] else d.deletedBases
  fullyDeleted := if a.absent = n then d.fullyDeleted ++ [entry.id] else d.fullyDeleted

/-- The loop over the cached directory. An entry's end is derived from its successor. -/
def deleteEntries (tailBase floor : Nat) :
    List DirectoryEntry → Deletions → MaintenanceProg n (Except MaintenanceError Deletions)
  | [], deletions => .ret (.ok deletions)
  | entry :: rest, deletions =>
    let nextBase := (rest.head?.map DirectoryEntry.base).getD tailBase
    if nextBase = 0 ∨ floor ≤ nextBase - 1 then deleteEntries tailBase floor rest deletions
    else
      (Prog.joinAll fun zone => onCopy .truncation entry.id zone .stat).bind fun snapshots =>
      (deleteCopies entry.id snapshots (List.finRange n) ⟨0, 0⟩).bind fun
      | .error error => .ret (.error error)
      | .ok absences => deleteEntries tailBase floor rest (deletions.add n entry absences)

structure TruncationReport where
  deletedObjects : Nat
  deletedSegments : Nat
  deriving DecidableEq, Repr

/-- Delete what lies below the floor of the cached document, and drop from the register the entries
that no zone holds any more. The process's own chain loses the entries that a quorum has lost. -/
def deleteSegmentsBelowCommittedFloor (sealedSegments : List SegmentDescriptor)
    (record : ManifestRecord) :
    MaintenanceProg n (List SegmentDescriptor × Except MaintenanceError TruncationReport) :=
  (deleteEntries record.tailBase record.trunc record.segments ⟨0, [], []⟩).bind fun
  | .error error => .ret (sealedSegments, .error error)
  | .ok deletions =>
    let retained := sealedSegments.filter fun segment =>
      segment.baseRecordIndex ∉ deletions.deletedBases
    (manifestCall (.removeSegments deletions.fullyDeleted record.trunc)).bind fun answer =>
    .ret (retained, match answer.2 with
      | .error error => .error (.protocol error)
      | .ok () => .ok ⟨deletions.deletedObjects, sealedSegments.length - retained.length⟩)

/-- Raise the committed floor under the writer's claim, then delete below it. -/
def truncatePass (sealedSegments : List SegmentDescriptor) (checkpointFloor : Nat)
    (claim : WriterClaim) (floor : Nat) :
    MaintenanceProg n (List SegmentDescriptor × Nat × Except MaintenanceError TruncationReport) :=
  if floor < checkpointFloor then
    .ret (sealedSegments, checkpointFloor, .error (.checkpointRegression checkpointFloor floor))
  else (manifestCall (.raiseTrunc claim floor)).bind fun
    | (_, .error error) => .ret (sealedSegments, checkpointFloor, .error (.protocol error))
    | (record, .ok ()) => (deleteSegmentsBelowCommittedFloor sealedSegments record).bind fun r =>
      .ret (r.1, floor, r.2)

/-- Retry the deletions that the committed floor already authorizes. -/
def cleanupTombstonesPass (sealedSegments : List SegmentDescriptor) :
    MaintenanceProg n (List SegmentDescriptor × Except MaintenanceError TruncationReport) :=
  (manifestCall .refresh).bind fun
  | (_, .error error) => .ret (sealedSegments, .error (.protocol error))
  | (record, .ok ()) => deleteSegmentsBelowCommittedFloor sealedSegments record

/-! ## The dead-segment sweep -/

def hexValue (c : Char) : Option Nat :=
  if '0' ≤ c ∧ c ≤ '9' then some (c.toNat - '0'.toNat)
  else if 'a' ≤ c ∧ c ≤ 'f' then some (c.toNat - 'a'.toNat + 10)
  else if 'A' ≤ c ∧ c ≤ 'F' then some (c.toNat - 'A'.toNat + 10)
  else none

/-- Parse hexadecimal digits as `from_str_radix` does, which also takes a leading plus sign. -/
def parseHex (text : List Char) : Option Nat :=
  let digits := match text with
    | '+' :: rest => rest
    | _ => text
  if digits = [] then none
  else digits.foldl (fun value c => do return (← value) * 16 + (← hexValue c)) (some 0)

/-- The epoch in an id of the form that `segmentId` mints. -/
def idEpoch (id : SegmentId) : Option Nat :=
  let text := id.toList.takeWhile (· ≠ '-')
  if '-' ∈ id.toList ∧ text.length = 16 then parseHex text else none

/-- What a claim carries to maintenance: the ids of the document it adopted, and its epoch. -/
structure DeadSegmentSweep where
  keep : List SegmentId
  claimedEpoch : Nat
  deriving DecidableEq, Repr

def DeadSegmentSweep.of (adopted : ManifestRecord) : DeadSegmentSweep where
  keep := adopted.segments.map DirectoryEntry.id ++ adopted.tailId.toList ++
    adopted.pendingId.toList
  claimedEpoch := adopted.epoch

structure DeadSegmentSweepReport where
  orphanSegments : Nat
  deletedObjects : Nat
  deferredOperations : Nat
  failure : Option TransportError
  deriving DecidableEq, Repr

namespace DeadSegmentSweepReport

/-- An operation failed. A copy that is gone is no failure; everything else is left for a later
pass, and the first terminal error is kept. -/
def failed (report : DeadSegmentSweepReport) (error : TransportError) : DeadSegmentSweepReport :=
  if error.code = .notFound then report
  else { report with
    deferredOperations := report.deferredOperations + 1
    failure := if error.code.transient then report.failure
      else if report.failure.isNone then some error else report.failure }

def listFailed (report : DeadSegmentSweepReport) (error : TransportError) :
    DeadSegmentSweepReport :=
  { report with
    deferredOperations := report.deferredOperations + 1
    failure := if error.code.transient then report.failure
      else if report.failure.isNone then some error else report.failure }

end DeadSegmentSweepReport

/-- The listed ids in order, each once. Objects of another format are left alone. -/
def listedIds (listed : List (Except TransportError (List ObjectSummary))) : List SegmentId :=
  let ids := listed.flatMap fun
    | .ok objects => (objects.filter fun object => validFormat object.metadata).map (·.id)
    | .error _ => []
  ids.dedup.insertionSort (· ≤ ·)

/-- An id that the sweep may delete. -/
def DeadSegmentSweep.eligible (sweep : DeadSegmentSweep) (id : SegmentId) : Bool :=
  id ∉ sweep.keep ∧ (idEpoch id).any (· < sweep.claimedEpoch)

def sweepCopies (sweep : DeadSegmentSweep) (id : SegmentId) :
    List (Fin n) → DeadSegmentSweepReport → MaintenanceProg n DeadSegmentSweepReport
  | [], report => .ret report
  | zone :: zones, report =>
    (onCopy (.sweep sweep.claimedEpoch) id zone .stat).bind fun
    | .error error => sweepCopies sweep id zones (report.failed error)
    | .ok snapshot =>
      (onCopy (.sweep sweep.claimedEpoch) id zone (.delete snapshot.generation)).bind fun
      | .error error => sweepCopies sweep id zones (report.failed error)
      | .ok () => sweepCopies sweep id zones
          { report with deletedObjects := report.deletedObjects + 1 }

def sweepIds (sweep : DeadSegmentSweep) :
    List SegmentId → DeadSegmentSweepReport → MaintenanceProg n DeadSegmentSweepReport
  | [], report => .ret report
  | id :: ids, report =>
    if sweep.eligible id then
      (sweepCopies sweep id (List.finRange n)
        { report with orphanSegments := report.orphanSegments + 1 }).bind fun report =>
      sweepIds sweep ids report
    else sweepIds sweep ids report

/-- Delete segment objects that dead incarnations left behind. -/
def sweepDeadSegments (sweep : DeadSegmentSweep) : MaintenanceProg n DeadSegmentSweepReport :=
  (Prog.joinAll fun zone => Prog.send (.listing (.list zone))).bind fun listed =>
  let results := (List.finRange n).map listed
  let report := results.foldl (fun report result => match result with
    | .ok _ => report
    | .error error => report.listFailed error) ⟨0, 0, 0, none⟩
  sweepIds sweep (listedIds results) report

/-- The maintenance task keeps the sweep and runs it again until nothing is deferred. -/
def sweepTask (sweep : DeadSegmentSweep) : Nat → MaintenanceProg n Unit
  | 0 => .ret ()
  | rounds + 1 => (sweepDeadSegments sweep).bind fun report =>
    if report.deferredOperations = 0 then .ret () else sweepTask sweep rounds

/-- A new incarnation claims the register and carries the sweep of what it adopted to its
maintenance task. -/
def claimAndSweep (rounds : Nat) : MaintenanceProg n Unit :=
  (manifestCall .claim).bind fun
  | (_, .error _) => .ret ()
  | (adopted, .ok ()) => sweepTask (.of adopted) rounds

end Chorus
