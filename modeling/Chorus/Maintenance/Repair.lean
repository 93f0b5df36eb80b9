import Chorus.Volume.Catalog

/-!
# Repair of sealed copies

A repair pass assesses the copies of every sealed segment from one listing for each zone, reads the
committed bytes of a segment that has a damaged copy, and writes them back (`repairSealedPass`). A
listing may be of any age, and any number of passes of current and deposed processes run at once.
-/

namespace Chorus

open Concurrency Quorum

/-- What a listing says about one object. -/
structure ListedObject where
  id : SegmentId
  finalized : Bool
  crc32c : Option Nat
  metadata : Metadata
  deriving DecidableEq, Repr

inductive RepairListOp (n : Nat) : Type → Type where
  | list (zone : Fin n) : RepairListOp n (Except TransportError (List ListedObject))

inductive RepairOp (n : Nat) (β : Type) : Type where
  | replica (id : SegmentId) (op : ZoneOp n β)
  | listing (op : RepairListOp n β)

abbrev RepairProg (n : Nat) := Prog (RepairOp n) n

variable {n : Nat}

/-- Health of one copy as the listing describes it. -/
inductive CopyHealth where
  | healthy
  | damaged
  | unknown
  deriving DecidableEq, Repr

/-- One listing for each zone; a zone whose listing failed is unknown for the pass. Of two objects
with one name the later one counts. -/
abbrev SealedCopyIndex (n : Nat) := Fin n → Except TransportError (List ListedObject)

def SealedCopyIndex.health (index : SealedCopyIndex n) (zone : Fin n) (id : SegmentId)
    (expectedCrc32c : Nat) : CopyHealth :=
  match index zone with
  | .error _ => .unknown
  | .ok listed =>
    match listed.reverse.find? fun object => object.id = id with
    | some found =>
      if found.finalized ∧ validFormat found.metadata ∧ found.crc32c = some expectedCrc32c then
        .healthy
      else .damaged
    | none => .damaged

/-- The step of `repairSealedCopy` that failed. -/
inductive RepairStep where
  | snapshot
  | stat
  | delete
  | replaceAppendable
  | finalize
  deriving DecidableEq, Repr

structure RepairCopyFailure where
  step : RepairStep
  error : TransportError
  deriving DecidableEq, Repr

structure RepairReport where
  segmentsExamined : Nat
  objectsRepaired : Nat
  objectsAlreadyHealthy : Nat
  transientFailures : Nat
  segmentsWithoutSource : Nat
  objectsFailed : Nat
  deriving DecidableEq, Repr

namespace RepairReport

def empty : RepairReport := ⟨0, 0, 0, 0, 0, 0⟩

def assess (report : RepairReport) : CopyHealth → RepairReport
  | .healthy => { report with objectsAlreadyHealthy := report.objectsAlreadyHealthy + 1 }
  | .unknown => { report with transientFailures := report.transientFailures + 1 }
  | .damaged => report

def record (report : RepairReport) : Except RepairCopyFailure Bool → RepairReport
  | .ok true => { report with objectsRepaired := report.objectsRepaired + 1 }
  | .ok false => { report with objectsAlreadyHealthy := report.objectsAlreadyHealthy + 1 }
  | .error failure =>
    if failure.error.code.transient then
      { report with transientFailures := report.transientFailures + 1 }
    else { report with objectsFailed := report.objectsFailed + 1 }

end RepairReport

/-- Send an operation to one copy of a segment object. -/
def sendCopy {β : Type} (id : SegmentId) (zone : Fin n) (op : ReplicaOp β) : RepairProg n β :=
  Prog.send (.replica id (.mk zone op))

/-- Install the committed bytes over the observed copy, or where there is none, and finalize
them. -/
def rewriteCopy (id : SegmentId) (zone : Fin n) (bytes : Bytes) (metadata : Metadata)
    (expectedCrc32c : Nat) (current : Option ReplicaSnapshot) :
    RepairProg n (Except RepairCopyFailure Bool) :=
  (sendCopy id zone (.replaceAppendable current bytes metadata)).bind fun
  | .error error => .ret (.error ⟨.replaceAppendable, error⟩)
  | .ok token =>
    (sendCopy id zone
      (.finalize { token with persistedSize := bytes.length } bytes.length)).bind fun
    | .error error => .ret (.error ⟨.finalize, error⟩)
    | .ok finalized => .ret
        (if finalized.crc32c ≠ some expectedCrc32c then .error ⟨.finalize, ⟨zone, .dataLoss⟩⟩
        else .ok true)

/-- The copy that was read is the committed one already. -/
def copyIsHealthy (snapshot : ReplicaSnapshot) (bytes : Bytes) (metadata : Metadata)
    (expectedCrc32c : Nat) : Bool :=
  snapshot.finalized && decide (snapshot.bytes = bytes) && validFormat snapshot.metadata &&
    decide (snapshot.crc32c = some expectedCrc32c) &&
    metadata.all fun entry => decide (snapshot.metadata.lookup entry.1 = some entry.2)

/-- Repair one copy. A copy whose content cannot be read is deleted first, by the generation that a
metadata read names. -/
def repairSealedCopy (id : SegmentId) (zone : Fin n) (bytes : Bytes) (metadata : Metadata)
    (expectedCrc32c : Nat) : RepairProg n (Except RepairCopyFailure Bool) :=
  (sendCopy id zone .snapshot).bind fun
  | .ok snapshot =>
    if copyIsHealthy snapshot bytes metadata expectedCrc32c then .ret (.ok false)
    else rewriteCopy id zone bytes metadata expectedCrc32c (some snapshot)
  | .error error =>
    if error.code = .notFound then rewriteCopy id zone bytes metadata expectedCrc32c none
    else if error.code = .dataLoss then
      (sendCopy id zone .stat).bind fun
      | .error error => .ret (.error ⟨.stat, error⟩)
      | .ok stat =>
        (sendCopy id zone (.delete stat.generation)).bind fun
        | .ok () => rewriteCopy id zone bytes metadata expectedCrc32c none
        | .error error =>
          if error.code = .notFound then rewriteCopy id zone bytes metadata expectedCrc32c none
          else .ret (.error ⟨.delete, error⟩)
    else .ret (.error ⟨.snapshot, error⟩)

def readOneSealedSource (crc : Bytes → Nat) (segment : SegmentDescriptor) :
    RepairProg n (Except VolumeError Bytes) :=
  ((readSealedSegmentBytes crc segment false).lift fun op => .replica segment.id op).bind
    fun read => .ret (read.map SealedSegmentRead.bytes)

/-- Rewrite the damaged copies of one segment, zone by zone. -/
def repairTargets (id : SegmentId) (bytes : Bytes) (expectedCrc32c : Nat) :
    List (Fin n) → RepairReport → RepairProg n RepairReport
  | [], report => .ret report
  | zone :: zones, report =>
    (repairSealedCopy id zone bytes protocolMetadata expectedCrc32c).bind fun outcome =>
    repairTargets id bytes expectedCrc32c zones (report.record outcome)

/-- The loop over the segments. A segment below the floor or with an unfinished seal is skipped, and
a segment without a readable source does not end the pass. -/
def repairSegments (crc : Bytes → Nat) (index : SealedCopyIndex n) (floor : Nat) :
    List SegmentDescriptor → RepairReport → RepairProg n RepairReport
  | [], report => .ret report
  | segment :: segments, report =>
    if segment.endRecordIndex < floor ∨ segment.sealPending then
      repairSegments crc index floor segments report
    else
      let healths := (List.finRange n).map fun zone =>
        (zone, index.health zone segment.id segment.crc32c)
      let report := healths.foldl (fun report health => report.assess health.2)
        { report with segmentsExamined := report.segmentsExamined + 1 }
      let targets := (healths.filter fun health => health.2 = .damaged).map Prod.fst
      if targets.isEmpty then repairSegments crc index floor segments report
      else (readOneSealedSource crc segment).bind fun
        | .error _ => repairSegments crc index floor segments
            { report with segmentsWithoutSource := report.segmentsWithoutSource + 1 }
        | .ok bytes =>
          (repairTargets segment.id bytes segment.crc32c targets report).bind fun report =>
            repairSegments crc index floor segments report

/-- One repair pass over the sealed segments at the committed floor. -/
def repairSealedPass (crc : Bytes → Nat) (segments : List SegmentDescriptor) (floor : Nat) :
    RepairProg n RepairReport :=
  (Prog.joinAll fun zone => Prog.send (.listing (.list zone))).bind fun index =>
  repairSegments crc index floor segments .empty

end Chorus
