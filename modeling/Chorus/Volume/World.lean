import Chorus.Manifest.System
import Chorus.Volume.Catalog

/-!
# A volume

A volume is the manifest register together with the segment objects of every zone. Programs on a
volume send manifest calls and replica operations. A manifest call takes effect on the register in
one step; how the client gets there with a stale cache and a retry loop is the subject of
`Chorus.Manifest`. A call whose answer is lost may have been applied.

The last fields record what an observer sees: the records dispatched to each segment, how many of
them were acknowledged, and every acknowledged record with its index.
-/

namespace Chorus

open Concurrency RecordFrame

/-- The durable state of a volume and the observer's record of its writers. -/
structure Volume (n : Nat) where
  register : ManifestRecord
  objects : SegmentId → Fin n → Slot
  streams : SegmentId → List RecordFrame
  acked : SegmentId → Nat
  history : List (Nat × RecordFrame)

namespace Volume

variable {n : Nat}

/-- A volume that nobody has opened. -/
def init (n : Nat) (buckets : List String) : Volume n where
  register := .initial buckets
  objects _ _ := .empty
  streams _ := []
  acked _ := 0
  history := []

def setObject (v : Volume n) (id : SegmentId) (slots : Fin n → Slot) : Volume n :=
  { v with objects := Function.update v.objects id slots }

end Volume

/-- The document that a manifest call leaves. -/
def Author.decide (a : Author) (record : ManifestRecord) : Except ProtocolError ManifestRecord :=
  match a.transform record with
  | .error error => .error error
  | .ok (.done ()) => .ok record
  | .ok (.update next ()) =>
    match next.validate with
    | .error fault => .error (.invalidManifest (.record fault))
    | .ok () => .ok next

/-- A manifest call answers with the document the handle has cached. -/
inductive ManifestOp : Type → Type where
  | call (author : Author) : ManifestOp (Except ProtocolError ManifestRecord)

inductive VolumeOp (n : Nat) (β : Type) : Type where
  | manifest (op : ManifestOp β)
  | replica (id : SegmentId) (op : ZoneOp n β)

inductive VolumeOutcome where
  | answered
  | failed (code : TransportCode) (applied : Bool)
  | lost (error : ManifestStoreError) (applied : Bool)
  deriving DecidableEq, Repr

namespace VolumeOutcome

/-- The outcome of a replica operation. -/
def replica? : VolumeOutcome → Option ReplicaOutcome
  | .answered => some .answered
  | .failed code applied => some (.failed code applied)
  | .lost _ _ => none

end VolumeOutcome

/-- How a manifest call reports that the store did not answer. -/
def storeFailure : ManifestStoreError → ProtocolError
  | .backend => .manifestStore .backend
  | _ => .manifestUnavailable

def Volume.manifestCall {n : Nat} (v : Volume n) (author : Author) :
    VolumeOutcome → Option (Volume n × Except ProtocolError ManifestRecord)
  | .answered =>
    match author.decide v.register with
    | .error error => some (v, .error error)
    | .ok next => some ({ v with register := next }, .ok next)
  | .lost error applied =>
    let next := if applied then (author.decide v.register).toOption.getD v.register else v.register
    some ({ v with register := next }, .error (storeFailure error))
  | .failed _ _ => none

def ManifestOp.exec {n : Nat} (v : Volume n) :
    {β : Type} → ManifestOp β → VolumeOutcome → Option (Volume n × β)
  | _, .call author, outcome => v.manifestCall author outcome

def volumeMachine (n : Nat) (crc : Bytes → Nat) :
    Machine (VolumeOp n) (Volume n) VolumeOutcome where
  exec v op outcome :=
    match op with
    | .manifest op => op.exec v outcome
    | .replica id op => outcome.replica?.bind fun outcome =>
      ((replicaMachine n crc).exec (v.objects id) op outcome).map fun r => (v.setObject id r.1, r.2)

abbrev VolumeM (n : Nat) := ExceptT VolumeError (Prog (VolumeOp n) n)

namespace VolumeM

variable {n : Nat} {α : Type}

def onObject (id : SegmentId) (p : ReplicaProg n (Except VolumeError α)) : VolumeM n α :=
  .mk (p.lift fun op => .replica id op)

def onReplicas (id : SegmentId) (p : ReplicaProg n (Except ProtocolError α)) : VolumeM n α :=
  onObject id (p.bind fun r => .ret (r.mapError VolumeError.protocol))

def manifest (author : Author) : VolumeM n ManifestRecord :=
  .mk ((Prog.send (.manifest (.call author))).bind fun r => .ret (r.mapError VolumeError.protocol))

def check (r : Except VolumeError α) : VolumeM n α := .mk (.ret r)

def refuse (fault : CatalogFault) : VolumeM n α := check (.error (.invalidCatalog fault))

end VolumeM

end Chorus
