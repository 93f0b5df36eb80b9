import Chorus.Segment.Recovery
import Mathlib.Data.List.Sort

/-!
# Enforcing a decided prefix

`enforceSeal` leaves a finalized copy with exactly the decided bytes on a quorum of the zones. A
copy with other bytes is replaced by a new generation, conditional on the generation and
metageneration that were read; a copy with the right bytes is fenced and finalized as it is. The
best copy comes last, so that the decided bytes stay durable somewhere throughout.
-/

namespace Chorus

open Concurrency Quorum

variable {n : Nat}

/-- A read that reports an absent object as `none`. -/
def observeWithRetry (config : ClientConfig) (zone : Fin n) :
    ReplicaProg n (Except TransportError (Option ReplicaSnapshot)) :=
  (snapshotWithRetry config zone).bind fun
  | .ok snapshot => .ret (.ok (some snapshot))
  | .error error => .ret (if error.code = .notFound then .ok none else .error error)

/-- Write `data` as a new generation over `observed`. After a transient failure the write may have
been applied: a matching unfinalized copy is its own result, and anything else is the next
precondition. -/
def replaceWithRetry (config : ClientConfig) (zone : Fin n) (data : Bytes) (metadata : Metadata) :
    Nat → Option ReplicaSnapshot → ReplicaProg n (Except TransportError AppendToken)
  | 0, observed => Prog.replica zone (.replaceAppendable observed data metadata)
  | attempts + 1, observed =>
    (Prog.replica zone (.replaceAppendable observed data metadata)).bind fun
    | .ok token => .ret (.ok token)
    | .error error =>
      if error.code.transient then
        (observeWithRetry config zone).bind fun
        | .error error => .ret (.error error)
        | .ok observed =>
          match observed.filter fun current =>
              current.bytes = data ∧ current.metadata = metadata ∧ current.finalized = false with
          | some current => .ret (.ok ⟨current.zone, some current.generation,
              some current.metageneration, data.length, none⟩)
          | none => replaceWithRetry config zone data metadata attempts observed
      else .ret (.error error)

/-- Finalize a copy that holds the decided bytes. A failed precondition sends the caller round its
loop again. -/
def finishWitness (config : ClientConfig) (zone : Fin n) (data : Bytes)
    (again : ReplicaProg n (Except ProtocolError Bool)) (token : AppendToken) :
    ReplicaProg n (Except ProtocolError Bool) :=
  (finalizeWithRetry config zone token data.length config.maxRetries).bind fun
  | .ok _ => .ret (.ok true)
  | .error error =>
    if error.code = .failedPrecondition then again
    else if error.code.transient then .ret (.ok false)
    else .ret (.error (.transport error))

/-- Install and finalize the decided bytes on one zone's copy, starting from what was observed
there. The result says whether the zone now holds the sealed copy. -/
def enforceWitness (config : ClientConfig) (zone : Fin n) (data : Bytes) :
    Nat → Option ReplicaSnapshot → ReplicaProg n (Except ProtocolError Bool)
  | 0, _ => .ret (.ok false)
  | attempts + 1, observed =>
    let again := (observeWithRetry config zone).bind fun
      | .error error => .ret (.error (.transport error))
      | .ok observed => enforceWitness config zone data attempts observed
    match observed.filter fun snapshot => snapshot.bytes = data with
    | some snapshot =>
      if snapshot.finalized then .ret (.ok true)
      else (withRetry (Prog.replica zone (.takeover snapshot)) config.maxRetries).bind fun
        | .error _ => again
        | .ok token => finishWitness config zone data again token
    | none =>
      (replaceWithRetry config zone data protocolMetadata config.maxRetries observed).bind fun
      | .ok token => finishWitness config zone data again token
      | .error error =>
        if error.code = .failedPrecondition then again
        else if error.code.transient then .ret (.ok false)
        else .ret (.error (.transport error))

/-- What enforcement found in one zone before it changes anything. -/
inductive SealObservation where
  /-- The copy that recovery read as sealed is still in place. -/
  | sealed
  | read (result : Except TransportError ReplicaSnapshot)
  deriving DecidableEq, Repr

/-- A copy that recovery read as finalized with the decided bytes is confirmed by its metadata. -/
def observeForSeal (config : ClientConfig) (tail : RecoveredTail) (zone : Fin n) :
    ReplicaProg n SealObservation :=
  let read := (snapshotWithRetry config zone).bind fun result => .ret (.read result)
  match tail.sealedWitnesses.find? fun witness => witness.zone = zone.val with
  | none => read
  | some witness => (statWithRetry config zone).bind fun
    | .error _ => read
    | .ok current =>
      if current.generation = witness.generation ∧ current.finalized ∧
          validFormat current.metadata ∧ current.persistedSize = tail.canonical.bytes.length ∧
          current.crc32c = some tail.crc32c then .ret .sealed
      else read

/-- The zones that are sealed already, those with a copy, and those without. -/
structure SealPlan (n : Nat) where
  finalized : Nat
  witnesses : List (Fin n × ReplicaSnapshot)
  missing : List (Fin n)
  deriving DecidableEq, Repr

namespace SealPlan

def addSealed (plan : SealPlan n) : SealPlan n := { plan with finalized := plan.finalized + 1 }

def addWitness (plan : SealPlan n) (zone : Fin n) (snapshot : ReplicaSnapshot) : SealPlan n :=
  if validFormat snapshot.metadata then
    { plan with witnesses := plan.witnesses ++ [(zone, snapshot)] }
  else plan

def addMissing (plan : SealPlan n) (zone : Fin n) : SealPlan n :=
  { plan with missing := plan.missing ++ [zone] }

end SealPlan

/-- Sort the zones by what was found there. A copy whose content cannot be read is looked up by its
metadata; without bytes it is replaced. -/
def planSeal (config : ClientConfig) (observed : Fin n → SealObservation) :
    List (Fin n) → SealPlan n → ReplicaProg n (Except ProtocolError (SealPlan n))
  | [], plan => .ret (.ok plan)
  | zone :: zones, plan =>
    match observed zone with
    | .sealed => planSeal config observed zones plan.addSealed
    | .read (.ok snapshot) => planSeal config observed zones (plan.addWitness zone snapshot)
    | .read (.error error) =>
      if error.code = .notFound then planSeal config observed zones (plan.addMissing zone)
      else if error.code = .dataLoss then
        (statWithRetry config zone).bind fun
        | .ok snapshot => planSeal config observed zones (plan.addWitness zone snapshot)
        | .error error =>
          if error.code = .notFound then planSeal config observed zones (plan.addMissing zone)
          else if error.code.transient then planSeal config observed zones plan
          else .ret (.error (.transport error))
      else if error.code.transient then planSeal config observed zones plan
      else .ret (.error (.transport error))

/-- How much of the decided bytes a copy shares; the exact copy ranks above all others. -/
def sealRank (data bytes : Bytes) : Nat :=
  let shared := ((bytes.zip data).takeWhile fun pair => pair.1 = pair.2).length
  (if shared = data.length ∧ bytes.length = data.length then data.length else 0) + shared

/-- Enforce the decided bytes zone by zone and count the sealed ones. -/
def enforceAll (config : ClientConfig) (data : Bytes) :
    List (Fin n × Option ReplicaSnapshot) → Nat → ReplicaProg n (Except ProtocolError Nat)
  | [], finalized => .ret (.ok finalized)
  | (zone, observed) :: rest, finalized =>
    (enforceWitness config zone data (config.maxRetries + 1) observed).bind fun
    | .ok true => enforceAll config data rest (finalized + 1)
    | .ok false => enforceAll config data rest finalized
    | .error error => .ret (.error error)

/-- The order in which the zones are rewritten: the shortest matching prefix first, then the zones
without a copy. -/
def SealPlan.targets (plan : SealPlan n) (data : Bytes) : List (Fin n × Option ReplicaSnapshot) :=
  (plan.witnesses.insertionSort fun left right =>
      sealRank data left.2.bytes ≤ sealRank data right.2.bytes).map
    (fun witness => (witness.1, some witness.2)) ++
  plan.missing.map fun zone => (zone, none)

/-- Rewrite and finalize the decided prefix on a quorum of the zones. -/
def enforceSeal (config : ClientConfig) (tail : RecoveredTail) :
    ReplicaProg n (Except ProtocolError Unit) :=
  (Prog.joinAll (observeForSeal config tail)).bind fun observed =>
  (planSeal config observed (List.finRange n) ⟨0, [], []⟩).bind fun
  | .error error => .ret (.error error)
  | .ok plan =>
    (enforceAll config tail.canonical.bytes (plan.targets tail.canonical.bytes) plan.finalized).bind
      fun
    | .error error => .ret (.error error)
    | .ok finalized => .ret (if majority n ≤ finalized then .ok () else .error .noQuorum)

/-- Create an object in every zone and open an append session in each. -/
def createWriter (config : ClientConfig) :
    ReplicaProg n (Except ProtocolError (List AppendToken)) :=
  (Prog.joinAll fun zone => createSessionWithRetry config zone protocolMetadata).bind fun creates =>
  let tokens := collect fun zone => (creates zone).toOption
  .ret (if tokens.length < majority n then .error .noQuorum else .ok tokens)

end Chorus
