import Chorus.Segment.Proofs.FrameProofs
import Chorus.Volume.Catalog

/-!
# Majority reads of the active segment

A follower reads an open object from every zone at once, from a byte offset on, and accepts the
longest run of records each of which a majority of the zones holds at the same position. It decides
as soon as the replies so far suffice (`activeReadDecision`); a read that must find the end waits
while the replies that are still pending could make the answer longer (`readActiveQuorum`).
-/

namespace Chorus

open RecordFrame

/-- Records that were decoded from bytes, so that each of them can be encoded again. -/
structure DecodedRecords where
  frames : List RecordFrame
  fits : ∀ frame ∈ frames, frame.Fits

namespace DecodedRecords

def decodeCompletePrefix (bytes : Bytes) : DecodedRecords :=
  ⟨completeRecords bytes, fits_completeRecords bytes⟩

def empty : DecodedRecords := ⟨[], nofun⟩

end DecodedRecords

inductive ActiveReadObservation where
  | pending
  /-- The read produced no usable bytes this poll. -/
  | failed (error : Option TransportError)
  | records (records : DecodedRecords)

namespace ActiveReadObservation

def isPending : ActiveReadObservation → Bool
  | .pending => true
  | _ => false

def isRecords : ActiveReadObservation → Bool
  | .records _ => true
  | _ => false

end ActiveReadObservation

inductive ActiveReadDecision where
  | pending
  | frames (frames : List RecordFrame)
  | noReadQuorum
  deriving DecidableEq, Repr

/-- The votes for the frames at one position, by encoded bytes, and the copies that end before
it. -/
structure FrameVotes where
  votes : List (Bytes × Nat × RecordFrame)
  endVotes : Nat
  deriving DecidableEq, Repr

def FrameVotes.add (v : FrameVotes) (encoded : Bytes) (frame : RecordFrame) : FrameVotes :=
  { v with
    votes :=
      if v.votes.any fun vote => vote.1 = encoded then
        v.votes.map fun vote => if vote.1 = encoded then (vote.1, vote.2.1 + 1, vote.2.2) else vote
      else v.votes ++ [(encoded, 1, frame)] }

/-- The loop over the observations at one position. -/
def countFrames (index : Nat) :
    List ActiveReadObservation → FrameVotes → Except VolumeError FrameVotes
  | [], votes => .ok votes
  | .records records :: observations, votes =>
    match records.frames[index]? with
    | none => countFrames index observations { votes with endVotes := votes.endVotes + 1 }
    | some frame =>
      match frame.encode with
      | .error error => .error (.record error)
      | .ok encoded => countFrames index observations (votes.add encoded frame)
  | _ :: observations, votes => countFrames index observations votes

/-- The loop over the positions; `accepted` holds the frames before `index`. Its rounds are bounded
by the longest observation. -/
def activeReadDecisionFrom (observations : List ActiveReadObservation) (quorum : Nat) :
    Nat → List RecordFrame → Except VolumeError ActiveReadDecision
  | 0, _ => .ok .pending
  | rounds + 1, accepted => do
    let votes ← countFrames accepted.length observations ⟨[], 0⟩
    match votes.votes.find? fun vote => quorum ≤ vote.2.1 with
    | some (_, _, frame) => activeReadDecisionFrom observations quorum rounds (accepted ++ [frame])
    | none =>
      if accepted ≠ [] ∨ quorum ≤ votes.endVotes then return .frames accepted
      else if observations.countP ActiveReadObservation.isPending = 0 then
        if observations.countP ActiveReadObservation.isRecords < quorum then return .noReadQuorum
        else return .frames []
      else return .pending

def longestObservation (observations : List ActiveReadObservation) : Nat :=
  observations.foldr (fun observation longest => match observation with
    | .records records => max records.frames.length longest
    | _ => longest) 0

def activeReadDecision (observations : List ActiveReadObservation) (quorum : Nat) :
    Except VolumeError ActiveReadDecision :=
  activeReadDecisionFrom observations quorum (longestObservation observations + 1) []

/-! ## Reading until a decision -/

structure ActiveReadResult (n : Nat) where
  replicaIndex : Fin n
  byteOffset : Nat
  read : Except TransportError ReplicaRangeRead

/-- The position of a follower in the active segment and its outstanding reads. -/
structure ActiveReadState (n : Nat) where
  byteOffset : Nat
  inflightOffsets : Fin n → Option Nat
  /-- The generation that each zone reported last. -/
  generations : Fin n → Option Nat

namespace ActiveReadState

variable {n : Nat}

/-- Start a read in one zone unless one is outstanding. -/
def startRead (state : ActiveReadState n) (i : Fin n) : ActiveReadState n :=
  if (state.inflightOffsets i).isSome then state
  else
    { state with
      inflightOffsets := Function.update state.inflightOffsets i (some state.byteOffset) }

def ensureReads (state : ActiveReadState n) : ActiveReadState n :=
  (List.finRange n).foldl startRead state

/-- A reply takes its read off the list. -/
def settle (state : ActiveReadState n) (result : ActiveReadResult n) : ActiveReadState n :=
  if state.inflightOffsets result.replicaIndex = some result.byteOffset then
    { state with inflightOffsets := Function.update state.inflightOffsets result.replicaIndex none }
  else state

/-- What a reply says about its zone. A copy that was replaced is skipped for this poll; an end
probe takes an absent object for an empty one. -/
def observe (state : ActiveReadState n) (snapshot : Bool) (result : ActiveReadResult n) :
    Except VolumeError (ActiveReadState n × ActiveReadObservation) :=
  match result.read with
  | .ok read =>
    let next := { state with
      generations := Function.update state.generations result.replicaIndex (some read.generation) }
    match state.generations result.replicaIndex with
    | some seen =>
      if seen ≠ read.generation then .ok (next, .failed none)
      else .ok (next, .records (.decodeCompletePrefix read.bytes))
    | none => .ok (next, .records (.decodeCompletePrefix read.bytes))
  | .error error =>
    if snapshot ∧ error.code = .notFound then .ok (state, .records .empty)
    else if error.code = .unimplemented then .error (.transport ⟨result.replicaIndex, error.code⟩)
    else .ok (state, .failed (some error))

end ActiveReadState

/-- The error to report when permanent failures alone leave too few zones for a quorum. -/
def quorumImpossibleError (replicaCount quorum : Nat) (permanent : List TransportError) :
    Option VolumeError :=
  if quorum ≤ replicaCount - permanent.length then none
  else permanent.head?.map VolumeError.transport

def permanentActiveReadFailure (observations : List ActiveReadObservation) (quorum : Nat) :
    Option VolumeError :=
  quorumImpossibleError observations.length quorum <|
    observations.zipIdx.filterMap fun entry => match entry.1 with
      | .failed (some error) =>
        if permanentReadCode error.code then some ⟨entry.2, error.code⟩ else none
      | _ => none

/-- The observations that may have more records than a decision has frames. -/
def possibleLonger (observations : List ActiveReadObservation) (frames : List RecordFrame) : Nat :=
  observations.countP fun
    | .pending => true
    | .records records => frames.length < records.frames.length
    | .failed _ => false

variable {n : Nat}

/-- The loop over the replies, in the order of their arrival; `none` stands for the end of all
outstanding reads. The result is `none` while the loop waits, and else what it returns, together
with the observations at that point. -/
def readActiveLoop (snapshot : Bool) : ActiveReadState n → (Fin n → ActiveReadObservation) →
    List (Option (ActiveReadResult n)) →
      Option (Except VolumeError (List RecordFrame) × (Fin n → ActiveReadObservation))
  | _, _, [] => none
  | _, observations, none :: _ => some (.error .noReadQuorum, observations)
  | state, observations, some result :: replies =>
    let state := state.settle result
    if result.byteOffset ≠ state.byteOffset then
      readActiveLoop snapshot (state.startRead result.replicaIndex) observations replies
    else
      match state.observe snapshot result with
      | .error error => some (.error error, observations)
      | .ok (state, observation) =>
        let observations := Function.update observations result.replicaIndex observation
        let vector := List.ofFn observations
        match activeReadDecision vector (majority n) with
        | .error error => some (.error error, observations)
        | .ok .pending => readActiveLoop snapshot state observations replies
        | .ok (.frames frames) =>
          -- an end probe waits while pending replies could still establish a longer quorum
          if snapshot = false ∨ vector.all (fun o => !o.isPending) ∨
              possibleLonger vector frames < majority n then
            some (.ok frames, observations)
          else readActiveLoop snapshot state observations replies
        | .ok .noReadQuorum =>
          some (.error ((permanentActiveReadFailure vector (majority n)).getD .noReadQuorum),
            observations)

/-- Read the active segment from the follower's offset until a quorum decides. -/
def readActiveQuorum (snapshot : Bool) (state : ActiveReadState n)
    (replies : List (Option (ActiveReadResult n))) :
    Option (Except VolumeError (List RecordFrame) × (Fin n → ActiveReadObservation)) :=
  if n = 0 then some (.error (.invalidCatalog .noConfiguredReplicas), fun _ => .pending)
  else readActiveLoop snapshot state.ensureReads (fun _ => .pending) replies

end Chorus
