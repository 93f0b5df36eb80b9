import Chorus.Concurrency.Run
import Chorus.Segment.CommitTracker
import Chorus.Segment.Recovery

/-!
# One segment, its writer and its recoveries

The writer dispatches records to its lanes; each lane persists some prefix of the stream's bytes,
cut anywhere, for as long as its append session is the current one. What the lanes report moves the
commit watermark. Any number of recoveries run at the same time, each one step at a time, and each
may be interrupted for good.
-/

namespace Chorus

open Concurrency RecordFrame

/-- How the creation of the writer left one zone: with a lane, with an object whose creation was not
answered, or with nothing. -/
inductive ZoneStart where
  | lane
  | unanswered
  | absent
  deriving DecidableEq, Repr

namespace ZoneStart

def slot : ZoneStart → Slot
  | .absent => .empty
  | _ => Slot.empty.install [] protocolMetadata

def session : ZoneStart → Option Nat
  | .lane => some Slot.empty.nextId
  | _ => none

end ZoneStart

structure SegmentSystem (n : Nat) where
  slots : Fin n → Slot
  /-- The append sessions of the writer's lanes. -/
  lanes : Fin n → Option Nat
  stream : List RecordFrame
  commits : CommitTracker n
  recoveries : List (ReplicaProg n (Except ProtocolError RecoveryCandidate))
  recovered : List RecoveryCandidate

namespace SegmentSystem

variable {n : Nat}

def init (start : Fin n → ZoneStart) : SegmentSystem n where
  slots zone := (start zone).slot
  lanes zone := (start zone).session
  stream := []
  commits := { (CommitTracker.new : CommitTracker n) with
    lanes := fun zone => { finished := (start zone).session.isNone } }
  recoveries := []
  recovered := []

inductive Action (n : Nat) where
  /-- A window of records goes to the lanes. -/
  | dispatch (records : List RecordFrame)
  /-- The dispatched window enters the commit tracker. -/
  | admitWindow (representedZones : List (Fin n))
  /-- A lane's object becomes durable up to the given length. -/
  | persist (zone : Fin n) (length : Nat)
  | publishDurable (zone : Fin n) (durable : Nat)
  | finishLane (zone : Fin n) (error : Option TransportError)
  | poison
  | finalizeLane (zone : Fin n)
  | recover (config : ClientConfig)
  | step (i : Nat) (choice : Choice ReplicaOutcome n)
  | finish (i : Nat)
  | interrupt (i : Nat)

/-- The lane's append session is the current one and its object is open. -/
def laneIsLive (s : SegmentSystem n) (zone : Fin n) : Bool :=
  (s.slots zone).copy.any fun c => !c.finalized && (s.lanes zone == some c.session)

def step (crc : Bytes → Nat) (s : SegmentSystem n) : Action n → Option (SegmentSystem n)
  | .dispatch records =>
    if records.all (·.encode.isOk) then some { s with stream := s.stream ++ records } else none
  | .admitWindow representedZones =>
    if s.commits.admitted < s.stream.length then
      let boundaries := (recordEnds s.stream).drop s.commits.admitted
      some { s with commits := s.commits.admitWindow boundaries representedZones }
    else none
  | .persist zone length =>
    match (s.slots zone).copy with
    | none => none
    | some c =>
      if s.laneIsLive zone ∧ c.bytes.length ≤ length ∧ length ≤ (streamBytes s.stream).length then
        let slot := (s.slots zone).append ((streamBytes s.stream).take length)
        some { s with slots := Function.update s.slots zone slot }
      else none
  | .publishDurable zone durable =>
    if (s.lanes zone).isSome ∧ (s.slots zone).copy.any (fun c => durable ≤ c.bytes.length) then
      some { s with commits := s.commits.publishDurable zone durable }
    else none
  | .finishLane zone error => some { s with commits := s.commits.finishLane zone error }
  | .poison => some { s with commits := s.commits.poison }
  | .finalizeLane zone =>
    if s.laneIsLive zone then
      some { s with slots := Function.update s.slots zone (s.slots zone).freeze }
    else none
  | .recover config =>
    some { s with recoveries := s.recoveries ++ [recoverCandidate crc config none] }
  | .step i choice =>
    match s.recoveries[i]? with
    | none => none
    | some prog =>
      ((replicaMachine n crc).step prog s.slots choice).map fun r =>
        { s with slots := r.1, recoveries := s.recoveries.set i r.2 }
  | .finish i =>
    match s.recoveries[i]? with
    | some (.ret (.ok candidate)) =>
      some { s with recoveries := s.recoveries.eraseIdx i, recovered := candidate :: s.recovered }
    | some (.ret (.error _)) => some { s with recoveries := s.recoveries.eraseIdx i }
    | _ => none
  | .interrupt i => some { s with recoveries := s.recoveries.eraseIdx i }

end SegmentSystem

end Chorus
