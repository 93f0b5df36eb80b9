import Chorus.Concurrency.Run
import Chorus.Segment.CommitTracker

/-!
# A commit tracker in use

The five mutators of a tracker in any order: lanes are activated before the first window is
admitted, and the boundaries of all windows together increase. Beside the tracker an observer keeps
every admitted boundary and every offset that each lane was given.
-/

namespace Chorus

/-- A call on the tracker. Offsets are signed, as the service reports them. -/
inductive CommitCall (n : Nat) where
  | activateLane (zone : Fin n) (durable : Int)
  | admitWindow (boundaries : List Nat) (representedZones : List (Fin n))
  | publishDurable (zone : Fin n) (durable : Int)
  | finishLane (zone : Fin n) (error : Option TransportError)
  | poison

structure CommitRun (n : Nat) where
  tracker : CommitTracker n
  /-- The boundaries of all admitted records. -/
  admitted : List Nat
  /-- The offset that a lane was activated at, and those that were published for it since. -/
  offsets : Fin n → List Int

namespace CommitRun

variable {n : Nat}

def init : CommitRun n := ⟨.new, [], fun _ => []⟩

def laneMax (offsets : List Int) : Nat := offsets.foldr (fun offset most => max offset.toNat most) 0

def step (s : CommitRun n) : CommitCall n → Option (CommitRun n)
  | .activateLane zone durable =>
    if s.tracker.admitted = 0 then
      -- a negative offset counts as zero
      some { s with tracker := s.tracker.activateLane zone durable.toNat
                    offsets := Function.update s.offsets zone [durable] }
    else none
  | .admitWindow boundaries representedZones =>
    if boundaries ≠ [] ∧ (∀ b ∈ boundaries, 0 < b) ∧
        (s.admitted ++ boundaries).Pairwise (· < ·) then
      some { s with tracker := s.tracker.admitWindow boundaries representedZones
                    admitted := s.admitted ++ boundaries }
    else none
  | .publishDurable zone durable =>
    -- no lane is below zero, so a negative offset is ignored like any other that is not an advance
    some { s with tracker := s.tracker.publishDurable zone durable.toNat
                  offsets := Function.update s.offsets zone (durable :: s.offsets zone) }
  | .finishLane zone error => some { s with tracker := s.tracker.finishLane zone error }
  | .poison => some { s with tracker := s.tracker.poison }

end CommitRun

end Chorus
