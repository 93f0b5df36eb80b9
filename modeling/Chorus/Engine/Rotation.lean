import Chorus.Error

/-!
# Errors and rotation of the append engine

`WalError` is the public error of an append. `Rotation` is the control state of one preregistered
pending segment: the active segment crosses its size target (`due`), is swapped for the registered
spare (`draining`), is folded into the manifest, and is sealed (`sealing`).
-/

namespace Chorus

/-- The internal inconsistencies that the engine reports instead of panicking. -/
inductive InternalFault where
  | admissionBoundary
  | assignedRange (first stop expectedFirst expectedStop : Nat)
  | rotationBoundary (committed admitted : Nat)
  | swapWithoutSpare
  | swapUnregisteredSpare
  | foldWithoutSwap
  | foldWithoutRefill
  deriving DecidableEq, Repr

def InternalFault.text : InternalFault → String
  | .admissionBoundary => "active-segment admission boundary exceeds total admitted bytes"
  | .assignedRange first stop expectedFirst expectedStop =>
      s!"WAL assigned records {first}..{stop}, caller admitted {expectedFirst}..{expectedStop}"
  | .rotationBoundary committed admitted =>
      s!"rotation boundary has {committed} of {admitted} admitted records committed"
  | .swapWithoutSpare => "rotation swap without a spare"
  | .swapUnregisteredSpare => "rotation swap attempted with an unregistered spare"
  | .foldWithoutSwap => "fold readiness without a swap"
  | .foldWithoutRefill => "pending fold has no refill spare"

inductive WalError where
  | closed
  | outOfOrder (expected actual : Nat)
  | sequenceExhausted
  | recordTooLarge (max actual : Nat)
  | activeSegmentFull (max current requested : Nat)
  | internal (fault : InternalFault)
  | protocol (error : ProtocolError)
  deriving DecidableEq, Repr

/-- Whether an append that was admitted and fails with this error may still be found by recovery. -/
def WalError.mayHaveCommitted : WalError → Bool
  | .closed => true
  | .internal _ => true
  | .protocol error =>
    match error with
    | .poisoned | .fenced _ | .pipelineClosed | .transport _ => true
    | _ => false
  | _ => false

/-- A swapped-out segment whose fold is not committed. Recovery leaves no writer behind. -/
structure PendingSwap where
  baseRecordIndex : Nat
  endRecordIndex : Nat
  /-- The segment whose writer is kept for finalization. -/
  writer : Option Nat
  deriving DecidableEq, Repr

inductive Rotation where
  | idle
  | due
  /-- `retry`: a backoff runs. `foldCapacityBlocked`: the fold waits for truncation. -/
  | draining (swap : PendingSwap) (retry foldCapacityBlocked : Bool)
  | sealing
  deriving DecidableEq, Repr

namespace Rotation

def markDue (rotation : Rotation) (due : Bool) : Rotation :=
  match rotation, due with
  | .idle, true => .due
  | rotation, _ => rotation

def swapReady : Rotation → Bool
  | .due => true
  | _ => false

def foldReady (nextCompletion : Nat) : Rotation → Bool
  | .draining swap false false => swap.endRecordIndex < nextCompletion
  | _ => false

def swap? : Rotation → Option PendingSwap
  | .draining swap _ _ => some swap
  | _ => none

def hasPendingFold : Rotation → Bool
  | .draining .. => true
  | _ => false

def retryPending : Rotation → Bool
  | .draining _ true _ => true
  | _ => false

def dispatchPaused (spareReady : Bool) : Rotation → Bool
  | .due => spareReady
  | _ => false

def armFoldRetry : Rotation → Rotation
  | .draining swap _ blocked => .draining swap true blocked
  | rotation => rotation

def retryElapsed : Rotation → Rotation
  | .draining swap _ blocked => .draining swap false blocked
  | rotation => rotation

def blockFoldOnCapacity : Rotation → Rotation
  | .draining swap retry _ => .draining swap retry true
  | rotation => rotation

def releaseFoldCapacityBlock : Rotation → Rotation
  | .draining swap retry _ => .draining swap retry false
  | rotation => rotation

end Rotation

end Chorus
