import Chorus.Concurrency.Run

/-!
# The command queue of the maintenance task

Calls on the handle send commands through a bounded channel. The task moves them to its own queue
and executes them one at a time. A truncation that is queued behind a truncation merges into it; a
seal owns a swapped-out writer and is a barrier.

`next_command` waits only for the first command, and while it waits it holds nothing, so dropping it
(when a tick or a seal retry wins the select) loses nothing and is no step here. Each call is known
by its place in the order of arrival, which also names the one-shot channel that it waits on.
-/

namespace Chorus

/-- A call on the maintenance handle. `σ` is a swapped-out segment. -/
inductive MaintenanceRequest (σ : Type) where
  | sealSegment (segment : σ)
  | truncate (floor : Nat)
  deriving DecidableEq, Repr

inductive MaintenanceCmd (σ : Type) where
  | sealSegment (segment : σ) (enforced : Nat)
  | truncate (floor : Nat) (responses : List Nat)
  deriving DecidableEq, Repr

variable {σ ρ : Type}

def MaintenanceRequest.command (sender : Nat) : MaintenanceRequest σ → MaintenanceCmd σ
  | .sealSegment segment => .sealSegment segment sender
  | .truncate floor => .truncate floor [sender]

/-- The callers that wait for the result of a truncation. -/
def MaintenanceCmd.responses : MaintenanceCmd σ → List Nat
  | .sealSegment _ _ => []
  | .truncate _ responses => responses

def pushCommand (pending : List (MaintenanceCmd σ)) (command : MaintenanceCmd σ) :
    List (MaintenanceCmd σ) :=
  match pending.getLast?, command with
  | some (.truncate queuedFloor queuedResponses), .truncate floor responses =>
    pending.dropLast ++
      [.truncate (if queuedFloor < floor then floor else queuedFloor)
        (queuedResponses ++ responses)]
  | _, command => pending ++ [command]

def maintenanceCommandCapacity : Nat := 64

/-- Where the task stands between two commands. -/
inductive CommandPhase (σ : Type) where
  /-- At the head of the loop of `next_command`. -/
  | waiting
  /-- A first command has come; the others that are there follow. -/
  | receiving
  | executing (command : MaintenanceCmd σ)
  | stopped
  deriving DecidableEq, Repr

/-- The channel and the task behind it. `ρ` is the result of a truncation. -/
structure CommandTask (σ ρ : Type) where
  commands : List (MaintenanceCmd σ)
  closed : Bool
  pending : List (MaintenanceCmd σ)
  phase : CommandPhase σ
  /-- Calls in the order in which the channel took them. -/
  arrived : List (MaintenanceRequest σ)
  executed : List (MaintenanceCmd σ)
  answers : List (Nat × ρ)

namespace CommandTask

def init : CommandTask σ ρ := ⟨[], false, [], .waiting, [], [], []⟩

inductive Action (σ ρ : Type) where
  | enqueue (request : MaintenanceRequest σ)
  /-- The receiver closes the channel, or the last handle is gone. -/
  | close
  | next
  /-- `received` is false where the channel says that it is empty. -/
  | tryRecv (received : Bool)
  | execute (result : ρ)

/-- One round of the loop of `next_command`. -/
def nextCommand (s : CommandTask σ ρ) : Option (CommandTask σ ρ) :=
  match s.pending with
  | command :: pending => some { s with pending := pending, phase := .executing command }
  | [] =>
    match s.commands with
    | command :: commands =>
      some { s with commands := commands, pending := pushCommand [] command, phase := .receiving }
    | [] => if s.closed then some { s with phase := .stopped } else none

def step (s : CommandTask σ ρ) : Action σ ρ → Option (CommandTask σ ρ)
  | .enqueue request =>
    if s.closed ∨ maintenanceCommandCapacity ≤ s.commands.length then none
    else some { s with
      commands := s.commands ++ [request.command s.arrived.length]
      arrived := s.arrived ++ [request] }
  | .close => some { s with closed := true }
  | .next =>
    match s.phase with
    | .waiting => s.nextCommand
    | _ => none
  | .tryRecv received =>
    match s.phase, s.commands with
    | .receiving, command :: commands =>
      if received then
        some { s with commands := commands, pending := pushCommand s.pending command }
      else some { s with phase := .waiting }
    | .receiving, [] => if received then none else some { s with phase := .waiting }
    | _, _ => none
  | .execute result =>
    match s.phase with
    | .executing command =>
      some { s with
        phase := .waiting
        executed := s.executed ++ [command]
        answers := s.answers ++ command.responses.map fun response => (response, result) }
    | _ => none

end CommandTask

end Chorus
