import Chorus.Concurrency.Outbox
import Chorus.SlateDb.Progress

/-!
# The observer of the SlateDB adapter

SlateDB follows a writer through its observer: a status, listeners that are called with every change
of the status, and barriers that wait until a WAL id is flushed. A change and its event are queued
under one lock; whoever finds the queue idle drains it, without holding a lock while a listener
runs. A listener may therefore call back into the observer, which only queues further events.

The status changes when progress is published (`Observer::progress`) or when the adapter is closed
directly. Both the forwarding task and a failing writer publish: each takes a snapshot of the
progress, reports its committed position and then closes if it has failed (`Publisher`).
-/

namespace Chorus.SlateDb

open Concurrency

structure WalStatus where
  closedReason : Option WalError
  estimatedBytes : Nat
  lastFlushedWalId : Nat
  lastFlushedSeq : Option UInt64
  bufferedWalEntriesCount : Nat
  deriving DecidableEq, Repr

inductive WalEvent where
  | walFlushed (status : WalStatus)
  | walClosed (status : WalStatus)
  deriving DecidableEq, Repr

/-- Listeners are numbered in the order in which they subscribe. -/
structure ObserverState where
  status : WalStatus
  listeners : List Nat
  admittedRows : Nat
  committedRows : Nat
  deriving DecidableEq, Repr

/-- `usize` is 64 bits wide. -/
def ObserverState.updateBufferedRows (state : ObserverState) : ObserverState :=
  let buffered := min (state.admittedRows - state.committedRows) (u64Limit - 1)
  { state with status := { state.status with bufferedWalEntriesCount := buffered } }

structure Observer where
  state : ObserverState
  events : Outbox WalEvent Nat
  changed : Nat
  /-- A log of all events, the oldest first. -/
  history : List WalEvent
  /-- The number of events before each subscription. -/
  subscriptions : List Nat
  deriving DecidableEq, Repr

namespace Observer

def new (lastFlushedWalId : Nat) : Observer where
  state :=
    { status := ⟨none, 0, lastFlushedWalId, none, 0⟩
      listeners := []
      admittedRows := 0
      committedRows := 0 }
  events := .empty
  changed := 0
  history := []
  subscriptions := []

/-- Change the state and queue the event of the change. -/
def notify (o : Observer) (update : ObserverState → Option (ObserverState × WalEvent × List Nat)) :
    Observer :=
  match update o.state with
  | none => o
  | some (state, event, listeners) => { o with
      state := state
      events := o.events.push event listeners
      history := o.history ++ [event] }

def close (o : Observer) (error : WalError) : Observer :=
  o.notify fun state =>
    if state.status.closedReason.isSome then none
    else
      let status := { state.status with closedReason := some error }
      some ({ state with status := status, listeners := [] }, .walClosed status, state.listeners)

def admitted (o : Observer) (totalRows : Nat) : Observer :=
  { o with state := { o.state with admittedRows := totalRows }.updateBufferedRows }

def committed (o : Observer) (position : Position) : Observer :=
  o.notify fun state =>
    if state.status.closedReason.isSome ∨ position.walId ≤ state.status.lastFlushedWalId then none
    else
      let state := { state with
        status := { state.status with
          lastFlushedWalId := position.walId
          lastFlushedSeq := some position.seq }
        committedRows := position.totalRows }.updateBufferedRows
      some (state, .walFlushed state.status, state.listeners)

/-- `Ok` holds the status of an open writer. -/
def status (o : Observer) : Except WalError WalStatus :=
  match o.state.status.closedReason with
  | some error => .error error
  | none => .ok o.state.status

def subscribe (o : Observer) : Observer :=
  match o.status with
  | .error _ => o
  | .ok _ => { o with
      state := { o.state with listeners := o.state.listeners ++ [o.subscriptions.length] }
      subscriptions := o.subscriptions ++ [o.history.length] }

/-- Replay has read a batch. -/
def replayed (o : Observer) (seq : UInt64) : Observer :=
  { o with state := { o.state with status := { o.state.status with lastFlushedSeq := some seq } } }

/-! ## The drainer -/

def pop (o : Observer) : Option Observer :=
  o.events.pop.map fun events => { o with events := events }

def deliver (o : Observer) : Option Observer :=
  o.events.deliver.map fun events => { o with events := events }

/-- All listeners were called; the barriers are woken. -/
def wake (o : Observer) : Option Observer :=
  o.events.finish.map fun events => { o with events := events, changed := o.changed + 1 }

end Observer

/-! ## Barriers -/

structure Barrier where
  walId : Nat
  /-- The version of `changed` that the barrier has seen. -/
  seen : Nat
  waiting : Bool
  result : Option (Except WalError Unit)
  deriving DecidableEq

def Observer.barrier (o : Observer) (walId : Nat) : Barrier := ⟨walId, o.changed, false, none⟩

/-- One turn of the loop. A barrier that waits goes on when `changed` has moved. -/
def Barrier.poll (barrier : Barrier) (o : Observer) : Option Barrier :=
  if barrier.result.isSome ∨ (barrier.waiting ∧ barrier.seen = o.changed) then none
  else
    let barrier := { barrier with seen := if barrier.waiting then o.changed else barrier.seen }
    if barrier.walId ≤ o.state.status.lastFlushedWalId then
      some { barrier with result := some (.ok ()) }
    else match o.state.status.closedReason with
      | some error => some { barrier with result := some (.error error) }
      | none => some { barrier with waiting := true }

/-! ## Publishers -/

inductive PublisherStage where
  /-- About to take a snapshot of the progress. -/
  | read
  | commit (snapshot : Progress)
  | close (snapshot : Progress)
  /-- The forwarding task waits for the next change. -/
  | wait
  | done
  deriving DecidableEq

structure Publisher where
  forwarding : Bool
  stage : PublisherStage
  deriving DecidableEq

/-- The forwarding task has not ended, so the progress still has a receiver. -/
def Publisher.receives (publisher : Publisher) : Bool :=
  publisher.forwarding && publisher.stage ≠ .done

/-- One step of a publisher, with the observer after it. -/
def Publisher.publish (publisher : Publisher) (progress : Progress) (o : Observer) :
    Option (Publisher × Observer) :=
  match publisher.stage with
  | .read => some ({ publisher with stage := .commit progress }, o)
  | .commit snapshot =>
    some ({ publisher with stage := .close snapshot }, match snapshot.committed with
      | some position => o.committed position
      | none => o)
  | .close snapshot =>
    match snapshot.failure with
    | some error => some ({ publisher with stage := .done }, o.close error)
    | none => some ({ publisher with stage := if publisher.forwarding then .wait else .done }, o)
  | .wait => some ({ publisher with stage := .read }, o)
  | .done => none

/-- The forwarding task ends at its wait: it is aborted, or no sender is left. -/
def Publisher.endForward (publisher : Publisher) : Option Publisher :=
  match publisher.forwarding, publisher.stage with
  | true, .read | true, .wait => some { publisher with stage := .done }
  | _, _ => none

end Chorus.SlateDb
