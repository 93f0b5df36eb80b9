import Mathlib.Algebra.Ring.Nat
import Mathlib.Data.List.Basic
import Mathlib.Tactic.Common

/-!
# An outbox with one drainer

Messages with their receivers are queued in an outbox. The one who finds it idle becomes its
drainer: it takes the oldest message, hands it to the receivers one by one without holding the
outbox, and goes on until nothing is queued. Further messages may be queued at any point of that.

`trail` is what a receiver has got and is still to get, in order. Queueing a message adds it to the
trails of its receivers, and no step of the drainer changes a trail. Every step of the drainer makes
the `load` smaller, so the drainer is done after finitely many of them.
-/

namespace Concurrency

universe u v

structure Outbox (α : Type u) (β : Type v) where
  publishing : Bool
  pending : List (α × List β)
  /-- The message in the drainer's hands and the receivers that have not got it yet. -/
  delivering : Option (α × List β)
  /-- A log of the deliveries, the oldest first. -/
  received : List (β × α)
  deriving DecidableEq, Repr

namespace Outbox

variable {α : Type u} {β : Type v}

def empty : Outbox α β := ⟨false, [], none, []⟩

/-- Queue a message. If nobody publishes, the caller does from now on. -/
def push (o : Outbox α β) (message : α) (receivers : List β) : Outbox α β :=
  { o with publishing := true, pending := o.pending ++ [(message, receivers)] }

/-- The drainer looks for the next message; without one it is done. -/
def pop (o : Outbox α β) : Option (Outbox α β) :=
  match o.publishing, o.delivering, o.pending with
  | true, none, [] => some { o with publishing := false }
  | true, none, next :: pending => some { o with pending := pending, delivering := some next }
  | _, _, _ => none

/-- The drainer hands its message to the next receiver. -/
def deliver (o : Outbox α β) : Option (Outbox α β) :=
  match o.delivering with
  | some (message, receiver :: receivers) => some { o with
      delivering := some (message, receivers)
      received := o.received ++ [(receiver, message)] }
  | _ => none

def finish (o : Outbox α β) : Option (Outbox α β) :=
  match o.delivering with
  | some (_, []) => some { o with delivering := none }
  | _ => none

/-- A message is queued or in the drainer's hands. -/
def Holds (o : Outbox α β) : Prop := o.delivering ≠ none ∨ o.pending ≠ []

/-- An idle outbox holds no message, and each message names a receiver once. -/
structure Sound (o : Outbox α β) : Prop where
  idle : o.publishing = false → o.delivering = none ∧ o.pending = []
  nodup : ∀ message ∈ o.delivering.toList ++ o.pending, message.2.Nodup

variable {o o' : Outbox α β} {receiver : β}

theorem sound_empty : (empty : Outbox α β).Sound where
  idle _ := ⟨rfl, rfl⟩
  nodup := by simp [empty]

theorem Sound.push (h : o.Sound) (message : α) {receivers : List β} (hnodup : receivers.Nodup) :
    (o.push message receivers).Sound where
  idle hidle := by cases hidle
  nodup queued hqueued := by
    rw [Outbox.push, ← List.append_assoc] at hqueued
    rcases List.mem_append.1 hqueued with hold | hnew
    · exact h.nodup queued hold
    · rw [List.mem_singleton.1 hnew]
      exact hnodup

theorem pop_cases (h : o.pop = some o') :
    (o.publishing = true ∧ o.delivering = none ∧ o.pending = [] ∧
      o' = { o with publishing := false }) ∨
    ∃ next pending, o.delivering = none ∧ o.pending = next :: pending ∧
      o' = { o with pending := pending, delivering := some next } := by
  unfold pop at h
  split at h
  · next hpublishing hdelivering hpending =>
    exact .inl ⟨hpublishing, hdelivering, hpending, (Option.some.inj h).symm⟩
  · next next pending _ hdelivering hpending =>
    exact .inr ⟨next, pending, hdelivering, hpending, (Option.some.inj h).symm⟩
  · cases h

theorem deliver_cases (h : o.deliver = some o') :
    ∃ message next receivers, o.delivering = some (message, next :: receivers) ∧
      o' = { o with
        delivering := some (message, receivers)
        received := o.received ++ [(next, message)] } := by
  unfold deliver at h
  split at h
  · next message next receivers hdelivering =>
    exact ⟨message, next, receivers, hdelivering, (Option.some.inj h).symm⟩
  · cases h

theorem finish_cases (h : o.finish = some o') :
    ∃ message, o.delivering = some (message, []) ∧ o' = { o with delivering := none } := by
  unfold finish at h
  split at h
  · next message hdelivering => exact ⟨message, hdelivering, (Option.some.inj h).symm⟩
  · cases h

theorem Sound.pop (hsound : o.Sound) (h : o.pop = some o') : o'.Sound := by
  obtain ⟨-, hdelivering, hpending, rfl⟩ | ⟨next, pending, hdelivering, hpending, rfl⟩ :=
    pop_cases h
  · exact ⟨fun _ => ⟨hdelivering, hpending⟩, hsound.nodup⟩
  · refine ⟨fun hidle => ?_, ?_⟩
    · have := (hsound.idle hidle).2
      simp [hpending] at this
    · have hnodup := hsound.nodup
      rw [hdelivering, hpending] at hnodup
      exact hnodup

theorem Sound.deliver (hsound : o.Sound) (h : o.deliver = some o') : o'.Sound := by
  obtain ⟨message, next, receivers, hdelivering, rfl⟩ := deliver_cases h
  refine ⟨fun hidle => ?_, ?_⟩
  · have := (hsound.idle hidle).1
    simp [hdelivering] at this
  · have hnodup := hsound.nodup
    rw [hdelivering] at hnodup
    simp only [Option.toList_some, List.singleton_append, List.mem_cons,
      forall_eq_or_imp] at hnodup ⊢
    exact ⟨hnodup.1.of_cons, hnodup.2⟩

theorem Sound.finish (hsound : o.Sound) (h : o.finish = some o') : o'.Sound := by
  obtain ⟨message, hdelivering, rfl⟩ := finish_cases h
  refine ⟨fun hidle => ?_, fun queued hqueued => ?_⟩
  · have := (hsound.idle hidle).1
    simp [hdelivering] at this
  · exact hsound.nodup queued (List.mem_append_right _ hqueued)

variable [DecidableEq β]

def receivedBy (o : Outbox α β) (receiver : β) : List α :=
  o.received.filterMap fun delivery => if delivery.1 = receiver then some delivery.2 else none

/-- The messages among the given ones that go to a receiver. -/
def addressedTo (receiver : β) (messages : List (α × List β)) : List α :=
  messages.filterMap fun message => if receiver ∈ message.2 then some message.1 else none

def outstandingTo (o : Outbox α β) (receiver : β) : List α :=
  addressedTo receiver (o.delivering.toList ++ o.pending)

def trail (o : Outbox α β) (receiver : β) : List α :=
  o.receivedBy receiver ++ o.outstandingTo receiver

theorem addressedTo_append (messages later : List (α × List β)) :
    addressedTo receiver (messages ++ later) =
      addressedTo receiver messages ++ addressedTo receiver later := List.filterMap_append

theorem addressedTo_singleton (message : α) (receivers : List β) :
    addressedTo receiver [(message, receivers)] = if receiver ∈ receivers then
      [message] else [] := by
  by_cases h : receiver ∈ receivers <;> simp [addressedTo, h]

theorem trail_push (message : α) (receivers : List β) :
    (o.push message receivers).trail receiver =
      o.trail receiver ++ if receiver ∈ receivers then [message] else [] := by
  have houtstanding : (o.push message receivers).outstandingTo receiver =
      o.outstandingTo receiver ++ if receiver ∈ receivers then [message] else [] := by
    unfold outstandingTo
    rw [Outbox.push, ← List.append_assoc, addressedTo_append, addressedTo_singleton]
  rw [trail, houtstanding, ← List.append_assoc]
  rfl

theorem trail_pop (h : o.pop = some o') : o'.trail receiver = o.trail receiver := by
  obtain ⟨-, -, -, rfl⟩ | ⟨next, pending, hdelivering, hpending, rfl⟩ := pop_cases h
  · rfl
  · have houtstanding : o.outstandingTo receiver = addressedTo receiver (next :: pending) := by
      rw [outstandingTo, hdelivering, hpending]
      rfl
    rw [trail, trail, houtstanding]
    rfl

/-- A receiver gets the message now instead of later. -/
theorem trail_deliver (hsound : o.Sound) (h : o.deliver = some o') :
    o'.trail receiver = o.trail receiver := by
  obtain ⟨message, next, receivers, hdelivering, rfl⟩ := deliver_cases h
  have hnodup : (next :: receivers).Nodup :=
    hsound.nodup (message, next :: receivers) (by simp [hdelivering])
  have houtstanding : o.outstandingTo receiver =
      (if receiver ∈ next :: receivers then [message] else []) ++
        addressedTo receiver o.pending := by
    rw [outstandingTo, hdelivering, addressedTo_append]
    exact congrArg (· ++ _) (addressedTo_singleton message (next :: receivers))
  rw [trail, trail, houtstanding, receivedBy, List.filterMap_append, outstandingTo,
    addressedTo_append, Option.toList_some, addressedTo_singleton, receivedBy]
  by_cases hreceiver : next = receiver
  · subst hreceiver
    have hlater : next ∉ receivers := (List.nodup_cons.1 hnodup).1
    simp [hlater]
  · have hmem : receiver ∈ next :: receivers ↔ receiver ∈ receivers := by simp [Ne.symm hreceiver]
    simp [hreceiver, hmem]

theorem trail_finish (h : o.finish = some o') : o'.trail receiver = o.trail receiver := by
  obtain ⟨message, hdelivering, rfl⟩ := finish_cases h
  rw [trail, trail, outstandingTo, outstandingTo, hdelivering]
  rfl

end Outbox

end Concurrency
