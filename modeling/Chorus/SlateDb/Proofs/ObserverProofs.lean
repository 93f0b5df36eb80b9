import Chorus.SlateDb.Observer

/-!
# Proofs: the observer keeps one history

All events form one history in which the flushed ids increase and a close comes last. What a
listener has got and is still to get is the history from its subscription on.
-/

namespace Chorus.SlateDb

open Concurrency

def WalEvent.Precedes : WalEvent → WalEvent → Prop
  | .walFlushed before, .walFlushed after => before.lastFlushedWalId < after.lastFlushedWalId
  | .walFlushed before, .walClosed after => before.lastFlushedWalId ≤ after.lastFlushedWalId
  | .walClosed _, _ => False

namespace Observer

variable {o o' : Observer}

abbrev lastFlushed (o : Observer) : Nat := o.state.status.lastFlushedWalId

abbrev closedReason (o : Observer) : Option WalError := o.state.status.closedReason

/-- The changes of the observer that are not published from the progress. -/
inductive Moves (o : Observer) : Observer → Prop where
  | admitted (totalRows : Nat) : Moves o (o.admitted totalRows)
  | replayed (seq : UInt64) : Moves o (o.replayed seq)
  | subscribe : Moves o o.subscribe
  | close (error : WalError) : Moves o (o.close error)
  | pop {o' : Observer} (h : o.pop = some o') : Moves o o'
  | deliver {o' : Observer} (h : o.deliver = some o') : Moves o o'
  | wake {o' : Observer} (h : o.wake = some o') : Moves o o'

theorem notify_of_none {update : ObserverState → Option (ObserverState × WalEvent × List Nat)}
    (h : update o.state = none) : o.notify update = o := by
  rw [notify, h]

theorem notify_of_some {update : ObserverState → Option (ObserverState × WalEvent × List Nat)}
    {state : ObserverState} {event : WalEvent} {listeners : List Nat}
    (h : update o.state = some (state, event, listeners)) :
    o.notify update = { o with
      state := state
      events := o.events.push event listeners
      history := o.history ++ [event] } := by
  rw [notify, h]

/-- A second close changes nothing; the first one is announced to everybody. -/
theorem close_cases (o : Observer) (error : WalError) :
    (o.closedReason ≠ none ∧ o.close error = o) ∨
    o.closedReason = none ∧ ∃ status : WalStatus, status.lastFlushedWalId = o.lastFlushed ∧
      o.close error = { o with
        state := { o.state with
          status := { o.state.status with closedReason := some error }
          listeners := [] }
        events := o.events.push (.walClosed status) o.state.listeners
        history := o.history ++ [.walClosed status] } := by
  by_cases hclosed : o.closedReason.isSome = true
  · exact .inl ⟨Option.isSome_iff_ne_none.1 hclosed, notify_of_none (if_pos hclosed)⟩
  · exact .inr ⟨Option.not_isSome_iff_eq_none.1 hclosed,
      { o.state.status with closedReason := some error }, rfl, notify_of_some (if_neg hclosed)⟩

/-- A position is reported once, and only while the observer is open. -/
theorem committed_cases (o : Observer) (position : Position) :
    ((o.closedReason ≠ none ∨ position.walId ≤ o.lastFlushed) ∧ o.committed position = o) ∨
    (o.closedReason = none ∧ o.lastFlushed < position.walId) ∧ ∃ state : ObserverState,
      state.status.closedReason = none ∧ state.status.lastFlushedWalId = position.walId ∧
        state.listeners = o.state.listeners ∧
        o.committed position = { o with
          state := state
          events := o.events.push (.walFlushed state.status) o.state.listeners
          history := o.history ++ [.walFlushed state.status] } := by
  by_cases hskip : o.closedReason.isSome = true ∨ position.walId ≤ o.lastFlushed
  · exact .inl ⟨hskip.imp_left Option.isSome_iff_ne_none.1, notify_of_none (if_pos hskip)⟩
  · obtain ⟨hclosed, hlt⟩ := not_or.1 hskip
    have hopen : o.closedReason = none := Option.not_isSome_iff_eq_none.1 hclosed
    refine .inr ⟨⟨hopen, not_le.1 hlt⟩, _, ?_, ?_, ?_, notify_of_some (if_neg hskip)⟩
    · exact hopen
    · rfl
    · rfl

end Observer

structure ObserverInv (o : Observer) : Prop where
  sound : o.events.Sound
  listeners : o.closedReason = none → o.state.listeners = List.range o.subscriptions.length
  subscribed : ∀ l start, o.subscriptions[l]? = some start → start ≤ o.history.length ∧
    o.events.trail l = o.history.drop start
  /-- Nothing goes to a listener that has not subscribed. -/
  unknown : ∀ l, o.subscriptions.length ≤ l → o.events.trail l = []
  ordered : o.history.Pairwise WalEvent.Precedes
  opened : o.closedReason = none → ∀ event ∈ o.history,
    ∃ status, event = .walFlushed status ∧ status.lastFlushedWalId ≤ o.lastFlushed
  closed : o.closedReason ≠ none →
    ∃ status, .walClosed status ∈ o.history ∧ status.lastFlushedWalId = o.lastFlushed

namespace ObserverInv

variable {o o' : Observer}

theorem new (lastFlushedWalId : Nat) : ObserverInv (.new lastFlushedWalId) where
  sound := Outbox.sound_empty
  listeners _ := rfl
  subscribed := nofun
  unknown _ _ := rfl
  ordered := List.Pairwise.nil
  opened _ _ hevent := absurd hevent List.not_mem_nil
  closed h := absurd rfl h

/-- The drainer moves. -/
theorem setEvents (h : ObserverInv o) {events : Outbox WalEvent Nat} (hsound : events.Sound)
    (htrail : ∀ l, events.trail l = o.events.trail l) (changed : Nat) :
    ObserverInv { o with events := events, changed := changed } :=
  { h with
    sound := hsound
    subscribed :=
      fun l start hl => ⟨(h.subscribed l start hl).1, (htrail l).trans (h.subscribed l start hl).2⟩
    unknown := fun l hl => (htrail l).trans (h.unknown l hl) }

/-- An event of an open observer goes to all listeners. -/
theorem push (h : ObserverInv o) (hopen : o.closedReason = none) (event : WalEvent) :
    (∀ l start, o.subscriptions[l]? = some start → start ≤ (o.history ++ [event]).length ∧
      (o.events.push event o.state.listeners).trail l = (o.history ++ [event]).drop start) ∧
    (∀ l, o.subscriptions.length ≤ l → (o.events.push event o.state.listeners).trail l = []) ∧
    (o.events.push event o.state.listeners).Sound := by
  rw [h.listeners hopen]
  refine ⟨?_, ?_, h.sound.push event List.nodup_range⟩
  · intro l start hl
    obtain ⟨hstart, htrail⟩ := h.subscribed l start hl
    have hmem : l ∈ List.range o.subscriptions.length :=
      List.mem_range.2 (List.getElem?_eq_some_iff.1 hl).1
    rw [Outbox.trail_push, if_pos hmem, htrail, List.drop_append_of_le_length hstart]
    exact ⟨hstart.trans (List.length_append ▸ Nat.le_add_right _ _), rfl⟩
  · intro l hl
    have hmem : l ∉ List.range o.subscriptions.length := by
      rw [List.mem_range]
      exact Nat.not_lt.2 hl
    rw [Outbox.trail_push, if_neg hmem, h.unknown l hl]
    rfl

theorem committed (h : ObserverInv o) (position : Position) :
    ObserverInv (o.committed position) := by
  rcases o.committed_cases position with ⟨-, heq⟩ |
    ⟨⟨hopen, hlt⟩, state, hstate, hlast, hlisteners, heq⟩
  · rw [heq]
    exact h
  · rw [heq]
    obtain ⟨hsubscribed, hunknown, hsound⟩ := h.push hopen (.walFlushed state.status)
    refine ⟨hsound, fun _ => hlisteners.trans (h.listeners hopen), hsubscribed,
      hunknown, ?_, ?_, ?_⟩
    · refine List.pairwise_append.2 ⟨h.ordered, List.pairwise_singleton _ _, ?_⟩
      intro event hevent next hnext
      obtain ⟨status, rfl, hle⟩ := h.opened hopen event hevent
      rw [List.mem_singleton.1 hnext]
      show status.lastFlushedWalId < state.status.lastFlushedWalId
      exact hlast ▸ hle.trans_lt hlt
    · intro _ event hevent
      rcases List.mem_append.1 hevent with hold | hnew
      · obtain ⟨status, rfl, hle⟩ := h.opened hopen event hold
        exact ⟨status, rfl, (hle.trans hlt.le).trans hlast.ge⟩
      · rw [List.mem_singleton.1 hnew]
        exact ⟨_, rfl, le_rfl⟩
    · exact fun hclosed => absurd hstate hclosed

theorem close (h : ObserverInv o) (error : WalError) : ObserverInv (o.close error) := by
  rcases o.close_cases error with ⟨-, heq⟩ | ⟨hopen, status, hlast, heq⟩
  · rw [heq]
    exact h
  · rw [heq]
    obtain ⟨hsubscribed, hunknown, hsound⟩ := h.push hopen (.walClosed status)
    refine ⟨hsound, nofun, hsubscribed, hunknown, ?_, nofun, fun _ => ⟨status, ?_, hlast⟩⟩
    · refine List.pairwise_append.2 ⟨h.ordered, List.pairwise_singleton _ _, ?_⟩
      intro event hevent next hnext
      obtain ⟨before, rfl, hle⟩ := h.opened hopen event hevent
      rw [List.mem_singleton.1 hnext]
      show before.lastFlushedWalId ≤ status.lastFlushedWalId
      exact hlast ▸ hle
    · exact List.mem_append_right _ (List.mem_singleton_self _)

/-- A new listener starts with an empty trail behind the whole history. -/
theorem subscribe (h : ObserverInv o) : ObserverInv o.subscribe := by
  unfold Observer.subscribe Observer.status
  split
  · exact h
  · next hstatus =>
    have hopen : o.closedReason = none := by
      split at hstatus
      · cases hstatus
      · assumption
    refine { h with listeners := ?_, subscribed := ?_, unknown := ?_ }
    · intro _
      rw [h.listeners hopen, List.length_append, List.length_singleton, List.range_succ]
    · intro l start hl
      rcases Nat.lt_or_ge l o.subscriptions.length with hlt | hge
      · rw [List.getElem?_append_left hlt] at hl
        exact h.subscribed l start hl
      · rw [List.getElem?_append_right hge, List.getElem?_singleton] at hl
        split_ifs at hl with hl₀
        cases hl
        exact ⟨le_rfl, by rw [h.unknown l hge, List.drop_length]⟩
    · intro l hl
      rw [List.length_append] at hl
      exact h.unknown l ((Nat.le_add_right _ _).trans hl)

theorem moves (h : ObserverInv o) (hmoves : o.Moves o') : ObserverInv o' := by
  cases hmoves with
  | admitted totalRows => exact { h with }
  | replayed seq => exact { h with }
  | subscribe => exact h.subscribe
  | close error => exact h.close error
  | pop hpop =>
    obtain ⟨events, hevents, rfl⟩ := Option.map_eq_some_iff.1 hpop
    exact h.setEvents (h.sound.pop hevents) (fun _ => Outbox.trail_pop hevents) _
  | deliver hdeliver =>
    obtain ⟨events, hevents, rfl⟩ := Option.map_eq_some_iff.1 hdeliver
    exact h.setEvents (h.sound.deliver hevents) (fun _ => Outbox.trail_deliver h.sound hevents) _
  | wake hwake =>
    obtain ⟨events, hevents, rfl⟩ := Option.map_eq_some_iff.1 hwake
    exact h.setEvents (h.sound.finish hevents) (fun _ => Outbox.trail_finish hevents) _

end ObserverInv

namespace Observer

variable {o o' : Observer}

/-- A closed observer stays as it is, and an open one does not go back. A change that the barriers
wait for is signalled, or its event is still to be delivered. -/
structure Advances (o o' : Observer) : Prop where
  flushed : o.lastFlushed ≤ o'.lastFlushed
  closed : ∀ error, o.closedReason = some error →
    o'.closedReason = some error ∧ o'.lastFlushed = o.lastFlushed
  changed : o.changed ≤ o'.changed
  signalled : o'.changed = o.changed → o'.events.Holds ∨
    ¬ o.events.Holds ∧ o'.lastFlushed = o.lastFlushed ∧ o'.closedReason = o.closedReason

theorem Advances.refl (o : Observer) : o.Advances o :=
  ⟨le_rfl, fun _ herror => ⟨herror, rfl⟩, le_rfl, fun _ => (em _).imp_right fun h => ⟨h, rfl, rfl⟩⟩

theorem holds_push {events : Outbox WalEvent Nat} (event : WalEvent) (listeners : List Nat) :
    (events.push event listeners).Holds := .inr (List.concat_ne_nil _ _)

theorem advances_committed (o : Observer) (position : Position) :
    o.Advances (o.committed position) := by
  rcases o.committed_cases position with ⟨-, heq⟩ | ⟨⟨hopen, hlt⟩, state, -, hlast, -, heq⟩
  · rw [heq]
    exact .refl o
  · rw [heq]
    refine ⟨?_, fun _ herror => ?_, le_rfl, fun _ => .inl (holds_push _ _)⟩
    · show o.lastFlushed ≤ state.status.lastFlushedWalId
      exact hlast ▸ hlt.le
    · cases hopen.symm.trans herror

theorem advances_close (o : Observer) (error : WalError) : o.Advances (o.close error) := by
  rcases o.close_cases error with ⟨-, heq⟩ | ⟨hopen, _, _, heq⟩
  · rw [heq]
    exact .refl o
  · rw [heq]
    refine ⟨le_rfl, fun _ herror => ?_, le_rfl, fun _ => .inl (holds_push _ _)⟩
    cases hopen.symm.trans herror

theorem lastFlushed_close (o : Observer) (error : WalError) :
    (o.close error).lastFlushed = o.lastFlushed := by
  rcases o.close_cases error with ⟨-, heq⟩ | ⟨_, _, _, heq⟩ <;> rw [heq]

theorem closedReason_close (o : Observer) (error : WalError) :
    (o.close error).closedReason ≠ none := by
  rcases o.close_cases error with ⟨hclosed, heq⟩ | ⟨_, _, _, heq⟩
  · rw [heq]
    exact hclosed
  · rw [heq]
    nofun

theorem closedReason_committed (o : Observer) (position : Position) :
    (o.committed position).closedReason = o.closedReason := by
  rcases o.committed_cases position with ⟨-, heq⟩ | ⟨⟨hopen, -⟩, state, hstate, -, -, heq⟩
  · rw [heq]
  · rw [heq]
    exact hstate.trans hopen.symm

/-- Unless the observer was closed before, a position that is reported is flushed. -/
theorem le_lastFlushed_committed (o : Observer) (position : Position)
    (hopen : o.closedReason = none) : position.walId ≤ (o.committed position).lastFlushed := by
  rcases o.committed_cases position with ⟨hclosed | hle, heq⟩ | ⟨-, state, -, hlast, -, heq⟩
  · exact absurd hopen hclosed
  · rw [heq]
    exact hle
  · rw [heq]
    exact hlast.ge

theorem lastFlushed_committed_le (o : Observer) (position : Position) :
    (o.committed position).lastFlushed ≤ max o.lastFlushed position.walId := by
  rcases o.committed_cases position with ⟨-, heq⟩ | ⟨-, state, -, hlast, -, heq⟩
  · rw [heq]
    exact le_max_left _ _
  · rw [heq]
    exact hlast.le.trans (le_max_right _ _)

/-- Only published progress moves the flushed id. -/
theorem Moves.lastFlushed_eq (h : o.Moves o') : o'.lastFlushed = o.lastFlushed := by
  cases h with
  | admitted | replayed => rfl
  | subscribe =>
    unfold Observer.subscribe
    split <;> rfl
  | close error => exact o.lastFlushed_close error
  | pop h | deliver h | wake h =>
    obtain ⟨events, -, rfl⟩ := Option.map_eq_some_iff.1 h
    rfl

/-- The drainer moves. -/
theorem advances_setEvents {events : Outbox WalEvent Nat} (h : events.Holds ∨ ¬ o.events.Holds) :
    o.Advances { o with events := events } :=
  ⟨le_rfl, fun _ herror => ⟨herror, rfl⟩, le_rfl, fun _ => h.imp_right fun h => ⟨h, rfl, rfl⟩⟩

theorem Moves.advances (h : o.Moves o') : o.Advances o' := by
  cases h with
  | admitted | replayed => exact { Advances.refl o with }
  | subscribe =>
    unfold Observer.subscribe
    split <;> exact { Advances.refl o with }
  | close error => exact o.advances_close error
  | pop h =>
    obtain ⟨events, hevents, rfl⟩ := Option.map_eq_some_iff.1 h
    refine advances_setEvents ?_
    obtain ⟨-, hdelivering, hpending, -⟩ | ⟨next, pending, -, -, rfl⟩ := Outbox.pop_cases hevents
    · exact .inr (not_or.2 ⟨not_not.2 hdelivering, not_not.2 hpending⟩)
    · exact .inl (.inl (Option.some_ne_none _))
  | deliver h =>
    obtain ⟨events, hevents, rfl⟩ := Option.map_eq_some_iff.1 h
    obtain ⟨message, next, receivers, -, rfl⟩ := Outbox.deliver_cases hevents
    exact advances_setEvents (.inl (.inl (Option.some_ne_none _)))
  | wake h =>
    obtain ⟨events, -, rfl⟩ := Option.map_eq_some_iff.1 h
    exact ⟨le_rfl, fun _ herror => ⟨herror, rfl⟩, Nat.le_succ _,
      fun h => absurd h (Nat.succ_ne_self _)⟩

end Observer

end Chorus.SlateDb
