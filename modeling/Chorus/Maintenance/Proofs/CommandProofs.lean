import Chorus.Maintenance.Commands
import Mathlib.Data.List.Basic
import Mathlib.Data.List.Flatten
import Mathlib.Data.List.Range

/-!
# Commands across seals

Whatever is executed, queued or still in the channel carries every call once, and in the order of
arrival (`CommandInv.senders`). Merging keeps that, because it only joins neighbours. So a seal
divides the truncations before it from those behind it, and a merged truncation lies on one side.
-/

namespace Chorus

open Concurrency

variable {σ ρ : Type}

namespace MaintenanceCmd

def senders : MaintenanceCmd σ → List Nat
  | .sealSegment _ enforced => [enforced]
  | .truncate _ responses => responses

def seal? : MaintenanceCmd σ → Option σ
  | .sealSegment segment _ => some segment
  | .truncate _ _ => none

/-- A seal carries the segment of its call. A truncation goes to the floor of one of its callers,
and no caller asked for more. -/
def Serves (arrived : List (MaintenanceRequest σ)) : MaintenanceCmd σ → Prop
  | .sealSegment segment enforced => arrived[enforced]? = some (.sealSegment segment)
  | .truncate floor responses =>
    (∃ k ∈ responses, arrived[k]? = some (.truncate floor)) ∧
      ∀ k ∈ responses, ∃ requested, arrived[k]? = some (.truncate requested) ∧ requested ≤ floor

end MaintenanceCmd

def MaintenanceRequest.seal? : MaintenanceRequest σ → Option σ
  | .sealSegment segment => some segment
  | .truncate _ => none

open MaintenanceCmd

/-! ## Pushing a command -/

theorem pushCommand_cases (pending : List (MaintenanceCmd σ)) (command : MaintenanceCmd σ) :
    pushCommand pending command = pending ++ [command] ∨
    ∃ front queuedFloor queuedResponses floor responses,
      pending = front ++ [.truncate queuedFloor queuedResponses] ∧
      command = .truncate floor responses ∧
      pushCommand pending command = front ++
        [.truncate (max queuedFloor floor) (queuedResponses ++ responses)] := by
  unfold pushCommand
  split
  · rename_i queuedFloor queuedResponses floor responses hlast
    refine .inr ⟨pending.dropLast, queuedFloor, queuedResponses, floor, responses, ?_, rfl, ?_⟩
    · exact (List.dropLast_append_getLast? _ hlast).symm
    · have hmax : (if queuedFloor < floor then floor else queuedFloor) = max queuedFloor floor := by
        by_cases hlt : queuedFloor < floor
        · rw [if_pos hlt, Nat.max_eq_right (Nat.le_of_lt hlt)]
        · rw [if_neg hlt, Nat.max_eq_left (Nat.le_of_not_lt hlt)]
      rw [hmax]
  · exact .inl rfl

theorem senders_pushCommand (pending : List (MaintenanceCmd σ)) (command : MaintenanceCmd σ) :
    (pushCommand pending command).flatMap senders = pending.flatMap senders ++ command.senders := by
  rcases pushCommand_cases pending command with h | ⟨front, _, _, _, _, rfl, rfl, h⟩
  · rw [h, List.flatMap_append, List.flatMap_singleton]
  · rw [h, List.flatMap_append, List.flatMap_append, List.append_assoc, List.flatMap_singleton,
      List.flatMap_singleton]
    rfl

theorem seals_pushCommand (pending : List (MaintenanceCmd σ)) (command : MaintenanceCmd σ) :
    (pushCommand pending command).filterMap seal? = pending.filterMap seal? ++
      [command].filterMap seal? := by
  rcases pushCommand_cases pending command with h | ⟨front, _, _, _, _, rfl, rfl, h⟩
  · rw [h, List.filterMap_append]
  · rw [h, List.filterMap_append, List.filterMap_append, List.append_assoc]
    rfl

/-- A merged truncation serves the callers of both. -/
theorem serves_pushCommand {arrived : List (MaintenanceRequest σ)}
    {pending : List (MaintenanceCmd σ)} {command : MaintenanceCmd σ}
    (hpending : ∀ c ∈ pending, c.Serves arrived) (hcommand : command.Serves arrived) :
    ∀ c ∈ pushCommand pending command, c.Serves arrived := by
  rcases pushCommand_cases pending command with h |
    ⟨front, queuedFloor, queuedResponses, floor, responses, rfl, rfl, h⟩
  · rw [h]
    exact List.forall_mem_append.2 ⟨hpending, List.forall_mem_singleton.2 hcommand⟩
  · obtain ⟨hfront, hqueued⟩ := List.forall_mem_append.1 hpending
    obtain ⟨⟨k, hk, hfloor⟩, hall⟩ := List.forall_mem_singleton.1 hqueued
    obtain ⟨⟨k', hk', hfloor'⟩, hall'⟩ := hcommand
    rw [h]
    refine List.forall_mem_append.2 ⟨hfront, List.forall_mem_singleton.2 ⟨?_, ?_⟩⟩
    · rcases Nat.le_total queuedFloor floor with hle | hle
      · rw [Nat.max_eq_right hle]
        exact ⟨k', List.mem_append_right _ hk', hfloor'⟩
      · rw [Nat.max_eq_left hle]
        exact ⟨k, List.mem_append_left _ hk, hfloor⟩
    · intro j hj
      rcases List.mem_append.1 hj with hj | hj
      · obtain ⟨requested, hget, hle⟩ := hall j hj
        exact ⟨requested, hget, hle.trans (Nat.le_max_left _ _)⟩
      · obtain ⟨requested, hget, hle⟩ := hall' j hj
        exact ⟨requested, hget, hle.trans (Nat.le_max_right _ _)⟩

theorem serves_arrive {arrived : List (MaintenanceRequest σ)} {command : MaintenanceCmd σ}
    (h : command.Serves arrived) (request : MaintenanceRequest σ) :
    command.Serves (arrived ++ [request]) := by
  have hget : ∀ (k : Nat) r, arrived[k]? = some r → (arrived ++ [request])[k]? = some r := by
    intro k r hk
    rw [List.getElem?_append_left (List.getElem?_eq_some_iff.1 hk).1]
    exact hk
  cases command with
  | sealSegment segment enforced => exact hget _ _ h
  | truncate floor responses =>
    obtain ⟨⟨k, hk, hfloor⟩, hall⟩ := h
    refine ⟨⟨k, hk, hget _ _ hfloor⟩, fun j hj => ?_⟩
    obtain ⟨requested, hj', hle⟩ := hall j hj
    exact ⟨requested, hget _ _ hj', hle⟩

theorem serves_command (arrived : List (MaintenanceRequest σ)) (request : MaintenanceRequest σ) :
    (request.command arrived.length).Serves (arrived ++ [request]) := by
  have hget : (arrived ++ [request])[arrived.length]? = some request := List.getElem?_concat_length
  cases request with
  | sealSegment segment => exact hget
  | truncate floor =>
    refine ⟨⟨_, List.mem_singleton_self _, hget⟩, fun k hk => ?_⟩
    obtain rfl := List.mem_singleton.1 hk
    exact ⟨floor, hget, Nat.le_refl _⟩

theorem senders_command (sender : Nat) (request : MaintenanceRequest σ) :
    (request.command sender).senders = [sender] := by
  cases request <;> rfl

theorem seal?_command (sender : Nat) (request : MaintenanceRequest σ) :
    (request.command sender).seal? = request.seal? := by
  cases request <;> rfl

namespace CommandTask

def running (s : CommandTask σ ρ) : List (MaintenanceCmd σ) :=
  match s.phase with
  | .executing command => [command]
  | _ => []

def begun (s : CommandTask σ ρ) : List (MaintenanceCmd σ) := s.executed ++ s.running

/-- All commands, from the one that was executed first to the one that was sent last. -/
def order (s : CommandTask σ ρ) : List (MaintenanceCmd σ) := s.begun ++ s.pending ++ s.commands

structure CommandInv (s : CommandTask σ ρ) : Prop where
  senders : s.order.flatMap senders = List.range s.arrived.length
  seals : s.order.filterMap seal? = s.arrived.filterMap MaintenanceRequest.seal?
  serves : ∀ c ∈ s.order, c.Serves s.arrived
  answers : s.answers.map Prod.fst = s.executed.flatMap responses
  stopped : s.phase = .stopped → s.pending = [] ∧ s.commands = [] ∧ s.closed = true

variable {s s' : CommandTask σ ρ}

theorem commandInv_init : (init : CommandTask σ ρ).CommandInv where
  senders := rfl
  seals := rfl
  serves c hc := absurd hc List.not_mem_nil
  answers := rfl
  stopped h := by cases h

theorem CommandInv.of_order (h : s.CommandInv) (harrived : s'.arrived = s.arrived)
    (horder : s'.order = s.order)
    (hanswers : s'.answers.map Prod.fst = s'.executed.flatMap responses)
    (hstopped : s'.phase = .stopped → s'.pending = [] ∧ s'.commands = [] ∧ s'.closed = true) :
    s'.CommandInv where
  senders := by rw [horder, harrived, h.senders]
  seals := by rw [horder, harrived, h.seals]
  serves := by
    rw [horder, harrived]
    exact h.serves
  answers := hanswers
  stopped := hstopped

theorem running_waiting (h : s.phase = .waiting) : s.running = [] := by
  unfold running
  rw [h]

theorem CommandInv.enqueue (h : s.CommandInv) (request : MaintenanceRequest σ)
    (hopen : s.closed = false) : CommandInv { s with
      commands := s.commands ++ [request.command s.arrived.length]
      arrived := s.arrived ++ [request] } := by
  have horder : order { s with
      commands := s.commands ++ [request.command s.arrived.length]
      arrived := s.arrived ++ [request] } = s.order ++ [request.command s.arrived.length] := by
    show s.begun ++ s.pending ++ (s.commands ++ _) = s.begun ++ s.pending ++ s.commands ++ _
    exact (List.append_assoc _ _ _).symm
  constructor
  · rw [horder, List.flatMap_append, h.senders, List.flatMap_singleton, senders_command]
    show _ = List.range (s.arrived ++ [request]).length
    rw [List.length_append, List.length_singleton, List.range_succ]
  · rw [horder, List.filterMap_append, h.seals]
    show _ = (s.arrived ++ [request]).filterMap _
    rw [List.filterMap_append, List.filterMap_cons, List.filterMap_cons, seal?_command]
    rfl
  · rw [horder]
    refine List.forall_mem_append.2 ⟨fun c hc => serves_arrive (h.serves c hc) request, ?_⟩
    exact List.forall_mem_singleton.2 (serves_command s.arrived request)
  · exact h.answers
  · intro hstopped
    have hclosed := (h.stopped hstopped).2.2
    rw [hopen] at hclosed
    cases hclosed

theorem CommandInv.nextCommand (h : s.CommandInv) (hphase : s.phase = .waiting)
    (hstep : s.nextCommand = some s') : s'.CommandInv := by
  have hrunning := running_waiting hphase
  have hbegun : s.order = s.executed ++ s.pending ++ s.commands := by
    rw [order, begun, hrunning, List.append_nil]
  unfold CommandTask.nextCommand at hstep
  cases hpending : s.pending with
  | cons command pending =>
    rw [hpending] at hstep
    cases hstep
    refine h.of_order rfl ?_ h.answers (fun hstopped => by cases hstopped)
    show s.executed ++ [command] ++ pending ++ s.commands = s.order
    rw [hbegun, hpending, List.append_assoc s.executed]
    rfl
  | nil =>
    rw [hpending] at hstep
    cases hcommands : s.commands with
    | cons command commands =>
      rw [hcommands] at hstep
      cases hstep
      refine h.of_order rfl ?_ h.answers (fun hstopped => by cases hstopped)
      show s.executed ++ [] ++ [command] ++ commands = s.order
      rw [hbegun, hpending, hcommands, List.append_assoc]
      rfl
    | nil =>
      rw [hcommands] at hstep
      obtain ⟨hclosed, heq⟩ := Option.ite_none_right_eq_some.1 hstep
      cases heq
      refine h.of_order rfl ?_ h.answers (fun _ => ⟨rfl, rfl, hclosed⟩)
      show s.executed ++ [] ++ [] ++ [] = s.order
      rw [hbegun, hpending, hcommands, List.append_nil]

theorem CommandInv.push (h : s.CommandInv) (hphase : s.phase = .receiving)
    {command : MaintenanceCmd σ} {commands : List (MaintenanceCmd σ)}
    (hcommands : s.commands = command :: commands) :
    CommandInv { s with commands := commands, pending := pushCommand s.pending command } := by
  have hserves := h.serves
  rw [order, hcommands] at hserves
  obtain ⟨hqueued, hsent⟩ := List.forall_mem_append.1 hserves
  obtain ⟨hbegun, hpending⟩ := List.forall_mem_append.1 hqueued
  obtain ⟨hcommand, hrest⟩ := List.forall_mem_cons.1 hsent
  constructor
  · show (s.begun ++ pushCommand s.pending command ++ commands).flatMap _ = _
    rw [← h.senders, order, hcommands]
    simp only [List.flatMap_append, List.flatMap_cons, senders_pushCommand, List.append_assoc]
  · have hsplit : command :: commands = [command] ++ commands := rfl
    show (s.begun ++ pushCommand s.pending command ++ commands).filterMap _ = _
    rw [← h.seals, order, hcommands, hsplit]
    simp only [List.filterMap_append, seals_pushCommand, List.append_assoc]
  · show ∀ c ∈ s.begun ++ pushCommand s.pending command ++ commands, c.Serves s.arrived
    refine List.forall_mem_append.2 ⟨List.forall_mem_append.2 ⟨hbegun, ?_⟩, hrest⟩
    exact serves_pushCommand hpending hcommand
  · exact h.answers
  · intro hstopped
    have hstopped : s.phase = .stopped := hstopped
    rw [hphase] at hstopped
    cases hstopped

theorem CommandInv.execute (h : s.CommandInv) {command : MaintenanceCmd σ}
    (hphase : s.phase = .executing command) (result : ρ) :
    CommandInv { s with
      phase := .waiting
      executed := s.executed ++ [command]
      answers := s.answers ++ command.responses.map fun response => (response, result) } := by
  refine h.of_order rfl ?_ ?_ (fun hstopped => by cases hstopped)
  · show s.executed ++ [command] ++ [] ++ s.pending ++ s.commands = s.begun ++
      s.pending ++ s.commands
    rw [List.append_nil, begun, running, hphase]
  · show (s.answers ++ command.responses.map _).map Prod.fst =
      (s.executed ++ [command]).flatMap responses
    rw [List.map_append, h.answers, List.map_map, List.flatMap_append, List.flatMap_singleton]
    congr 1
    exact List.map_id' _

theorem CommandInv.step (h : s.CommandInv) {action : Action σ ρ} (hstep : s.step action = some s') :
    s'.CommandInv := by
  cases action with
  | enqueue request =>
    obtain ⟨hopen, heq⟩ := Option.ite_none_left_eq_some.1 hstep
    cases heq
    exact h.enqueue request (Bool.eq_false_iff.2 fun hclosed => hopen (.inl hclosed))
  | close =>
    cases hstep
    exact h.of_order rfl rfl h.answers fun hstopped =>
      ⟨(h.stopped hstopped).1, (h.stopped hstopped).2.1, rfl⟩
  | next =>
    simp only [CommandTask.step] at hstep
    split at hstep
    · exact h.nextCommand ‹_› hstep
    · cases hstep
  | tryRecv received =>
    simp only [CommandTask.step] at hstep
    split at hstep
    · rename_i command commands hphase hcommands
      split at hstep
      · cases hstep
        exact h.push hphase hcommands
      · cases hstep
        refine h.of_order rfl ?_ h.answers (fun hstopped => by cases hstopped)
        rw [order, order, begun, begun, running, running, hphase]
    · rename_i hphase hcommands
      split at hstep
      · cases hstep
      · cases hstep
        refine h.of_order rfl ?_ h.answers (fun hstopped => by cases hstopped)
        rw [order, order, begun, begun, running, running, hphase]
    · cases hstep
  | execute result =>
    simp only [CommandTask.step] at hstep
    split at hstep
    · cases hstep
      exact h.execute ‹_› result
    · cases hstep

/-! ## Order of execution -/

/-- The calls of an earlier command arrived before those of a later one. -/
theorem CommandInv.pairwise (h : s.CommandInv) :
    s.order.Pairwise fun c c' => ∀ k ∈ c.senders, ∀ k' ∈ c'.senders, k < k' := by
  have hsorted : (s.order.flatMap MaintenanceCmd.senders).Pairwise (· < ·) := by
    rw [h.senders]
    exact List.pairwise_lt_range
  exact (List.pairwise_flatMap.1 hsorted).2

theorem getElem?_order {i : Nat} {c : MaintenanceCmd σ} (h : s.begun[i]? = some c) :
    s.order[i]? = some c := by
  have hi := (List.getElem?_eq_some_iff.1 h).1
  rw [order, List.append_assoc, List.getElem?_append_left hi]
  exact h

/-- Where calls stand, the commands that carry them stand. -/
theorem CommandInv.index_le (h : s.CommandInv) {i i' k k' : Nat} {c c' : MaintenanceCmd σ}
    (hc : s.order[i]? = some c) (hc' : s.order[i']? = some c') (hk : k ∈ c.senders)
    (hk' : k' ∈ c'.senders) (hle : k' ≤ k) : i' ≤ i := by
  by_contra hlt
  obtain ⟨hi, rfl⟩ := List.getElem?_eq_some_iff.1 hc
  obtain ⟨hi', rfl⟩ := List.getElem?_eq_some_iff.1 hc'
  have hbefore := List.pairwise_iff_getElem.1 h.pairwise i i' hi hi' (by omega) k hk k' hk'
  omega

theorem CommandInv.exists_command (h : s.CommandInv) {k : Nat} (hk : k < s.arrived.length) :
    ∃ (i : Nat) (c : MaintenanceCmd σ), s.order[i]? = some c ∧ k ∈ c.senders := by
  have hmem : k ∈ s.order.flatMap MaintenanceCmd.senders := by
    rw [h.senders]
    exact List.mem_range.2 hk
  obtain ⟨c, hc, hkc⟩ := List.mem_flatMap.1 hmem
  obtain ⟨i, hi⟩ := List.mem_iff_getElem?.1 hc
  exact ⟨i, c, hi, hkc⟩

/-- A command is not begun before a command with an earlier call. -/
theorem CommandInv.begun_before (h : s.CommandInv) {i k k' : Nat} {c : MaintenanceCmd σ}
    (hc : s.begun[i]? = some c) (hk : k ∈ c.senders) (hlt : k' < k) (hk' : k' < s.arrived.length) :
    ∃ (i' : Nat) (c' : MaintenanceCmd σ), i' ≤ i ∧ s.begun[i']? = some c' ∧ k' ∈ c'.senders := by
  obtain ⟨i', c', hc', hkc'⟩ := h.exists_command hk'
  have hle := h.index_le (getElem?_order hc) hc' hk hkc' (Nat.le_of_lt hlt)
  have hi := (List.getElem?_eq_some_iff.1 hc).1
  rw [order, List.append_assoc, List.getElem?_append_left (by omega)] at hc'
  exact ⟨i', c', hle, hc', hkc'⟩

/-- What a command is, from a call that it carries. -/
theorem CommandInv.eq_seal (h : s.CommandInv) {i k : Nat} {c : MaintenanceCmd σ} {segment : σ}
    (hc : s.order[i]? = some c) (hk : k ∈ c.senders)
    (hcall : s.arrived[k]? = some (.sealSegment segment)) : c = .sealSegment segment k := by
  have hserves := h.serves c (List.mem_of_getElem? hc)
  cases c with
  | sealSegment segment' enforced =>
    obtain rfl := List.mem_singleton.1 hk
    have heq : some (MaintenanceRequest.sealSegment segment') = some (.sealSegment segment) :=
      hserves.symm.trans hcall
    cases heq
    rfl
  | truncate floor responses =>
    obtain ⟨requested, hget, -⟩ := hserves.2 k hk
    rw [hcall] at hget
    cases hget

theorem CommandInv.eq_truncate (h : s.CommandInv) {i k requested : Nat} {c : MaintenanceCmd σ}
    (hc : s.order[i]? = some c) (hk : k ∈ c.senders)
    (hcall : s.arrived[k]? = some (.truncate requested)) :
    ∃ floor responses, c = .truncate floor responses ∧ k ∈ responses ∧ requested ≤ floor := by
  have hserves := h.serves c (List.mem_of_getElem? hc)
  cases c with
  | sealSegment segment enforced =>
    obtain rfl := List.mem_singleton.1 hk
    have heq : some (MaintenanceRequest.sealSegment segment) = some (.truncate requested) :=
      hserves.symm.trans hcall
    cases heq
  | truncate floor responses =>
    obtain ⟨requested', hget, hle⟩ := hserves.2 k hk
    rw [hcall] at hget
    cases hget
    exact ⟨floor, responses, rfl, hk, hle⟩

/-- Every caller of a truncation is answered by one truncation, to at least the floor it asked
for. -/
theorem CommandInv.answered_once (h : s.CommandInv) {k requested : Nat}
    (hcall : s.arrived[k]? = some (.truncate requested)) :
    ∃! i : Nat, ∃ floor responses,
      s.order[i]? = some (.truncate floor responses) ∧ k ∈ responses ∧ requested ≤ floor := by
  obtain ⟨i, c, hc, hk⟩ := h.exists_command (List.getElem?_eq_some_iff.1 hcall).1
  obtain ⟨floor, responses, rfl, hmem, hle⟩ := h.eq_truncate hc hk hcall
  refine ⟨i, ⟨floor, responses, hc, hmem, hle⟩, ?_⟩
  rintro i' ⟨floor', responses', hc', hmem', -⟩
  apply Nat.le_antisymm
  · exact h.index_le hc hc' hmem hmem' (Nat.le_refl k)
  · exact h.index_le hc' hc hmem' hmem (Nat.le_refl k)

/-- A truncation begins behind every seal that arrived before one of its calls. -/
theorem CommandInv.truncate_behind_seal (h : s.CommandInv) {i k k' floor : Nat}
    {responses : List Nat} {segment : σ} (hc : s.begun[i]? = some (.truncate floor responses))
    (hk : k ∈ responses) (hcall : s.arrived[k']? = some (.sealSegment segment)) (hlt : k' < k) :
    ∃ i' < i, s.begun[i']? = some (.sealSegment segment k') := by
  obtain ⟨i', c', hle, hc', hk'⟩ := h.begun_before hc hk hlt (List.getElem?_eq_some_iff.1 hcall).1
  obtain rfl := h.eq_seal (getElem?_order hc') hk' hcall
  refine ⟨i', Nat.lt_of_le_of_ne hle ?_, hc'⟩
  rintro rfl
  rw [hc] at hc'
  cases hc'

/-- A seal begins behind every truncation call that arrived before it. -/
theorem CommandInv.seal_behind_truncate (h : s.CommandInv) {i k k' requested : Nat} {segment : σ}
    (hc : s.begun[i]? = some (.sealSegment segment k))
    (hcall : s.arrived[k']? = some (.truncate requested)) (hlt : k' < k) :
    ∃ i' < i, ∃ floor responses, s.begun[i']? = some (.truncate floor responses) ∧
      k' ∈ responses := by
  obtain ⟨i', c', hle, hc', hk'⟩ := h.begun_before hc (List.mem_singleton_self k) hlt
    (List.getElem?_eq_some_iff.1 hcall).1
  obtain ⟨floor, responses, rfl, hmem, -⟩ := h.eq_truncate (getElem?_order hc') hk' hcall
  refine ⟨i', Nat.lt_of_le_of_ne hle ?_, floor, responses, hc', hmem⟩
  rintro rfl
  rw [hc] at hc'
  cases hc'

theorem CommandInv.executed_of_stopped (h : s.CommandInv) (hstopped : s.phase = .stopped) :
    s.executed.flatMap MaintenanceCmd.senders = List.range s.arrived.length := by
  obtain ⟨hpending, hcommands, -⟩ := h.stopped hstopped
  have hrunning : s.running = [] := by
    unfold running
    rw [hstopped]
  have hsenders := h.senders
  rwa [order, begun, hrunning, hpending, hcommands, List.append_nil, List.append_nil,
    List.append_nil] at hsenders

theorem CommandInv.nodup_answers (h : s.CommandInv) : (s.answers.map Prod.fst).Nodup := by
  have hsub : (s.executed.flatMap MaintenanceCmd.responses).Sublist
      (s.order.flatMap MaintenanceCmd.senders) := by
    have hcommand : ∀ c : MaintenanceCmd σ, c.responses.Sublist c.senders := by
      intro c
      cases c with
      | sealSegment segment enforced => exact List.nil_sublist _
      | truncate floor responses => exact List.Sublist.refl _
    have hexecuted : s.executed <+: s.order := by
      rw [order, begun, List.append_assoc, List.append_assoc]
      exact List.prefix_append _ _
    exact (List.Sublist.flatMap_right _ fun c _ => hcommand c).trans (hexecuted.sublist.flatMap _)
  rw [h.answers]
  rw [h.senders] at hsub
  exact hsub.nodup List.nodup_range

/-- An answer comes from a truncation that was executed. -/
theorem CommandInv.exists_executed (h : s.CommandInv) {k : Nat} {result : ρ}
    (hanswer : (k, result) ∈ s.answers) :
    ∃ floor responses, .truncate floor responses ∈ s.executed ∧ k ∈ responses := by
  have hmem : k ∈ s.executed.flatMap MaintenanceCmd.responses := by
    rw [← h.answers]
    exact List.mem_map_of_mem hanswer
  obtain ⟨c, hc, hk⟩ := List.mem_flatMap.1 hmem
  cases c with
  | sealSegment segment enforced => exact absurd hk List.not_mem_nil
  | truncate floor responses => exact ⟨floor, responses, hc, hk⟩

/-- Commands are neither lost nor reordered across seals. In every run the commands that were begun,
are queued or are still in the channel are the seals in the order of their calls, each once, and
every truncation call in exactly one truncation. A truncation is begun behind every seal that
arrived before one of its calls, and a seal behind every truncation call that arrived before it. The
floor of a truncation is the largest that one of its callers asked for. An answer comes from an
executed truncation with that caller, at most one to each. A task that has stopped has executed
everything. -/
theorem commands_kept_across_seals (hrun : Reaches step (fun _ _ => True)
    (init : CommandTask σ ρ) s) :
    s.order.filterMap seal? = s.arrived.filterMap MaintenanceRequest.seal? ∧
    (∀ (k requested : Nat), s.arrived[k]? = some (.truncate requested) →
      ∃! i : Nat, ∃ floor responses,
      s.order[i]? = some (.truncate floor responses) ∧ k ∈ responses ∧ requested ≤ floor) ∧
    (∀ (i k k' floor : Nat) (responses : List Nat) (segment : σ),
      s.begun[i]? = some (.truncate floor responses) → k ∈ responses →
      s.arrived[k']? = some (.sealSegment segment) → k' < k →
      ∃ i' < i, s.begun[i']? = some (.sealSegment segment k')) ∧
    (∀ (i k k' requested : Nat) (segment : σ), s.begun[i]? = some (.sealSegment segment k) →
      s.arrived[k']? = some (.truncate requested) → k' < k →
      ∃ i' < i, ∃ floor responses, s.begun[i']? = some (.truncate floor responses) ∧
        k' ∈ responses) ∧
    (∀ c ∈ s.order, c.Serves s.arrived) ∧
    (∀ k result, (k, result) ∈ s.answers →
      ∃ floor responses, .truncate floor responses ∈ s.executed ∧ k ∈ responses) ∧
    (s.answers.map Prod.fst).Nodup ∧
    (s.phase = .stopped →
      s.executed.flatMap MaintenanceCmd.senders = List.range s.arrived.length) := by
  have hinv : s.CommandInv := hrun.invariant commandInv_init fun _ _ _ h _ hstep => h.step hstep
  refine ⟨hinv.seals, fun k requested hcall => hinv.answered_once hcall, ?_, ?_, hinv.serves, ?_,
    hinv.nodup_answers, hinv.executed_of_stopped⟩
  · intro i k k' floor responses segment hc hk hcall hlt
    exact hinv.truncate_behind_seal hc hk hcall hlt
  · intro i k k' requested segment hc hcall hlt
    exact hinv.seal_behind_truncate hc hcall hlt
  · intro k result hanswer
    exact hinv.exists_executed hanswer

/-- Truncations to 5, 9 and 7 arrive around a seal; the first two run as one. -/
def mergeRun : List (Action Unit Bool) :=
  [.enqueue (.truncate 5), .enqueue (.truncate 9), .enqueue (.sealSegment ()),
    .enqueue (.truncate 7), .next, .tryRecv true, .tryRecv true, .tryRecv true, .tryRecv false,
    .next, .execute true, .next, .execute true, .next, .close, .execute false, .next]

theorem commands_kept_across_seals_merged : ∃ s : CommandTask Unit Bool,
    Reaches step (fun _ _ => True) init s ∧ s.phase = .stopped ∧
    s.executed = [.truncate 9 [0, 1], .sealSegment () 2, .truncate 7 [3]] ∧
    s.executed.flatMap MaintenanceCmd.senders = List.range s.arrived.length ∧
    s.answers = [(0, true), (1, true), (3, false)] := by
  have hrun :
      (runChecked step (fun _ _ => true) (init : CommandTask Unit Bool) mergeRun).any (fun s =>
      decide (s.phase = .stopped ∧
        s.executed = [.truncate 9 [0, 1], .sealSegment () 2, .truncate 7 [3]] ∧
        s.answers = [(0, true), (1, true), (3, false)])) = true := by
    decide +kernel
  obtain ⟨s, hreach, hshape⟩ := exists_reaches (fun _ _ _ => trivial) hrun
  obtain ⟨hstopped, hexecuted, hanswers⟩ := of_decide_eq_true hshape
  obtain ⟨-, -, -, -, -, -, -, hall⟩ := commands_kept_across_seals hreach
  exact ⟨s, hreach, hstopped, hexecuted, hall hstopped, hanswers⟩

end CommandTask

end Chorus
