import Mathlib.Logic.Relation
import Chorus.SlateDb.Proofs.AdmissionProofs
import Chorus.SlateDb.Proofs.ObserverProofs

/-!
# Proofs: what a step of the adapter can do

`Core` is the adapter without the books on its calls and tickets, and `Core.Step` says how it can
move. The engine takes what is pending; nothing new is pending after a failure. The committed
position only grows, a failure freezes the progress, and positions reach the observer through the
snapshot of a publisher only. Every step of the adapter is a sequence of such steps.
-/

namespace Chorus.SlateDb

open Concurrency Relation

variable {n : Nat} {crc : Bytes → Nat} {config : WalEngineConfig} {base : Nat} {s s' : Adapter n}

structure Core (n : Nat) where
  engine : Engine n
  pending : Option AppendRequest
  admissions : List AppendRequest
  progress : Progress
  observer : Observer
  publishers : List Publisher
  barriers : List Barrier
  failedAt : Option (Option Position)
  closedThroughProgress : Bool

def Adapter.core (s : Adapter n) : Core n :=
  ⟨s.engine, s.coordinator.pending, s.admissions, s.progress, s.observer, s.publishers, s.barriers,
    s.failedAt, s.closedThroughProgress⟩

namespace Core

inductive Step (crc : Bytes → Nat) (config : WalEngineConfig) (base : Nat) :
    Core n → Core n → Prop where
  | engine (p : Core n) {action : Engine.Action n} {engine : Engine n}
      (hbackground : Engine.background action = true)
      (hengine : p.engine.step crc config action = some engine) :
      Step crc config base p { p with engine := engine }
  | dropAdmission (p : Core n) :
      Step crc config base p { p with engine := { p.engine with admission := none } }
  | poll (p : Core n) {index : Nat} {record : RecordFrame} {append : AdmittedAppend}
      (hcheck : p.engine.checkAppend config index record = .ok append) :
      Step crc config base p { p with engine := { p.engine with admission := some append } }
  | accept (p : Core n) {request : AppendRequest} {append : AdmittedAppend}
      (admissions : List AppendRequest) (hpending : p.pending = some request)
      (hadmission : p.engine.admission = some append) :
      Step crc config base p { p with
        engine := p.engine.sendAppend append
        pending := none
        admissions := admissions }
  | stop (p : Core n) (abort : Bool) :
      Step crc config base p { p with
        engine := if abort then { p.engine with handleOpen := false }.stop
          else p.engine.sendShutdown }
  | setPending (p : Core n) (pending : Option AppendRequest)
      (hopen : pending = none ∨ p.progress.failure = none) :
      Step crc config base p { p with pending := pending }
  | observe (p : Core n) {o : Observer} (h : p.observer.Moves o) :
      Step crc config base p { p with observer := o }
  | fail (p : Core n) (error : WalError) :
      Step crc config base p { p with
        progress := p.progress.fail error
        failedAt := if p.progress.failure.isNone then some p.progress.committed else p.failedAt }
  | commit (p : Core n) {seqno : Nat} (position : Position) (hopen : p.progress.failure = none)
      (hnext : p.progress.committedEnd base < position.walId) (hwalId : position.walId = seqno + 1)
      (hdone : p.engine.resolution seqno = some (.ok ())) :
      Step crc config base p { p with progress := { p.progress with committed := some position } }
  | join (p : Core n) (forwarding : Bool) :
      Step crc config base p { p with publishers := p.publishers ++ [⟨forwarding, .read⟩] }
  | publish (p : Core n) {i : Nat} {publisher publisher' : Publisher} {o : Observer}
      (hget : p.publishers[i]? = some publisher)
      (hpublish : publisher.publish p.progress p.observer = some (publisher', o)) :
      Step crc config base p { p with
        publishers := p.publishers.set i publisher'
        observer := o
        closedThroughProgress := p.closedThroughProgress ||
          (p.observer.closedReason.isNone && o.closedReason.isSome) }
  | endForward (p : Core n) {i : Nat} {publisher publisher' : Publisher}
      (hget : p.publishers[i]? = some publisher) (hend : publisher.endForward = some publisher') :
      Step crc config base p { p with publishers := p.publishers.set i publisher' }
  | barrier (p : Core n) (walId : Nat) :
      Step crc config base p { p with barriers := p.barriers ++ [p.observer.barrier walId] }
  | pollBarrier (p : Core n) {i : Nat} {barrier barrier' : Barrier}
      (hget : p.barriers[i]? = some barrier) (hpoll : barrier.poll p.observer = some barrier') :
      Step crc config base p { p with barriers := p.barriers.set i barrier' }

abbrev Steps (crc : Bytes → Nat) (config : WalEngineConfig) (base : Nat) : Core n → Core n → Prop :=
  ReflTransGen (Step crc config base)

end Core

/-! ## The adapter moves by these steps -/

theorem Adapter.core_failProgress (s : Adapter n) (error : WalError) :
    Core.Step crc config base s.core (s.setProgress (s.progress.fail error)).core := by
  have hfailed : (s.progress.fail error).failure.isSome = true :=
    Option.isSome_iff_ne_none.2 (s.progress.failure_fail error)
  have heq : (s.setProgress (s.progress.fail error)).core = { s.core with
      progress := s.progress.fail error
      failedAt := if s.progress.failure.isNone then some s.progress.committed
        else s.failedAt } := by
    simp only [Adapter.setProgress, Adapter.core, hfailed, and_true,
      s.progress.committed_fail error]
  rw [heq]
  exact .fail s.core error

theorem Adapter.core_fail (s : Adapter n) (error : WalError) :
    Core.Steps crc config base s.core (s.fail error).core := by
  unfold Adapter.fail
  split_ifs
  · exact (ReflTransGen.single (s.core_failProgress error)).tail (.join _ false)
  · exact .single (.observe s.core (.close error))

theorem Adapter.core_sendReply (s : Adapter n) (request : AppendRequest)
    (result : Except WalError Unit) :
    Core.Steps crc config base s.core (s.sendReply request result).core := by
  unfold Adapter.sendReply
  split_ifs
  · exact .refl
  · split
    · exact .single (s.core_failProgress .closed)
    · exact .refl

theorem Adapter.core_dropRequests (s : Adapter n) (requests : List AppendRequest) :
    Core.Steps crc config base s.core (s.dropRequests requests).core := by
  unfold Adapter.dropRequests
  induction requests generalizing s with
  | nil => exact .refl
  | cons request requests ih => exact (s.core_sendReply request _).trans (ih _)

theorem Adapter.core_append (s : Adapter n) (rows : List RowEntry) :
    Core.Steps crc config base s.core (s.append rows).core := by
  unfold Adapter.append
  split
  · exact s.core_fail _
  · split
    · exact s.core_fail _
    · next s₁ hstart =>
      have hjoined : Core.Steps crc config base s.core s₁.core := by
        unfold Adapter.start at hstart
        split at hstart <;> cases hstart
        · exact .refl
        · exact .single (.join s.core true)
      split
      · exact hjoined.trans (s₁.core_fail _)
      · exact hjoined

theorem AdmissionInv.core_resolve (h : AdmissionInv base s) (hstep : s.resolve = some s') :
    Core.Steps crc config base s.core s'.core := by
  unfold Adapter.resolve at hstep
  split at hstep
  · cases hstep
  · next seqno position later htickets =>
    obtain ⟨result, hresult, rfl⟩ := Option.map_eq_some_iff.1 hstep
    obtain ⟨k, -, hwalId, -, hcommitted⟩ := h.oldest htickets
    rcases s.progress.completion_cases position (result.map fun _ => seqno + 1) with
      ⟨error, heq⟩ | ⟨hnone, hdone, heq⟩
    · rw [heq]
      exact .single (s.core_failProgress error)
    · rw [heq]
      have hnext : s.progress.committedEnd base < position.walId := by
        unfold Progress.committedEnd
        split
        · omega
        · next before hbefore =>
          obtain ⟨-, hle⟩ := hcommitted before hbefore
          omega
      have hopen : ¬ (s.progress.failure.isNone = true ∧ s.progress.failure.isSome = true) := by
        simp [hnone]
      have hview : ({ s with coordinator := { s.coordinator with tickets := later } }.setProgress
          { s.progress with committed := some position } : Adapter n).core =
          { s.core with progress := { s.progress with committed := some position } } := by
        simp only [Adapter.setProgress, Adapter.core, if_neg hopen]
      rw [hview]
      cases result with
      | error error => cases hdone
      | ok value =>
        exact .single (.commit s.core position hnone hnext (Except.ok.inj hdone).symm hresult)

theorem Adapter.core_writerStep
    (hstep : s.send = some s' ∨ s.read = some s' ∨ s.cancel = some s') :
    Core.Steps crc config base s.core s'.core := by
  let dropped : Adapter n := { s with writer := { s.writer with call := none } }
  rcases hstep with hstep | hstep | hstep
  · unfold Adapter.send at hstep
    split at hstep
    · split_ifs at hstep
      · cases hstep
        exact dropped.core_fail .closed
      · cases hstep
        exact .refl
    · cases hstep
  · unfold Adapter.read at hstep
    split at hstep
    · cases hstep
      exact .single (.observe s.core (.admitted _))
    · cases hstep
      exact dropped.core_fail _
    · cases hstep
  · unfold Adapter.cancel at hstep
    split at hstep
    · cases hstep
    · simp only at hstep
      split_ifs at hstep
      · cases hstep
        exact .single (dropped.core_failProgress .closed)
      · cases hstep
        exact .refl

theorem Adapter.core_writerEnds
    (hstep : s.shutdown = some s' ∨ s.forget = some s' ∨ s.dropWriter = some s') :
    Core.Steps crc config base s.core s'.core := by
  rcases hstep with hstep | hstep | hstep
  · unfold Adapter.shutdown at hstep
    split_ifs at hstep
    split at hstep <;> cases hstep <;> exact .refl
  · unfold Adapter.forget at hstep
    split_ifs at hstep
    cases hstep
    exact .refl
  · unfold Adapter.dropWriter at hstep
    split_ifs at hstep
    cases hstep
    exact s.core_fail .closed

theorem Adapter.core_coordinator
    (hstep : s.poll config = some s' ∨ s.admitted = some s' ∨ s.discard = some s' ∨
      s.stop = some s' ∨ s.abortEngine = some s' ∨ s.appendsClosed = some s') :
    Core.Steps crc config base s.core s'.core := by
  rcases hstep with hstep | hstep | hstep | hstep | hstep | hstep
  · unfold Adapter.poll at hstep
    split at hstep
    · split at hstep <;> cases hstep
      · exact .single (.setPending s.core none (.inl rfl))
      · next hcheck => exact .single (.poll s.core hcheck)
    · cases hstep
  · unfold Adapter.admitted at hstep
    split at hstep
    · next hpending hadmission =>
      simp only at hstep
      split_ifs at hstep <;> cases hstep <;> exact .single (.accept s.core _ hpending hadmission)
    · cases hstep
  · unfold Adapter.discard at hstep
    split at hstep
    · split_ifs at hstep
      cases hstep
      exact (ReflTransGen.single (.dropAdmission s.core)).tail (.setPending _ none (.inl rfl))
    · cases hstep
  · unfold Adapter.stop at hstep
    split at hstep
    · next abort _ _ =>
      cases hstep
      exact (ReflTransGen.single (.dropAdmission s.core)).tail (.stop _ abort)
    · cases hstep
  · unfold Adapter.abortEngine at hstep
    split_ifs at hstep
    cases hstep
    exact .single (.stop s.core true)
  · unfold Adapter.appendsClosed at hstep
    split_ifs at hstep
    cases hstep
    exact .single (.stop s.core true)

theorem Adapter.core_receive {c : Coordinator} (hstep : s.coordinator.receive s.progress = some c) :
    Core.Steps crc config base s.core ({ s with coordinator := c } : Adapter n).core := by
  unfold Coordinator.receive at hstep
  split at hstep
  · split at hstep <;> cases hstep
    · exact .refl
    · next hopen => exact .single (.setPending s.core _ (.inr hopen))
  · cases hstep

theorem AdmissionInv.core_step (h : AdmissionInv base s) {action : Adapter.Action n}
    (hstep : s.step crc config action = some s') :
    Core.Steps crc config base s.core s'.core := by
  cases action with
  | engine action =>
    simp only [Adapter.step] at hstep
    split_ifs at hstep
    obtain ⟨engine, hengine, rfl⟩ := Option.map_eq_some_iff.1 hstep
    exact .single (.engine s.core ‹_› hengine)
  | replay seq =>
    simp only [Adapter.step] at hstep
    split_ifs at hstep
    cases hstep
    exact .single (.observe s.core (.replayed seq))
  | replayed =>
    simp only [Adapter.step] at hstep
    split_ifs at hstep
    cases hstep
    exact .refl
  | append rows =>
    simp only [Adapter.step] at hstep
    split_ifs at hstep
    cases hstep
    exact s.core_append rows
  | send => exact Adapter.core_writerStep (.inl hstep)
  | read => exact Adapter.core_writerStep (.inr (.inl hstep))
  | cancel => exact Adapter.core_writerStep (.inr (.inr hstep))
  | shutdown => exact Adapter.core_writerEnds (.inl hstep)
  | forget => exact Adapter.core_writerEnds (.inr (.inl hstep))
  | dropWriter => exact Adapter.core_writerEnds (.inr (.inr hstep))
  | poll => exact Adapter.core_coordinator (.inl hstep)
  | admitted => exact Adapter.core_coordinator (.inr (.inl hstep))
  | discard => exact Adapter.core_coordinator (.inr (.inr (.inl hstep)))
  | stop => exact Adapter.core_coordinator (.inr (.inr (.inr (.inl hstep))))
  | abortEngine => exact Adapter.core_coordinator (.inr (.inr (.inr (.inr (.inl hstep)))))
  | appendsClosed => exact Adapter.core_coordinator (.inr (.inr (.inr (.inr (.inr hstep)))))
  | reply =>
    simp only [Adapter.step, Adapter.reply] at hstep
    split at hstep
    · cases hstep
      exact Adapter.core_sendReply { s with coordinator := { s.coordinator with
        phase := .select } } ..
    · cases hstep
  | receive =>
    obtain ⟨c, hc, rfl⟩ := Option.map_eq_some_iff.1 hstep
    exact Adapter.core_receive hc
  | issueTicket =>
    obtain ⟨c, hc, rfl⟩ := Option.map_eq_some_iff.1 hstep
    unfold Coordinator.issueTicket at hc
    split at hc <;> cases hc <;> exact .refl
  | beginCollection | collected =>
    obtain ⟨c, hc, rfl⟩ := Option.map_eq_some_iff.1 hstep
    simp only [Coordinator.beginCollection, Coordinator.collected] at hc
    split at hc <;> cases hc
    exact .single (.dropAdmission s.core)
  | collect floor =>
    cases hstep
    exact .refl
  | stopped =>
    simp only [Adapter.step, Adapter.stopped] at hstep
    split_ifs at hstep
    cases hstep
    refine .trans (.single (.setPending s.core none (.inl rfl))) ?_
    exact Adapter.core_dropRequests { s with coordinator := { s.coordinator with
      phase := .stopped, pending := none, queued := none } } _
  | resolve => exact h.core_resolve hstep
  | subscribe =>
    cases hstep
    exact .single (.observe s.core .subscribe)
  | close error =>
    cases hstep
    exact .single (.observe s.core (.close error))
  | publish i =>
    obtain ⟨publisher, hget, hpublish⟩ := Option.bind_eq_some_iff.1 hstep
    obtain ⟨⟨publisher', o⟩, hmoved, rfl⟩ := Option.map_eq_some_iff.1 hpublish
    exact .single (.publish s.core hget hmoved)
  | endForward i =>
    obtain ⟨publisher', hbind, rfl⟩ := Option.map_eq_some_iff.1 hstep
    obtain ⟨publisher, hget, hend⟩ := Option.bind_eq_some_iff.1 hbind
    exact .single (.endForward s.core hget hend)
  | pop =>
    obtain ⟨o, ho, rfl⟩ := Option.map_eq_some_iff.1 hstep
    exact .single (.observe s.core (.pop ho))
  | deliver =>
    obtain ⟨o, ho, rfl⟩ := Option.map_eq_some_iff.1 hstep
    exact .single (.observe s.core (.deliver ho))
  | wake =>
    obtain ⟨o, ho, rfl⟩ := Option.map_eq_some_iff.1 hstep
    exact .single (.observe s.core (.wake ho))
  | barrier walId =>
    cases hstep
    exact .single (.barrier s.core walId)
  | pollBarrier i =>
    obtain ⟨barrier', hbind, rfl⟩ := Option.map_eq_some_iff.1 hstep
    obtain ⟨barrier, hget, hpoll⟩ := Option.bind_eq_some_iff.1 hbind
    exact .single (.pollBarrier s.core hget hpoll)

theorem AdmissionInv.core_steps (h : AdmissionInv base s)
    (hrun : Reaches (Adapter.step crc config) (fun _ _ => True) s s') :
    Core.Steps crc config base s.core s'.core := by
  have hboth : AdmissionInv base s' ∧ Core.Steps crc config base s.core s'.core :=
    hrun.invariant (I := fun t => AdmissionInv base t ∧ Core.Steps crc config base s.core t.core)
      ⟨h, .refl⟩ fun _ _ _ ht _ hstep => ⟨ht.1.step hstep, ht.2.trans (ht.1.core_step hstep)⟩
  exact hboth.2

end Chorus.SlateDb
