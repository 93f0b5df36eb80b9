import Chorus.Concurrency.Proofs.RelyGuarantee
import Chorus.SlateDb.Proofs.StepProofs

/-!
# Proofs: the coordinator under cancellation

Once a failure is recorded and no request is pending, the coordinator refuses every further append,
and nothing is admitted any more. With the agreement of the two counters this settles every way in
which a call can end. A request whose caller is gone is discarded, and its index is free again.
-/

namespace Chorus.SlateDb

open Concurrency

variable {n : Nat} {crc : Bytes → Nat} {config : WalEngineConfig} {base : Nat} {s s' : Adapter n}

/-- The adapter has failed, no request is pending, and the given batches were admitted. -/
structure Refusing (admissions : List AppendRequest) (p : Core n) : Prop where
  failed : p.progress.failure ≠ none
  pending : p.pending = none
  admissions : p.admissions = admissions

theorem Refusing.step {admissions : List AppendRequest} {p p' : Core n} (h : Refusing admissions p)
    (hstep : Core.Step crc config base p p') : Refusing admissions p' := by
  cases hstep with
  | accept _ hpending => cases h.pending.symm.trans hpending
  | setPending pending hopen =>
    rcases hopen with hnone | hopen
    · exact { h with pending := hnone }
    · exact absurd hopen h.failed
  | fail error => exact { h with failed := p.progress.failure_fail error }
  | commit _ hopen => exact absurd hopen h.failed
  | _ => exact { h with }

def Adapter.notAdmitted (s : Adapter n) : Prop :=
  ∀ call, s.writer.call = some call → call.request ∉ s.admissions

/-- Dropping a call that was not admitted changes nothing but the call. -/
theorem AdmissionInv.cancel_eq (h : AdmissionInv base s) (hcancel : s.notAdmitted)
    (hstep : s.cancel = some s') : s' = { s with writer := { s.writer with call := none } } := by
  have hholds : s.writer.holdsAdmission = false := by
    rw [← Writer.granted_isSome, Option.isSome_eq_false_iff, Option.isNone_iff_eq_none]
    refine Option.eq_none_iff_forall_ne_some.2 fun request hgranted => ?_
    have hcall : ∃ call, s.writer.call = some call ∧ call.request = request := by
      unfold Writer.granted at hgranted
      split at hgranted
      · next request' _ hcall =>
        cases hgranted
        exact ⟨_, hcall, rfl⟩
      · cases hgranted
    obtain ⟨call, hcall, rfl⟩ := hcall
    exact hcancel call hcall (h.granted _ (.inr hgranted))
  unfold Adapter.cancel at hstep
  split at hstep
  · cases hstep
  · simp only [hholds] at hstep
    exact (Option.some.inj hstep).symm

/-- A pending request whose caller is gone is discarded. -/
theorem Adapter.discard_eq {request : AppendRequest} (hphase : s.coordinator.phase = .select)
    (hpending : s.coordinator.pending = some request) (hgone : s.writer.awaits request = false) :
    s.discard =
      some { s.dropAdmission with coordinator := { s.coordinator with pending := none } } := by
  simp [Adapter.discard, hphase, hpending, hgone]

/-- The steps with which the coordinator gets rid of requests. -/
def Adapter.discards : Adapter.Action n → Prop
  | .receive | .discard => True
  | _ => False

/-- Nothing but the requests in the coordinator's hands and the engine's waiting append has
changed. -/
structure Adapter.Keeps (s s' : Adapter n) : Prop where
  phase : s'.coordinator.phase = s.coordinator.phase
  writer : s'.writer = s.writer
  progress : s'.progress = s.progress
  admissions : s'.admissions = s.admissions

theorem Adapter.exists_discarded (crc : Bytes → Nat) (config : WalEngineConfig)
    (hphase : s.coordinator.phase = .select) (hcall : s.writer.call = none) :
    ∃ s', Reaches (Adapter.step crc config) (fun _ a => Adapter.discards a) s s' ∧ s.Keeps s' ∧
      s'.coordinator.pending = none ∧ s'.coordinator.queued = s.coordinator.queued := by
  rcases hpending : s.coordinator.pending with _ | request
  · exact ⟨s, .refl, ⟨rfl, rfl, rfl, rfl⟩, hpending, rfl⟩
  · have hgone : s.writer.awaits request = false := by simp [Writer.awaits, hcall]
    exact ⟨_, .tail .refl (a := .discard) trivial (Adapter.discard_eq hphase hpending hgone),
      ⟨rfl, rfl, rfl, rfl⟩, rfl, rfl⟩

/-- Without a caller the coordinator gets rid of the pending and of the queued request. -/
theorem Adapter.exists_quiet (hphase : s.coordinator.phase = .select) (hcall : s.writer.call = none)
    (hopen : s.progress.failure = none) :
    ∃ s', Reaches (Adapter.step crc config) (fun _ a => Adapter.discards a) s s' ∧ s.Keeps s' ∧
      s'.coordinator.pending = none ∧ s'.coordinator.queued = none := by
  obtain ⟨s₁, hreach₁, hkeeps₁, hpending₁, hqueued₁⟩ :=
    Adapter.exists_discarded crc config hphase hcall
  have hphase₁ := hkeeps₁.phase.trans hphase
  rcases hqueued : s₁.coordinator.queued with _ | request
  · exact ⟨s₁, hreach₁, hkeeps₁, hpending₁, hqueued⟩
  · -- the queued request takes the place of the pending one and is discarded in its turn
    have hreceive :
        s₁.step crc config .receive = some { s₁ with coordinator := { s₁.coordinator with
        queued := none, pending := some request } } := by
      simp [Adapter.step, Coordinator.receive, hphase₁, hpending₁, hqueued, hkeeps₁.progress, hopen]
    obtain ⟨s₂, hreach₂, hkeeps₂, hpending₂, hqueued₂⟩ :=
      Adapter.exists_discarded crc config (s := { s₁ with coordinator :=
        { s₁.coordinator with queued := none, pending := some request } }) hphase₁
        ((congrArg Writer.call hkeeps₁.writer).trans hcall)
    exact ⟨s₂, .trans (.tail hreach₁ (a := .receive) trivial hreceive) hreach₂,
      ⟨hkeeps₂.phase.trans hkeeps₁.phase, hkeeps₂.writer.trans hkeeps₁.writer,
        hkeeps₂.progress.trans hkeeps₁.progress, hkeeps₂.admissions.trans hkeeps₁.admissions⟩,
      hpending₂, hqueued₂⟩

/-- Whatever the engine, the callers, collections and completions do, and wherever a call is
dropped: at the select point with no request queued, pending or answered but unread, the adapter has
failed and admits nothing more, or the writer's index is the engine's next sequence number. The
engine has taken the batches under consecutive indices, each once and as the writer computed it, its
completion carries that position, and dropping a call that was not admitted changes neither counter
nor the progress. A pending request without a caller can be discarded, which changes neither of them
either; so without a call the coordinator's own steps lead to where the next call gets the engine's
next sequence number. -/
theorem coordinator_agrees (crc : Bytes → Nat) (config : WalEngineConfig) (base room : Nat)
    (active spare : Fin n → ZoneStart) (fold : Option PendingSwap) {s : Adapter n}
    (hrun : Reaches (Adapter.step crc config) (fun _ _ => True)
      (.init (.init base room active spare fold)) s) :
    (s.coordinator.phase = .select → s.coordinator.queued = none → s.coordinator.pending = none →
      s.writer.unread = false →
        (s.progress.failure ≠ none ∧ ∀ s', Reaches (Adapter.step crc config)
          (fun _ _ => True) s s' → s'.admissions = s.admissions) ∨
        s.writer.nextIndex = s.engine.nextSeqno) ∧
    s.admissions.map (·.index) = List.range' base s.admissions.length ∧
    s.engine.accepted = s.admissions.map (fun request => ⟨request.bytes⟩) ∧
    (∀ request ∈ s.admissions, s.writer.calls[request.call]? = some request ∧
      request.position.walId = request.index + 1) ∧
    (∀ ticket ∈ s.coordinator.tickets, ∃ request ∈ s.admissions,
      ticket = (request.index, request.position)) ∧
    (s.notAdmitted → ∀ s', s.step crc config .cancel = some s' →
      s'.engine = s.engine ∧ s'.coordinator = s.coordinator ∧ s'.progress = s.progress ∧
        s'.writer.nextIndex = s.writer.nextIndex ∧ s'.writer.call = none) ∧
    (∀ request, s.coordinator.phase = .select → s.coordinator.pending = some request →
      s.writer.awaits request = false → ∃ s', s.step crc config .discard = some s' ∧
        s'.coordinator = { s.coordinator with pending := none } ∧
        s'.engine = { s.engine with admission := none } ∧ s'.writer = s.writer ∧
        s'.progress = s.progress ∧ s'.admissions = s.admissions) ∧
    (s.coordinator.phase = .select → s.writer.call = none → s.progress.failure = none →
      ∃ s', Reaches (Adapter.step crc config) (fun _ a => Adapter.discards a) s s' ∧ s.Keeps s' ∧
        s'.coordinator.pending = none ∧ s'.coordinator.queued = none ∧
        s'.writer.nextIndex = s'.engine.nextSeqno) := by
  have h := admissionInv_of_reaches hrun
  refine ⟨?_, h.indices, h.accepted, ?_, ?_, ?_, ?_, ?_⟩
  · intro hphase _ hpending hunread
    by_cases hfailed : s.progress.failure = none
    · right
      have hagree := h.agree hfailed
      rw [hphase, Writer.granted_of_unread hunread] at hagree
      exact hagree.symm
    · left
      have hrefusing : Refusing s.admissions s.core := ⟨hfailed, hpending, rfl⟩
      exact ⟨hfailed, fun s' hlater =>
        (stable_of_steps (fun _ _ hstep hp => Refusing.step hp hstep)
          (h.core_steps hlater) hrefusing).admissions⟩
  · intro request hrequest
    have hcomputed := h.computed request hrequest
    exact ⟨hcomputed, h.positions request (List.mem_of_getElem? hcomputed)⟩
  · intro ticket hticket
    obtain ⟨k, -, htickets, -⟩ := h.tickets
    have hmem : ticket ∈ (s.admissions.drop k).map fun request =>
        (request.index, request.position) :=
      htickets ▸ List.mem_append_left _ hticket
    obtain ⟨request, hrequest, rfl⟩ := List.mem_map.1 hmem
    exact ⟨request, List.mem_of_mem_drop hrequest, rfl⟩
  · intro hcancel s' hstep
    rw [h.cancel_eq hcancel hstep]
    exact ⟨rfl, rfl, rfl, rfl, rfl⟩
  · intro request hphase hpending hgone
    exact ⟨_, Adapter.discard_eq hphase hpending hgone, rfl, rfl, rfl, rfl, rfl⟩
  · intro hphase hcall hopen
    obtain ⟨s', hreach, hkeeps, hpending, hqueued⟩ := Adapter.exists_quiet hphase hcall hopen
    refine ⟨s', hreach, hkeeps, hpending, hqueued, ?_⟩
    have h' : AdmissionInv base s' := hreach.invariant h fun _ _ _ ht _ hstep => ht.step hstep
    have hagree := h'.agree (hkeeps.progress ▸ hopen)
    have hgranted : s'.writer.granted = none := by rw [Writer.granted, hkeeps.writer, hcall]
    rw [hkeeps.phase, hphase, hgranted] at hagree
    exact hagree.symm

/-- An engine of one zone behind five recovered records. -/
def oneZoneAdapter : Adapter 1 := .init (.init 5 2 (fun _ => .lane) (fun _ => .lane) none)

def smallLimits : WalEngineConfig := ⟨100, 100, 100⟩

def tombstoneRow : RowEntry := ⟨[], .tombstone, 7, none, none⟩

/-- A call is dropped while its request is queued, and the request is taken. -/
def droppedActions : List (Adapter.Action 1) :=
  [.replayed, .append [tombstoneRow], .send, .cancel, .receive]

def appendActions : List (Adapter.Action 1) :=
  [.append [tombstoneRow], .send, .receive, .poll, .admitted, .issueTicket, .reply, .read]

/-- The request is discarded, and the batch is appended again under its index. -/
theorem coordinator_agrees_retried : ∃ (s₀ s₁ s : Adapter 1) (dropped : AppendRequest),
    Reaches (Adapter.step crc32c smallLimits) (fun _ _ => True) oneZoneAdapter s₀ ∧
    s₀.coordinator.pending = some dropped ∧ dropped.call = 0 ∧ dropped.index = 5 ∧
    s₀.step crc32c smallLimits .discard = some s₁ ∧ s₁.coordinator.pending = none ∧
    Reaches (Adapter.step crc32c smallLimits) (fun _ _ => True) s₁ s ∧ s.progress.failure = none ∧
    s.admissions.map (fun request => (request.call, request.index)) = [(1, 5)] ∧
    s.writer.nextIndex = s.engine.nextSeqno := by
  have hrun : (runChecked (Adapter.step crc32c smallLimits) (fun _ _ => true) oneZoneAdapter
      droppedActions).any (fun s₀ => s₀.coordinator.pending.any (fun dropped =>
        decide (dropped.call = 0 ∧ dropped.index = 5) && !s₀.writer.awaits dropped) &&
        decide (s₀.coordinator.phase = .select) &&
          (s₀.step crc32c smallLimits .discard).any fun s₁ =>
          (runChecked (Adapter.step crc32c smallLimits)
            (fun _ _ => true) s₁ appendActions).any fun s =>
            decide (s.coordinator.phase = .select ∧ s.coordinator.queued = none ∧
              s.coordinator.pending = none ∧ s.writer.unread = false ∧ s.progress.failure = none ∧
              s.admissions.map (fun request => (request.call, request.index)) =
                [(1, 5)])) = true := by
    decide +kernel
  obtain ⟨s₀, hreach₀, hfacts₀⟩ := exists_reaches (fun _ _ _ => trivial) hrun
  simp only [Bool.and_eq_true, Option.any_eq_true, decide_eq_true_eq, Bool.not_eq_true'] at hfacts₀
  obtain ⟨⟨⟨dropped, hdropped, ⟨hcall, hindex⟩, hgone⟩, hselect⟩, s₁, hdiscard, hfacts⟩ := hfacts₀
  obtain ⟨-, -, -, -, -, -, hdiscarded, -⟩ :=
    coordinator_agrees crc32c smallLimits 5 2 _ _ none hreach₀
  obtain ⟨s₁', hstep, hcoordinator, -⟩ := hdiscarded dropped hselect hdropped hgone
  obtain rfl : s₁ = s₁' := Option.some.inj (hdiscard.symm.trans hstep)
  obtain ⟨s, hs, hphase, hqueued, hpending, hunread, hfailure, hadmitted⟩ := hfacts
  have hreach : Reaches (Adapter.step crc32c smallLimits) (fun _ _ => True) s₁ s :=
    reaches_of_runChecked (fun _ _ _ => trivial) hs
  obtain ⟨hagrees, -⟩ := coordinator_agrees crc32c smallLimits 5 2 _ _ none
    ((hreach₀.tail trivial hdiscard).trans hreach)
  refine ⟨s₀, s₁, s, dropped, hreach₀, hdropped, hcall, hindex, hdiscard,
    by rw [hcoordinator], hreach, hfailure, hadmitted, ?_⟩
  rcases hagrees hphase hqueued hpending hunread with ⟨hfailed, -⟩ | hindex
  · exact absurd hfailure hfailed
  · exact hindex

end Chorus.SlateDb
