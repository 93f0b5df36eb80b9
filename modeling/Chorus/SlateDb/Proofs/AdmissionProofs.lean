import Chorus.Concurrency.Run
import Chorus.Engine.Proofs.HandleProofs
import Chorus.SlateDb.Adapter

/-!
# Proofs: the adapter and its engine agree on WAL ids

The engine's sequence number runs ahead of the writer's index by the admission that the writer has
not read. An admission that is lost on the way fails the shared progress, so the two numbers agree
at every quiet select point of an adapter that has not failed.
-/

namespace Chorus.SlateDb

open Concurrency

variable {n : Nat} {crc : Bytes → Nat} {config : WalEngineConfig} {base : Nat} {s s' : Adapter n}

/-- The admitted request whose caller has not been told. -/
def CoordinatorPhase.granted : CoordinatorPhase → Option AppendRequest
  | .admitted request (.ok _) => some request
  | .replying request (.ok _) => some request
  | _ => none

/-- The ticket that is not issued yet. -/
def CoordinatorPhase.ticket : CoordinatorPhase → List (Nat × Position)
  | .admitted request (.ok seqno) => [(seqno, request.position)]
  | _ => []

/-- The admitted request whose reply is not read. -/
def Writer.granted (w : Writer) : Option AppendRequest :=
  match w.call with
  | some ⟨request, .answered (.ok _)⟩ => some request
  | _ => none

theorem Writer.granted_isSome (w : Writer) : w.granted.isSome = w.holdsAdmission := by
  rcases w with ⟨_, _, _, _, _, _ | ⟨request, _ | _ | ⟨_ | _⟩⟩, _⟩ <;> rfl

theorem Writer.granted_of_unread {w : Writer} (h : w.unread = false) : w.granted = none := by
  rcases w with ⟨_, _, _, _, _, _ | ⟨request, _ | _ | ⟨_ | _⟩⟩, _⟩
  all_goals first | rfl | cases h

structure AdmissionInv (base : Nat) (s : Adapter n) : Prop where
  indices : s.admissions.map (·.index) = List.range' base s.admissions.length
  next : s.engine.nextSeqno = base + s.admissions.length
  accepted : s.engine.accepted = s.admissions.map fun request => ⟨request.bytes⟩
  -- every request is one that the writer has computed
  positions : ∀ request ∈ s.writer.calls, request.position.walId = request.index + 1
  computed : ∀ request ∈ s.admissions, s.writer.calls[request.call]? = some request
  requests : ∀ request ∈ s.coordinator.requests, s.writer.calls[request.call]? = some request
  call : ∀ call, s.writer.call = some call → s.writer.calls[call.request.call]? = some call.request
  /-- The engine waits for permits with the pending request. -/
  waiting : ∀ append, s.engine.admission = some append → ∃ request,
    s.coordinator.phase = .select ∧ s.coordinator.pending = some request ∧
      append.record = ⟨request.bytes⟩ ∧ append.seqno = request.index ∧
      request.index = s.engine.nextSeqno
  granted : ∀ request,
    s.coordinator.phase.granted = some request ∨ s.writer.granted = some request →
    request ∈ s.admissions
  /-- The tickets are those of the latest admissions, and what is committed lies before them. -/
  tickets : ∃ k ≤ s.admissions.length, s.coordinator.tickets ++ s.coordinator.phase.ticket =
      (s.admissions.drop k).map (fun request => (request.index, request.position)) ∧
    ∀ position, s.progress.committed = some position → base < position.walId ∧
      position.walId ≤ base + k
  agree : s.progress.failure = none → s.engine.nextSeqno = s.writer.nextIndex +
    s.coordinator.phase.granted.toList.length + s.writer.granted.toList.length

theorem Progress.failure_fail (progress : Progress) (error : WalError) :
    (progress.fail error).failure ≠ none := by
  unfold Progress.fail
  split_ifs with h
  · nofun
  · intro hnone
    exact h (by rw [hnone]; rfl)

theorem Progress.committed_fail (progress : Progress) (error : WalError) :
    (progress.fail error).committed = progress.committed := by
  unfold Progress.fail
  split_ifs <;> rfl

/-- A completion fails, or it is that of its position and commits it. -/
theorem Progress.completion_cases (progress : Progress) (position : Position)
    (result : Except Chorus.WalError Nat) :
    (∃ error, progress.completion position result = progress.fail error) ∨
    progress.failure = none ∧ result = .ok position.walId ∧
      progress.completion position result = { progress with committed := some position } := by
  unfold Progress.completion
  split_ifs with hfailed
  · have hsome : ¬ progress.failure.isNone = true := by
      intro hnone
      rw [Option.isNone_iff_eq_none.1 hnone] at hfailed
      cases hfailed
    exact .inl ⟨.closed, (if_neg hsome).symm⟩
  · split
    · split_ifs with hnext
      · exact .inr ⟨Option.not_isSome_iff_eq_none.1 hfailed, congrArg _ hnext, rfl⟩
      · exact .inl ⟨_, rfl⟩
    · exact .inl ⟨_, rfl⟩

theorem getElem?_calls_append {calls : List AppendRequest} {request : AppendRequest} {i : Nat}
    (h : calls[i]? = some request) (next : AppendRequest) :
    (calls ++ [next])[i]? = some request := by
  obtain ⟨hlt, -⟩ := List.getElem?_eq_some_iff.1 h
  rw [List.getElem?_append_left hlt]
  exact h

namespace AdmissionInv

/-- The engine waits for permits only at the select point. -/
theorem admission_eq_none (h : AdmissionInv base s) (hphase : s.coordinator.phase ≠ .select) :
    s.engine.admission = none := by
  refine Option.eq_none_iff_forall_ne_some.2 fun append happend => ?_
  obtain ⟨_, hselect, -⟩ := h.waiting append happend
  exact hphase hselect

theorem requests_rest (h : AdmissionInv base s) :
    ∀ request ∈ ({ s.coordinator with phase := .select } : Coordinator).requests,
      s.writer.calls[request.call]? = some request := by
  intro request hrequest
  refine h.requests request ?_
  rw [Coordinator.requests, List.append_assoc] at hrequest ⊢
  exact List.mem_append_right _ hrequest

/-! ## Changes of one part -/

theorem failProgress (h : AdmissionInv base s) (error : WalError) :
    AdmissionInv base (s.setProgress (s.progress.fail error)) := by
  obtain ⟨k, hk, htickets, hcommitted⟩ := h.tickets
  refine { h with tickets := ⟨k, hk, htickets, ?_⟩, agree := ?_ }
  · intro position hposition
    exact hcommitted position (s.progress.committed_fail error ▸ hposition)
  · intro hnone
    exact absurd hnone (s.progress.failure_fail error)

theorem fail (h : AdmissionInv base s) (error : WalError) : AdmissionInv base (s.fail error) := by
  unfold Adapter.fail
  split_ifs
  · exact { h.failProgress error with }
  · exact { h with }

theorem setEngine (h : AdmissionInv base s) {engine : Engine n}
    (hengine : engine.admissions = s.engine.admissions) :
    AdmissionInv base { s with engine := engine } := by
  have hnext : engine.nextSeqno = s.engine.nextSeqno := congrArg Admissions.nextSeqno hengine
  refine { h with next := ?_, accepted := ?_, waiting := ?_, agree := ?_ }
  · exact hnext.trans h.next
  · exact (congrArg Admissions.accepted hengine).trans h.accepted
  · intro append happend
    obtain ⟨request, hphase, hpending, hrecord, hseqno, hindex⟩ :=
      h.waiting append ((congrArg Admissions.admission hengine).symm.trans happend)
    exact ⟨request, hphase, hpending, hrecord, hseqno, hindex.trans hnext.symm⟩
  · intro hnone
    exact hnext.trans (h.agree hnone)

theorem dropAdmission (h : AdmissionInv base s) : AdmissionInv base s.dropAdmission :=
  { h with waiting := nofun }

/-- The coordinator moves on without a new admission. -/
theorem setCoordinator (h : AdmissionInv base s) {c : Coordinator}
    (hrequests : ∀ request ∈ c.requests, s.writer.calls[request.call]? = some request)
    (htickets : c.tickets ++ c.phase.ticket = s.coordinator.tickets ++ s.coordinator.phase.ticket)
    (hgranted : c.phase.granted = s.coordinator.phase.granted)
    (hwaiting : s.engine.admission = none ∨
      c.phase = s.coordinator.phase ∧ c.pending = s.coordinator.pending) :
    AdmissionInv base { s with coordinator := c } := by
  obtain ⟨k, hk, hold, hcommitted⟩ := h.tickets
  refine { h with
    requests := hrequests
    waiting := ?_
    granted := ?_
    tickets := ⟨k, hk, htickets.trans hold, hcommitted⟩
    agree := ?_ }
  · intro append happend
    obtain ⟨request, hphase, hpending, hrest⟩ := h.waiting append happend
    rcases hwaiting with hnone | ⟨hsame, hsame'⟩
    · cases hnone.symm.trans happend
    · exact ⟨request, hsame.trans hphase, hsame'.trans hpending, hrest⟩
  · intro request hrequest
    exact h.granted request (hgranted ▸ hrequest)
  · intro hnone
    have hagree := h.agree hnone
    rw [← hgranted] at hagree
    exact hagree

/-- The call of the writer moves on without a new admission. -/
theorem setCall (h : AdmissionInv base s) {call : Option AppendCall}
    (hcall : ∀ c, call = some c → s.writer.calls[c.request.call]? = some c.request)
    (hgranted : ({ s.writer with call := call } : Writer).granted = s.writer.granted) :
    AdmissionInv base { s with writer := { s.writer with call := call } } := by
  refine { h with call := hcall, granted := ?_, agree := ?_ }
  · intro request hrequest
    exact h.granted request (hgranted ▸ hrequest)
  · intro hnone
    have hagree := h.agree hnone
    rw [← hgranted] at hagree
    exact hagree

theorem dropCall (h : AdmissionInv base s) (hgranted : s.writer.granted = none) :
    AdmissionInv base { s with writer := { s.writer with call := none } } :=
  h.setCall nofun hgranted.symm

/-! ## Replies -/

theorem Writer.awaits_cases {w : Writer} {request : AppendRequest} (h : w.awaits request = true) :
    ∃ r, w.call = some ⟨r, .waiting⟩ ∧ r.call = request.call := by
  obtain ⟨⟨r, stage⟩, hcall, hstage⟩ := (Option.any_eq_true _ _).1 h
  obtain ⟨hwaiting, hsame⟩ := Bool.and_eq_true_iff.1 hstage
  obtain rfl : stage = .waiting := of_decide_eq_true hwaiting
  exact ⟨r, hcall, of_decide_eq_true hsame⟩

/-- A refusal reaches its caller, or nobody. -/
theorem refuse (h : AdmissionInv base s) (request : AppendRequest) (error : WalError) :
    AdmissionInv base (s.sendReply request (.error error)) := by
  unfold Adapter.sendReply
  split_ifs with hawaits
  · obtain ⟨r, hcall, -⟩ := Writer.awaits_cases hawaits
    refine h.setCall ?_ ?_
    · intro call heq
      rw [hcall] at heq
      cases heq
      exact h.call ⟨r, .waiting⟩ hcall
    · rw [Writer.granted, Writer.granted, hcall]
      rfl
  · exact h

theorem dropRequests (h : AdmissionInv base s) (requests : List AppendRequest) :
    AdmissionInv base (s.dropRequests requests) := by
  unfold Adapter.dropRequests
  induction requests generalizing s with
  | nil => exact h
  | cons request requests ih => exact ih (h.refuse request .closed)

/-- The admission in the coordinator's hands goes to its caller, or its loss is a failure. -/
theorem grant (h : AdmissionInv base s) {request : AppendRequest}
    (hphase : s.coordinator.phase = .replying request (.ok ())) :
    AdmissionInv base ({ s with coordinator := { s.coordinator with phase := .select } }.sendReply
      request (.ok ())) := by
  have hgranted : request ∈ s.admissions := h.granted request (.inl (by rw [hphase]; rfl))
  have hwaiting : s.engine.admission = none := h.admission_eq_none (by rw [hphase]; nofun)
  obtain ⟨k, hk, htickets, hcommitted⟩ := h.tickets
  rw [hphase] at htickets
  unfold Adapter.sendReply
  split_ifs with hawaits
  · obtain ⟨r, hcall, hsame⟩ := Writer.awaits_cases hawaits
    have hcall : s.writer.call = some ⟨r, .waiting⟩ := hcall
    -- the caller waits with the very request that was admitted
    have hr : r = request := by
      have hcomputed := h.call _ hcall
      rw [hsame, h.computed request hgranted] at hcomputed
      exact (Option.some.inj hcomputed).symm
    subst hr
    refine { h with
      requests := h.requests_rest
      call := ?_
      waiting := fun append happend => ?_
      granted := ?_
      tickets := ⟨k, hk, htickets, hcommitted⟩
      agree := ?_ }
    · intro call heq
      rw [show s.writer.call.map _ = some ⟨r, .answered (.ok ())⟩ by rw [hcall]; rfl] at heq
      cases heq
      exact h.call ⟨r, .waiting⟩ hcall
    · cases hwaiting.symm.trans happend
    · intro r' hr'
      simp [CoordinatorPhase.granted, Writer.granted, hcall] at hr'
      exact hr' ▸ hgranted
    · intro hnone
      have hagree := h.agree hnone
      simp only [hphase, CoordinatorPhase.granted, Writer.granted, hcall] at hagree ⊢
      exact hagree
  · refine { h with
      requests := h.requests_rest
      waiting := fun append happend => ?_
      granted := ?_
      tickets := ⟨k, hk, htickets, ?_⟩
      agree := ?_ }
    · cases hwaiting.symm.trans happend
    · intro r hr
      refine h.granted r (hr.imp ?_ id)
      nofun
    · intro position hposition
      exact hcommitted position (s.progress.committed_fail .closed ▸ hposition)
    · intro hnone
      exact absurd hnone (s.progress.failure_fail .closed)

theorem reply (h : AdmissionInv base s) (hstep : s.reply = some s') : AdmissionInv base s' := by
  unfold Adapter.reply at hstep
  split at hstep
  · next request result hphase =>
    cases hstep
    rcases result with error | ⟨⟨⟩⟩
    · refine AdmissionInv.refuse (h.setCoordinator h.requests_rest ?_ ?_ (.inl ?_)) request error
      · rw [hphase]
        rfl
      · rw [hphase]
        rfl
      · exact h.admission_eq_none (by rw [hphase]; nofun)
    · exact h.grant hphase
  · cases hstep

/-! ## The coordinator -/

theorem receive (h : AdmissionInv base s) {c : Coordinator}
    (hstep : s.coordinator.receive s.progress = some c) :
    AdmissionInv base { s with coordinator := c } := by
  unfold Coordinator.receive at hstep
  split at hstep
  · next request hphase hpending hqueued =>
    have hrequest : s.writer.calls[request.call]? = some request :=
      h.requests request (by simp [Coordinator.requests, hqueued])
    have hwaiting : s.engine.admission = none := by
      refine Option.eq_none_iff_forall_ne_some.2 fun append happend => ?_
      obtain ⟨_, -, hsome, -⟩ := h.waiting append happend
      cases hpending.symm.trans hsome
    split at hstep
    · cases hstep
      refine h.setCoordinator ?_ ?_ ?_ (.inl hwaiting)
      · simp [Coordinator.requests, CoordinatorPhase.request?, hpending, hrequest]
      · rw [hphase]
        rfl
      · rw [hphase]
        rfl
    · cases hstep
      refine h.setCoordinator ?_ rfl rfl (.inl hwaiting)
      simp [Coordinator.requests, CoordinatorPhase.request?, hphase, hrequest]
  · cases hstep

theorem poll (h : AdmissionInv base s) (hstep : s.poll config = some s') :
    AdmissionInv base s' := by
  unfold Adapter.poll at hstep
  split at hstep
  · next request hphase hpending hadmission =>
    split at hstep
    · next error _ =>
      cases hstep
      refine h.setCoordinator ?_ ?_ ?_ (.inl hadmission)
      · intro r hr
        refine h.requests r ?_
        simpa [Coordinator.requests, CoordinatorPhase.request?, hphase, hpending] using hr
      · rw [hphase]
        rfl
      · rw [hphase]
        rfl
    · next append hcheck =>
      cases hstep
      obtain ⟨hfits, hseqno, hrecord⟩ := Engine.checkAppend_eq_ok hcheck
      refine { h with waiting := ?_ }
      intro a ha
      cases ha
      exact ⟨request, hphase, hpending, hrecord, hseqno, hseqno.symm.trans hfits.seqno⟩
  · cases hstep

/-- The engine takes the record under the index that the writer computed for it. -/
theorem admitted (h : AdmissionInv base s) (hstep : s.admitted = some s') :
    AdmissionInv base s' := by
  unfold Adapter.admitted at hstep
  split at hstep
  · next request append hphase hpending hadmission =>
    obtain ⟨request', -, hpending', hrecord, hseqno, hindex⟩ := h.waiting append hadmission
    obtain rfl : request' = request := Option.some.inj (hpending'.symm.trans hpending)
    have hrequest : s.writer.calls[request'.call]? = some request' :=
      h.requests request' (by simp [Coordinator.requests, hpending])
    have hrequests : ∀ result, ∀ r ∈ ({ s.coordinator with
        pending := none, phase := .admitted request' result } : Coordinator).requests,
        s.writer.calls[r.call]? = some r := by
      intro result r hr
      refine h.requests r ?_
      simpa [Coordinator.requests, CoordinatorPhase.request?, hphase, hpending] using hr
    simp only at hstep
    split_ifs at hstep with hopen
    · cases hstep
      have hengine := Engine.admissions_sendAppend hopen append
      have hnext : (s.engine.sendAppend append).nextSeqno = s.engine.nextSeqno + 1 :=
        congrArg Admissions.nextSeqno hengine
      have haccepted : (s.engine.sendAppend append).accepted = s.engine.accepted ++
          [append.record] :=
        congrArg Admissions.accepted hengine
      have hwaiting : (s.engine.sendAppend append).admission = none :=
        congrArg Admissions.admission hengine
      obtain ⟨k, hk, htickets, hcommitted⟩ := h.tickets
      refine { h with
        indices := ?_
        next := ?_
        accepted := ?_
        computed := ?_
        requests := hrequests _
        waiting := fun a ha => ?_
        granted := ?_
        tickets := ⟨k, ?_, ?_, hcommitted⟩
        agree := ?_ }
      · rw [List.map_append, h.indices, List.length_append, List.length_singleton,
          List.range'_concat, Nat.one_mul, ← h.next, ← hindex]
        rfl
      · rw [hnext, h.next, List.length_append]
        rfl
      · rw [haccepted, h.accepted, hrecord, List.map_append]
        rfl
      · intro r hr
        rcases List.mem_append.1 hr with hold | hnew
        · exact h.computed r hold
        · rw [List.mem_singleton.1 hnew]
          exact hrequest
      · cases hwaiting.symm.trans ha
      · rintro r (hr | hr)
        · cases hr
          exact List.mem_append_right _ (List.mem_singleton_self _)
        · exact List.mem_append_left _ (h.granted r (.inr hr))
      · exact hk.trans (List.length_append ▸ Nat.le_add_right _ _)
      · rw [hphase] at htickets
        rw [List.drop_append_of_le_length hk, List.map_append, ← htickets, hseqno]
        simp [CoordinatorPhase.ticket]
      · intro hnone
        have hagree := h.agree hnone
        rw [hphase] at hagree
        rw [hnext, hagree]
        simp only [CoordinatorPhase.granted, Option.toList_none, Option.toList_some,
          List.length_nil, List.length_singleton]
        omega
    · cases hstep
      have hengine : (s.engine.sendAppend append) = { s.engine with admission := none } := by
        unfold Engine.sendAppend
        rw [if_neg hopen]
      rw [hengine]
      refine h.dropAdmission.setCoordinator (hrequests _) ?_ ?_ (.inl rfl)
      · show _ = s.coordinator.tickets ++ s.coordinator.phase.ticket
        rw [hphase]
        rfl
      · show _ = s.coordinator.phase.granted
        rw [hphase]
        rfl
  · cases hstep

theorem discard (h : AdmissionInv base s) (hstep : s.discard = some s') : AdmissionInv base s' := by
  unfold Adapter.discard at hstep
  split at hstep
  · next request hphase hpending =>
    split_ifs at hstep
    cases hstep
    refine h.dropAdmission.setCoordinator ?_ rfl rfl (.inl rfl)
    intro r hr
    refine h.requests r ?_
    simp only [Coordinator.requests, Option.toList_none, List.append_nil] at hr ⊢
    exact List.append_assoc .. ▸ List.mem_append.2 ((List.mem_append.1 hr).imp_right
      (List.mem_append_right _))
  · cases hstep

theorem issueTicket (h : AdmissionInv base s) {c : Coordinator}
    (hstep : s.coordinator.issueTicket = some c) :
    AdmissionInv base { s with coordinator := c } := by
  unfold Coordinator.issueTicket at hstep
  split at hstep
  · next request error hphase =>
    cases hstep
    have hwaiting : s.engine.admission = none := h.admission_eq_none (by rw [hphase]; nofun)
    refine h.setCoordinator ?_ ?_ ?_ (.inl hwaiting)
    · intro r hr
      refine h.requests r ?_
      rw [Coordinator.requests, hphase]
      exact hr
    · rw [hphase]
      rfl
    · rw [hphase]
      rfl
  · next request seqno hphase =>
    cases hstep
    have hwaiting : s.engine.admission = none := h.admission_eq_none (by rw [hphase]; nofun)
    refine h.setCoordinator ?_ ?_ ?_ (.inl hwaiting)
    · intro r hr
      refine h.requests r ?_
      rw [Coordinator.requests, hphase]
      exact hr
    · rw [hphase]
      exact List.append_nil _
    · rw [hphase]
      rfl
  · cases hstep

theorem stop (h : AdmissionInv base s) (hstep : s.stop = some s') : AdmissionInv base s' := by
  unfold Adapter.stop at hstep
  split at hstep
  · next abort hphase hstopping =>
    cases hstep
    have hengine : (if abort = true then { s.dropAdmission.engine with handleOpen := false }.stop
        else s.dropAdmission.engine.sendShutdown).admissions =
        s.dropAdmission.engine.admissions := by
      split_ifs <;> rfl
    refine (h.dropAdmission.setEngine hengine).setCoordinator ?_ ?_ ?_ (.inl ?_)
    · intro r hr
      refine h.requests r ?_
      rw [Coordinator.requests, hphase]
      exact hr
    · show _ = s.coordinator.tickets ++ s.coordinator.phase.ticket
      rw [hphase]
      rfl
    · show _ = s.coordinator.phase.granted
      rw [hphase]
      rfl
    · exact congrArg Admissions.admission hengine
  · cases hstep

theorem stopped (h : AdmissionInv base s) (hstep : s.stopped = some s') : AdmissionInv base s' := by
  unfold Adapter.stopped at hstep
  split_ifs at hstep with hphase
  cases hstep
  refine dropRequests (h.setCoordinator ?_ ?_ ?_ (.inl ?_)) _
  · nofun
  · rw [hphase]
    rfl
  · rw [hphase]
    rfl
  · exact h.admission_eq_none (by rw [hphase]; nofun)

theorem appendsClosed (h : AdmissionInv base s) (hstep : s.appendsClosed = some s') :
    AdmissionInv base s' := by
  unfold Adapter.appendsClosed at hstep
  split_ifs at hstep with hquiet
  obtain ⟨hphase, hrequests, -⟩ := hquiet
  cases hstep
  have hpending : s.coordinator.pending = none := by
    rw [Coordinator.requests, List.append_eq_nil_iff, List.append_eq_nil_iff] at hrequests
    exact Option.toList_eq_nil_iff.1 hrequests.1.2
  have hengine : ({ s.engine with handleOpen := false }.stop : Engine n).admissions =
      s.engine.admissions := rfl
  refine (h.setEngine hengine).setCoordinator ?_ ?_ ?_ (.inl ?_)
  · intro r hr
    refine h.requests r ?_
    rw [Coordinator.requests, hphase]
    exact hr
  · rw [hphase]
    rfl
  · rw [hphase]
    rfl
  · refine Option.eq_none_iff_forall_ne_some.2 fun append happend => ?_
    obtain ⟨_, -, hsome, -⟩ := h.waiting append happend
    cases hpending.symm.trans hsome

/-! ## The completion task -/

/-- The oldest ticket is that of the first admission that is not resolved. -/
theorem oldest (h : AdmissionInv base s) {seqno : Nat} {position : Position}
    {later : List (Nat × Position)}
    (htickets : s.coordinator.tickets = (seqno, position) :: later) :
    ∃ k < s.admissions.length, position.walId = base + k + 1 ∧
      later ++ s.coordinator.phase.ticket =
        (s.admissions.drop (k + 1)).map (fun request => (request.index, request.position)) ∧
      ∀ position, s.progress.committed = some position → base < position.walId ∧
        position.walId ≤ base + k := by
  obtain ⟨k, -, hissued, hcommitted⟩ := h.tickets
  rw [htickets] at hissued
  obtain ⟨request, rest, hdrop, hticket, hrest⟩ := List.map_eq_cons_iff.1 hissued.symm
  obtain ⟨-, hposition⟩ := Prod.mk.inj hticket
  have hget : s.admissions[k]? = some request := by
    rw [← List.head?_drop, hdrop]
    rfl
  have hlt : k < s.admissions.length := (List.getElem?_eq_some_iff.1 hget).1
  have hindex : request.index = base + k := by
    have hindices := congrArg (·[k]?) h.indices
    simp only [List.getElem?_map, hget, Option.map_some, List.getElem?_range' hlt,
      Nat.one_mul] at hindices
    exact Option.some.inj hindices
  have hdrop' : s.admissions.drop (k + 1) = rest := by
    rw [← List.drop_drop, hdrop]
    rfl
  refine ⟨k, hlt, ?_, ?_, hcommitted⟩
  · have hcomputed := h.computed request (List.mem_of_getElem? hget)
    rw [← hposition, h.positions request (List.mem_of_getElem? hcomputed), hindex]
  · rw [hdrop', hrest]
    rfl

theorem resolve (h : AdmissionInv base s) (hstep : s.resolve = some s') : AdmissionInv base s' := by
  unfold Adapter.resolve at hstep
  split at hstep
  · cases hstep
  · next seqno position later htickets =>
    obtain ⟨result, -, rfl⟩ := Option.map_eq_some_iff.1 hstep
    obtain ⟨k, hk, hwalId, hlater, hcommitted⟩ := h.oldest htickets
    rcases s.progress.completion_cases position (result.map fun _ => seqno + 1) with
      ⟨error, heq⟩ | ⟨-, -, heq⟩
    · rw [heq]
      refine { h.failProgress error with tickets := ⟨k + 1, hk, hlater, ?_⟩ }
      intro p hp
      obtain ⟨hafter, hbefore⟩ := hcommitted p (s.progress.committed_fail error ▸ hp)
      exact ⟨hafter, Nat.le_succ_of_le hbefore⟩
    · rw [heq]
      refine { h with tickets := ⟨k + 1, hk, hlater, ?_⟩ }
      intro p hp
      cases hp
      rw [hwalId]
      omega

/-! ## The writer -/

theorem append (h : AdmissionInv base s) (hcall : s.writer.call = none) (rows : List RowEntry) :
    AdmissionInv base (s.append rows) := by
  unfold Adapter.append
  split
  · exact h.fail _
  · next payload seq _ =>
    split
    · exact h.fail _
    · next s₁ hstart =>
      have h₁ : AdmissionInv base s₁ ∧ s₁.writer.call = none := by
        unfold Adapter.start at hstart
        split at hstart <;> cases hstart
        · exact ⟨h, hcall⟩
        · exact ⟨{ h with }, hcall⟩
      obtain ⟨h₁, hcall₁⟩ := h₁
      split
      · exact h₁.fail _
      · next request hrequest =>
        simp only [Writer.request, bind_eq_ok, failIf_eq_ok] at hrequest
        obtain ⟨-, -, -, -, heq⟩ := hrequest
        cases heq
        have hgranted : s₁.writer.granted = none := by
          rw [Writer.granted, hcall₁]
        refine { h₁ with
          positions := ?_
          computed := fun r hr => getElem?_calls_append (h₁.computed r hr) _
          requests := fun r hr => getElem?_calls_append (h₁.requests r hr) _
          call := ?_
          granted := ?_
          agree := ?_ }
        · intro r hr
          rcases List.mem_append.1 hr with hold | hnew
          · exact h₁.positions r hold
          · rw [List.mem_singleton.1 hnew]
        · intro call heq
          cases heq
          exact List.getElem?_concat_length
        · rintro r (hr | hr)
          · exact h₁.granted r (.inl hr)
          · cases hr
        · intro hnone
          have hagree := h₁.agree hnone
          rw [hgranted] at hagree
          exact hagree

theorem send (h : AdmissionInv base s) (hstep : s.send = some s') : AdmissionInv base s' := by
  unfold Adapter.send at hstep
  split at hstep
  · next request hcall =>
    have hrequest := h.call _ hcall
    have hgranted : s.writer.granted = none := by
      rw [Writer.granted, hcall]
    split_ifs at hstep with hphase hqueued
    · cases hstep
      exact (h.dropCall hgranted).fail _
    · cases hstep
      have hcalled : AdmissionInv base
          { s with writer := { s.writer with call := some ⟨request, .waiting⟩ } } := by
        refine h.setCall ?_ hgranted.symm
        intro call heq
        cases heq
        exact hrequest
      refine hcalled.setCoordinator ?_ rfl rfl (.inr ⟨rfl, rfl⟩)
      intro r hr
      rcases List.mem_append.1 hr with hold | hnew
      · exact h.requests r (List.mem_append_left _ hold)
      · obtain rfl : r = request := by simpa using hnew
        exact hrequest
  · cases hstep

theorem read (h : AdmissionInv base s) (hstep : s.read = some s') : AdmissionInv base s' := by
  unfold Adapter.read at hstep
  split at hstep
  · next request hcall =>
    cases hstep
    have hgranted : s.writer.granted = some request := by
      rw [Writer.granted, hcall]
    refine { h with call := nofun, granted := ?_, agree := ?_ }
    · rintro r (hr | hr)
      · exact h.granted r (.inl hr)
      · cases hr
    · intro hnone
      have hagree := h.agree hnone
      rw [hgranted, Option.toList_some, List.length_singleton] at hagree
      show s.engine.nextSeqno =
        s.writer.nextIndex + 1 + s.coordinator.phase.granted.toList.length + 0
      rw [hagree]
      omega
  · next error hcall =>
    cases hstep
    have hgranted : s.writer.granted = none := by
      rw [Writer.granted, hcall]
    exact (h.dropCall hgranted).fail _
  · cases hstep

theorem cancel (h : AdmissionInv base s) (hstep : s.cancel = some s') : AdmissionInv base s' := by
  unfold Adapter.cancel at hstep
  split at hstep
  · cases hstep
  · simp only at hstep
    split_ifs at hstep with hholds
    · cases hstep
      obtain ⟨k, hk, htickets, hcommitted⟩ := h.tickets
      refine { h with
        call := nofun
        granted := ?_
        tickets := ⟨k, hk, htickets, ?_⟩
        agree := ?_ }
      · rintro r (hr | hr)
        · exact h.granted r (.inl hr)
        · cases hr
      · intro position hposition
        exact hcommitted position (s.progress.committed_fail .closed ▸ hposition)
      · intro hnone
        exact absurd hnone (s.progress.failure_fail .closed)
    · cases hstep
      have hgranted : s.writer.granted = none := by
        rw [← Option.not_isSome_iff_eq_none, Writer.granted_isSome]
        exact hholds
      exact h.dropCall hgranted

theorem shutdown (h : AdmissionInv base s) (hstep : s.shutdown = some s') :
    AdmissionInv base s' := by
  unfold Adapter.shutdown at hstep
  split_ifs at hstep
  split at hstep <;> cases hstep
  · exact { h with }
  · exact { h with }
  · exact h

theorem forget (h : AdmissionInv base s) (hstep : s.forget = some s') : AdmissionInv base s' := by
  unfold Adapter.forget at hstep
  split_ifs at hstep
  cases hstep
  exact { h with }

theorem dropWriter (h : AdmissionInv base s) (hstep : s.dropWriter = some s') :
    AdmissionInv base s' := by
  unfold Adapter.dropWriter at hstep
  split_ifs at hstep
  cases hstep
  exact { h.fail .closed with }

/-! ## Runs -/

theorem step (h : AdmissionInv base s) {action : Adapter.Action n}
    (hstep : s.step crc config action = some s') : AdmissionInv base s' := by
  cases action with
  | engine action =>
    simp only [Adapter.step] at hstep
    split_ifs at hstep with hbackground
    obtain ⟨engine, hengine, rfl⟩ := Option.map_eq_some_iff.1 hstep
    exact h.setEngine (Engine.admissions_step hbackground hengine)
  | replay | replayed =>
    simp only [Adapter.step] at hstep
    split_ifs at hstep
    cases hstep
    exact { h with }
  | append rows =>
    simp only [Adapter.step] at hstep
    split_ifs at hstep with hcall
    cases hstep
    exact h.append (Option.isNone_iff_eq_none.1 hcall) rows
  | send => exact h.send hstep
  | read => exact h.read hstep
  | cancel => exact h.cancel hstep
  | shutdown => exact h.shutdown hstep
  | forget => exact h.forget hstep
  | dropWriter => exact h.dropWriter hstep
  | receive =>
    obtain ⟨c, hc, rfl⟩ := Option.map_eq_some_iff.1 hstep
    exact h.receive hc
  | poll => exact h.poll hstep
  | admitted => exact h.admitted hstep
  | discard => exact h.discard hstep
  | issueTicket =>
    obtain ⟨c, hc, rfl⟩ := Option.map_eq_some_iff.1 hstep
    exact h.issueTicket hc
  | reply => exact h.reply hstep
  | collect floor =>
    cases hstep
    exact { h with }
  | beginCollection | collected =>
    obtain ⟨c, hc, rfl⟩ := Option.map_eq_some_iff.1 hstep
    simp only [Coordinator.beginCollection, Coordinator.collected] at hc
    split at hc <;> cases hc
    exact h.dropAdmission.setCoordinator h.requests rfl rfl (.inl rfl)
  | stop => exact h.stop hstep
  | abortEngine =>
    simp only [Adapter.step, Adapter.abortEngine] at hstep
    split_ifs at hstep
    cases hstep
    exact h.setEngine rfl
  | stopped => exact h.stopped hstep
  | appendsClosed => exact h.appendsClosed hstep
  | resolve => exact h.resolve hstep
  | publish i =>
    obtain ⟨publisher, -, hpublish⟩ := Option.bind_eq_some_iff.1 hstep
    obtain ⟨r, -, rfl⟩ := Option.map_eq_some_iff.1 hpublish
    exact { h with }
  | endForward i | pollBarrier i | pop | deliver | wake =>
    obtain ⟨_, -, rfl⟩ := Option.map_eq_some_iff.1 hstep
    exact { h with }
  | subscribe | close error | barrier walId =>
    cases hstep
    exact { h with }

theorem init (room : Nat) (active spare : Fin n → ZoneStart) (fold : Option PendingSwap) :
    AdmissionInv base (Adapter.init (.init base room active spare fold)) where
  indices := rfl
  next := rfl
  accepted := rfl
  positions _ hmem := absurd hmem List.not_mem_nil
  computed _ hmem := absurd hmem List.not_mem_nil
  requests _ hmem := absurd hmem List.not_mem_nil
  call _ hcall := Option.noConfusion rfl (heq_of_eq hcall)
  waiting := nofun
  granted := by rintro request (h | h) <;> cases h
  tickets := ⟨0, Nat.zero_le _, rfl, nofun⟩
  agree _ := rfl

end AdmissionInv

theorem admissionInv_of_reaches {room : Nat} {active spare : Fin n → ZoneStart}
    {fold : Option PendingSwap}
    (h : Reaches (Adapter.step crc config) (fun _ _ => True)
      (.init (.init base room active spare fold)) s) : AdmissionInv base s :=
  h.invariant (.init room active spare fold) fun _ _ _ hs _ hstep => hs.step hstep

end Chorus.SlateDb
