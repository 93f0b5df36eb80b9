import Chorus.Engine.Proofs.EffectProofs

/-!
# The admission handle and the loop

The handle numbers the admitted records and adds up their bytes. No step of the loop, of a segment
or of a lane touches what it keeps.
-/

namespace Chorus

variable {n : Nat} {crc : Bytes → Nat} {config : WalEngineConfig} {e e' : Engine n}

namespace Engine

theorem admissions_step {action : Action n} (haction : background action = true)
    (h : e.step crc config action = some e') : e'.admissions = e.admissions := by
  cases action with
  | enqueueAppend | sendAppend | cancelAppend | shutdown | dropHandle | abort => cases haction
  | segment i action =>
    obtain ⟨-, heq⟩ := Option.ite_none_right_eq_some.1 h
    obtain ⟨segment, -, rfl⟩ := Option.map_eq_some_iff.1 heq
    rfl
  | _ => exact (admissions_of_turn (.of_step rfl h)).1

/-! ## Calls of the handle -/

/-- What the checks of an append say about the state in which they pass. -/
structure AppendFits (config : WalEngineConfig) (e : Engine n)
    (append : AdmittedAppend) : Prop where
  channelOpen : e.channelOpen = true
  seqno : append.seqno = e.nextSeqno
  boundary : e.capacity.admissionStartBytes ≤ e.totalAdmittedBytes
  ceiling : e.capacity.existingBytes + (e.totalAdmittedBytes - e.capacity.admissionStartBytes) +
    append.encodedBytes ≤ config.maxActiveSegmentBytes
  admissionEnd : append.admissionEndBytes = e.totalAdmittedBytes + append.encodedBytes

theorem checkAppend_eq_ok {seqno : Nat} {record : RecordFrame} {append : AdmittedAppend}
    (h : e.checkAppend config seqno record = .ok append) :
    AppendFits config e append ∧ append.seqno = seqno ∧ append.record = record := by
  unfold checkAppend at h
  simp only [bind_eq_ok, failIf_eq_ok] at h
  obtain ⟨-, hopen, -, hseqno, -, -, -, -, -, -, -, hboundary, -, hceiling, heq⟩ := h
  cases heq
  refine ⟨⟨Bool.not_eq_false _ ▸ hopen, not_not.1 hseqno, not_lt.1 hboundary,
    not_lt.1 hceiling, rfl⟩, rfl, rfl⟩

/-- Only a call that gets its permits adds a record. -/
theorem accepted_handleCall {action : Action n} (hbackground : background action = false)
    (hsend : action ≠ .sendAppend) (h : e.step crc config action = some e') :
    e'.accepted = e.accepted := by
  cases action with
  | sendAppend => exact absurd rfl hsend
  | enqueueAppend seqno record =>
    obtain ⟨-, heq⟩ := Option.ite_none_right_eq_some.1 h
    split at heq <;> cases heq <;> rfl
  | cancelAppend | abort =>
    cases h
    rfl
  | shutdown | dropHandle =>
    obtain ⟨-, heq⟩ := Option.ite_none_right_eq_some.1 h
    cases heq
    rfl
  | _ => cases hbackground

/-- The check of the admission boundary fails only where the boundary has passed the admitted
bytes. -/
theorem checkAppend_ne_boundary {seqno : Nat} {record : RecordFrame}
    (hboundary : e.capacity.admissionStartBytes ≤ e.totalAdmittedBytes) :
    e.checkAppend config seqno record ≠ .error (.internal .admissionBoundary) := by
  intro herror
  have hnot : ¬ e.totalAdmittedBytes < e.capacity.admissionStartBytes := not_lt.2 hboundary
  unfold checkAppend at herror
  simp [bind_eq_error, hnot, pure, Except.pure] at herror

theorem admissions_sendAppend (hopen : e.channelOpen = true) (append : AdmittedAppend) :
    (e.sendAppend append).admissions =
      ⟨e.nextSeqno + 1, append.admissionEndBytes, none, e.accepted ++ [append.record]⟩ := by
  unfold sendAppend
  rw [if_pos hopen]
  rfl

end Engine

end Chorus
