import Chorus.Engine.Proofs.TurnProofs

/-!
# Every step keeps the books

What a turn of the loop and a step of its environment leave of the books, up to `EngineInv.step`.
-/

namespace Chorus

open RecordFrame

variable {n : Nat} {crc : Bytes → Nat} {config : WalEngineConfig} {start : Nat} {e e' : Engine n}
  {inHand : List AdmittedAppend} {sent : Bool} {action : Engine.Action n}

theorem EngineInv.running (h : EngineInv crc start e) (hphase : e.phase ≠ .stopped) :
    e.ledger.Running crc start e.phase.inHand e.phase.sent := by
  cases hp : e.phase with
  | stopped => exact absurd hp hphase
  | completing committedEnd failure =>
    simp only [EngineInv, hp] at h
    exact h.1
  | reserve appends todo zones | send appends todo zones =>
    simp only [EngineInv, hp] at h
    exact h.2
  | _ =>
    simp only [EngineInv, hp] at h
    exact h

theorem EngineInv.free (h : EngineInv crc start e) (hfree : e.phase.free = true) :
    e.ledger.Running crc start [] false := by
  obtain ⟨hnone, hsent⟩ := Phase.inHand_of_free hfree
  have hrun := h.running (Phase.ne_stopped hfree)
  rw [hnone, hsent] at hrun
  exact hrun

theorem EngineInv.of_free (hfree : e.phase.free = true) (h : e.ledger.Running crc start [] false)
    (hread : ∀ committedEnd failure, e.phase = .completing committedEnd failure →
      e.ledger.WatermarkRead committedEnd) : EngineInv crc start e := by
  unfold EngineInv
  split
  · rename_i hphase
    rw [hphase] at hfree
    cases hfree
  · rename_i hphase
    exact ⟨h, hread _ _ hphase⟩
  · rename_i hphase
    rw [hphase] at hfree
    cases hfree
  · rename_i hphase
    rw [hphase] at hfree
    cases hfree
  · exact h

theorem EngineInv.windowed_iff (hwindowed : e.phase.windowed = true) : EngineInv crc start e ↔
    e.phase.inHand ≠ [] ∧ e.ledger.Running crc start e.phase.inHand e.phase.sent := by
  unfold EngineInv
  cases hphase : e.phase <;> rw [hphase] at hwindowed <;> first | exact Iff.rfl | cases hwindowed

/-- The environment changes the books in a way that every phase allows. -/
theorem EngineInv.lift (h : EngineInv crc start e) (hphase : e'.phase = e.phase)
    (hrunning : ∀ inHand sent, e.ledger.Running crc start inHand sent →
      e'.ledger.Running crc start inHand sent)
    (hstopped : e.ledger.Stopped crc start → e'.ledger.Stopped crc start)
    (hread : ∀ committedEnd, e.ledger.WatermarkRead committedEnd →
      e'.ledger.WatermarkRead committedEnd) : EngineInv crc start e' := by
  unfold EngineInv at h ⊢
  rw [hphase]
  split at h
  · exact hstopped h
  · exact ⟨hrunning _ _ h.1, hread _ h.2⟩
  · exact ⟨h.1, hrunning _ _ h.2⟩
  · exact ⟨h.1, hrunning _ _ h.2⟩
  · exact hrunning _ _ h

/-! ## Admission -/

theorem Engine.checkAppend_seqno {seqno : Nat} {record : RecordFrame} {append : AdmittedAppend}
    (h : e.checkAppend config seqno record = .ok append) : append.seqno = e.nextSeqno := by
  unfold Engine.checkAppend at h
  simp only [bind_eq_ok, failIf_eq_ok] at h
  obtain ⟨-, -, -, hseqno, -, -, -, -, -, -, -, -, -, -, heq⟩ := h
  cases heq
  exact not_not.1 hseqno

theorem EngineInv.sendAppend (h : EngineInv crc start e) {append : AdmittedAppend}
    (happend : e.admission = some append) : EngineInv crc start (e.sendAppend append) := by
  unfold Engine.sendAppend
  split_ifs with hopen
  · refine h.lift rfl (fun inHand sent hrun => ?_) (fun hstop => ?_) fun _ hread => hread
    · exact hrun.sendAppend (hrun.admission append happend)
    · have hclosed : e.channelOpen = false := hstop.closed
      rw [hopen] at hclosed
      cases hclosed
  · exact h.lift rfl (fun _ _ hrun => hrun.setAdmission nofun) (fun hstop => { hstop with })
      fun _ hread => hread

theorem EngineInv.sendShutdown (h : EngineInv crc start e) :
    EngineInv crc start e.sendShutdown := by
  unfold Engine.sendShutdown
  split_ifs
  · refine h.lift rfl (fun inHand sent hrun => ?_)
      (fun hstop => { hstop with }) fun _ hread => hread
    have hbooks : Books start e.nextCompletion e.nextSeqno e.accepted
        (({ e.ledger with channel := e.channel ++ [.shutdown] } : Ledger n).outstanding
          inHand) := by
      have hbooks := hrun.books
      rw [Ledger.outstanding, ← List.append_nil (queuedAppends e.ledger.channel)] at hbooks
      rw [Ledger.outstanding, queuedAppends_append]
      exact hbooks
    exact { hrun with books := hbooks }
  · exact h.lift rfl (fun _ _ hrun => hrun) (fun hstop => hstop) fun _ hread => hread

/-! ## The loop -/

/-- A swap happens only at the committed end of the active segment, and only onto the registered
spare. -/
theorem Engine.beginSwap_eq_ok {pending : PendingSwap} {successor : Nat}
    (h : e.beginSwap = .ok (some (pending, successor))) :
    pending = ⟨e.baseRecordIndex, e.baseRecordIndex + e.active.committedLen - 1,
      some e.activeSegment⟩ ∧
      e.active.admittedLen ≠ 0 ∧ e.active.admittedLen = e.active.committedLen ∧
      e.spare = some ⟨successor, true⟩ := by
  unfold Engine.beginSwap at h
  simp only [bind_eq_ok, failIf_eq_ok] at h
  obtain ⟨-, -, h⟩ := h
  split_ifs at h with hzero
  · cases h
  · simp only [bind_eq_ok, failIf_eq_ok] at h
    obtain ⟨-, hcommitted, h⟩ := h
    split at h
    · cases h
    · rename_i spare hspare
      simp only [bind_eq_ok, failIf_eq_ok] at h
      obtain ⟨-, hregistered, h⟩ := h
      cases h
      refine ⟨rfl, hzero, not_not.1 hcommitted, ?_⟩
      rw [hspare, ← Bool.not_eq_false _ |>.mp hregistered]

theorem Engine.beginSwap_eq_some {pending : PendingSwap} {successor : Nat}
    (h : e.beginSwap = .ok (some (pending, successor))) :
    pending.endRecordIndex + 1 = e.baseRecordIndex + e.active.admittedLen ∧
      e.spare.map PreparedSpare.segment = some successor := by
  obtain ⟨rfl, hne, hcommitted, hspare⟩ := Engine.beginSwap_eq_ok h
  refine ⟨?_, by rw [hspare]; rfl⟩
  show e.baseRecordIndex + e.active.committedLen - 1 + 1 = _
  omega

/-- The tracker admits exactly the window that was handed to the lanes. -/
theorem Ledger.Running.admitted_window {l : Ledger n} (h : l.Running crc start inHand true)
    {zones : List (Fin n)} {segment : SegmentSystem n}
    (hstep : (l.segments l.activeSegment).segment.step crc (.admitWindow zones) = some segment) :
    segment.commits.admitted = (l.segments l.activeSegment).admittedLen + inHand.length ∧
      segment.stream = (l.segments l.activeSegment).segment.stream := by
  have htail := h.streams l.activeSegment
  rw [if_pos ⟨rfl, rfl⟩] at htail
  have hlen := congrArg List.length htail
  rw [List.length_drop, List.length_map] at hlen
  obtain ⟨-, heq⟩ := Option.ite_none_right_eq_some.1 hstep
  cases heq
  refine ⟨?_, rfl⟩
  show (CommitTracker.admitWindow _ _ _).admitted = _
  rw [CommitTracker.admitted_admitWindow, List.length_drop, length_recordEnds]
  exact congrArg _ hlen

/-- The window in hand got the indices it was admitted with. -/
theorem Ledger.Running.assigned_window {l : Ledger n} (hne : inHand ≠ [])
    (h : l.Running crc start inHand true) :
    (inHand.head?.map fun append => append.seqno).getD 0 =
        l.baseRecordIndex + (l.segments l.activeSegment).admittedLen ∧
      (inHand.getLast?.map fun append => append.seqno + 1).getD 0 =
        l.baseRecordIndex + (l.segments l.activeSegment).admittedLen + inHand.length := by
  have hpos : 0 < inHand.length := List.length_pos_iff.2 hne
  have hhead := (h.getElem?_inHand (List.getElem?_eq_getElem hpos)).1
  have hlast := (h.getElem?_inHand (List.getElem?_eq_getElem (Nat.sub_one_lt_of_lt hpos))).1
  rw [List.head?_eq_getElem?, List.getLast?_eq_getElem?, List.getElem?_eq_getElem hpos,
    List.getElem?_eq_getElem (Nat.sub_one_lt_of_lt hpos)]
  simp only [Option.map_some, Option.getD_some]
  omega

theorem Engine.dispatched_of_assigned (e : Engine n) {appends : List AdmittedAppend}
    {commits : RecordCommitRange}
    (hfirst : (appends.head?.map fun append => append.seqno).getD 0 =
      commits.firstGlobalRecordIndex)
    (hstop : (appends.getLast?.map fun append => append.seqno + 1).getD 0 =
      commits.endGlobalRecordIndex) :
    e.dispatched appends commits = { e with
      pendingRecords := e.pendingRecords + appends.length
      pendingBytes := e.pendingBytes + (appends.map AdmittedAppend.encodedBytes).sum
      completionBatches := e.completionBatches ++ [⟨commits, appends⟩]
      phase := .markDue } := by
  simp only [Engine.dispatched, hfirst, hstop]
  exact if_neg (by simp)

theorem EngineInv.admitWindow {appends : List AdmittedAppend} (hne : appends ≠ [])
    (h : e.ledger.Running crc start appends true) {represented : List (Fin n)}
    (hstep : e.admitWindow crc appends represented = some e') : EngineInv crc start e' := by
  obtain ⟨segment, hadmits, rfl⟩ := Option.map_eq_some_iff.1 hstep
  obtain ⟨hadmitted, hstream⟩ := h.admitted_window hadmits
  have hcount : segment.commits.admitted - e.active.admittedLen = appends.length := by
    rw [hadmitted]
    exact Nat.add_sub_cancel_left ..
  obtain ⟨hfirst, hstop⟩ := h.assigned_window hne
  simp only [hcount]
  rw [Engine.dispatched_of_assigned _ hfirst hstop]
  exact h.dispatch (SegmentWriter.Grows.of_step hadmits) hstream hadmitted rfl rfl

theorem EngineInv.ends (h : EngineInv crc start e) (hfrom : e.phase ≠ .stopped)
    (hends : e.Ends action e') : EngineInv crc start e' := by
  obtain ⟨hphase, ⟨segments, htouched, hframe⟩, ⟨failed, hcompletions, hdefinitive, hsublist⟩, -⟩ :=
    hends
  have hrun := (h.running hfrom).advance fun k => (htouched k).advances crc
  have hstop := hrun.stop failed hdefinitive hsublist e'.completionBatches e'.queue e'.channel
  rw [show e.ledger.completions ++ _ = e'.completions from hcompletions.symm] at hstop
  unfold EngineInv
  rw [hphase]
  show e'.ledger.Stopped crc start
  rw [Engine.ledger_congr hframe]
  exact hstop

theorem EngineInv.turn (h : EngineInv crc start e) (hturn : e.Turn crc config action e') :
    EngineInv crc start e' := by
  cases hturn with
  | idle htouched hfrom hto hframe hroute hread _ _ =>
    refine .of_free hto ?_ hread
    rw [Engine.ledger_congr hframe]
    exact ((h.free hfrom).reroute hroute).advance fun k => (htouched k).advances crc
  | ended hfrom hends => exact h.ends hfrom hends
  | inconsistent hfrom hbatches hpending _ =>
    -- the books count the append that is held
    have hcount : e.pendingRecords = (e.completionBatches.flatMap CompletionBatch.appends).length :=
      (h.free hfrom).pending
    rw [hbatches, hpending] at hcount
    exact absurd hcount.symm (Nat.succ_ne_zero _)
  | popped hfrom hbatches he =>
    subst he
    exact (h.free hfrom).popBatch hbatches
  | completed hfrom hbatches hlt he =>
    subst he
    simp only [EngineInv, hfrom] at h
    obtain ⟨-, -, hrun, hread⟩ := h.1.complete h.2 hbatches hlt
    unfold EngineInv
    rw [show (e.completeAppend config _ _ _ _).phase = e.phase from rfl, hfrom]
    exact ⟨hrun, hread⟩
  | swapped _ hfrom hswap he =>
    subst he
    obtain ⟨hbase, hspare⟩ := Engine.beginSwap_eq_some hswap
    have hrun := (h.free hfrom).swap hspare
    rw [show e.ledger.baseRecordIndex +
      (e.ledger.segments e.ledger.activeSegment).admittedLen = _ from
      hbase.symm] at hrun
    exact hrun
  | adopted _ hfrom hto hframe =>
    refine .of_free (congrArg Phase.free hto) ?_ fun _ _ h => by rw [hto] at h; cases h
    rw [Engine.ledger_congr hframe]
    exact (h.free hfrom).adopt _
  | opened _ hfrom hne htaken he =>
    subst he
    exact ⟨hne, (h.free hfrom).reroute (congrArg (· ++ queuedAppends e.channel) htaken)⟩
  | lane _ htouched hfrom hto hinHand hsent hframe _ =>
    obtain ⟨hne, hrun⟩ := (EngineInv.windowed_iff hfrom).1 h
    rw [EngineInv.windowed_iff hto, hinHand, hsent, Engine.ledger_congr hframe]
    exact ⟨hne, hrun.advance fun k => (htouched k).advances crc⟩
  | joined _ _ hfrom hdispatch he =>
    subst he
    simp only [EngineInv, hfrom] at h
    have hgrows := SegmentWriter.Grows.of_step hdispatch
    obtain ⟨-, heq⟩ := Option.ite_none_right_eq_some.1 hdispatch
    cases heq
    exact ⟨h.1, h.2.join hgrows rfl rfl⟩
  | dispatched _ _ hfrom hadmits =>
    simp only [EngineInv, hfrom] at h
    exact .admitWindow h.1 h.2 hadmits

/-! ## Runs -/

theorem EngineInv.abort (h : EngineInv crc start e) :
    EngineInv crc start ({ e with handleOpen := false } : Engine n).stop := by
  by_cases hphase : e.phase = .stopped
  · simp only [EngineInv, hphase] at h
    exact { h with closed := rfl }
  · have hrun : e.ledger.Running crc start e.phase.inHand e.phase.sent := h.running hphase
    have hstop := hrun.stop [] (by simp) (List.nil_sublist _) e.completionBatches e.queue []
    rw [List.map_nil, List.append_nil] at hstop
    exact hstop

theorem EngineInv.segment (h : EngineInv crc start e) {i : Nat} {action : SegmentSystem.Action n}
    {segment : SegmentSystem n} (hexternal : Engine.external action = true)
    (hstep : (e.segments i).segment.step crc action = some segment) :
    EngineInv crc start { e with
      segments := Function.update e.segments i { e.segments i with segment := segment } } := by
  have hadv : ∀ k, (e.segments k).Advances crc
      (Function.update e.segments i { e.segments i with segment := segment } k) :=
    update_of_rel (SegmentWriter.Advances.refl crc) (.of_external hexternal hstep)
  exact h.lift rfl (fun _ _ hrun => hrun.advance hadv) (fun hstop => hstop.advance hadv)
    fun _ hread => hread.advance hadv

theorem EngineInv.step (h : EngineInv crc start e)
    (hstep : e.step crc config action = some e') : EngineInv crc start e' := by
  cases action with
  | enqueueAppend seqno record =>
    obtain ⟨-, heq⟩ := Option.ite_none_right_eq_some.1 hstep
    split at heq
    · cases heq
      exact h
    · rename_i append hcheck
      cases heq
      refine h.lift rfl (fun _ _ hrun => hrun.setAdmission fun a ha => ?_)
        (fun hstop => { hstop with }) fun _ hread => hread
      cases ha
      exact Engine.checkAppend_seqno hcheck
  | sendAppend =>
    obtain ⟨append, happend, rfl⟩ := Option.map_eq_some_iff.1 hstep
    exact h.sendAppend happend
  | cancelAppend =>
    cases hstep
    exact h.lift rfl (fun _ _ hrun => hrun.setAdmission nofun) (fun hstop => { hstop with })
      fun _ hread => hread
  | shutdown =>
    obtain ⟨-, heq⟩ := Option.ite_none_right_eq_some.1 hstep
    cases heq
    exact h.sendShutdown
  | dropHandle =>
    obtain ⟨-, heq⟩ := Option.ite_none_right_eq_some.1 hstep
    cases heq
    exact h.lift rfl (fun _ _ hrun => hrun) (fun hstop => hstop) fun _ hread => hread
  | abort =>
    cases hstep
    exact h.abort
  | segment i action =>
    obtain ⟨⟨hexternal, -⟩, heq⟩ := Option.ite_none_right_eq_some.1 hstep
    obtain ⟨segment, hsegment, rfl⟩ := Option.map_eq_some_iff.1 heq
    exact h.segment hexternal hsegment
  | _ => exact h.turn (.of_step rfl hstep)

end Chorus
