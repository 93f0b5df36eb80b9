import Chorus.Engine.Proofs.AcknowledgedProofs
import Chorus.SlateDb.Proofs.ListenerProofs

/-!
# What SlateDB is told to be flushed is recovered

Only a resolved ticket moves the committed position, and its append has completed in the engine. No
step takes a completion back.
-/

namespace Chorus.SlateDb

open Concurrency

variable {n : Nat} {crc : Bytes → Nat} {config : WalEngineConfig} {s s' : Adapter n} {base : Nat}

/-- What is committed has completed in the engine. -/
structure DurableInv (crc : Bytes → Nat) (base : Nat) (p : Core n) : Prop where
  engine : EngineInv crc base p.engine
  committed : p.progress.committedEnd base ≤ p.engine.nextCompletion

namespace DurableInv

variable {p p' : Core n}

theorem setAdmission (h : DurableInv crc base p) {admission : Option AdmittedAppend}
    (hseqno : ∀ append, admission = some append → append.seqno = p.engine.nextSeqno) :
    DurableInv crc base { p with engine := { p.engine with admission := admission } } :=
  ⟨h.engine.lift rfl (fun _ _ hrun => hrun.setAdmission hseqno) (fun hstop => { hstop with })
    fun _ hread => hread, h.committed⟩

theorem step (h : DurableInv crc base p) (hstep : Core.Step crc config base p p') :
    DurableInv crc base p' := by
  cases hstep with
  | engine hbackground hengine =>
    exact ⟨h.engine.step hengine, h.committed.trans (Engine.nextCompletion_le hbackground hengine)⟩
  | dropAdmission => exact h.setAdmission fun _ hnone => by cases hnone
  | poll hcheck =>
    refine h.setAdmission fun append happend => ?_
    cases happend
    exact Engine.checkAppend_seqno hcheck
  | accept _ _ hadmission =>
    refine ⟨h.engine.sendAppend hadmission, h.committed.trans ?_⟩
    unfold Engine.sendAppend
    split_ifs <;> exact le_rfl
  | stop abort =>
    cases abort
    · exact ⟨h.engine.sendShutdown, h.committed⟩
    · exact ⟨h.engine.abort, h.committed⟩
  | fail error =>
    refine ⟨h.engine, ?_⟩
    unfold Progress.committedEnd
    rw [p.progress.committed_fail error]
    exact h.committed
  | commit position _ _ hwalId hdone =>
    obtain ⟨-, hlt⟩ := h.engine.completed_bounds (Engine.mem_completions_of_resolution hdone)
    obtain ⟨-, hbase, -⟩ := h.engine.books
    refine ⟨h.engine, ?_⟩
    show max position.walId base ≤ p.engine.nextCompletion
    omega
  | _ => exact { h with }

end DurableInv

/-- What SlateDB is told to be flushed survives every recovery. In every run of the adapter over its
engine, with appends, cancelled calls, collections, lanes, rotations and recoveries in any order,
every id behind the recovered records up to the flushed one is that of an admitted batch, and every
recovery of the segment in which the engine placed it returns the bytes of that batch. -/
theorem flushed_recovered (crc : Bytes → Nat) (config : WalEngineConfig) (base room : Nat)
    (active spare : Fin n → ZoneStart) (fold : Option PendingSwap)
    (hrun : Reaches (Adapter.step crc config) (fun _ _ => True)
      (.init (.init base room active spare fold)) s)
    {walId : Nat} (hbase : base < walId)
    (hflushed : walId ≤ s.observer.state.status.lastFlushedWalId) :
    ∃ request p, s.admissions[walId - 1 - base]? = some request ∧ request.position.walId = walId ∧
      s.engine.placements[walId - 1 - base]? = some p ∧ s.engine.Recovers p ⟨request.bytes⟩ := by
  have hadmission := admissionInv_of_reaches hrun
  have hstart : AdmissionInv base (.init (.init base room active spare fold) : Adapter n) :=
    .init room active spare fold
  have hdurable : DurableInv crc base s.core :=
    stable_of_steps (fun _ _ hstep hp => DurableInv.step hp hstep) (hstart.core_steps hrun)
      ⟨.of_init crc base room active spare fold, le_rfl⟩
  have hreached : s.observer.state.status.lastFlushedWalId ≤ s.progress.committedEnd base :=
    (PublicationInv.of_reaches hrun).reached
  have hengine : EngineInv crc base s.engine := hdurable.engine
  have hcommitted : s.progress.committedEnd base ≤ s.engine.nextCompletion := hdurable.committed
  obtain ⟨p, record, hplaced, haccepted, -, hrecovers⟩ :=
    hengine.recovers (show base ≤ walId - 1 by omega) (by omega)
  rw [hadmission.accepted, List.getElem?_map] at haccepted
  obtain ⟨request, hrequest, rfl⟩ := Option.map_eq_some_iff.1 haccepted
  refine ⟨request, p, hrequest, ?_, hplaced, hrecovers⟩
  obtain ⟨hlt, -⟩ := List.getElem?_eq_some_iff.1 hrequest
  have hindex : request.index = base + (walId - 1 - base) := by
    have hindices := congrArg (·[walId - 1 - base]?) hadmission.indices
    simp only [List.getElem?_map, hrequest, Option.map_some, List.getElem?_range' hlt,
      Nat.one_mul] at hindices
    exact Option.some.inj hindices
  have hcomputed := hadmission.computed request (List.mem_of_getElem? hrequest)
  rw [hadmission.positions request (List.mem_of_getElem? hcomputed), hindex]
  omega

def recoverBatch : List (Engine.Action 1) :=
  [.recover ⟨0⟩, .step 0 (.task 0 (.op .answered)), .step 0 (.task 0 (.op .answered)),
    .step 0 .gather, .step 0 (.task 0 (.op .answered)), .step 0 .gather,
    .step 0 (.task 0 (.op .answered)), .step 0 .gather, .finish 0].map (.segment 0)

/-- The batch that was appended again is written and completes, its ticket is resolved and
published, and a recovery reads the segment. -/
def flushedActions : List (Adapter.Action 1) :=
  droppedActions ++ [.discard] ++ appendActions ++ writeBatch.map .engine ++
    [.resolve, .publish 0, .publish 0] ++ recoverBatch.map .engine

theorem flushed_recovered_retried : ∃ s : Adapter 1,
    Reaches (Adapter.step crc32c smallLimits) (fun _ _ => True) oneZoneAdapter s ∧
    ∃ candidate ∈ (s.engine.segments 0).segment.recovered, ∃ request ∈ s.admissions,
      request.position.walId = 6 ∧
      ∃ records, candidate.records = .ok records ∧ records[0]? = some ⟨request.bytes⟩ := by
  have hrun : (runChecked (Adapter.step crc32c smallLimits)
      (fun _ _ => true) oneZoneAdapter flushedActions).any
      (fun s => decide (s.observer.state.status.lastFlushedWalId = 6 ∧
        s.engine.placements[0]? = some ⟨0, 0, 5⟩ ∧
        0 < (s.engine.segments 0).segment.recovered.length)) = true := by
    decide +kernel
  obtain ⟨s, hreach, hfacts⟩ := exists_reaches (fun _ _ _ => trivial) hrun
  obtain ⟨hflushed, hplaced, hreturned⟩ := of_decide_eq_true hfacts
  obtain ⟨candidate, hc⟩ := List.exists_mem_of_length_pos hreturned
  obtain ⟨request, p, hrequest, hwalId, hp, hrecovers⟩ :=
    flushed_recovered crc32c smallLimits 5 2 _ _ none hreach (show 5 < 6 by decide) hflushed.ge
  obtain rfl := Option.some.inj (hplaced.symm.trans hp)
  exact ⟨s, hreach, candidate, hc, request, List.mem_of_getElem? hrequest, hwalId,
    hrecovers candidate hc⟩

end Chorus.SlateDb
