import Chorus.Volume.Proofs.ChainProofs

/-!
# Startup replay is exact

A recovery that replays to the end has returned every record from the checkpoint to the recovered
end, each once and in order, and each out of the byte string whose checksum the covering segment
commits. Other processes and the zones may change every object and the register at any time: what a
recovery concludes, it concludes from the document it adopted and from contents it has verified.
-/

namespace Chorus

open Concurrency ManifestRecord RecordFrame Relation

variable {n : Nat} {crc : Bytes → Nat} {digest : Bytes → String} {config : VolumeConfig}
  {α : Type} {w : ReplayWorld n}

/-! ## The logs of accepted folds and of reads -/

/-- The environment does not touch the logs. -/
def Calm (w w' : ReplayWorld n) : Prop := w'.folds = w.folds ∧ w'.reads = w.reads

def LogGrows (w w' : ReplayWorld n) : Prop := w.folds ⊆ w'.folds ∧ w.reads ⊆ w'.reads

/-- A recovery in the world `w`, whose successes satisfy `Q`. -/
abbrev Recovering (crc : Bytes → Nat) (p : VolumeM n α) (Q : α → ReplayWorld n → Prop)
    (w : ReplayWorld n) : Prop :=
  wp (replayMachine n crc) p.run Calm LogGrows (OnOk Q) w

theorem replayMachine_exec {β : Type} {op : VolumeOp n β} {w w' : ReplayWorld n}
    {outcome : VolumeOutcome} {b : β} (h : (replayMachine n crc).exec w op outcome = some (w', b)) :
    (volumeMachine n crc).exec w.volume op outcome = some (w'.volume, b) ∧
      w'.folds = w.folds ++ (op.acceptedFold? w.volume.register outcome).toList ∧
      w'.reads = w.reads ++ op.contents b := by
  obtain ⟨⟨volume, answer⟩, hexec, heq⟩ := Option.map_eq_some_iff.1 h
  cases heq
  exact ⟨hexec, rfl, rfl⟩

theorem LogGrows.of_exec {β : Type} {op : VolumeOp n β} {w w' : ReplayWorld n}
    {outcome : VolumeOutcome} {b : β} (h : (replayMachine n crc).exec w op outcome = some (w', b)) :
    LogGrows w w' := by
  obtain ⟨-, hfolds, hreads⟩ := replayMachine_exec h
  rw [LogGrows, hfolds, hreads]
  exact ⟨List.subset_append_left _ _, List.subset_append_left _ _⟩

theorem Calm.subset {known : List PendingFold} {w w' : ReplayWorld n} (h : Calm w w')
    (hknown : known ⊆ w.folds) : known ⊆ w'.folds := by
  rw [h.1]
  exact hknown

/-- A manifest call that is answered with a document was decided for it. -/
theorem manifestCall_eq_ok {v v' : Volume n} {author : Author} {outcome : VolumeOutcome}
    {record : ManifestRecord} (h : v.manifestCall author outcome = some (v', .ok record)) :
    outcome = .answered ∧ author.decide v.register = .ok record ∧
      v' = { v with register := record } := by
  cases outcome with
  | answered =>
    simp only [Volume.manifestCall] at h
    split at h
    · cases h
    · rename_i next hdecide
      cases h
      exact ⟨rfl, hdecide, rfl⟩
  | failed code applied => cases h
  | lost error applied => simp [Volume.manifestCall] at h

section Rules

variable {P : α → Prop}

/-- What the answers decide, beside the folds that are known to be accepted. -/
theorem recovering_returns {known : List PendingFold} {p : VolumeM n α} (h : p.run.Returns (IfOk P))
    (hknown : known ⊆ w.folds) : Recovering crc p (fun a w => P a ∧ known ⊆ w.folds) w :=
  wp_returnsOk h hknown (fun _ _ hcalm => hcalm.subset)
    (fun _ _ hgrows hsub => List.Subset.trans hsub hgrows.1)
    fun _ _ _ _ _ he => LogGrows.of_exec he

theorem recovering_skip (known : List PendingFold) (p : VolumeM n α) (hknown : known ⊆ w.folds) :
    Recovering crc p (fun _ w => known ⊆ w.folds) w := by
  exact wp_monoOk (recovering_returns p.run.returns_ifOk_true hknown) fun _ _ h => h.2

theorem recovering_fold {known : List PendingFold} {epoch : Nat} {fold : PendingFold}
    (hknown : known ⊆ w.folds) :
    Recovering crc (Volume.claimedCall config epoch (.foldPending fold) : VolumeM n _)
      (fun _ w => fold :: known ⊆ w.folds) w := by
  intro w₁ hcalm outcome w₂ answer hexec
  refine ⟨LogGrows.of_exec hexec, ?_⟩
  have hknown₁ : known ⊆ w₁.folds :=
    stable_of_steps (P := fun w => known ⊆ w.folds) (fun _ _ hstep => hstep.subset) hcalm hknown
  obtain ⟨hcall, hfolds, -⟩ := replayMachine_exec hexec
  cases answer with
  | error error => exact fun _ _ => trivial
  | ok record =>
    obtain ⟨rfl, hdecide, -⟩ := manifestCall_eq_ok hcall
    have hfold : fold :: known ⊆ w₂.folds := by
      rw [hfolds]
      refine List.cons_subset.2 ⟨?_, fun f hf => List.mem_append_left _ (hknown₁ hf)⟩
      simp [VolumeOp.acceptedFold?, ManifestOp.author, Author.acceptedFold?,
        Author.acceptedFold?.accepted, hdecide]
    exact fun w₃ hcalm₃ =>
      stable_of_steps (P := fun w => fold :: known ⊆ w.folds)
        (fun _ _ hstep => hstep.subset) hcalm₃ hfold

/-- What the contents that are read decide, beside the folds that are known to be accepted. -/
theorem recovering_reads {known : List PendingFold} {p : VolumeM n α}
    {P : List (SegmentId × Bytes) → α → Prop}
    (h : ∀ reads, p.run.ReturnsGiven (fun op answer => op.contents answer ⊆ reads) (IfOk (P reads)))
    (hknown : known ⊆ w.folds) : Recovering crc p (fun a w => P w.reads a ∧ known ⊆ w.folds) w := by
  have hreads : wp (replayMachine n crc) p.run Calm LogGrows (fun r w => IfOk (P w.reads) r) w := by
    refine wp_of_answers (A := fun w _ op answer => op.contents answer ⊆ w.reads) p.run.sends_true
      (fun w' _ => h w'.reads) fun op w₁ w₂ outcome answer _ hexec => ⟨LogGrows.of_exec hexec, ?_⟩
    have hmem : op.contents answer ⊆ w₂.reads := by
      rw [(replayMachine_exec hexec).2.2]
      exact List.subset_append_right _ _
    refine fun w₃ hlater => stable_of_steps (P := fun w => op.contents answer ⊆ w.reads)
      ?_ hlater hmem
    rintro a b (hcalm | hgrows) hsub
    · rw [hcalm.2]
      exact hsub
    · exact List.Subset.trans hsub hgrows.2
  have hframe := wp_frame (fun w => known ⊆ w.folds) hreads hknown (fun _ _ hcalm => hcalm.subset)
    fun _ _ hgrows hsub => List.Subset.trans hsub hgrows.1
  refine wp_mono hframe (fun _ _ => id) (fun _ _ => id) fun r w₁ hr => ?_
  cases r with
  | ok a => exact hr
  | error error => trivial

end Rules

/-! ## The write frontier -/

namespace Volume

/-- A frontier segment with records starts where it was expected and is not empty. -/
theorem recoverManifestCandidate_returns {id : SegmentId} {base : Nat} :
    (recoverManifestCandidate crc digest config id base : VolumeM n _).run.Returns
      (IfOk fun candidate => ∀ p, candidate = .nonEmpty p →
        p.baseRecordIndex = base ∧ base ≤ p.endRecordIndex) := by
  refine Prog.Returns.bindOk (Prog.returns_ifOk_true _) fun candidate _ => ?_
  cases candidate with
  | absent => exact fun p hp => by cases hp
  | empty reusableWriter => exact fun p hp => by cases hp
  | nonEmpty tail =>
    simp only
    by_cases hlen : tail.len = 0
    · rw [if_pos hlen]
      trivial
    · rw [if_neg hlen]
      split
      · trivial
      · rename_i segmentEnd hend
        rintro p hp
        cases hp
        have hsum : base + (tail.len - 1) = segmentEnd := by
          unfold checkedAdd at hend
          split_ifs at hend
          exact Option.some.inj hend
        exact ⟨rfl, by simp only; omega⟩

/-- The frontier continues the chain from `base`, and the seal of every segment before it is
accepted or deferred. -/
structure Frontier.Spans (base : Nat) (folds : List PendingFold) (frontier : Frontier) : Prop where
  contiguous : Contiguous base frontier.predecessors frontier.nextRecordIndex
  accepted : ∀ segment ∈ frontier.predecessors, segment ∈ folds.map PendingFold.descriptor ∨
    frontier.pendingFold.map PendingSwap.descriptor = some segment

namespace Frontier.Spans

variable {base : Nat} {folds folds' : List PendingFold} {frontier : Frontier}

theorem mono (h : frontier.Spans base folds) (hsub : folds ⊆ folds') :
    frontier.Spans base folds' := by
  refine ⟨h.contiguous, fun segment hsegment => ?_⟩
  rcases h.accepted segment hsegment with hfold | hswap
  · exact Or.inl (List.map_subset _ hsub hfold)
  · exact Or.inr hswap

/-- No frontier segment holds a record. -/
theorem of_empty (hpredecessors : frontier.predecessors = [])
    (hnext : frontier.nextRecordIndex = base) : frontier.Spans base folds := by
  refine ⟨?_, ?_⟩
  · rw [hpredecessors]
    exact hnext.symm
  · rw [hpredecessors]
    intro segment hsegment
    cases hsegment

end Frontier.Spans

variable {adopted : ManifestRecord} {tailId pendingId : SegmentId} {seq base : Nat}
  {tail pending : RecoveredPredecessor}

theorem replaceFrontier_returns :
    (replaceFrontier config adopted tailId seq : VolumeM n _).run.Returns
      (IfOk (Frontier.Spans adopted.tailBase [])) := by
  refine Prog.Returns.bindOk (Prog.returns_ifOk_true _) fun activeWriter _ => ?_
  refine Prog.Returns.bindOk (Prog.returns_ifOk_true _) fun pendingWriter _ => ?_
  refine Prog.Returns.bindOk (Prog.returns_ifOk_true _) fun record _ => ?_
  exact Frontier.Spans.of_empty rfl rfl

theorem recoverEmptyTail_returns {writer : List AppendToken} :
    (recoverEmptyTail crc digest config adopted tailId writer seq : VolumeM n _).run.Returns
      (IfOk (Frontier.Spans adopted.tailBase [])) := by
  unfold recoverEmptyTail
  split
  · refine Prog.Returns.bindOk (Prog.returns_ifOk_true _) fun pendingWriter _ => ?_
    refine Prog.Returns.bindOk (Prog.returns_ifOk_true _) fun record _ => ?_
    exact Frontier.Spans.of_empty rfl rfl
  · refine Prog.Returns.bindOk (Prog.returns_ifOk_true _) fun candidate _ => ?_
    split
    · exact Frontier.Spans.of_empty rfl rfl
    · exact replaceFrontier_returns
    · exact replaceFrontier_returns
    · trivial

/-- What the answers alone say about the frontier, as a specification of the recovery. -/
theorem recovering_spans {p : VolumeM n Frontier}
    (h : p.run.Returns (IfOk (Frontier.Spans base []))) :
    Recovering crc p (fun frontier w => frontier.Spans base w.folds) w := by
  refine wp_monoOk (recovering_returns h (List.nil_subset _)) fun frontier w₁ hspans => ?_
  exact hspans.1.mono hspans.2

/-- One frontier segment is left behind, with its seal accepted. -/
theorem Frontier.Spans.of_fold {frontier : Frontier} {fold : PendingFold} {folds : List PendingFold}
    (hpredecessors : frontier.predecessors = [tail.descriptor])
    (hnext : frontier.nextRecordIndex = tail.endRecordIndex + 1)
    (hspan : tail.baseRecordIndex ≤ tail.endRecordIndex) (hfold : fold.descriptor = tail.descriptor)
    (hknown : [fold] ⊆ folds) : frontier.Spans tail.baseRecordIndex folds := by
  refine ⟨?_, ?_⟩
  · rw [hpredecessors, hnext]
    exact ⟨rfl, hspan, rfl⟩
  · rw [hpredecessors]
    intro segment hsegment
    rw [List.mem_singleton.1 hsegment, ← hfold]
    exact Or.inl (List.mem_map_of_mem (hknown List.mem_cons_self))

theorem recovering_foldOntoFresh {enforceFirst : Bool}
    (hspan : tail.baseRecordIndex ≤ tail.endRecordIndex) :
    Recovering crc (foldOntoFresh config adopted tail pendingId seq enforceFirst : VolumeM n _)
      (fun frontier w => frontier.Spans tail.baseRecordIndex w.folds) w := by
  have hdone : ∀ {frontier : Frontier} {w : ReplayWorld n},
      frontier.predecessors = [tail.descriptor] →
      frontier.nextRecordIndex = tail.endRecordIndex + 1 →
      [tail.fold pendingId (segmentId adopted.epoch seq) (segmentId adopted.epoch (seq + 1))] ⊆
        w.folds →
      Recovering crc (pure frontier : VolumeM n _)
        (fun frontier w => frontier.Spans tail.baseRecordIndex w.folds) w := by
    intro frontier w₁ hpredecessors hnext hknown
    have hspans : frontier.Spans tail.baseRecordIndex
        [tail.fold pendingId (segmentId adopted.epoch seq) (segmentId adopted.epoch (seq + 1))] :=
      .of_fold hpredecessors hnext hspan rfl (List.Subset.refl _)
    exact wp_monoOk (recovering_returns (p := pure frontier) hspans hknown)
      fun _ _ h => h.1.mono h.2
  cases enforceFirst with
  | true =>
    refine wp_bindOk (recovering_skip [] _ (List.nil_subset _)) fun _ w₁ _ => ?_
    refine wp_bindOk (recovering_skip [] _ (List.nil_subset _)) fun activeWriter w₂ _ => ?_
    refine wp_bindOk (recovering_skip [] _ (List.nil_subset _)) fun pendingWriter w₃ _ => ?_
    refine wp_bindOk (recovering_fold (List.nil_subset _)) fun record w₄ hknown => ?_
    exact hdone rfl rfl hknown
  | false =>
    refine wp_bindOk (recovering_skip [] _ (List.nil_subset _)) fun activeWriter w₂ _ => ?_
    refine wp_bindOk (recovering_skip [] _ (List.nil_subset _)) fun pendingWriter w₃ _ => ?_
    refine wp_bindOk (recovering_fold (List.nil_subset _)) fun record w₄ hknown => ?_
    refine wp_bindOk (recovering_skip _ _ hknown) fun _ w₅ hknown => ?_
    exact hdone rfl rfl hknown

theorem recovering_foldBoth (hspan : tail.baseRecordIndex ≤ tail.endRecordIndex)
    (hbase : pending.baseRecordIndex = tail.endRecordIndex + 1)
    (hspan' : pending.baseRecordIndex ≤ pending.endRecordIndex) :
    Recovering crc (foldBoth config adopted tail pending seq : VolumeM n _)
      (fun frontier w => frontier.Spans tail.baseRecordIndex w.folds) w := by
  refine wp_bindOk (recovering_skip [] _ (List.nil_subset _)) fun _ w₁ _ => ?_
  refine wp_bindOk (recovering_skip [] _ (List.nil_subset _)) fun refillWriter w₂ _ => ?_
  refine wp_bindOk (recovering_skip [] _ (List.nil_subset _)) fun _ w₃ _ => ?_
  refine wp_bindOk (recovering_fold (List.nil_subset _)) fun _ w₄ hfirst => ?_
  refine wp_bindOk (recovering_skip _ _ hfirst) fun pendingWriter w₅ hfirst => ?_
  refine wp_bindOk (recovering_fold hfirst) fun record w₆ hboth => ?_
  refine wp_monoOk (recovering_returns (p := pure _) (P := Frontier.Spans tail.baseRecordIndex _) ?_
    hboth) fun _ _ h => h.1.mono h.2
  refine ⟨⟨rfl, hspan, hbase, hspan', rfl⟩, fun segment hsegment => Or.inl ?_⟩
  rcases List.mem_cons.1 hsegment with rfl | hsegment
  · exact List.mem_cons_of_mem _ List.mem_cons_self
  · rw [List.mem_singleton.1 hsegment]
    exact List.mem_cons_self

/-- A segment whose fold is deferred is the only one before the frontier. -/
theorem Frontier.Spans.of_deferred {frontier : Frontier} {successorId : SegmentId}
    {folds : List PendingFold} (hpredecessors : frontier.predecessors = [tail.descriptor])
    (hnext : frontier.nextRecordIndex = tail.endRecordIndex + 1)
    (hspan : tail.baseRecordIndex ≤ tail.endRecordIndex)
    (hfold : frontier.pendingFold = some (tail.intoPendingFold successorId)) :
    frontier.Spans tail.baseRecordIndex folds := by
  refine ⟨?_, ?_⟩
  · rw [hpredecessors, hnext]
    exact ⟨rfl, hspan, rfl⟩
  · rw [hpredecessors, hfold]
    intro segment hsegment
    rw [List.mem_singleton.1 hsegment]
    exact Or.inr rfl

theorem recovering_recoverNonEmptyTail (hspan : tail.baseRecordIndex ≤ tail.endRecordIndex) :
    Recovering crc (recoverNonEmptyTail crc digest config adopted tail seq : VolumeM n _)
      (fun frontier w => frontier.Spans tail.baseRecordIndex w.folds) w := by
  unfold recoverNonEmptyTail
  split
  · refine recovering_spans ?_
    refine Prog.Returns.bindOk (Prog.returns_ifOk_true _) fun pendingWriter _ => ?_
    refine Prog.Returns.bindOk (Prog.returns_ifOk_true _) fun record _ => ?_
    refine Prog.Returns.bindOk (Prog.returns_ifOk_true _) fun _ _ => ?_
    exact Frontier.Spans.of_deferred rfl rfl hspan rfl
  · refine wp_bindOk (recovering_returns recoverManifestCandidate_returns (List.nil_subset _))
      fun candidate w₁ hcandidate => ?_
    split
    · refine recovering_spans ?_
      refine Prog.Returns.bindOk (Prog.returns_ifOk_true _) fun _ _ => ?_
      exact Frontier.Spans.of_deferred rfl rfl hspan rfl
    · exact recovering_foldOntoFresh hspan
    · rename_i pending
      obtain ⟨hbase, hend⟩ := hcandidate.1 pending rfl
      split
      · exact recovering_foldOntoFresh hspan
      · exact recovering_foldBoth hspan hbase (by omega)
    · exact fun _ _ => trivial

/-- The frontier continues the adopted chain. -/
theorem recovering_recoverFrontier :
    Recovering crc (recoverFrontier crc digest config adopted tailId seq : VolumeM n _)
      (fun frontier w => frontier.Spans adopted.tailBase w.folds) w := by
  unfold recoverFrontier
  split
  · exact recovering_spans (p := pure _) (Frontier.Spans.of_empty rfl rfl)
  · refine wp_bindOk (recovering_returns recoverManifestCandidate_returns (List.nil_subset _))
      fun candidate w₁ hcandidate => ?_
    split
    · exact recovering_spans recoverEmptyTail_returns
    · exact recovering_spans replaceFrontier_returns
    · exact recovering_spans replaceFrontier_returns
    · rename_i tail
      obtain ⟨hbase, hend⟩ := hcandidate.1 tail rfl
      rw [← hbase] at hend ⊢
      exact recovering_recoverNonEmptyTail hend

/-! ## The whole chain -/

/-- The seal of a segment is in the document that recovery adopted, was accepted from it, or is
deferred. -/
def RecoveredWriterState.Commits (adopted : ManifestRecord) (folds : List PendingFold)
    (state : RecoveredWriterState) (segment : SegmentDescriptor) : Prop :=
  segment ∈ adopted.liveRanges.map rangeDescriptor ∨
    segment ∈ folds.map PendingFold.descriptor ∨
    state.pendingFold.map PendingSwap.descriptor = some segment

/-- What a prepared recovery can be replayed from. -/
structure RecoveredWriterState.Replayable (adopted : ManifestRecord) (checkpoint : Nat)
    (folds : List PendingFold) (state : RecoveredWriterState) : Prop where
  aboveFloor : adopted.trunc ≤ checkpoint
  belowEnd : checkpoint ≤ state.nextRecordIndex
  contiguous : ∃ first ≤ checkpoint,
    Contiguous first state.sealedSegments state.nextRecordIndex
  commits : ∀ segment ∈ state.sealedSegments, state.Commits adopted folds segment

theorem RecoveredWriterState.Replayable.mono {checkpoint : Nat} {folds folds' : List PendingFold}
    {state : RecoveredWriterState} (h : state.Replayable adopted checkpoint folds)
    (hsub : folds ⊆ folds') : state.Replayable adopted checkpoint folds' := by
  refine ⟨h.aboveFloor, h.belowEnd, h.contiguous, fun segment hsegment => ?_⟩
  rcases h.commits segment hsegment with hlive | hfold | hswap
  · exact Or.inl hlive
  · exact Or.inr (Or.inl (List.map_subset _ hsub hfold))
  · exact Or.inr (Or.inr hswap)

theorem check_returns (r : Except VolumeError α) :
    (VolumeM.check r : VolumeM n α).run.Returns (IfOk fun a => r = .ok a) := by
  cases r with
  | error error => trivial
  | ok a => exact rfl

theorem recovering_prepareRecovery (hadopted : adopted.Sound) {checkpoint : Nat} :
    Recovering crc (prepareRecovery crc digest config checkpoint adopted : VolumeM n _)
      (fun state w => state.Replayable adopted checkpoint w.folds) w := by
  refine wp_bindOk (recovering_returns (check_returns _) (List.nil_subset _)) fun _ w₁ hfloor => ?_
  refine wp_bindOk (recovering_returns (check_returns _) (List.nil_subset _))
    fun chain w₂ hchain => ?_
  refine wp_bindOk (recovering_returns (check_returns _) (List.nil_subset _)) fun _ w₃ _ => ?_
  refine wp_bindOk (recovering_returns adoptChain_returns (List.nil_subset _))
    fun segments w₄ h => ?_
  obtain ⟨rfl, -⟩ := h
  split
  · exact fun _ _ => trivial
  · refine wp_bindOk recovering_recoverFrontier fun frontier w₅ hspans => ?_
    refine wp_bindOk (recovering_returns (check_returns _) (List.Subset.refl w₅.folds))
      fun _ w₆ hend => ?_
    have hfloor : adopted.trunc ≤ checkpoint := Nat.le_of_not_lt (failIf_eq_ok.1 hfloor.1)
    obtain ⟨hlive, first, hfirst, hcontiguous⟩ := chainFrom_contiguous hadopted hchain.1
    refine wp_monoOk (recovering_returns (p := pure _)
      (P := RecoveredWriterState.Replayable adopted checkpoint w₅.folds) ?_ hend.2)
      fun _ _ h => h.1.mono h.2
    refine ⟨hfloor, Nat.le_of_not_lt (failIf_eq_ok.1 hend.1), ⟨first, Nat.le_trans hfirst hfloor,
      hcontiguous.append hspans.contiguous⟩, fun segment hsegment => ?_⟩
    rcases List.mem_append.1 hsegment with hsegment | hsegment
    · rw [hlive] at hsegment
      exact Or.inl hsegment
    · exact Or.inr (hspans.accepted segment hsegment)

structure Recovery.Replayed (crc : Bytes → Nat) (adopted : ManifestRecord) (w : ReplayWorld n)
    (checkpoint : Nat) (recovery : Recovery) : Prop where
  replayable : recovery.state.Replayable adopted checkpoint w.folds
  indices : recovery.records.map Prod.fst =
    List.range' checkpoint (recovery.state.nextRecordIndex - checkpoint)
  records : ∀ record ∈ recovery.records, ∃ segment ∈ recovery.state.sealedSegments,
    segment.Holds crc w.reads record

theorem Recovery.Replayed.calm {checkpoint : Nat} {recovery : Recovery} {w w' : ReplayWorld n}
    (hcalm : Calm w w') (h : recovery.Replayed crc adopted w checkpoint) :
    recovery.Replayed crc adopted w' checkpoint := by
  refine ⟨?_, h.indices, ?_⟩
  · rw [hcalm.1]
    exact h.replayable
  · rw [hcalm.2]
    exact h.records

theorem recovering_replay (hadopted : adopted.Sound) {checkpoint : Nat} :
    Recovering crc (replay crc digest config checkpoint adopted : VolumeM n _)
      (fun recovery w => recovery.Replayed crc adopted w checkpoint) w := by
  refine wp_bindOk (recovering_prepareRecovery hadopted) fun state w₁ hstate => ?_
  obtain ⟨first, hfirst, hcontiguous⟩ := hstate.contiguous
  refine wp_bindOk (recovering_reads (fun _ => scanSealedRange_returns hcontiguous)
    (List.Subset.refl w₁.folds)) fun records w₂ h => ?_
  obtain ⟨⟨hindices, hrecords⟩, hsub⟩ := h
  rw [requested_eq_range' hfirst hstate.belowEnd] at hindices
  exact fun w₃ hcalm => stable_of_steps
    (P := fun w => Recovery.Replayed crc adopted w checkpoint ⟨checkpoint, state, records⟩)
    (fun _ _ => Recovery.Replayed.calm) hcalm ⟨hstate.mono hsub, hindices, hrecords⟩

end Volume

/-! ## Every run -/

/-- A recovery stays within its specification, whatever the others do. -/
theorem ReplaySystem.recovering_step {Q : Volume.Recovery → ReplayWorld n → Prop}
    {s s' : ReplaySystem n} {action : ReplaySystem.Action n}
    (h : wp (replayMachine n crc) s.prog Calm LogGrows (OnOk Q) s.world)
    (hs : s.step crc action = some s') :
    wp (replayMachine n crc) s'.prog Calm LogGrows (OnOk Q) s'.world := by
  cases action with
  | step choice =>
    obtain ⟨⟨world, prog⟩, hstep, rfl⟩ := Option.map_eq_some_iff.1 hs
    exact (wp_step h hstep).2
  | disturb volume =>
    cases hs
    exact wp_rely h (.single ⟨rfl, rfl⟩)

/-- A recovery of a sound register that replays to the end without an error returns exactly the
records from the checkpoint to the recovered end, in order. The record at an index is the one that
stands there in the byte string named by the checksum of the only segment that covers the index, and
the seal of that segment is committed or was folded by this recovery. The checksum has to tell the
segment's bytes only from the contents that the recovery has read for the segment. -/
theorem startup_replay_exact {adopted : ManifestRecord} (hadopted : adopted.Sound)
    {checkpoint : Nat} {volume : Volume n} {s : ReplaySystem n} {recovery : Volume.Recovery}
    (hrun : Reaches (ReplaySystem.step crc) (fun _ _ => True)
      (.init crc digest config checkpoint adopted volume) s)
    (hdone : s.prog.value? = some (.ok recovery)) (content : SegmentDescriptor → Bytes)
    (hcontent : ∀ segment ∈ recovery.state.sealedSegments, crc (content segment) = segment.crc32c)
    (hcrc : ∀ segment ∈ recovery.state.sealedSegments, ∀ data, (segment.id, data) ∈ s.world.reads →
      crc data = crc (content segment) → data = content segment) :
    (adopted.trunc ≤ checkpoint ∧ checkpoint ≤ recovery.state.nextRecordIndex) ∧
    recovery.records.map Prod.fst =
      List.range' checkpoint (recovery.state.nextRecordIndex - checkpoint) ∧
    ∀ record ∈ recovery.records, ∃ segment ∈ recovery.state.sealedSegments,
      segment.Covers record.1 ∧
      (∀ other ∈ recovery.state.sealedSegments, other.Covers record.1 → other = segment) ∧
      recovery.state.Commits adopted s.world.folds segment ∧
      ∃ frames, decodeAll (content segment) = .ok frames ∧
        frames.length = segment.endRecordIndex - segment.baseRecordIndex + 1 ∧
        frames[record.1 - segment.baseRecordIndex]? = some record.2 := by
  have hrecovering : wp (replayMachine n crc) s.prog Calm LogGrows
      (OnOk fun recovery w => recovery.Replayed crc adopted w checkpoint) s.world :=
    hrun.invariant
      (I := fun s => wp (replayMachine n crc) s.prog Calm LogGrows
        (OnOk fun recovery w => recovery.Replayed crc adopted w checkpoint) s.world)
      (Volume.recovering_replay hadopted) fun _ _ _ h _ hs => ReplaySystem.recovering_step h hs
  have hreplayed := wp_value hrecovering hdone
  change recovery.Replayed crc adopted s.world checkpoint at hreplayed
  obtain ⟨hfloor, hend, ⟨first, -, hcontiguous⟩, hcommits⟩ := hreplayed.replayable
  refine ⟨⟨hfloor, hend⟩, hreplayed.indices, fun record hrecord => ?_⟩
  obtain ⟨segment, hsegment, hcovers, data, frames, hread, hdata, hdecode, hlength, hframe⟩ :=
    hreplayed.records record hrecord
  have hsame : data = content segment :=
    hcrc segment hsegment data hread (hdata.trans (hcontent segment hsegment).symm)
  rw [hsame] at hdecode
  exact ⟨segment, hsegment, hcovers,
    fun other hother hcovers' => hcontiguous.covers_unique hsegment hother hcovers hcovers',
    hcommits segment hsegment, frames, hdecode, hlength, hframe⟩

/-! ### A recovery over damaged copies -/

namespace ReplayExample

/-- One sealed segment and a tail, adopted by the second incarnation. -/
def adopted : ManifestRecord where
  epoch := 2
  owner := "second"
  tailBase := 1
  tailId := some "tail"
  pendingId := none
  sealBase := some 0
  sealId := some "sealed"
  sealDigest := some ""
  trunc := 0
  segments := [⟨"sealed", 0, crc32c (chunk ⟨[1]⟩)⟩]
  buckets := ["a", "b", "c"]

theorem sound_adopted : adopted.Sound where
  toWellFormed := validate_eq_ok_iff.1 (by decide +kernel)
  covered := fun _ => ⟨_, List.mem_cons_self, Nat.le_refl 0⟩
  unclaimed := fun h => by cases h

def sealedBytes : Bytes := chunk ⟨[1]⟩

def tailBytes : Bytes := chunk ⟨[2]⟩

def content (segment : SegmentDescriptor) : Bytes :=
  if segment.id = "sealed" then sealedBytes else tailBytes

def slot (bytes : Bytes) (finalized : Bool) : Slot :=
  if finalized then (Slot.empty.install bytes protocolMetadata).freeze
  else Slot.empty.install bytes protocolMetadata

/-- One zone has a divergent copy of the sealed segment and none of the tail. -/
def objects (id : SegmentId) (zone : Fin 3) : Slot :=
  if id = "sealed" then slot (if zone = 2 then tailBytes else sealedBytes) true
  else if id = "tail" ∧ zone ≠ 2 then slot tailBytes false else .empty

/-- A single zone is left with the bytes of each segment. -/
def damaged (id : SegmentId) (zone : Fin 3) : Slot :=
  if id = "sealed" then slot (if zone = 1 then sealedBytes else tailBytes) true
  else if id = "tail" ∧ zone = 2 then slot tailBytes true else .empty

def volume (objects : SegmentId → Fin 3 → Slot) : Volume 3 :=
  { Volume.init 3 [] with register := adopted, objects }

def initial : ReplaySystem 3 :=
  .init crc32c (fun _ => "") ⟨"second", 1000, ⟨0⟩⟩ 0 adopted (volume objects)

def calls (requests : Nat) : List (ReplaySystem.Action 3) :=
  List.replicate requests (.step (.op .answered))

/-- The tasks of a `join` run to their ends, each with its number of requests. -/
def tasks (requests : List Nat) : List (ReplaySystem.Action 3) :=
  ((List.finRange 3).flatMap fun (zone : Fin 3) =>
    List.replicate (requests.getD zone.val 0) (.step (.task zone (.op .answered)))) ++
    [.step .gather]

/-- The frontier is prepared; then the copies are damaged, and the replay reads what is left. -/
def actions : List (ReplaySystem.Action 3) :=
  tasks [1, 1, 1] ++ tasks [2, 2, 1] ++ tasks [1, 1, 0] ++ tasks [1, 1, 0] ++ tasks [1, 1, 1] ++
    calls 1 ++ tasks [1, 1, 1] ++ calls 2 ++ [.disturb (volume damaged)] ++ calls 2 ++
    [.step (.op (.failed .dataLoss false))] ++ calls 2

end ReplayExample

open ReplayExample in
theorem startup_replay_exact_damaged : ∃ s recovery,
    Reaches (ReplaySystem.step crc32c) (fun _ _ => True) initial s ∧
    s.prog.value? = some (.ok recovery) ∧ recovery.records = [(0, ⟨[1]⟩), (1, ⟨[2]⟩)] ∧
    recovery.records.map Prod.fst = List.range' 0 recovery.state.nextRecordIndex := by
  have hrun : (runChecked (ReplaySystem.step crc32c) (fun _ _ => true) initial actions).any
      (fun s => s.prog.value?.any fun
        | .error _ => false
        | .ok recovery => decide (recovery.records = [(0, ⟨[1]⟩), (1, ⟨[2]⟩)]) &&
          recovery.state.sealedSegments.all fun segment =>
            decide (crc32c (content segment) = segment.crc32c) &&
              s.world.reads.all fun read => decide (read.1 = segment.id →
                crc32c read.2 = segment.crc32c → read.2 = content segment)) = true := by
    decide +kernel
  obtain ⟨s, hreach, hfacts⟩ := exists_reaches (fun _ _ _ => trivial) hrun
  obtain ⟨result, hresult, hfacts⟩ := (Option.any_eq_true _ _).1 hfacts
  cases result with
  | error error => cases hfacts
  | ok recovery =>
    simp only [Bool.and_eq_true, decide_eq_true_eq, List.all_eq_true] at hfacts
    obtain ⟨hrecords, hsegments⟩ := hfacts
    have hexact := startup_replay_exact sound_adopted hreach hresult content
      (fun segment hsegment => (hsegments segment hsegment).1)
      fun segment hsegment data hread hdata => (hsegments segment hsegment).2 _ hread rfl
        (hdata.trans (hsegments segment hsegment).1)
    exact ⟨s, recovery, hreach, hresult, hrecords, hexact.2.1⟩

end Chorus
