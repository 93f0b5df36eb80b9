import Chorus.Engine.Budget
import Chorus.Engine.Proofs.EffectProofs
import Chorus.Engine.Proofs.EngineProofs
import Mathlib.Algebra.Order.BigOperators.Group.List
import Mathlib.Algebra.Order.Group.Nat

/-!
# In-flight permits

Every admitted record without a completion holds permits for its bytes, or the whole budget if it is
larger. So the records in flight fit the budget together, or there is just one of them.
-/

namespace Chorus

open RecordFrame

variable {n : Nat} {crc : Bytes → Nat} {config : WalEngineConfig} {e e' : Engine n}

/-! ## Capped sums -/

theorem sum_le_or_singleton {cap : Nat} (hcap : 0 < cap) {sizes : List Nat}
    (hpos : ∀ x ∈ sizes, 0 < x) (hsum : (sizes.map (min · cap)).sum ≤ cap) :
    sizes.sum ≤ cap ∨ ∃ x, sizes = [x] := by
  by_cases hall : ∀ x ∈ sizes, x ≤ cap
  · left
    have hsame : sizes.map (min · cap) = sizes.map id :=
      List.map_congr_left fun x hx => Nat.min_eq_left (hall x hx)
    rw [hsame, List.map_id] at hsum
    exact hsum
  · right
    simp only [not_forall, not_le, exists_prop] at hall
    obtain ⟨x, hx, hlarge⟩ := hall
    obtain ⟨before, after, rfl⟩ := List.append_of_mem hx
    -- the large one takes the whole budget, and nothing is left for another
    have hnil : ∀ l : List Nat, (∀ y ∈ l, 0 < y) → (l.map (min · cap)).sum = 0 → l = [] := by
      intro l hl hzero
      cases l with
      | nil => rfl
      | cons y l =>
        have hy := hl y List.mem_cons_self
        rw [List.map_cons, List.sum_cons] at hzero
        omega
    rw [List.map_append, List.map_cons, List.sum_append, List.sum_cons,
      Nat.min_eq_right hlarge.le] at hsum
    have hbefore : before = [] :=
      hnil before (fun y hy => hpos y (List.mem_append_left _ hy)) (by omega)
    have hafter : after = [] :=
      hnil after (fun y hy => hpos y (List.mem_append_right _ (List.mem_cons_of_mem _ hy)))
        (by omega)
    rw [hbefore, hafter]
    exact ⟨x, rfl⟩

/-! ## Records in flight -/

def RecordFrame.size (record : RecordFrame) : Nat := record.payload.length + headerLen

theorem RecordFrame.size_pos (record : RecordFrame) : 0 < record.size := by
  unfold size headerLen
  omega

theorem length_streamBytes (records : List RecordFrame) :
    (streamBytes records).length = (records.map RecordFrame.size).sum := by
  induction records with
  | nil => rfl
  | cons record records ih =>
    rw [streamBytes_cons, List.length_append, ih, List.map_cons, List.sum_cons, length_chunk, size]
    omega

theorem windowBytes_eq (appends : List AdmittedAppend) : BudgetedEngine.windowBytes appends =
    ((appends.map AdmittedAppend.record).map RecordFrame.size).sum := by
  rw [List.map_map]
  rfl

/-- The records without a completion fit the budget. -/
def PermitInv (cap start : Nat) (e : Engine n) : Prop :=
  ((e.accepted.drop (e.nextCompletion - start)).map fun record => min record.size cap).sum ≤ cap

theorem PermitInv.mono {cap start : Nat} (h : PermitInv cap start e)
    (haccepted : e'.accepted = e.accepted) (hnext : e.nextCompletion ≤ e'.nextCompletion) :
    PermitInv cap start e' := by
  unfold PermitInv at h ⊢
  rw [haccepted]
  refine le_trans (List.Sublist.sum_le_sum ?_ fun _ _ => Nat.zero_le _) h
  refine List.Sublist.map _ ?_
  have hle : e.nextCompletion - start ≤ e'.nextCompletion - start :=
    Nat.sub_le_sub_right hnext start
  exact List.drop_sublist_drop_left _ hle

theorem PermitInv.effect {cap start : Nat} (h : PermitInv cap start e) (heffect : e.Effect e') :
    PermitInv cap start e' := by
  cases heffect with
  | quiet hquiet =>
    exact h.mono (congrArg (·.admissions.accepted) hquiet.tally)
      (congrArg EngineTally.nextCompletion hquiet.tally).ge
  | completed htally =>
    have hnext : e'.nextCompletion = e.nextCompletion + 1 :=
      congrArg EngineTally.nextCompletion htally
    exact h.mono (congrArg (·.admissions.accepted) htally) (hnext ▸ Nat.le_succ _)
  | swapped _ htally | adopted htally =>
    exact h.mono (congrArg (·.admissions.accepted) htally)
      (congrArg EngineTally.nextCompletion htally).ge

theorem EngineInv.books_heldAppends {start : Nat} (h : EngineInv crc start e)
    (hopen : e.channelOpen = true) :
    Books start e.nextCompletion e.nextSeqno e.accepted e.heldAppends := by
  have hphase : e.phase ≠ .stopped := by
    intro hphase
    simp only [EngineInv, hphase] at h
    have hclosed : e.channelOpen = false := h.closed
    rw [hopen] at hclosed
    cases hclosed
  exact (h.running hphase).books

/-- A call is admitted only where its permits are left. -/
theorem PermitInv.sendAppend {cap start : Nat} (h : PermitInv cap start e)
    (hinv : EngineInv crc start e) {append : AdmittedAppend}
    (hpermits : (e.heldAppends.map (·.permits cap)).sum + append.permits cap ≤ cap) :
    PermitInv cap start (e.sendAppend append) := by
  unfold Engine.sendAppend
  split_ifs with hopen
  · have hbooks := hinv.books_heldAppends hopen
    have hheld : (e.accepted.drop (e.nextCompletion - start)).map
        (fun record => min record.size cap) =
        e.heldAppends.map (·.permits cap) := by
      rw [← hbooks.records, List.map_map]
      rfl
    have hle : e.nextCompletion - start ≤ e.accepted.length := by
      have hnext := hbooks.next_eq
      have haccepted := hbooks.accepted_eq
      omega
    show (((e.accepted ++ [append.record]).drop (e.nextCompletion - start)).map _).sum ≤ cap
    rw [List.drop_append_of_le_length hle, List.map_append, List.sum_append, hheld]
    exact hpermits
  · exact h

/-- Of the active segment, the records without a completion are in flight together with the window
in hand. -/
theorem Ledger.Running.uncompleted_infix {l : Ledger n} {start : Nat} {inHand : List AdmittedAppend}
    (h : l.Running crc start inHand false) :
    (l.segments l.activeSegment).segment.stream.drop (l.nextCompletion - l.baseRecordIndex) ++
      inHand.map AdmittedAppend.record <:+: l.accepted.drop (l.nextCompletion - start) := by
  have hrecords := h.books.records
  have hstart := h.books.start_le
  have hdispatched := h.dispatched
  have hpending := h.pending
  -- the batches are the part of the handed records past the last completion
  have hbatches : (l.completionBatches.flatMap CompletionBatch.appends).map AdmittedAppend.record =
      l.handed.drop (l.nextCompletion - start) := by
    have htake := congrArg (List.take l.pendingRecords) hrecords
    rw [outstanding, List.append_assoc, List.append_assoc, List.map_append,
      List.take_left' (by rw [List.length_map, hpending]), List.take_drop] at htake
    rw [htake, h.handed_eq]
    congr 2
    simp only [Bool.false_eq_true, if_false]
    omega
  have hlen : (l.segments l.activeSegment).segment.stream.length =
      (l.segments l.activeSegment).admittedLen := by
    have hdrop := h.streams l.activeSegment
    rw [if_neg (fun hsent => Bool.false_ne_true hsent.1)] at hdrop
    exact le_antisymm (List.drop_eq_nil_iff.1 hdrop)
      (h.segments l.activeSegment).commits.admitted_le
  have hsplit := Ledger.handed_eq_earlier h.active_lt h.fresh
  have hhanded : l.handed.length = l.placements.length := by
    have hnext := h.books.next_eq
    have haccepted := h.books.accepted_eq
    have hout : (l.completionBatches.flatMap CompletionBatch.appends).length ≤
        (l.outstanding inHand).length := by
      rw [outstanding, List.append_assoc, List.append_assoc, List.length_append]
      exact Nat.le_add_right _ _
    rw [h.handed_eq, List.length_take]
    simp only [Bool.false_eq_true, if_false]
    omega
  have hbase := h.base
  have hearlier := congrArg List.length hsplit
  rw [List.length_append, hhanded, hlen] at hearlier
  generalize (List.range l.activeSegment).flatMap (fun i => (l.segments i).segment.stream) = earlier
    at hsplit hearlier
  have hskip : l.nextCompletion - start - earlier.length =
      l.nextCompletion - l.baseRecordIndex := by omega
  rw [hsplit, List.drop_append, hskip] at hbatches
  refine ⟨earlier.drop (l.nextCompletion - start),
    (queuedAppends l.queue ++ queuedAppends l.channel).map AdmittedAppend.record,
    Eq.trans ?_ hrecords⟩
  simp only [outstanding, List.map_append, hbatches, List.append_assoc]

end Chorus
