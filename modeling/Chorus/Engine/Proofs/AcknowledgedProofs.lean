import Chorus.Engine.Proofs.CompletionProofs
import Chorus.Engine.Proofs.HandleProofs

/-!
# Completed appends are recovered

A completed append is committed in the segment in which it was placed, and a recovery of that
segment keeps every committed record at its offset. Completions are never taken back.
-/

namespace Chorus

variable {n : Nat} {crc : Bytes → Nat} {config : WalEngineConfig} {start : Nat} {e e' : Engine n}

/-- Whatever recoveries of the segment have returned holds the record at its place. -/
def Engine.Recovers (e : Engine n) (p : Placement) (record : RecordFrame) : Prop :=
  ∀ candidate ∈ (e.segments p.segment).segment.recovered,
    ∃ records, candidate.records = .ok records ∧ records[p.offset]? = some record

theorem EngineInv.recovers (h : EngineInv crc start e) {seqno : Nat} (hle : start ≤ seqno)
    (hlt : seqno < e.nextCompletion) : ∃ p record, e.placements[seqno - start]? = some p ∧
      e.accepted[seqno - start]? = some record ∧ p.recordIndex = seqno ∧ e.Recovers p record := by
  obtain ⟨hplaced, -, -⟩ := h.books
  have hj : seqno - start < e.nextCompletion - start := by omega
  obtain ⟨p, hp, hcommitted⟩ := hplaced.completed _ hj
  obtain ⟨-, hindex, record, hrecord, hstream⟩ := hplaced.placed _ p hp
  have hsegment : SegmentInv crc (e.segments p.segment).segment := hplaced.segments p.segment
  refine ⟨p, record, hp, hrecord, by omega, fun candidate hc => ?_⟩
  -- the candidate keeps the committed part of the stream, in which the record lies
  obtain ⟨count, hholds, hcount⟩ := hsegment.holds hc
  refine ⟨_, hholds.records_eq hsegment.fits, ?_⟩
  rw [List.getElem?_take_of_lt (hcommitted.trans_le hcount)]
  exact hstream

theorem EngineInv.completed_bounds (h : EngineInv crc start e) {seqno : Nat}
    (hdone : (seqno, .ok ()) ∈ e.completions) : start ≤ seqno ∧ seqno < e.nextCompletion := by
  obtain ⟨-, hle, failed, count, hcompletions, herrors, -⟩ := h.books
  rw [hcompletions] at hdone
  rcases List.mem_append.1 hdone with hdone | hdone
  · obtain ⟨k, hk, heq⟩ := List.mem_map.1 hdone
    cases heq
    have hk : start ≤ seqno ∧ seqno < start + (e.nextCompletion - start) := List.mem_range'_1.1 hk
    omega
  · cases herrors _ hdone

namespace Engine

theorem mem_completions_of_resolution {seqno : Nat} (h : e.resolution seqno = some (.ok ())) :
    (seqno, .ok ()) ∈ e.completions := by
  unfold resolution at h
  split at h
  · next result hlookup =>
    cases h
    obtain ⟨l₁, l₂, heq, -⟩ := List.lookup_eq_some_iff.1 hlookup
    rw [heq]
    exact List.mem_append_right _ List.mem_cons_self
  · cases h
  · cases h

theorem nextCompletion_le {action : Action n} (hbackground : background action = true)
    (hstep : e.step crc config action = some e') : e.nextCompletion ≤ e'.nextCompletion := by
  cases action with
  | enqueueAppend | sendAppend | cancelAppend | shutdown | dropHandle | abort => cases hbackground
  | segment i action =>
    obtain ⟨-, heq⟩ := Option.ite_none_right_eq_some.1 hstep
    obtain ⟨segment, -, rfl⟩ := Option.map_eq_some_iff.1 heq
    exact Nat.le_refl _
  | _ => exact (admissions_of_turn (.of_step rfl hstep)).2

end Engine

end Chorus
