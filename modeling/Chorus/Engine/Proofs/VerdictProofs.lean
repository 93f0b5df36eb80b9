import Chorus.Engine.Proofs.CompletionProofs

/-!
# A definitive failure rules a commit out

The lanes are given the records of the accepted appends in order. An append that fails with an error
for which `mayHaveCommitted` is false lies behind all of them, so its record is in no object and no
recovery returns it for that append.
-/

namespace Chorus

open Concurrency RecordFrame

variable {n : Nat} {crc : Bytes → Nat} {start : Nat} {e : Engine n}

/-- What the books say about the records that the lanes were given, in any phase. -/
theorem EngineInv.handed (h : EngineInv crc start e) : e.handed <+: e.accepted ∧
    ∀ seqno error, (seqno, .error error) ∈ e.completions → error.mayHaveCommitted = false →
      start + e.handed.length ≤ seqno := by
  have hrunning : ∀ {inHand sent}, e.ledger.Running crc start inHand sent →
      e.handed <+: e.accepted ∧
      ∀ seqno error, (seqno, .error error) ∈ e.completions → error.mayHaveCommitted = false →
        start + e.handed.length ≤ seqno := by
    intro inHand sent hrun
    constructor
    · have hhanded : e.handed = e.accepted.take _ := hrun.handed_eq
      rw [hhanded]
      exact List.take_prefix _ _
    · -- nothing fails while the loop runs
      intro seqno error hmem
      have hok : e.completions = e.ledger.okCompletions start := hrun.completions
      rw [hok] at hmem
      obtain ⟨k, -, heq⟩ := List.mem_map.1 hmem
      cases heq
  by_cases hphase : e.phase = .stopped
  · simp only [EngineInv, hphase] at h
    exact ⟨h.handed_prefix, h.definitive⟩
  · exact hrunning (h.running hphase)

theorem Engine.mem_of_resolution {seqno : Nat} {error : WalError}
    (h : e.resolution seqno = some (.error error)) :
    error = .closed ∨ (seqno, .error error) ∈ e.completions := by
  unfold Engine.resolution at h
  split at h
  · rename_i result hlookup
    cases h
    right
    obtain ⟨before, after, hsplit, -⟩ := List.lookup_eq_some_iff.1 hlookup
    rw [hsplit]
    exact List.mem_append_right _ List.mem_cons_self
  · left
    cases h
    rfl
  · cases h

/-- In every state of every run the lanes were given the records of the first accepted appends and
of no others; an append that failed definitively is not among those; an append that is among those
resolves at the latest when the loop ends, and never definitively; and what the objects hold and
what any recovery of them returns comes from the records that the lanes were given. -/
theorem engine_definitive_failures (crc : Bytes → Nat) (config : WalEngineConfig) (base room : Nat)
    (active spare : Fin n → ZoneStart) (recoveredFold : Option PendingSwap) {e : Engine n}
    (hrun : Reaches (Engine.step crc config) (fun _ _ => True)
      (Engine.init base room active spare recoveredFold) e) :
    e.handed <+: e.accepted ∧
      (∀ seqno error, (seqno, .error error) ∈ e.completions → error.mayHaveCommitted = false →
        base + e.handed.length ≤ seqno) ∧
      (∀ seqno < base + e.handed.length,
        (∀ error, e.resolution seqno = some (.error error) → error.mayHaveCommitted = true) ∧
        (e.phase = .stopped → e.resolution seqno ≠ none)) ∧
      (∀ i < e.segmentCount, ∀ zone c, ((e.segments i).segment.slots zone).copy = some c →
        c.bytes <+: streamBytes (e.segments i).segment.stream) ∧
      (∀ i < e.segmentCount, ∀ candidate ∈ (e.segments i).segment.recovered,
        ∃ records, candidate.records = .ok records ∧
          records <+: (e.segments i).segment.stream) := by
  have hinv : EngineInv crc base e :=
    hrun.invariant (.of_init crc base room active spare recoveredFold)
      fun _ _ _ h _ hstep => h.step hstep
  obtain ⟨hhanded, hdefinitive⟩ := hinv.handed
  have hsegments := hinv.books.1.segments
  refine ⟨hhanded, hdefinitive, fun seqno hlt => ⟨fun error hresolved => ?_, fun hstopped => ?_⟩,
    fun i _ zone c hc => (hsegments i).zone zone |>.cut c hc, fun i _ candidate hc => ?_⟩
  · rcases Engine.mem_of_resolution hresolved with rfl | hmem
    · rfl
    · by_contra hfalse
      have := hdefinitive seqno error hmem (by simpa using hfalse)
      omega
  · unfold Engine.resolution
    rw [hstopped]
    split
    · exact Option.some_ne_none _
    · exact Option.some_ne_none _
    · rename_i hphase
      exact absurd rfl hphase
  · obtain ⟨count, hholds, -⟩ := (hsegments i).holds hc
    exact ⟨_, hholds.records_eq (hsegments i).fits, List.take_prefix _ _⟩

/-- Record 5 goes to three lanes. Two lanes are then out of budget for record 6. -/
def shedRun : List (Engine.Action 3) :=
  [.enqueueAppend 5 ⟨[1]⟩, .sendAppend] ++ dispatchOne ++
  [.enqueueAppend 6 ⟨[2, 3]⟩, .sendAppend, .wake .command true, .drain, .progress, .complete,
    .recheck none, .provision (.ok ()) true, .checkSwap, .checkShutdown, .window,
    .reserveLane false, .reserveLane false, .reserveLane true, .reserveLane true]

/-- In that run record 6 fails definitively and record 5 does not. -/
theorem engine_definitive_failures_shed : ∃ e : Engine 3,
    Reaches (Engine.step crc32c smallSegments) (fun _ _ => True)
      (Engine.init 5 1 (fun _ => .lane) (fun _ => .lane) none) e ∧
    (6, .error (.protocol .noQuorum)) ∈ e.completions ∧ e.handed = [⟨[1]⟩] ∧
    5 + e.handed.length ≤ 6 ∧ e.resolution 5 = some (.error .closed) := by
  have hrun : (runChecked (Engine.step crc32c smallSegments) (fun _ _ => true)
      (Engine.init 5 1 (fun _ => .lane) (fun _ => .lane) none) shedRun).any (fun e =>
        decide ((6, (.error (.protocol .noQuorum) : Except WalError Unit)) ∈ e.completions) &&
        decide (e.handed = [⟨[1]⟩]) && decide (e.resolution 5 = some (.error .closed))) = true := by
    decide +kernel
  obtain ⟨e, hreach, hfacts⟩ := exists_reaches (fun _ _ _ => trivial) hrun
  simp only [Bool.and_eq_true, decide_eq_true_eq] at hfacts
  obtain ⟨⟨hfailed, hhanded⟩, hresolved⟩ := hfacts
  obtain ⟨-, hdefinitive, -⟩ := engine_definitive_failures crc32c smallSegments 5 1 _ _ _ hreach
  exact ⟨e, hreach, hfailed, hhanded, hdefinitive 6 _ hfailed rfl, hresolved⟩

end Chorus
