import Chorus.Concurrency.Run
import Chorus.Engine.Proofs.EngineProofs

/-!
# Completions are an in-order durable prefix

The books hold in every state that an engine reaches. The completions that resolved without an error
are therefore the records from the recovered end on, in order, and each of them and of its
predecessors is durable on a quorum of the lanes it was dispatched to.
-/

namespace Chorus

open Concurrency RecordFrame

variable {n : Nat} {crc : Bytes → Nat} {start : Nat} {e : Engine n}

theorem EngineInv.of_init (crc : Bytes → Nat) (base room : Nat) (active spare : Fin n → ZoneStart)
    (recoveredFold : Option PendingSwap) :
    EngineInv crc base (Engine.init base room active spare recoveredFold) := by
  have hbooks : Books base base base [] [] :=
    ⟨Nat.le_refl _, rfl, rfl, by rw [Nat.sub_self]; rfl, rfl⟩
  have hrun : (Engine.init base room active spare recoveredFold).ledger.Running crc base [] false :=
    { segments := fun i => .of_init crc _
      placed := nofun
      completed := fun j hj => by
        change j < base - base at hj
        omega
      invariantFailed := rfl
      streams := fun i => by
        rw [if_neg (by simp)]
        rfl
      active_lt := Nat.zero_lt_two
      spare := fun i hi => by
        cases hi
        exact ⟨Nat.one_lt_two, Nat.zero_lt_one, rfl⟩
      fresh := fun _ _ => rfl
      handed_eq := rfl
      books := hbooks
      admission := nofun
      pending := rfl
      dispatched := rfl
      base := rfl
      batches := nofun
      completions := by
        rw [Ledger.okCompletions]
        show [] = (List.range' base (base - base)).map _
        rw [Nat.sub_self]
        rfl }
  exact hrun

theorem EngineInv.books (h : EngineInv crc start e) : e.ledger.Placed crc start ∧
    start ≤ e.nextCompletion ∧ ∃ failed count,
      e.completions = e.ledger.okCompletions start ++ failed ∧ (∀ c ∈ failed, c.2.isOk = false) ∧
        (failed.map Prod.fst).Sublist (List.range' e.nextCompletion count) := by
  have hrunning : ∀ {inHand sent}, e.ledger.Running crc start inHand sent →
      e.ledger.Placed crc start ∧ start ≤ e.nextCompletion ∧ ∃ failed count,
        e.completions = e.ledger.okCompletions start ++ failed ∧ (∀ c ∈ failed, c.2.isOk = false) ∧
          (failed.map Prod.fst).Sublist (List.range' e.nextCompletion count) := by
    intro inHand sent hrun
    refine ⟨hrun.toPlaced, hrun.books.start_le, [], 0, ?_, nofun, List.nil_sublist _⟩
    rw [List.append_nil]
    exact hrun.completions
  by_cases hphase : e.phase = .stopped
  · simp only [EngineInv, hphase] at h
    exact ⟨h.toPlaced, h.start_le, h.completions⟩
  · exact hrunning (h.running hphase)

/-- The records below the watermark of a segment are held by a quorum of its lanes. -/
theorem SegmentInv.durable {s : SegmentSystem n} (h : SegmentInv crc s) {offset : Nat}
    (hlt : offset < s.commits.committed) : ∃ lanes : Finset (Fin n), majority n ≤ lanes.card ∧
      ∀ z ∈ lanes, (streamBytes (s.stream.take (offset + 1))).length ≤ (s.commits.lanes z).durable ∧
        ∃ c, (s.slots z).copy = some c ∧ streamBytes (s.stream.take (offset + 1)) <+: c.bytes := by
  have hpos : 0 < s.commits.committed := Nat.zero_lt_of_lt hlt
  have hle := h.commits.committed_le.trans h.commits.admitted_le
  refine ⟨_, h.commits.durable hpos, fun z hz => ?_⟩
  have hlen := length_streamBytes_take_lt hpos hle
  rw [mem_durableLanes] at hz
  obtain ⟨c, hcopy, hdurable⟩ := (h.zone z).durable (by omega)
  have hmono : streamBytes (s.stream.take (offset + 1)) <+:
      streamBytes (s.stream.take s.commits.committed) :=
    streamBytes_mono (List.take_prefix_take_left hlt)
  refine ⟨hmono.length_le.trans hz, c, hcopy, ?_⟩
  -- the copy is a cut of the stream at or behind the watermark
  have hcommitted : streamBytes (s.stream.take s.commits.committed) <+: c.bytes :=
    List.prefix_of_prefix_length_le (streamBytes_take_mono _ _) ((h.zone z).cut c hcopy)
      (hz.trans hdurable)
  exact hmono.trans hcommitted

/-- The record with the given number went to its place, and a quorum of the lanes of that segment
has made it and everything before it durable. -/
def Engine.Durable (base : Nat) (e : Engine n) (seqno : Nat) : Prop :=
  ∃ p record, e.placements[seqno - base]? = some p ∧ e.accepted[seqno - base]? = some record ∧
    p.recordIndex = seqno ∧ (e.segments p.segment).segment.stream[p.offset]? = some record ∧
    ∃ lanes : Finset (Fin n), majority n ≤ lanes.card ∧ ∀ z ∈ lanes,
      (streamBytes ((e.segments p.segment).segment.stream.take (p.offset + 1))).length ≤
        ((e.segments p.segment).segment.commits.lanes z).durable ∧
      ∃ c, ((e.segments p.segment).segment.slots z).copy = some c ∧
        streamBytes ((e.segments p.segment).segment.stream.take (p.offset + 1)) <+: c.bytes

theorem Ledger.Placed.durable (h : e.ledger.Placed crc start) {seqno : Nat} (hle : start ≤ seqno)
    (hlt : seqno < e.nextCompletion) : e.Durable start seqno := by
  have hj : seqno - start < e.nextCompletion - start := by omega
  obtain ⟨p, hp, hcommitted⟩ := h.completed _ hj
  obtain ⟨-, hindex, record, hrecord, hstream⟩ := h.placed _ p hp
  exact ⟨p, record, hp, hrecord, by omega, hstream, (h.segments p.segment).durable hcommitted⟩

theorem Ledger.map_fst_okCompletions (start : Nat) (l : Ledger n) :
    (l.okCompletions start).map Prod.fst = List.range' start (l.nextCompletion - start) := by
  rw [Ledger.okCompletions, List.map_map]
  exact List.map_id _

theorem Ledger.filter_okCompletions (start : Nat) (l : Ledger n) :
    (l.okCompletions start).filter (fun c => c.2.isOk) = l.okCompletions start := by
  refine List.filter_eq_self.2 fun c hc => ?_
  obtain ⟨seqno, -, rfl⟩ := List.mem_map.1 hc
  rfl

/-- Completions are an in-order durable prefix. In every state of every run no append is resolved
twice; the appends that completed are the records from the recovered end on, in order; each of them
and every record before it is durable on a quorum of the lanes it was dispatched to; the active
segment assigned to every dispatched record its own number; and no inconsistency was ever found. -/
theorem engine_completions (crc : Bytes → Nat) (config : WalEngineConfig) (base room : Nat)
    (active spare : Fin n → ZoneStart) (recoveredFold : Option PendingSwap) {e : Engine n}
    (hrun : Reaches (Engine.step crc config) (fun _ _ => True)
      (Engine.init base room active spare recoveredFold) e) :
    (e.completions.map Prod.fst).Nodup ∧
      (∃ count, (e.completions.filter fun c => c.2.isOk).map Prod.fst = List.range' base count) ∧
      (∀ seqno, (seqno, .ok ()) ∈ e.completions → ∀ i, base ≤ i → i ≤ seqno → e.Durable base i) ∧
      (∀ j p, e.placements[j]? = some p → p.recordIndex = base + j) ∧
      e.invariantFailed = false := by
  have hinv : EngineInv crc base e :=
    hrun.invariant (.of_init crc base room active spare recoveredFold)
      fun _ _ _ h _ hstep => h.step hstep
  obtain ⟨hplaced, hle, failed, count, hcompletions, herrors, hsublist⟩ := hinv.books
  have hok := Ledger.map_fst_okCompletions base e.ledger
  refine ⟨?_, ⟨e.nextCompletion - base, ?_⟩, ?_, ?_, hplaced.invariantFailed⟩
  · rw [hcompletions, List.map_append, hok]
    have hall : (List.range' base (e.nextCompletion - base) ++ failed.map Prod.fst).Sublist
        (List.range' base (e.nextCompletion - base + count)) := by
      rw [← List.range'_append_1, show base + (e.nextCompletion - base) = e.nextCompletion by omega]
      exact (List.Sublist.refl _).append hsublist
    exact hall.nodup List.nodup_range'
  · have hnone : failed.filter (fun c => c.2.isOk) = [] :=
      List.filter_eq_nil_iff.2 fun c hc => by simp [herrors c hc]
    rw [hcompletions, List.filter_append, hnone, List.append_nil, Ledger.filter_okCompletions, hok]
    rfl
  · intro seqno hmem i hbase hi
    rw [hcompletions] at hmem
    rcases List.mem_append.1 hmem with hmem | hmem
    · obtain ⟨k, hk, heq⟩ := List.mem_map.1 hmem
      cases heq
      have hlt := (List.mem_range'_1.1 hk).2
      change seqno < base + (e.nextCompletion - base) at hlt
      exact hplaced.durable hbase (by omega)
    · cases herrors _ hmem
  · intro j p hp
    exact (hplaced.placed j p hp).2.1

/-- A segment that is full after one record. -/
def smallSegments : WalEngineConfig := ⟨64, 1, 1024⟩

/-- The loop hands the one queued append to the three lanes of the active segment and waits. -/
def dispatchOne : List (Engine.Action 3) :=
  [.drain, .progress, .recheck none, .provision (.ok ()) true, .checkSwap, .checkShutdown, .window,
    .reserveLane true, .reserveLane true, .reserveLane true, .reserveLane true,
    .sendLane true, .sendLane true, .sendLane true, .sendLane true,
    .markDue, .window, .checkExit]

/-- Record 5 becomes durable on two lanes and completes, which makes the rotation due. After the
swap record 6 goes to the next segment, and the commit notifications close before it commits. -/
def rotationRun : List (Engine.Action 3) :=
  [.enqueueAppend 5 ⟨[1]⟩, .sendAppend] ++ dispatchOne ++
  [.segment 0 (.persist 0 5), .segment 0 (.publishDurable 0 5),
    .segment 0 (.persist 2 5), .segment 0 (.publishDurable 2 5), .wake .commitUpdate true,
    .drain, .progress, .complete, .complete, .progress, .recheck none, .provision (.ok ()) true,
    .checkSwap, .swap,
    .enqueueAppend 6 ⟨[2, 3]⟩, .sendAppend] ++ dispatchOne ++
  [.wake .commitsClosed true]

/-- In that run record 5 completes durably and record 6 fails. -/
theorem engine_completions_rotation : ∃ e : Engine 3,
    Reaches (Engine.step crc32c smallSegments) (fun _ _ => True)
      (Engine.init 5 2 (fun _ => .lane) (fun _ => .lane) none) e ∧
    e.activeSegment = 1 ∧ e.completions.map (fun c => (c.1, c.2.isOk)) = [(5, true), (6, false)] ∧
    (e.completions.map Prod.fst).Nodup ∧ e.Durable 5 5 ∧
    (∀ j p, e.placements[j]? = some p → p.recordIndex = 5 + j) ∧ e.invariantFailed = false := by
  have hrun : (runChecked (Engine.step crc32c smallSegments) (fun _ _ => true)
      (Engine.init 5 2 (fun _ => .lane) (fun _ => .lane) none) rotationRun).any (fun e =>
        decide (e.activeSegment = 1) &&
        decide (e.completions.map (fun c => (c.1, c.2.isOk)) = [(5, true),
          (6, false)])) = true := by
    decide +kernel
  obtain ⟨e, hreach, hfacts⟩ := exists_reaches (fun _ _ _ => trivial) hrun
  simp only [Bool.and_eq_true, decide_eq_true_eq] at hfacts
  obtain ⟨hactive, hcompletions⟩ := hfacts
  obtain ⟨hnodup, -, hdurable, hplaced, hok⟩ := engine_completions crc32c smallSegments 5 2
    (fun _ => .lane) (fun _ => .lane) none hreach
  obtain ⟨c, hc, hfive⟩ := List.mem_map.1 (hcompletions ▸ List.mem_cons_self :
    (5, true) ∈ e.completions.map fun c => (c.1, c.2.isOk))
  obtain ⟨seqno, result⟩ := c
  cases result with
  | error => cases hfive
  | ok value =>
    cases hfive
    exact ⟨e, hreach, hactive, hcompletions, hnodup, hdurable 5 hc 5 le_rfl le_rfl, hplaced, hok⟩

end Chorus
