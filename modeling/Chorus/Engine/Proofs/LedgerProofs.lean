import Chorus.Engine.System
import Chorus.Segment.Proofs.SegmentProofs

/-!
# The books of the engine

`Ledger` is the part of the state that counts. `Running` says how the books agree while the loop
runs: the outstanding appends are numbered without a gap from the next completion to the next
admission, every dispatched record lies where its sequence number says, and everything that was
completed is below the watermark of its segment. `Stopped` is what is left once the loop has ended.
-/

namespace Chorus

open RecordFrame

variable {n : Nat} {crc : Bytes → Nat}

theorem queuedAppends_append (q q' : List Command) :
    queuedAppends (q ++ q') = queuedAppends q ++ queuedAppends q' := List.filterMap_append

theorem SegmentSystem.external_cases {s s' : SegmentSystem n} {action : SegmentSystem.Action n}
    (hexternal : Engine.external action = true) (hstep : s.step crc action = some s') :
    s'.stream = s.stream ∧ (s'.commits = s.commits ∨
      (∃ z durable, s'.commits = s.commits.publishDurable z durable) ∨
      ∃ z error, s'.commits = s.commits.finishLane z error) := by
  cases action with
  | dispatch | admitWindow | poison => cases hexternal
  | persist z length =>
    simp only [SegmentSystem.step] at hstep
    split at hstep
    · cases hstep
    · obtain ⟨-, heq⟩ := Option.ite_none_right_eq_some.1 hstep
      cases heq
      exact ⟨rfl, .inl rfl⟩
  | publishDurable z durable =>
    obtain ⟨-, heq⟩ := Option.ite_none_right_eq_some.1 hstep
    cases heq
    exact ⟨rfl, .inr (.inl ⟨z, durable, rfl⟩)⟩
  | finishLane z error =>
    cases hstep
    exact ⟨rfl, .inr (.inr ⟨z, error, rfl⟩)⟩
  | finalizeLane z =>
    obtain ⟨-, heq⟩ := Option.ite_none_right_eq_some.1 hstep
    cases heq
    exact ⟨rfl, .inl rfl⟩
  | recover | interrupt =>
    cases hstep
    exact ⟨rfl, .inl rfl⟩
  | step i choice =>
    simp only [SegmentSystem.step] at hstep
    split at hstep
    · cases hstep
    · obtain ⟨_, -, rfl⟩ := Option.map_eq_some_iff.1 hstep
      exact ⟨rfl, .inl rfl⟩
  | finish i =>
    simp only [SegmentSystem.step] at hstep
    split at hstep <;> cases hstep <;> exact ⟨rfl, .inl rfl⟩

/-- An action from outside the engine neither extends the stream nor admits a record. -/
theorem SegmentSystem.step_external {s s' : SegmentSystem n} {action : SegmentSystem.Action n}
    (hexternal : Engine.external action = true) (hstep : s.step crc action = some s') :
    s'.stream = s.stream ∧ s'.commits.admitted = s.commits.admitted := by
  obtain ⟨hstream, h | ⟨z, durable, h⟩ | ⟨z, error, h⟩⟩ := external_cases hexternal hstep
  · exact ⟨hstream, by rw [h]⟩
  · exact ⟨hstream, by rw [h, CommitTracker.admitted_publishDurable]⟩
  · exact ⟨hstream, by rw [h, CommitTracker.admitted_finishLane]⟩

structure SegmentWriter.Grows (crc : Bytes → Nat) (writer writer' : SegmentWriter n) : Prop where
  inv : SegmentInv crc writer.segment → SegmentInv crc writer'.segment
  committed : writer.committedLen ≤ writer'.committedLen
  stream_mono : writer.segment.stream <+: writer'.segment.stream

/-- A segment writer moves on without a new record. -/
structure SegmentWriter.Advances (crc : Bytes → Nat) (writer writer' : SegmentWriter n) : Prop where
  inv : SegmentInv crc writer.segment → SegmentInv crc writer'.segment
  committed : writer.committedLen ≤ writer'.committedLen
  stream : writer'.segment.stream = writer.segment.stream
  admitted : writer'.admittedLen = writer.admittedLen

theorem SegmentWriter.Advances.grows {writer writer' : SegmentWriter n}
    (h : writer.Advances crc writer') : writer.Grows crc writer' :=
  ⟨h.inv, h.committed, h.stream ▸ List.prefix_rfl⟩

theorem SegmentWriter.Grows.of_step {writer : SegmentWriter n} {action : SegmentSystem.Action n}
    {segment : SegmentSystem n} (hstep : writer.segment.step crc action = some segment) :
    writer.Grows crc { writer with segment := segment } :=
  ⟨fun h => h.step hstep, (SegmentSystem.Grows.of_step hstep).committed,
    (SegmentSystem.Grows.of_step hstep).stream⟩

namespace SegmentWriter.Advances

variable {writer : SegmentWriter n}

theorem of_external {action : SegmentSystem.Action n} {segment : SegmentSystem n}
    (hexternal : Engine.external action = true)
    (hstep : writer.segment.step crc action = some segment) :
    Advances crc writer { writer with segment := segment } where
  inv h := h.step hstep
  stream := (SegmentSystem.step_external hexternal hstep).1
  admitted := (SegmentSystem.step_external hexternal hstep).2
  committed := (SegmentSystem.Grows.of_step hstep).committed

theorem dropLane (crc : Bytes → Nat) (writer : SegmentWriter n) (zone : Fin n) :
    Advances crc writer (writer.dropLane zone) := by
  have hstep : writer.segment.step crc (.finishLane zone none) =
    some (writer.dropLane zone).segment := rfl
  have h := of_external rfl hstep
  exact ⟨h.inv, h.committed, h.stream, h.admitted⟩

theorem poison (crc : Bytes → Nat) (writer : SegmentWriter n) :
    Advances crc writer writer.poison where
  inv h := h.step (show writer.segment.step crc .poison = some writer.poison.segment from rfl)
  stream := rfl
  admitted := CommitTracker.admitted_poison _
  committed := (CommitTracker.committed_poison _).ge

end SegmentWriter.Advances

/-! ## Numbered appends -/

/-- The appends `out` without a completion carry the numbers from `done` up to `next`, and they are
the last of the accepted records, which are numbered from `start`. -/
structure Books (start done next : Nat) (accepted : List RecordFrame) (out : List AdmittedAppend) :
    Prop where
  start_le : start ≤ done
  seqnos : out.map AdmittedAppend.seqno = List.range' done out.length
  next_eq : next = done + out.length
  records : out.map AdmittedAppend.record = accepted.drop (done - start)
  accepted_eq : next = start + accepted.length

namespace Books

variable {start done next : Nat} {accepted : List RecordFrame} {out : List AdmittedAppend}
  {append : AdmittedAppend}

theorem snoc (h : Books start done next accepted out) (hseqno : append.seqno = next) :
    Books start done (next + 1) (accepted ++ [append.record]) (out ++ [append]) := by
  have hnext := h.next_eq
  have haccepted := h.accepted_eq
  have hstart := h.start_le
  refine ⟨hstart, ?_, ?_, ?_, ?_⟩
  · rw [List.map_append, h.seqnos, List.length_append, ← List.range'_append_1]
    simp [hseqno, hnext]
  · rw [List.length_append, List.length_singleton]
    omega
  · rw [List.map_append, h.records, List.drop_append_of_le_length (by omega)]
    rfl
  · rw [List.length_append, List.length_singleton]
    omega

theorem head (h : Books start done next accepted (append :: out)) : append.seqno = done := by
  have := h.seqnos
  rw [List.map_cons, List.length_cons, List.range'_succ] at this
  exact (List.cons.inj this).1

theorem tail (h : Books start done next accepted (append :: out)) :
    Books start (done + 1) next accepted out := by
  have hseqnos := h.seqnos
  have hrecords := h.records
  have hnext := h.next_eq
  have haccepted := h.accepted_eq
  have hstart := h.start_le
  rw [List.length_cons] at hnext
  rw [List.map_cons, List.length_cons, List.range'_succ] at hseqnos
  have hdrop : accepted.drop (done + 1 - start) = (accepted.drop (done - start)).drop 1 := by
    rw [List.drop_drop, show done + 1 - start = done - start + 1 by omega]
  refine ⟨by omega, (List.cons.inj hseqnos).2, by omega, ?_, haccepted⟩
  rw [hdrop, ← hrecords]
  rfl

theorem getElem? (h : Books start done next accepted out) {k : Nat} (hk : out[k]? = some append) :
    append.seqno = done + k ∧ accepted[done - start + k]? = some append.record := by
  have hlt := (List.getElem?_eq_some_iff.1 hk).1
  constructor
  · have hseq : (out.map AdmittedAppend.seqno)[k]? = some append.seqno := by
      rw [List.getElem?_map, hk]
      rfl
    rw [h.seqnos, List.getElem?_range' hlt] at hseq
    have := Option.some.inj hseq
    omega
  · have hrec : (out.map AdmittedAppend.record)[k]? = some append.record := by
      rw [List.getElem?_map, hk]
      rfl
    rw [h.records, List.getElem?_drop] at hrec
    exact hrec

end Books

/-! ## The ledger -/

/-- The part of the engine's state that the books are kept in. -/
structure Ledger (n : Nat) where
  nextSeqno : Nat
  admission : Option AdmittedAppend
  channel : List Command
  channelOpen : Bool
  queue : List Command
  completionBatches : List CompletionBatch
  pendingRecords : Nat
  nextCompletion : Nat
  segments : Nat → SegmentWriter n
  segmentCount : Nat
  activeSegment : Nat
  baseRecordIndex : Nat
  spareSegment : Option Nat
  accepted : List RecordFrame
  completions : List (Nat × Except WalError Unit)
  placements : List Placement
  invariantFailed : Bool

def Engine.ledger (e : Engine n) : Ledger n where
  nextSeqno := e.nextSeqno
  admission := e.admission
  channel := e.channel
  channelOpen := e.channelOpen
  queue := e.queue
  completionBatches := e.completionBatches
  pendingRecords := e.pendingRecords
  nextCompletion := e.nextCompletion
  segments := e.segments
  segmentCount := e.segmentCount
  activeSegment := e.activeSegment
  baseRecordIndex := e.baseRecordIndex
  spareSegment := e.spare.map PreparedSpare.segment
  accepted := e.accepted
  completions := e.completions
  placements := e.placements
  invariantFailed := e.invariantFailed

namespace Ledger

/-- The admitted appends without a completion, oldest first; `inHand` is the window that a step of
the loop holds. -/
def outstanding (l : Ledger n) (inHand : List AdmittedAppend) : List AdmittedAppend :=
  l.completionBatches.flatMap CompletionBatch.appends ++ inHand ++
    queuedAppends l.queue ++ queuedAppends l.channel

/-- The outstanding appends that have not joined a segment's stream. -/
def undispatched (l : Ledger n) (inHand : List AdmittedAppend) (sent : Bool) :
    List AdmittedAppend :=
  (if sent then [] else inHand) ++ queuedAppends l.queue ++ queuedAppends l.channel

/-- The records that the lanes were given, segment by segment. -/
def handed (l : Ledger n) : List RecordFrame :=
  (List.range l.segmentCount).flatMap fun i => (l.segments i).segment.stream

/-- The completions of the records from `start` up to the next completion. -/
def okCompletions (start : Nat) (l : Ledger n) : List (Nat × Except WalError Unit) :=
  (List.range' start (l.nextCompletion - start)).map fun seqno => (seqno, .ok ())

structure Placed (crc : Bytes → Nat) (start : Nat) (l : Ledger n) : Prop where
  segments : ∀ i, SegmentInv crc (l.segments i).segment
  placed : ∀ j p, l.placements[j]? = some p → p.segment < l.segmentCount ∧
    p.recordIndex = start + j ∧ ∃ record, l.accepted[j]? = some record ∧
      (l.segments p.segment).segment.stream[p.offset]? = some record
  completed : ∀ j < l.nextCompletion - start, ∃ p, l.placements[j]? = some p ∧
    p.offset < (l.segments p.segment).committedLen
  invariantFailed : l.invariantFailed = false

/-- The books while the loop runs. `inHand` is the window that a step holds; it is `sent` once it
has joined the stream of the active segment. -/
structure Running (crc : Bytes → Nat) (start : Nat) (l : Ledger n) (inHand : List AdmittedAppend)
    (sent : Bool) : Prop extends Placed crc start l where
  streams : ∀ i, (l.segments i).segment.stream.drop (l.segments i).admittedLen =
    if sent ∧ i = l.activeSegment then inHand.map AdmittedAppend.record else []
  active_lt : l.activeSegment < l.segmentCount
  spare : ∀ i, l.spareSegment = some i →
    i < l.segmentCount ∧ l.activeSegment < i ∧ (l.segments i).admittedLen = 0
  fresh : ∀ i, l.activeSegment < i → (l.segments i).segment.stream = []
  handed_eq : l.handed = l.accepted.take (l.placements.length + if sent then inHand.length else 0)
  books : Books start l.nextCompletion l.nextSeqno l.accepted (l.outstanding inHand)
  admission : ∀ append, l.admission = some append → append.seqno = l.nextSeqno
  pending : l.pendingRecords = (l.completionBatches.flatMap CompletionBatch.appends).length
  dispatched : start + l.placements.length = l.nextCompletion + l.pendingRecords
  base : l.baseRecordIndex + (l.segments l.activeSegment).admittedLen =
    l.nextCompletion + l.pendingRecords
  batches : ∀ batch ∈ l.completionBatches, ∀ append ∈ batch.appends,
    batch.commits.baseRecordIndex ≤ append.seqno ∧
      ∃ p, l.placements[append.seqno - start]? = some p ∧ p.segment = batch.commits.segment ∧
        p.offset = append.seqno - batch.commits.baseRecordIndex
  completions : l.completions = okCompletions start l

/-- The books once the loop has ended: some of the outstanding appends were failed, in order. -/
structure Stopped (crc : Bytes → Nat) (start : Nat) (l : Ledger n) :
    Prop extends Placed crc start l where
  start_le : start ≤ l.nextCompletion
  closed : l.channelOpen = false
  completions : ∃ failed count, l.completions = okCompletions start l ++ failed ∧
    (∀ c ∈ failed, c.2.isOk = false) ∧
      (failed.map Prod.fst).Sublist (List.range' l.nextCompletion count)
  handed_prefix : l.handed <+: l.accepted
  definitive : ∀ seqno error, (seqno, .error error) ∈ l.completions →
    error.mayHaveCommitted = false → start + l.handed.length ≤ seqno

/-- The watermark that was read for the oldest batch is still reached. -/
def WatermarkRead (l : Ledger n) (committedEnd : Nat) : Prop :=
  ∃ batch batches, l.completionBatches = batch :: batches ∧ committedEnd ≤
    batch.commits.baseRecordIndex + (l.segments batch.commits.segment).committedLen

end Ledger

def EngineInv (crc : Bytes → Nat) (start : Nat) (e : Engine n) : Prop :=
  match e.phase with
  | .stopped => e.ledger.Stopped crc start
  | .completing committedEnd _ => e.ledger.Running crc start [] false ∧
      e.ledger.WatermarkRead committedEnd
  | .reserve appends _ _ => appends ≠ [] ∧ e.ledger.Running crc start appends false
  | .send appends _ _ => appends ≠ [] ∧ e.ledger.Running crc start appends true
  | _ => e.ledger.Running crc start [] false

namespace SegmentWriter.Advances

theorem refl (crc : Bytes → Nat) (writer : SegmentWriter n) : Advances crc writer writer :=
  ⟨id, Nat.le_refl _, rfl, rfl⟩

end SegmentWriter.Advances

theorem update_of_rel {segments : Nat → SegmentWriter n} {i : Nat} {writer : SegmentWriter n}
    {R : SegmentWriter n → SegmentWriter n → Prop} (hrefl : ∀ w, R w w) (h : R (segments i) writer)
    (k : Nat) : R (segments k) (Function.update segments i writer k) := by
  by_cases hk : k = i
  · subst hk
    rw [Function.update_self]
    exact h
  · rw [Function.update_of_ne hk]
    exact hrefl _

namespace Ledger

variable {start : Nat} {l : Ledger n} {inHand : List AdmittedAppend} {sent : Bool}

/-! ## Segments move on -/

theorem getElem?_of_isPrefix {α : Type} {xs ys : List α} (h : xs <+: ys) {i : Nat} {x : α}
    (hi : xs[i]? = some x) : ys[i]? = some x := by
  obtain ⟨rest, rfl⟩ := h
  rw [List.getElem?_append_left (List.getElem?_eq_some_iff.1 hi).1]
  exact hi

theorem Placed.grow (h : l.Placed crc start) {segments : Nat → SegmentWriter n}
    (hgrows : ∀ k, (l.segments k).Grows crc (segments k)) :
    Placed crc start { l with segments := segments } where
  segments k := (hgrows k).inv (h.segments k)
  placed j p hp := by
    obtain ⟨hlt, hindex, record, hrecord, hstream⟩ := h.placed j p hp
    exact ⟨hlt, hindex, record, hrecord, getElem?_of_isPrefix
      (hgrows p.segment).stream_mono hstream⟩
  completed j hj := by
    obtain ⟨p, hp, hlt⟩ := h.completed j hj
    exact ⟨p, hp, hlt.trans_le (hgrows p.segment).committed⟩
  invariantFailed := h.invariantFailed

/-- More records get their places, behind those that have one. -/
theorem Placed.place (h : l.Placed crc start) {more : List Placement}
    (hmore : ∀ k p, more[k]? = some p → p.segment < l.segmentCount ∧
      p.recordIndex = start + (l.placements.length + k) ∧
      ∃ record, l.accepted[l.placements.length + k]? = some record ∧
        (l.segments p.segment).segment.stream[p.offset]? = some record) :
    Placed crc start { l with placements := l.placements ++ more } where
  segments := h.segments
  placed j p hp := by
    change (l.placements ++ more)[j]? = some p at hp
    by_cases hj : j < l.placements.length
    · rw [List.getElem?_append_left hj] at hp
      exact h.placed j p hp
    · obtain ⟨k, rfl⟩ := Nat.exists_eq_add_of_le (Nat.le_of_not_lt hj)
      rw [List.getElem?_append_right (Nat.le_add_right ..), Nat.add_sub_cancel_left] at hp
      exact hmore k p hp
  completed j hj := by
    obtain ⟨p, hp, hlt⟩ := h.completed j hj
    exact ⟨p, getElem?_of_isPrefix (List.prefix_append ..) hp, hlt⟩
  invariantFailed := h.invariantFailed

theorem handed_congr {segments : Nat → SegmentWriter n}
    (h : ∀ i, (segments i).segment.stream = (l.segments i).segment.stream) :
    ({ l with segments := segments } : Ledger n).handed = l.handed := by
  unfold handed
  simp only [h]

section Advance

variable {segments : Nat → SegmentWriter n}
  (hadv : ∀ k, (l.segments k).Advances crc (segments k))

include hadv

theorem Running.advance (h : l.Running crc start inHand sent) :
    Running crc start { l with segments := segments } inHand sent where
  toPlaced := h.toPlaced.grow fun k => (hadv k).grows
  streams i := by
    show (segments i).segment.stream.drop (segments i).admittedLen = _
    rw [(hadv i).stream, (hadv i).admitted]
    exact h.streams i
  active_lt := h.active_lt
  spare i hi := by
    obtain ⟨hlt, hgt, hzero⟩ := h.spare i hi
    exact ⟨hlt, hgt, (hadv i).admitted.trans hzero⟩
  fresh i hi := (hadv i).stream.trans (h.fresh i hi)
  handed_eq := (handed_congr fun i => (hadv i).stream).trans h.handed_eq
  books := h.books
  admission := h.admission
  pending := h.pending
  dispatched := h.dispatched
  base := by
    show l.baseRecordIndex + (segments l.activeSegment).admittedLen = _
    rw [(hadv l.activeSegment).admitted]
    exact h.base
  batches := h.batches
  completions := h.completions

theorem Stopped.advance (h : l.Stopped crc start) :
    Stopped crc start { l with segments := segments } where
  toPlaced := h.toPlaced.grow fun k => (hadv k).grows
  start_le := h.start_le
  closed := h.closed
  completions := h.completions
  handed_prefix := by
    rw [handed_congr fun i => (hadv i).stream]
    exact h.handed_prefix
  definitive := by
    rw [handed_congr fun i => (hadv i).stream]
    exact h.definitive

theorem WatermarkRead.advance {committedEnd : Nat} (h : l.WatermarkRead committedEnd) :
    WatermarkRead { l with segments := segments } committedEnd := by
  obtain ⟨batch, batches, hbatches, hle⟩ := h
  exact ⟨batch, batches, hbatches,
    hle.trans (Nat.add_le_add_left (hadv batch.commits.segment).committed _)⟩

end Advance

/-! ## Admission -/

theorem Running.setAdmission (h : l.Running crc start inHand sent)
    {admission : Option AdmittedAppend}
    (hseqno : ∀ append, admission = some append → append.seqno = l.nextSeqno) :
    Running crc start { l with admission := admission } inHand sent :=
  { h with admission := hseqno }

/-- The window in hand and everything dispatched before it is accepted. -/
theorem Running.placements_le (h : l.Running crc start inHand sent) :
    l.placements.length + inHand.length ≤ l.accepted.length := by
  have hnext := h.books.next_eq
  have haccepted := h.books.accepted_eq
  have hdispatched := h.dispatched
  have hpending := h.pending
  simp only [outstanding, List.length_append] at hnext
  omega

theorem Running.sendAppend (h : l.Running crc start inHand sent) {append : AdmittedAppend}
    (hseqno : append.seqno = l.nextSeqno) :
    Running crc start { l with
      admission := none
      channel := l.channel ++ [.append append]
      nextSeqno := l.nextSeqno + 1
      accepted := l.accepted ++ [append.record] } inHand sent := by
  have hout : ∀ channel', queuedAppends channel' = queuedAppends l.channel ++ [append] →
      ({ l with channel := channel' } : Ledger n).outstanding inHand =
        l.outstanding inHand ++ [append] := by
    intro channel' hchannel
    rw [outstanding, hchannel, ← List.append_assoc]
    rfl
  have hbooks := h.books.snoc hseqno
  rw [← hout (l.channel ++ [.append append]) (queuedAppends_append _ _)] at hbooks
  have hhanded : l.handed = (l.accepted ++ [append.record]).take
      (l.placements.length + if sent then inHand.length else 0) := by
    have hle := h.placements_le
    rw [List.take_append_of_le_length]
    · exact h.handed_eq
    · split_ifs
      · exact hle
      · omega
  refine { h with
    placed := fun j p hp => ?_, books := hbooks, admission := nofun, handed_eq := hhanded }
  obtain ⟨hlt, hindex, record, hrecord, hstream⟩ := h.placed j p hp
  refine ⟨hlt, hindex, record, ?_, hstream⟩
  rw [List.getElem?_append_left (List.getElem?_eq_some_iff.1 hrecord).1]
  exact hrecord

/-- Appends move between the channel, the queue and the hand of the loop, in order. -/
theorem Running.reroute (h : l.Running crc start inHand false) {channel queue : List Command}
    {channelOpen : Bool} {inHand' : List AdmittedAppend}
    (hout : inHand' ++ queuedAppends queue ++ queuedAppends channel =
      inHand ++ queuedAppends l.queue ++ queuedAppends l.channel) :
    Running crc start { l with channel := channel, queue := queue, channelOpen := channelOpen }
      inHand' false := by
  refine { h with streams := fun i => ?_, books := ?_, handed_eq := h.handed_eq }
  · have := h.streams i
    simpa using this
  · have heq : l.outstanding inHand = l.completionBatches.flatMap CompletionBatch.appends ++
        (inHand' ++ queuedAppends queue ++ queuedAppends channel) := by
      rw [hout, outstanding]
      simp only [List.append_assoc]
    have hbooks := h.books
    rw [heq, ← List.append_assoc, ← List.append_assoc] at hbooks
    exact hbooks

/-! ## Completion -/

theorem Running.popBatch (h : l.Running crc start [] false) {commits : RecordCommitRange}
    {batches : List CompletionBatch} (hbatches : l.completionBatches = ⟨commits, []⟩ :: batches) :
    Running crc start { l with completionBatches := batches } [] false := by
  have hflat : l.completionBatches.flatMap CompletionBatch.appends =
      batches.flatMap CompletionBatch.appends := by
    rw [hbatches]
    rfl
  have hbooks := h.books
  have hpending := h.pending
  rw [outstanding, hflat] at hbooks
  rw [hflat] at hpending
  refine { h with books := hbooks, pending := hpending, batches := fun batch hbatch => ?_ }
  exact h.batches batch (hbatches ▸ List.mem_cons_of_mem _ hbatch)

/-- The oldest append is below the watermark that was read: its record is committed. -/
theorem Running.complete (h : l.Running crc start [] false) {committedEnd : Nat}
    (hread : l.WatermarkRead committedEnd) {commits : RecordCommitRange} {append : AdmittedAppend}
    {appends : List AdmittedAppend} {batches : List CompletionBatch}
    (hbatches : l.completionBatches = ⟨commits, append :: appends⟩ :: batches)
    (hlt : append.seqno < committedEnd) :
    0 < l.pendingRecords ∧ append.seqno = l.nextCompletion ∧
      Running crc start { l with
        pendingRecords := l.pendingRecords - 1
        completions := l.completions ++ [(append.seqno, .ok ())]
        nextCompletion := l.nextCompletion + 1
        completionBatches := ⟨commits, appends⟩ :: batches } [] false ∧
      WatermarkRead { l with
        pendingRecords := l.pendingRecords - 1
        completions := l.completions ++ [(append.seqno, .ok ())]
        nextCompletion := l.nextCompletion + 1
        completionBatches := ⟨commits, appends⟩ :: batches } committedEnd := by
  obtain ⟨batch, rest, heq, hcommitted⟩ := hread
  rw [hbatches] at heq
  cases heq
  have hflat : l.completionBatches.flatMap CompletionBatch.appends =
      append :: (appends ++ batches.flatMap CompletionBatch.appends) := by
    rw [hbatches]
    rfl
  have hpending := h.pending
  have hdispatched := h.dispatched
  have hstart := h.books.start_le
  have hbooks := h.books
  rw [hflat, List.length_cons] at hpending
  rw [outstanding, hflat] at hbooks
  have hseqno : append.seqno = l.nextCompletion := hbooks.head
  have hmem : (⟨commits, append :: appends⟩ : CompletionBatch) ∈ l.completionBatches := by
    rw [hbatches]
    exact List.mem_cons_self
  obtain ⟨hbase, p, hp, hsegment, hoffset⟩ := h.batches _ hmem append List.mem_cons_self
  refine ⟨by omega, hseqno, { h with
    completed := fun j hj => ?_
    books := hbooks.tail
    pending := ?_
    dispatched := ?_
    base := ?_
    batches := fun batch hbatch a ha => ?_
    completions := ?_ }, _, _, rfl, hcommitted⟩
  · -- the new record is the last one below the next completion
    change j < l.nextCompletion + 1 - start at hj
    by_cases hold : j < l.nextCompletion - start
    · exact h.completed j hold
    · have hj' : j = append.seqno - start := by omega
      refine ⟨p, hj' ▸ hp, ?_⟩
      show p.offset < (l.segments p.segment).committedLen
      rw [hsegment, hoffset]
      simp only at hcommitted hbase ⊢
      omega
  · show l.pendingRecords - 1 = _
    simp only [List.flatMap_cons]
    omega
  · show start + l.placements.length = l.nextCompletion + 1 + (l.pendingRecords - 1)
    omega
  · show l.baseRecordIndex + (l.segments l.activeSegment).admittedLen =
      l.nextCompletion + 1 + (l.pendingRecords - 1)
    rw [h.base]
    omega
  · rcases List.mem_cons.1 hbatch with rfl | hbatch
    · exact h.batches _ hmem a (List.mem_cons_of_mem _ ha)
    · exact h.batches batch (hbatches ▸ List.mem_cons_of_mem _ hbatch) a ha
  · show l.completions ++ [(append.seqno, .ok ())] = _
    rw [h.completions, okCompletions, okCompletions, hseqno]
    simp only
    rw [show l.nextCompletion + 1 - start = (l.nextCompletion - start) + 1 by omega,
      List.range'_1_concat, List.map_append,
      show start + (l.nextCompletion - start) = l.nextCompletion by omega]
    rfl

/-! ## Dispatch -/

/-- The window in hand is the next part of the accepted records. -/
theorem Running.accepted_inHand (h : l.Running crc start inHand sent) :
    (l.accepted.drop l.placements.length).take inHand.length =
      inHand.map AdmittedAppend.record := by
  have hrecords := congrArg (List.drop l.pendingRecords) h.books.records
  have hdispatched := h.dispatched
  have hstart := h.books.start_le
  rw [List.drop_drop, show l.nextCompletion - start + l.pendingRecords =
    l.placements.length by omega, outstanding, List.append_assoc, List.append_assoc,
    List.map_append, h.pending, List.drop_left' (List.length_map _), List.map_append] at hrecords
  rw [← hrecords, List.take_left' (List.length_map _)]

/-- The stream of the active segment comes last of all. -/
theorem handed_eq_earlier {l : Ledger n} (hactive : l.activeSegment < l.segmentCount)
    (hfresh : ∀ i, l.activeSegment < i → (l.segments i).segment.stream = []) :
    l.handed = (List.range l.activeSegment).flatMap (fun i => (l.segments i).segment.stream) ++
      (l.segments l.activeSegment).segment.stream := by
  obtain ⟨rest, hrest⟩ : ∃ k, l.segmentCount = l.activeSegment + 1 + k :=
    Nat.exists_eq_add_of_le hactive
  have hlater : ((List.range rest).map (l.activeSegment + 1 + ·)).flatMap
      (fun i => (l.segments i).segment.stream) = [] := by
    rw [List.flatMap_eq_nil_iff]
    intro i hi
    obtain ⟨k, -, rfl⟩ := List.mem_map.1 hi
    exact hfresh _ (by omega)
  rw [handed, hrest, List.range_add, List.flatMap_append, hlater, List.range_succ,
    List.flatMap_append, List.flatMap_singleton, List.append_nil]

theorem Running.handed_update (h : l.Running crc start inHand sent) {writer : SegmentWriter n}
    {records : List RecordFrame}
    (hstream : writer.segment.stream = (l.segments l.activeSegment).segment.stream ++ records) :
    ({ l with segments := Function.update l.segments l.activeSegment writer } : Ledger n).handed =
      l.handed ++ records := by
  have hearlier : (List.range l.activeSegment).flatMap
      (fun i => (Function.update l.segments l.activeSegment writer i).segment.stream) =
      (List.range l.activeSegment).flatMap fun i => (l.segments i).segment.stream := by
    refine List.flatMap_congr fun i hi => ?_
    rw [Function.update_of_ne (Nat.ne_of_lt (List.mem_range.1 hi))]
  have hfresh : ∀ i, l.activeSegment < i →
      (Function.update l.segments l.activeSegment writer i).segment.stream = [] := by
    intro i hi
    rw [Function.update_of_ne (Nat.ne_of_gt hi)]
    exact h.fresh i hi
  have hupdated := handed_eq_earlier (l := { l with
    segments := Function.update l.segments l.activeSegment writer }) h.active_lt hfresh
  rw [hupdated, handed_eq_earlier h.active_lt h.fresh]
  simp only [hearlier, Function.update_self, hstream, List.append_assoc]

theorem Running.join (h : l.Running crc start inHand false) {writer : SegmentWriter n}
    (hgrows : (l.segments l.activeSegment).Grows crc writer)
    (hadmitted : writer.admittedLen = (l.segments l.activeSegment).admittedLen)
    (hstream : writer.segment.stream =
      (l.segments l.activeSegment).segment.stream ++ inHand.map AdmittedAppend.record) :
    Running crc start { l with segments := Function.update l.segments l.activeSegment writer }
      inHand true := by
  obtain ⟨segments, hsegments⟩ :
    ∃ s, Function.update l.segments l.activeSegment writer = s := ⟨_, rfl⟩
  have hself : segments l.activeSegment = writer := by
    rw [← hsegments, Function.update_self]
  have hother : ∀ k, k ≠ l.activeSegment → segments k = l.segments k := by
    intro k hk
    rw [← hsegments, Function.update_of_ne hk]
  have hgrowsAll : ∀ k, (l.segments k).Grows crc (segments k) :=
    hsegments ▸ update_of_rel (fun w => (SegmentWriter.Advances.refl crc w).grows) hgrows
  have hadmittedAll : ∀ k, (segments k).admittedLen = (l.segments k).admittedLen := by
    intro k
    by_cases hk : k = l.activeSegment
    · rw [hk, hself, hadmitted]
    · rw [hother k hk]
  have hhanded : l.handed ++ inHand.map AdmittedAppend.record =
      l.accepted.take (l.placements.length + inHand.length) := by
    have hbefore := h.handed_eq
    rw [if_neg (by simp), Nat.add_zero] at hbefore
    rw [List.take_add, ← hbefore, h.accepted_inHand]
  have hupdate := h.handed_update hstream
  rw [hsegments] at hupdate ⊢
  refine { h with
    toPlaced := h.toPlaced.grow hgrowsAll
    streams := fun k => ?_
    spare := fun k hk => ?_
    fresh := fun k hk => ?_
    handed_eq := hupdate.trans hhanded
    base := ?_ }
  · show (segments k).segment.stream.drop (segments k).admittedLen = _
    have hstreams := h.streams k
    simp only [Bool.false_eq_true, false_and, if_false] at hstreams
    rw [hadmittedAll]
    by_cases hk : k = l.activeSegment
    · subst hk
      have hle : (l.segments l.activeSegment).admittedLen ≤
          (l.segments l.activeSegment).segment.stream.length :=
        (h.segments l.activeSegment).commits.admitted_le
      rw [if_pos ⟨rfl, rfl⟩, hself, hstream, List.drop_append_of_le_length hle, hstreams]
      rfl
    · rw [if_neg fun hc => hk hc.2, hother k hk]
      exact hstreams
  · obtain ⟨hlt, hgt, hzero⟩ := h.spare k hk
    exact ⟨hlt, hgt, (hadmittedAll k).trans hzero⟩
  · show (segments k).segment.stream = []
    rw [hother k (Nat.ne_of_gt hk)]
    exact h.fresh k hk
  · show l.baseRecordIndex + (segments l.activeSegment).admittedLen = _
    rw [hadmittedAll]
    exact h.base

/-- The window in hand continues the indices of the active segment. -/
theorem Running.getElem?_inHand (h : l.Running crc start inHand sent) {k : Nat}
    {append : AdmittedAppend} (hk : inHand[k]? = some append) :
    append.seqno = l.baseRecordIndex + (l.segments l.activeSegment).admittedLen + k ∧
      append.seqno = start + l.placements.length + k ∧
      l.accepted[l.placements.length + k]? = some append.record := by
  have hout : (l.outstanding inHand)[l.pendingRecords + k]? = some append := by
    have hlt := (List.getElem?_eq_some_iff.1 hk).1
    rw [h.pending, outstanding, List.append_assoc, List.append_assoc,
      List.getElem?_append_right (by omega), Nat.add_sub_cancel_left, List.getElem?_append_left hlt]
    exact hk
  obtain ⟨hseqno, hrecord⟩ := h.books.getElem? hout
  have hbase := h.base
  have hdispatched := h.dispatched
  have hstart := h.books.start_le
  refine ⟨by omega, by omega, ?_⟩
  rw [show l.placements.length + k = l.nextCompletion - start + (l.pendingRecords + k) by omega]
  exact hrecord

/-- The window that was sent is the end of the active stream. -/
theorem Running.getElem?_sent (h : l.Running crc start inHand true) {k : Nat}
    {append : AdmittedAppend} (hk : inHand[k]? = some append) :
    (l.segments l.activeSegment).segment.stream[(l.segments l.activeSegment).admittedLen + k]? =
      some append.record := by
  have htail := h.streams l.activeSegment
  rw [if_pos ⟨rfl, rfl⟩] at htail
  rw [← List.getElem?_drop, htail, List.getElem?_map, hk]
  rfl

theorem getElem?_places (i base first : Nat) {count k : Nat} (hk : k < count) :
    ((List.range' first count).map fun offset => (⟨i, offset, base + offset⟩ : Placement))[k]? =
      some ⟨i, first + k, base + (first + k)⟩ := by
  rw [List.getElem?_map, List.getElem?_range' hk, Nat.one_mul]
  rfl

theorem Running.place (h : l.Running crc start inHand true) :
    Placed crc start { l with
      placements := l.placements ++
        (List.range' (l.segments l.activeSegment).admittedLen inHand.length).map fun offset =>
          ⟨l.activeSegment, offset, l.baseRecordIndex + offset⟩ } := by
  refine h.toPlaced.place fun k p hp => ?_
  have hlt : k < inHand.length := by
    have := (List.getElem?_eq_some_iff.1 hp).1
    rwa [List.length_map, List.length_range'] at this
  rw [getElem?_places _ _ _ hlt] at hp
  cases hp
  have hk := List.getElem?_eq_getElem hlt
  obtain ⟨hseqno, hseqno', hrecord⟩ := h.getElem?_inHand hk
  refine ⟨h.active_lt, ?_, _, hrecord, h.getElem?_sent hk⟩
  simp only
  omega

theorem Running.dispatch (h : l.Running crc start inHand true) {writer : SegmentWriter n}
    (hgrowsActive : (l.segments l.activeSegment).Grows crc writer)
    (hstreamActive : writer.segment.stream = (l.segments l.activeSegment).segment.stream)
    (hwriter : writer.admittedLen = (l.segments l.activeSegment).admittedLen + inHand.length)
    {commits : RecordCommitRange} (hsegment : commits.segment = l.activeSegment)
    (hbase : commits.baseRecordIndex = l.baseRecordIndex) :
    Running crc start { l with
      segments := Function.update l.segments l.activeSegment writer
      pendingRecords := l.pendingRecords + inHand.length
      completionBatches := l.completionBatches ++ [⟨commits, inHand⟩]
      placements := l.placements ++
        (List.range' (l.segments l.activeSegment).admittedLen inHand.length).map fun offset =>
          ⟨l.activeSegment, offset, l.baseRecordIndex + offset⟩ } [] false := by
  obtain ⟨segments, hsegments⟩ :
    ∃ s, Function.update l.segments l.activeSegment writer = s := ⟨_, rfl⟩
  have hself : segments l.activeSegment = writer := by
    rw [← hsegments, Function.update_self]
  have hothers : ∀ k, k ≠ l.activeSegment → segments k = l.segments k := by
    intro k hk
    rw [← hsegments, Function.update_of_ne hk]
  have hgrows : ∀ k, (l.segments k).Grows crc (segments k) :=
    hsegments ▸ update_of_rel (fun w => (SegmentWriter.Advances.refl crc w).grows) hgrowsActive
  have hstream : ∀ k, (segments k).segment.stream = (l.segments k).segment.stream :=
    hsegments ▸ update_of_rel (R := fun w w' => w'.segment.stream = w.segment.stream)
      (fun _ => rfl) hstreamActive
  have hplaced := h.place.grow hgrows
  have hdispatched := h.dispatched
  have hbaseEq := h.base
  rw [hsegments]
  refine { h with
    toPlaced := ⟨hplaced.segments, hplaced.placed, hplaced.completed, hplaced.invariantFailed⟩
    streams := fun k => ?_
    spare := fun k hk => ?_
    fresh := fun k hk => (hstream k).trans (h.fresh k hk)
    handed_eq := ?_
    books := ?_
    pending := ?_
    dispatched := ?_
    base := ?_
    batches := fun batch hbatch append happend => ?_ }
  · show (segments k).segment.stream.drop (segments k).admittedLen = _
    have hk := h.streams k
    rw [if_neg (by simp), hstream]
    by_cases hk' : k = l.activeSegment
    · subst hk'
      rw [if_pos ⟨rfl, rfl⟩] at hk
      rw [hself, hwriter, ← List.drop_drop, hk, List.drop_eq_nil_iff, List.length_map]
    · rw [hothers k hk']
      rwa [if_neg fun hc => hk' hc.2] at hk
  · obtain ⟨hlt, hgt, hzero⟩ := h.spare k hk
    refine ⟨hlt, hgt, ?_⟩
    show (segments k).admittedLen = 0
    rw [hothers k (Nat.ne_of_gt hgt)]
    exact hzero
  · have hsame : ({ l with segments := segments } : Ledger n).handed = l.handed :=
      handed_congr hstream
    rw [h.handed_eq, if_pos rfl] at hsame
    rw [if_neg (by simp), List.length_append, List.length_map, List.length_range', Nat.add_zero]
    exact hsame
  · have hbooks := h.books
    simp only [outstanding, List.flatMap_append, List.flatMap_singleton,
      List.append_nil] at hbooks ⊢
    exact hbooks
  · show l.pendingRecords + inHand.length = _
    simp only [List.flatMap_append, List.flatMap_singleton, List.length_append]
    rw [h.pending]
  · show start + (l.placements ++ _).length = l.nextCompletion + (l.pendingRecords + inHand.length)
    rw [List.length_append, List.length_map, List.length_range']
    omega
  · show l.baseRecordIndex + (segments l.activeSegment).admittedLen = _
    rw [hself, hwriter]
    simp only
    omega
  · rcases List.mem_append.1 hbatch with hbatch | hbatch
    · obtain ⟨hle, p, hp, hfacts⟩ := h.batches batch hbatch append happend
      exact ⟨hle, p, getElem?_of_isPrefix (List.prefix_append ..) hp, hfacts⟩
    · rw [List.mem_singleton.1 hbatch] at happend ⊢
      obtain ⟨k, hk⟩ := List.mem_iff_getElem?.1 happend
      obtain ⟨hseqno, hseqno', -⟩ := h.getElem?_inHand hk
      have hplace := getElem?_places l.activeSegment l.baseRecordIndex
        (l.segments l.activeSegment).admittedLen (List.getElem?_eq_some_iff.1 hk).1
      refine ⟨?_, _, (?_ : (l.placements ++ _)[append.seqno - start]? = _).trans hplace,
        hsegment.symm, ?_⟩
      · show commits.baseRecordIndex ≤ append.seqno
        omega
      · rw [show append.seqno - start = l.placements.length + k by omega,
          List.getElem?_append_right (Nat.le_add_right ..), Nat.add_sub_cancel_left]
      · show (l.segments l.activeSegment).admittedLen + k = append.seqno - commits.baseRecordIndex
        omega

/-! ## Rotation -/

theorem Running.swap (h : l.Running crc start [] false) {successor : Nat}
    (hspare : l.spareSegment = some successor) :
    Running crc start { l with
      baseRecordIndex := l.baseRecordIndex + (l.segments l.activeSegment).admittedLen
      activeSegment := successor
      spareSegment := none } [] false := by
  obtain ⟨hlt, hgt, hzero⟩ := h.spare successor hspare
  refine { h with
    streams := fun k => ?_, active_lt := hlt, spare := nofun
    fresh := fun k hk => h.fresh k (hgt.trans hk), base := ?_ }
  · have := h.streams k
    simpa using this
  · show l.baseRecordIndex + (l.segments l.activeSegment).admittedLen +
      (l.segments successor).admittedLen = _
    rw [hzero, h.base]
    rfl

theorem Running.adopt (h : l.Running crc start [] false) (writer : Fin n → ZoneStart) :
    Running crc start { l with
      segments := Function.update l.segments l.segmentCount (.create writer)
      segmentCount := l.segmentCount + 1
      spareSegment := some l.segmentCount } [] false := by
  have hne : ∀ k, k < l.segmentCount →
      Function.update l.segments l.segmentCount (.create writer) k = l.segments k :=
    fun k hk => Function.update_of_ne (Nat.ne_of_lt hk) _ _
  refine { h with
    segments := fun k => ?_
    placed := fun j p hp => ?_
    completed := fun j hj => ?_
    streams := fun k => ?_
    active_lt := Nat.lt_succ_of_lt h.active_lt
    spare := fun k hk => ?_
    fresh := fun k hk => ?_
    handed_eq := ?_
    base := ?_ }
  · show SegmentInv crc (Function.update l.segments _ _ k).segment
    by_cases hk : k = l.segmentCount
    · subst hk
      rw [Function.update_self]
      exact .of_init crc writer
    · rw [Function.update_of_ne hk]
      exact h.segments k
  · obtain ⟨hlt, hindex, record, hrecord, hstream⟩ := h.placed j p hp
    refine ⟨Nat.lt_succ_of_lt hlt, hindex, record, hrecord, ?_⟩
    show (Function.update l.segments _ _ p.segment).segment.stream[p.offset]? = _
    rw [hne p.segment hlt]
    exact hstream
  · obtain ⟨p, hp, hlt⟩ := h.completed j hj
    refine ⟨p, hp, ?_⟩
    show p.offset < (Function.update l.segments _ _ p.segment).committedLen
    rw [hne p.segment (h.placed j p hp).1]
    exact hlt
  · show (Function.update l.segments _ _ k).segment.stream.drop
      (Function.update l.segments _ _ k).admittedLen = _
    rw [if_neg (by simp)]
    by_cases hk : k = l.segmentCount
    · subst hk
      rw [Function.update_self]
      rfl
    · rw [Function.update_of_ne hk]
      have := h.streams k
      simpa using this
  · cases hk
    refine ⟨Nat.lt_succ_self _, h.active_lt, ?_⟩
    show (Function.update l.segments _ _ l.segmentCount).admittedLen = 0
    rw [Function.update_self]
    rfl
  · show (Function.update l.segments _ _ k).segment.stream = []
    by_cases hnew : k = l.segmentCount
    · subst hnew
      rw [Function.update_self]
      rfl
    · rw [Function.update_of_ne hnew]
      exact h.fresh k hk
  · rw [← h.handed_eq]
    simp only [handed]
    rw [List.range_succ, List.flatMap_append, List.flatMap_singleton, Function.update_self]
    refine (List.append_nil _).trans (List.flatMap_congr fun i hi => ?_)
    rw [hne i (List.mem_range.1 hi)]
  · show l.baseRecordIndex + (Function.update l.segments _ _ l.activeSegment).admittedLen = _
    rw [hne l.activeSegment h.active_lt]
    exact h.base

/-! ## The end of the loop -/

/-- What has not been dispatched is numbered above everything the lanes were given. -/
theorem Running.le_seqno (h : l.Running crc start inHand sent) {append : AdmittedAppend}
    (happend : append ∈ l.undispatched inHand sent) : start + l.handed.length ≤ append.seqno := by
  obtain ⟨k, hk⟩ := List.mem_iff_getElem?.1 happend
  obtain ⟨dispatched, hsplit, hlen⟩ : ∃ dispatched : List AdmittedAppend,
      l.outstanding inHand = dispatched ++ l.undispatched inHand sent ∧
        dispatched.length = l.pendingRecords + if sent then inHand.length else 0 := by
    cases sent with
    | false =>
      refine ⟨l.completionBatches.flatMap CompletionBatch.appends, ?_, h.pending.symm⟩
      simp [outstanding, undispatched]
    | true =>
      refine ⟨l.completionBatches.flatMap CompletionBatch.appends ++ inHand, ?_, ?_⟩
      · simp [outstanding, undispatched]
      · rw [List.length_append, h.pending]
        rfl
  have hout : (l.outstanding inHand)[dispatched.length + k]? = some append := by
    rw [hsplit, List.getElem?_append_right (Nat.le_add_right _ _), Nat.add_sub_cancel_left]
    exact hk
  have hseqno := (h.books.getElem? hout).1
  have hhanded := congrArg List.length h.handed_eq
  rw [List.length_take] at hhanded
  have hdispatched := h.dispatched
  omega

/-- The loop ends after it failed some of the outstanding appends, in order. An error that rules a
commit out goes only to appends that were never dispatched. -/
theorem Running.stop (h : l.Running crc start inHand sent)
    (failed : List (AdmittedAppend × WalError))
    (hdefinitive : ∀ f ∈ failed, f.2.mayHaveCommitted = false → f.1 ∈ l.undispatched inHand sent)
    (hsublist : (failed.map Prod.fst).Sublist (l.outstanding inHand))
    (completionBatches : List CompletionBatch) (queue channel : List Command) :
    Stopped crc start { l with
      completions := l.completions ++ failed.map fun f => (f.1.seqno, .error f.2)
      completionBatches := completionBatches
      queue := queue
      channel := channel
      channelOpen := false } where
  segments := h.segments
  placed := h.placed
  completed := h.completed
  invariantFailed := h.invariantFailed
  start_le := h.books.start_le
  closed := rfl
  completions := by
    have hseqnos := hsublist.map AdmittedAppend.seqno
    rw [h.books.seqnos] at hseqnos
    refine ⟨_, (l.outstanding inHand).length, congrArg (· ++ _) h.completions, fun c hc => ?_, ?_⟩
    · obtain ⟨f, -, rfl⟩ := List.mem_map.1 hc
      rfl
    · rw [List.map_map] at hseqnos ⊢
      exact hseqnos
  handed_prefix := by
    show l.handed <+: l.accepted
    rw [h.handed_eq]
    exact List.take_prefix _ _
  definitive := by
    intro seqno error hmem hfalse
    rcases List.mem_append.1 hmem with hmem | hmem
    · rw [h.completions] at hmem
      obtain ⟨k, -, heq⟩ := List.mem_map.1 hmem
      cases heq
    · obtain ⟨f, hf, heq⟩ := List.mem_map.1 hmem
      cases heq
      exact h.le_seqno (hdefinitive f hf hfalse)

end Ledger

end Chorus
