import Chorus.Segment.Proofs.LaneSystemProofs

/-!
# Flushes that a lane waits for

A lane acts when the durable tail moves, and the tail moves up to the flushes it has sent. `FlushAt`
is what the lane knows about them at each point at which it waits. A recovery forgets the flushes of
the old session, so it either sends a new one or has nothing left to wait for. Held batches are left
behind only by the loop that writes them without a flush: `LeavesUnflushed` excludes that.
-/

namespace Chorus

open Concurrency

def LaneRuntime.Covered (lane : LaneRuntime) : Prop := ∃ stop ∈ lane.flushes, lane.durable < stop

namespace LaneSystem

variable {s s' : LaneSystem} {first : BatchDescriptor} {rest : List BatchDescriptor}
  {next : LaneReturn} {tail : Nat} {failed : Bool}

/-- The lane has work that a flush has to finish. -/
def HasWork (s : LaneSystem) : Prop := s.lane.held ≠ [] ∨ s.lane.retained ≠ []

/-- The outstanding flushes were sent on the current session. -/
def SentOn (s : LaneSystem) : Prop :=
  ∀ stop ∈ s.lane.flushes, s.lane.durable < stop → stop ∈ s.stream.flushed

/-- The counters of the held batches and of the flushes. -/
structure FlushCore (s : LaneSystem) : Prop where
  heldBytes : s.lane.heldBytes = (batchBytes s.lane.held).length
  bound : ∀ stop ∈ s.lane.flushes, stop ≤ (batchBytes s.staged).length

/-- What holds while a recovery is to return to `next`. -/
def Pausing (s : LaneSystem) : LaneReturn → Prop
  | .dispatch => True
  | .dispatched => s.lane.held = []
  | .unflushed => s.lane.held ≠ [] → s.lane.durable < (batchBytes s.staged).length

/-- What holds at each point. -/
def FlushAt (s : LaneSystem) : LanePoint → Prop
  | .select => s.SentOn ∧ (s.HasWork → s.lane.Covered)
  | .sending true stop | .flushing stop =>
    s.SentOn ∧ s.lane.held = [] ∧ stop = (batchBytes s.staged).length
  | .sending false _ => s.SentOn ∧ s.lane.Covered ∧ s.Pausing .unflushed
  | .resuming next | .backingOff next => s.Pausing next
  | .resending next bytes => s.Pausing next ∧ 0 < bytes ∧
      s.lane.durable + bytes = (batchBytes s.staged).length
  | .ended _ | .aborted => True

structure FlushInv (s : LaneSystem) : Prop where
  core : s.FlushCore
  at_point : s.FlushAt s.point

/-- Only the lane's own state, the staged batches and the session's flushes matter. -/
theorem FlushInv.congr (h : FlushInv s) (hlane : s'.lane = s.lane) (hpoint : s'.point = s.point)
    (hstaged : s'.staged = s.staged) (hflushed : s'.stream.flushed = s.stream.flushed) :
    FlushInv s' := by
  obtain ⟨⟨hbytes, hbound⟩, hat⟩ := h
  constructor
  · constructor
    · rwa [hlane]
    · rwa [hlane, hstaged]
  · rw [hpoint]
    revert hat
    unfold FlushAt SentOn HasWork Pausing
    rw [hlane, hstaged, hflushed]
    exact id

/-- Once everything is durable, no flush is outstanding. -/
theorem FlushCore.sentOn (h : FlushCore s) (hall : (batchBytes s.staged).length ≤ s.lane.durable) :
    s.SentOn := by
  intro stop hstop hlt
  have hle := h.bound stop hstop
  omega

theorem loopTop_flush (h : FlushCore s) (hsent : s.SentOn) (hcovered : s.HasWork → s.lane.Covered) :
    FlushInv s.loopTop := by
  refine ⟨⟨h.heldBytes, h.bound⟩, ?_⟩
  unfold loopTop
  by_cases hdone : (s.closed && s.lane.retained.isEmpty && s.lane.held.isEmpty) = true
  · simp only [if_pos hdone]
    trivial
  · simp only [if_neg hdone]
    exact ⟨hsent, hcovered⟩

theorem dispatched_flush (h : FlushCore s) (hsent : s.SentOn)
    (hcovered : s.HasWork → s.lane.Covered) : FlushInv s.dispatched :=
  loopTop_flush ⟨h.heldBytes, h.bound⟩ hsent hcovered

/-- A group is written with a flush when nothing is left, and otherwise while a flush is
outstanding. -/
theorem stage_flush (hready : Ready (first :: rest) s) (h : FlushCore s) (hsent : s.SentOn)
    (flush : Bool) (htrue : flush = true → s.lane.held = [])
    (hfalse : flush = false → s.lane.Covered) : FlushInv (s.stage first rest flush) := by
  have hlog := hready.core.log
  have hseg := hlog.consecutive
  rw [hready.core.parts, List.append_assoc] at hseg
  obtain ⟨-, hgroup⟩ := consecutive_append.1 (consecutive_append.1 hseg).1
  rw [Nat.zero_add] at hgroup
  have hstop : groupStop first rest = (batchBytes (s.staged ++ (first :: rest))).length := by
    rw [hgroup.groupStop_eq, batchBytes_append, List.length_append]
  have hmore :
      (batchBytes s.staged).length < (batchBytes (s.staged ++ (first :: rest))).length := by
    have hpos := List.length_pos_iff.2 (batchBytes_ne_nil (List.cons_ne_nil first rest))
    rw [batchBytes_append, List.length_append]
    omega
  have hdurable := hlog.durable_le.trans hlog.object_le
  constructor
  · exact ⟨h.heldBytes, fun stop hmem => (h.bound stop hmem).trans hmore.le⟩
  · cases flush with
    | true => exact ⟨hsent, htrue rfl, hstop⟩
    | false => exact ⟨hsent, hfalse rfl, fun _ => hdurable.trans_lt hmore⟩

/-- The batches for one unflushed write, and their bytes. -/
theorem unflushedCount_bytes (bytes : Nat) (held : List BatchDescriptor) :
    (LaneRuntime.unflushedCount bytes held).2 =
      bytes + (batchBytes (held.take (LaneRuntime.unflushedCount bytes held).1)).length := by
  induction held generalizing bytes with
  | nil => rfl
  | cons batch held ih =>
    unfold LaneRuntime.unflushedCount
    by_cases hlt : bytes < laneUnflushedSendBytes
    · simp only [if_pos hlt, List.take_succ_cons, batchBytes_cons, List.length_append]
      rw [ih, batch.size_eq]
      omega
    · simp [if_neg hlt]

theorem unflushedRound_flush (hready : Ready [] s) (h : FlushCore s) (hsent : s.SentOn)
    (hcovered : s.HasWork → s.lane.Covered) : FlushInv s.unflushedRound := by
  unfold unflushedRound
  by_cases hbytes : laneUnflushedSendBytes ≤ s.lane.heldBytes
  · rw [if_pos hbytes]
    have hsplit := List.take_append_drop (LaneRuntime.unflushedCount 0 s.lane.held).1 s.lane.held
    cases hgroup : s.lane.held.take (LaneRuntime.unflushedCount 0 s.lane.held).1 with
    | nil =>
      simp only [hgroup]
      exact dispatched_flush h hsent hcovered
    | cons first rest =>
      simp only [hgroup]
      rw [hgroup] at hsplit
      have hheld : s.lane.held ≠ [] := by
        rw [← hsplit]
        exact List.cons_ne_nil _ _
      refine stage_flush (hready.take hsplit.symm _) ⟨?_, h.bound⟩ hsent false nofun
        fun _ => hcovered (.inl hheld)
      show s.lane.heldBytes - (LaneRuntime.unflushedCount 0 s.lane.held).2 =
        (batchBytes (s.lane.held.drop (LaneRuntime.unflushedCount 0 s.lane.held).1)).length
      have hlen := congrArg (fun held => (batchBytes held).length) hsplit
      simp only [batchBytes_append, List.length_append] at hlen
      rw [unflushedCount_bytes, h.heldBytes, hgroup]
      omega
  · rw [if_neg hbytes]
    exact dispatched_flush h hsent hcovered

theorem sentEnd_eq (h : Core [] s) : s.lane.sentEnd = (batchBytes s.staged).length :=
  LaneRuntime.sentEnd_eq h.log.staged_consecutive h.retained
    (h.log.durable_le.trans h.log.object_le)

theorem retained_eq_nil (h : Core [] s) :
    s.lane.retained = [] ↔ (batchBytes s.staged).length ≤ s.lane.durable := by
  rw [h.retained, undurable_eq_nil h.log.staged_consecutive (Nat.zero_le _), Nat.zero_add]

theorem dispatch_flush (hready : Ready [] s) (h : FlushCore s) (hsent : s.SentOn) :
    FlushInv s.dispatch := by
  have hsub : ∀ stop ∈ s.lane.pruneFlushes.flushes, stop ∈ s.lane.flushes := fun stop hstop =>
    (List.dropWhile_sublist _).subset hstop
  have hpruned : Ready [] { s with lane := s.lane.pruneFlushes } := hready.congr rfl
  have hcore : FlushCore { s with lane := s.lane.pruneFlushes } :=
    ⟨h.heldBytes, fun stop hstop => h.bound stop (hsub stop hstop)⟩
  have hsent' : SentOn { s with lane := s.lane.pruneFlushes } := fun stop hstop =>
    hsent stop (hsub stop hstop)
  unfold dispatch
  by_cases hfree : s.lane.pruneFlushes.flushes.length < maxOutstandingFlushes
  · simp only [if_pos hfree]
    cases hheld : s.lane.pruneFlushes.held with
    | cons first rest =>
      refine stage_flush (hpruned.take (hheld.trans (List.append_nil _).symm) 0) ⟨rfl, hcore.bound⟩
        hsent' true (fun _ => rfl) nofun
    | nil =>
      by_cases hflush : s.lane.pruneFlushes.flushedThrough < s.lane.pruneFlushes.sentEnd
      · simp only [if_pos hflush]
        have hstop := sentEnd_eq hpruned.core
        exact ⟨⟨hcore.heldBytes, hcore.bound⟩, hsent', hheld, hstop⟩
      · simp only [if_neg hflush]
        -- the last flush covers everything sent
        refine dispatched_flush hcore hsent' fun hwork => ?_
        have hretained := hwork.resolve_left (not_not_intro hheld)
        rw [ne_eq, retained_eq_nil hpruned.core, ← sentEnd_eq hpruned.core, not_le] at hretained
        unfold LaneRuntime.flushedThrough at hflush
        cases hlast : s.lane.pruneFlushes.flushes.getLast? with
        | none =>
          rw [hlast, Option.getD_none] at hflush
          exact absurd hretained hflush
        | some stop =>
          rw [hlast, Option.getD_some] at hflush
          exact ⟨stop, List.mem_of_getLast? hlast, hretained.trans_le (not_lt.1 hflush)⟩
  · simp only [if_neg hfree]
    refine unflushedRound_flush hpruned hcore hsent' fun _ => ?_
    -- both slots are taken, and the front of the queue was pruned
    cases hflushes : s.lane.pruneFlushes.flushes with
    | nil =>
      rw [hflushes] at hfree
      exact absurd (by decide) hfree
    | cons stop stops =>
      have hhead := List.head?_dropWhile_not (· ≤ s.lane.durable) s.lane.flushes
      have hflushes' : s.lane.flushes.dropWhile (· ≤ s.lane.durable) = stop :: stops := hflushes
      rw [hflushes'] at hhead
      simp only [List.head?_cons, decide_eq_false_iff_not, not_le] at hhead
      refine ⟨stop, ?_, hhead⟩
      rw [hflushes]
      exact List.mem_cons_self

theorem returnTo_flush (hready : Ready [] s) (h : FlushCore s) (hsent : s.SentOn)
    (hcovered : next ≠ .dispatch → s.HasWork → s.lane.Covered) : FlushInv (s.returnTo next) := by
  cases next with
  | dispatch => exact dispatch_flush (hready.congr rfl) ⟨h.heldBytes, h.bound⟩ hsent
  | dispatched => exact dispatched_flush h hsent (hcovered nofun)
  | unflushed => exact unflushedRound_flush hready h hsent (hcovered nofun)

/-- A recovery that finds everything durable leaves no work behind. -/
theorem returnTo_flush_durable (hready : Ready [] s) (h : FlushCore s) (hpausing : s.Pausing next)
    (hall : (batchBytes s.staged).length ≤ s.lane.durable) : FlushInv (s.returnTo next) := by
  refine returnTo_flush hready h (h.sentOn hall) fun hnext hwork => ?_
  have hheld : s.lane.held ≠ [] :=
    hwork.resolve_right (not_not_intro ((retained_eq_nil hready.core).2 hall))
  cases next with
  | dispatch => exact absurd rfl hnext
  | dispatched => exact absurd hpausing hheld
  | unflushed => exact absurd (hpausing hheld) (not_lt.2 hall)

theorem FlushCore.stream (h : FlushCore s) (st : AppendStream) :
    FlushCore { s with stream := st } := ⟨h.heldBytes, h.bound⟩

theorem Pausing.stream (h : s.Pausing next) (st : AppendStream) :
    Pausing { s with stream := st } next := by
  cases next <;> exact h

theorem FlushCore.publish (h : FlushCore s) (tail : Nat) :
    FlushCore { s with lane := s.lane.publishLaneProgress tail } := ⟨h.heldBytes, h.bound⟩

theorem SentOn.publish (h : s.SentOn) (tail : Nat) :
    SentOn { s with lane := s.lane.publishLaneProgress tail } := fun stop hstop hlt =>
  h stop hstop ((le_max_left _ _).trans_lt hlt)

/-- The answers that `LeavesUnflushed` admits keep the lane in the loop. -/
theorem Pausing.publish (h : s.Pausing next)
    (htail : next = .unflushed → s.lane.held ≠ [] → tail < (batchBytes s.staged).length) :
    Pausing { s with lane := s.lane.publishLaneProgress tail } next := by
  cases next with
  | dispatch => trivial
  | dispatched => exact h
  | unflushed => exact fun hheld => max_lt (h hheld) (htail rfl hheld)

theorem die_flush (h : FlushCore s) (death : LaneDeath) : FlushInv (s.die death) :=
  ⟨⟨h.heldBytes, h.bound⟩, trivial⟩

theorem failAttempt_flush (h : FlushCore s) (hpausing : s.Pausing next) (error : TransportError) :
    FlushInv (s.failAttempt next error) := by
  unfold failAttempt
  by_cases htransient : error.code.transient = true
  · rw [if_pos htransient]
    exact ⟨⟨h.heldBytes, h.bound⟩, hpausing⟩
  · rw [if_neg htransient]
    exact die_flush h _

/-- The end of a call of a recovery, or of an unflushed write, whose deadline has passed. -/
theorem confirm_attempt_flush (hbroken : Broken s) (h : FlushCore s) (hpausing : s.Pausing next)
    {observed : LaneProgress} (hle : ∀ tail ∈ observed.tail?, tail ≤ s.stream.object.length)
    (htail : ∀ tail ∈ observed.tail?, next = .unflushed → s.lane.held ≠ [] →
      tail < (batchBytes s.staged).length) :
    FlushInv (s.confirm observed (finishAttempt next)) := by
  refine confirm_rule observed _ (die_flush h)
    (fun tail death _ => die_flush (h.publish tail) death)
    (fun tail failed ht hretained => ?_)
  have hpublished := hbroken.publish tail (hle tail ht)
  have hpausing' := hpausing.publish (htail tail ht)
  unfold finishAttempt
  cases failed with
  | true =>
    rw [if_pos rfl]
    exact ⟨⟨h.heldBytes, h.bound⟩, hpausing'⟩
  | false =>
    rw [if_neg Bool.false_ne_true]
    exact returnTo_flush_durable (hpublished.ready (hretained rfl)) (h.publish tail) hpausing'
      ((retained_eq_nil hpublished.core).1 (hretained rfl))

/-- A resumed session is sent a flush for everything that is not durable. -/
theorem resend_flush (hresumed : Resumed s) (h : FlushCore s) (hpausing : s.Pausing next) :
    FlushInv (s.resend next) := by
  have hcore := hresumed.broken.core
  have hsuffix := LaneRuntime.flatten_suffix hcore.log.staged_consecutive hcore.retained
  unfold resend
  by_cases hnil : s.lane.suffix = []
  · rw [hnil, List.flatten_nil] at hsuffix
    have hall := List.drop_eq_nil_iff.1 hsuffix.symm
    have hready := hresumed.broken.ready ((retained_eq_nil hcore).2 hall)
    rw [if_pos hnil]
    exact returnTo_flush_durable (hready.congr rfl) ⟨h.heldBytes, nofun⟩
      (by cases next <;> exact hpausing) hall
  · have hretained : s.lane.retained ≠ [] := by
      intro hempty
      refine hnil ?_
      rw [LaneRuntime.suffix, hempty]
      rfl
    rw [ne_eq, retained_eq_nil hcore, not_le] at hretained
    have hlen := (packAppend_carries s.lane.suffix).len
    rw [hsuffix, List.length_drop] at hlen
    rw [if_neg hnil]
    refine ⟨⟨h.heldBytes, h.bound⟩, ?_, ?_, ?_⟩
    · cases next <;> exact hpausing
    · show 0 < (packAppend s.lane.suffix).len
      omega
    · show s.lane.durable + (packAppend s.lane.suffix).len = (batchBytes s.staged).length
      omega

theorem resumeAt_flush (hbroken : Broken s) (h : FlushCore s) (hpausing : s.Pausing next)
    (htail : next = .unflushed → s.lane.held ≠ [] →
      s.stream.object.length < (batchBytes s.staged).length) : FlushInv (s.resumeAt next) := by
  refine resend_flush hbroken.resumed ⟨h.heldBytes, h.bound⟩ ?_
  have hpausing' := hpausing.publish htail
  cases next <;> exact hpausing'

theorem finishSend_none (next : LaneReturn) : finishSend none next = finishAttempt next := by
  funext s failed
  simp [finishSend, finishAttempt]

theorem flushed_flush (hinv : LaneInv s) (hover : s.point.isOver = false)
    (hsettled : s.point.settled = true) (h : FlushCore s) (hsent : s.SentOn)
    (hheld : s.lane.held = []) {stop : Nat} (hstop : stop = (batchBytes s.staged).length)
    {outcome : SendOutcome} (hs' : s.sendDone (some stop) .dispatched outcome = some s') :
    FlushInv s' := by
  have hbound : ∀ x ∈ s.lane.flushes ++ (some stop).toList, x ≤ (batchBytes s.staged).length := by
    intro x hx
    rcases List.mem_append.1 hx with hx | hx
    · exact h.bound x hx
    · obtain rfl : x = stop := by simpa using hx
      exact hstop.le
  cases outcome with
  | ok =>
    obtain ⟨hpending, hs'⟩ := Option.ite_none_right_eq_some.1 hs'
    cases hs'
    have hready := (hinv.ready hover hsettled hpending).flush (some stop).toList
    refine dispatched_flush ⟨h.heldBytes, hbound⟩ (fun x hx hlt => ?_) fun hwork => ?_
    · rcases List.mem_append.1 hx with hx | hx
      · exact List.mem_append_left _ (hsent x hx hlt)
      · exact List.mem_append_right _ hx
    · have hretained := hwork.resolve_left (not_not_intro hheld)
      have hlt : ¬ s.lane.retained = [] := hretained
      rw [retained_eq_nil (hinv.core hover), not_le] at hlt
      exact ⟨stop, List.mem_append_right _ (by simp), hstop ▸ hlt⟩
  | failed error =>
    cases hs'
    exact ⟨⟨h.heldBytes, hbound⟩, hheld⟩
  | timedOut observed =>
    obtain ⟨hobserved, hs'⟩ := Option.ite_none_right_eq_some.1 hs'
    cases hs'
    have hcut := hinv.cut hover
    have hcore := h.stream s.stream.cut
    refine confirm_rule observed _ (die_flush hcore)
      (fun tail death _ => die_flush (hcore.publish tail) death)
        (fun tail failed ht hretained => ?_)
    have hpublished := hcut.publish tail (tail_le hobserved ht)
    unfold finishSend
    cases failed with
    | true =>
      rw [if_pos rfl]
      exact ⟨⟨h.heldBytes, hbound⟩, hheld⟩
    | false =>
      rw [if_neg Bool.false_ne_true]
      refine returnTo_flush_durable ?_ ⟨h.heldBytes, hbound⟩ hheld
        ((retained_eq_nil hpublished.core).1 (hretained rfl))
      exact (hpublished.ready (hretained rfl)).congr rfl

theorem unflushed_flush (hinv : LaneInv s) (hover : s.point.isOver = false)
    (hsettled : s.point.settled = true) (h : FlushCore s) (hsent : s.SentOn)
    (hcovered : s.lane.Covered) (hpausing : s.Pausing .unflushed) {outcome : SendOutcome}
    (htail : ∀ tail ∈ s.reported (.sent outcome), s.lane.held ≠ [] →
      tail < (batchBytes s.staged).length)
    (hs' : s.sendDone none .unflushed outcome = some s') : FlushInv s' := by
  cases outcome with
  | ok =>
    obtain ⟨hpending, hs'⟩ := Option.ite_none_right_eq_some.1 hs'
    cases hs'
    have hready := (hinv.ready hover hsettled hpending).flush []
    rw [finishSend_none]
    refine unflushedRound_flush hready ⟨h.heldBytes, h.bound⟩ (fun x hx hlt => ?_) fun _ => hcovered
    exact List.mem_append_left _ (hsent x hx hlt)
  | failed error =>
    cases hs'
    rw [finishSend_none]
    exact ⟨⟨h.heldBytes, h.bound⟩, hpausing⟩
  | timedOut observed =>
    obtain ⟨hobserved, hs'⟩ := Option.ite_none_right_eq_some.1 hs'
    cases hs'
    rw [finishSend_none]
    exact confirm_attempt_flush (hinv.cut hover) (h.stream _) (hpausing.stream _)
      (fun _ => tail_le hobserved) fun tail ht _ => htail tail ht

theorem resent_flush (hinv : LaneInv s) (hover : s.point.isOver = false)
    (hsettled : s.point.settled = true) (h : FlushCore s) (hpausing : s.Pausing next) {bytes : Nat}
    (hpos : 0 < bytes) (hbytes : s.lane.durable + bytes = (batchBytes s.staged).length)
    {outcome : SendOutcome}
    (htail : ∀ tail ∈ s.reported (.sent outcome), next = .unflushed → s.lane.held ≠ [] →
      tail < (batchBytes s.staged).length)
    (hs' : s.resendDone next bytes outcome = some s') : FlushInv s' := by
  cases outcome with
  | ok =>
    obtain ⟨hpending, hs'⟩ := Option.ite_none_right_eq_some.1 hs'
    cases hs'
    have hready := (hinv.ready hover hsettled hpending).flush [s.lane.durable + bytes]
    refine returnTo_flush (hready.congr rfl) ⟨h.heldBytes, fun stop hstop => ?_⟩
      (fun stop hstop _ => List.mem_append_right _ hstop) fun _ _ => ?_
    · obtain rfl := List.mem_singleton.1 hstop
      exact hbytes.le
    · exact ⟨s.lane.durable + bytes, List.mem_singleton_self _, Nat.lt_add_of_pos_right hpos⟩
  | failed error =>
    cases hs'
    exact failAttempt_flush (h.stream _) (hpausing.stream _) error
  | timedOut observed =>
    obtain ⟨hobserved, hs'⟩ := Option.ite_none_right_eq_some.1 hs'
    cases hs'
    exact confirm_attempt_flush (hinv.cut hover) (h.stream _) (hpausing.stream _)
      (fun _ => tail_le hobserved) htail

theorem resumed_flush (hinv : LaneInv s) (hover : s.point.isOver = false)
    (hsends : s.point.sends = false) (h : FlushCore s) (hpausing : s.Pausing next)
    {outcome : ResumeOutcome}
    (htail : ∀ tail ∈ s.reported (.resumed outcome), next = .unflushed → s.lane.held ≠ [] →
      tail < (batchBytes s.staged).length)
    (hs' : s.resumeDone next outcome = some s') : FlushInv s' := by
  have hbroken := hinv.broken hover hsends
  cases outcome with
  | ok =>
    cases hs'
    exact resumeAt_flush hbroken h hpausing (htail _ rfl)
  | failed error revoked =>
    cases hs'
    exact failAttempt_flush (h.stream _) (hpausing.stream _) error
  | timedOut observed revoked =>
    obtain ⟨hobserved, hs'⟩ := Option.ite_none_right_eq_some.1 hs'
    cases hs'
    exact confirm_attempt_flush (hbroken.lapse revoked) (h.stream _) (hpausing.stream _)
      (fun _ => tail_le hobserved) htail

theorem progressArm_flush (hready : Ready [] s) (h : FlushCore s) (hsent : s.SentOn)
    (hcovered : s.HasWork → s.lane.Covered) {observed : LaneProgress}
    (hobserved : s.observable observed = true) : FlushInv (s.progressArm observed) := by
  refine progressArm_rule observed (die_flush h)
    (loopTop_flush ⟨h.heldBytes, h.bound⟩ hsent hcovered) ⟨⟨h.heldBytes, h.bound⟩, trivial⟩
    fun tail htail => ?_
  have hpublished := Broken.publish ⟨hready.core, hready.idle⟩ tail (tail_le hobserved htail)
  have hready' : Ready [] { s with lane := s.lane.publishLaneProgress tail } :=
    ⟨hpublished.core, hready.settled, hready.idle⟩
  have hcore := h.publish tail
  exact ⟨die_flush hcore, ⟨⟨hcore.heldBytes, hcore.bound⟩, trivial⟩,
    returnTo_flush hready' hcore (hsent.publish _) fun hnext => absurd rfl hnext⟩

theorem FlushInv.move (hinv : LaneInv s) (h : FlushInv s) {e : LaneEvent}
    (hok : s.LeavesUnflushed e) (hmove : LaneMove s e s') : FlushInv s' := by
  obtain ⟨hcore, hat⟩ := h
  -- the condition, in terms of what was staged
  have htail : s.point.writesUnflushed = true → s.point.isOver = false →
      ∀ tail ∈ s.reported e, s.lane.held ≠ [] → tail < (batchBytes s.staged).length := by
    intro hwrites hover tail ht hheld
    rw [← sentEnd_eq (hinv.core hover)]
    exact hok hwrites hheld tail ht
  cases hmove with
  | progress hpoint henabled =>
    have hready := hinv.ready (by rw [hpoint]; rfl) (by rw [hpoint]; rfl)
      (hinv.idle (by rw [hpoint]; rfl))
    rw [hpoint] at hat
    simp only [progressEnabled, Bool.and_eq_true] at henabled
    exact progressArm_flush hready hcore hat.1 hat.2 henabled.1.2
  | receive hpoint =>
    have hready := hinv.ready (by rw [hpoint]; rfl) (by rw [hpoint]; rfl)
      (hinv.idle (by rw [hpoint]; rfl))
    rw [hpoint] at hat
    refine dispatch_flush (LaneInv.receive hready) ?_ ?_
    · rw [LaneRuntime.foldl_hold]
      refine ⟨?_, hcore.bound⟩
      show s.lane.heldBytes + _ = (batchBytes (s.lane.held ++ s.work)).length
      rw [hcore.heldBytes, batchBytes_append, List.length_append]
    · rw [LaneRuntime.foldl_hold]
      exact hat.1
  | disconnected hpoint =>
    rw [hpoint] at hat
    exact loopTop_flush ⟨hcore.heldBytes, hcore.bound⟩ hat.1 hat.2
  | flushed hpoint hs' =>
    rcases hpoint with hpoint | hpoint
    · rw [hpoint] at hat
      exact flushed_flush hinv (by rw [hpoint]; rfl)
        (by rw [hpoint]; rfl) hcore hat.1 hat.2.1 hat.2.2 hs'
    · rw [hpoint] at hat
      exact flushed_flush hinv (by rw [hpoint]; rfl)
        (by rw [hpoint]; rfl) hcore hat.1 hat.2.1 hat.2.2 hs'
  | unflushed hpoint hs' =>
    rw [hpoint] at hat
    exact unflushed_flush hinv (by rw [hpoint]; rfl)
      (by rw [hpoint]; rfl) hcore hat.1 hat.2.1 hat.2.2
      (htail (by rw [hpoint]; rfl) (by rw [hpoint]; rfl)) hs'
  | resumed hpoint hs' =>
    rw [hpoint] at hat
    refine resumed_flush hinv (by rw [hpoint]; rfl) (by rw [hpoint]; rfl) hcore hat
      (fun tail ht hnext => ?_) hs'
    subst hnext
    exact htail (by rw [hpoint]; rfl) (by rw [hpoint]; rfl) tail ht
  | resent hpoint hs' =>
    rw [hpoint] at hat
    refine resent_flush hinv (by rw [hpoint]; rfl) (by rw [hpoint]; rfl) hcore hat.1 hat.2.1 hat.2.2
      (fun tail ht hnext => ?_) hs'
    subst hnext
    exact htail (by rw [hpoint]; rfl) (by rw [hpoint]; rfl) tail ht
  | slept hpoint =>
    rw [hpoint] at hat
    exact ⟨⟨hcore.heldBytes, hcore.bound⟩, hat⟩
  | sleepTimedOut hpoint hobserved =>
    rw [hpoint] at hat
    refine confirm_attempt_flush (hinv.broken (by rw [hpoint]; rfl) (by rw [hpoint]; rfl)) hcore hat
      (fun _ => tail_le hobserved) fun tail ht hnext => ?_
    subst hnext
    exact htail (by rw [hpoint]; rfl) (by rw [hpoint]; rfl) tail ht
  | abort => exact ⟨⟨hcore.heldBytes, hcore.bound⟩, trivial⟩

/-- What happens around the lane does not concern its flushes. -/
theorem FlushInv.environment (h : FlushInv s) {e : LaneEvent} (hs' : s.environment e = some s') :
    FlushInv s' := by
  cases e with
  | admitWindow records lanes =>
    obtain ⟨hwindow, hs'⟩ := Option.dite_none_right_eq_some.1 hs'
    cases hs'
    exact h.congr rfl rfl rfl rfl
  | dropSender =>
    cases hs'
    exact h.congr rfl rfl rfl rfl
  | otherPacks index count =>
    simp only [LaneSystem.environment] at hs'
    split at hs' <;> cases hs'
    exact h.congr rfl rfl rfl rfl
  | otherStages index =>
    obtain ⟨batch, -, rfl⟩ := Option.map_eq_some_iff.1 hs'
    exact h.congr rfl rfl rfl rfl
  | take count | persist count =>
    obtain ⟨-, hs'⟩ := Option.ite_none_right_eq_some.1 hs'
    cases hs'
    exact h.congr rfl rfl rfl rfl
  | _ => cases hs'

theorem FlushInv.step (hinv : LaneInv s) (h : FlushInv s) {e : LaneEvent}
    (hok : s.LeavesUnflushed e) (hs' : s.step e = some s') : FlushInv s' := by
  unfold LaneSystem.step at hs'
  split at hs'
  case h_1 henv =>
    cases hs'
    exact h.environment henv
  case h_2 => exact h.move hinv hok (laneMove_of_laneStep hs')

theorem FlushInv.init : FlushInv LaneSystem.init :=
  ⟨⟨rfl, nofun⟩, nofun, fun hwork => hwork.elim (absurd rfl) (absurd rfl)⟩

end LaneSystem

open LaneSystem

theorem flushInv_of_reaches {s : LaneSystem}
    (h : Reaches LaneSystem.step LeavesUnflushed LaneSystem.init s) : LaneInv s ∧ FlushInv s :=
  h.invariant (I := fun s => LaneInv s ∧ FlushInv s) ⟨LaneInv.init, FlushInv.init⟩
    fun _ _ _ hs hok ha => ⟨hs.1.step ha, hs.2.step hs.1 hok ha⟩

/-- A lane that is back at its `select!` with held batches, or with retained ones that are not
durable, has sent a flush past the durable offset on its current session, unless an unflushed write
ended with everything sent durable and batches still held. -/
theorem lane_never_strands {s : LaneSystem}
    (h : Reaches LaneSystem.step LeavesUnflushed LaneSystem.init s) (hpoint : s.point = .select)
    (hwork : s.lane.held ≠ [] ∨ s.lane.retained ≠ []) :
    ∃ stop ∈ s.lane.flushes, stop ∈ s.stream.flushed ∧ s.lane.durable < stop := by
  have hat := (flushInv_of_reaches h).2.at_point
  rw [hpoint] at hat
  obtain ⟨stop, hstop, hlt⟩ := hat.2 hwork
  exact ⟨stop, hstop, hat.1 stop hstop hlt, hlt⟩

namespace LaneExample

/-- Two flushed groups are outstanding. -/
def twoFlushes : List LaneEvent :=
  [.admitWindow [⟨[1]⟩] 3, .receive, .take 5, .sent .ok, .admitWindow [⟨[2]⟩] 3, .receive,
    .take 5, .sent .ok]

end LaneExample

open LaneExample in
theorem lane_never_strands_flushed : ∃ s,
    Reaches LaneSystem.step LeavesUnflushed LaneSystem.init s ∧ s.point = .select ∧
    s.lane.retained ≠ [] ∧
    ∃ stop ∈ s.lane.flushes, stop ∈ s.stream.flushed ∧ s.lane.durable < stop := by
  have hrun : (runChecked LaneSystem.step (fun s e => decide (s.LeavesUnflushed e)) LaneSystem.init
      twoFlushes).any (fun s => decide (s.point = .select) && !s.lane.retained.isEmpty) = true := by
    decide +kernel
  obtain ⟨s, hreach, hfacts⟩ := exists_reaches (fun _ _ h => of_decide_eq_true h) hrun
  simp only [Bool.and_eq_true, decide_eq_true_eq, Bool.not_eq_true',
    List.isEmpty_eq_false_iff] at hfacts
  exact ⟨s, hreach, hfacts.1, hfacts.2, lane_never_strands hreach hfacts.1 (.inr hfacts.2)⟩

section Stranding

variable {s s' : LaneSystem}

theorem step_of_environment {e : LaneEvent} (h : s.environment e = some s') :
    s.step e = some s' := by
  rw [LaneSystem.step, h]

theorem step_of_laneStep {e : LaneEvent} (henv : s.environment e = none)
    (h : s.laneStep e = some s') : s.step e = some s' := by
  rw [LaneSystem.step, henv, h]

/-- An unflushed write that fails after the service has persisted all of it. -/
theorem strands_after_unflushed (hinv : LaneInv s) {stop : Nat}
    (hpoint : s.point = .sending false stop) (hclosed : s.closed = false) (hheld : s.lane.held ≠ [])
    (hbytes : s.lane.heldBytes < laneUnflushedSendBytes) :
    ∃ s', Reaches LaneSystem.step (fun _ _ => True) s s' ∧ s'.point = .select ∧
      s'.lane.held ≠ [] ∧ s'.lane.retained = [] ∧ s'.lane.flushes = [] ∧
      s'.stream.flushed = [] := by
  -- the session takes the whole send and the service persists it
  obtain ⟨s₁, hs₁⟩ :
    ∃ s₁, s₁ = { s with stream := s.stream.take s.stream.pending.length } := ⟨_, rfl⟩
  obtain ⟨s₂, hs₂⟩ : ∃ s₂, s₂ = { s₁ with stream := s₁.stream.persist s₁.stream.queued.length } :=
    ⟨_, rfl⟩
  have htake : s.step (.take s.stream.pending.length) = some s₁ := by
    rw [hs₁]
    exact step_of_environment (if_pos le_rfl)
  have hpersist : s₁.step (.persist s₁.stream.queued.length) = some s₂ := by
    rw [hs₂]
    exact step_of_environment (if_pos le_rfl)
  have hinv₂ := (hinv.step htake).step hpersist
  have hpoint₂ : s₂.point = .sending false stop := by rw [hs₂, hs₁]; exact hpoint
  have hobject : s₂.stream.object = batchBytes s₂.staged := by
    have hwire := hinv₂.settled (by rw [hpoint₂]; rfl)
    have hpending : s₂.stream.pending = [] := by
      rw [hs₂, hs₁]
      exact List.drop_length
    have hqueued : s₂.stream.queued = [] := by
      rw [hs₂]
      exact List.drop_length
    rwa [AppendStream.wire, hpending, hqueued, List.append_nil, List.append_nil] at hwire
  -- the call fails, and the session is resumed
  obtain ⟨s₃, hs₃⟩ :
    ∃ s₃, s₃ = finishSend none .unflushed { s₂ with stream := s₂.stream.cut } true :=
    ⟨_, rfl⟩
  have hfail : s₂.step (.sent (.failed ⟨0, .unavailable⟩)) = some s₃ := by
    refine step_of_laneStep rfl ?_
    simp only [laneStep, hpoint₂]
    rw [hs₃]
    rfl
  have hpoint₃ : s₃.point = .resuming .unflushed := by rw [hs₃]; rfl
  have hresume : s₃.step (.resumed .ok) = some (s₃.resumeAt .unflushed) := by
    refine step_of_laneStep rfl ?_
    simp only [laneStep, hpoint₃]
    rfl
  have hinv₃ := hinv₂.step hfail
  have hresumed := (hinv₃.broken (by rw [hpoint₃]; rfl) (by rw [hpoint₃]; rfl)).resumed
  have hretained := (retained_eq_nil hresumed.broken.core).2 (by
    rw [hresumed.durable_eq]
    show (batchBytes s₃.staged).length ≤ s₃.stream.object.length
    rw [hs₃]
    exact (congrArg List.length hobject).ge)
  have hend : s₃.resumeAt .unflushed = dispatched { s₃ with
      stream := s₃.stream.resume
      lane := { s₃.lane.publishLaneProgress s₃.stream.object.length with flushes := [] } } := by
    have hsuffix : (s₃.lane.publishLaneProgress s₃.stream.object.length).suffix = [] := by
      rw [LaneRuntime.suffix, hretained]
      rfl
    have hbytes₃ : ¬ laneUnflushedSendBytes ≤ s₃.lane.heldBytes := by
      rw [hs₃, hs₂, hs₁]
      exact not_le.2 hbytes
    refine (if_pos hsuffix).trans ?_
    exact if_neg hbytes₃
  have hclosed₃ : s₃.closed = false := by rw [hs₃, hs₂, hs₁]; exact hclosed
  refine ⟨s₃.resumeAt .unflushed, ((((Reaches.refl.tail trivial htake).tail trivial hpersist).tail
    trivial hfail).tail trivial hresume), ?_⟩
  rw [hend]
  refine ⟨?_, ?_, hretained, rfl, rfl⟩
  · unfold dispatched loopTop
    simp only [hclosed₃, Bool.false_and, Bool.false_eq_true, if_false]
  · show s₃.lane.held ≠ []
    rw [hs₃, hs₂, hs₁]
    exact hheld

theorem size_ofRecords_singleton (start : Nat) (record : RecordFrame) (h : [record] ≠ []) :
    (BatchDescriptor.ofRecords start [record] h).size = 4 + record.payload.length := by
  rw [BatchDescriptor.size_eq]
  simp [BatchDescriptor.bytes, BatchDescriptor.ofRecords, RecordFrame.chunk, RecordFrame.putU32]
  omega

theorem unflushedCount_cons {b : BatchDescriptor} (h : laneUnflushedSendBytes ≤ b.size)
    (rest : List BatchDescriptor) : LaneRuntime.unflushedCount 0 (b :: rest) = (1, b.size) := by
  have hpos : 0 < laneUnflushedSendBytes := by decide
  have hrest : LaneRuntime.unflushedCount b.size rest = (0, b.size) := by
    cases rest with
    | nil => rfl
    | cons b' rest => exact if_neg (not_lt.2 h)
  rw [LaneRuntime.unflushedCount, if_pos hpos, Nat.zero_add, hrest]

/-- With both flush slots taken, a batch above the threshold is written without a flush, and what is
behind it stays held. -/
theorem dispatch_unflushed {b : BatchDescriptor} (rest : List BatchDescriptor)
    (hfull : ¬ s.lane.pruneFlushes.flushes.length < maxOutstandingFlushes)
    (hheld : s.lane.held = b :: rest) (hbytes : s.lane.heldBytes = (batchBytes s.lane.held).length)
    (hb : laneUnflushedSendBytes ≤ b.size) :
    ∃ stop, s.dispatch.point = .sending false stop ∧ s.dispatch.closed = s.closed ∧
      s.dispatch.lane.held = rest ∧ s.dispatch.lane.heldBytes = (batchBytes rest).length := by
  have hsize : s.lane.heldBytes = b.size + (batchBytes rest).length := by
    rw [hbytes, hheld, batchBytes_cons, List.length_append, b.size_eq]
  have hcount : LaneRuntime.unflushedCount 0 s.lane.pruneFlushes.held = (1, b.size) := by
    show LaneRuntime.unflushedCount 0 s.lane.held = _
    rw [hheld]
    exact unflushedCount_cons hb rest
  have hdispatch : s.dispatch = stage { s with lane := { s.lane.pruneFlushes with
      held := rest, heldBytes := s.lane.heldBytes - b.size } } b [] false := by
    unfold dispatch unflushedRound
    simp only [if_neg hfull, hcount]
    have hheld' : s.lane.pruneFlushes.held = b :: rest := hheld
    have hbytes' : laneUnflushedSendBytes ≤ s.lane.pruneFlushes.heldBytes := by
      show laneUnflushedSendBytes ≤ s.lane.heldBytes
      omega
    rw [if_pos hbytes', hheld']
    rfl
  rw [hdispatch]
  refine ⟨_, rfl, rfl, rfl, ?_⟩
  show s.lane.heldBytes - b.size = _
  omega

end Stranding

namespace LaneExample

def large : RecordFrame := ⟨List.replicate laneUnflushedSendBytes 0⟩

def small : RecordFrame := ⟨[7]⟩

end LaneExample

open LaneExample in
/-- Two flushes are outstanding when a large and a small window arrive. The large one is written
without a flush, the call fails although the service has everything, and the recovery finds nothing
to send: the small window stays held, and no flush will ever complete. -/
theorem lane_strands_held : ∃ s,
    Reaches LaneSystem.step (fun _ _ => True) LaneSystem.init s ∧ s.point = .select ∧
    s.lane.held ≠ [] ∧ s.lane.retained = [] ∧ s.lane.flushes = [] ∧ s.stream.flushed = [] := by
  have hrun : (runChecked LaneSystem.step (fun _ _ => true) LaneSystem.init twoFlushes).any
      (fun s => decide (s.point = .select) && !s.closed && !s.senderDropped && s.work.isEmpty &&
        s.lane.held.isEmpty && decide (s.lane.heldBytes = 0) && decide (s.lane.durable = 0) &&
        decide (s.lane.flushes = [5, 10])) = true := by
    decide +kernel
  obtain ⟨s, hreach, hfacts⟩ := exists_reaches (fun _ _ _ => trivial) hrun
  simp only [Bool.and_eq_true, decide_eq_true_eq, Bool.not_eq_true', List.isEmpty_iff] at hfacts
  obtain ⟨⟨⟨⟨⟨⟨⟨hpoint, hclosed⟩, hsender⟩, hwork⟩, hheld⟩, hbytes⟩, hdurable⟩, hflushes⟩ := hfacts
  obtain ⟨b₁, hb₁⟩ : ∃ b, b = BatchDescriptor.ofRecords s.bytes.length [large] (by simp) := ⟨_, rfl⟩
  obtain ⟨s₁, hs₁⟩ : ∃ s₁, s₁ = s.admitWindow b₁ 3 := ⟨_, rfl⟩
  obtain ⟨b₂, hb₂⟩ : ∃ b, b = BatchDescriptor.ofRecords s₁.bytes.length [small]
    (by simp) := ⟨_, rfl⟩
  obtain ⟨s₂, hs₂⟩ : ∃ s₂, s₂ = s₁.admitWindow b₂ 3 := ⟨_, rfl⟩
  have hwindow₁ : s.step (.admitWindow [large] 3) = some s₁ := by
    rw [hs₁, hb₁]
    exact step_of_environment (dif_pos ⟨by simp, hsender⟩)
  have hwindow₂ : s₁.step (.admitWindow [small] 3) = some s₂ := by
    rw [hs₂, hb₂]
    exact step_of_environment (dif_pos ⟨by simp, by rw [hs₁]; exact hsender⟩)
  have hpoint₁ : s₁.point = .select := by rw [hs₁]; exact hpoint
  have hpoint₂ : s₂.point = .select := by rw [hs₂]; exact hpoint₁
  have hclosed₂ : s₂.closed = false := by rw [hs₂, hs₁]; exact hclosed
  have hlane₂ : s₂.lane = s.lane := by rw [hs₂, hs₁]; rfl
  have hwork₂ : s₂.work = [b₁, b₂] := by
    have hwork₁ : s₁.work = [b₁] := by
      rw [hs₁, admitWindow, hpoint, hwork]
      rfl
    rw [hs₂, admitWindow, hpoint₁, hwork₁]
    rfl
  have hreceive : s₂.step .receive =
      some (dispatch { s₂ with lane := s₂.work.foldl LaneRuntime.hold s₂.lane, work := [] }) := by
    refine step_of_laneStep rfl ?_
    simp only [laneStep, hpoint₂]
    exact if_pos ⟨hclosed₂, by rw [hwork₂]; exact List.cons_ne_nil _ _⟩
  have hreach₃ := ((hreach.tail trivial hwindow₁).tail trivial hwindow₂).tail trivial hreceive
  rw [LaneRuntime.foldl_hold, hlane₂, hwork₂] at hreach₃
  have hsize₁ : b₁.size = 4 + laneUnflushedSendBytes := by
    rw [hb₁, size_ofRecords_singleton]
    exact congrArg (4 + ·) List.length_replicate
  have hsize₂ : b₂.bytes.length = 5 := by
    rw [← b₂.size_eq, hb₂, size_ofRecords_singleton]
    rfl
  -- the large window goes out without a flush
  obtain ⟨stop, hpoint₃, hclosed₃, hheld₃, hbytes₃⟩ := dispatch_unflushed
    (s := { s₂ with lane := { s.lane with held := s.lane.held ++ [b₁, b₂]
                                          heldBytes :=
                                            s.lane.heldBytes + (batchBytes [b₁, b₂]).length }
                    work := [] })
    (b := b₁) [b₂]
    (by
      show ¬ (s.lane.flushes.dropWhile (· ≤ s.lane.durable)).length < maxOutstandingFlushes
      rw [hflushes, hdurable]
      decide)
    (by rw [hheld]; rfl) (by rw [hheld, hbytes]; exact Nat.zero_add _) (by omega)
  obtain ⟨s', hreach', hstranded⟩ := strands_after_unflushed (laneInv_of_reaches hreach₃) hpoint₃
    (hclosed₃.trans hclosed₂) (by rw [hheld₃]; exact List.cons_ne_nil _ _) (by
      rw [hbytes₃, batchBytes_cons, batchBytes_nil, List.append_nil, hsize₂]
      decide)
  exact ⟨s', hreach₃.trans hreach', hstranded⟩

end Chorus
