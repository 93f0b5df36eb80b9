import Chorus.Engine.Proofs.CompletionProofs
import Chorus.Engine.Proofs.GaugeProofs

/-!
# Proofs: the ceiling of the active segment

What a turn of the loop and a step of its environment leave of the gauge.
-/

namespace Chorus

open RecordFrame Concurrency

variable {n : Nat} {crc : Bytes → Nat} {config : WalEngineConfig} {ceiling : Nat}
  {adopted : Adopted} {e e' : Engine n} {action : Engine.Action n}

/-- The gauge at the point the loop has reached. -/
def CeilingInv (ceiling : Nat) (adopted : Adopted) (e : Engine n) : Prop :=
  match e.phase with
  | .stopped => e.gauge.Stopped ceiling adopted
  | .reserve appends _ _ => e.gauge.Running ceiling adopted appends false
  | .send appends _ _ => e.gauge.Running ceiling adopted appends true
  | _ => e.gauge.Running ceiling adopted [] false

theorem Engine.gauge_congr (h : e'.frame = e.frame) : e'.gauge = e.gauge := by
  have hframe : ∀ e : Engine n, e.frame.gauge = e.gauge := by
    intro e
    simp only [frame, gauge, Option.map_map]
    rfl
  rw [← hframe, h, hframe]

theorem SegmentWriter.Touched.idles {writer writer' : SegmentWriter n}
    (h : writer.Touched writer') : writer.Idles writer' := by
  cases h with
  | refl => exact .refl writer
  | dropLane zone => exact idles_dropLane writer zone
  | poison => exact idles_poison writer
  | sealed => exact ⟨rfl, fun hfresh => ⟨hfresh.stream, hfresh.boundaries, hfresh.committedBytes⟩⟩

namespace CeilingInv

theorem running_iff (hphase : e.phase ≠ .stopped) : CeilingInv ceiling adopted e ↔
    e.gauge.Running ceiling adopted e.phase.inHand e.phase.sent := by
  unfold CeilingInv
  cases hp : e.phase <;> first | exact Iff.rfl | exact absurd hp hphase

theorem free_iff (hfree : e.phase.free = true) : CeilingInv ceiling adopted e ↔
    e.gauge.Running ceiling adopted [] false := by
  obtain ⟨hnone, hsent⟩ := Phase.inHand_of_free hfree
  rw [running_iff (Phase.ne_stopped hfree), hnone, hsent]

theorem bounded (h : CeilingInv ceiling adopted e) : e.gauge.Bounded ceiling adopted := by
  unfold CeilingInv at h
  split at h
  · exact h.toBounded
  · exact h.toBounded
  · exact h.toBounded
  · exact h.toBounded

/-- The environment changes the gauge in a way that every phase allows. -/
theorem lift (h : CeilingInv ceiling adopted e) (hphase : e'.phase = e.phase)
    (hrunning : ∀ inHand sent, e.gauge.Running ceiling adopted inHand sent →
      e'.gauge.Running ceiling adopted inHand sent)
    (hstopped : e.gauge.Stopped ceiling adopted → e'.gauge.Stopped ceiling adopted) :
    CeilingInv ceiling adopted e' := by
  unfold CeilingInv at h ⊢
  rw [hphase]
  split at h
  · exact hstopped h
  · exact hrunning _ _ h
  · exact hrunning _ _ h
  · exact hrunning _ _ h

/-! ## Admission -/

/-- A checked append fits into the segment that its capacity snapshot describes. -/
theorem enqueueAppend (h : CeilingInv config.maxActiveSegmentBytes adopted e) {seqno : Nat}
    {record : RecordFrame} {append : AdmittedAppend}
    (hcheck : e.checkAppend config seqno record = .ok append) :
    CeilingInv config.maxActiveSegmentBytes adopted { e with admission := some append } := by
  obtain ⟨hfits, -, -⟩ := Engine.checkAppend_eq_ok hcheck
  refine h.lift rfl (fun _ _ hrun => hrun.setAdmission fun a ha => ?_) fun hstop => { hstop with }
  cases ha
  refine ⟨hfits.admissionEnd, ?_⟩
  show e.capacity.existingBytes + (append.admissionEndBytes - e.capacity.admissionStartBytes) ≤ _
  have hboundary := hfits.boundary
  have hceiling := hfits.ceiling
  rw [hfits.admissionEnd]
  omega

theorem sendAppend (h : CeilingInv ceiling adopted e) {append : AdmittedAppend}
    (happend : e.admission = some append) : CeilingInv ceiling adopted (e.sendAppend append) := by
  unfold Engine.sendAppend
  split_ifs with hopen
  · refine h.lift rfl (fun _ _ hrun => hrun.sendAppend happend) fun hstop => ?_
    have hclosed : e.channelOpen = false := hstop.closed
    rw [hopen] at hclosed
    cases hclosed
  · exact h.lift rfl (fun _ _ hrun => hrun.setAdmission nofun) fun hstop => { hstop with }

theorem sendShutdown (h : CeilingInv ceiling adopted e) :
    CeilingInv ceiling adopted e.sendShutdown := by
  unfold Engine.sendShutdown
  split_ifs
  · refine h.lift rfl (fun inHand sent hrun => ?_) fun hstop => { hstop with }
    have hout :
        ({ e.gauge with channel := e.channel ++ [.shutdown] } : Gauge n).outstanding inHand =
        e.gauge.outstanding inHand := by
      rw [Gauge.outstanding, queuedAppends_append]
      exact congrArg _ (List.append_nil _)
    exact { hrun with chain := hout ▸ hrun.chain, fits := hout ▸ hrun.fits }
  · exact h.lift rfl (fun _ _ hrun => hrun) fun hstop => hstop

/-! ## The loop -/

theorem dispatched (h : e.gauge.Running ceiling adopted [] false) (appends : List AdmittedAppend)
    (commits : RecordCommitRange) : CeilingInv ceiling adopted (e.dispatched appends commits) := by
  unfold Engine.dispatched
  simp only
  split
  · exact h.stop rfl rfl rfl rfl
  · exact h

theorem admitWindow {appends : List AdmittedAppend}
    (h : e.gauge.Running ceiling adopted appends true) {represented : List (Fin n)}
    (hstep : e.admitWindow crc appends represented = some e') : CeilingInv ceiling adopted e' := by
  obtain ⟨segment, hadmits, rfl⟩ := Option.map_eq_some_iff.1 hstep
  obtain ⟨-, heq⟩ := Option.ite_none_right_eq_some.1 hadmits
  have hstream : segment.stream = e.active.segment.stream := by
    cases heq
    rfl
  have htracked := h.track { e.active with segment := segment } hstream
  exact dispatched htracked.dispatch _ _

theorem turn (h : CeilingInv ceiling adopted e) (hturn : e.Turn crc config action e') :
    CeilingInv ceiling adopted e' := by
  cases hturn with
  | idle htouched hfrom hto hframe hroute _ _ _ =>
    rw [free_iff hto, Engine.gauge_congr hframe]
    exact (((free_iff hfrom).1 h).reroute hroute).idle fun k => (htouched k).idles
  | ended _ hends =>
    obtain ⟨segments, htouched, hframe⟩ := hends.frame
    have hbounded := h.bounded.sameStreams fun k => (htouched k).idles.stream
    unfold CeilingInv
    rw [hends.phase]
    show e'.gauge.Stopped ceiling adopted
    rw [Engine.gauge_congr hframe]
    exact ⟨⟨hbounded.boundary, hbounded.grown, hbounded.below⟩, rfl⟩
  | inconsistent _ _ _ he =>
    subst he
    exact ⟨⟨h.bounded.boundary, h.bounded.grown, h.bounded.below⟩, rfl⟩
  | popped hfrom _ he =>
    subst he
    exact (free_iff hfrom).1 h
  | completed hfrom _ _ he =>
    subst he
    unfold CeilingInv at h ⊢
    rw [show (e.completeAppend config _ _ _ _).phase = e.phase from rfl, hfrom]
    rw [hfrom] at h
    exact h
  | swapped _ hfrom hswap he =>
    -- a swap rebases the count at the last dispatched boundary
    subst he
    exact ((free_iff hfrom).1 h).swap (Engine.beginSwap_eq_some hswap).2
  | adopted _ hfrom hto hframe =>
    rw [free_iff (congrArg Phase.free hto), Engine.gauge_congr hframe]
    exact ((free_iff hfrom).1 h).adopt _
  | opened _ hfrom _ htaken he =>
    subst he
    exact ((free_iff hfrom).1 h).reroute (congrArg (· ++ queuedAppends e.channel) htaken)
  | lane _ htouched hfrom hto hinHand hsent hframe _ =>
    rw [running_iff (Phase.ne_stopped_of_windowed hfrom)] at h
    rw [running_iff (Phase.ne_stopped_of_windowed hto), hinHand, hsent, Engine.gauge_congr hframe]
    exact h.idle fun k => (htouched k).idles
  | joined _ _ hfrom hdispatch he =>
    subst he
    simp only [CeilingInv, hfrom] at h
    obtain ⟨-, heq⟩ := Option.ite_none_right_eq_some.1 hdispatch
    cases heq
    exact h.join rfl
  | dispatched _ _ hfrom hadmits =>
    simp only [CeilingInv, hfrom] at h
    exact admitWindow h hadmits

/-! ## Runs -/

theorem segment (h : CeilingInv ceiling adopted e) {i : Nat} {action : SegmentSystem.Action n}
    {segment : SegmentSystem n} (hexternal : Engine.external action = true)
    (hstep : (e.segments i).segment.step crc action = some segment) :
    CeilingInv ceiling adopted { e with
      segments := Function.update e.segments i { e.segments i with segment := segment } } := by
  have hidle : ∀ k, (e.segments k).Idles
      (Function.update e.segments i { e.segments i with segment := segment } k) :=
    update_of_rel SegmentWriter.Idles.refl (.of_external hexternal hstep)
  refine h.lift rfl (fun _ _ hrun => hrun.idle hidle) fun hstop => ?_
  exact ⟨hstop.toBounded.sameStreams fun k => (hidle k).stream, hstop.closed⟩

theorem step (h : CeilingInv config.maxActiveSegmentBytes adopted e)
    (hstep : e.step crc config action = some e') :
    CeilingInv config.maxActiveSegmentBytes adopted e' := by
  cases action with
  | enqueueAppend seqno record =>
    obtain ⟨-, heq⟩ := Option.ite_none_right_eq_some.1 hstep
    split at heq
    · cases heq
      exact h
    · rename_i append hcheck
      cases heq
      exact h.enqueueAppend hcheck
  | sendAppend =>
    obtain ⟨append, happend, rfl⟩ := Option.map_eq_some_iff.1 hstep
    exact h.sendAppend happend
  | cancelAppend =>
    cases hstep
    exact h.lift rfl (fun _ _ hrun => hrun.setAdmission nofun) fun hstop => { hstop with }
  | shutdown =>
    obtain ⟨-, heq⟩ := Option.ite_none_right_eq_some.1 hstep
    cases heq
    exact h.sendShutdown
  | dropHandle =>
    obtain ⟨-, heq⟩ := Option.ite_none_right_eq_some.1 hstep
    cases heq
    exact h.lift rfl (fun _ _ hrun => hrun) fun hstop => hstop
  | abort =>
    cases hstep
    exact ⟨⟨h.bounded.boundary, h.bounded.grown, h.bounded.below⟩, rfl⟩
  | segment i action =>
    obtain ⟨⟨hexternal, -⟩, heq⟩ := Option.ite_none_right_eq_some.1 hstep
    obtain ⟨segment, hsegment, rfl⟩ := Option.map_eq_some_iff.1 heq
    exact h.segment hexternal hsegment
  | _ => exact h.turn (.of_step rfl hstep)

end CeilingInv

/-! ## The ceiling -/

/-- An engine around a fresh active segment and a spare starts as recovery leaves it. -/
theorem Engine.start_create (base room : Nat) (active spare : Fin n → ZoneStart)
    (recoveredFold : Option PendingSwap) :
    Engine.start base room (.create active) (some spare) recoveredFold =
      .ok (.init base room active spare recoveredFold) := by
  have hsegments :
      Function.update (Engine.init base room (fun _ => .absent) spare recoveredFold).segments 0
      (.create active) = (Engine.init base room active spare recoveredFold).segments := by
    funext i
    by_cases hi : i = 0
    · subst hi
      exact Function.update_self ..
    · rw [Function.update_of_ne hi]
      simp only [Engine.init, if_neg hi]
  unfold Engine.start
  rw [if_neg fun h => h.1 rfl]
  simp only [Option.getD_some, Option.isSome_some, if_true, hsegments]
  rfl

theorem CeilingInv.of_start (ceiling : Nat) {base room : Nat} {active : SegmentWriter n}
    {spare : Option (Fin n → ZoneStart)} {recoveredFold : Option PendingSwap}
    (h : Engine.start base room active spare recoveredFold = .ok e) :
    CeilingInv ceiling e.adopted e := by
  unfold Engine.start at h
  split at h
  · cases h
  · cases h
    refine Gauge.Running.mk ⟨le_rfl, fun _ => le_rfl, fun _ => .inl rfl⟩ rfl le_rfl
      (fun _ hmem => absurd hmem List.not_mem_nil) ?_ rfl rfl (fun i hi => ?_) ?_ fun i hi => ?_
    · intro append hnone
      cases hnone
    · change 0 < i at hi
      have hfresh : (Function.update (Engine.init base room (fun _ => .absent)
          (spare.getD fun _ => .absent) recoveredFold).segments 0 active i).Fresh := by
        rw [Function.update_of_ne (Nat.ne_of_gt hi)]
        exact SegmentWriter.fresh_create _
      exact ⟨hfresh.committedBytes, hfresh.written, hfresh⟩
    · show 0 < if spare.isSome then 2 else 1
      split_ifs
      · exact Nat.zero_lt_two
      · exact Nat.zero_lt_one
    · change Option.map _ (if spare.isSome then some _ else none) = some i at hi
      show 0 < i ∧ i < if spare.isSome then 2 else 1
      split_ifs at hi ⊢ with hspare
      · cases hi
        exact ⟨Nat.zero_lt_one, Nat.one_lt_two⟩
      · cases hi

/-- The encoded bytes of the records that were dispatched to a segment since the engine started. -/
def Engine.dispatchedBytes (e₀ e : Engine n) (i : Nat) : Nat :=
  (e.segments i).written - (e₀.segments i).written

/-- The ceiling of a segment is hard. Whatever the engine dispatched to a segment, the segment held
little enough when the engine got it: together they stay within the ceiling. And the boundary that
admission counts from never passes the admitted bytes. -/
theorem active_ceiling_hard (crc : Bytes → Nat) (config : WalEngineConfig) {base room : Nat}
    {active : SegmentWriter n} {spare : Option (Fin n → ZoneStart)}
    {recoveredFold : Option PendingSwap} {e₀ e : Engine n}
    (hstart : Engine.start base room active spare recoveredFold = .ok e₀)
    (hrun : Reaches (Engine.step crc config) (fun _ _ => True) e₀ e) :
    (∀ i, (e₀.segments i).written ≤ (e.segments i).written ∧
      (e₀.dispatchedBytes e i ≠ 0 →
        (e₀.segments i).physicalSize + e₀.dispatchedBytes e i ≤ config.maxActiveSegmentBytes)) ∧
    ∀ seqno record, e.checkAppend config seqno record ≠ .error (.internal .admissionBoundary) := by
  have hinv : CeilingInv config.maxActiveSegmentBytes e₀.adopted e :=
    hrun.invariant (.of_start _ hstart) fun _ _ _ h _ hstep => h.step hstep
  have hbounded := hinv.bounded
  refine ⟨fun i => ⟨hbounded.grown i, fun hpos => ?_⟩, fun seqno record herror => ?_⟩
  · rcases hbounded.below i with hsame | hbelow
    · exact absurd (Nat.sub_eq_zero_of_le (le_of_eq hsame)) hpos
    · exact hbelow
  · exact Engine.checkAppend_ne_boundary hbounded.boundary herror

/-- One record fills the pipeline window; two fit below the ceiling. -/
def tightCeiling : WalEngineConfig := ⟨5, 1, 11⟩

/-- Records 5 and 6 pass the checks of segment 0 and fill it up to its ceiling, but only record 5
goes there: record 6 waits in the queue until the swap and is carried over to segment 1. -/
def carriedRun : List (Engine.Action 3) :=
  [.enqueueAppend 5 ⟨[1]⟩, .sendAppend, .enqueueAppend 6 ⟨[2, 3]⟩, .sendAppend] ++ dispatchOne ++
  [.segment 0 (.persist 0 5), .segment 0 (.publishDurable 0 5),
    .segment 0 (.persist 2 5), .segment 0 (.publishDurable 2 5), .wake .commitUpdate true,
    .drain, .progress, .complete, .complete, .progress, .recheck none, .provision (.ok ()) true,
    .checkSwap, .swap] ++ dispatchOne

/-- In that run the ceiling holds for both segments. -/
theorem active_ceiling_hard_carried : ∃ e₀ e : Engine 3,
    Engine.start 5 2 (.create fun _ => .lane) (some fun _ => .lane) none = .ok e₀ ∧
    Reaches (Engine.step crc32c tightCeiling) (fun _ _ => True) e₀ e ∧
    e₀.dispatchedBytes e 0 = 5 ∧ e₀.dispatchedBytes e 1 = 6 ∧
    (e₀.segments 1).physicalSize + e₀.dispatchedBytes e 1 ≤ 11 ∧
    e.checkAppend tightCeiling 7 ⟨[4]⟩ ≠ .error (.internal .admissionBoundary) := by
  have hstart := Engine.start_create 5 2 (fun _ : Fin 3 => .lane) (fun _ => .lane) none
  have hrun : (runChecked (Engine.step crc32c tightCeiling) (fun _ _ => true)
      (Engine.init 5 2 (fun _ => .lane) (fun _ => .lane) none) carriedRun).any (fun e =>
        decide ((e.segments 0).written = 5) && decide ((e.segments 1).written = 6)) = true := by
    decide +kernel
  obtain ⟨e, hreach, hfacts⟩ := exists_reaches (fun _ _ _ => trivial) hrun
  simp only [Bool.and_eq_true, decide_eq_true_eq] at hfacts
  obtain ⟨hfirst, hsecond⟩ := hfacts
  have hone : (Engine.init 5 2 (fun _ => .lane) (fun _ => .lane) none).dispatchedBytes e 1 =
      6 := hsecond
  obtain ⟨hceiling, hboundary⟩ := active_ceiling_hard crc32c tightCeiling hstart hreach
  refine ⟨_, e, hstart, hreach, hfirst, hone, (hceiling 1).2 ?_, hboundary 7 _⟩
  rw [hone]
  exact Nat.succ_ne_zero 5

end Chorus
