import Chorus.Segment.CommitRun
import Chorus.Segment.Proofs.CommitTrackerProofs

/-!
# What a commit tracker guarantees

`Admits` ties the tracker to the list of all admitted boundaries, whatever has failed; `Resolved`
says what else holds while nothing has failed. Every mutator ends in `recompute`, which establishes
`Resolved` from `Admits`, or changes nothing that `Resolved` reads.
-/

namespace Chorus

open Concurrency Quorum

variable {n : Nat} {t : CommitTracker n} {bs : List Nat}

/-- The lanes that have reached `x` or still may. -/
def possibleLanes (t : CommitTracker n) (x : Nat) : Finset (Fin n) :=
  Finset.univ.filter fun zone => x ≤ (t.lanes zone).durable ∨
    (t.lanes zone).finished = false ∧ x ≤ (t.lanes zone).representedEnd

/-- A quorum of durable lanes puts the watermark at the offset. -/
theorem le_quorumDurableWatermark {x : Nat} (h : majority n ≤ (durableLanes t x).card) :
    x ≤ quorumDurableWatermark t.lanes (majority n) := by
  have hlen : (collect fun zone => some (t.lanes zone).durable).length = n := by
    rw [length_collect]
    simp
  have hcard : (durableLanes t x).card ≤ n := (Finset.card_le_univ _).trans (Fintype.card_fin n).le
  have hpos : 0 < majority n := by
    unfold majority
    omega
  have hsome := kthLargest_isSome (l := collect fun zone => some (t.lanes zone).durable) hpos
    (by omega)
  obtain ⟨watermark, hw⟩ := Option.isSome_iff_exists.1 hsome
  rw [quorumDurableWatermark, hw, Option.getD_some, le_kthLargest_iff hw, countP_collect]
  refine h.trans (Finset.card_le_card fun zone hzone => ?_)
  rw [mem_durableLanes] at hzone
  simpa using hzone

theorem countP_possible (t : CommitTracker n) (x : Nat) :
    ((List.finRange n).countP fun zone => x ≤ (t.lanes zone).durable ||
      (!(t.lanes zone).finished && x ≤ (t.lanes zone).representedEnd)) =
      (possibleLanes t x).card := by
  rw [List.countP_eq_length_filter,
    ← List.toFinset_card_of_nodup ((List.nodup_finRange n).filter _)]
  congr 1
  ext zone
  simp [possibleLanes]

namespace CommitTracker

/-- The tracker was given the boundaries `bs`, and those it committed are durable on a quorum. -/
structure Admits (t : CommitTracker n) (bs : List Nat) : Prop where
  admitted_eq : t.admitted = bs.length
  committed_le : t.committed ≤ bs.length
  boundaries_eq : t.boundaries = bs.drop t.committed
  durable : ∀ b ∈ bs.take t.committed, majority n ≤ (durableLanes t b).card

/-- While nothing has failed, the watermark is where the lanes put it and the oldest unresolved
boundary can still reach a quorum. -/
structure Resolved (t : CommitTracker n) : Prop where
  above : t.failure = none → ∀ b ∈ t.boundaries, quorumDurableWatermark t.lanes (majority n) < b
  possible : t.failure = none → ∀ oldest ∈ t.boundaries.head?,
    majority n ≤ (possibleLanes t oldest).card

theorem Resolved.of_failed (h : t.failure ≠ none) : t.Resolved where
  above hnone := absurd hnone h
  possible hnone := absurd hnone h

theorem Admits.of_lanes {t' : CommitTracker n} (h : t.Admits bs)
    (hadmitted : t'.admitted = t.admitted) (hcommitted : t'.committed = t.committed)
    (hboundaries : t'.boundaries = t.boundaries)
    (hlanes : ∀ zone, (t.lanes zone).durable ≤ (t'.lanes zone).durable) : t'.Admits bs where
  admitted_eq := hadmitted.trans h.admitted_eq
  committed_le := hcommitted ▸ h.committed_le
  boundaries_eq := by rw [hboundaries, hcommitted, h.boundaries_eq]
  durable := by
    intro b hb
    rw [hcommitted] at hb
    refine (h.durable b hb).trans (Finset.card_le_card fun zone hzone => ?_)
    rw [mem_durableLanes] at hzone ⊢
    exact hzone.trans (hlanes zone)

/-- In an increasing list, what is dropped while small is all larger. -/
theorem lt_of_mem_dropWhile {l : List Nat} (hsorted : l.Pairwise (· < ·)) {w b : Nat}
    (hb : b ∈ l.dropWhile (· ≤ w)) : w < b := by
  cases hrest : l.dropWhile (· ≤ w) with
  | nil =>
    rw [hrest] at hb
    cases hb
  | cons x rest =>
    have hx : w < x := by
      have := List.head?_dropWhile_not (· ≤ w) l
      rw [hrest] at this
      simpa using this
    have hpair : (x :: rest).Pairwise (· < ·) := hrest ▸ hsorted.sublist (List.dropWhile_sublist _)
    rw [hrest] at hb
    rcases List.mem_cons.1 hb with rfl | hb
    · exact hx
    · exact hx.trans (List.rel_of_pairwise_cons hpair hb)

theorem Admits.resolve (h : t.Admits bs) (hpos : ∀ b ∈ bs, 0 < b) : t.resolve.Admits bs := by
  obtain ⟨watermark, hw⟩ : ∃ w, quorumDurableWatermark t.lanes (majority n) = w := ⟨_, rfl⟩
  obtain ⟨resolved, hresolved⟩ : ∃ r, t.boundaries.takeWhile (· ≤ watermark) = r := ⟨_, rfl⟩
  have hsplit : resolved ++ t.boundaries.dropWhile (· ≤ watermark) = bs.drop t.committed := by
    rw [← hresolved, List.takeWhile_append_dropWhile, h.boundaries_eq]
  have hlen := congrArg List.length hsplit
  rw [List.length_append, List.length_drop] at hlen
  have hle := h.committed_le
  have htake : bs.take (t.committed + resolved.length) = bs.take t.committed ++ resolved := by
    rw [List.take_add, ← hsplit, List.take_left]
  refine ⟨h.admitted_eq, ?_, ?_, ?_⟩
  · simp only [CommitTracker.resolve, hw, hresolved]
    omega
  · simp only [CommitTracker.resolve, hw, hresolved]
    rw [← List.drop_drop, ← hsplit, List.drop_left]
  · simp only [CommitTracker.resolve, hw, hresolved]
    intro b hb
    rw [htake, List.mem_append] at hb
    rcases hb with hb | hb
    · exact h.durable b hb
    · have hmem : b ∈ bs := List.mem_of_mem_drop (hsplit ▸ List.mem_append_left _ hb)
      have hbelow : b ≤ watermark := by
        rw [← hresolved] at hb
        simpa using List.mem_takeWhile_imp hb
      exact le_card_durableLanes (hpos b hmem) (hw ▸ hbelow)

theorem Admits.recompute (h : t.Admits bs) (hpos : ∀ b ∈ bs, 0 < b) : t.recompute.Admits bs := by
  unfold CommitTracker.recompute
  split_ifs
  · exact h
  · obtain ⟨failure, heq⟩ := t.resolve.checkPossible_eq
    rw [heq]
    exact (h.resolve hpos).of_lanes rfl rfl rfl fun _ => Nat.le_refl _

theorem Admits.resolved_recompute (h : t.Admits bs) (hsorted : bs.Pairwise (· < ·)) :
    t.recompute.Resolved := by
  unfold CommitTracker.recompute
  split_ifs with hfailed
  · exact .of_failed (Option.isSome_iff_ne_none.1 hfailed)
  · have habove : ∀ b ∈ t.resolve.boundaries,
        quorumDurableWatermark t.resolve.lanes (majority n) < b := by
      intro b hb
      have hpair : t.boundaries.Pairwise (· < ·) := by
        rw [h.boundaries_eq]
        exact hsorted.sublist (List.drop_sublist _ _)
      exact lt_of_mem_dropWhile hpair hb
    unfold CommitTracker.checkPossible
    cases hboundaries : t.resolve.boundaries with
    | nil =>
      refine ⟨fun _ => ?_, fun _ => ?_⟩
      · rw [hboundaries]
        exact fun b hb => absurd hb List.not_mem_nil
      · rw [hboundaries]
        exact fun b hb => absurd hb (Option.not_mem_none b)
    | cons oldest rest =>
      simp only [countP_possible]
      split_ifs with hfew
      · exact .of_failed (by simp)
      · refine ⟨fun _ => habove, fun _ b hb => ?_⟩
        rw [hboundaries, List.head?_cons, Option.mem_some_iff] at hb
        subst hb
        exact Nat.le_of_not_lt hfew

theorem Admits.admitWindow (h : t.Admits bs) {window : List Nat} (zones : List (Fin n))
    (hpos : ∀ b ∈ bs ++ window, 0 < b) (hsorted : (bs ++ window).Pairwise (· < ·)) :
    (t.admitWindow window zones).Admits (bs ++ window) ∧ (t.admitWindow window zones).Resolved := by
  have hbefore : CommitTracker.Admits { t with
      admitted := t.admitted + window.length
      boundaries := t.boundaries ++ window
      lanes := fun zone =>
        if zone ∈ zones then
          { t.lanes zone with
            representedEnd := max (t.lanes zone).representedEnd (window.getLast?.getD 0) }
        else t.lanes zone } (bs ++ window) := by
    have hle := h.committed_le
    refine ⟨?_, ?_, ?_, ?_⟩
    · rw [List.length_append, h.admitted_eq]
    · rw [List.length_append]
      exact hle.trans (Nat.le_add_right _ _)
    · rw [List.drop_append_of_le_length hle, h.boundaries_eq]
    · intro b hb
      rw [List.take_append_of_le_length hle] at hb
      refine (h.durable b hb).trans (Finset.card_le_card fun zone hzone => ?_)
      rw [mem_durableLanes] at hzone ⊢
      simp only
      split_ifs
      · exact hzone
      · exact hzone
  exact ⟨hbefore.recompute hpos, hbefore.resolved_recompute hsorted⟩

theorem Admits.setLane (h : t.Admits bs) (zone : Fin n) (lane : LaneCommitState)
    (hlane : (t.lanes zone).durable ≤ lane.durable) : (t.setLane zone lane).Admits bs := by
  refine h.of_lanes rfl rfl rfl fun z => ?_
  by_cases hz : z = zone
  · subst hz
    rw [lanes_setLane_self]
    exact hlane
  · rw [lanes_setLane_of_ne t hz]

theorem Admits.publishDurable (h : t.Admits bs) (hr : t.Resolved) (hpos : ∀ b ∈ bs, 0 < b)
    (hsorted : bs.Pairwise (· < ·)) (zone : Fin n) (durable : Nat) :
    (t.publishDurable zone durable).Admits bs ∧ (t.publishDurable zone durable).Resolved := by
  unfold CommitTracker.publishDurable
  split_ifs with hle
  · exact ⟨h, hr⟩
  · have hset := h.setLane zone { t.lanes zone with durable := durable }
      (Nat.le_of_not_le hle)
    exact ⟨hset.recompute hpos, hset.resolved_recompute hsorted⟩

theorem Admits.finishLane (h : t.Admits bs) (hpos : ∀ b ∈ bs, 0 < b) (hsorted : bs.Pairwise (· < ·))
    (zone : Fin n) (error : Option TransportError) :
    (t.finishLane zone error).Admits bs ∧ (t.finishLane zone error).Resolved := by
  have hset := h.setLane zone ((t.lanes zone).finish error) (Nat.le_refl _)
  unfold CommitTracker.finishLane
  simp only
  split
  · -- a fence fails the tracker at once
    split_ifs with hfailure
    · exact ⟨hset.of_lanes rfl rfl rfl fun _ => Nat.le_refl _, .of_failed (by simp)⟩
    · exact ⟨hset, .of_failed (by simpa using hfailure)⟩
  · exact ⟨hset.recompute hpos, hset.resolved_recompute hsorted⟩

theorem Admits.poison (h : t.Admits bs) : t.poison.Admits bs ∧ t.poison.Resolved := by
  unfold CommitTracker.poison
  split_ifs with hfailure
  · exact ⟨h.of_lanes rfl rfl rfl fun _ => Nat.le_refl _, .of_failed (by simp)⟩
  · exact ⟨h, .of_failed (by simpa using hfailure)⟩

/-! ## A failed tracker -/

/-- The failure and the watermark stay as they are. -/
structure Frozen (t t' : CommitTracker n) : Prop where
  failure_eq : t'.failure = t.failure
  committed_eq : t'.committed = t.committed

theorem Frozen.recompute {t' : CommitTracker n} (h : t.Frozen t') (hfailed : t.failure ≠ none) :
    t.Frozen t'.recompute := by
  have hfailed' : t'.failure.isSome := by
    rw [h.failure_eq]
    exact Option.isSome_iff_ne_none.2 hfailed
  rw [CommitTracker.recompute, if_pos hfailed']
  exact h

theorem frozen_admitWindow (h : t.failure ≠ none) (window : List Nat) (zones : List (Fin n)) :
    t.Frozen (t.admitWindow window zones) := by
  refine Frozen.recompute ?_ h
  exact ⟨rfl, rfl⟩

theorem frozen_publishDurable (h : t.failure ≠ none) (zone : Fin n) (durable : Nat) :
    t.Frozen (t.publishDurable zone durable) := by
  unfold CommitTracker.publishDurable
  split_ifs
  · exact ⟨rfl, rfl⟩
  · refine Frozen.recompute ?_ h
    exact ⟨rfl, rfl⟩

theorem frozen_finishLane (h : t.failure ≠ none) (zone : Fin n) (error : Option TransportError) :
    t.Frozen (t.finishLane zone error) := by
  have hset : t.Frozen (t.setLane zone ((t.lanes zone).finish error)) := ⟨rfl, rfl⟩
  unfold CommitTracker.finishLane
  simp only
  split
  · rw [if_neg (by rw [hset.failure_eq]; simpa using h)]
    exact hset
  · exact hset.recompute h

theorem frozen_poison (h : t.failure ≠ none) : t.Frozen t.poison := by
  rw [CommitTracker.poison, if_neg (by simpa using h)]
  exact ⟨rfl, rfl⟩

end CommitTracker

/-! ## Runs -/

namespace CommitRun

structure Inv (s : CommitRun n) : Prop where
  positive : ∀ b ∈ s.admitted, 0 < b
  sorted : s.admitted.Pairwise (· < ·)
  admits : s.tracker.Admits s.admitted
  resolved : s.tracker.Resolved
  laneMax_eq : ∀ zone, (s.tracker.lanes zone).durable = laneMax (s.offsets zone)

theorem inv_init : (init : CommitRun n).Inv where
  positive := by simp [init]
  sorted := List.Pairwise.nil
  admits := ⟨rfl, Nat.le_refl _, rfl, by simp [init]⟩
  resolved := ⟨by simp [init, CommitTracker.new], by simp [init, CommitTracker.new]⟩
  laneMax_eq _ := rfl

/-- A lane that is given one more offset keeps the largest. -/
theorem laneMax_update {durables : Fin n → Nat} {offsets : Fin n → List Int}
    (h : ∀ zone, durables zone = laneMax (offsets zone)) (zone : Fin n) (offset : Int) (z : Fin n) :
    (if z = zone then max (durables zone) offset.toNat else durables z) =
      laneMax (Function.update offsets zone (offset :: offsets zone) z) := by
  by_cases hz : z = zone
  · subst hz
    rw [if_pos rfl, Function.update_self, h z, Nat.max_comm]
    rfl
  · rw [if_neg hz, Function.update_of_ne hz]
    exact h z

theorem Inv.step {s s' : CommitRun n} {call : CommitCall n} (h : s.Inv)
    (hs : s.step call = some s') : s'.Inv := by
  obtain ⟨hpos, hsorted, hadmits, hresolved, hlanes⟩ := h
  cases call with
  | activateLane zone durable =>
    obtain ⟨hnone, heq⟩ := Option.ite_none_right_eq_some.1 hs
    cases heq
    have hempty : s.admitted = [] := List.length_eq_zero_iff.1 (hadmits.admitted_eq ▸ hnone)
    have hboundaries : s.tracker.boundaries = [] := by
      rw [hadmits.boundaries_eq, hempty, List.drop_nil]
    refine ⟨hpos, hsorted, ⟨hadmits.admitted_eq, hadmits.committed_le, hadmits.boundaries_eq, ?_⟩,
      ⟨fun _ => ?_, fun _ => ?_⟩, fun z => ?_⟩
    · simp [hempty]
    · simp [CommitTracker.activateLane, CommitTracker.setLane, hboundaries]
    · simp [CommitTracker.activateLane, CommitTracker.setLane, hboundaries]
    · by_cases hz : z = zone
      · subst hz
        simp [CommitTracker.activateLane, laneMax]
      · rw [CommitTracker.activateLane, CommitTracker.lanes_setLane_of_ne _ hz, hlanes z]
        simp only [Function.update_of_ne hz]
  | admitWindow window zones =>
    obtain ⟨⟨-, hwindow, hall⟩, heq⟩ := Option.ite_none_right_eq_some.1 hs
    cases heq
    have hpos' : ∀ b ∈ s.admitted ++ window, 0 < b := by
      intro b hb
      rcases List.mem_append.1 hb with hb | hb
      · exact hpos b hb
      · exact hwindow b hb
    obtain ⟨hadmits', hresolved'⟩ := hadmits.admitWindow zones hpos' hall
    refine ⟨hpos', hall, hadmits', hresolved', fun z => ?_⟩
    rw [CommitTracker.durable_admitWindow]
    exact hlanes z
  | publishDurable zone durable =>
    cases hs
    obtain ⟨hadmits', hresolved'⟩ :=
      hadmits.publishDurable hresolved hpos hsorted zone durable.toNat
    refine ⟨hpos, hsorted, hadmits', hresolved', fun z => ?_⟩
    rw [CommitTracker.durable_publishDurable]
    exact laneMax_update hlanes zone durable z
  | finishLane zone error =>
    cases hs
    obtain ⟨hadmits', hresolved'⟩ := hadmits.finishLane hpos hsorted zone error
    refine ⟨hpos, hsorted, hadmits', hresolved', fun z => ?_⟩
    rw [CommitTracker.durable_finishLane]
    exact hlanes z
  | poison =>
    cases hs
    obtain ⟨hadmits', hresolved'⟩ := hadmits.poison
    refine ⟨hpos, hsorted, hadmits', hresolved', fun z => ?_⟩
    rw [CommitTracker.durable_poison]
    exact hlanes z

/-- The watermark only rises, and a failed tracker is frozen. -/
structure Advances (s s' : CommitRun n) : Prop where
  committed_le : s.tracker.committed ≤ s'.tracker.committed
  frozen : s.tracker.failure ≠ none → s.tracker.Frozen s'.tracker

theorem Advances.trans {s s' s'' : CommitRun n} (h : s.Advances s') (h' : s'.Advances s'') :
    s.Advances s'' where
  committed_le := h.committed_le.trans h'.committed_le
  frozen hfailed := by
    have hfirst := h.frozen hfailed
    have hsecond := h'.frozen (hfirst.failure_eq ▸ hfailed)
    exact ⟨hsecond.failure_eq.trans hfirst.failure_eq,
      hsecond.committed_eq.trans hfirst.committed_eq⟩

theorem advances_step {s s' : CommitRun n} {call : CommitCall n} (hs : s.step call = some s') :
    s.Advances s' := by
  cases call with
  | activateLane zone durable =>
    obtain ⟨-, heq⟩ := Option.ite_none_right_eq_some.1 hs
    cases heq
    exact ⟨Nat.le_refl _, fun _ => ⟨rfl, rfl⟩⟩
  | admitWindow window zones =>
    obtain ⟨-, heq⟩ := Option.ite_none_right_eq_some.1 hs
    cases heq
    exact ⟨s.tracker.committed_le_admitWindow window zones,
      fun hfailed => CommitTracker.frozen_admitWindow hfailed window zones⟩
  | publishDurable zone durable =>
    cases hs
    exact ⟨s.tracker.committed_le_publishDurable zone _,
      fun hfailed => CommitTracker.frozen_publishDurable hfailed zone _⟩
  | finishLane zone error =>
    cases hs
    exact ⟨s.tracker.committed_le_finishLane zone error,
      fun hfailed => CommitTracker.frozen_finishLane hfailed zone error⟩
  | poison =>
    cases hs
    exact ⟨s.tracker.committed_poison.ge, fun hfailed => CommitTracker.frozen_poison hfailed⟩

theorem advances_run {s s' : CommitRun n} (h : Reaches CommitRun.step (fun _ _ => True) s s') :
    s.Advances s' := by
  induction h with
  | refl => exact ⟨Nat.le_refl _, fun _ => ⟨rfl, rfl⟩⟩
  | tail _ _ hstep ih => exact ih.trans (advances_step hstep)

/-- The boundaries at or below the watermark are exactly the committed ones. -/
theorem Inv.committed_eq {s : CommitRun n} (h : s.Inv) (hnone : s.tracker.failure = none) :
    s.tracker.committed =
      s.admitted.countP (· ≤ quorumDurableWatermark s.tracker.lanes (majority n)) := by
  obtain ⟨w, hw⟩ : ∃ w, quorumDurableWatermark s.tracker.lanes (majority n) = w := ⟨_, rfl⟩
  have hbelow : ∀ b ∈ s.admitted.take s.tracker.committed, decide (b ≤ w) = true := by
    intro b hb
    exact decide_eq_true (hw ▸ le_quorumDurableWatermark (h.admits.durable b hb))
  have habove : ∀ b ∈ s.admitted.drop s.tracker.committed, ¬ decide (b ≤ w) = true := by
    intro b hb
    rw [← h.admits.boundaries_eq] at hb
    have := h.resolved.above hnone b hb
    rw [decide_eq_true_eq]
    omega
  have hsplit := congrArg (List.countP (· ≤ w))
    (List.take_append_drop s.tracker.committed s.admitted)
  rw [List.countP_append, List.countP_eq_length.2 hbelow, List.countP_eq_zero.2 habove,
    List.length_take, Nat.min_eq_left h.admits.committed_le] at hsplit
  rw [hw, ← hsplit, Nat.add_zero]

end CommitRun

/-- In every run of a tracker the committed and the queued boundaries are the admitted ones, and
what is committed is durable on a quorum. While nothing has failed, the watermark is the number of
boundaries that the quorum's offset covers, each lane counting with the largest offset it was given,
and the oldest unresolved boundary can still reach a quorum. From there on the watermark never
falls, and a failure freezes both itself and the watermark. -/
theorem commit_tracker_run {s : CommitRun n}
    (h : Reaches CommitRun.step (fun _ _ => True) CommitRun.init s) :
    s.tracker.committed + s.tracker.boundaries.length = s.tracker.admitted ∧
    s.tracker.admitted = s.admitted.length ∧
    (∀ b ∈ s.admitted.take s.tracker.committed, majority n ≤ (durableLanes s.tracker b).card) ∧
    (∀ zone, (s.tracker.lanes zone).durable = CommitRun.laneMax (s.offsets zone)) ∧
    (s.tracker.failure = none →
      s.tracker.committed =
        s.admitted.countP (· ≤ quorumDurableWatermark s.tracker.lanes (majority n)) ∧
      ∀ oldest ∈ s.tracker.boundaries.head?, majority n ≤ (possibleLanes s.tracker oldest).card) ∧
    ∀ s', Reaches CommitRun.step (fun _ _ => True) s s' →
      s.tracker.committed ≤ s'.tracker.committed ∧
      (s.tracker.failure ≠ none →
        s'.tracker.failure = s.tracker.failure ∧ s'.tracker.committed = s.tracker.committed) := by
  have hinv : s.Inv := h.invariant CommitRun.inv_init fun _ _ _ hs _ hstep => hs.step hstep
  refine ⟨?_, hinv.admits.admitted_eq, hinv.admits.durable, hinv.laneMax_eq, fun hnone => ?_,
    fun s' hs' => ?_⟩
  · have hle := hinv.admits.committed_le
    rw [hinv.admits.boundaries_eq, List.length_drop, hinv.admits.admitted_eq]
    omega
  · exact ⟨hinv.committed_eq hnone, hinv.resolved.possible hnone⟩
  · have hadv := CommitRun.advances_run hs'
    refine ⟨hadv.committed_le, fun hfailed => ?_⟩
    exact ⟨(hadv.frozen hfailed).failure_eq, (hadv.frozen hfailed).committed_eq⟩

/-- Three lanes: one record is committed by the first two, then two lanes die under the second. -/
def brokenWindow : List (CommitCall 3) :=
  [.activateLane 0 0, .activateLane 1 (-1), .activateLane 2 0, .publishDurable 0 7,
   .admitWindow [5, 9] [0, 1, 2], .publishDurable 1 5, .finishLane 1 none,
   .finishLane 2 (some ⟨2, .unavailable⟩)]

theorem commit_tracker_run_broken : ∃ s : CommitRun 3,
    Reaches CommitRun.step (fun _ _ => True) CommitRun.init s ∧
    s.tracker.committed = 1 ∧ s.tracker.failure = some .poisoned ∧
    s.tracker.committed + s.tracker.boundaries.length = s.tracker.admitted ∧
    ∀ s', Reaches CommitRun.step (fun _ _ => True) s s' →
      s'.tracker.failure = some .poisoned ∧ s'.tracker.committed = 1 := by
  have hrun : (runChecked CommitRun.step (fun _ _ => true) CommitRun.init brokenWindow).any
      (fun s => decide (s.tracker.committed = 1) && decide (s.tracker.failure = some .poisoned)) =
      true := by
    decide +kernel
  obtain ⟨s, hreach, hfacts⟩ := exists_reaches (fun _ _ _ => trivial) hrun
  simp only [Bool.and_eq_true, decide_eq_true_eq] at hfacts
  obtain ⟨hcommitted, hfailure⟩ := hfacts
  obtain ⟨hcount, -, -, -, -, hlater⟩ := commit_tracker_run hreach
  refine ⟨s, hreach, hcommitted, hfailure, hcount, fun s' hs' => ?_⟩
  obtain ⟨hsame, hsame'⟩ := (hlater s' hs').2 (by rw [hfailure]; exact Option.some_ne_none _)
  exact ⟨hsame.trans hfailure, hsame'.trans hcommitted⟩

end Chorus
