import Chorus.Segment.CommitTracker
import Chorus.Segment.Proofs.SelectionProofs

/-!
# The commit watermark is durable on a quorum

`CommitTracker.Inv` ties the tracker to the record stream: the unresolved boundaries are those of
the admitted records above the watermark, and a quorum of lanes has published an offset that covers
every committed record. No operation lowers the watermark or a lane's published offset.
-/

namespace Chorus

open Quorum RecordFrame

variable {n : Nat} {t : CommitTracker n} {stream : List RecordFrame}

def durableLanes (t : CommitTracker n) (x : Nat) : Finset (Fin n) :=
  Finset.univ.filter fun zone => x ≤ (t.lanes zone).durable

theorem mem_durableLanes {x : Nat} {zone : Fin n} :
    zone ∈ durableLanes t x ↔ x ≤ (t.lanes zone).durable := by
  simp [durableLanes]

/-- A positive offset at or below the watermark is durable on a quorum. -/
theorem le_card_durableLanes {x : Nat} (hx : 0 < x)
    (h : x ≤ quorumDurableWatermark t.lanes (majority n)) :
    majority n ≤ (durableLanes t x).card := by
  unfold quorumDurableWatermark at h
  cases hk : kthLargest (majority n) (collect fun zone => some (t.lanes zone).durable) with
  | none =>
    rw [hk, Option.getD_none] at h
    omega
  | some watermark =>
    rw [hk, Option.getD_some, le_kthLargest_iff hk, countP_collect] at h
    refine h.trans (Finset.card_le_card fun zone hzone => ?_)
    rw [Finset.mem_filter] at hzone
    obtain ⟨-, y, hy, hle⟩ := hzone
    rw [Option.some.injEq] at hy
    rw [mem_durableLanes, hy]
    exact of_decide_eq_true hle

structure CommitTracker.Inv (t : CommitTracker n) (stream : List RecordFrame) : Prop where
  admitted_le : t.admitted ≤ stream.length
  committed_le : t.committed ≤ t.admitted
  boundaries_eq : t.boundaries = ((recordEnds stream).take t.admitted).drop t.committed
  durable : 0 < t.committed →
    majority n ≤ (durableLanes t (streamBytes (stream.take t.committed)).length).card

namespace CommitTracker

@[simp] theorem lanes_setLane_self (t : CommitTracker n) (zone : Fin n) (lane : LaneCommitState) :
    (t.setLane zone lane).lanes zone = lane := Function.update_self ..

theorem lanes_setLane_of_ne (t : CommitTracker n) {zone z : Fin n} (h : z ≠ zone)
    (lane : LaneCommitState) : (t.setLane zone lane).lanes z = t.lanes z :=
  Function.update_of_ne h ..

theorem inv_new (stream : List RecordFrame) : (new : CommitTracker n).Inv stream where
  admitted_le := Nat.zero_le _
  committed_le := Nat.le_refl _
  boundaries_eq := rfl
  durable h := absurd h (Nat.lt_irrefl 0)

/-- Only the lanes' offsets matter to the invariant, and only upwards. -/
theorem Inv.of_lanes {t' : CommitTracker n} (h : t.Inv stream)
    (hadmitted : t'.admitted = t.admitted) (hcommitted : t'.committed = t.committed)
    (hboundaries : t'.boundaries = t.boundaries)
    (hlanes : ∀ zone, (t.lanes zone).durable ≤ (t'.lanes zone).durable) : t'.Inv stream where
  admitted_le := hadmitted ▸ h.admitted_le
  committed_le := by
    rw [hadmitted, hcommitted]
    exact h.committed_le
  boundaries_eq := by
    rw [hadmitted, hcommitted, hboundaries]
    exact h.boundaries_eq
  durable := by
    intro hpos
    rw [hcommitted] at hpos ⊢
    refine (h.durable hpos).trans (Finset.card_le_card fun zone hzone => ?_)
    rw [mem_durableLanes] at hzone ⊢
    exact hzone.trans (hlanes zone)

/-- Records dispatched to the lanes before their window is admitted do not matter. -/
theorem Inv.append (h : t.Inv stream) (records : List RecordFrame) : t.Inv (stream ++ records) where
  admitted_le := h.admitted_le.trans (by rw [List.length_append]; omega)
  committed_le := h.committed_le
  boundaries_eq := by
    have hends : (recordEnds (stream ++ records)).take t.admitted =
        (recordEnds stream).take t.admitted := by
      have hle := h.admitted_le
      refine List.ext_getElem? fun i => ?_
      by_cases hi : i < t.admitted
      · rw [List.getElem?_take_of_lt hi, List.getElem?_take_of_lt hi, getElem?_recordEnds,
          getElem?_recordEnds, List.length_append, if_pos (by omega), if_pos (by omega),
          List.take_append_of_le_length (by omega)]
      · rw [List.getElem?_take_eq_none (by omega), List.getElem?_take_eq_none (by omega)]
    rw [hends]
    exact h.boundaries_eq
  durable := by
    intro hpos
    have hle := h.committed_le.trans h.admitted_le
    rw [List.take_append_of_le_length hle]
    exact h.durable hpos

theorem Inv.resolve (h : t.Inv stream) : t.resolve.Inv stream := by
  have hadm := h.admitted_le
  have hcom := h.committed_le
  have hboundaries := h.boundaries_eq
  obtain ⟨watermark, hw⟩ : ∃ w, quorumDurableWatermark t.lanes (majority n) = w := ⟨_, rfl⟩
  obtain ⟨resolved, hresolved⟩ : ∃ r, t.boundaries.takeWhile (· ≤ watermark) = r := ⟨_, rfl⟩
  have hpre : resolved <+: t.boundaries := by
    rw [← hresolved]
    exact List.takeWhile_prefix _
  have hbelow : ∀ b ∈ resolved, b ≤ watermark := by
    intro b hb
    rw [← hresolved] at hb
    simpa using List.mem_takeWhile_imp hb
  have hlen : resolved.length ≤ t.admitted - t.committed := by
    have := hpre.length_le
    rw [hboundaries, List.length_drop, List.length_take, length_recordEnds,
      Nat.min_eq_left hadm] at this
    exact this
  have hrest : t.boundaries.dropWhile (· ≤ watermark) = t.boundaries.drop resolved.length := by
    have hsplit := List.takeWhile_append_dropWhile (p := (· ≤ watermark)) (l := t.boundaries)
    rw [hresolved] at hsplit
    have := congrArg (List.drop resolved.length) hsplit
    rwa [List.drop_left] at this
  refine ⟨hadm, ?_, ?_, ?_⟩
  · simp only [CommitTracker.resolve, hw, hresolved]
    omega
  · simp only [CommitTracker.resolve, hw, hresolved, hrest]
    rw [hboundaries, List.drop_drop]
  · simp only [CommitTracker.resolve, hw, hresolved]
    intro hpos
    by_cases hnone : resolved = []
    · rw [hnone, List.length_nil, Nat.add_zero] at hpos ⊢
      exact h.durable hpos
    · -- the last resolved boundary is the end of the last committed record
      have hrpos : 0 < resolved.length := List.length_pos_iff.2 hnone
      have hget : resolved[resolved.length - 1]? =
          some (streamBytes (stream.take (t.committed + resolved.length))).length := by
        have hsame : resolved[resolved.length - 1]? = t.boundaries[resolved.length - 1]? := by
          obtain ⟨rest, hrest'⟩ := hpre
          rw [← hrest', List.getElem?_append_left (by omega)]
        rw [hsame, hboundaries, List.getElem?_drop, List.getElem?_take_of_lt (by omega),
          getElem?_recordEnds, if_pos (by omega)]
        congr 4
        omega
      have hle : (streamBytes (stream.take (t.committed + resolved.length))).length ≤ watermark :=
        hbelow _ (List.mem_of_getElem? hget)
      have hposx : 0 < (streamBytes (stream.take (t.committed + resolved.length))).length := by
        have := @length_streamBytes_take_lt stream 0 (t.committed + resolved.length) (by omega)
          (by omega)
        omega
      exact le_card_durableLanes hposx (hw ▸ hle)

/-- The check for a lost quorum only sets the failure. -/
theorem checkPossible_eq (t : CommitTracker n) :
    ∃ failure, t.checkPossible = { t with failure := failure } := by
  unfold CommitTracker.checkPossible
  split
  · exact ⟨t.failure, rfl⟩
  · simp only
    split_ifs
    · exact ⟨_, rfl⟩
    · exact ⟨t.failure, rfl⟩

theorem Inv.checkPossible (h : t.Inv stream) : t.checkPossible.Inv stream := by
  obtain ⟨failure, heq⟩ := t.checkPossible_eq
  rw [heq]
  exact ⟨h.admitted_le, h.committed_le, h.boundaries_eq, h.durable⟩

theorem Inv.recompute (h : t.Inv stream) : t.recompute.Inv stream := by
  unfold CommitTracker.recompute
  split_ifs
  · exact h
  · exact h.resolve.checkPossible

theorem Inv.admitWindow (h : t.Inv stream) (zones : List (Fin n))
    (hadm : t.admitted < stream.length) :
    (t.admitWindow ((recordEnds stream).drop t.admitted) zones).Inv stream := by
  refine Inv.recompute ⟨?_, ?_, ?_, ?_⟩
  · simp only [List.length_drop, length_recordEnds]
    omega
  · simp only [List.length_drop, length_recordEnds]
    have := h.committed_le
    omega
  · have hall : t.admitted + ((recordEnds stream).drop t.admitted).length = stream.length := by
      rw [List.length_drop, length_recordEnds]
      omega
    have hcom : t.committed ≤ ((recordEnds stream).take t.admitted).length := by
      rw [List.length_take, length_recordEnds, Nat.min_eq_left hadm.le]
      exact h.committed_le
    simp only [hall]
    rw [h.boundaries_eq, ← List.drop_append_of_le_length hcom, List.take_append_drop,
      ← length_recordEnds stream, List.take_length]
  · intro hpos
    refine (h.durable hpos).trans (Finset.card_le_card fun zone hzone => ?_)
    rw [mem_durableLanes] at hzone ⊢
    simp only
    split_ifs
    · exact hzone
    · exact hzone

theorem Inv.setLane (h : t.Inv stream) {zone : Fin n} {lane : LaneCommitState}
    (hlane : (t.lanes zone).durable ≤ lane.durable) : (t.setLane zone lane).Inv stream := by
  refine h.of_lanes rfl rfl rfl fun z => ?_
  by_cases hz : z = zone
  · subst hz
    rw [lanes_setLane_self]
    exact hlane
  · rw [lanes_setLane_of_ne t hz]

theorem Inv.publishDurable (h : t.Inv stream) (zone : Fin n) (durable : Nat) :
    (t.publishDurable zone durable).Inv stream := by
  unfold CommitTracker.publishDurable
  split_ifs with hle
  · exact h
  · exact (h.setLane (by simp only; omega)).recompute

theorem Inv.finishLane (h : t.Inv stream) (zone : Fin n) (error : Option TransportError) :
    (t.finishLane zone error).Inv stream := by
  have hset : (t.setLane zone ((t.lanes zone).finish error)).Inv stream := h.setLane (Nat.le_refl _)
  unfold CommitTracker.finishLane
  simp only
  split
  · split_ifs
    · exact hset.of_lanes rfl rfl rfl fun _ => Nat.le_refl _
    · exact hset
  · exact hset.recompute

theorem Inv.poison (h : t.Inv stream) : t.poison.Inv stream := by
  unfold CommitTracker.poison
  split_ifs
  · exact ⟨h.admitted_le, h.committed_le, h.boundaries_eq, h.durable⟩
  · exact h

/-! ## Published offsets -/

@[simp] theorem lanes_recompute (t : CommitTracker n) : t.recompute.lanes = t.lanes := by
  unfold CommitTracker.recompute
  split_ifs
  · rfl
  · obtain ⟨failure, heq⟩ := t.resolve.checkPossible_eq
    rw [heq]
    rfl

theorem durable_admitWindow (t : CommitTracker n) (boundaries : List Nat) (zones : List (Fin n))
    (zone : Fin n) :
    ((t.admitWindow boundaries zones).lanes zone).durable = (t.lanes zone).durable := by
  simp only [CommitTracker.admitWindow, lanes_recompute]
  split_ifs <;> rfl

theorem durable_publishDurable (t : CommitTracker n) (zone : Fin n) (durable : Nat) (z : Fin n) :
    ((t.publishDurable zone durable).lanes z).durable =
      if z = zone then max (t.lanes zone).durable durable else (t.lanes z).durable := by
  unfold CommitTracker.publishDurable
  by_cases hz : z = zone
  · subst hz
    rw [if_pos rfl]
    split_ifs with hle
    · rw [Nat.max_eq_left hle]
    · have hlt : (t.lanes z).durable ≤ durable := by omega
      rw [lanes_recompute, lanes_setLane_self]
      exact (Nat.max_eq_right hlt).symm
  · rw [if_neg hz]
    split_ifs
    · rfl
    · rw [lanes_recompute, lanes_setLane_of_ne t hz]

theorem durable_finishLane (t : CommitTracker n) (zone : Fin n) (error : Option TransportError)
    (z : Fin n) : ((t.finishLane zone error).lanes z).durable = (t.lanes z).durable := by
  have hset : ((t.setLane zone ((t.lanes zone).finish error)).lanes z).durable =
      (t.lanes z).durable := by
    by_cases hz : z = zone
    · subst hz
      rw [lanes_setLane_self, LaneCommitState.finish]
    · rw [lanes_setLane_of_ne t hz]
  unfold CommitTracker.finishLane
  simp only
  split
  · split_ifs
    · exact hset
    · exact hset
  · rw [lanes_recompute]
    exact hset

theorem durable_poison (t : CommitTracker n) (z : Fin n) :
    (t.poison.lanes z).durable = (t.lanes z).durable := by
  unfold CommitTracker.poison
  split_ifs <;> rfl

/-! ## The watermark -/

theorem committed_le_recompute (t : CommitTracker n) : t.committed ≤ t.recompute.committed := by
  unfold CommitTracker.recompute
  split_ifs
  · exact Nat.le_refl _
  · obtain ⟨failure, heq⟩ := t.resolve.checkPossible_eq
    rw [heq]
    exact Nat.le_add_right _ _

theorem committed_le_admitWindow (t : CommitTracker n) (boundaries : List Nat)
    (zones : List (Fin n)) : t.committed ≤ (t.admitWindow boundaries zones).committed := by
  unfold CommitTracker.admitWindow
  refine Nat.le_trans ?_ (committed_le_recompute _)
  exact Nat.le_refl _

theorem committed_le_publishDurable (t : CommitTracker n) (zone : Fin n) (durable : Nat) :
    t.committed ≤ (t.publishDurable zone durable).committed := by
  unfold CommitTracker.publishDurable
  split_ifs
  · exact Nat.le_refl _
  · exact committed_le_recompute (t.setLane zone _)

theorem committed_le_finishLane (t : CommitTracker n) (zone : Fin n)
    (error : Option TransportError) : t.committed ≤ (t.finishLane zone error).committed := by
  unfold CommitTracker.finishLane
  simp only
  split
  · split_ifs
    · exact Nat.le_refl _
    · exact Nat.le_refl _
  · exact committed_le_recompute (t.setLane zone _)

theorem committed_poison (t : CommitTracker n) : t.poison.committed = t.committed := by
  unfold CommitTracker.poison
  split_ifs <;> rfl

/-! ## Admissions -/

@[simp] theorem admitted_recompute (t : CommitTracker n) : t.recompute.admitted = t.admitted := by
  unfold CommitTracker.recompute
  split_ifs
  · rfl
  · obtain ⟨failure, heq⟩ := t.resolve.checkPossible_eq
    rw [heq]
    rfl

theorem admitted_admitWindow (t : CommitTracker n) (boundaries : List Nat) (zones : List (Fin n)) :
    (t.admitWindow boundaries zones).admitted = t.admitted + boundaries.length :=
  admitted_recompute _

theorem admitted_publishDurable (t : CommitTracker n) (zone : Fin n) (durable : Nat) :
    (t.publishDurable zone durable).admitted = t.admitted := by
  unfold CommitTracker.publishDurable
  split_ifs
  · rfl
  · exact admitted_recompute (t.setLane zone _)

theorem admitted_finishLane (t : CommitTracker n) (zone : Fin n) (error : Option TransportError) :
    (t.finishLane zone error).admitted = t.admitted := by
  unfold CommitTracker.finishLane
  simp only
  split
  · split_ifs <;> rfl
  · exact admitted_recompute (t.setLane zone _)

theorem admitted_poison (t : CommitTracker n) : t.poison.admitted = t.admitted := by
  unfold CommitTracker.poison
  split_ifs <;> rfl

end CommitTracker

end Chorus
