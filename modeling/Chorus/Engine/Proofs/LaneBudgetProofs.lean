import Chorus.Engine.Budget
import Chorus.Segment.Proofs.LaneProofs
import Mathlib.Algebra.Order.BigOperators.Group.List
import Mathlib.Algebra.Order.Group.Nat

/-!
# The accounts of a lane

A lane's budget is the sum of the reservations that are alive: those of the batches it holds, and
the one for the window that is being handed out. The batches follow one another up to the bytes that
the lane was given.
-/

namespace Chorus

variable {limit bytes durable : Nat} {budget budget' : LaneBudget} {charge : LaneCharge}
  {charges : List LaneCharge} {lane : BudgetedLane} {retained : List ReservedBatch}

namespace LaneCharge

def ordinaryBytes : LaneCharge → Nat
  | .ordinary bytes => bytes
  | .oversized => 0

def isOversized : LaneCharge → Bool
  | .ordinary _ => false
  | .oversized => true

/-- The reservation for a batch of the given size. -/
def For (charge : LaneCharge) (bytes : Nat) : Prop := charge = .ordinary bytes ∨ charge = .oversized

theorem For.ordinaryBytes_le (h : charge.For bytes) : charge.ordinaryBytes ≤ bytes := by
  rcases h with rfl | rfl
  · exact le_rfl
  · exact Nat.zero_le _

end LaneCharge

namespace LaneBudget

/-- The budget agrees with the reservations that are alive. -/
structure Balanced (limit : Nat) (budget : LaneBudget) (charges : List LaneCharge) : Prop where
  limit : budget.limit = limit
  outstanding : budget.outstanding = (charges.map LaneCharge.ordinaryBytes).sum
  oversized : charges.countP LaneCharge.isOversized = if budget.oversized then 1 else 0

theorem Balanced.perm {charges' : List LaneCharge} (h : Balanced limit budget charges)
    (hperm : charges.Perm charges') : Balanced limit budget charges' where
  limit := h.limit
  outstanding := h.outstanding.trans (hperm.map _).sum_nat
  oversized := (hperm.countP_eq _).symm.trans h.oversized

theorem charge_of_tryReserve {oversizedRecord : Bool}
    (h : budget.tryReserve bytes oversizedRecord = some (budget', charge)) : charge.For bytes := by
  unfold LaneBudget.tryReserve at h
  split at h
  · split at h
    · cases h
    · cases h
      exact .inr rfl
  · simp only at h
    split at h
    · cases h
    · cases h
      exact .inl rfl

theorem Balanced.tryReserve (h : Balanced limit budget charges) {oversizedRecord : Bool}
    (hreserve : budget.tryReserve bytes oversizedRecord = some (budget', charge)) :
    Balanced limit budget' (charges ++ [charge]) := by
  unfold LaneBudget.tryReserve at hreserve
  split at hreserve
  · split at hreserve
    · cases hreserve
    · rename_i hfree
      cases hreserve
      have hnone : budget.oversized = false := by
        cases hover : budget.oversized with
        | false => rfl
        | true => simp [hover] at hfree
      have hcount := h.oversized
      rw [hnone] at hcount
      refine ⟨h.limit, ?_, ?_⟩
      · rw [List.map_append, List.sum_append]
        exact h.outstanding
      · rw [List.countP_append, hcount]
        rfl
  · simp only at hreserve
    split at hreserve
    · cases hreserve
    · cases hreserve
      refine ⟨h.limit, ?_, ?_⟩
      · rw [List.map_append, List.sum_append, ← h.outstanding]
        rfl
      · rw [List.countP_append]
        exact h.oversized

theorem Balanced.release (h : Balanced limit budget (charge :: charges)) :
    Balanced limit (budget.release charge) charges := by
  have houtstanding := h.outstanding
  have hcount := h.oversized
  rw [List.map_cons, List.sum_cons] at houtstanding
  rw [List.countP_cons] at hcount
  cases charge with
  | ordinary bytes =>
    refine ⟨h.limit, ?_, hcount⟩
    show budget.outstanding - bytes = _
    rw [houtstanding]
    exact Nat.add_sub_cancel_left ..
  | oversized =>
    have houtstanding : budget.outstanding = (charges.map LaneCharge.ordinaryBytes).sum :=
      houtstanding.trans (Nat.zero_add _)
    refine ⟨h.limit, houtstanding, ?_⟩
    show _ = 0
    cases hover : budget.oversized with
    | true =>
      rw [hover] at hcount
      exact Nat.succ.inj hcount
    | false =>
      rw [hover] at hcount
      cases hcount

/-- There is room for a batch that fits beside the reservations, and for a single record beside
none. -/
theorem Balanced.isSome_tryReserve (h : Balanced limit budget charges) {oversizedRecord : Bool}
    (hroom : (charges.map LaneCharge.ordinaryBytes).sum + bytes ≤ limit ∨
      charges = [] ∧ oversizedRecord = true) :
    (budget.tryReserve bytes oversizedRecord).isSome = true := by
  unfold LaneBudget.tryReserve
  rw [h.limit, h.outstanding]
  rcases hroom with hfits | ⟨rfl, hsingle⟩
  · rw [if_neg (by omega)]
    simp only
    rw [if_neg (by omega)]
    rfl
  · have hcount := h.oversized
    have hnone : budget.oversized = false := by
      cases hover : budget.oversized with
      | false => rfl
      | true =>
        rw [hover] at hcount
        cases hcount
    split
    · rw [hsingle, hnone]
      rfl
    · rename_i hsmall
      simp only [List.map_nil, List.sum_nil, Nat.zero_add]
      rw [if_neg hsmall]
      rfl

end LaneBudget

/-! ## Batches in order -/

/-- The batches follow one another between two offsets. -/
def InOrder : Nat → List ReservedBatch → Nat → Prop
  | first, [], last => first ≤ last
  | first, r :: retained, last => first ≤ r.batch.start ∧ InOrder r.batch.stop retained last

namespace InOrder

variable {first last : Nat}

theorem sum_size_le (h : InOrder first retained last) :
    first + (retained.map fun r => r.batch.size).sum ≤ last := by
  induction retained generalizing first with
  | nil => exact h
  | cons r retained ih =>
    have hrest := ih h.2
    have hlt := r.batch.start_lt_stop
    have hfirst := h.1
    rw [List.map_cons, List.sum_cons]
    unfold BatchDescriptor.size at hrest ⊢
    omega

theorem weaken {first' : Nat} (h : InOrder first retained last) (hle : first' ≤ first) :
    InOrder first' retained last := by
  cases retained with
  | nil => exact hle.trans h
  | cons r retained => exact ⟨hle.trans h.1, h.2⟩

theorem tail {r : ReservedBatch} (h : InOrder first (r :: retained) last) :
    InOrder first retained last :=
  h.2.weaken (h.1.trans r.batch.start_lt_stop.le)

theorem snoc (h : InOrder first retained last) {r : ReservedBatch} (hle : last ≤ r.batch.start) :
    InOrder first (retained ++ [r]) r.batch.stop := by
  induction retained generalizing first with
  | nil => exact ⟨h.trans hle, le_rfl⟩
  | cons head retained ih => exact ⟨h.1, ih h.2⟩

/-- Batches that all start at or after an offset lie behind it. -/
theorem raise {offset : Nat} (h : InOrder first retained last) (hne : retained ≠ [])
    (hoffset : ∀ r ∈ retained, offset ≤ r.batch.start) : InOrder offset retained last := by
  cases retained with
  | nil => exact absurd rfl hne
  | cons r retained => exact ⟨hoffset r List.mem_cons_self, h.2⟩

end InOrder

/-! ## Lanes -/

namespace BudgetedLane

def liveCharges (lane : BudgetedLane) : List LaneCharge :=
  lane.retained.map ReservedBatch.charge ++ lane.reservation.toList

structure Sound (limit : Nat) (lane : BudgetedLane) : Prop where
  balanced : lane.budget.Balanced limit lane.liveCharges
  inOrder : InOrder 0 lane.retained lane.sent
  sized : ∀ r ∈ lane.retained, r.charge.For r.batch.size

theorem sound_new (limit : Nat) : (new limit).Sound limit :=
  ⟨⟨rfl, rfl, rfl⟩, le_rfl, fun _ hmem => absurd hmem List.not_mem_nil⟩

theorem Sound.reserve (h : lane.Sound limit) (hnone : lane.reservation = none) (bytes : Nat)
    (oversizedRecord : Bool) : (lane.reserve bytes oversizedRecord).Sound limit := by
  unfold BudgetedLane.reserve
  split
  · exact h
  · rename_i budget charge hreserve
    have hbalanced := h.balanced.tryReserve hreserve
    refine ⟨?_, h.inOrder, h.sized⟩
    rw [liveCharges, hnone, Option.toList_none, List.append_nil] at hbalanced
    exact hbalanced

theorem sent_reserve (lane : BudgetedLane) (bytes : Nat) (oversizedRecord : Bool) :
    (lane.reserve bytes oversizedRecord).sent = lane.sent := by
  unfold BudgetedLane.reserve
  split
  · rfl
  · rfl

theorem reservation_reserve (hnone : lane.reservation = none) {bytes : Nat} {oversizedRecord : Bool}
    (h : (lane.reserve bytes oversizedRecord).reservation = some charge) :
    (lane.budget.tryReserve bytes oversizedRecord).isSome = true ∧ charge.For bytes := by
  unfold BudgetedLane.reserve at h
  split at h
  · rw [hnone] at h
    cases h
  · rename_i budget charge' hreserve
    cases h
    exact ⟨by rw [hreserve]; rfl, LaneBudget.charge_of_tryReserve hreserve⟩

theorem Sound.dropReservation (h : lane.Sound limit) : lane.dropReservation.Sound limit := by
  unfold BudgetedLane.dropReservation
  split
  · exact h
  · rename_i charge hreservation
    have hbalanced := h.balanced
    rw [liveCharges, hreservation, Option.toList_some] at hbalanced
    refine ⟨?_, h.inOrder, h.sized⟩
    show LaneBudget.Balanced limit _ (lane.retained.map ReservedBatch.charge ++ [])
    rw [List.append_nil]
    exact (hbalanced.perm (List.perm_append_singleton _ _)).release

theorem reservation_dropReservation (lane : BudgetedLane) :
    lane.dropReservation.reservation = none := by
  unfold BudgetedLane.dropReservation
  split
  · assumption
  · rfl

theorem sent_dropReservation (lane : BudgetedLane) : lane.dropReservation.sent = lane.sent := by
  unfold BudgetedLane.dropReservation
  split
  · rfl
  · rfl

theorem reservation_send (lane : BudgetedLane) (batch : BatchDescriptor) :
    (lane.send batch).reservation = none := by
  unfold BudgetedLane.send
  split
  · assumption
  · rfl

theorem sent_send_le (lane : BudgetedLane) (batch : BatchDescriptor) :
    (lane.send batch).sent ≤ max lane.sent batch.stop := by
  unfold BudgetedLane.send
  split
  · exact le_max_left _ _
  · exact le_max_right _ _

theorem Sound.send (h : lane.Sound limit) {batch : BatchDescriptor} (hle : lane.sent ≤ batch.start)
    (hsized : ∀ charge, lane.reservation = some charge → charge.For batch.size) :
    (lane.send batch).Sound limit := by
  unfold BudgetedLane.send
  split
  · exact h
  · rename_i charge hreservation
    have hbalanced := h.balanced
    rw [liveCharges, hreservation, Option.toList_some] at hbalanced
    refine ⟨?_, h.inOrder.snoc hle, fun r hr => ?_⟩
    · show LaneBudget.Balanced limit _ ((lane.retained ++ [_]).map ReservedBatch.charge ++ [])
      rw [List.map_append, List.append_nil]
      exact hbalanced
    · rcases List.mem_append.1 hr with hold | hnew
      · exact h.sized r hold
      · rw [List.mem_singleton.1 hnew]
        exact hsized charge hreservation

/-- Acknowledged batches leave from the front, with their reservations. -/
theorem Sound.ackThrough {reservation : Option LaneCharge} {first sent : Nat}
    (hbalanced : budget.Balanced limit (retained.map ReservedBatch.charge ++ reservation.toList))
    (horder : InOrder first retained sent) (hsized : ∀ r ∈ retained, r.charge.For r.batch.size)
    (durable : Nat) :
    (BudgetedLane.ackThrough durable budget retained).1.Balanced limit
        ((BudgetedLane.ackThrough durable budget retained).2.map ReservedBatch.charge ++
          reservation.toList) ∧
      InOrder first (BudgetedLane.ackThrough durable budget retained).2 sent ∧
      ∀ r ∈ (BudgetedLane.ackThrough durable budget retained).2, r.charge.For r.batch.size := by
  induction retained generalizing budget with
  | nil => exact ⟨hbalanced, horder, hsized⟩
  | cons r retained ih =>
    unfold BudgetedLane.ackThrough
    simp only
    split
    · exact ih hbalanced.release horder.tail fun r' hr' => hsized r' (List.mem_cons_of_mem _ hr')
    · refine ⟨hbalanced, horder, fun r' hr' => ?_⟩
      rcases List.mem_cons.1 hr' with rfl | hrest
      · exact hsized r List.mem_cons_self
      · exact hsized r' (List.mem_cons_of_mem _ hrest)

theorem Sound.publishLaneProgress (h : lane.Sound limit) (tail : Nat) :
    (lane.publishLaneProgress tail).Sound limit := by
  obtain ⟨hbalanced, horder, hsized⟩ :=
    Sound.ackThrough h.balanced h.inOrder h.sized (max lane.durable tail)
  exact ⟨hbalanced, horder, hsized⟩

theorem balanced_foldl_release {rest : List LaneCharge}
    (h : budget.Balanced limit (retained.map ReservedBatch.charge ++ rest)) :
    (retained.foldl (fun budget r => budget.release r.charge) budget).Balanced limit rest := by
  induction retained generalizing budget with
  | nil => exact h
  | cons r retained ih => exact ih h.release

theorem Sound.clear (h : lane.Sound limit) : lane.clear.Sound limit :=
  ⟨balanced_foldl_release h.balanced, Nat.zero_le _, fun _ hmem => absurd hmem List.not_mem_nil⟩

/-- The batches of a lane that all lie behind an offset reserve no more than the bytes from there
on. -/
theorem Sound.liveCharges_le (h : lane.Sound limit) (hnone : lane.reservation = none) {offset : Nat}
    (hoffset : ∀ r ∈ lane.retained, offset ≤ r.batch.start) :
    (lane.liveCharges.map LaneCharge.ordinaryBytes).sum ≤ lane.sent - offset ∧
      (lane.sent ≤ offset → lane.liveCharges = []) := by
  have hcharges : lane.liveCharges = lane.retained.map ReservedBatch.charge := by
    rw [liveCharges, hnone, Option.toList_none, List.append_nil]
  rw [hcharges]
  by_cases hne : lane.retained = []
  · rw [hne]
    exact ⟨Nat.zero_le _, fun _ => rfl⟩
  · have hsum := (h.inOrder.raise hne hoffset).sum_size_le
    have hle : ((lane.retained.map ReservedBatch.charge).map LaneCharge.ordinaryBytes).sum ≤
        (lane.retained.map fun r => r.batch.size).sum := by
      rw [List.map_map]
      exact List.sum_le_sum fun r hr => (h.sized r hr).ordinaryBytes_le
    refine ⟨by omega, fun hshort => ?_⟩
    obtain ⟨r, rest, hcons⟩ := List.exists_cons_of_ne_nil hne
    have hpos := r.batch.start_lt_stop
    rw [hcons, List.map_cons, List.sum_cons, BatchDescriptor.size] at hsum
    omega

end BudgetedLane

end Chorus
