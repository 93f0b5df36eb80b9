import Chorus.Segment.CommitTracker
import Chorus.Segment.Proofs.SelectionProofs
import Mathlib.Order.Bounds.Defs

/-!
# The recovery size is the largest possible commit watermark

Recovery sees the sizes of the zones that answer and has to assume of the others whatever puts the
watermark highest. `selectRecoverySize` takes the rank among the known sizes that the watermark has
among all of them.
-/

namespace Chorus

open Quorum

variable {n : Nat}

/-- The lanes hold the sizes that were seen, in any zones, and anything in the others. -/
def CompletesSizes (lanes : Fin n → LaneCommitState) (sizes : List Nat) : Prop :=
  ∃ missing : List Nat, (List.ofFn fun zone => (lanes zone).durable).Perm (sizes ++ missing)

/-- The watermarks of the lanes that hold the sizes that were seen. -/
def possibleWatermarks (n : Nat) (sizes : List Nat) : Set Nat :=
  {w | ∃ lanes : Fin n → LaneCommitState, CompletesSizes lanes sizes ∧ quorumDurableWatermark lanes
    (majority n) = w}

theorem quorumDurableWatermark_eq (lanes : Fin n → LaneCommitState) (quorum : Nat) :
    quorumDurableWatermark lanes quorum =
      (kthLargest quorum (List.ofFn fun zone => (lanes zone).durable)).getD 0 := by
  have hcollect : (collect fun zone => some (lanes zone).durable) = List.ofFn fun zone =>
      (lanes zone).durable := by
    rw [collect, List.ofFn_eq_map, ← List.filterMap_eq_map]
    rfl
  rw [quorumDurableWatermark, hcollect]

/-- Sizes of all zones, as lanes. -/
def lanesOf (sizes : List Nat) (zone : Fin n) : LaneCommitState := { durable := sizes.getD zone 0 }

theorem ofFn_lanesOf {sizes : List Nat} (h : sizes.length = n) :
    (List.ofFn fun zone : Fin n => (lanesOf sizes zone).durable) = sizes := by
  apply List.ext_getElem
  · rw [List.length_ofFn, h]
  · intro i hi hi'
    rw [List.getElem_ofFn]
    exact (List.getElem_eq_getD 0).symm

/-- The rank that recovery reads among the sizes it has. -/
theorem selectRecoverySize_eq {sizes : List Nat} (hq : majority n ≤ sizes.length)
    (hn : sizes.length ≤ n) :
    selectRecoverySize sizes n = kthLargest (majority n - (n - sizes.length)) sizes ∧
      0 < majority n - (n - sizes.length) := by
  have htwo := lt_two_mul_majority n
  unfold selectRecoverySize
  simp only
  rw [if_neg (by omega), if_neg (by omega), if_pos (by omega)]
  exact ⟨rfl, by omega⟩

/-- The recovery size of a reachable majority is the largest watermark that the sizes of the
unreachable zones leave possible, and it is the size of a reachable zone. -/
theorem recovery_size_greatest (n : Nat) (sizes : List Nat) (hq : majority n ≤ sizes.length)
    (hn : sizes.length ≤ n) :
    ∃ size, selectRecoverySize sizes n = some size ∧ size ∈ sizes ∧
      IsGreatest (possibleWatermarks n sizes) size := by
  obtain ⟨size, hsize⟩ := Option.isSome_iff_exists.1 (selectRecoverySize_isSome hq hn)
  obtain ⟨hrank, hpos⟩ := selectRecoverySize_eq hq hn
  have hkth := hrank.symm.trans hsize
  have hadd : majority n - (n - sizes.length) + (n - sizes.length) = majority n := by omega
  refine ⟨size, hsize, mem_of_kthLargest hkth, ?_, ?_⟩
  · -- the unreachable zones all hold the recovery size
    have hlength : (sizes ++ List.replicate (n - sizes.length) size).length = n := by
      rw [List.length_append, List.length_replicate]
      omega
    have hall := kthLargest_append_replicate hkth hpos (n - sizes.length)
    rw [hadd] at hall
    refine ⟨lanesOf (sizes ++ List.replicate (n - sizes.length) size),
      ⟨List.replicate (n - sizes.length) size, ?_⟩, ?_⟩
    · rw [ofFn_lanesOf hlength]
    · rw [quorumDurableWatermark_eq, ofFn_lanesOf hlength, hall, Option.getD_some]
  · rintro w ⟨lanes, ⟨missing, hperm⟩, rfl⟩
    have hlength : missing.length = n - sizes.length := by
      have hlen := hperm.length_eq
      rw [List.length_ofFn, List.length_append] at hlen
      omega
    rw [quorumDurableWatermark_eq, kthLargest_perm hperm]
    cases hw : kthLargest (majority n) (sizes ++ missing) with
    | none => exact Nat.zero_le _
    | some w =>
      rw [← hadd] at hw
      rw [← hlength] at hkth hw
      exact kthLargest_append_le hkth hw

/-- Two of three zones answer: all that the larger one holds may have been acknowledged. -/
theorem recovery_size_greatest_two_of_three :
    ∃ size, selectRecoverySize [10, 20] 3 = some size ∧ size ∈ [10, 20] ∧
      IsGreatest (possibleWatermarks 3 [10, 20]) size ∧ size = 20 := by
  obtain ⟨size, hsize, hmem, hgreatest⟩ := recovery_size_greatest 3 [10, 20] (by decide) (by decide)
  have htwenty : selectRecoverySize [10, 20] 3 = some 20 := by decide
  exact ⟨size, hsize, hmem, hgreatest, Option.some.inj (hsize.symm.trans htwenty)⟩

end Chorus
