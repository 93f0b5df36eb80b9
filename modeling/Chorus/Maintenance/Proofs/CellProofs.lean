import Chorus.Maintenance.RepairSystem
import Chorus.Concurrency.Proofs.Shape

/-!
# What repair does to one copy

`CellStep` lists what a repair pass, or the rot of a copy that is not healthy, does to one copy;
none of it touches a healthy one. What a pass bases its next operation on survives every such step:
an observed copy that was not healthy is `Outdated` for good, an unreadable generation stays
unreadable, and after a rewrite every copy is `Formatted`.
-/

namespace Chorus

open Concurrency Relation

inductive CellStep (committed : Bytes) (cell : Cell) : Cell → Prop where
  | same : CellStep committed cell cell
  | install (bytes : Bytes) (h : cell.healthy committed = false) :
      CellStep committed cell ⟨cell.slot.install bytes protocolMetadata, false⟩
  | freeze : CellStep committed cell ⟨cell.slot.freeze, cell.rotted⟩
  | remove (h : cell.healthy committed = false) : CellStep committed cell ⟨cell.slot.remove, false⟩
  | rot (h : cell.healthy committed = false) :
      CellStep committed cell { cell with rotted := true }

variable {committed : Bytes} {cell cell' : Cell}

theorem Slot.freeze_of_finalized {slot : Slot} (h : ∀ c, slot.copy = some c → c.finalized = true) :
    slot.freeze = slot := by
  obtain ⟨copy, nextId, issued⟩ := slot
  cases copy with
  | none => rfl
  | some c =>
    have hc : c.freeze = c := by simp [Copy.freeze, h c rfl]
    simp [Slot.freeze, hc]

theorem Cell.healthy_iff : cell.healthy committed = true ↔ cell.rotted = false ∧
    ∃ c, cell.slot.copy = some c ∧ c.finalized = true ∧ validFormat c.metadata = true ∧
      c.bytes = committed := by
  simp only [Cell.healthy, Bool.and_eq_true, Bool.not_eq_true', Option.any_eq_true,
    decide_eq_true_eq]
  constructor
  · rintro ⟨hrotted, c, hc, ⟨hfinal, hformat⟩, hbytes⟩
    exact ⟨hrotted, c, hc, hfinal, hformat, hbytes⟩
  · rintro ⟨hrotted, c, hc, hfinal, hformat, hbytes⟩
    exact ⟨hrotted, c, hc, ⟨hfinal, hformat⟩, hbytes⟩

theorem CellStep.eq_of_healthy (h : CellStep committed cell cell')
    (hc : cell.healthy committed = true) : cell' = cell := by
  have hnot : cell.healthy committed ≠ false := by simp [hc]
  obtain ⟨-, c, hcopy, hfinal, -, -⟩ := Cell.healthy_iff.1 hc
  cases h with
  | same => rfl
  | install bytes h => exact absurd h hnot
  | remove h => exact absurd h hnot
  | rot h => exact absurd h hnot
  | freeze =>
    have hslot : cell.slot.freeze = cell.slot := by
      refine Slot.freeze_of_finalized fun c' hc' => ?_
      rw [hcopy] at hc'
      cases hc'
      exact hfinal
    rw [hslot]

/-! ## The effect of an operation -/

theorem Cell.set_self (cell : Cell) : cell.set cell.slot = cell := by simp [Cell.set]

theorem Cell.set_install (cell : Cell) (bytes : Bytes) (metadata : Metadata) :
    cell.set (cell.slot.install bytes metadata) = ⟨cell.slot.install bytes metadata, false⟩ := by
  have hne : ¬ some cell.slot.nextId = cell.slot.copy.map Copy.generation := by
    intro heq
    obtain ⟨c, hc, hgen⟩ := Option.map_eq_some_iff.1 heq.symm
    have := (cell.slot.issued c hc).1
    omega
  simp [Cell.set, Slot.install, hne]

theorem Cell.set_freeze (cell : Cell) :
    cell.set cell.slot.freeze = ⟨cell.slot.freeze, cell.rotted⟩ := by
  have hgen : cell.slot.freeze.copy.map Copy.generation = cell.slot.copy.map Copy.generation := by
    simp only [Slot.freeze, Option.map_map]
    congr 1
    funext c
    exact c.freeze_generation
  simp [Cell.set, hgen]

theorem Cell.set_remove {c : Copy} (h : cell.slot.copy = some c) :
    cell.set cell.slot.remove = ⟨cell.slot.remove, false⟩ := by
  simp [Cell.set, Slot.remove, h]

/-! ## Facts that last -/

/-- The observed generation and metageneration belong to no healthy copy. -/
structure Outdated (committed : Bytes) (observed : ReplicaSnapshot) (cell : Cell) : Prop where
  issued : observed.generation < cell.slot.nextId
  later : ∀ c, cell.slot.copy = some c → c.generation = observed.generation →
    observed.metageneration ≤ c.metageneration
  unhealthy : ∀ c, cell.slot.copy = some c → c.generation = observed.generation →
    c.metageneration = observed.metageneration → cell.healthy committed = false

/-- The generation is unreadable, if it is still there. -/
structure Rotten (generation : Nat) (cell : Cell) : Prop where
  issued : generation < cell.slot.nextId
  rotted : ∀ c, cell.slot.copy = some c → c.generation = generation → cell.rotted = true

/-- The copy, if there is one, is well formed. -/
def Formatted (cell : Cell) : Prop := ∀ c, cell.slot.copy = some c → validFormat c.metadata = true

theorem copy_install {slot : Slot} {bytes : Bytes} {metadata : Metadata} {c : Copy}
    (h : (slot.install bytes metadata).copy = some c) :
    c.generation = slot.nextId ∧ c.metadata = metadata := by
  cases h
  exact ⟨rfl, rfl⟩

theorem copy_freeze {slot : Slot} {c : Copy} (h : slot.freeze.copy = some c) :
    ∃ c₀, slot.copy = some c₀ ∧ c = c₀.freeze := by
  obtain ⟨c₀, hc₀, rfl⟩ := Option.map_eq_some_iff.1 h
  exact ⟨c₀, hc₀, rfl⟩

theorem CellStep.outdated {observed : ReplicaSnapshot} (h : CellStep committed cell cell')
    (ho : Outdated committed observed cell) : Outdated committed observed cell' := by
  cases h with
  | same => exact ho
  | install bytes =>
    -- the new generation has a number of its own
    have hne : ∀ c, (cell.slot.install bytes protocolMetadata).copy = some c →
        c.generation ≠ observed.generation := by
      intro c hc hgen
      have := (copy_install hc).1
      have := ho.issued
      omega
    exact ⟨Nat.lt_succ_of_lt ho.issued, fun c hc hgen => absurd hgen (hne c hc),
      fun c hc hgen => absurd hgen (hne c hc)⟩
  | remove => exact ⟨ho.issued, by simp [Slot.remove], by simp [Slot.remove]⟩
  | rot => exact ⟨ho.issued, ho.later, fun _ _ _ _ => by simp [Cell.healthy]⟩
  | freeze =>
    refine ⟨ho.issued, fun c hc hgen => ?_, fun c hc hgen hmeta => ?_⟩
    · obtain ⟨c₀, hc₀, rfl⟩ := copy_freeze hc
      rw [Copy.freeze_generation] at hgen
      have hle := ho.later c₀ hc₀ hgen
      unfold Copy.freeze
      split_ifs
      · exact hle
      · exact hle.trans (Nat.le_succ _)
    · obtain ⟨c₀, hc₀, rfl⟩ := copy_freeze hc
      rw [Copy.freeze_generation] at hgen
      have hle := ho.later c₀ hc₀ hgen
      by_cases hfinal : c₀.finalized = true
      · -- a finalized copy stays as it is
        have hslot : cell.slot.freeze = cell.slot := by
          refine Slot.freeze_of_finalized fun c' hc' => ?_
          rw [hc₀] at hc'
          cases hc'
          exact hfinal
        simp only [Copy.freeze, if_pos hfinal] at hmeta
        simp only [hslot]
        exact ho.unhealthy c₀ hc₀ hgen hmeta
      · -- finalizing moves the metageneration past the observed one
        simp only [Copy.freeze, if_neg hfinal] at hmeta
        omega

theorem CellStep.rotten {generation : Nat} (h : CellStep committed cell cell')
    (hr : Rotten generation cell) : Rotten generation cell' := by
  cases h with
  | same => exact hr
  | install bytes =>
    refine ⟨Nat.lt_succ_of_lt hr.issued, fun c hc hgen => ?_⟩
    have := (copy_install hc).1
    have := hr.issued
    omega
  | remove => exact ⟨hr.issued, by simp [Slot.remove]⟩
  | rot => exact ⟨hr.issued, fun _ _ _ => rfl⟩
  | freeze =>
    refine ⟨hr.issued, fun c hc hgen => ?_⟩
    obtain ⟨c₀, hc₀, rfl⟩ := copy_freeze hc
    rw [Copy.freeze_generation] at hgen
    exact hr.rotted c₀ hc₀ hgen

theorem formatted_install {slot : Slot} {bytes : Bytes} {rotted : Bool} :
    Formatted ⟨slot.install bytes protocolMetadata, rotted⟩ := by
  intro c hcopy
  rw [(copy_install hcopy).2]
  decide

theorem CellStep.formatted (h : CellStep committed cell cell') (hc : Formatted cell) :
    Formatted cell' := by
  cases h with
  | same => exact hc
  | install bytes => exact formatted_install
  | remove => exact fun c hcopy => by cases hcopy
  | rot => exact hc
  | freeze =>
    intro c hcopy
    obtain ⟨c₀, hc₀, rfl⟩ := copy_freeze hcopy
    rw [Copy.freeze_metadata]
    exact hc c₀ hc₀

end Chorus
