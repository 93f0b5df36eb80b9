import Chorus.Maintenance.Proofs.CellProofs
import Chorus.Volume.Proofs.CatalogProofs

/-!
# Repair passes leave healthy copies alone

A pass that finds a copy unreadable asks for its generation with a second request. If another pass
has replaced the copy in between, the delete removes a healthy copy (`repair_deletes_healthy`).
Where every such request finds the unreadable copy still in place, every finalize finds its copy
readable and no content collides with the committed one (`RepairOk`), no step of any pass touches a
healthy copy, and a pass counts exactly the finalizes that left one (`repair_keeps_healthy`).
-/

namespace Chorus

open Concurrency Relation

variable {n : Nat} {crc : Bytes → Nat} {committed : SegmentId → Bytes} {pass : Nat}
  {w w' : RepairWorld n}

/-- The copy, if there is one, holds the committed bytes or has another checksum. -/
def Cell.tells (crc : Bytes → Nat) (committed : Bytes) (cell : Cell) : Bool :=
  cell.slot.copy.all fun c => decide (crc c.bytes = crc committed → c.bytes = committed)

/-- A metadata read finds the copy absent or unreadable, a finalize finds it readable, and the
checksum tells what is read or finalized from the committed bytes. -/
def ReplicaOp.undisturbed (crc : Bytes → Nat) (committed : Bytes) (cell : Cell) :
    {β : Type} → ReplicaOp β → Bool
  | _, .stat => cell.slot.copy.isNone || cell.rotted
  | _, .snapshot => cell.tells crc committed
  | _, .finalize .. => !cell.rotted && cell.tells crc committed
  | _, _ => true

def RepairOp.undisturbed {β : Type} (crc : Bytes → Nat) (committed : SegmentId → Bytes)
    (w : RepairWorld n) : RepairOp n β → Bool
  | .replica id (.mk zone op) => op.undisturbed crc (committed id) (w.cells id zone)
  | .listing _ => true

/-- No other pass replaces an unreadable copy between the read that fails on it and the metadata
read that follows, no rewrite rots before its finalize, and no content that is read or finalized has
the checksum of other, committed bytes. -/
def RepairOk (crc : Bytes → Nat) (committed : SegmentId → Bytes) (s : RepairSystem n) :
    RepairSystem.Action n → Prop
  | .step pass choice => ∀ prog, s.passes[pass]? = some prog → ∀ op, prog.next? choice = some op →
      op.2.undisturbed crc committed s.world = true
  | _ => True

/-! ## What a pass guarantees -/

def Repairs (committed : SegmentId → Bytes) (w w' : RepairWorld n) : Prop :=
  ∀ id zone, CellStep (committed id) (w.cells id zone) (w'.cells id zone)

/-- What a pass relies on: others repair too, and do not count for it. -/
structure Others (committed : SegmentId → Bytes) (pass : Nat) (w w' : RepairWorld n) : Prop where
  repairs : Repairs committed w w'
  count : w'.repairedBy pass = w.repairedBy pass

/-- What a pass guarantees: it repairs, and counts for no other pass. -/
structure Own (committed : SegmentId → Bytes) (pass : Nat) (w w' : RepairWorld n) : Prop where
  repairs : Repairs committed w w'
  count : ∀ other, other ≠ pass → w'.repairedBy other = w.repairedBy other

theorem Repairs.refl (w : RepairWorld n) : Repairs committed w w := fun _ _ => .same

theorem Own.refl (w : RepairWorld n) : Own committed pass w w := ⟨.refl w, fun _ _ => rfl⟩

theorem Repairs.set {id : SegmentId} {zone : Fin n} {cell : Cell}
    (h : CellStep (committed id) (w.cells id zone) cell) (log : List FinalizedCopy) :
    Repairs committed w { w.set id zone cell with finalized := log } := by
  intro id' zone'
  simp only [RepairWorld.set]
  by_cases hid : id' = id
  · subst hid
    by_cases hzone : zone' = zone
    · subst hzone
      simpa using h
    · rw [Function.update_self, Function.update_of_ne hzone]
      exact .same
  · rw [Function.update_of_ne hid]
    exact .same

theorem cells_set (w : RepairWorld n) (id : SegmentId) (zone : Fin n) (cell : Cell) :
    (w.set id zone cell).cells id zone = cell := by
  simp [RepairWorld.set]

theorem Own.set {id : SegmentId} {zone : Fin n} {cell : Cell}
    (h : CellStep (committed id) (w.cells id zone) cell) :
    Own committed pass w (w.set id zone cell) :=
  ⟨Repairs.set h w.finalized, fun _ _ => rfl⟩

/-- A fact about one copy that repair steps keep lasts while others run. -/
theorem cell_stable {id : SegmentId} {zone : Fin n} {P : Cell → Prop}
    (hP : ∀ {cell cell' : Cell}, CellStep (committed id) cell cell' → P cell → P cell')
    (h : ReflTransGen (Others committed pass) w w') (hw : P (w.cells id zone)) :
    P (w'.cells id zone) :=
  stable_of_steps (P := fun w => P (w.cells id zone))
    (fun _ _ hstep => hP (hstep.repairs id zone)) h hw

theorem count_stable (h : ReflTransGen (Others committed pass) w w') :
    w'.repairedBy pass = w.repairedBy pass :=
  stable_of_steps (P := fun w' => w'.repairedBy pass = w.repairedBy pass)
    (fun _ _ hstep heq => hstep.count.trans heq) h rfl

/-- The count of a pass over an operation that finalizes nothing. -/
theorem count_of_log {w₁ w₂ w₃ : RepairWorld n} (h₁ : ReflTransGen (Others committed pass) w w₁)
    (h₃ : ReflTransGen (Others committed pass) w₂ w₃) (hlog : w₂.finalized = w₁.finalized) :
    w₃.repairedBy pass = w.repairedBy pass := by
  rw [count_stable h₃, RepairWorld.repairedBy, hlog]
  exact count_stable h₁

/-! ## Single operations -/

/-- The machine of a pass in the runs where its operations are not disturbed. -/
abbrev undisturbedMachine (n : Nat) (crc : Bytes → Nat) (committed : SegmentId → Bytes)
    (pass : Nat) : Machine (RepairOp n) (RepairWorld n) RepairOutcome :=
  (repairMachine n crc committed pass).restrict fun w op => op.2.undisturbed crc committed w = true

/-- The specification of a pass or a part of it. -/
abbrev Repairing {α : Type} (crc : Bytes → Nat) (committed : SegmentId → Bytes) (pass : Nat)
    (prog : RepairProg n α) (Q : α → RepairWorld n → Prop) (w : RepairWorld n) : Prop :=
  wp (undisturbedMachine n crc committed pass) prog (Others committed pass) (Own committed pass) Q w

/-- What an operation on a copy leaves: it is not applied, it is applied or torn without an answer,
or it is answered. -/
theorem exec_replica_cases {β : Type} {id : SegmentId} {zone : Fin n} {op : ReplicaOp β}
    {ω : RepairOutcome} {b : β}
    (h : (undisturbedMachine n crc committed pass).exec w (.replica id (.mk zone op)) ω =
      some (w', b)) :
    op.undisturbed crc (committed id) (w.cells id zone) = true ∧
    ((∃ e, w' = w ∧ b = op.failure e) ∨
    (∃ e, w' = w.set id zone
      ((w.cells id zone).set (op.perform crc zone (w.cells id zone).slot).1) ∧ b = op.failure e) ∨
    (∃ e written slot, op.tear (w.cells id zone).slot written = some slot ∧
      w' = w.set id zone ((w.cells id zone).set slot) ∧ b = op.failure e) ∨
    ((op.readsContent = true → (w.cells id zone).rotted = false) ∧
      b = (op.perform crc zone (w.cells id zone).slot).2 ∧
      w' = { w.set id zone
        ((w.cells id zone).set (op.perform crc zone (w.cells id zone).slot).1) with
        finalized := if op.finalizes b then
          ⟨pass, id, zone, ((w.cells id zone).set
            (op.perform crc zone (w.cells id zone).slot).1).healthy (committed id)⟩ :: w.finalized
          else w.finalized })) := by
  simp only [undisturbedMachine, Machine.restrict, repairMachine] at h
  split_ifs at h with hallowed
  refine ⟨hallowed, ?_⟩
  cases ω with
  | listed result => simp [ZoneOp.repair] at h
  | torn written code =>
    obtain ⟨slot, hslot, heq⟩ := Option.map_eq_some_iff.1 h
    cases heq
    exact Or.inr (Or.inr (Or.inl ⟨_, written, slot, hslot, rfl, rfl⟩))
  | replica outcome =>
    cases outcome with
    | failed code applied =>
      simp only [ZoneOp.repair] at h
      split_ifs at h with hfail happlied
      · cases h
        exact Or.inr (Or.inl ⟨_, rfl, rfl⟩)
      · cases h
        exact Or.inl ⟨_, rfl, rfl⟩
    | answered =>
      simp only [ZoneOp.repair] at h
      by_cases hrotted : op.readsContent = true ∧ (w.cells id zone).rotted = true
      · rw [if_pos hrotted] at h
        cases h
        exact Or.inl ⟨_, rfl, rfl⟩
      · rw [if_neg hrotted] at h
        refine Or.inr (Or.inr (Or.inr ?_))
        have hread : op.readsContent = true → (w.cells id zone).rotted = false := by
          intro hcontent
          by_contra hnot
          exact hrotted ⟨hcontent, by simpa using hnot⟩
        simp only [Option.some.injEq, Prod.mk.injEq] at h
        obtain ⟨rfl, rfl⟩ := h
        exact ⟨hread, rfl, by simp [RepairWorld.healthy, cells_set]⟩

theorem RepairWorld.set_self (w : RepairWorld n) (id : SegmentId) (zone : Fin n) :
    w.set id zone (w.cells id zone) = w := by
  simp [RepairWorld.set]

/-- An operation that neither changes the object nor finalizes it. -/
structure ReadsOnly {β : Type} (op : ReplicaOp β) : Prop where
  keeps : ∀ crc zone slot, (op.perform crc zone slot).1 = slot
  whole : ∀ slot written, op.tear slot written = none
  silent : ∀ b, op.finalizes b = false

theorem readsOnly_snapshot : ReadsOnly .snapshot where
  keeps crc zone slot := by
    simp only [ReplicaOp.perform]
    split <;> rfl
  whole _ _ := rfl
  silent _ := rfl

theorem readsOnly_stat : ReadsOnly .stat where
  keeps crc zone slot := by
    simp only [ReplicaOp.perform]
    split <;> rfl
  whole _ _ := rfl
  silent _ := rfl

/-- A read changes nothing, and fails or tells what is there. -/
theorem exec_read_cases {β : Type} {id : SegmentId} {zone : Fin n} {op : ReplicaOp β}
    (hop : ReadsOnly op) {ω : RepairOutcome} {b : β}
    (h : (undisturbedMachine n crc committed pass).exec w (.replica id (.mk zone op)) ω =
      some (w', b)) :
    w' = w ∧ op.undisturbed crc (committed id) (w.cells id zone) = true ∧
      ((∃ e, b = op.failure e) ∨ ((op.readsContent = true → (w.cells id zone).rotted = false) ∧
        b = (op.perform crc zone (w.cells id zone).slot).2)) := by
  obtain ⟨hallowed, hcases⟩ := exec_replica_cases h
  rcases hcases with ⟨e, rfl, hb⟩ | ⟨e, rfl, hb⟩ | ⟨e, written, slot, hslot, -⟩ | ⟨hread, hb, rfl⟩
  · exact ⟨rfl, hallowed, Or.inl ⟨e, hb⟩⟩
  · rw [hop.keeps, Cell.set_self, RepairWorld.set_self]
    exact ⟨rfl, hallowed, Or.inl ⟨e, hb⟩⟩
  · rw [hop.whole] at hslot
    cases hslot
  · rw [hop.keeps, Cell.set_self, RepairWorld.set_self, hop.silent]
    exact ⟨rfl, hallowed, Or.inr ⟨hread, hb⟩⟩

/-- What a pass knows after it has read a copy that is not healthy. -/
theorem repairing_snapshot {id : SegmentId} {zone : Fin n} :
    Repairing crc committed pass (sendCopy id zone .snapshot) (fun b w' =>
      w'.repairedBy pass = w.repairedBy pass ∧ ∀ observed, b = .ok observed →
        copyIsHealthy observed (committed id) protocolMetadata (crc (committed id)) = false →
        Outdated (committed id) observed (w'.cells id zone)) w := by
  refine fun w₁ h₁ ω w₂ b he => ?_
  obtain ⟨rfl, -, hb⟩ := exec_read_cases readsOnly_snapshot he
  refine ⟨.refl _, fun w₃ h₃ => ⟨(count_stable h₃).trans (count_stable h₁), ?_⟩⟩
  rintro observed rfl hhealthy
  refine cell_stable CellStep.outdated h₃ ?_
  rcases hb with ⟨e, hb⟩ | ⟨-, hb⟩
  · cases hb
  · simp only [ReplicaOp.perform] at hb
    split at hb
    · cases hb
    · rename_i c hcopy
      cases hb
      refine ⟨((w₂.cells id zone).slot.issued c hcopy).1, fun c' hc' _ => ?_, fun c' hc' _ _ => ?_⟩
      · rw [hcopy] at hc'
        cases hc'
        exact le_rfl
      · by_contra hnot
        obtain ⟨-, c'', hc'', hfinal, hformat, hbytes⟩ := Cell.healthy_iff.1 (by simpa using hnot)
        rw [hcopy] at hc''
        cases hc''
        have hlookup : c.metadata.lookup metaFormat = some formatVersion := by
          simpa [validFormat] using hformat
        simp [copyIsHealthy, ReplicaOp.snapshotOf, hfinal, hformat, hbytes, protocolMetadata,
          hlookup] at hhealthy

/-- What a pass knows after it has asked for the generation of an unreadable copy. -/
theorem repairing_stat {id : SegmentId} {zone : Fin n} :
    Repairing crc committed pass (sendCopy id zone .stat) (fun b w' =>
      w'.repairedBy pass = w.repairedBy pass ∧ ∀ stat, b = .ok stat →
        Rotten stat.generation (w'.cells id zone)) w := by
  refine fun w₁ h₁ ω w₂ b he => ?_
  obtain ⟨rfl, hunraced, hb⟩ := exec_read_cases readsOnly_stat he
  refine ⟨.refl _, fun w₃ h₃ => ⟨(count_stable h₃).trans (count_stable h₁), ?_⟩⟩
  rintro stat rfl
  refine cell_stable CellStep.rotten h₃ ?_
  rcases hb with ⟨e, hb⟩ | ⟨-, hb⟩
  · cases hb
  · simp only [ReplicaOp.perform] at hb
    split at hb
    · cases hb
    · rename_i c hcopy
      cases hb
      have hrotted : (w₂.cells id zone).rotted = true := by
        simpa [ReplicaOp.undisturbed, hcopy] using hunraced
      exact ⟨((w₂.cells id zone).slot.issued c hcopy).1, fun _ _ _ => hrotted⟩

theorem repairing_delete {id : SegmentId} {zone : Fin n} {generation : Nat}
    (hrotten : Rotten generation (w.cells id zone)) :
    Repairing crc committed pass (sendCopy id zone (.delete generation)) (fun _ w' =>
      w'.repairedBy pass = w.repairedBy pass) w := by
  refine fun w₁ h₁ ω w₂ b he => ?_
  have hrotten₁ := cell_stable CellStep.rotten h₁ hrotten
  have hset : CellStep (committed id) (w₁.cells id zone) ((w₁.cells id zone).set
      ((ReplicaOp.delete generation).perform crc zone (w₁.cells id zone).slot).1) := by
    simp only [ReplicaOp.perform]
    split
    · rw [Cell.set_self]
      exact .same
    · rename_i c hcopy
      split_ifs with hgen
      · rw [Cell.set_self]
        exact .same
      · rw [Cell.set_remove hcopy]
        have hrotted := hrotten₁.rotted c hcopy (by simpa using hgen)
        exact .remove (by simp [Cell.healthy, hrotted])
  rcases (exec_replica_cases he).2 with ⟨e, rfl, -⟩ | ⟨e, rfl, -⟩ | ⟨e, written, slot, hslot, -⟩ |
    ⟨-, -, rfl⟩
  · exact ⟨.refl _, fun _ h₃ => count_of_log h₁ h₃ rfl⟩
  · exact ⟨.set hset, fun _ h₃ => count_of_log h₁ h₃ rfl⟩
  · cases hslot
  · exact ⟨.set hset, fun _ h₃ => count_of_log h₁ h₃ rfl⟩

/-- The preconditions of a rewrite hold of no healthy copy. -/
theorem unhealthy_of_match {committed : Bytes} {cell : Cell} {current : Option ReplicaSnapshot}
    (hcurrent : ∀ observed, current = some observed → Outdated committed observed cell)
    (hmatch : cell.slot.copy.map (fun c => (c.generation, c.metageneration)) =
      current.map fun o => (o.generation, o.metageneration)) : cell.healthy committed = false := by
  cases hcopy : cell.slot.copy with
  | none => simp [Cell.healthy, hcopy]
  | some c =>
    cases current with
    | none => simp [hcopy] at hmatch
    | some observed =>
      simp only [hcopy, Option.map_some, Option.some.injEq, Prod.mk.injEq] at hmatch
      exact (hcurrent observed rfl).unhealthy c hcopy hmatch.1 hmatch.2

theorem repairing_replace {id : SegmentId} {zone : Fin n} {bytes : Bytes}
    {current : Option ReplicaSnapshot}
    (hcurrent : ∀ observed, current = some observed →
      Outdated (committed id) observed (w.cells id zone)) :
    Repairing crc committed pass
      (sendCopy id zone (.replaceAppendable current bytes protocolMetadata)) (fun b w' =>
        w'.repairedBy pass = w.repairedBy pass ∧ ∀ token, b = .ok token →
          Formatted (w'.cells id zone)) w := by
  refine fun w₁ h₁ ω w₂ b he => ?_
  have hcurrent₁ : ∀ observed, current = some observed →
      Outdated (committed id) observed (w₁.cells id zone) := fun observed heq =>
    cell_stable CellStep.outdated h₁ (hcurrent observed heq)
  have hinstall :
      ∀ data, (w₁.cells id zone).slot.copy.map (fun c => (c.generation, c.metageneration)) =
      current.map (fun o => (o.generation, o.metageneration)) →
      CellStep (committed id) (w₁.cells id zone)
        ((w₁.cells id zone).set ((w₁.cells id zone).slot.install data protocolMetadata)) := by
    intro data hmatch
    rw [Cell.set_install]
    exact .install data (unhealthy_of_match hcurrent₁ hmatch)
  have hset : CellStep (committed id) (w₁.cells id zone) ((w₁.cells id zone).set
      ((ReplicaOp.replaceAppendable current bytes protocolMetadata).perform crc zone
        (w₁.cells id zone).slot).1) := by
    simp only [ReplicaOp.perform]
    split_ifs with hmatch
    · exact hinstall bytes hmatch
    · rw [Cell.set_self]
      exact .same
  rcases (exec_replica_cases he).2 with ⟨e, rfl, rfl⟩ | ⟨e, rfl, rfl⟩ |
    ⟨e, written, slot, hslot, rfl, rfl⟩ | ⟨-, hb, rfl⟩
  · exact ⟨.refl _, fun w₃ h₃ => ⟨count_of_log h₁ h₃ rfl, fun token htoken => by cases htoken⟩⟩
  · exact ⟨.set hset, fun w₃ h₃ => ⟨count_of_log h₁ h₃ rfl, fun token htoken => by cases htoken⟩⟩
  · simp only [ReplicaOp.tear] at hslot
    split_ifs at hslot with hmatch
    cases hslot
    exact ⟨.set (hinstall _ hmatch), fun w₃ h₃ =>
      ⟨count_of_log h₁ h₃ rfl, fun token htoken => by cases htoken⟩⟩
  · refine ⟨.set hset, fun w₃ h₃ => ⟨count_of_log h₁ h₃ rfl, fun token htoken => ?_⟩⟩
    refine cell_stable CellStep.formatted h₃ ?_
    rw [htoken] at hb
    simp only [ReplicaOp.perform] at hb ⊢
    split_ifs at hb ⊢ with hmatch
    simp only [cells_set, Cell.set_install]
    exact formatted_install

/-- A finalize answered with the committed checksum has left a healthy copy, and no other finalize
has. -/
theorem repairing_finalize {id : SegmentId} {zone : Fin n} {token : AppendToken} {writeOffset : Nat}
    (hformat : Formatted (w.cells id zone)) :
    Repairing crc committed pass (sendCopy id zone (.finalize token writeOffset)) (fun b w' =>
      w'.repairedBy pass = w.repairedBy pass +
        match b with
        | .ok finalized => if finalized.crc32c = some (crc (committed id)) then 1 else 0
        | .error _ => 0) w := by
  refine fun w₁ h₁ ω w₂ b he => ?_
  have hformat₁ := cell_stable CellStep.formatted h₁ hformat
  have hset : CellStep (committed id) (w₁.cells id zone) ((w₁.cells id zone).set
      ((ReplicaOp.finalize token writeOffset).perform crc zone (w₁.cells id zone).slot).1) := by
    simp only [ReplicaOp.perform]
    split
    · rw [Cell.set_self]
      exact .same
    · split_ifs
      · rw [Cell.set_self]
        exact .same
      · rw [Cell.set_freeze]
        exact .freeze
  obtain ⟨hundisturbed, hcases⟩ := exec_replica_cases he
  rcases hcases with ⟨e, rfl, rfl⟩ | ⟨e, rfl, rfl⟩ | ⟨e, written, slot, hslot, -⟩ | ⟨-, hb, rfl⟩
  · exact ⟨.refl _, fun _ h₃ => count_of_log h₁ h₃ rfl⟩
  · exact ⟨.set hset, fun _ h₃ => count_of_log h₁ h₃ rfl⟩
  · cases hslot
  · cases b with
    | error e => exact ⟨.set hset, fun _ h₃ => count_of_log h₁ h₃ rfl⟩
    | ok finalized =>
      refine ⟨⟨Repairs.set hset _, fun other hother => ?_⟩, fun w₃ h₃ => ?_⟩
      · simp [RepairWorld.repairedBy, ReplicaOp.finalizes, hother.symm]
      · change w₃.repairedBy pass = _
        rw [count_stable h₃, ← count_stable h₁]
        simp only [ReplicaOp.perform] at hb ⊢
        split at hb
        · cases hb
        · rename_i c hcopy
          split_ifs at hb with hlength
          cases hb
          have hfreeze : (w₁.cells id zone).slot.freeze.copy = some c.freeze := by
            simp [Slot.freeze, hcopy]
          have hhealthy : (Cell.mk (w₁.cells id zone).slot.freeze (w₁.cells id zone).rotted).healthy
              (committed id) = decide (crc c.bytes = crc (committed id)) := by
            rw [Bool.eq_iff_iff, Cell.healthy_iff, decide_eq_true_iff]
            constructor
            · rintro ⟨-, c', hc', -, -, hbytes⟩
              rw [hfreeze] at hc'
              cases hc'
              rw [← hbytes, Copy.freeze_bytes]
            · intro heq
              simp only [ReplicaOp.undisturbed, Cell.tells, hcopy, Option.all_some,
                Bool.and_eq_true, Bool.not_eq_true', decide_eq_true_eq] at hundisturbed
              refine ⟨hundisturbed.1, c.freeze, hfreeze, c.freeze_finalized, ?_, ?_⟩
              · rw [Copy.freeze_metadata]
                exact hformat₁ c hcopy
              · rw [Copy.freeze_bytes, hundisturbed.2 heq]
          simp [RepairWorld.repairedBy, ReplicaOp.finalizes, ReplicaOp.snapshotOf, hlength,
            Cell.set_freeze, hhealthy, List.countP_cons]

/-! ## A pass -/

/-- The count of a pass after one rewrite. -/
def rewritten (outcome : Except RepairCopyFailure Bool) : Nat :=
  match outcome with
  | .ok true => 1
  | _ => 0

theorem repairing_ret {α : Type} {a : α} {Q : α → RepairWorld n → Prop}
    (h : ∀ w', w'.repairedBy pass = w.repairedBy pass → Q a w') :
    Repairing crc committed pass (.ret a) Q w :=
  fun w' hw' => h w' (count_stable hw')

theorem repairing_rewriteCopy {id : SegmentId} {zone : Fin n} {current : Option ReplicaSnapshot}
    (hcurrent : ∀ observed, current = some observed →
      Outdated (committed id) observed (w.cells id zone)) :
    Repairing crc committed pass
      (rewriteCopy id zone (committed id) protocolMetadata (crc (committed id)) current)
      (fun outcome w' => w'.repairedBy pass = w.repairedBy pass + rewritten outcome) w := by
  refine wp_seq (repairing_replace hcurrent) fun b w₁ ⟨hcount₁, hformat⟩ => ?_
  cases b with
  | error error => exact repairing_ret fun w' hw' => hw'.trans hcount₁
  | ok token =>
    refine wp_seq (repairing_finalize (hformat token rfl)) fun b w₂ hcount₂ => ?_
    rw [hcount₁] at hcount₂
    cases b with
    | error error => exact repairing_ret fun w' hw' => hw'.trans hcount₂
    | ok finalized =>
      refine repairing_ret fun w' hw' => ?_
      rw [hw', hcount₂]
      by_cases hchecksum : finalized.crc32c = some (crc (committed id))
      · simp [hchecksum, rewritten]
      · simp [hchecksum, rewritten]

theorem repairing_repairSealedCopy {id : SegmentId} {zone : Fin n} :
    Repairing crc committed pass
      (repairSealedCopy id zone (committed id) protocolMetadata (crc (committed id)))
      (fun outcome w' => w'.repairedBy pass = w.repairedBy pass + rewritten outcome) w := by
  have hrewrite : ∀ {w₁ : RepairWorld n} {current : Option ReplicaSnapshot},
      w₁.repairedBy pass = w.repairedBy pass →
      (∀ observed, current = some observed → Outdated (committed id) observed (w₁.cells id zone)) →
      Repairing crc committed pass
        (rewriteCopy id zone (committed id) protocolMetadata (crc (committed id)) current)
        (fun outcome w' => w'.repairedBy pass = w.repairedBy pass + rewritten outcome) w₁ := by
    intro w₁ current hcount hcurrent
    rw [← hcount]
    exact repairing_rewriteCopy hcurrent
  refine wp_seq repairing_snapshot fun b w₁ ⟨hcount₁, houtdated⟩ => ?_
  cases b with
  | ok snapshot =>
    simp only
    split_ifs with hhealthy
    · exact repairing_ret fun w' hw' => hw'.trans hcount₁
    · refine hrewrite hcount₁ fun observed heq => ?_
      cases heq
      exact houtdated snapshot rfl (by simpa using hhealthy)
  | error error =>
    simp only
    split_ifs with habsent hloss
    · exact hrewrite hcount₁ (by simp)
    · refine wp_seq repairing_stat fun b w₂ ⟨hcount₂, hrotten⟩ => ?_
      cases b with
      | error error => exact repairing_ret fun w' hw' => hw'.trans (hcount₂.trans hcount₁)
      | ok stat =>
        refine wp_seq (repairing_delete (hrotten stat rfl)) fun b w₃ hcount₃ => ?_
        have hcount := hcount₃.trans (hcount₂.trans hcount₁)
        cases b with
        | ok u => exact hrewrite hcount (by simp)
        | error error =>
          simp only
          split_ifs
          · exact hrewrite hcount (by simp)
          · exact repairing_ret fun w' hw' => hw'.trans hcount
    · exact repairing_ret fun w' hw' => hw'.trans hcount₁

theorem repairing_repairTargets {id : SegmentId} {zones : List (Fin n)} {report : RepairReport}
    (hreport : report.objectsRepaired = w.repairedBy pass) :
    Repairing crc committed pass (repairTargets id (committed id) (crc (committed id)) zones report)
      (fun report w' => report.objectsRepaired = w'.repairedBy pass) w := by
  induction zones generalizing report w with
  | nil => exact repairing_ret fun w' hw' => hreport.trans hw'.symm
  | cons zone zones ih =>
    refine wp_seq repairing_repairSealedCopy fun outcome w₁ hcount => ih ?_
    rw [hcount, ← hreport]
    match outcome with
    | .ok true => rfl
    | .ok false => rfl
    | .error failure =>
      simp only [RepairReport.record, rewritten]
      split_ifs <;> rfl

/-- A part of a pass that only reads. -/
def RepairOp.reads {β : Type} : RepairOp n β → Prop
  | .replica _ op => op.isSnapshot = true
  | .listing _ => True

/-- The checksum tells the contents of the answer from the committed bytes. -/
def RepairOp.Tells {β : Type} (crc : Bytes → Nat) (committed : SegmentId → Bytes) :
    RepairOp n β → β → Prop
  | .replica id op, answer =>
    op.Shows (fun bytes => crc bytes = crc (committed id) → bytes = committed id) answer
  | .listing _, _ => True

theorem exec_reads {β : Type} {op : RepairOp n β} (hop : op.reads) {ω : RepairOutcome} {b : β}
    (h : (undisturbedMachine n crc committed pass).exec w op ω = some (w', b)) :
    w' = w ∧ op.Tells crc committed b := by
  cases op with
  | listing op =>
    simp only [undisturbedMachine, Machine.restrict, repairMachine] at h
    split_ifs at h
    cases ω with
    | listed result =>
      cases h
      exact ⟨rfl, trivial⟩
    | _ => cases h
  | replica id op =>
    cases op with
    | mk zone op =>
      cases op with
      | snapshot =>
        obtain ⟨hworld, htells, hb⟩ := exec_read_cases readsOnly_snapshot h
        refine ⟨hworld, fun bytes hbytes => ?_⟩
        rcases hb with ⟨e, rfl⟩ | ⟨-, rfl⟩
        · cases hbytes
        · simp only [ReplicaOp.undisturbed, Cell.tells] at htells
          simp only [ReplicaOp.perform] at hbytes
          split at hbytes
          · cases hbytes
          · rename_i c hcopy
            rw [hcopy, Option.all_some, decide_eq_true_eq] at htells
            rw [List.mem_singleton.1 hbytes]
            exact htells
      | _ => exact absurd hop Bool.noConfusion

theorem repairing_reads {α : Type} {prog : RepairProg n α} {P : α → Prop}
    (hsends : prog.Sends RepairOp.reads)
    (hreturns : prog.ReturnsGiven (RepairOp.Tells crc committed) P) :
    Repairing crc committed pass prog
      (fun a w' => P a ∧ w'.repairedBy pass = w.repairedBy pass) w := by
  have hread : wp (undisturbedMachine n crc committed pass) prog (Others committed pass)
      (fun w w' => w' = w) (fun a _ => P a) w :=
    wp_of_answers (A := fun _ _ => RepairOp.Tells crc committed) hsends (fun _ _ => hreturns)
      fun op w w' ω b hop he => ⟨(exec_reads hop he).1, fun _ _ => (exec_reads hop he).2⟩
  refine wp_mono (wp_frame (fun w' => w'.repairedBy pass = w.repairedBy pass) hread rfl ?_ ?_)
    (fun _ _ => id) ?_ fun _ _ => id
  · exact fun _ _ hothers heq => hothers.count.trans heq
  · rintro _ _ rfl heq
    exact heq
  · rintro _ _ rfl
    exact .refl _

theorem objectsRepaired_assess (healths : List (Fin n × CopyHealth)) (report : RepairReport) :
    (healths.foldl (fun report health => report.assess health.2) report).objectsRepaired =
      report.objectsRepaired := by
  induction healths generalizing report with
  | nil => rfl
  | cons health healths ih =>
    rw [List.foldl_cons, ih]
    cases health.2 <;> rfl

theorem repairing_repairSegments {index : SealedCopyIndex n} {floor : Nat}
    {segments : List SegmentDescriptor} {report : RepairReport}
    (hsegments : ∀ segment ∈ segments, segment.crc32c = crc (committed segment.id))
    (hreport : report.objectsRepaired = w.repairedBy pass) :
    Repairing crc committed pass (repairSegments crc index floor segments report)
      (fun report w' => report.objectsRepaired = w'.repairedBy pass) w := by
  induction segments generalizing report w with
  | nil => exact repairing_ret fun w' hw' => hreport.trans hw'.symm
  | cons segment segments ih =>
    have hrest : ∀ s ∈ segments, s.crc32c = crc (committed s.id) := fun s hs =>
      hsegments s (List.mem_cons_of_mem _ hs)
    simp only [repairSegments]
    split_ifs with hskip hnone
    · exact ih hrest hreport
    · refine ih hrest ?_
      rw [objectsRepaired_assess]
      exact hreport
    · have hexpected := hsegments segment List.mem_cons_self
      have hsource : (readOneSealedSource crc segment : RepairProg n _).ReturnsGiven
          (RepairOp.Tells crc committed) (IfOk fun bytes => bytes = committed segment.id) := by
        have hread := readSealedSegmentBytes_returns (n := n) crc segment
          (fun bytes => crc bytes = crc (committed segment.id) → bytes = committed segment.id) false
        refine Prog.ReturnsGiven.bind (hread.lift (B := RepairOp.Tells crc committed)
          fun _ _ htells => htells) fun result hresult => ?_
        cases result with
        | error error => trivial
        | ok read => exact hresult.1 (hresult.2.checksum.trans hexpected)
      have hreads : (readOneSealedSource crc segment : RepairProg n _).Sends RepairOp.reads :=
        (readSealedSegmentBytes_sends.lift fun _ hop => hop).bind fun _ => trivial
      refine wp_seq (repairing_reads hreads hsource) fun result w₁ ⟨hresult, hcount⟩ => ?_
      have hassess : ∀ healths : List (Fin n × CopyHealth),
          (healths.foldl (fun (report : RepairReport) health => report.assess health.2)
            { report with segmentsExamined := report.segmentsExamined + 1 }).objectsRepaired =
            w₁.repairedBy pass := by
        intro healths
        rw [objectsRepaired_assess, hcount]
        exact hreport
      cases result with
      | error error => exact ih hrest (hassess _)
      | ok bytes =>
        rw [show bytes = committed segment.id from hresult, hexpected]
        exact wp_seq (repairing_repairTargets (hassess _)) fun _ _ hrepaired => ih hrest hrepaired

theorem repairing_repairSealedPass {segments : List SegmentDescriptor} {floor : Nat}
    (hsegments : ∀ segment ∈ segments, segment.crc32c = crc (committed segment.id))
    (hcount : w.repairedBy pass = 0) :
    Repairing crc committed pass (repairSealedPass crc segments floor)
      (fun report w' => report.objectsRepaired = w'.repairedBy pass) w := by
  refine wp_seq (repairing_reads (P := fun _ => True) ?_ (Prog.returns_true _).given)
    fun index w₁ ⟨_, hcount₁⟩ => ?_
  · exact ⟨fun zone => ⟨trivial, fun _ => trivial⟩, fun _ => trivial⟩
  · exact repairing_repairSegments hsegments (hcount₁.trans hcount).symm

end Chorus
