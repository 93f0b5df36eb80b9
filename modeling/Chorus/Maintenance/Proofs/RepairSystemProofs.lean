import Chorus.Maintenance.Proofs.RepairProofs

/-!
# Any number of repair passes among each other

The invariant of all repair passes: each of them is within its specification, whatever the others
do.
-/

namespace Chorus

open Concurrency Relation

variable {n : Nat} {crc : Bytes → Nat} {committed : SegmentId → Bytes}

structure RepairInv (crc : Bytes → Nat) (committed : SegmentId → Bytes) (s : RepairSystem n) :
    Prop where
  passes : ∀ (pass : Nat) (prog : RepairProg n RepairReport), s.passes[pass]? = some prog →
    Repairing crc committed pass prog
      (fun report w => report.objectsRepaired = w.repairedBy pass) s.world
  /-- Nothing is counted for a pass that has not started. -/
  unstarted : ∀ pass, s.passes.length ≤ pass → s.world.repairedBy pass = 0

theorem Own.others {pass other : Nat} {w w' : RepairWorld n} (h : Own committed pass w w')
    (hne : other ≠ pass) : Others committed other w w' :=
  ⟨h.repairs, h.count other hne⟩

/-- What a step does to the copies, and that it keeps the invariant. -/
theorem RepairInv.step {s s' : RepairSystem n} {action : RepairSystem.Action n}
    (h : RepairInv crc committed s) (hok : RepairOk crc committed s action)
    (hs : s.step crc committed action = some s') :
    RepairInv crc committed s' ∧ Repairs committed s.world s'.world := by
  cases action with
  | start segments floor =>
    simp only [RepairSystem.step] at hs
    split_ifs at hs with hsegments
    cases hs
    refine ⟨⟨fun pass prog hprog => ?_, fun pass hpass => ?_⟩, .refl _⟩
    · rw [List.getElem?_append] at hprog
      split at hprog
      · exact h.passes pass prog hprog
      · rename_i hlen
        rw [List.getElem?_singleton] at hprog
        split at hprog
        · cases hprog
          exact repairing_repairSealedPass hsegments (h.unstarted pass (Nat.le_of_not_lt hlen))
        · cases hprog
    · rw [List.length_append] at hpass
      exact h.unstarted pass (by omega)
  | step pass choice =>
    simp only [RepairSystem.step] at hs
    split at hs
    · cases hs
    · rename_i prog hprog
      obtain ⟨⟨w, prog'⟩, hstep, rfl⟩ := Option.map_eq_some_iff.1 hs
      have hundisturbed : (undisturbedMachine n crc committed pass).step prog s.world choice =
          some (w, prog') := Machine.restrict_step (hok prog hprog) hstep
      obtain ⟨hown, hprog'⟩ := wp_step (h.passes pass prog hprog) hundisturbed
      have hown : Own committed pass s.world w := by
        cases hown with
        | refl => exact .refl _
        | single hown => exact hown
      have hlt : pass < s.passes.length := (List.getElem?_eq_some_iff.1 hprog).1
      refine ⟨⟨fun other p hp => ?_, fun other hother => ?_⟩, hown.repairs⟩
      · by_cases heq : other = pass
        · subst heq
          rw [List.getElem?_set_self hlt] at hp
          cases hp
          exact hprog'
        · rw [List.getElem?_set_ne (Ne.symm heq)] at hp
          exact wp_rely (h.passes other p hp) (.single (hown.others heq))
      · rw [List.length_set] at hother
        rw [hown.count other (by omega)]
        exact h.unstarted other hother
  | rot id zone =>
    simp only [RepairSystem.step] at hs
    split_ifs at hs with hrot
    cases hs
    have hrepairs : Repairs committed s.world
        (s.world.set id zone { s.world.cells id zone with rotted := true }) :=
      Repairs.set (.rot (by simpa using hrot.2)) s.world.finalized
    exact ⟨⟨fun pass prog hprog => wp_rely (h.passes pass prog hprog) (.single ⟨hrepairs, rfl⟩),
      h.unstarted⟩, hrepairs⟩

theorem RepairInv.init (cells : SegmentId → Fin n → Cell) :
    RepairInv crc committed (RepairSystem.init cells) where
  passes := by simp [RepairSystem.init]
  unstarted _ _ := rfl

/-- In every interleaving of any number of repair passes in which no other pass replaces an
unreadable copy between the read that fails on it and the metadata read that follows, no rewrite
rots before its finalize, and no content that is read or finalized collides with the committed
bytes: a healthy copy is never deleted or replaced again, and a pass that has returned counts as
repaired exactly the finalizes that left a healthy copy. -/
theorem repair_keeps_healthy {cells : SegmentId → Fin n → Cell} {s s' : RepairSystem n}
    (hs : Reaches (RepairSystem.step crc committed) (RepairOk crc committed) (.init cells) s)
    (hs' : Reaches (RepairSystem.step crc committed) (RepairOk crc committed) s s') :
    (∀ id zone, s.world.healthy committed id zone = true →
      s'.world.cells id zone = s.world.cells id zone) ∧
    ∀ (pass : Nat) (report : RepairReport), s.passes[pass]? = some (.ret report) →
      report.objectsRepaired = s.world.repairedBy pass := by
  have hinv : RepairInv crc committed s :=
    hs.invariant (.init cells) fun _ _ _ h hok hstep => (h.step hok hstep).1
  refine ⟨fun id zone hhealthy => ?_, fun pass report hreport => ?_⟩
  · refine (hs'.invariant (I := fun t => RepairInv crc committed t ∧
      t.world.cells id zone = s.world.cells id zone) ⟨hinv, rfl⟩ ?_).2
    rintro t t' action ⟨ht, hcell⟩ hok hstep
    obtain ⟨ht', hrepairs⟩ := ht.step hok hstep
    refine ⟨ht', ?_⟩
    rw [(hrepairs id zone).eq_of_healthy (by rw [hcell]; exact hhealthy), hcell]
  · exact hinv.passes pass (.ret report) hreport s.world .refl

/-! ## Two passes and one unreadable copy -/

def oneRecord : Bytes := RecordFrame.chunk ⟨[7]⟩

def sealedSlot : Slot := (Slot.empty.install oneRecord protocolMetadata).freeze

/-- Three finalized copies, the first of which has rotted. -/
def rottenCells : SegmentId → Fin 3 → Cell := fun _ zone => ⟨sealedSlot, decide (zone = 0)⟩

/-- A pass over the segment reads its listings, which are older than the first copy's seal, and then
the committed bytes from the second zone. -/
def listAndRead (pass : Nat) : List (RepairSystem.Action 3) :=
  let healthy : ListedObject := ⟨"segment", true, some (crc32c oneRecord), protocolMetadata⟩
  [.step pass (.task 0 (.op (.listed (.ok [⟨"segment", false, none, protocolMetadata⟩])))),
    .step pass (.task 1 (.op (.listed (.ok [healthy])))),
    .step pass (.task 2 (.op (.listed (.ok [healthy])))), .step pass .gather,
    .step pass (.op (.replica .answered)), .step pass (.op (.replica .answered))]

def answered (pass requests : Nat) : List (RepairSystem.Action 3) :=
  List.replicate requests (.step pass (.op (.replica .answered)))

def startPass : RepairSystem.Action 3 :=
  .start [⟨"segment", 0, 0, crc32c oneRecord, false⟩] 0

/-- Two passes find the first copy unreadable; the second one replaces it. -/
def racedActions : List (RepairSystem.Action 3) :=
  [startPass, startPass] ++ listAndRead 0 ++ answered 0 1 ++ listAndRead 1 ++ answered 1 5

/-- The first pass then asks for the generation, is told the new one and deletes it. -/
theorem repair_deletes_healthy : ∃ s s',
    Reaches (RepairSystem.step crc32c fun _ => oneRecord) (fun _ _ => True) (.init rottenCells) s ∧
    Reaches (RepairSystem.step crc32c fun _ => oneRecord) (fun _ _ => True) s s' ∧
    s.world.healthy (fun _ => oneRecord) "segment" 0 = true ∧
    (s'.world.cells "segment" 0).slot.copy = none := by
  have hrun : (runChecked (RepairSystem.step crc32c fun _ => oneRecord) (fun _ _ => true)
      (.init rottenCells) racedActions).any (fun s =>
        s.world.healthy (fun _ => oneRecord) "segment" 0 &&
        (runChecked (RepairSystem.step crc32c fun _ => oneRecord) (fun _ _ => true) s
          (answered 0 2)).any fun s' => (s'.world.cells "segment" 0).slot.copy.isNone) = true := by
    decide +kernel
  obtain ⟨s, hreach, hfacts⟩ := exists_reaches (fun _ _ _ => trivial) hrun
  rw [Bool.and_eq_true] at hfacts
  obtain ⟨s', hreach', hgone⟩ := exists_reaches (fun _ _ _ => trivial) hfacts.2
  exact ⟨s, s', hreach, hreach', hfacts.1, Option.isNone_iff_eq_none.1 hgone⟩

def repairCheck (crc : Bytes → Nat) (committed : SegmentId → Bytes) (s : RepairSystem n) :
    RepairSystem.Action n → Bool
  | .step pass choice => ((s.passes[pass]?).bind fun prog => prog.next? choice).all
      fun op => op.2.undisturbed crc committed s.world
  | _ => true

theorem repairOk_of_check {s : RepairSystem n} {action : RepairSystem.Action n}
    (h : repairCheck crc committed s action = true) : RepairOk crc committed s action := by
  cases action with
  | step pass choice =>
    intro prog hprog op hop
    simpa [repairCheck, hprog, hop] using h
  | _ => trivial

/-- One pass repairs the unreadable copy and counts it; the other one, which reads the copy later,
leaves it alone. -/
theorem repair_keeps_healthy_repaired : ∃ s s',
    Reaches (RepairSystem.step crc32c fun _ => oneRecord) (RepairOk crc32c fun _ => oneRecord)
      (.init rottenCells) s ∧
    Reaches (RepairSystem.step crc32c fun _ => oneRecord)
      (RepairOk crc32c fun _ => oneRecord) s s' ∧
    s.world.healthy (fun _ => oneRecord) "segment" 0 = true ∧
    s'.world.finalized = s.world.finalized ∧
    s'.world.cells "segment" 0 = s.world.cells "segment" 0 := by
  have hrun : (runChecked (RepairSystem.step crc32c fun _ => oneRecord)
      (repairCheck crc32c fun _ => oneRecord) (.init rottenCells)
      ([startPass, startPass] ++ listAndRead 1 ++ answered 1 5)).any (fun s =>
        s.world.healthy (fun _ => oneRecord) "segment" 0 &&
        (runChecked (RepairSystem.step crc32c fun _ => oneRecord)
          (repairCheck crc32c fun _ => oneRecord) s (listAndRead 0)).any fun s' =>
            decide (s'.world.finalized = s.world.finalized)) = true := by
    decide +kernel
  obtain ⟨s, hreach, hfacts⟩ := exists_reaches (fun _ _ => repairOk_of_check) hrun
  rw [Bool.and_eq_true] at hfacts
  obtain ⟨s', hreach', hlog⟩ := exists_reaches (fun _ _ => repairOk_of_check) hfacts.2
  exact ⟨s, s', hreach, hreach', hfacts.1, of_decide_eq_true hlog,
    (repair_keeps_healthy hreach hreach').1 "segment" 0 hfacts.1⟩

end Chorus
