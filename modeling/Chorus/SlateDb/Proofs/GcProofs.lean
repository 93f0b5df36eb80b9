import Chorus.Concurrency.Proofs.Shape
import Chorus.Maintenance.Proofs.MaintenanceProofs
import Chorus.SlateDb.Gc

/-!
# Garbage collection keeps what is referenced

The floor of a collection is the largest one that spares every referenced and every uncommitted
record (`collectFloor_spec`). Where the floor that `raise_trunc` leaves is not above the one that
was asked for, no deleted segment holds a record that the ranges refer to.
-/

namespace Chorus.SlateDb

open Concurrency Relation ManifestRecord

/-! ## The floor of a list of ranges -/

theorem u64_toNat_le_iff {a b : UInt64} : a ≤ b ↔ a.toNat ≤ b.toNat := UInt64.le_iff_toNat_le

theorem u64_toNat_lt_limit (a : UInt64) : a.toNat < u64Limit := a.toNat_lt

/-- A start admits the ids from its first one on. -/
theorem Bound.admitsFrom_iff (start : Bound) (id : UInt64) :
    start.admitsFrom id = true ↔ ∃ first, start.first = some first ∧ first ≤ id.toNat := by
  cases start with
  | included first =>
    simp only [Bound.admitsFrom, decide_eq_true_eq, Bound.first, Option.some.injEq, exists_eq_left']
    exact u64_toNat_le_iff
  | excluded before =>
    have hid := u64_toNat_lt_limit id
    simp only [Bound.admitsFrom, decide_eq_true_eq, Bound.first, checkedAdd, UInt64.lt_iff_toNat_lt]
    constructor
    · intro hlt
      exact ⟨before.toNat + 1, if_pos (by omega), hlt⟩
    · rintro ⟨first, hfirst, hle⟩
      split_ifs at hfirst
      cases hfirst
      exact hle
  | unbounded =>
    simp only [Bound.admitsFrom, Bound.first, true_iff]
    exact ⟨0, rfl, Nat.zero_le _⟩

/-- An end admits the ids up to its last one. -/
theorem Bound.admitsTo_eq (stop : Bound) (id : UInt64) :
    stop.admitsTo id = stop.reaches id.toNat := by
  cases stop with
  | included last => exact decide_eq_decide.2 u64_toNat_le_iff
  | excluded stop => exact decide_eq_decide.2 UInt64.lt_iff_toNat_lt
  | unbounded => rfl

theorem Bound.reaches_mono {stop : Bound} {a b : Nat} (h : stop.reaches b = true) (hab : a ≤ b) :
    stop.reaches a = true := by
  cases stop with
  | included last => exact decide_eq_true (hab.trans (of_decide_eq_true h))
  | excluded stop => exact decide_eq_true (hab.trans_lt (of_decide_eq_true h))
  | unbounded => rfl

theorem contains_iff {range : WalFileRange} {id : UInt64} : range.contains id = true ↔
    (∃ first, range.start.first = some first ∧ first ≤ id.toNat) ∧ range.stop.reaches id.toNat := by
  rw [WalFileRange.contains, Bool.and_eq_true, Bound.admitsFrom_iff, Bound.admitsTo_eq]

theorem Bound.first_lt {start : Bound} {first : Nat} (h : start.first = some first) :
    first < u64Limit := by
  cases start with
  | included id =>
    cases h
    exact u64_toNat_lt_limit id
  | excluded id =>
    simp only [Bound.first, checkedAdd] at h
    split_ifs at h with hlt
    cases h
    exact hlt
  | unbounded =>
    cases h
    decide

theorem retained_eq_some {range : WalFileRange} {k : Nat} : range.retained = some k ↔
    ∃ first : UInt64, range.contains first ∧ (∀ id, range.contains id → first ≤ id) ∧
      k = first.toNat - 1 := by
  unfold WalFileRange.retained
  rw [Option.bind_eq_some_iff]
  constructor
  · rintro ⟨first, hfirst, hk⟩
    split_ifs at hk with hreaches
    cases hk
    have htoNat : (UInt64.ofNat first).toNat = first :=
      UInt64.toNat_ofNat_of_lt (Bound.first_lt hfirst)
    refine ⟨UInt64.ofNat first, ?_, ?_, by rw [htoNat]⟩
    · rw [contains_iff, htoNat]
      exact ⟨⟨first, hfirst, Nat.le_refl _⟩, hreaches⟩
    · intro id hid
      obtain ⟨⟨first', hfirst', hle⟩, -⟩ := contains_iff.1 hid
      rw [hfirst] at hfirst'
      cases hfirst'
      rwa [u64_toNat_le_iff, htoNat]
  · rintro ⟨first, hfirst, hleast, rfl⟩
    obtain ⟨⟨start, hstart, hle⟩, hreaches⟩ := contains_iff.1 hfirst
    -- the start itself lies in the range, so it is the least id
    have htoNat : (UInt64.ofNat start).toNat = start :=
      UInt64.toNat_ofNat_of_lt (Bound.first_lt hstart)
    have hmem : range.contains (UInt64.ofNat start) = true := by
      rw [contains_iff, htoNat]
      exact ⟨⟨start, hstart, Nat.le_refl _⟩, Bound.reaches_mono hreaches hle⟩
    have hge : first.toNat ≤ start := by
      have := u64_toNat_le_iff.1 (hleast _ hmem)
      rwa [htoNat] at this
    refine ⟨start, hstart, ?_⟩
    rw [if_pos (Bound.reaches_mono hreaches hle), Nat.le_antisymm hle hge]

theorem retained_eq_none {range : WalFileRange} {id : UInt64} (h : range.retained = none) :
    range.contains id = false := by
  by_contra hmem
  obtain ⟨⟨first, hfirst, hle⟩, hreaches⟩ := contains_iff.1 (Bool.eq_true_of_not_eq_false hmem)
  rw [WalFileRange.retained, hfirst, Option.bind_some,
    if_pos (Bound.reaches_mono hreaches hle)] at h
  cases h

theorem retainFrom_le {ranges : List WalFileRange} {range : WalFileRange} {k : Nat}
    (hrange : range ∈ ranges) (hk : range.retained = some k) : retainFrom ranges ≤ k := by
  have hmem : k ∈ ranges.filterMap WalFileRange.retained := List.mem_filterMap.2 ⟨range, hrange, hk⟩
  unfold retainFrom
  cases hmin : (ranges.filterMap WalFileRange.retained).min? with
  | none =>
    rw [List.min?_eq_none_iff] at hmin
    rw [hmin] at hmem
    cases hmem
  | some least => exact (List.le_min?_iff hmin).1 (Nat.le_refl _) k hmem

theorem le_retainFrom {ranges : List WalFileRange} {x : Nat} (hx : x < u64Limit)
    (h : ∀ range ∈ ranges, ∀ k, range.retained = some k → x ≤ k) : x ≤ retainFrom ranges := by
  unfold retainFrom
  cases hmin : (ranges.filterMap WalFileRange.retained).min? with
  | none => exact Nat.le_sub_one_of_lt hx
  | some least =>
    refine (List.le_min?_iff hmin).2 fun k hk => ?_
    obtain ⟨range, hrange, hk⟩ := List.mem_filterMap.1 hk
    exact h range hrange k hk

/-- The floor of a collection spares the referenced and the uncommitted records, and no larger one
does unless a range contains the id 0, which has no record. -/
theorem collectFloor_spec (ranges : List WalFileRange) (committedEnd : Nat) :
    (∀ range ∈ ranges, ∀ id : UInt64, 1 ≤ id.toNat → range.contains id →
      min (retainFrom ranges) committedEnd ≤ id.toNat - 1) ∧
    min (retainFrom ranges) committedEnd ≤ committedEnd ∧
    ((∀ range ∈ ranges, range.contains 0 = false) → ∀ x, x < u64Limit → x ≤ committedEnd →
      (∀ range ∈ ranges, ∀ id : UInt64, 1 ≤ id.toNat → range.contains id → x ≤ id.toNat - 1) →
      x ≤ min (retainFrom ranges) committedEnd) ∧
    ((∃ range ∈ ranges, range.contains 0) → min (retainFrom ranges) committedEnd = 0) := by
  have hbelow : ∀ range ∈ ranges, ∀ id : UInt64, range.contains id →
      retainFrom ranges ≤ id.toNat - 1 := by
    intro range hrange id hid
    cases hretained : range.retained with
    | none =>
      rw [retained_eq_none hretained] at hid
      cases hid
    | some k =>
      obtain ⟨first, -, hleast, rfl⟩ := retained_eq_some.1 hretained
      have hfirst := u64_toNat_le_iff.1 (hleast id hid)
      have hle := retainFrom_le hrange hretained
      omega
  refine ⟨?_, Nat.min_le_right _ _, ?_, ?_⟩
  · intro range hrange id _ hid
    exact (Nat.min_le_left _ _).trans (hbelow range hrange id hid)
  · intro hzero x hx hcommitted hspares
    refine le_min (le_retainFrom hx ?_) hcommitted
    intro range hrange k hk
    obtain ⟨first, hfirst, -, rfl⟩ := retained_eq_some.1 hk
    have hpos : 1 ≤ first.toNat := by
      by_contra hnot
      have heq : first = 0 :=
        UInt64.toNat_inj.1 (by simpa using Nat.lt_one_iff.1 (Nat.not_le.1 hnot))
      rw [heq, hzero range hrange] at hfirst
      cases hfirst
    exact hspares range hrange first hpos hfirst
  · rintro ⟨range, hrange, hid⟩
    have hle := hbelow range hrange 0 hid
    have hzero : (0 : UInt64).toNat - 1 = 0 := rfl
    omega

/-! ## The handle of the running truncation -/

variable {n : Nat} {crc : Bytes → Nat} {i floor : Nat} {w w' : MaintenanceWorld n}

/-- What the truncation relies on: nobody else ends the call that its handle is busy with. -/
structure Undisturbed (i : Nat) (w w' : MaintenanceWorld n) : Prop extends Follows w w' where
  busy : ∀ running p, w.manifest.handles[i]? = some (.busy running p) →
    ∃ p', w'.manifest.handles[i]? = some (.busy running p')

theorem Undisturbed.of_rely (h : ReflTransGen (Undisturbed i) w w') : Undisturbed i w w' := by
  induction h with
  | refl => exact ⟨.refl _, fun _ p hp => ⟨p, hp⟩⟩
  | tail _ hstep ih =>
    refine ⟨ih.toFollows.trans hstep.toFollows, fun running p hp => ?_⟩
    obtain ⟨p', hp'⟩ := ih.busy running p hp
    exact hstep.busy running p' hp'

/-- Only the end of a call makes a busy handle available. -/
theorem busy_step {s s' : ManifestSystem} {action : ManifestSystem.Action}
    (hs : s.step action = some s') (hfinish : action ≠ .finish i) {running : Running}
    {p : Prog StoreOp 0 (Manifest × Except ProtocolError Unit)}
    (hi : s.handles[i]? = some (.busy running p)) :
    ∃ p', s'.handles[i]? = some (.busy running p') := by
  have hlt : i < s.handles.length := (List.getElem?_eq_some_iff.1 hi).1
  have hset : ∀ {j : Nat} {state : HandleState}, j ≠ i →
      (s.handles.set j state)[i]? = some (.busy running p) := fun hj => by
    rw [List.getElem?_set_ne hj]
    exact hi
  cases action with
  | openHandle owner replicaCount bucketNames maxDirectoryBytes maxRetries =>
    simp only [ManifestSystem.step] at hs
    split at hs <;> cases hs
    exact ⟨p, by rw [List.getElem?_append_left hlt]; exact hi⟩
  | offPathAccess j =>
    simp only [ManifestSystem.step] at hs
    split at hs
    · split_ifs at hs
      cases hs
      exact ⟨p, by rw [List.getElem?_append_left hlt]; exact hi⟩
    · cases hs
  | installUpdate j k =>
    simp only [ManifestSystem.step] at hs
    split at hs
    · rename_i m m' hj hk
      cases hs
      have hne : j ≠ i := by
        rintro rfl
        rw [hi] at hj
        cases hj
      exact ⟨p, hset hne⟩
    · cases hs
  | call j call =>
    simp only [ManifestSystem.step] at hs
    split at hs
    · rename_i m hj
      split_ifs at hs
      cases hs
      have hne : j ≠ i := by
        rintro rfl
        rw [hi] at hj
        cases hj
      exact ⟨p, hset hne⟩
    · cases hs
  | step j choice =>
    simp only [ManifestSystem.step] at hs
    split at hs
    · rename_i running' p' hj
      obtain ⟨r, -, rfl⟩ := Option.map_eq_some_iff.1 hs
      by_cases hne : j = i
      · subst hne
        rw [hi] at hj
        cases hj
        exact ⟨r.2, List.getElem?_set_self hlt⟩
      · exact ⟨p, hset hne⟩
    · cases hs
  | finish j =>
    simp only [ManifestSystem.step] at hs
    split at hs
    · cases hs
      exact ⟨p, hset fun hj => hfinish (by rw [hj])⟩
    · cases hs
  | deliver k =>
    simp only [ManifestSystem.step] at hs
    split at hs
    · cases hs
      exact ⟨p, hi⟩
    · cases hs

/-- A task that works through another handle leaves a busy one alone. -/
theorem busy_taskStep {j : Nat} (hj : j ≠ i) {α : Type} {prog prog' : MaintenanceProg n α}
    {choice : Choice MaintenanceOutcome n}
    (hs : (maintenanceMachine n crc j).step prog w choice = some (w', prog')) {running : Running}
    {p : Prog StoreOp 0 (Manifest × Except ProtocolError Unit)}
    (hi : w.manifest.handles[i]? = some (.busy running p)) :
    ∃ p', w'.manifest.handles[i]? = some (.busy running p') := by
  rcases Machine.step_next hs with rfl | ⟨⟨β, op⟩, ω, b, -, hexec⟩
  · exact ⟨p, hi⟩
  · cases op with
    | handle op =>
      cases ω with
      | proceed =>
        simp only [maintenanceMachine] at hexec
        cases op with
        | start call =>
          obtain ⟨m, hm, heq⟩ := Option.map_eq_some_iff.1 hexec
          cases heq
          exact busy_step hm (fun heq => by cases heq) hi
        | await =>
          simp only [HandleOp.exec] at hexec
          split at hexec
          · obtain ⟨m, hm, heq⟩ := Option.map_eq_some_iff.1 hexec
            cases heq
            exact busy_step hm (fun heq => hj (ManifestSystem.Action.finish.inj heq)) hi
          · cases hexec
      | replica outcome => cases hexec
      | listed result => cases hexec
    | replica label id op =>
      cases ω with
      | replica outcome =>
        obtain ⟨r, -, heq⟩ := Option.map_eq_some_iff.1 hexec
        cases heq
        exact ⟨p, hi⟩
      | proceed => cases hexec
      | listed result => cases hexec
    | listing op =>
      cases ω with
      | listed result =>
        cases hexec
        exact ⟨p, hi⟩
      | proceed => cases hexec
      | replica outcome => cases hexec

/-! ## What one collection deletes -/

/-- When `raise_trunc` returns, the document in its handle has no floor above the one that was asked
for. -/
def settled (i floor : Nat) (w : MaintenanceWorld n) : Bool :=
  match w.manifest.handles[i]? with
  | some (.busy running (.ret (m, .ok ()))) =>
    match running.author.call with
    | .raiseTrunc .. => m.record.trunc ≤ floor
    | _ => true
  | _ => true

/-- The operations of a truncation in the runs in which its call settles. -/
abbrev settlingMachine (n : Nat) (crc : Bytes → Nat) (i floor : Nat) :
    Machine (MaintenanceOp n) (MaintenanceWorld n) MaintenanceOutcome :=
  (maintenanceMachine n crc i).restrict fun w _ => settled i floor w = true

/-- A document that the register has held ends the segment below its floor, which is not above the
given one. -/
def Reclaims (floor : Nat) (s : Store Author) (d : PassLabel × SegmentId) : Prop :=
  d.1 = .truncation ∧ ∃ v r, s.At v r ∧ r.EndsBelowFloor d.2 ∧ r.trunc ≤ floor

theorem Reclaims.authorized {s : Store Author} {d : PassLabel × SegmentId}
    (h : Reclaims floor s d) : Authorized s d := by
  obtain ⟨label, id⟩ := d
  obtain ⟨rfl, v, r, hat, hend, -⟩ := h
  exact ⟨v, r, hat, hend⟩

/-- The floor of the document that `raise_trunc` returns. -/
theorem settles_raiseTrunc {claim : WriterClaim} :
    wp (settlingMachine n crc i floor) (manifestCall (.raiseTrunc claim floor)) (Undisturbed i)
      (fun _ _ => True) (fun answer _ => answer.2 = .ok () → answer.1.trunc ≤ floor) w := by
  refine wp_seq (P := fun _ w' => ∃ running p, w'.manifest.handles[i]? = some (.busy running p) ∧
    running.author.call = .raiseTrunc claim floor) ?_ ?_
  · intro w₁ _ ω w₂ b he
    refine ⟨trivial, fun w₃ h₃ => ?_⟩
    have hbusy : ∃ running p, w₂.manifest.handles[i]? = some (.busy running p) ∧
        running.author.call = .raiseTrunc claim floor := by
      simp only [Machine.restrict] at he
      split_ifs at he
      cases ω with
      | replica outcome => cases he
      | listed result => cases he
      | proceed =>
        obtain ⟨s, hs, heq⟩ := Option.map_eq_some_iff.1 he
        cases heq
        simp only [ManifestSystem.step] at hs
        split at hs
        · rename_i m hi
          cases hs
          exact ⟨_, _, List.getElem?_set_self (List.getElem?_eq_some_iff.1 hi).1, rfl⟩
        · cases hs
    obtain ⟨running, p, hi, hcall⟩ := hbusy
    obtain ⟨p', hi'⟩ := (Undisturbed.of_rely h₃).busy running p hi
    exact ⟨running, p', hi', hcall⟩
  · rintro - w₁ ⟨running, p, hi, hcall⟩ w₂ h₂ ω w₃ b he
    obtain ⟨p', hi'⟩ := (Undisturbed.of_rely h₂).busy running p hi
    refine ⟨trivial, fun w₄ _ hok => ?_⟩
    simp only [Machine.restrict] at he
    split_ifs at he with hsettled
    cases ω with
    | replica outcome => cases he
    | listed result => cases he
    | proceed =>
      simp only [maintenanceMachine, HandleOp.exec] at he
      split at he
      · rename_i running' m outcome hreturned
        obtain ⟨s, -, heq⟩ := Option.map_eq_some_iff.1 he
        cases heq
        simp only at hok
        subst hok
        rw [hi'] at hreturned
        cases hreturned
        simp only [settled, hi', hcall, decide_eq_true_eq] at hsettled
        exact hsettled
      · cases he

theorem settles_truncatePass {sealedSegments : List SegmentDescriptor} {checkpointFloor : Nat}
    {claim : WriterClaim} (hw : WorldInv w) :
    wp (settlingMachine n crc i floor) (truncatePass sealedSegments checkpointFloor claim floor)
      (Undisturbed i) (KeepsTo (Reclaims floor)) (fun _ _ => True) w := by
  unfold truncatePass
  split_ifs with hregression
  · exact fun _ _ => trivial
  have hcall : wp (settlingMachine n crc i floor) (manifestCall (.raiseTrunc claim floor))
      (Undisturbed i) (KeepsTo (Reclaims floor)) (fun answer w' => Follows w w' ∧
        (answer.2 = .ok () → ∃ v, w'.manifest.store.At v answer.1)) w :=
    wp_restrict (wp_mono (passes_manifestCall rfl hw) (fun _ _ h => h.toFollows) (fun _ _ => id)
      fun _ _ => id)
  refine wp_seq (wp_mono (wp_and hcall settles_raiseTrunc) (fun _ _ => id) (fun _ _ h => h.1)
    fun _ _ => id) ?_
  rintro ⟨record, outcome⟩ w₁ ⟨⟨hw₁, hat⟩, htrunc⟩
  cases outcome with
  | error error => exact fun _ _ => trivial
  | ok u =>
    obtain ⟨v, hat⟩ := hat rfl
    have hdelete : wp (maintenanceMachine n crc i)
        (deleteSegmentsBelowCommittedFloor sealedSegments record) Follows (KeepsTo (Reclaims floor))
        (fun _ w' => Follows w₁ w') w₁ :=
      passes_deleteSegments (hw₁.inv hw) fun id hend w₂ hw₂ =>
        ⟨rfl, v, record, hat.mono hw₂.grows, hend, htrunc rfl⟩
    refine wp_seq (P := fun _ _ => True) (wp_restrict (wp_mono hdelete (fun _ _ h => h.toFollows)
      (fun _ _ => id) fun _ _ _ => trivial)) ?_
    exact fun _ _ _ _ _ => trivial

end Chorus.SlateDb
