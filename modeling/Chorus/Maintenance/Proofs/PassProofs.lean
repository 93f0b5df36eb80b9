import Chorus.Maintenance.Proofs.WorldProofs

/-!
# What a maintenance pass deletes

In any environment that `Follows`, each step of a pass `Keeps`: every delete it issues is authorized
by a document the register has held. Truncation deletes what the document at its call's return ends
below its floor; the sweep deletes what the document adopted by its claim does not name.
-/

namespace Chorus

open Concurrency Relation ManifestRecord

variable {n : Nat} {crc : Bytes → Nat} {i : Nat} {w : MaintenanceWorld n}

/-- The specification of a pass or a part of it: it keeps to its guarantee. -/
abbrev Passes {α : Type} (crc : Bytes → Nat) (i : Nat) (prog : MaintenanceProg n α)
    (Q : α → MaintenanceWorld n → Prop) (w : MaintenanceWorld n) : Prop :=
  wp (maintenanceMachine n crc i) prog Follows Keeps Q w

section Rules

variable {α β : Type} {M : Machine (MaintenanceOp n) (MaintenanceWorld n) MaintenanceOutcome}
  {G : MaintenanceWorld n → MaintenanceWorld n → Prop}

theorem passes_ret {a : α} {Q : α → MaintenanceWorld n → Prop} (h : ∀ w', Follows w w' → Q a w') :
    wp M (.ret a : MaintenanceProg n α) Follows G Q w :=
  fun w' hw => h w' (Follows.of_rely hw)

theorem passes_seq {p : MaintenanceProg n β} {f : β → MaintenanceProg n α}
    {P : β → MaintenanceWorld n → Prop}
    (h : wp M p Follows G (fun b w' => Follows w w' ∧ P b w') w)
    (hf : ∀ b w', Follows w w' → P b w' → wp M (f b) Follows G (fun _ w'' => Follows w' w'') w') :
    wp M (p.bind f) Follows G (fun _ w' => Follows w w') w := by
  refine wp_seq h fun b w' ⟨hw', hb⟩ => ?_
  exact wp_mono (hf b w' hw' hb) (fun _ _ => id) (fun _ _ => id) fun _ _ hw'' => hw'.trans hw''

/-- One part of a pass after another, if nothing is known of the first answer. -/
theorem passes_then {p : MaintenanceProg n β} {f : β → MaintenanceProg n α}
    (h : wp M p Follows G (fun _ w' => Follows w w') w)
    (hf : ∀ b w', Follows w w' → wp M (f b) Follows G (fun _ w'' => Follows w' w'') w') :
    wp M (p.bind f) Follows G (fun _ w' => Follows w w') w := by
  refine passes_seq (P := fun _ _ => True) ?_ fun b w' hw' _ => hf b w' hw'
  exact wp_mono h (fun _ _ => id) (fun _ _ => id) fun _ _ hw' => ⟨hw', trivial⟩

theorem passes_done {a : α} :
    wp M (.ret a : MaintenanceProg n α) Follows G (fun _ w' => Follows w w') w :=
  passes_ret fun _ hw' => hw'

theorem passes_joinAll (hG : ∀ a b, G a b → Follows a b) {ts : Fin n → MaintenanceProg n β}
    {f : (Fin n → β) → MaintenanceProg n α}
    (hts : ∀ zone, wp M (ts zone) Follows G (fun _ w' => Follows w w') w)
    (hf : ∀ bs w', Follows w w' → wp M (f bs) Follows G (fun _ w'' => Follows w' w'') w') :
    wp M ((Prog.joinAll ts).bind f) Follows G (fun _ w' => Follows w w') w := by
  refine wp_joinAll hG (fun _ _ w' => Follows w w') hts fun w' bs hw' _ => ?_
  have hfollows := Follows.of_rely hw'
  exact wp_mono (hf bs w' hfollows) (fun _ _ => id) (fun _ _ => id) fun _ _ => hfollows.trans

end Rules

/-! ## Single operations -/

section Operations

variable {allowed : Store Author → PassLabel × SegmentId → Prop}

theorem KeepsTo.of_follows {w w' : MaintenanceWorld n} (h : Follows w w')
    (hd : w'.deletes = w.deletes) : KeepsTo allowed w w' :=
  ⟨h, [], hd, nofun⟩

theorem passes_onCopy {β : Type} {label : PassLabel} {id : SegmentId} {zone : Fin n}
    {op : ReplicaOp β}
    (hop : (ZoneOp.mk zone op).isDelete = true → ∀ w', Follows w w' →
      allowed w'.manifest.store (label, id)) :
    wp (maintenanceMachine n crc i) (onCopy label id zone op) Follows (KeepsTo allowed)
      (fun _ w' => Follows w w') w := by
  refine fun w₁ h₁ ω w₂ b he => ?_
  have hw₁ := Follows.of_rely h₁
  cases ω with
  | proceed => simp [maintenanceMachine] at he
  | listed result => simp [maintenanceMachine] at he
  | replica outcome =>
    obtain ⟨r, -, heq⟩ := Option.map_eq_some_iff.1 he
    cases heq
    have hfollows : Follows w₁ { w₁ with
        objects := Function.update w₁.objects id r.1
        deletes := if (ZoneOp.mk zone op).isDelete then (label, id) :: w₁.deletes
          else w₁.deletes } := .of_eq rfl rfl
    refine ⟨⟨hfollows, ?_⟩, passes_ret fun w' hw' => (hw₁.trans hfollows).trans hw'⟩
    by_cases hdelete : (ZoneOp.mk zone op).isDelete = true
    · refine ⟨[(label, id)], if_pos hdelete, fun d hd => ?_⟩
      rw [List.mem_singleton.1 hd]
      exact hop hdelete w₁ hw₁
    · exact ⟨[], if_neg hdelete, nofun⟩

theorem passes_list {zone : Fin n} :
    wp (maintenanceMachine n crc i)
      (Prog.send (.listing (.list zone)) : MaintenanceProg n
        (Except TransportError (List ObjectSummary)))
      Follows (KeepsTo allowed) (fun _ w' => Follows w w') w := by
  refine fun w₁ h₁ ω w₂ b he => ?_
  have hw₁ := Follows.of_rely h₁
  cases ω with
  | proceed => simp [maintenanceMachine] at he
  | replica outcome => simp [maintenanceMachine] at he
  | listed result =>
    cases he
    exact ⟨.of_follows (.refl _) rfl, passes_ret fun w' hw' => hw₁.trans hw'⟩

/-- A manifest call that brings no ids along: if it succeeds, the document it returns is one that
the register has held. -/
theorem passes_manifestCall {call : ManifestCall} (hcall : call.introduces = []) (hw : WorldInv w) :
    wp (maintenanceMachine n crc i) (manifestCall call) Follows (KeepsTo allowed)
      (fun answer w' => Follows w w' ∧
        (answer.2 = .ok () → ∃ v, w'.manifest.store.At v answer.1)) w := by
  refine wp_seq (P := fun _ w' => Follows w w') ?_ fun _ w₁ hw₁ => ?_
  · refine fun w₁ h₁ ω w₂ b he => ?_
    have hw₁ := Follows.of_rely h₁
    cases ω with
    | replica outcome => simp [maintenanceMachine] at he
    | listed result => simp [maintenanceMachine] at he
    | proceed =>
      obtain ⟨s, hs, heq⟩ := Option.map_eq_some_iff.1 he
      cases heq
      have hfollows : Follows w₁ { w₁ with manifest := s } :=
        ⟨step_grows hs, fun hinv => hinv.plainCall hcall hs⟩
      exact ⟨.of_follows hfollows rfl, passes_ret fun w' hw' => (hw₁.trans hfollows).trans hw'⟩
  · refine fun w₂ h₂ ω w₃ b he => ?_
    have hw₂ := hw₁.trans (Follows.of_rely h₂)
    cases ω with
    | replica outcome => simp [maintenanceMachine] at he
    | listed result => simp [maintenanceMachine] at he
    | proceed =>
      simp only [maintenanceMachine, HandleOp.exec] at he
      split at he
      · rename_i c m outcome hbusy
        obtain ⟨s, hs, heq⟩ := Option.map_eq_some_iff.1 he
        cases heq
        have hinv := hw₂.inv hw
        have hreturned : Returned c (m, outcome) w₂.manifest.store :=
          wp_value (hinv.system.busy i c _ hbusy).2.2 rfl
        have hfollows : Follows w₂ { w₂ with manifest := s } :=
          ⟨step_grows hs, fun hinv => hinv.quiet (by simp) hs⟩
        refine ⟨.of_follows hfollows rfl,
          passes_ret fun w' hw' => ⟨(hw₂.trans hfollows).trans hw', ?_⟩⟩
        rintro rfl
        exact ⟨m.version, hreturned.1.cached.mono (hfollows.trans hw').grows⟩
      · cases he

end Operations

/-! ## Truncation -/

section Truncation

variable {allowed : Store Author → PassLabel × SegmentId → Prop}

theorem passes_deleteCopies {id : SegmentId}
    {snapshots : Fin n → Except TransportError ReplicaSnapshot} {zones : List (Fin n)}
    {absences : Absences}
    (hid : ∀ w', Follows w w' → allowed w'.manifest.store (.truncation, id)) :
    wp (maintenanceMachine n crc i) (deleteCopies id snapshots zones absences) Follows
      (KeepsTo allowed) (fun _ w' => Follows w w') w := by
  induction zones generalizing absences w with
  | nil => exact passes_done
  | cons zone zones ih =>
    rw [deleteCopies]
    cases snapshots zone with
    | error error =>
      simp only
      cases absences.failed error with
      | error error => exact passes_done
      | ok absences => exact ih hid
    | ok snapshot =>
      refine passes_then (passes_onCopy fun _ => hid) fun b w' hw' => ?_
      have hid' : ∀ w'', Follows w' w'' → allowed w''.manifest.store (.truncation, id) :=
        fun w'' hw'' => hid w'' (hw'.trans hw'')
      cases b with
      | ok u => exact ih hid'
      | error error =>
        simp only
        cases absences.failed error with
        | error error => exact passes_done
        | ok absences => exact ih hid'

/-- The loop over a directory whose entries below the floor may be deleted. -/
theorem passes_deleteEntries {tailBase floor : Nat} {entries : List DirectoryEntry}
    {deletions : Deletions}
    (hentries : ∀ range ∈ rangesFrom tailBase entries, range.2 < floor → ∀ w', Follows w w' →
      allowed w'.manifest.store (.truncation, range.1.id)) :
    wp (maintenanceMachine n crc i) (deleteEntries tailBase floor entries deletions) Follows
      (KeepsTo allowed) (fun _ w' => Follows w w') w := by
  induction entries generalizing deletions w with
  | nil => exact passes_done
  | cons entry rest ih =>
    have hrest : ∀ {w' : MaintenanceWorld n}, Follows w w' → ∀ range ∈ rangesFrom tailBase rest,
        range.2 < floor → ∀ w'', Follows w' w'' →
          allowed w''.manifest.store (.truncation, range.1.id) :=
            fun hw' range hrange hlt w'' hw'' =>
      hentries range (List.mem_cons_of_mem _ hrange) hlt w'' (hw'.trans hw'')
    simp only [deleteEntries]
    split_ifs with hkeep
    · exact ih (hrest (.refl w))
    · have hdead : ∀ w', Follows w w' → allowed w'.manifest.store (.truncation, entry.id) :=
        hentries _ List.mem_cons_self (by simp only [not_or, not_le] at hkeep; exact hkeep.2)
      refine passes_joinAll (fun _ _ h => h.toFollows)
        (fun zone => passes_onCopy (by simp [ZoneOp.isDelete])) fun snapshots w₁ h₁ => ?_
      refine passes_then (passes_deleteCopies fun w' hw' => hdead w' (h₁.trans hw'))
        fun b w₂ h₂ => ?_
      cases b with
      | error error => exact passes_done
      | ok absences => exact ih (hrest (h₁.trans h₂))

/-- The pass deletes the segments that the document ends below its floor. -/
theorem passes_deleteSegments {sealedSegments : List SegmentDescriptor} {record : ManifestRecord}
    (hw : WorldInv w) (hallowed : ∀ id, record.EndsBelowFloor id → ∀ w', Follows w w' →
      allowed w'.manifest.store (.truncation, id)) :
    wp (maintenanceMachine n crc i)
      (deleteSegmentsBelowCommittedFloor sealedSegments record) Follows
      (KeepsTo allowed) (fun _ w' => Follows w w') w := by
  refine passes_then (passes_deleteEntries fun range hrange hlt => ?_) fun b w' hw' => ?_
  · exact hallowed _ ⟨range, hrange, rfl, hlt⟩
  · cases b with
    | error error => exact passes_done
    | ok deletions =>
      refine passes_seq (passes_manifestCall rfl (hw'.inv hw)) fun answer w'' _ _ => ?_
      exact passes_done

end Truncation

theorem passes_deleteSegmentsBelowCommittedFloor {sealedSegments : List SegmentDescriptor}
    {record : ManifestRecord} {v : Nat} (hw : WorldInv w) (hat : w.manifest.store.At v record) :
    Passes crc i (deleteSegmentsBelowCommittedFloor sealedSegments record)
      (fun _ w' => Follows w w') w :=
  passes_deleteSegments hw fun _ hend _ hw' => ⟨v, record, hat.mono hw'.grows, hend⟩

theorem passes_truncatePass {sealedSegments : List SegmentDescriptor} {checkpointFloor floor : Nat}
    {claim : WriterClaim} (hw : WorldInv w) :
    Passes crc i (truncatePass sealedSegments checkpointFloor claim floor)
      (fun _ w' => Follows w w') w := by
  unfold truncatePass
  split_ifs with hregression
  · exact passes_done
  · refine passes_seq (passes_manifestCall rfl hw) ?_
    rintro ⟨record, outcome⟩ w' hw' hat
    cases outcome with
    | error error => exact passes_done
    | ok u =>
      obtain ⟨v, hat⟩ := hat rfl
      refine passes_then (passes_deleteSegmentsBelowCommittedFloor (hw'.inv hw) hat)
        fun _ w'' _ => ?_
      exact passes_done

theorem passes_cleanupTombstonesPass {sealedSegments : List SegmentDescriptor} (hw : WorldInv w) :
    Passes crc i (cleanupTombstonesPass sealedSegments) (fun _ w' => Follows w w') w := by
  refine passes_seq (passes_manifestCall rfl hw) ?_
  rintro ⟨record, outcome⟩ w' hw' hat
  cases outcome with
  | error error => exact passes_done
  | ok u =>
    obtain ⟨v, hat⟩ := hat rfl
    exact passes_deleteSegmentsBelowCommittedFloor (hw'.inv hw) hat

/-! ## The dead-segment sweep -/

theorem passes_sweepCopies {sweep : DeadSegmentSweep} {id : SegmentId} {zones : List (Fin n)}
    {report : DeadSegmentSweepReport}
    (hid : Authorized w.manifest.store (.sweep sweep.claimedEpoch, id)) :
    Passes crc i (sweepCopies sweep id zones report) (fun _ w' => Follows w w') w := by
  induction zones generalizing report w with
  | nil => exact passes_done
  | cons zone zones ih =>
    refine passes_then (passes_onCopy (by simp [ZoneOp.isDelete])) fun b w₁ h₁ => ?_
    have hid₁ := hid.mono h₁.grows
    cases b with
    | error error => exact ih hid₁
    | ok snapshot =>
      refine passes_then (passes_onCopy fun _ w' hw' => hid₁.mono hw'.grows) fun b w₂ h₂ => ?_
      cases b with
      | error error => exact ih (hid₁.mono h₂.grows)
      | ok u => exact ih (hid₁.mono h₂.grows)

/-- An id that the sweep of an adopted document may delete. -/
theorem authorized_of_eligible {s : Store Author} {adopted : ManifestRecord} {v : Nat}
    {id : SegmentId} (hat : s.At v adopted) (h : (DeadSegmentSweep.of adopted).eligible id = true) :
    Authorized s (.sweep adopted.epoch, id) := by
  simp only [DeadSegmentSweep.eligible, DeadSegmentSweep.of, Bool.decide_and, Bool.and_eq_true,
    decide_eq_true_eq, Option.any_eq_true, List.mem_append, Option.mem_toList, not_or] at h
  obtain ⟨⟨⟨hdirectory, htail⟩, hpending⟩, epoch, hepoch, hlt⟩ := h
  refine ⟨v, adopted, hat, rfl, ?_, epoch, hepoch, of_decide_eq_true hlt⟩
  rw [mem_ids]
  rintro (h | h | h)
  · exact htail h
  · exact hpending h
  · exact hdirectory h

theorem passes_sweepIds {adopted : ManifestRecord} {v : Nat} {ids : List SegmentId}
    {report : DeadSegmentSweepReport} (hat : w.manifest.store.At v adopted) :
    Passes crc i (sweepIds (.of adopted) ids report) (fun _ w' => Follows w w') w := by
  induction ids generalizing report w with
  | nil => exact passes_done
  | cons id ids ih =>
    rw [sweepIds]
    split_ifs with heligible
    · refine passes_then (passes_sweepCopies (authorized_of_eligible hat heligible))
        fun _ w' hw' => ?_
      exact ih (hat.mono hw'.grows)
    · exact ih hat

theorem passes_sweepDeadSegments {adopted : ManifestRecord} {v : Nat}
    (hat : w.manifest.store.At v adopted) :
    Passes crc i (sweepDeadSegments (.of adopted)) (fun _ w' => Follows w w') w :=
  passes_joinAll (fun _ _ h => h.toFollows) (fun _ => passes_list) fun _ _ hw' =>
    passes_sweepIds (hat.mono hw'.grows)

theorem passes_claimAndSweep {rounds : Nat} (hw : WorldInv w) :
    Passes crc i (claimAndSweep rounds) (fun _ w' => Follows w w') w := by
  have htask : ∀ {w : MaintenanceWorld n} {adopted : ManifestRecord} {v : Nat},
      w.manifest.store.At v adopted →
      Passes crc i (sweepTask (.of adopted) rounds) (fun _ w' => Follows w w') w := by
    induction rounds with
    | zero => exact fun _ => passes_done
    | succ rounds ih =>
      intro w adopted v hat
      refine passes_then (passes_sweepDeadSegments hat) fun report w' hw' => ?_
      split_ifs with hdone
      · exact passes_done
      · exact ih (hat.mono hw'.grows)
  refine passes_seq (passes_manifestCall rfl hw) ?_
  rintro ⟨adopted, outcome⟩ w' hw' hat
  cases outcome with
  | error error => exact passes_done
  | ok u =>
    obtain ⟨v, hat⟩ := hat rfl
    exact htask hat

end Chorus
