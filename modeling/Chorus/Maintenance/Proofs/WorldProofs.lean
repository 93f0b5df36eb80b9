import Chorus.Maintenance.Proofs.IdEpochProofs
import Chorus.Maintenance.System
import Chorus.Manifest.Proofs.AuthorProofs
import Chorus.Manifest.Proofs.RetentionProofs

/-!
# The world around the maintenance passes

`WorldInv`: the ids in the register come from the counters of the epochs, so the callers keep the
promise under which the register is sound (`WorldInv.reach`). Every step `Follows`: the history only
grows, and the invariant is kept. A pass guarantees `Keeps`: each delete is `Authorized` by a
document that the register has held, which no later document can revoke.
-/

namespace Chorus

open Concurrency Relation ManifestRecord

variable {n : Nat} {w w' : MaintenanceWorld n}

structure WorldInv (w : MaintenanceWorld n) : Prop where
  reach : Reaches ManifestSystem.step CallerOk ManifestSystem.init w.manifest
  counted : ∀ call ∈ w.manifest.issued, ∀ id ∈ call.introduces,
    ∃ epoch seq, id = segmentId epoch seq ∧ seq < w.nextSeq epoch
  /-- The first claim mints its tail itself. -/
  first : 1 ≤ w.nextSeq 1
  authors : AuthorsOk Author.Minted w.manifest

/-- What any step of any process does to the register. -/
structure Follows (w w' : MaintenanceWorld n) : Prop where
  grows : w.manifest.store.Grows w'.manifest.store
  inv : WorldInv w → WorldInv w'

/-- The document that allows a pass to delete an object. -/
def Authorized (s : Store Author) : PassLabel × SegmentId → Prop
  | (.truncation, id) => Doomed s id
  | (.sweep claimedEpoch, id) => ∃ v r, s.At v r ∧ r.epoch = claimedEpoch ∧ id ∉ r.ids ∧
      ∃ epoch, idEpoch id = some epoch ∧ epoch < claimedEpoch

/-- What a pass guarantees in each step: it issues only deletes that are allowed. -/
structure KeepsTo (allowed : Store Author → PassLabel × SegmentId → Prop)
    (w w' : MaintenanceWorld n) : Prop extends Follows w w' where
  deletes : ∃ issued, w'.deletes = issued ++ w.deletes ∧ ∀ d ∈ issued, allowed w.manifest.store d

abbrev Keeps (w w' : MaintenanceWorld n) : Prop := KeepsTo Authorized w w'

theorem KeepsTo.mem_deletes {allowed : Store Author → PassLabel × SegmentId → Prop}
    (h : KeepsTo allowed w w') {d : PassLabel × SegmentId} (hd : d ∈ w'.deletes) :
    d ∈ w.deletes ∨ allowed w.manifest.store d := by
  obtain ⟨issued, heq, hissued⟩ := h.deletes
  rw [heq] at hd
  rcases List.mem_append.1 hd with hd | hd
  · exact Or.inr (hissued d hd)
  · exact Or.inl hd

theorem Authorized.mono {s s' : Store Author} {d : PassLabel × SegmentId} (h : Authorized s d)
    (hg : s.Grows s') : Authorized s' d := by
  obtain ⟨label, id⟩ := d
  cases label with
  | truncation => exact Doomed.mono h hg
  | sweep claimedEpoch =>
    obtain ⟨v, r, hat, hrest⟩ := h
    exact ⟨v, r, hat.mono hg, hrest⟩

namespace Follows

theorem refl (w : MaintenanceWorld n) : Follows w w := ⟨.refl _, id⟩

theorem trans {w'' : MaintenanceWorld n} (h : Follows w w') (h' : Follows w' w'') :
    Follows w w'' :=
  ⟨h.grows.trans h'.grows, fun hw => h'.inv (h.inv hw)⟩

theorem of_rely (h : ReflTransGen Follows w w') : Follows w w' := by
  induction h with
  | refl => exact refl _
  | tail _ hstep ih => exact ih.trans hstep

theorem of_eq (hm : w'.manifest = w.manifest) (hs : w'.nextSeq = w.nextSeq) : Follows w w' := by
  refine ⟨by rw [hm]; exact .refl _, fun hw => ⟨hm ▸ hw.reach, ?_, hs ▸ hw.first, hm ▸ hw.authors⟩⟩
  rw [hm, hs]
  exact hw.counted

end Follows

/-! ## Steps on the register -/

/-- Every operation on the store adds to its history only. -/
theorem exec_grows {a : Author} {s s' : Store Author} {β : Type} {op : StoreOp β} {ω : StoreOutcome}
    {b : β} (h : (storeMachine a).exec s op ω = some (s', b)) : s.Grows s' := by
  simp only [storeMachine] at h
  split at h
  · cases h; exact .refl _
  · cases h; exact .refl _
  · cases h; exact .refl _
  · split at h <;> cases h
    · exact s.grows_apply _
    · exact .refl _
  · cases h; exact s.grows_resolve _ _
  · cases h; exact s.grows_resolve _ _
  · split at h <;> cases h
    · exact s.grows_apply _
    · exact .refl _
  · cases h
    split
    · exact .refl _
    · exact s.grows_resolve _ _
  · cases h
    split
    · exact .refl _
    · exact s.grows_resolve _ _

/-- Every step of the manifest system adds to the history only. -/
theorem step_grows {s s' : ManifestSystem} {act : ManifestSystem.Action}
    (h : s.step act = some s') : s.store.Grows s'.store := by
  cases act with
  | openHandle => simp only [ManifestSystem.step] at h; split at h <;> cases h; exact .refl _
  | offPathAccess =>
    simp only [ManifestSystem.step] at h
    split at h
    · split_ifs at h
      cases h
      exact .refl _
    · cases h
  | installUpdate => simp only [ManifestSystem.step] at h; split at h <;> cases h; exact .refl _
  | call =>
    simp only [ManifestSystem.step] at h
    split at h
    · split_ifs at h
      cases h
      exact .refl _
    · cases h
  | step i choice =>
    simp only [ManifestSystem.step] at h
    split at h
    · obtain ⟨⟨t, p'⟩, hstep, rfl⟩ := Option.map_eq_some_iff.1 h
      rcases Machine.step_next hstep with heq | ⟨⟨β, op⟩, ω, b, -, hexec⟩
      · exact heq ▸ .refl _
      · exact exec_grows hexec
    · cases h
  | finish => simp only [ManifestSystem.step] at h; split at h <;> cases h; exact .refl _
  | deliver =>
    simp only [ManifestSystem.step] at h
    split at h
    · cases h
      exact Store.grows_apply _ _
    · cases h

namespace WorldInv

theorem fresh (h : WorldInv w) : Fresh w.manifest.store.history w.manifest.issued :=
  fresh_of_reaches h.reach

theorem system (h : WorldInv w) : SystemInv w.manifest := SystemInv.of_reaches h.reach

theorem init (objects : SegmentId → Fin n → Slot) :
    WorldInv (MaintenanceSystem.init objects).world where
  reach := .refl
  counted := by simp [MaintenanceSystem.init, ManifestSystem.init]
  first := by simp [MaintenanceSystem.init]
  authors := AuthorsOk.init

theorem quiet (h : WorldInv w) {act : ManifestSystem.Action} {s : ManifestSystem}
    (hact : ∀ i call, act ≠ .call i call) (hs : w.manifest.step act = some s) :
    WorldInv { w with manifest := s } := by
  have hok : CallerOk w.manifest act := by
    cases act with
    | call i call => exact absurd rfl (hact i call)
    | _ => trivial
  have hissued : s.issued = w.manifest.issued := by
    rcases ManifestSystem.issued_cases hs with heq | ⟨i, call, rfl, -⟩
    · exact heq
    · exact absurd rfl (hact i call)
  refine ⟨.tail h.reach hok hs, ?_, h.first, ?_⟩
  · simp only [hissued]
    exact h.counted
  · refine h.authors.step h.system (fun a ha id hid => ?_) (fun i call m heq => ?_) hs
    · simp [ha, ManifestCall.introduces] at hid
    · exact absurd heq (hact i call)

/-- A call keeps the invariant if its caller promises what it must and its ids are counted. -/
theorem call (h : WorldInv w) {i : Nat} {call : ManifestCall} {m : Manifest} {s : ManifestSystem}
    {nextSeq : Nat → Nat} (hi : w.manifest.handles[i]? = some (.idle m))
    (hs : w.manifest.step (.call i call) = some s) (hok : CallerOk w.manifest (.call i call))
    (hmono : ∀ epoch, w.nextSeq epoch ≤ nextSeq epoch)
    (hcount : ∀ id ∈ call.introduces, ∃ seq, id = segmentId m.epoch seq ∧ seq < nextSeq m.epoch) :
    WorldInv { w with manifest := s, nextSeq := nextSeq } := by
  refine ⟨.tail h.reach hok hs, ?_, h.first.trans (hmono 1), ?_⟩
  · intro c hc id hid
    have hmem : c = call ∨ c ∈ w.manifest.issued := by
      rcases ManifestSystem.issued_cases hs with heq | ⟨i', call', heq', heq⟩
      · exact Or.inr (heq ▸ hc)
      · cases heq'
        rw [heq] at hc
        exact List.mem_cons.1 hc
    rcases hmem with rfl | hold
    · obtain ⟨seq, rfl, hlt⟩ := hcount id hid
      exact ⟨m.epoch, seq, rfl, hlt⟩
    · obtain ⟨epoch, seq, rfl, hlt⟩ := h.counted c hold id hid
      exact ⟨epoch, seq, rfl, hlt.trans_le (hmono epoch)⟩
  · refine h.authors.step h.system (fun a ha id hid => ?_) (fun j call' m' heq hj => ?_) hs
    · simp [ha, ManifestCall.introduces] at hid
    · cases heq
      rw [hi] at hj
      cases hj
      intro id hid
      obtain ⟨seq, rfl, -⟩ := hcount id hid
      exact ⟨seq, rfl⟩

theorem plainCall (h : WorldInv w) {i : Nat} {call : ManifestCall} {s : ManifestSystem}
    (hplain : call.introduces = []) (hs : w.manifest.step (.call i call) = some s) :
    WorldInv { w with manifest := s } := by
  obtain ⟨m, hi⟩ : ∃ m, w.manifest.handles[i]? = some (.idle m) := by
    simp only [ManifestSystem.step] at hs
    split at hs
    · exact ⟨_, ‹_›⟩
    · cases hs
  have hadmissible : call.Admissible := by
    refine ⟨by simp [hplain], by simp [hplain], ?_⟩
    rintro fold rfl
    simp [ManifestCall.introduces] at hplain
  exact h.call hi hs ⟨hadmissible, Or.inr (by simp [hplain])⟩ (fun _ => le_rfl) (by simp [hplain])

/-- A number from the counter of its epoch gives an unused id. -/
theorem unused (h : WorldInv w) {epoch seq : Nat} (hseq : w.nextSeq epoch ≤ seq) :
    Unused w.manifest (segmentId epoch seq) := by
  constructor
  · intro call hcall hmem
    obtain ⟨epoch', seq', heq, hlt⟩ := h.counted call hcall _ hmem
    obtain ⟨rfl, rfl⟩ := segmentId_inj heq
    omega
  · intro heq
    obtain ⟨rfl, rfl⟩ := segmentId_inj heq
    have := h.first
    omega

/-- Numbers that rise are below the one after the last. -/
theorem lt_next_of_pairwise {seqs : List Nat} (hseqs : seqs.Pairwise (· < ·)) {seq : Nat}
    (hmem : seq ∈ seqs) (d : Nat) : seq < (seqs.getLast?.map (· + 1)).getD d := by
  induction seqs generalizing seq with
  | nil => simp at hmem
  | cons first rest ih =>
    obtain ⟨hfirst, hrest⟩ := List.pairwise_cons.1 hseqs
    cases rest with
    | nil =>
      rw [List.mem_singleton.1 hmem]
      simp
    | cons second rest =>
      rw [List.getLast?_cons_cons]
      rcases List.mem_cons.1 hmem with rfl | hmem
      · exact (hfirst second List.mem_cons_self).trans (ih hrest List.mem_cons_self)
      · exact ih hrest hmem

/-- A call whose ids come from the counter of the handle's epoch keeps the invariant. -/
theorem mint (h : WorldInv w) {i : Nat} {call : ManifestCall} {m : Manifest} {s : ManifestSystem}
    {seqs : List Nat} {nextSeq : Nat → Nat} (hi : w.manifest.handles[i]? = some (.idle m))
    (hmint : MaintenanceSystem.mint w m.epoch call seqs = some nextSeq)
    (hs : w.manifest.step (.call i call) = some s) :
    WorldInv { w with manifest := s, nextSeq := nextSeq } := by
  have hends : ∀ fold, call = .foldPending fold → fold.oldTailBase ≤ fold.oldTailEnd := by
    rintro fold rfl
    by_contra hnot
    simp [MaintenanceSystem.mint, hnot] at hmint
  simp only [MaintenanceSystem.mint] at hmint
  split_ifs at hmint with hend hagain hnew
  · -- the same request again
    cases hmint
    refine h.call hi hs ⟨(issuedOk_of_reaches h.reach).admissible call hagain.1, Or.inl hagain.1⟩
      (fun _ => le_rfl) fun id hid => ?_
    obtain ⟨epoch, seq, rfl, hlt⟩ := h.counted call hagain.1 id hid
    rw [hagain.2, List.mem_map] at hid
    obtain ⟨seq', -, heq⟩ := hid
    obtain ⟨rfl, rfl⟩ := segmentId_inj heq
    exact ⟨seq', rfl, hlt⟩
  · cases hmint
    obtain ⟨hids, hrise, hcounter⟩ := hnew
    have hmem : ∀ id ∈ call.introduces, ∃ seq ∈ seqs, id = segmentId m.epoch seq := by
      intro id hid
      rw [hids, List.mem_map] at hid
      obtain ⟨seq, hseq, rfl⟩ := hid
      exact ⟨seq, hseq, rfl⟩
    have hadmissible : call.Admissible := by
      refine ⟨?_, fun id hid => ?_, hends⟩
      · rw [hids]
        exact List.Nodup.map (fun a b heq => (segmentId_inj heq).2)
          (hrise.imp fun hlt => Nat.ne_of_lt hlt)
      · obtain ⟨seq, -, rfl⟩ := hmem id hid
        exact ⟨m.epoch, seq, rfl⟩
    refine h.call hi hs ⟨hadmissible, Or.inr fun id hid => ?_⟩ (fun epoch => ?_) fun id hid => ?_
    · obtain ⟨seq, hseq, rfl⟩ := hmem id hid
      exact h.unused (hcounter seq hseq)
    · by_cases heq : epoch = m.epoch
      · subst heq
        rw [Function.update_self]
        cases hlast : seqs.getLast? with
        | none => simp
        | some last =>
          have := hcounter last (List.mem_of_getLast? hlast)
          simp only [Option.map_some, Option.getD_some]
          omega
      · rw [Function.update_of_ne heq]
    · obtain ⟨seq, hseq, rfl⟩ := hmem id hid
      refine ⟨seq, rfl, ?_⟩
      rw [Function.update_self]
      exact lt_next_of_pairwise hrise hseq _

end WorldInv

end Chorus
