import Chorus.Manifest.Proofs.InvariantProofs

/-!
# Who writes to the register

A property of authors that every caller ensures when it issues a call holds of every write
(`AuthorsOk.step`). A write that brings in ids carries the claim that owns the register, so the
register never takes in an id of an older epoch (`Fresh.minted_stays_out`).
-/

namespace Chorus

open Concurrency ManifestRecord

variable {P : Author → Prop} {s s' : ManifestSystem}

/-- All authors, of documents, of requests on their way and of running calls, have a property. -/
structure AuthorsOk (P : Author → Prop) (s : ManifestSystem) : Prop where
  written : ∀ v r a, History.Entry s.store.history v r (some a) → P a
  sent : ∀ q ∈ s.store.inflight, ∀ a, q.author = some a → P a
  busy : ∀ (i : Nat) (c : Running) (p : Prog StoreOp 0 (Manifest × Except ProtocolError Unit)),
    s.handles[i]? = some (.busy c p) → P c.author

namespace AuthorsOk

theorem init : AuthorsOk P ManifestSystem.init where
  written := by
    rintro v r a ⟨rest, hs, -⟩
    simp [ManifestSystem.init, Store.empty] at hs
  sent := by simp [ManifestSystem.init, Store.empty]
  busy := by simp [ManifestSystem.init]

/-- A request by an author with the property, whatever becomes of it. -/
theorem resolve (h : AuthorsOk P s) {q : StoreRequest Author} (hq : ∀ a, q.author = some a → P a)
    (fate : RequestFate) : AuthorsOk P { s with store := s.store.resolve q fate } := by
  refine ⟨fun v r a he => ?_, fun q' hq' a ha => ?_, h.busy⟩
  · cases fate with
    | dropped => exact h.written v r a he
    | delayed => exact h.written v r a he
    | applied =>
      rcases SystemInv.entry_apply he with he | ⟨-, ha, -⟩
      · exact h.written v r a he
      · exact hq a ha.symm
  · cases fate with
    | dropped => exact h.sent q' hq' a ha
    | delayed =>
      rcases List.mem_cons.1 hq' with rfl | hq'
      · exact hq a ha
      · exact h.sent q' hq' a ha
    | applied =>
      simp only [Store.resolve, Store.apply] at hq'
      split at hq' <;> exact h.sent q' hq' a ha

/-- A step keeps the property if the call that it issues, if any, has it. -/
theorem step (h : AuthorsOk P s) (hinv : SystemInv s) {act : ManifestSystem.Action}
    (hopen : ∀ a : Author, a.call = .openHandle → P a)
    (hcall : ∀ i call m, act = .call i call → s.handles[i]? = some (.idle m) → P (.of m call))
    (hs : s.step act = some s') : AuthorsOk P s' := by
  have hstore : AuthorsOk P { s with store := s'.store } := by
    rcases ManifestSystem.store_cases hs with heq | ⟨i, c, p, p', choice, hi, hstep⟩ |
      ⟨k, q, hq, heq⟩
    · rw [heq]
      exact h
    · obtain ⟨hsends, -⟩ := wp_step (hinv.busy i c p hi).2.2 hstep
      rcases (Relation.reflGen_iff _ _ _).1 hsends with hsame | hsame | ⟨q, fate, -, hauthor, hsame⟩
      · rw [hsame]
        exact h
      · rw [hsame]
        exact h
      · rw [hsame]
        exact h.resolve (fun b hb => hauthor b hb ▸ h.busy i c p hi) fate
    · rw [heq]
      have happly := h.resolve (h.sent q (List.mem_of_getElem? hq)) .applied
      exact ⟨happly.written, fun q' hq' => h.sent q' (List.mem_of_mem_eraseIdx hq'), h.busy⟩
  refine ⟨hstore.written, hstore.sent, fun j c p hj => ?_⟩
  cases ManifestSystem.nextHandle hs hj with
  | kept hi => exact h.busy _ c p hi
  | opened => exact hopen _ rfl
  | called hact hi => exact hcall _ _ _ hact hi
  | stepped hi => exact h.busy _ c _ hi

end AuthorsOk

/-- The ids that the call brings along are minted under the epoch of its handle. -/
def Author.Minted (a : Author) : Prop :=
  ∀ id ∈ a.call.introduces, ∃ seq, id = segmentId a.handle.epoch seq

/-- A call that brings ids along carries the claim of its handle. -/
theorem Author.carried_of_introduces {a : Author} {id : SegmentId} (h : id ∈ a.call.introduces) :
    a.carried = some a.handle := by
  unfold Author.carried
  cases hc : a.call with
  | registerPending => rfl
  | replaceEmptyFrontier => rfl
  | foldPending => rfl
  | _ => simp [hc, ManifestCall.introduces] at h

theorem Derived.epoch_lt {h : History} (hd : Derived h) {v : Nat} {r : ManifestRecord}
    {a : Option Author} (he : History.Entry h v r a) : r.epoch < u64Limit := by
  induction hd generalizing v r a with
  | nil =>
    obtain ⟨rest, hs, -⟩ := he
    simp at hs
  | @create buckets hb =>
    rcases History.entry_cons.1 he with ⟨-, heq⟩ | ⟨rest, hs, -⟩
    · cases heq
      simp [ManifestRecord.initial, u64Limit]
    · simp at hs
  | @write r₀ next b b₀ rest hd ht hv ih =>
    rcases History.entry_cons.1 he with ⟨-, heq⟩ | he
    · cases heq
      have hold := ih (History.entry_cons.2 (Or.inl ⟨rfl, rfl⟩))
      have hm := transform_update ht
      cases hm with
      | claim _ hlt => exact hlt
      | _ => exact hold
    · exact ih he

/-- An id that a document does not name and that was minted under none of the epochs from the
document's own on is not named by any later document. -/
theorem Fresh.minted_stays_out {h : History} {issued : List ManifestCall} {v w : Nat}
    {r r' : ManifestRecord} {a a' : Option Author} {id : SegmentId} (hf : Fresh h issued)
    (hminted : ∀ v r a, History.Entry h v r (some a) → a.Minted) (he : History.Entry h v r a)
    (hout : id ∉ r.ids)
    (hid : ∀ epoch seq, r.epoch ≤ epoch → epoch < u64Limit → id ≠ segmentId epoch seq)
    (he' : History.Entry h w r' a') (hle : v ≤ w) : id ∉ r'.ids := by
  refine hf.derived.rel (P := fun r r' => id ∉ r.ids → id ∉ r'.ids) (fun _ hout => hout) ?_
    he he' hle hout
  intro r₁ r₂ r₃ _ b u hvu he₂ he₃ hrel hm hout₁ hmem
  have hepoch := (hf.derived.mono he he₂ hvu).1
  rcases hm.mem_ids_cases hmem with hmem | hmem | ⟨hnone, rfl⟩
  · exact hrel hout₁ hmem
  · -- the author owns the register, so its epoch is the one granted last
    obtain ⟨seq, rfl⟩ := hminted _ _ _ he₃ id hmem
    have howned := (hm.ownedBy (Author.carried_of_introduces hmem)).1
    have hlt := hf.derived.epoch_lt he₂
    exact hid b.handle.epoch seq (by omega) (by omega) rfl
  · -- only an unclaimed register has no tail
    have hzero : r₂.epoch = 0 := by
      by_contra hne
      have := (hf.sound _ _ _ he₂).tailPresent (Nat.pos_of_ne_zero hne)
      simp [hnone] at this
    exact hid (r₂.epoch + 1) 0 (by omega) (by rw [hzero]; decide) rfl

end Chorus
