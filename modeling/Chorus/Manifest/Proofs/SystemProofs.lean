import Chorus.Manifest.Proofs.HandleStepProofs
import Chorus.Manifest.Proofs.RegisterProofs

/-!
# Invariants of every interleaving of manifest handles

`SystemInv` needs no assumption about the callers: the register's history is derived from the
mutators' transforms, every idle handle caches a document the register held, every running call
satisfies its specification, and every call that has returned met its postcondition in the store at
its return.
-/

namespace Chorus

open Concurrency Relation ManifestRecord

structure SystemInv (s : ManifestSystem) : Prop where
  store : StoreInv s.store
  written : ∀ v r a, History.Entry s.store.history v r (some a) → a.call ∈ s.issued
  sent : ∀ q ∈ s.store.inflight, ∀ a, q.author = some a → a.call ∈ s.issued
  idle : ∀ (i : Nat) (m : Manifest), s.handles[i]? = some (.idle m) → HandleOk s.store m
  busy : ∀ (i : Nat) (c : Running) (p : Prog StoreOp 0 (Manifest × Except ProtocolError Unit)),
    s.handles[i]? = some (.busy c p) →
    (c.author.call = .openHandle ∨ c.author.call ∈ s.issued) ∧ c.startedAt ≤ s.store.version ∧
      wp (storeMachine c.author) p Store.Grows (Sends c.author) (Returned c) s.store
  done : ∀ c ∈ s.completions, (c.author.call = .openHandle ∨ c.author.call ∈ s.issued) ∧
    ∃ t : Store Author, t.Grows s.store ∧ t.version = c.endedAt ∧ c.startedAt ≤ c.endedAt ∧
      match c.outcome with
      | .ok () => Succeeded c.toRunning t
      | .error e => Failed c.toRunning e t

namespace SystemInv

variable {s s' : ManifestSystem}

theorem init : SystemInv ManifestSystem.init where
  store := ⟨.nil, by simp [ManifestSystem.init, Store.empty]⟩
  written := by
    rintro v r a ⟨rest, hs, -⟩
    simp [ManifestSystem.init, Store.empty] at hs
  sent := by simp [ManifestSystem.init, Store.empty]
  idle := by simp [ManifestSystem.init]
  busy := by simp [ManifestSystem.init]
  done := by simp [ManifestSystem.init]

/-- A step of the store that only adds legal writes by issued calls. -/
theorem setStore (h : SystemInv s) {t : Store Author} (hg : s.store.Grows t) (ht : StoreInv t)
    (hwritten : ∀ v r a, History.Entry t.history v r (some a) → a.call ∈ s.issued)
    (hsent : ∀ q ∈ t.inflight, ∀ a, q.author = some a → a.call ∈ s.issued) :
    SystemInv { s with store := t } where
  store := ht
  written := hwritten
  sent := hsent
  idle := fun i m hi => (h.idle i m hi).mono hg
  busy := fun i c p hi => by
    obtain ⟨hc, hv, hwp⟩ := h.busy i c p hi
    exact ⟨hc, hv.trans hg.version_le, wp_rely hwp (.single hg)⟩
  done := fun c hc => by
    obtain ⟨hissued, t', ht', hrest⟩ := h.done c hc
    exact ⟨hissued, t', ht'.trans hg, hrest⟩

theorem entry_apply {t : Store Author} {q : StoreRequest Author} {v : Nat} {r : ManifestRecord}
    {a : Option Author} (h : History.Entry (t.apply q).history v r a) :
    History.Entry t.history v r a ∨ (r = q.record ∧ a = q.author ∧ t.version = q.version) := by
  unfold Store.apply at h
  split at h
  · obtain ⟨rest, hs, hv⟩ := h
    rcases List.suffix_cons_iff.1 hs with heq | hs
    · simp only [List.cons.injEq, Prod.mk.injEq] at heq
      exact Or.inr ⟨heq.1.1, heq.1.2, ‹_›⟩
    · exact Or.inl ⟨rest, hs, hv⟩
  · exact Or.inl h

/-- A request by an issued call keeps the invariant, whatever becomes of it. -/
theorem resolve (h : SystemInv s) {q : StoreRequest Author} (hq : Legal s.store q)
    (hissued : ∀ a, q.author = some a → a.call ∈ s.issued) (fate : RequestFate) :
    SystemInv { s with store := s.store.resolve q fate } := by
  refine h.setStore (s.store.grows_resolve q fate) (h.store.resolve hq) ?_ ?_
  · intro v r a hentry
    cases fate with
    | dropped => exact h.written v r a hentry
    | delayed => exact h.written v r a hentry
    | applied =>
      rcases entry_apply hentry with hentry | ⟨-, ha, -⟩
      · exact h.written v r a hentry
      · exact hissued a ha.symm
  · intro q' hq'
    cases fate with
    | dropped => exact h.sent q' hq'
    | delayed =>
      rcases List.mem_cons.1 hq' with rfl | hq'
      · exact hissued
      · exact h.sent q' hq'
    | applied =>
      refine h.sent q' ?_
      simp only [Store.resolve, Store.apply] at hq'
      split at hq' <;> exact hq'

theorem sends (h : SystemInv s) {a : Author} (ha : a.call = .openHandle ∨ a.call ∈ s.issued)
    {t : Store Author} (ht : Sends a s.store t) : SystemInv { s with store := t } := by
  rcases ht with rfl | ⟨q, fate, hq, hauthor, rfl⟩
  · exact h
  · refine h.resolve hq (fun b hb => ?_) fate
    obtain rfl := hauthor b hb
    refine ha.resolve_left fun hopen => ?_
    -- opening a handle writes nothing but the constant initial record
    simp only [Legal, hb] at hq
    obtain ⟨r, -, htransform, -⟩ := hq
    simp [Author.transform, hopen] at htransform

theorem step_store (h : SystemInv s) {act : ManifestSystem.Action} (hs : s.step act = some s') :
    SystemInv { s with store := s'.store } ∧ s.store.Grows s'.store := by
  rcases ManifestSystem.store_cases hs with heq | ⟨i, c, p, p', choice, hi, hstep⟩ | ⟨k, q, hq, heq⟩
  · rw [heq]
    exact ⟨h, .refl _⟩
  · obtain ⟨hc, -, hwp⟩ := h.busy i c p hi
    obtain ⟨hsends, -⟩ := wp_step hwp hstep
    rcases Relation.reflGen_iff _ _ _ |>.1 hsends with hsame | hsends
    · rw [hsame]
      exact ⟨h, .refl _⟩
    · exact ⟨h.sends hc hsends, hsends.grows⟩
  · rw [heq]
    have hmem := List.mem_of_getElem? hq
    have happly := h.resolve (h.store.legal q hmem) (h.sent q hmem) .applied
    refine ⟨happly.setStore (List.suffix_refl _) ⟨happly.store.derived, fun q' hq' => ?_⟩
      happly.written fun q' hq' => h.sent q' (List.mem_of_mem_eraseIdx hq'), s.store.grows_apply q⟩
    exact (h.store.legal q' (List.mem_of_mem_eraseIdx hq')).mono (s.store.grows_apply q)

theorem step (h : SystemInv s) {act : ManifestSystem.Action} (hs : s.step act = some s') :
    SystemInv s' := by
  obtain ⟨hstore, hgrows⟩ := h.step_store hs
  have hissued := ManifestSystem.issued_subset hs
  refine ⟨hstore.store, fun v r a he => hissued (hstore.written v r a he),
    fun q hq a ha => hissued (hstore.sent q hq a ha), fun j m hj => ?_, fun j c p hj => ?_,
    fun c hc => ?_⟩
  · cases ManifestSystem.nextHandle hs hj with
    | kept hi => exact hstore.idle _ m hi
    | cloned hi => exact hstore.idle _ m hi
    | @adopted j' m m' hi hj' =>
      unfold Manifest.installUpdate
      split
      · obtain ⟨a, he⟩ := (hstore.idle j m hi).cached
        obtain ⟨a', he'⟩ := (hstore.idle j' m' hj').cached
        exact ⟨(hstore.idle j' m' hj').cached, (hstore.store.derived.buckets_eq he' he).trans
          (hstore.idle j m hi).configured, (hstore.idle j m hi).buckets⟩
      · exact hstore.idle j m hi
    | @finished c m outcome hi hopen =>
      have hreturned : Returned c (m, outcome) s'.store := wp_value (hstore.busy j c _ hi).2.2 rfl
      cases outcome with
      | ok u => exact hreturned.1
      | error e =>
        exact hreturned.1 fun hcall => hopen ⟨hcall, by simp [Except.isOk, Except.toBool]⟩
  · cases ManifestSystem.nextHandle hs hj with
    | kept hi =>
      obtain ⟨hc, hrest⟩ := hstore.busy _ c p hi
      exact ⟨hc.imp_right fun hmem => hissued hmem, hrest⟩
    | opened hact hopen =>
      unfold Manifest.openHandle at hopen
      split at hopen
      · cases hopen
      · rename_i hbuckets
        split_ifs at hopen with hcount
        split at hopen
        · cases hopen
        · cases hopen
          exact ⟨Or.inl rfl, hgrows.version_le, wp_rely (wp_openHandle (fun _ _ => id) rfl hbuckets)
            (.single hgrows)⟩
    | @called call m hact hi hcall hadded =>
      have hmem : call ∈ s'.issued := hadded ▸ List.mem_cons_self
      exact ⟨Or.inr hmem, hgrows.version_le, wp_rely (wp_prog (fun _ _ => id) (h.idle j m hi) hcall)
        (.single hgrows)⟩
    | stepped hi hstep =>
      obtain ⟨hc, hv, hwp⟩ := h.busy _ c _ hi
      exact ⟨hc.imp_right fun hmem => hissued hmem, hv.trans hgrows.version_le,
        (wp_step hwp hstep).2⟩
  · rcases ManifestSystem.completions_cases hs with heq | ⟨i, c', m, outcome, -, hi, hsame, heq⟩
    · obtain ⟨hc', hrest⟩ := hstore.done c (heq ▸ hc)
      exact ⟨hc'.imp_right fun hmem => hissued hmem, hrest⟩
    · rw [heq] at hc
      rcases List.mem_cons.1 hc with rfl | hc
      · obtain ⟨hcall, hv, hwp⟩ := hstore.busy i c' _ hi
        have hreturned : Returned c' (m, outcome) s'.store := wp_value hwp rfl
        refine ⟨hcall.imp_right fun hmem => hissued hmem, s'.store, .refl _, by rw [hsame],
          by rw [hsame] at hv; exact hv, ?_⟩
        cases outcome with
        | ok u => exact hreturned.2
        | error e => exact hreturned.2
      · obtain ⟨hc', hrest⟩ := hstore.done c hc
        exact ⟨hc'.imp_right fun hmem => hissued hmem, hrest⟩

/-- The invariant holds in every reachable state, whatever the callers do. -/
theorem of_reaches {ok : ManifestSystem → ManifestSystem.Action → Prop}
    (h : Reaches ManifestSystem.step ok ManifestSystem.init s) : SystemInv s :=
  h.invariant init fun _ _ _ hs _ hstep => hs.step hstep

end SystemInv

end Chorus
