import Chorus.Manifest.Proofs.SystemProofs

/-!
# The register's history, and control-plane fencing

In a derived history every write replaces the document of the version before it by one of the
mutations (`Derived.exists_mutation`), and epochs and floors only rise (`Derived.mono`). So no write
is made under a claim once a newer one has committed (`no_write_after_newer_claim`), and a
truncation is acknowledged only for a document its own claim owned during the call
(`raiseTrunc_ok_owned`).
-/

namespace Chorus

open Concurrency ManifestRecord

variable {h : History} {v w : Nat} {r r' : ManifestRecord} {a a' : Option Author}

theorem History.Entry.le_length (he : History.Entry h v r a) : v ≤ h.length := by
  obtain ⟨rest, hs, rfl⟩ := he
  exact hs.length_le

theorem History.Entry.pos (he : History.Entry h v r a) : 0 < v := by
  obtain ⟨rest, -, rfl⟩ := he
  omega

/-- An entry of a history with one more document is that document or an older entry. -/
theorem History.entry_cons {e : ManifestRecord × Option Author} :
    History.Entry (e :: h) v r a ↔ (v = h.length + 1 ∧ e = (r, a)) ∨ History.Entry h v r a := by
  constructor
  · rintro ⟨rest, hs, hv⟩
    rcases List.suffix_cons_iff.1 hs with heq | hs
    · simp only [List.cons.injEq] at heq
      exact Or.inl ⟨by rw [← hv, heq.2], heq.1.symm⟩
    · exact Or.inr ⟨rest, hs, hv⟩
  · rintro (⟨rfl, rfl⟩ | ⟨rest, hs, hv⟩)
    · exact ⟨h, List.suffix_refl _, rfl⟩
    · exact ⟨rest, hs.trans (List.suffix_cons _ _), hv⟩

theorem History.exists_entry (hpos : 0 < v) (hle : v ≤ h.length) :
    ∃ r a, History.Entry h v r a := by
  induction h with
  | nil =>
    simp only [List.length_nil] at hle
    omega
  | cons e h ih =>
    by_cases hv : v = h.length + 1
    · exact ⟨e.1, e.2, entry_cons.2 (Or.inl ⟨hv, rfl⟩)⟩
    · obtain ⟨r, a, hr⟩ := ih (by simp only [List.length_cons] at hle; omega)
      exact ⟨r, a, entry_cons.2 (Or.inr hr)⟩

/-- A write replaces the document of the version before it by one of the mutations. -/
theorem Derived.exists_mutation {b : Author} (hd : Derived h) (he : History.Entry h v r (some b)) :
    ∃ u r₀ a₀, v = u + 1 ∧ History.Entry h u r₀ a₀ ∧ Mutation b r₀ r := by
  induction hd with
  | nil =>
    obtain ⟨rest, hs, -⟩ := he
    simp at hs
  | create hb =>
    rcases History.entry_cons.1 he with ⟨-, heq⟩ | ⟨rest, hs, -⟩
    · simp at heq
    · simp at hs
  | @write r₁ next a₁ b₁ rest hd ht hv ih =>
    rcases History.entry_cons.1 he with ⟨hlen, heq⟩ | he
    · simp only [Prod.mk.injEq, Option.some.injEq] at heq
      obtain ⟨rfl, rfl⟩ := heq
      exact ⟨_, r₁, b₁, hlen, ⟨rest, List.suffix_cons _ _, rfl⟩, transform_update ht⟩
    · obtain ⟨u, r₀, a₀, hv, he₀, hm⟩ := ih he
      exact ⟨u, r₀, a₀, hv, History.entry_cons.2 (Or.inr he₀), hm⟩

theorem Derived.entry_none (hd : Derived h) (he : History.Entry h v r none) :
    v = 1 ∧ ∃ buckets, r = initial buckets ∧ validateBucketNames buckets = .ok () := by
  induction hd with
  | nil =>
    obtain ⟨rest, hs, -⟩ := he
    simp at hs
  | @create buckets hb =>
    rcases History.entry_cons.1 he with ⟨hv, heq⟩ | ⟨rest, hs, -⟩
    · simp only [Prod.mk.injEq, and_true] at heq
      exact ⟨hv, buckets, heq.symm, hb⟩
    · simp at hs
  | write hd ht hv ih =>
    rcases History.entry_cons.1 he with ⟨-, heq⟩ | he
    · simp at heq
    · exact ih he

/-- The rule for relations between an older and a newer document: what is reflexive and survives
every mutation of the newer document holds along the history. -/
theorem Derived.rel {P : ManifestRecord → ManifestRecord → Prop} (hd : Derived h)
    (hrefl : ∀ r, P r r)
    (hstep : ∀ r r₀ r₁ (b₀ : Option Author) (b : Author) u, v ≤ u → History.Entry h u r₀ b₀ →
      History.Entry h (u + 1) r₁ (some b) → P r r₀ → Mutation b r₀ r₁ → P r r₁)
    (he : History.Entry h v r a) (he' : History.Entry h w r' a') (hle : v ≤ w) : P r r' := by
  induction w generalizing r' a' with
  | zero => exact absurd he'.pos (Nat.lt_irrefl 0)
  | succ w ih =>
    by_cases hv : v = w + 1
    · subst hv
      obtain ⟨rfl, -⟩ := he.unique he'
      exact hrefl r
    · have hpos := he.pos
      cases a' with
      | none =>
        have := (hd.entry_none he').1
        omega
      | some b =>
        obtain ⟨u, r₀, a₀, hu, he₀, hm⟩ := hd.exists_mutation he'
        obtain rfl : w = u := by omega
        exact hstep r r₀ r' a₀ b w (by omega) he₀ he' (ih he₀ (by omega)) hm

/-- Epochs and floors only rise, and an epoch never changes its owner. -/
theorem Derived.mono (hd : Derived h) (he : History.Entry h v r a) (he' : History.Entry h w r' a')
    (hle : v ≤ w) :
    r.epoch ≤ r'.epoch ∧ r.trunc ≤ r'.trunc ∧ (r.epoch = r'.epoch → r.owner = r'.owner) := by
  refine hd.rel (P := fun r r' => r.epoch ≤ r'.epoch ∧ r.trunc ≤ r'.trunc ∧
    (r.epoch = r'.epoch → r.owner = r'.owner)) (fun r =>
      ⟨le_rfl, le_rfl, fun _ => rfl⟩) ?_ he he' hle
  rintro r r₀ r₁ b₀ b u - - - ⟨hepoch, htrunc, howner⟩ hm
  obtain ⟨hepoch', htrunc'⟩ := hm.mono
  refine ⟨hepoch.trans hepoch', htrunc.trans htrunc', fun heq => ?_⟩
  rcases hm.epoch_cases with ⟨hnext, -⟩ | ⟨hnext, hown, -⟩
  · omega
  · rw [howner (by omega), hown]

/-! ## The tail base -/

theorem Derived.validate_eq {b : Author} (hd : Derived h) (he : History.Entry h v r (some b)) :
    r.validate = .ok () := by
  induction hd with
  | nil =>
    obtain ⟨rest, hs, -⟩ := he
    simp at hs
  | create hb =>
    rcases History.entry_cons.1 he with ⟨-, heq⟩ | ⟨rest, hs, -⟩
    · simp at heq
    · simp at hs
  | write hd ht hv ih =>
    rcases History.entry_cons.1 he with ⟨-, heq⟩ | he
    · simp only [Prod.mk.injEq] at heq
      rw [← heq.1]
      exact hv
    · exact ih he

/-- A write that is not a fold keeps the tail base; a fold raises it past its own. -/
theorem Mutation.tailBase_cases {b : Author} {next : ManifestRecord} (hm : Mutation b r next)
    (hvalid : next.validate = .ok ()) :
    (next.tailBase = r.tailBase ∧ ∀ fold, b.call ≠ .foldPending fold) ∨
    ∃ fold, b.call = .foldPending fold ∧ r.tailBase = fold.oldTailBase ∧
      fold.oldTailBase < next.tailBase := by
  cases hm with
  | @foldPending fold hc hclaim ho ht hb hp he hroom =>
    refine Or.inr ⟨fold, hc, hb, ?_⟩
    have hwell := validate_eq_ok_iff.1 hvalid
    exact hwell.basesBelowTail ⟨fold.oldTailId, fold.oldTailBase, fold.oldTailCrc32c⟩
      (by simp [Manifest.foldRecord])
  | claim hc => exact Or.inl ⟨rfl, by simp [hc]⟩
  | registerPending hc => exact Or.inl ⟨rfl, by simp [hc]⟩
  | replaceEmptyFrontier hc => exact Or.inl ⟨rfl, by simp [hc]⟩
  | raiseTrunc hc => exact Or.inl ⟨rfl, by simp [hc]⟩
  | removeSegments hc => exact Or.inl ⟨rfl, by simp [hc]⟩

theorem Derived.tailBase_le (hd : Derived h) (he : History.Entry h v r a)
    (he' : History.Entry h w r' a') (hle : v ≤ w) : r.tailBase ≤ r'.tailBase := by
  refine hd.rel (P := fun r r' => r.tailBase ≤ r'.tailBase) (fun _ => le_rfl) ?_ he he' hle
  intro r r₀ r₁ _ b u _ _ he₁ hrel hm
  rcases hm.tailBase_cases (hd.validate_eq he₁) with ⟨heq, -⟩ | ⟨fold, -, hbase, hlt⟩
  · omega
  · omega

/-! ## Fencing -/

/-- Once a claim has committed, a write that carries an older claim, or the same epoch with another
owner, never happens. -/
theorem Derived.not_stale {b c : Author} {claim : WriterClaim} (hd : Derived h)
    (he : History.Entry h v r (some b)) (he' : History.Entry h w r' (some c)) (hvw : v < w)
    (hc : c.carried = some claim) :
    ¬ (claim.epoch < r.epoch ∨ (claim.epoch = r.epoch ∧ claim.owner ≠ r.owner)) := by
  obtain ⟨u, r₀, a₀, rfl, he₀, hm⟩ := hd.exists_mutation he'
  obtain ⟨hepoch, howner⟩ := hm.ownedBy hc
  obtain ⟨hle, -, hown⟩ := hd.mono he he₀ (by omega)
  rintro (hlt | ⟨heq, hne⟩)
  · omega
  · exact hne (by rw [← howner, hown (by omega)])

theorem raiseTrunc_done {c : Author} {writer : WriterClaim} {floor : Nat}
    (hc : c.call = .raiseTrunc writer floor) (ht : c.transform r = .ok (.done ())) :
    r.OwnedBy writer ∧ floor ≤ r.trunc := by
  simp only [Author.transform, hc, Manifest.raiseTruncTransform, bind_eq_ok, checkClaim_eq_ok,
    exists_const] at ht
  obtain ⟨ho, ht⟩ := ht
  split at ht
  · exact ⟨ho, ‹_›⟩
  · cases ht

theorem raiseTrunc_update {c : Author} {writer : WriterClaim} {floor : Nat} {next : ManifestRecord}
    (hc : c.call = .raiseTrunc writer floor) (ht : c.transform r = .ok (.update next ())) :
    next.OwnedBy writer ∧ floor ≤ next.trunc := by
  obtain ⟨ho, rfl⟩ := (transform_update ht).of_raiseTrunc hc
  exact ⟨ho, le_rfl⟩

/-- In every interleaving of any number of handles: once a claim with epoch `e` has committed, no
write that carries an older claim, or a claim of the same epoch by another owner, is ever made
again; and `raise_trunc` returns `Ok` only if some version current between its call and its return
was owned by exactly its claim with a floor at least as high. -/
theorem manifest_fencing {s : ManifestSystem}
    (hs : Reaches ManifestSystem.step (fun _ _ => True) ManifestSystem.init s) :
    (∀ v w r r' b c claim, History.Entry s.store.history v r (some b) → b.call = .claim →
      History.Entry s.store.history w r' (some c) → v < w → c.carried = some claim →
      ¬ (claim.epoch < r.epoch ∨ (claim.epoch = r.epoch ∧ claim.owner ≠ r.owner))) ∧
    ∀ c ∈ s.completions, ∀ writer floor, c.author.call = .raiseTrunc writer floor →
      c.outcome = .ok () → ∃ v r, c.startedAt ≤ v ∧ v ≤ c.endedAt ∧ s.store.At v r ∧
        r.OwnedBy writer ∧ floor ≤ r.trunc := by
  have hinv := SystemInv.of_reaches hs
  refine ⟨fun v w r r' b c claim he _ he' hvw hc => ?_, fun c hmem writer floor hcall hok => ?_⟩
  · exact hinv.store.derived.not_stale he he' hvw hc
  · obtain ⟨-, t, hgrows, hend, -, hres⟩ := hinv.done c hmem
    simp only [hok] at hres
    obtain ⟨v, r, hat, hle, hdec⟩ := hres
    have hfrom : c.toRunning.decidesFrom = c.startedAt := by simp [Running.decidesFrom, hcall]
    rw [hfrom] at hle
    rcases hdec with hdone | ⟨next, hupdate, hentry⟩
    · exact ⟨v, r, hle, hend ▸ hat.le_version, hat.mono hgrows, raiseTrunc_done hcall hdone⟩
    · have hat' : t.At (v + 1) next := ⟨_, hentry⟩
      exact ⟨v + 1, next, by omega, hend ▸ hat'.le_version, hat'.mono hgrows,
        raiseTrunc_update hcall hupdate⟩

/-- The register answers the requests that an action of the handle makes. -/
def answeredRun (i requests : Nat) (act : ManifestSystem.Action) : List ManifestSystem.Action :=
  act :: List.replicate requests (.step i (.op .answered)) ++ [.finish i]

/-- Two writers claim in turn. The deposed one tries to register a segment, and the second one
raises the floor. -/
def fencedRun : List ManifestSystem.Action :=
  answeredRun 0 2 (.openHandle "first" 1 ["bucket"] 6144 0) ++ answeredRun 0 1 (.call 0 .claim) ++
  answeredRun 1 1 (.openHandle "second" 1 ["bucket"] 6144 0) ++ answeredRun 1 1 (.call 1 .claim) ++
  answeredRun 0 2 (.call 0 (.registerPending (segmentId 1 1))) ++
  answeredRun 1 2 (.call 1 (.raiseTrunc ⟨2, "second"⟩ 1))

/-- The deposed writer is refused and nothing after the second claim carries its own, and
`raise_trunc` has returned `Ok`. -/
theorem manifest_fencing_second_writer : ∃ s,
    Reaches ManifestSystem.step (fun _ _ => True) ManifestSystem.init s ∧
    (∃ c ∈ s.completions, c.author.call = .registerPending (segmentId 1 1) ∧
      c.author.carried = some ⟨1, "first"⟩ ∧ c.outcome = .error (.fenced .higherEpoch)) ∧
    (∃ v r b, History.Entry s.store.history v r (some b) ∧ b.call = .claim ∧ r.epoch = 2 ∧
      v < s.store.version ∧ ∀ w r' c, History.Entry s.store.history w r' (some c) → v < w →
        c.carried ≠ some ⟨1, "first"⟩) ∧
    ∃ c ∈ s.completions, c.author.call = .raiseTrunc ⟨2, "second"⟩ 1 ∧ c.outcome = .ok () ∧
      ∃ v r, c.startedAt ≤ v ∧ v ≤ c.endedAt ∧ s.store.At v r ∧ r.OwnedBy ⟨2, "second"⟩ ∧
        1 ≤ r.trunc := by
  have hrun : (runChecked ManifestSystem.step (fun _ _ => true) ManifestSystem.init fencedRun).any
      (fun s => (s.completions.any fun c => decide (
          c.author.call = .registerPending (segmentId 1 1) ∧
          c.author.carried = some ⟨1, "first"⟩ ∧ c.outcome = .error (.fenced .higherEpoch))) &&
        ((s.store.history.drop 1).head?.any fun e => decide (e.1.epoch = 2) &&
          e.2.any fun b => decide (b.call = .claim)) &&
        s.completions.any fun c => decide (c.author.call = .raiseTrunc ⟨2, "second"⟩ 1 ∧
          c.outcome = .ok ())) = true := by
    decide +kernel
  obtain ⟨s, hreach, hfacts⟩ := exists_reaches (fun _ _ _ => trivial) hrun
  simp only [Bool.and_eq_true, List.any_eq_true, Option.any_eq_true, decide_eq_true_eq] at hfacts
  obtain ⟨⟨hrefused, ⟨r, _⟩, hhead, hepoch, b, rfl, hclaim⟩, c, hc, hcall, hok⟩ := hfacts
  obtain ⟨rest, hrest⟩ := List.head?_eq_some_iff.1 hhead
  have hentry : History.Entry s.store.history (rest.length + 1) r (some b) :=
    ⟨rest, hrest ▸ List.drop_suffix 1 _, rfl⟩
  have hlength := congrArg List.length hrest
  rw [List.length_drop, List.length_cons] at hlength
  refine ⟨s, hreach, hrefused, ⟨_, r, b, hentry, hclaim, hepoch, ?_, ?_⟩, c, hc, hcall, hok,
    (manifest_fencing hreach).2 c hc _ _ hcall hok⟩
  · show _ < s.store.history.length
    omega
  · intro w r' c he hlt hcarried
    exact (manifest_fencing hreach).1 _ w r r' b c _ hentry hclaim he hlt hcarried
      (.inl (by rw [hepoch]; decide))

end Chorus
