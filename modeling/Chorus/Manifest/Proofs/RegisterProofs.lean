import Chorus.Concurrency.Proofs.RelyGuarantee
import Chorus.Manifest.Proofs.MutationProofs

/-!
# What the manifest programs do to the register

Documents are only ever added to the register's history, so "version `v` held the document `r`"
(`Store.At`) never becomes false again. `Sends a` is the guarantee of every manifest program of the
author `a`: its requests are `Legal`, that is, candidates its own transform computed from a document
the register held at the witnessed version. `wp_refresh` and `wp_casLoop` hold for any environment
that only adds to the history.
-/

namespace Chorus

open Concurrency Relation ManifestRecord

/-- The register's history: documents with the author of each write, newest first. -/
abbrev History := List (ManifestRecord × Option Author)

/-- Version `v` of the history is the document `r`, written by `a`. -/
def History.Entry (h : History) (v : Nat) (r : ManifestRecord) (a : Option Author) : Prop :=
  ∃ rest, (r, a) :: rest <:+ h ∧ rest.length + 1 = v

namespace Store

variable {s s' : Store Author}

def At (s : Store Author) (v : Nat) (r : ManifestRecord) : Prop :=
  ∃ a, History.Entry s.history v r a

def Grows (s s' : Store Author) : Prop := s.history <:+ s'.history

theorem Grows.refl (s : Store Author) : Grows s s := List.suffix_refl _

theorem Grows.trans {s₁ s₂ s₃ : Store Author} (h : Grows s₁ s₂) (h' : Grows s₂ s₃) : Grows s₁ s₃ :=
  List.IsSuffix.trans h h'

theorem grows_of_rely {R : Store Author → Store Author → Prop} (hR : ∀ s s', R s s' → Grows s s')
    (h : ReflTransGen R s s') : Grows s s' := by
  induction h with
  | refl => exact .refl _
  | tail _ hstep ih => exact ih.trans (hR _ _ hstep)

theorem Grows.version_le (h : Grows s s') : s.version ≤ s'.version := h.length_le

theorem At.mono {v : Nat} {r : ManifestRecord} (hat : s.At v r) (h : Grows s s') : s'.At v r := by
  obtain ⟨a, rest, hs, hv⟩ := hat
  exact ⟨a, rest, hs.trans h, hv⟩

theorem At.pos {v : Nat} {r : ManifestRecord} (h : s.At v r) : 0 < v := by
  obtain ⟨a, rest, -, rfl⟩ := h
  omega

theorem At.le_version {v : Nat} {r : ManifestRecord} (h : s.At v r) : v ≤ s.version := by
  obtain ⟨a, rest, hs, rfl⟩ := h
  exact hs.length_le

theorem At.eq_history {r : ManifestRecord} (h : s.At s.version r) :
    ∃ a rest, s.history = (r, a) :: rest := by
  obtain ⟨a, rest, hs, hv⟩ := h
  exact ⟨a, rest, (hs.eq_of_length hv).symm⟩

theorem at_of_current {r : ManifestRecord} (h : s.current = some r) : s.At s.version r := by
  unfold Store.current at h
  cases hs : s.history with
  | nil => simp [hs] at h
  | cons e rest =>
    simp only [hs, List.head?_cons, Option.map_some, Option.some.injEq] at h
    subst h
    exact ⟨e.2, rest, by rw [hs], by simp [Store.version, hs]⟩

end Store

theorem History.Entry.unique {h : History} {v : Nat} {r r' : ManifestRecord} {a a' : Option Author}
    (he : History.Entry h v r a) (he' : History.Entry h v r' a') : r = r' ∧ a = a' := by
  obtain ⟨rest, hs, hv⟩ := he
  obtain ⟨rest', hs', hv'⟩ := he'
  have hlen : ((r, a) :: rest).length = ((r', a') :: rest').length := by simp; omega
  have := (List.suffix_of_suffix_length_le hs hs' hlen.le).eq_of_length hlen
  simp only [List.cons.injEq, Prod.mk.injEq] at this
  exact this.1

/-- A request the environment may deliver: the creation of a missing register with a constant
record, or a valid candidate its author computed from the document at the witnessed version. -/
def Legal (s : Store Author) (q : StoreRequest Author) : Prop :=
  match q.author with
  | none => q.version = 0 ∧ ∃ buckets, q.record = initial buckets ∧
      validateBucketNames buckets = .ok ()
  | some a => ∃ r, s.At q.version r ∧ a.transform r = .ok (.update q.record ()) ∧
      q.record.validate = .ok ()

theorem Legal.mono {s s' : Store Author} {q : StoreRequest Author} (h : Legal s q)
    (hg : s.Grows s') : Legal s' q := by
  unfold Legal at h ⊢
  split at h
  · exact h
  · obtain ⟨r, hat, ht⟩ := h
    exact ⟨r, hat.mono hg, ht⟩

/-- What a program of author `a` does to the store in one operation. -/
def Sends (a : Author) (s s' : Store Author) : Prop :=
  s' = s ∨ ∃ q fate, Legal s q ∧ (∀ b, q.author = some b → b = a) ∧ s' = s.resolve q fate

theorem Store.grows_apply (s : Store Author) (q : StoreRequest Author) : s.Grows (s.apply q) := by
  unfold Store.apply Store.Grows
  split
  · exact List.suffix_cons _ _
  · exact List.suffix_refl _

theorem Store.grows_resolve (s : Store Author) (q : StoreRequest Author) (fate : RequestFate) :
    s.Grows (s.resolve q fate) := by
  cases fate with
  | dropped => exact .refl _
  | applied => exact s.grows_apply q
  | delayed => exact List.suffix_refl _

theorem Sends.grows {a : Author} {s s' : Store Author} (h : Sends a s s') : s.Grows s' := by
  rcases h with rfl | ⟨q, fate, -, -, rfl⟩
  · exact .refl _
  · exact s.grows_resolve q fate

/-- A history that arises from the creation of the register by writes that authors computed from the
document they replace. -/
inductive Derived : History → Prop where
  | nil : Derived []
  | create {buckets : List String} (hb : validateBucketNames buckets = .ok ()) :
      Derived [(initial buckets, none)]
  | write {r next : ManifestRecord} {a : Author} {b : Option Author} {rest : History}
      (h : Derived ((r, b) :: rest)) (ht : a.transform r = .ok (.update next ()))
      (hv : next.validate = .ok ()) : Derived ((next, some a) :: (r, b) :: rest)

/-- All documents of a derived history record the same buckets. -/
theorem Derived.exists_buckets {h : History} (hd : Derived h) :
    ∃ buckets, ∀ e ∈ h, e.1.buckets = buckets := by
  induction hd with
  | nil => exact ⟨[], by simp⟩
  | @create buckets hb => exact ⟨buckets, by simp [initial]⟩
  | @write r next a b rest hd ht hv ih =>
    obtain ⟨buckets, hbuckets⟩ := ih
    refine ⟨buckets, fun e he => ?_⟩
    rcases List.mem_cons.1 he with rfl | he
    · exact (transform_update ht).buckets_eq.trans (hbuckets (r, b) (by simp))
    · exact hbuckets e he

theorem History.Entry.mem {h : History} {v : Nat} {r : ManifestRecord} {a : Option Author}
    (he : History.Entry h v r a) : (r, a) ∈ h := by
  obtain ⟨rest, hs, -⟩ := he
  exact hs.subset (by simp)

theorem Derived.buckets_eq {h : History} {v w : Nat} {r r' : ManifestRecord} {a a' : Option Author}
    (hd : Derived h) (he : History.Entry h v r a) (he' : History.Entry h w r' a') :
    r.buckets = r'.buckets := by
  obtain ⟨buckets, hbuckets⟩ := hd.exists_buckets
  rw [hbuckets _ he.mem, hbuckets _ he'.mem]

/-- The invariant of the store: a derived history and legal requests on their way. -/
structure StoreInv (s : Store Author) : Prop where
  derived : Derived s.history
  legal : ∀ q ∈ s.inflight, Legal s q

theorem StoreInv.apply {s : Store Author} {q : StoreRequest Author} (h : StoreInv s)
    (hq : Legal s q) : StoreInv (s.apply q) := by
  refine ⟨?_, fun q' hq' => ?_⟩
  · unfold Store.apply
    split
    case isFalse => exact h.derived
    case isTrue hv =>
      unfold Legal at hq
      cases ha : q.author with
      | none =>
        simp only [ha] at hq
        obtain ⟨hzero, buckets, hrec, hb⟩ := hq
        have hnil : s.history = [] := List.length_eq_zero_iff.1 (hv.trans hzero)
        simp only [hnil, hrec]
        exact .create hb
      | some a =>
        simp only [ha] at hq
        obtain ⟨r, hat, ht, hvalid⟩ := hq
        obtain ⟨b, rest, hs⟩ := Store.At.eq_history (hv ▸ hat)
        have hd := h.derived
        simp only [hs] at hd ⊢
        exact .write hd ht hvalid
  · have hmem : q' ∈ s.inflight := by
      unfold Store.apply at hq'
      split at hq' <;> exact hq'
    exact (h.legal q' hmem).mono (s.grows_apply q)

theorem StoreInv.resolve {s : Store Author} {q : StoreRequest Author} {fate : RequestFate}
    (h : StoreInv s) (hq : Legal s q) : StoreInv (s.resolve q fate) := by
  cases fate with
  | dropped => exact h
  | applied => exact h.apply hq
  | delayed =>
    refine ⟨h.derived, fun q' hq' => ?_⟩
    rcases List.mem_cons.1 hq' with rfl | hq'
    · exact hq.mono (List.suffix_refl _)
    · exact (h.legal q' hq').mono (List.suffix_refl _)

/-! ## The operations of the store -/

section Exec

variable {a : Author} {s s' : Store Author} {ω : StoreOutcome}

theorem exec_read {b : Except ManifestStoreError (Option (Nat × ManifestRecord))}
    (h : (storeMachine a).exec s .read ω = some (s', b)) :
    s' = s ∧ (b = .ok (s.current.map fun r => (s.version, r)) ∨ b = .error .unavailable ∨
      b = .error .backend) := by
  cases ω <;> simp only [storeMachine, Option.some.injEq, Prod.mk.injEq] at h <;>
    obtain ⟨rfl, rfl⟩ := h <;> simp

theorem exec_create {record : ManifestRecord} {b : Except ManifestStoreError Nat}
    (h : (storeMachine a).exec s (.create record) ω = some (s', b))
    (hq : Legal s ⟨0, record, none⟩) :
    Sends a s s' ∧ ((b = .ok 1 ∧ s.version = 0 ∧ s'.At 1 record) ∨ b = .error .alreadyExists ∨
      b = .error .unavailable ∨ b = .error .backend) := by
  have hsends : ∀ fate, Sends a s (s.resolve ⟨0, record, none⟩ fate) := fun fate =>
    Or.inr ⟨_, fate, hq, by simp, rfl⟩
  cases ω with
  | answered =>
    simp only [storeMachine] at h
    split at h
    · rename_i hv
      simp only [Option.some.injEq, Prod.mk.injEq] at h
      obtain ⟨rfl, rfl⟩ := h
      have hnil : s.history = [] := List.length_eq_zero_iff.1 hv
      refine ⟨hsends .applied, Or.inl ⟨rfl, hv, none, [], ?_, rfl⟩⟩
      simp [Store.apply, hv, hnil]
    · simp only [Option.some.injEq, Prod.mk.injEq] at h
      obtain ⟨rfl, rfl⟩ := h
      exact ⟨Or.inl rfl, by simp⟩
  | unavailable fate | backend fate =>
    simp only [storeMachine, Option.some.injEq, Prod.mk.injEq] at h
    obtain ⟨rfl, rfl⟩ := h
    exact ⟨hsends fate, by simp⟩

theorem exec_update {v : Nat} {next : ManifestRecord} {b : Except ManifestStoreError Nat}
    (h : (storeMachine a).exec s (.update v next) ω = some (s', b))
    (hq : Legal s ⟨v, next, some a⟩) :
    Sends a s s' ∧ ((b = .ok (v + 1) ∧ History.Entry s'.history (v + 1) next (some a)) ∨
      b = .error .conflict ∨ b = .error .unavailable ∨ b = .error .backend) := by
  have hv : v ≠ 0 := by
    obtain ⟨r, hat, -⟩ := hq
    exact hat.pos.ne'
  have hsends : ∀ fate, Sends a s (s.resolve ⟨v, next, some a⟩ fate) := fun fate =>
    Or.inr ⟨_, fate, hq, by simp, rfl⟩
  cases ω with
  | answered =>
    simp only [storeMachine] at h
    split at h
    · rename_i hver
      simp only [Option.some.injEq, Prod.mk.injEq] at h
      obtain ⟨rfl, rfl⟩ := h
      refine ⟨hsends .applied, Or.inl ⟨rfl, s.history, ?_, congrArg (· + 1) hver.1⟩⟩
      simp [Store.apply, hver.1]
    · simp only [Option.some.injEq, Prod.mk.injEq] at h
      obtain ⟨rfl, rfl⟩ := h
      exact ⟨Or.inl rfl, by simp⟩
  | unavailable fate | backend fate =>
    simp only [storeMachine, if_neg hv, Option.some.injEq, Prod.mk.injEq] at h
    obtain ⟨rfl, rfl⟩ := h
    exact ⟨hsends fate, by simp⟩

end Exec

/-! ## Specifications of the programs -/

/-- A failure that comes from the store and not from a document. -/
def StoreFailure (e : ProtocolError) : Prop :=
  e = .manifestUnavailable ∨ e = .manifestStore .backend

namespace Manifest

variable {n : Nat} {α : Type} {a : Author} {R : Store Author → Store Author → Prop}
  {s : Store Author}

/-- What `refresh` leaves: a document the register held since `v₀` with the configured buckets, or a
failure of the store or of a document it held since then. -/
def Refreshed (m : Manifest) (v₀ : Nat) (result : Manifest × Except ProtocolError Unit)
    (s : Store Author) : Prop :=
  match result.2 with
  | .ok () => ∃ v r, result.1 = m.installCache v r ∧ s.At v r ∧ r.buckets = m.bucketNames ∧ v₀ ≤ v
  | .error e => result.1 = m ∧
      (StoreFailure e ∨ ∃ v r, s.At v r ∧ v₀ ≤ v ∧ m.accepted r = .error e)

theorem accepted_buckets {m : Manifest} {r : ManifestRecord} {u : Unit} (h : m.accepted r = .ok u) :
    r.buckets = m.bucketNames := by
  unfold accepted validateConfiguration at h
  split at h
  · cases h
  · by_contra hne
    simp [hne] at h

/-- A program that returns at once keeps what it knows if growth does not falsify it. -/
theorem wp_ret_of_grows {β : Type} {Q : β → Store Author → Prop} {b : β}
    (hR : ∀ s s', R s s' → s.Grows s') (hQ : ∀ s', s.Grows s' → Q b s') :
    wp (storeMachine a) (.ret b : Prog StoreOp n β) R (Sends a) Q s :=
  fun s' hs => hQ s' (Store.grows_of_rely hR hs)

theorem wp_refreshLoop (hR : ∀ s s', R s s' → s.Grows s') {m : Manifest}
    (hb : validateBucketNames m.bucketNames = .ok ()) {v₀ : Nat} (hv : v₀ ≤ s.version)
    (attempts : Nat) :
    wp (storeMachine a) (m.refreshLoop attempts : Prog StoreOp n _) R (Sends a)
      (m.Refreshed v₀) s := by
  induction attempts generalizing s with
  | zero => exact wp_ret_of_grows hR fun _ _ => ⟨rfl, Or.inl (Or.inl rfl)⟩
  | succ attempts ih =>
    intro s₁ h₁ ω s₂ b he
    have hv₁ : v₀ ≤ s₁.version := hv.trans (Store.grows_of_rely hR h₁).version_le
    obtain ⟨rfl, rfl | rfl | rfl⟩ := exec_read he
    · refine ⟨Or.inl rfl, ?_⟩
      cases hc : s₂.current with
      | some r =>
        simp only [Option.map_some]
        have hat := Store.at_of_current hc
        cases haccept : m.accepted r with
        | error e =>
          exact wp_ret_of_grows hR fun s' hg =>
            ⟨rfl, Or.inr ⟨_, r, hat.mono hg, hv₁, haccept⟩⟩
        | ok u =>
          exact wp_ret_of_grows hR fun s' hg =>
            ⟨_, r, rfl, hat.mono hg, accepted_buckets haccept, hv₁⟩
      | none =>
        simp only [Option.map_none]
        intro s₃ h₃ ω' s₄ b' he'
        have hv₃ : v₀ ≤ s₃.version := hv₁.trans (Store.grows_of_rely hR h₃).version_le
        obtain ⟨hsends, hb'⟩ := exec_create he' ⟨rfl, m.bucketNames, rfl, hb⟩
        have hv₄ : v₀ ≤ s₄.version := hv₃.trans hsends.grows.version_le
        refine ⟨hsends, ?_⟩
        rcases hb' with ⟨rfl, hzero, hat⟩ | rfl | rfl | rfl
        · exact wp_ret_of_grows hR fun s' hg => ⟨1, _, rfl, hat.mono hg, rfl, by omega⟩
        · exact ih hv₄
        · exact ih hv₄
        · exact wp_ret_of_grows hR fun _ _ => ⟨rfl, Or.inl (Or.inr rfl)⟩
    · exact ⟨Or.inl rfl, ih hv₁⟩
    · exact ⟨Or.inl rfl, wp_ret_of_grows hR fun _ _ => ⟨rfl, Or.inl (Or.inr rfl)⟩⟩

theorem wp_refresh (hR : ∀ s s', R s s' → s.Grows s') {m : Manifest}
    (hb : validateBucketNames m.bucketNames = .ok ()) {v₀ : Nat} (hv : v₀ ≤ s.version) :
    wp (storeMachine a) (m.refresh : Prog StoreOp n _) R (Sends a) (m.Refreshed v₀) s :=
  wp_refreshLoop hR hb hv _

/-- What a round of `casTransform` leaves: a decision on a document the register held since `v₀`,
and for a success by update also the entry it wrote. -/
def Decided (a : Author) (transform : ManifestRecord → Except ProtocolError (CasTransform α))
    (exhausted : ProtocolError) (m : Manifest) (v₀ : Nat)
    (result : Manifest × Except ProtocolError α) (s : Store Author) : Prop :=
  (∃ v r, result.1 = m.installCache v r ∧ s.At v r ∧ r.buckets = m.bucketNames) ∧
  match result.2 with
  | .ok value => ∃ v r, s.At v r ∧ v₀ ≤ v ∧ (transform r = .ok (.done value) ∨
      ∃ next, transform r = .ok (.update next value) ∧ History.Entry s.history
        (v + 1) next (some a))
  | .error e => e = exhausted ∨ StoreFailure e ∨ ∃ v r, s.At v r ∧ v₀ ≤ v ∧
      (transform r = .error e ∨ m.accepted r = .error e ∨ ∃ next value fault,
        transform r = .ok (.update next value) ∧ next.validate = .error fault ∧
          e = .invalidManifest (.record fault))

theorem wp_casLoop (hR : ∀ s s', R s s' → s.Grows s')
    {transform : ManifestRecord → Except ProtocolError (CasTransform α)}
    (ht : ∀ r next value, transform r = .ok (.update next value) →
      a.transform r = .ok (.update next ()))
    {exhausted : ProtocolError} {m₀ : Manifest} (hb : validateBucketNames m₀.bucketNames = .ok ())
    {v₀ : Nat} (rounds : Nat) {m : Manifest} {v : Nat} {r : ManifestRecord}
    (hm : m = m₀.installCache v r) (hat : s.At v r) (hconf : r.buckets = m₀.bucketNames)
    (hv : v₀ ≤ v) :
    wp (storeMachine a) (casLoop exhausted transform rounds m : Prog StoreOp n _) R (Sends a)
      (Decided a transform exhausted m₀ v₀) s := by
  induction rounds generalizing s m v r with
  | zero => exact wp_ret_of_grows hR fun s' hg => ⟨⟨v, r, hm, hat.mono hg, hconf⟩, Or.inl rfl⟩
  | succ rounds ih =>
    have hrec : m.record = r := by simp [hm, installCache]
    have hver : m.version = v := by simp [hm, installCache]
    simp only [casLoop, hrec, hver]
    cases hdec : transform r with
    | error e =>
      exact wp_ret_of_grows hR fun s' hg => ⟨⟨v, r, hm, hat.mono hg, hconf⟩,
        Or.inr (Or.inr ⟨v, r, hat.mono hg, hv, Or.inl hdec⟩)⟩
    | ok decision =>
      cases decision with
      | done value =>
        exact wp_ret_of_grows hR fun s' hg => ⟨⟨v, r, hm, hat.mono hg, hconf⟩,
          v, r, hat.mono hg, hv, Or.inl hdec⟩
      | update next value =>
        cases hvalid : next.validate with
        | error fault =>
          simp only [hvalid]
          exact wp_ret_of_grows hR fun s' hg => ⟨⟨v, r, hm, hat.mono hg, hconf⟩,
            Or.inr (Or.inr ⟨v, r, hat.mono hg, hv,
              Or.inr (Or.inr ⟨next, value, fault, hdec, hvalid, rfl⟩)⟩)⟩
        | ok u =>
          simp only [hvalid]
          intro s₁ h₁ ω s₂ b he
          have hat₁ := hat.mono (Store.grows_of_rely hR h₁)
          obtain ⟨hsends, hb'⟩ := exec_update he ⟨r, hat₁, ht r next value hdec, hvalid⟩
          have hat₂ := hat₁.mono hsends.grows
          -- after a conflict or a lost answer the handle re-reads and decides again
          have hretry :
              ∀ k : Manifest × Except ProtocolError Unit →
                Prog StoreOp n (Manifest × Except ProtocolError α),
              (∀ m' error, k (m', .error error) = .ret (m', .error error)) →
              (∀ m', k (m', .ok ()) = casLoop exhausted transform rounds m') →
              wp (storeMachine a) ((m.refresh : Prog StoreOp n _).bind k) R (Sends a)
                (Decided a transform exhausted m₀ v₀) s₂ := by
            intro k herror hok
            have hrefresh := wp_frame (fun s => s.At v r)
              (wp_refresh (n := n) (a := a) hR (m := m) (by rw [hm]; exact hb)
                (hv.trans hat₂.le_version)) hat₂
              (fun _ _ hstep hat => hat.mono (hR _ _ hstep))
              (fun _ _ hstep hat => hat.mono hstep.grows)
            refine wp_bind (wp_mono hrefresh (fun _ _ => id) (fun _ _ => id) ?_)
            rintro ⟨m', outcome⟩ s₃ ⟨hres, hat₃⟩
            cases outcome with
            | ok u =>
              obtain ⟨v', r', hm', hat', hconf', hle⟩ := hres
              rw [hok]
              exact ih (hm'.trans (by rw [hm]; rfl)) hat' (hconf'.trans (by rw [hm]; rfl)) hle
            | error e =>
              obtain ⟨hm', herr⟩ := hres
              rw [herror]
              refine wp_ret_of_grows hR fun s' hg => ⟨⟨v, r, hm'.trans hm, hat₃.mono hg, hconf⟩, ?_⟩
              rcases herr with herr | ⟨v', r', hat', hle, herr⟩
              · exact Or.inr (Or.inl herr)
              · refine Or.inr (Or.inr ⟨v', r', hat'.mono hg, hle, Or.inr (Or.inl ?_)⟩)
                rw [← herr, hm]
                rfl
          refine ⟨hsends, ?_⟩
          rcases hb' with ⟨rfl, hentry⟩ | rfl | rfl | rfl
          · refine wp_ret_of_grows hR fun s' hg => ?_
            have hentry' : History.Entry s'.history (v + 1) next (some a) := by
              obtain ⟨rest, hs, hlen⟩ := hentry
              exact ⟨rest, hs.trans hg, hlen⟩
            have hnext : next.buckets = m₀.bucketNames :=
              (transform_update (ht r next value hdec)).buckets_eq.trans hconf
            exact ⟨⟨v + 1, next, by rw [hm]; rfl, ⟨some a, hentry'⟩, hnext⟩,
              v, r, hat₂.mono hg, hv, Or.inr ⟨next, hdec, hentry'⟩⟩
          · exact hretry _ (fun _ _ => rfl) fun _ => rfl
          · exact hretry _ (fun _ _ => rfl) fun _ => rfl
          · exact wp_ret_of_grows hR fun s' hg =>
              ⟨⟨v, r, hm, hat₂.mono hg, hconf⟩, Or.inr (Or.inl (Or.inr rfl))⟩

end Manifest

/-! ## Specification of a call -/

/-- A handle that may be used: its cache is a document the register held, with the handle's buckets,
and these pass the check made when it was opened. -/
structure HandleOk (s : Store Author) (m : Manifest) : Prop where
  cached : s.At m.version m.record
  configured : m.record.buckets = m.bucketNames
  buckets : validateBucketNames m.bucketNames = .ok ()

theorem HandleOk.mono {s s' : Store Author} {m : Manifest} (h : HandleOk s m) (hg : s.Grows s') :
    HandleOk s' m :=
  ⟨h.cached.mono hg, h.configured, h.buckets⟩

/-- The oldest version a call's decision may refer to: the calls that re-read first never decide on
a document older than the one current when they started. -/
def Running.decidesFrom (c : Running) : Nat :=
  match c.author.call with
  | .openHandle | .raiseTrunc _ _ | .refresh | .validateOwner => c.startedAt
  | _ => c.cachedAt

/-- What is known of a successful call: its decision on some document, and the entry it wrote if the
decision was an update. -/
def Succeeded (c : Running) (s : Store Author) : Prop :=
  ∃ v r, s.At v r ∧ c.decidesFrom ≤ v ∧ (c.author.transform r = .ok (.done ()) ∨
    ∃ next, c.author.transform r = .ok (.update next ()) ∧
      History.Entry s.history (v + 1) next (some c.author))

/-- What is known of a failed call: the store failed, a claim met too much contention, or some
document was refused, by the call's own checks, on reading it, or as a candidate. -/
def Failed (c : Running) (e : ProtocolError) (s : Store Author) : Prop :=
  StoreFailure e ∨ (c.author.call = .claim ∧ e = .fenced .claimContention) ∨
    ∃ v r, s.At v r ∧ c.decidesFrom ≤ v ∧ (c.author.transform r = .error e ∨
      (∃ m : Manifest, m.accepted r = .error e ∧ (c.author.call ≠ .openHandle →
        ∃ v' r', s.At v' r' ∧ r'.buckets = m.bucketNames)) ∨ ∃ next fault,
        c.author.transform r = .ok (.update next ()) ∧ next.validate = .error fault ∧
          e = .invalidManifest (.record fault))

/-- The postcondition of every call. Only a failed opening leaves a handle that is not usable. -/
def Returned (c : Running) (result : Manifest × Except ProtocolError Unit) (s : Store Author) :
    Prop :=
  match result.2 with
  | .ok () => HandleOk s result.1 ∧ Succeeded c s
  | .error e => (c.author.call ≠ .openHandle → HandleOk s result.1) ∧ Failed c e s

section Calls

variable {n : Nat} {α : Type} {R : Store Author → Store Author → Prop} {s : Store Author}
  {m : Manifest} {c : Running}

/-- A failed or successful refresh, seen as the end of a call that decides nothing. -/
theorem wp_refresh_call (hR : ∀ s s', R s s' → s.Grows s') (hm : HandleOk s m)
    (hc : c.decidesFrom ≤ s.version) :
    wp (storeMachine c.author) (m.refresh : Prog StoreOp n _) R (Sends c.author)
      (fun result s => match result.2 with
        | .ok () => ∃ v r, result.1 = m.installCache v r ∧ s.At v r ∧ r.buckets = m.bucketNames ∧
            c.decidesFrom ≤ v
        | .error e => Returned c (result.1, .error e) s) s := by
  have hrefresh := wp_frame (fun s => s.At m.version m.record)
    (Manifest.wp_refresh (n := n) (a := c.author) hR hm.buckets hc) hm.cached
    (fun _ _ hstep hat => hat.mono (hR _ _ hstep)) (fun _ _ hstep hat => hat.mono hstep.grows)
  refine wp_mono hrefresh (fun _ _ => id) (fun _ _ => id) ?_
  rintro ⟨m', outcome⟩ s' ⟨hres, hat⟩
  cases outcome with
  | ok u => exact hres
  | error e =>
    obtain ⟨hm', herr⟩ := hres
    refine ⟨fun _ => ?_, ?_⟩
    · rw [show m' = m from hm']
      exact ⟨hat, hm.configured, hm.buckets⟩
    · rcases herr with herr | ⟨v, r, hatr, hle, herr⟩
      · exact Or.inl herr
      · exact Or.inr (Or.inr ⟨v, r, hatr, hle,
          Or.inr (Or.inl ⟨m, herr, fun _ => ⟨_, _, hat, hm.configured⟩⟩)⟩)

theorem Returned.mono {result : Manifest × Except ProtocolError Unit} {s s' : Store Author}
    (h : Returned c result s) (hg : s.Grows s') : Returned c result s' := by
  obtain ⟨m, outcome⟩ := result
  cases outcome with
  | ok u =>
    obtain ⟨hm, v, r, hat, hle, hdec⟩ := h
    refine ⟨hm.mono hg, v, r, hat.mono hg, hle, ?_⟩
    rcases hdec with hdec | ⟨next, hdec, rest, hs, hlen⟩
    · exact Or.inl hdec
    · exact Or.inr ⟨next, hdec, rest, hs.trans hg, hlen⟩
  | error e =>
    obtain ⟨hm, herr⟩ := h
    refine ⟨fun hc => (hm hc).mono hg, ?_⟩
    rcases herr with herr | herr | ⟨v, r, hat, hle, hdec⟩
    · exact Or.inl herr
    · exact Or.inr (Or.inl herr)
    · refine Or.inr (Or.inr ⟨v, r, hat.mono hg, hle, hdec.imp_right (Or.imp_left ?_)⟩)
      rintro ⟨m', hm', hconf⟩
      refine ⟨m', hm', fun hcall => ?_⟩
      obtain ⟨v', r', hat', hb'⟩ := hconf hcall
      exact ⟨v', r', hat'.mono hg, hb'⟩

/-- `transform` is the decision function of the call `c`, up to the value it returns. -/
structure Decides (c : Running)
    (transform : ManifestRecord → Except ProtocolError (CasTransform α)) : Prop where
  done : ∀ r value, transform r = .ok (.done value) → c.author.transform r = .ok (.done ())
  update : ∀ r next value, transform r = .ok (.update next value) →
    c.author.transform r = .ok (.update next ())
  error : ∀ r e, transform r = .error e → c.author.transform r = .error e

/-- The end of the retry loop is the end of the call. -/
theorem Returned.of_decided
    {transform : ManifestRecord → Except ProtocolError (CasTransform α)} (ht : Decides c transform)
    {exhausted : ProtocolError} (hexhausted : StoreFailure exhausted ∨
      (c.author.call = .claim ∧ exhausted = .fenced .claimContention))
    (hb : validateBucketNames m.bucketNames = .ok ())
    {result : Manifest × Except ProtocolError α}
    (h : Manifest.Decided c.author transform exhausted m c.decidesFrom result s) :
    Returned c (result.1, result.2.map fun _ => ()) s := by
  obtain ⟨m', outcome⟩ := result
  obtain ⟨⟨v₁, r₁, hm', hat₁, hconf⟩, hres⟩ := h
  have hok : HandleOk s m' := by
    rw [show m' = _ from hm']
    exact ⟨hat₁, hconf, hb⟩
  cases outcome with
  | ok value =>
    obtain ⟨v, r, hat, hle, hdec⟩ := hres
    refine ⟨hok, v, r, hat, hle, ?_⟩
    rcases hdec with hdec | ⟨next, hdec, hentry⟩
    · exact Or.inl (ht.done r value hdec)
    · exact Or.inr ⟨next, ht.update r next value hdec, hentry⟩
  | error e =>
    refine ⟨fun _ => hok, ?_⟩
    rcases hres with rfl | herr | ⟨v, r, hat, hle, hdec⟩
    · exact hexhausted.elim Or.inl fun h => Or.inr (Or.inl h)
    · exact Or.inl herr
    · refine Or.inr (Or.inr ⟨v, r, hat, hle, ?_⟩)
      rcases hdec with hdec | hdec | ⟨next, value, fault, hdec, hvalid, he⟩
      · exact Or.inl (ht.error r e hdec)
      · exact Or.inr (Or.inl ⟨m, hdec, fun _ => ⟨_, _, hat₁, hconf⟩⟩)
      · exact Or.inr (Or.inr ⟨next, fault, ht.update r next value hdec, hvalid, he⟩)

/-- The retry loop of a mutator without a value. -/
theorem wp_casTransform_call (hR : ∀ s s', R s s' → s.Grows s')
    {transform : ManifestRecord → Except ProtocolError (CasTransform Unit)}
    (ht : ∀ r, transform r = c.author.transform r) {v : Nat} {r : ManifestRecord}
    (hb : validateBucketNames m.bucketNames = .ok ()) (hat : s.At v r)
    (hconf : r.buckets = m.bucketNames) (hc : c.decidesFrom ≤ v) :
    wp (storeMachine c.author)
      ((m.installCache v r).casTransform .manifestUnavailable transform : Prog StoreOp n _) R
      (Sends c.author) (Returned c) s := by
  have htransform : Decides c transform := by
    refine ⟨fun r _ h => ?_, fun r _ _ h => ?_, fun r _ h => ?_⟩ <;> rw [← ht, h]
  refine wp_mono (Manifest.wp_casLoop hR htransform.update hb Manifest.maxCasRounds
    rfl hat hconf hc) (fun _ _ => id) (fun _ _ => id) ?_
  rintro ⟨m', outcome⟩ s' hres
  have := Returned.of_decided htransform (Or.inl (Or.inl rfl)) hb hres
  cases outcome <;> exact this

theorem wp_claimedTransform_call (hR : ∀ s s', R s s' → s.Grows s')
    {transform : WriterClaim → ManifestRecord → Except ProtocolError (CasTransform Unit)}
    (hhandle : c.author.handle = m.claimed)
    (ht : ∀ r, c.author.transform r = c.author.claimed r transform)
    (hm : HandleOk s m) (hc : c.decidesFrom ≤ m.version) :
    wp (storeMachine c.author) (m.claimedTransform transform : Prog StoreOp n _) R
      (Sends c.author) (Returned c) s := by
  unfold Manifest.claimedTransform
  split
  · rename_i hzero
    refine Manifest.wp_ret_of_grows hR fun s' hg => ⟨fun _ => hm.mono hg, Or.inr (Or.inr
      ⟨m.version, m.record, hm.cached.mono hg, hc, Or.inl ?_⟩)⟩
    rw [ht, Author.claimed, if_pos (by rw [hhandle]; exact hzero)]
  · rename_i hclaim
    refine wp_casTransform_call hR (fun r => ?_) hm.buckets hm.cached hm.configured hc
    rw [ht, Author.claimed, if_neg (by rw [hhandle]; exact hclaim), hhandle]

theorem wp_prog (hR : ∀ s s', R s s' → s.Grows s') (hm : HandleOk s m) {call : ManifestCall}
    (hcall : call ≠ .openHandle) :
    wp (storeMachine (.of m call)) (call.prog m) R (Sends (.of m call))
      (Returned ⟨.of m call, s.version, m.version⟩) s := by
  have hle := hm.cached.le_version
  cases call with
  | openHandle => exact absurd rfl hcall
  | registerPending pendingId =>
    simp only [ManifestCall.prog, Manifest.registerPending]
    refine wp_claimedTransform_call
      (c := ⟨.of m (.registerPending pendingId), s.version, m.version⟩)
      hR rfl ?_ hm (le_refl m.version)
    exact fun _ => rfl
  | replaceEmptyFrontier expectedTailId expectedPendingId tailBase activeId pendingId =>
    simp only [ManifestCall.prog, Manifest.replaceEmptyFrontier]
    refine wp_claimedTransform_call
      (c := ⟨.of m (.replaceEmptyFrontier expectedTailId expectedPendingId tailBase
      activeId pendingId), s.version, m.version⟩)
      hR rfl ?_ hm (le_refl m.version)
    exact fun _ => rfl
  | foldPending fold =>
    simp only [ManifestCall.prog, Manifest.foldPending]
    refine wp_claimedTransform_call (c := ⟨.of m (.foldPending fold), s.version, m.version⟩)
      hR rfl ?_ hm (le_refl m.version)
    exact fun _ => rfl
  | claim =>
    have htransform : Decides ⟨.of m .claim, s.version, m.version⟩
        (Manifest.claimTransform m.owner) := by
      refine ⟨fun r _ h => ?_, fun r _ _ h => ?_, fun r _ h => ?_⟩ <;>
        simp [Author.transform, Author.of, Manifest.claimed, h]
    refine wp_bind (wp_mono (Manifest.wp_casLoop hR htransform.update hm.buckets (m := m)
      Manifest.maxCasRounds rfl hm.cached hm.configured (le_refl m.version)) (fun _ _ => id)
      (fun _ _ => id) ?_)
    rintro ⟨m', outcome⟩ s' hres
    have hreturned := Returned.of_decided htransform (Or.inr ⟨rfl, rfl⟩) hm.buckets hres
    cases outcome with
    | ok candidate =>
      refine Manifest.wp_ret_of_grows hR fun s'' hg => ?_
      obtain ⟨hok, hsucc⟩ := hreturned.mono hg
      exact ⟨⟨hok.cached, hok.configured, hok.buckets⟩, hsucc⟩
    | error e => exact Manifest.wp_ret_of_grows hR fun s'' hg => hreturned.mono hg
  | raiseTrunc writer floor =>
    refine wp_bind (wp_mono (wp_refresh_call (c := ⟨.of m (.raiseTrunc writer floor), s.version,
      m.version⟩) hR hm (le_refl s.version)) (fun _ _ => id) (fun _ _ => id) ?_)
    rintro ⟨m', outcome⟩ s' hres
    cases outcome with
    | ok u =>
      obtain ⟨v, r, hm', hat, hconf, hv⟩ := hres
      obtain rfl : m' = m.installCache v r := hm'
      exact wp_casTransform_call hR (fun _ => rfl) hm.buckets hat hconf hv
    | error e => exact Manifest.wp_ret_of_grows hR fun s'' hg => Returned.mono hres hg
  | removeSegments ids floor =>
    simp only [ManifestCall.prog, Manifest.removeSegments]
    split
    · rename_i hempty
      refine Manifest.wp_ret_of_grows hR fun s' hg => ⟨hm.mono hg, m.version, m.record,
        hm.cached.mono hg, le_refl m.version, Or.inl ?_⟩
      simp [Author.transform, Author.of, hempty]
    · rename_i hempty
      refine wp_casTransform_call (c := ⟨.of m _, s.version, m.version⟩) hR (fun r => ?_) hm.buckets
        hm.cached hm.configured (le_refl m.version)
      simp [Author.transform, Author.of, hempty]
  | refresh =>
    refine wp_mono (wp_refresh_call (c := ⟨.of m .refresh, s.version, m.version⟩) hR hm
      (le_refl s.version)) (fun _ _ => id) (fun _ _ => id) ?_
    rintro ⟨m', outcome⟩ s' hres
    cases outcome with
    | ok u =>
      obtain ⟨v, r, hm', hat, hconf, hv⟩ := hres
      obtain rfl : m' = m.installCache v r := hm'
      exact ⟨⟨hat, hconf, hm.buckets⟩, v, r, hat, hv, Or.inl rfl⟩
    | error e => exact hres
  | validateOwner =>
    refine wp_bind (wp_mono (wp_refresh_call (c := ⟨.of m .validateOwner, s.version, m.version⟩)
      hR hm (le_refl s.version)) (fun _ _ => id) (fun _ _ => id) ?_)
    rintro ⟨m', outcome⟩ s' hres
    cases outcome with
    | ok u =>
      obtain ⟨v, r, hm', hat, hconf, hv⟩ := hres
      obtain rfl : m' = m.installCache v r := hm'
      refine Manifest.wp_ret_of_grows hR fun s'' hg => ?_
      have hok : HandleOk s'' (m.installCache v r) := ⟨hat.mono hg, hconf, hm.buckets⟩
      cases hclaim : Manifest.checkClaim r m.epoch m.owner with
      | ok u =>
        simp only [Manifest.installCache, hclaim]
        refine ⟨hok, v, r, hat.mono hg, hv, Or.inl ?_⟩
        simp [Author.transform, Author.of, Manifest.claimed, hclaim, Except.map]
      | error e =>
        simp only [Manifest.installCache, hclaim]
        refine ⟨fun _ => hok, Or.inr (Or.inr ⟨v, r, hat.mono hg, hv, Or.inl ?_⟩)⟩
        simp [Author.transform, Author.of, Manifest.claimed, hclaim, Except.map]
    | error e => exact Manifest.wp_ret_of_grows hR fun s'' hg => Returned.mono hres hg

theorem wp_openHandle (hR : ∀ s s', R s s' → s.Grows s') {a : Author} (ha : a.call = .openHandle)
    (hb : validateBucketNames m.bucketNames = .ok ()) {v : Nat} :
    wp (storeMachine a) (m.refresh : Prog StoreOp n _) R (Sends a)
      (Returned ⟨a, s.version, v⟩) s := by
  refine wp_mono (Manifest.wp_refresh hR hb (le_refl s.version)) (fun _ _ => id) (fun _ _ => id) ?_
  rintro ⟨m', outcome⟩ s' hres
  cases outcome with
  | ok u =>
    obtain ⟨v, r, hm', hat, hconf, hv⟩ := hres
    obtain rfl : m' = m.installCache v r := hm'
    refine ⟨⟨hat, hconf, hb⟩, v, r, hat, ?_, Or.inl ?_⟩
    · simpa [Running.decidesFrom, ha] using hv
    · simp [Author.transform, ha]
  | error e =>
    obtain ⟨-, herr⟩ := hres
    refine ⟨fun hne => absurd ha hne, ?_⟩
    rcases herr with herr | ⟨v, r, hat, hv, herr⟩
    · exact Or.inl herr
    · refine Or.inr (Or.inr ⟨v, r, hat, ?_, Or.inr (Or.inl ⟨m, herr, fun hne => absurd ha hne⟩)⟩)
      simpa [Running.decidesFrom, ha] using hv

end Calls

end Chorus
