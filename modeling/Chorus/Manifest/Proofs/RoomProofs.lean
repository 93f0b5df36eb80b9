import Chorus.Concurrency.Proofs.Shape
import Chorus.Manifest.Proofs.AuthorProofs
import Chorus.Manifest.Proofs.FoldRetryProofs

/-!
# Room in the directory does not go away

Only folds lengthen the encoded directory, each by no more than what the room check reserves
(`Mutation.encodedLen_le`). Each fold raises the tail base and is committed once. A fold that fails
for want of room has decided on a document at its own tail base and started from one, so no other
fold came in between.
-/

namespace Chorus

open Concurrency ManifestRecord Manifest

/-- What all handles on one register share: the byte budget of its store, and folds of entries as
the writer makes them. -/
def WithinStore (maxDirectoryBytes : Nat) (_ : ManifestSystem) : ManifestSystem.Action → Prop
  | .openHandle _ _ _ budget _ => budget = maxDirectoryBytes
  | .call _ (.foldPending fold) => fold.entry.Minted
  | _ => True

/-- The fold that a write under the claim commits. -/
def Author.foldUnder (claim : WriterClaim) (a : Author) : Option PendingFold :=
  match a.call with
  | .foldPending fold => if a.handle = claim then some fold else none
  | _ => none

/-- The folds that were committed under the claim at the versions above `v` up to `w`, newest
first. -/
def History.foldsCommitted (h : History) (claim : WriterClaim) (v w : Nat) : List PendingFold :=
  ((h.drop (h.length - w)).take (w - v)).filterMap fun e => e.2.bind (Author.foldUnder claim)

variable {M v w : Nat} {h : History} {r r' next : ManifestRecord}
  {a a' : Option Author} {b : Author} {claim : WriterClaim} {fold : PendingFold}

theorem Author.foldUnder_eq_some : b.foldUnder claim = some fold ↔ b.call = .foldPending fold ∧
    b.handle = claim := by
  unfold Author.foldUnder
  split
  · rename_i fold' hcall
    rw [hcall]
    split
    · rename_i hclaim
      simp [hclaim]
    · rename_i hclaim
      simp [hclaim]
  · rename_i hcall
    constructor
    · intro heq
      cases heq
    · rintro ⟨heq, -⟩
      exact absurd heq (hcall fold)

namespace History

theorem foldsCommitted_self : h.foldsCommitted claim v v = [] := by
  simp [foldsCommitted]

theorem foldsCommitted_succ (he : Entry h (w + 1) r a) (hle : v ≤ w) :
    h.foldsCommitted claim v (w + 1) = (a.bind (Author.foldUnder claim)).toList ++
      h.foldsCommitted claim v w := by
  obtain ⟨rest, ⟨newer, rfl⟩, hlen⟩ := he
  have hrest : rest.length = w := by omega
  have hlong : (newer ++ (r, a) :: rest).drop ((newer ++ (r, a) :: rest).length - (w + 1)) =
      (r, a) :: rest := by
    have hcount : (newer ++ (r, a) :: rest).length - (w + 1) = newer.length := by
      simp only [List.length_append, List.length_cons]
      omega
    rw [hcount, List.drop_left]
  have hshort : (newer ++ (r, a) :: rest).drop ((newer ++ (r, a) :: rest).length - w) = rest := by
    have hcount : (newer ++ (r, a) :: rest).length - w = newer.length + 1 := by
      simp only [List.length_append, List.length_cons]
      omega
    rw [hcount, ← List.drop_drop, List.drop_left, List.drop_one, List.tail_cons]
  have hmore : w + 1 - v = (w - v) + 1 := by omega
  rw [foldsCommitted, foldsCommitted, hlong, hshort, hmore, List.take_succ_cons,
    List.filterMap_cons]
  cases hfold : a.bind (Author.foldUnder claim) with
  | none => simp
  | some fold => simp

/-- Where a committed fold stands in the history. -/
theorem exists_of_mem_foldsCommitted (hpos : 0 < v) (hle : v ≤ w) (hw : w ≤ h.length)
    (hmem : fold ∈ h.foldsCommitted claim v w) :
    ∃ u r b, v < u ∧ u ≤ w ∧ Entry h u r (some b) ∧ b.call = .foldPending fold ∧
      b.handle = claim := by
  induction w with
  | zero => omega
  | succ w ih =>
    by_cases hv : v = w + 1
    · rw [hv, foldsCommitted_self] at hmem
      cases hmem
    · obtain ⟨r, a, he⟩ := exists_entry (Nat.succ_pos w) hw
      rw [foldsCommitted_succ he (by omega), List.mem_append, Option.mem_toList] at hmem
      rcases hmem with hmem | hmem
      · obtain ⟨b, rfl, hb⟩ := Option.bind_eq_some_iff.1 hmem
        obtain ⟨hcall, hclaim⟩ := Author.foldUnder_eq_some.1 hb
        exact ⟨w + 1, r, b, by omega, Nat.le_refl _, he, hcall, hclaim⟩
      · obtain ⟨u, r', b, hvu, huw, he', hb⟩ := ih (by omega) (by omega) hmem
        exact ⟨u, r', b, hvu, by omega, he', hb⟩

end History

/-! ## Folds raise the tail base -/

/-- Once a fold is committed, the tail base is past its own. -/
theorem Derived.oldTailBase_lt (hd : Derived h) (he : History.Entry h v r (some b))
    (hb : b.call = .foldPending fold) (he' : History.Entry h w r' a') (hle : v ≤ w) :
    fold.oldTailBase < r'.tailBase := by
  obtain ⟨u, r₀, a₀, -, -, hm⟩ := hd.exists_mutation he
  have hmono := hd.tailBase_le he he' hle
  rcases hm.tailBase_cases (hd.validate_eq he) with ⟨-, hnot⟩ | ⟨fold', hb', -, hlt⟩
  · exact absurd hb (hnot fold)
  · rw [hb, ManifestCall.foldPending.injEq] at hb'
    subst hb'
    omega

theorem Derived.nodup_foldsCommitted (hd : Derived h) (hpos : 0 < v) (hle : v ≤ w)
    (hw : w ≤ h.length) : (h.foldsCommitted claim v w).Nodup := by
  induction w with
  | zero => omega
  | succ w ih =>
    by_cases hv : v = w + 1
    · rw [hv, History.foldsCommitted_self]
      exact List.nodup_nil
    · obtain ⟨r, a, he⟩ := History.exists_entry (Nat.succ_pos w) hw
      rw [History.foldsCommitted_succ he (by omega)]
      cases hfold : a.bind (Author.foldUnder claim) with
      | none => exact ih (by omega) (by omega)
      | some fold =>
        refine List.nodup_cons.2 ⟨fun hmem => ?_, ih (by omega) (by omega)⟩
        obtain ⟨u, r', b', hvu, huw, he', hb', -⟩ :=
          History.exists_of_mem_foldsCommitted hpos (by omega) (by omega) hmem
        obtain ⟨b, rfl, hb⟩ := Option.bind_eq_some_iff.1 hfold
        obtain ⟨u', r₀, a₀, hu', he₀, hm⟩ := hd.exists_mutation he
        obtain rfl : w = u' := by omega
        obtain ⟨-, -, hbase, -⟩ := hm.of_foldPending (Author.foldUnder_eq_some.1 hb).1
        have hlt := hd.oldTailBase_lt he' hb' he₀ huw
        omega

/-- Documents with the same tail base have seen the same folds. -/
theorem Derived.foldsCommitted_eq (hd : Derived h) (he : History.Entry h w r a)
    (he' : History.Entry h (w + k) r' a') (hle : v ≤ w) (hbase : r'.tailBase = r.tailBase) :
    h.foldsCommitted claim v (w + k) = h.foldsCommitted claim v w := by
  induction k generalizing r' a' with
  | zero => rfl
  | succ k ih =>
    have hpos := he.pos
    cases a' with
    | none =>
      have hone := (hd.entry_none he').1
      omega
    | some b =>
      obtain ⟨u, r₀, a₀, hu, he₀, hm⟩ := hd.exists_mutation he'
      obtain rfl : w + k = u := by omega
      have hmono := hd.tailBase_le he he₀ (by omega)
      rcases hm.tailBase_cases (hd.validate_eq he') with ⟨heq, hnot⟩ | ⟨fold, -, hold, hlt⟩
      · have hnone : b.foldUnder claim = none := by
          cases hfold : b.foldUnder claim with
          | none => rfl
          | some fold => exact absurd (Author.foldUnder_eq_some.1 hfold).1 (hnot fold)
        have hsucc : h.foldsCommitted claim v (w + k + 1) = _ :=
          History.foldsCommitted_succ he' (Nat.le_add_right_of_le hle)
        rw [Option.bind_some, hnone] at hsucc
        exact hsucc.trans (ih he₀ (by omega))
      · omega

/-! ## Growth of the encoded directory -/

/-- The author's folds are within the store's budget. -/
def Author.Within (M : Nat) (b : Author) : Prop :=
  ∀ fold, b.call = .foldPending fold → b.maxDirectoryBytes = M ∧ fold.entry.Minted

/-- A write keeps or shortens the encoded directory, unless it is a fold, which finds its room and
stays within it. -/
theorem Mutation.encodedLen_le (hm : Mutation b r next) (hb : b.Within M) :
    encodedLen next.segments ≤ encodedLen r.segments ∨
    ∃ fold, b.call = .foldPending fold ∧ r.OwnedBy b.handle ∧ r.directoryHasRoom 1 M ∧
      encodedLen next.segments ≤ encodedLen r.segments + worstCaseEntryBytes := by
  cases hm with
  | @foldPending fold hc hclaim ho ht hbase hp he hroom =>
    obtain ⟨hbudget, hminted⟩ := hb fold hc
    refine Or.inr ⟨fold, hc, ho, hbudget ▸ hroom, ?_⟩
    have hentry := encodeEntry_lt hminted
    have happend := encodedLen_append_le r.segments fold.entry
    show encodedLen (r.segments ++ [fold.entry]) ≤ _
    omega
  | removeSegments => exact Or.inl (encodedLen_le_of_sublist List.filter_sublist)
  | claim => exact Or.inl (Nat.le_refl _)
  | registerPending => exact Or.inl (Nat.le_refl _)
  | replaceEmptyFrontier => exact Or.inl (Nat.le_refl _)
  | raiseTrunc => exact Or.inl (Nat.le_refl _)

theorem Derived.encodedLen_le (hd : Derived h)
    (hw : ∀ v r b, History.Entry h v r (some b) → b.Within M) (he : History.Entry h v r a) :
    encodedLen r.segments ≤ M := by
  induction v generalizing r a with
  | zero => exact absurd he.pos (Nat.lt_irrefl 0)
  | succ v ih =>
    cases a with
    | none =>
      obtain ⟨-, buckets, rfl, -⟩ := hd.entry_none he
      exact Nat.zero_le M
    | some b =>
      obtain ⟨u, r₀, a₀, hu, he₀, hm⟩ := hd.exists_mutation he
      obtain rfl : v = u := by omega
      rcases hm.encodedLen_le (hw _ _ _ he) with hle | ⟨fold, -, -, hroom, hle⟩
      · exact hle.trans (ih he₀)
      · obtain ⟨-, -, hfits⟩ := directoryHasRoom_iff.1 hroom
        omega

/-- While one claim owns the register, the directory grows by its folds only. -/
theorem Derived.encodedLen_le_folds (hd : Derived h)
    (hw : ∀ v r b, History.Entry h v r (some b) → b.Within M) (he : History.Entry h v r a)
    (ho : r.OwnedBy claim) (he' : History.Entry h w r' a') (ho' : r'.OwnedBy claim) (hle : v ≤ w) :
    encodedLen r'.segments ≤
      encodedLen r.segments + (h.foldsCommitted claim v w).length * worstCaseEntryBytes := by
  induction w generalizing r' a' with
  | zero => exact absurd he'.pos (Nat.lt_irrefl 0)
  | succ w ih =>
    by_cases hv : v = w + 1
    · subst hv
      obtain ⟨rfl, -⟩ := he.unique he'
      exact Nat.le_add_right _ _
    · have hpos := he.pos
      cases a' with
      | none =>
        have hone := (hd.entry_none he').1
        omega
      | some b =>
        obtain ⟨u, r₀, a₀, hu, he₀, hm⟩ := hd.exists_mutation he'
        obtain rfl : w = u := by omega
        -- the document in between has the same epoch, hence the same owner
        have hown₀ : r₀.OwnedBy claim := by
          obtain ⟨hfirst, -, howner⟩ := hd.mono he he₀ (by omega)
          obtain ⟨hsecond, -, -⟩ := hd.mono he₀ he' (by omega)
          have hepoch := ho.1
          have hepoch' := ho'.1
          exact ⟨by omega, (howner (by omega)).symm.trans ho.2⟩
        have hrest := ih he₀ hown₀ (by omega)
        rw [History.foldsCommitted_succ he' (by omega), List.length_append, Nat.add_mul]
        rcases hm.encodedLen_le (hw _ _ _ he') with hkept | ⟨fold, hcall, hown, -, hgrown⟩
        · omega
        · have hclaim : b.handle = claim := by
            obtain ⟨epoch, owner⟩ := claim
            obtain ⟨call, ⟨epoch', owner'⟩, budget⟩ := b
            obtain ⟨h₁, h₂⟩ := hown
            obtain ⟨h₃, h₄⟩ := hown₀
            simp only at h₁ h₂ h₃ h₄
            rw [← h₁, ← h₂, ← h₃, ← h₄]
          have hsome : b.foldUnder claim = some fold := Author.foldUnder_eq_some.2 ⟨hcall, hclaim⟩
          rw [Option.bind_some, hsome, Option.toList_some, List.length_singleton]
          omega

/-! ## Calls -/

section Calls

variable {n : Nat} {m : Manifest}

/-- What a document looks like for which the fold fails for want of room. -/
theorem foldPendingTransform_full
    (hfull : foldPendingTransform claim M fold r = .error .segmentDirectoryFull) :
    r.OwnedBy claim ∧ r.tailBase = fold.oldTailBase ∧ r.directoryHasRoom 1 M = false := by
  simp only [foldPendingTransform, checkClaim, failIf, bind, Except.bind] at hfull
  by_cases hown : r.epoch ≠ claim.epoch ∨ r.owner ≠ claim.owner
  · rw [if_pos hown] at hfull
    cases hfull
  · rw [if_neg hown] at hfull
    by_cases happlied : foldApplied fold r
    · rw [if_pos happlied] at hfull
      split_ifs at hfull
      cases hfull
    · rw [if_neg happlied] at hfull
      by_cases hmoved : r.tailId ≠ some fold.oldTailId ∨ r.tailBase ≠ fold.oldTailBase ∨
          r.pendingId ≠ some fold.consumedPendingId
      · rw [if_pos hmoved] at hfull
        cases hfull
      · rw [if_neg hmoved] at hfull
        by_cases hover : (checkedAdd fold.oldTailEnd 1).isNone = true
        · rw [if_pos hover] at hfull
          cases hfull
        · rw [if_neg hover] at hfull
          by_cases hroom : r.directoryHasRoom 1 M = true
          · rw [if_neg (not_not.2 hroom)] at hfull
            cases hfull
          · push Not at hown hmoved
            exact ⟨hown, hmoved.2.1, Bool.eq_false_iff.2 hroom⟩

theorem refresh_keeps_budget :
    (m.refresh : Prog StoreOp n _).Returns fun result => result.1.maxDirectoryBytes =
      m.maxDirectoryBytes := by
  unfold refresh
  generalize m.maxRetries + 1 = attempts
  induction attempts with
  | zero => exact rfl
  | succ attempts ih =>
    rintro (error | (_ | ⟨version, record⟩))
    · cases error with
      | unavailable => exact ih
      | _ => exact rfl
    · rintro (error | version)
      · cases error with
        | backend => exact rfl
        | _ => exact ih
      · exact rfl
    · simp only
      split
      · exact rfl
      · exact rfl

/-- A loop of compare-and-swap rounds ends with what its last decision leaves behind; `I` is what a
refresh keeps of the cache. -/
theorem casLoop_returns {α : Type} {exhausted : ProtocolError}
    {transform : ManifestRecord → Except ProtocolError (CasTransform α)} {I : Manifest → Prop}
    {P : Manifest × Except ProtocolError α → Prop}
    (hrefresh : ∀ m, I m → (m.refresh : Prog StoreOp n _).Returns fun result => I result.1)
    (herror : ∀ m error, I m → P (m, .error error))
    (hdone : ∀ m value, I m → transform m.record = .ok (.done value) → P (m, .ok value))
    (hupdate : ∀ m version next value, I m → transform m.record = .ok (.update next value) →
      P (m.installCache version next, .ok value)) (rounds : Nat) (hm : I m) :
    (casLoop exhausted transform rounds m : Prog StoreOp n _).Returns P := by
  induction rounds generalizing m with
  | zero => exact herror m _ hm
  | succ rounds ih =>
    unfold casLoop
    split
    · exact herror m _ hm
    · rename_i value hdecided
      exact hdone m value hm hdecided
    · rename_i next value hdecided
      split
      · exact herror m _ hm
      · have hretry : ∀ k : Manifest × Except ProtocolError Unit →
            Prog StoreOp n (Manifest × Except ProtocolError α),
            (∀ m' error, k (m', .error error) = .ret (m', .error error)) →
            (∀ m', k (m', .ok ()) = casLoop exhausted transform rounds m') →
            ((m.refresh : Prog StoreOp n _).bind k).Returns P := by
          intro k hfailed hok
          refine (hrefresh m hm).bind ?_
          rintro ⟨m', outcome⟩ hm'
          cases outcome with
          | error error =>
            rw [hfailed]
            exact herror m' error hm'
          | ok u =>
            rw [hok]
            exact ih hm'
        rintro (error | version)
        · cases error with
          | conflict => exact hretry _ (fun _ _ => rfl) fun _ => rfl
          | unavailable => exact hretry _ (fun _ _ => rfl) fun _ => rfl
          | _ => exact herror m _ hm
        · exact hupdate m version next value hm hdecided

theorem casLoop_keeps_budget {α : Type} {exhausted : ProtocolError}
    {transform : ManifestRecord → Except ProtocolError (CasTransform α)} (rounds : Nat) :
    (casLoop exhausted transform rounds m : Prog StoreOp n _).Returns fun result =>
      result.1.maxDirectoryBytes = m.maxDirectoryBytes :=
  casLoop_returns (I := fun m' => m'.maxDirectoryBytes = m.maxDirectoryBytes)
    (fun _ hm => refresh_keeps_budget.mono fun _ hresult => hresult.trans hm) (fun _ _ hm => hm)
    (fun _ _ hm _ => hm) (fun _ _ _ _ hm _ => hm) rounds rfl

theorem claimedTransform_keeps_budget
    {transform : WriterClaim → ManifestRecord → Except ProtocolError (CasTransform Unit)} :
    (m.claimedTransform transform : Prog StoreOp n _).Returns fun result =>
      result.1.maxDirectoryBytes = m.maxDirectoryBytes := by
  unfold claimedTransform
  split
  · exact rfl
  · exact casLoop_keeps_budget _

theorem prog_keeps_budget (call : ManifestCall) :
    (call.prog m).Returns fun result => result.1.maxDirectoryBytes = m.maxDirectoryBytes := by
  cases call with
  | openHandle => exact refresh_keeps_budget
  | refresh => exact refresh_keeps_budget
  | registerPending pendingId =>
    show (m.registerPending pendingId).Returns _
    exact claimedTransform_keeps_budget
  | replaceEmptyFrontier expectedTailId expectedPendingId tailBase activeId pendingId =>
    show (m.replaceEmptyFrontier expectedTailId expectedPendingId tailBase activeId
      pendingId).Returns _
    exact claimedTransform_keeps_budget
  | foldPending fold =>
    show (m.foldPending fold).Returns _
    exact claimedTransform_keeps_budget
  | claim =>
    refine Prog.Returns.bind (casLoop_keeps_budget _) ?_
    rintro ⟨m', outcome⟩ hm'
    cases outcome <;> exact hm'
  | raiseTrunc writer floor =>
    refine refresh_keeps_budget.bind ?_
    rintro ⟨m', outcome⟩ hm'
    cases outcome with
    | error error => exact hm'
    | ok u => exact (casLoop_keeps_budget _).mono fun result hresult => hresult.trans hm'
  | removeSegments ids floor =>
    show (m.removeSegments ids floor).Returns _
    unfold Manifest.removeSegments
    split
    · exact rfl
    · exact casLoop_keeps_budget _
  | validateOwner =>
    refine refresh_keeps_budget.bind ?_
    rintro ⟨m', outcome⟩ hm'
    cases outcome <;> exact hm'

/-- A fold that fails for want of room was at its own tail base from the start. -/
theorem foldPending_returns_full : (m.foldPending fold : Prog StoreOp n _).Returns fun result =>
    result.2 = .error .segmentDirectoryFull → m.record.tailBase = fold.oldTailBase := by
  unfold foldPending claimedTransform
  split
  · intro heq
    cases heq
  · rename_i hclaim
    show (casLoop _ _ (15 + 1) m).Returns _
    unfold casLoop
    split
    · rename_i error hdecided
      intro heq
      cases heq
      exact (foldPendingTransform_full hdecided).2.1
    · intro heq
      cases heq
    · rename_i next value hdecided
      have htransform : (Author.of m (.foldPending fold)).transform m.record =
          .ok (.update next ()) := by
        simp only [Author.transform, Author.of, claimed_eq_ok]
        exact ⟨hclaim, hdecided⟩
      have hbase := ((transform_update htransform).of_foldPending rfl).2.2.1
      exact (Prog.returns_true _).mono fun _ _ _ => hbase

end Calls

/-! ## All handles -/

/-- What a call returns: a handle with the store's budget, and no want of room unless the fold
started from a document at its own tail base. -/
def Ends (M : Nat) (t : Store Author) (c : Running)
    (result : Manifest × Except ProtocolError Unit) : Prop :=
  result.1.maxDirectoryBytes = M ∧ ∀ fold, c.author.call = .foldPending fold →
    result.2 = .error .segmentDirectoryFull → ∃ r, t.At c.cachedAt r ∧ r.tailBase = fold.oldTailBase

theorem Ends.mono {t t' : Store Author} {c : Running}
    {result : Manifest × Except ProtocolError Unit} (h : Ends M t c result) (hg : t.Grows t') :
    Ends M t' c result := by
  refine ⟨h.1, fun fold hcall hfull => ?_⟩
  obtain ⟨r, hat, hbase⟩ := h.2 fold hcall hfull
  exact ⟨r, hat.mono hg, hbase⟩

theorem prog_ends {t : Store Author} {m : Manifest} (hm : HandleOk t m)
    (hbudget : m.maxDirectoryBytes = M) (call : ManifestCall) (startedAt : Nat) :
    (call.prog m).Returns (Ends M t ⟨.of m call, startedAt, m.version⟩) := by
  have hkeeps := (prog_keeps_budget (m := m) call).mono fun result hresult => hresult.trans hbudget
  cases call with
  | foldPending fold =>
    refine (hkeeps.and foldPending_returns_full).mono fun result hresult =>
      ⟨hresult.1, fun fold' hcall hfull => ?_⟩
    cases hcall
    exact ⟨m.record, hm.cached, hresult.2 hfull⟩
  | _ =>
    refine hkeeps.mono fun result hresult => ⟨hresult, fun fold' hcall => ?_⟩
    cases hcall

/-- Every handle has the store's budget, and every fold that failed for want of room started at its
own tail base. -/
structure RoomInv (M : Nat) (s : ManifestSystem) : Prop where
  idle : ∀ (i : Nat) (m : Manifest), s.handles[i]? = some (.idle m) → m.maxDirectoryBytes = M
  busy : ∀ (i : Nat) (c : Running) (p : Prog StoreOp 0 (Manifest × Except ProtocolError Unit)),
    s.handles[i]? = some (.busy c p) → p.Returns (Ends M s.store c)
  done : ∀ c ∈ s.completions, c.author.Within M ∧ ∀ fold, c.author.call = .foldPending fold →
    c.outcome = .error .segmentDirectoryFull → ∃ r, s.store.At c.cachedAt r ∧
      r.tailBase = fold.oldTailBase
  authors : AuthorsOk (Author.Within M) s

namespace RoomInv

variable {s s' : ManifestSystem}

theorem init : RoomInv M ManifestSystem.init where
  idle := by simp [ManifestSystem.init]
  busy := by simp [ManifestSystem.init]
  done := by simp [ManifestSystem.init]
  authors := AuthorsOk.init

theorem step (h : RoomInv M s) (hinv : SystemInv s) {act : ManifestSystem.Action}
    (hok : WithinStore M s act) (hs : s.step act = some s') : RoomInv M s' := by
  have hgrows := (hinv.step_store hs).2
  refine ⟨fun j m hj => ?_, fun j c p hj => ?_, fun c hc => ?_, ?_⟩
  · cases ManifestSystem.nextHandle hs hj with
    | kept hi => exact h.idle _ m hi
    | cloned hi => exact h.idle _ m hi
    | adopted hi hj' =>
      have hbudget := h.idle _ _ hi
      unfold installUpdate
      split
      · exact hbudget
      · exact hbudget
    | finished hi hopen => exact (h.busy _ _ _ hi).1
  · cases ManifestSystem.nextHandle hs hj with
    | kept hi => exact (h.busy _ c p hi).mono fun result hends => hends.mono hgrows
    | opened hact hopen =>
      subst hact
      unfold openHandle at hopen
      split at hopen
      · cases hopen
      · split_ifs at hopen
        split at hopen
        · cases hopen
        · cases hopen
          refine refresh_keeps_budget.mono fun result hresult =>
            ⟨hresult.trans hok, fun fold hcall => ?_⟩
          cases hcall
    | called hact hi hcall =>
      exact (prog_ends (hinv.idle _ _ hi) (h.idle _ _ hi) _ _).mono fun result hends =>
        hends.mono hgrows
    | stepped hi hstep =>
      exact ((h.busy _ c _ hi).step hstep).mono fun result hends => hends.mono hgrows
  · have hkept : ∀ c ∈ s.completions, c.author.Within M ∧
        ∀ fold, c.author.call = .foldPending fold → c.outcome = .error .segmentDirectoryFull →
          ∃ r, s'.store.At c.cachedAt r ∧ r.tailBase = fold.oldTailBase := by
      intro c hc
      refine ⟨(h.done c hc).1, fun fold hcall hfull => ?_⟩
      obtain ⟨r, hat, hbase⟩ := (h.done c hc).2 fold hcall hfull
      exact ⟨r, hat.mono hgrows, hbase⟩
    rcases ManifestSystem.completions_cases hs with heq | ⟨i, c', m, outcome, -, hi, hsame, heq⟩
    · exact hkept c (heq ▸ hc)
    · rw [heq] at hc
      rcases List.mem_cons.1 hc with rfl | hc
      · exact ⟨h.authors.busy i c' _ hi, (Ends.mono (h.busy i c' _ hi) hgrows).2⟩
      · exact hkept c hc
  · refine h.authors.step hinv (fun a ha fold hcall => ?_)
      (fun i call m hact hi fold hcall => ?_) hs
    · rw [ha] at hcall
      cases hcall
    · subst hact
      obtain rfl : call = .foldPending fold := hcall
      exact ⟨h.idle i m hi, hok⟩

theorem of_reaches (hs : Reaches ManifestSystem.step (WithinStore M) ManifestSystem.init s) :
    RoomInv M s := by
  refine (hs.invariant (I := fun s => SystemInv s ∧ RoomInv M s) ⟨.init, init⟩ ?_).2
  intro s s' act hinv hok hstep
  exact ⟨hinv.1.step hstep, hinv.2.step hinv.1 hok hstep⟩

end RoomInv

/-- A fold call that failed for want of room has decided, at some version since the one it had
cached, on a document of its claim at its own tail base that is full. -/
theorem Failed.of_full {c : Running} {t : Store Author} (hcall : c.author.call = .foldPending fold)
    (hfailed : Failed c .segmentDirectoryFull t) :
    ∃ v r, t.At v r ∧ c.cachedAt ≤ v ∧ r.OwnedBy c.author.handle ∧ r.tailBase = fold.oldTailBase ∧
      r.directoryHasRoom 1 c.author.maxDirectoryBytes = false := by
  have hfrom : c.decidesFrom = c.cachedAt := by simp [Running.decidesFrom, hcall]
  rcases hfailed with hstore | ⟨-, heq⟩ | ⟨v, r, hat, hle, hdec⟩
  · rcases hstore with heq | heq <;> cases heq
  · cases heq
  · rcases hdec with ht | ⟨m, hm, -⟩ | ⟨next, fault, -, -, heq⟩
    · simp only [Author.transform, hcall, Author.claimed] at ht
      split_ifs at ht
      · cases ht
      · exact ⟨v, r, hat, hfrom ▸ hle, foldPendingTransform_full ht⟩
    · simp only [accepted, validateConfiguration] at hm
      split at hm
      · cases hm
      · split_ifs at hm
        cases hm
    · cases heq

/-- A positive answer of the room check stays true for its owner. Take any run in which all handles
share the byte budget `M` of the store and folds name minted segments. In every document of the
register the encoded directory takes at most `M` bytes. And if a handle's cached document, owned by
its claim, has room for `k` more entries, then in every continuation no fold of that claim fails for
want of room as long as, of the folds of the claim that were committed since the cached version and
before the fold was submitted, fewer than `k` are distinct or the fold itself is one. -/
theorem directory_room_kept {s₀ : ManifestSystem}
    (h₀ : Reaches ManifestSystem.step (WithinStore M) ManifestSystem.init s₀) :
    (∀ v r, s₀.store.At v r → (encodeSegments r.segments).utf8ByteSize ≤ M) ∧
    ∀ (i : Nat) (m : Manifest) (k : Nat), s₀.handles[i]? = some (.idle m) →
      m.record.OwnedBy m.claimed →
      m.directoryHasRoom k = true → ∀ s, Reaches ManifestSystem.step (WithinStore M) s₀ s →
      ∀ c ∈ s.completions, ∀ fold, c.author.call = .foldPending fold → c.author.handle = m.claimed →
        m.version ≤ c.cachedAt →
        ((History.foldsCommitted s.store.history m.claimed m.version c.cachedAt).dedup.length < k ∨
          fold ∈ History.foldsCommitted s.store.history m.claimed m.version c.cachedAt) →
        c.outcome ≠ .error .segmentDirectoryFull := by
  refine ⟨fun v r hat => ?_,
    fun i m k hi hown hroom s hs c hc fold hcall hclaim hcached hcount hfull => ?_⟩
  · obtain ⟨a, he⟩ := hat
    exact (SystemInv.of_reaches h₀).store.derived.encodedLen_le
      (RoomInv.of_reaches h₀).authors.written he
  · have hinv := SystemInv.of_reaches (h₀.trans hs)
    have hroomInv := RoomInv.of_reaches (h₀.trans hs)
    have hd := hinv.store.derived
    have hgrows : s₀.store.Grows s.store := by
      refine (hs.invariant (I := fun s => SystemInv s ∧ s₀.store.Grows s.store)
        ⟨SystemInv.of_reaches h₀, .refl _⟩ ?_).2
      intro s s' act hkept _ hstep
      exact ⟨hkept.1.step hstep, hkept.2.trans (hkept.1.step_store hstep).2⟩
    obtain ⟨a, hentry⟩ := (((SystemInv.of_reaches h₀).idle i m hi).cached).mono hgrows
    obtain ⟨-, t, htgrows, -, -, hres⟩ := hinv.done c hc
    rw [hfull] at hres
    obtain ⟨v, r, hat, hle, hown', hbase, hfullDir⟩ := hres.of_full hcall
    obtain ⟨a', hentry'⟩ := hat.mono htgrows
    obtain ⟨hwithin, hbegan⟩ := hroomInv.done c hc
    obtain ⟨rc, ⟨ac, hstart⟩, hstartBase⟩ := hbegan fold hcall hfull
    -- a committed fold would have moved the tail base past the one it started from
    replace hcount := hcount.resolve_right fun hdone => by
      obtain ⟨u, r', b, -, hu, he', hb, -⟩ :=
        History.exists_of_mem_foldsCommitted hentry.pos hcached hstart.le_length hdone
      have hlt := hd.oldTailBase_lt he' hb hstart hu
      omega
    -- the fold was decided at the tail base it started from, so no fold was committed in between
    have hsame : History.foldsCommitted s.store.history m.claimed m.version v =
        History.foldsCommitted s.store.history m.claimed m.version c.cachedAt := by
      obtain ⟨more, rfl⟩ := Nat.exists_eq_add_of_le hle
      exact hd.foldsCommitted_eq hstart hentry' hcached (hbase.trans hstartBase.symm)
    have hnodup : (History.foldsCommitted s.store.history m.claimed m.version c.cachedAt).Nodup :=
      hd.nodup_foldsCommitted hentry.pos hcached hstart.le_length
    have hlen := hd.encodedLen_le_folds hroomInv.authors.written hentry hown hentry'
        (hclaim ▸ hown') (hcached.trans hle)
    rw [hnodup.dedup] at hcount
    rw [hsame] at hlen
    obtain ⟨-, hfit, hbudget⟩ := directoryHasRoom_iff.1 hroom
    have hspare :
        (History.foldsCommitted s.store.history m.claimed m.version c.cachedAt).length *
          worstCaseEntryBytes + 1 * worstCaseEntryBytes ≤ k * worstCaseEntryBytes := by
      rw [← Nat.add_mul]
      exact Nat.mul_le_mul_right _ hcount
    have hone : r.directoryHasRoom 1 c.author.maxDirectoryBytes = true := by
      rw [(hwithin fold hcall).1, ← (RoomInv.of_reaches h₀).idle i m hi, directoryHasRoom_iff]
      exact ⟨by decide, by omega, by omega⟩
    rw [hone] at hfullDir
    cases hfullDir

/-- The first two folds of a writer, of one record each. -/
def earlierFold : PendingFold :=
  ⟨segmentId 1 0, 0, 0, "digest", 7, segmentId 1 1, segmentId 1 1, segmentId 1 2⟩

def laterFold : PendingFold :=
  ⟨segmentId 1 1, 1, 1, "digest", 8, segmentId 1 2, segmentId 1 2, segmentId 1 3⟩

/-- The writer has folded one segment, in a store whose directory has room for one more. -/
def roomyRun : List ManifestSystem.Action :=
  registeredRun ["bucket"] 128 0 ++ answeredRun 0 1 (.call 0 (.foldPending earlierFold))

/-- While it folds the next one, another process truncates and removes the first. -/
def contendedRun : List ManifestSystem.Action :=
  answeredRun 1 1 (.openHandle "cleaner" 1 ["bucket"] 128 0) ++
    [.call 0 (.foldPending laterFold)] ++
  answeredRun 1 2 (.call 1 (.raiseTrunc ⟨1, "writer"⟩ 1)) ++
  answeredRun 1 1 (.call 1 (.removeSegments [segmentId 1 0] 1)) ++
  List.replicate 3 (.step 0 (.op .answered)) ++ [.finish 0]

/-- An executable form of the condition for runs with these two folds. -/
def withinCheck (_ : ManifestSystem) : ManifestSystem.Action → Bool
  | .openHandle _ _ _ budget _ => budget = 128
  | .call _ (.foldPending fold) => fold = earlierFold || fold = laterFold
  | _ => true

theorem withinStore_of_check {s : ManifestSystem} {act : ManifestSystem.Action}
    (hcheck : withinCheck s act = true) : WithinStore 128 s act := by
  unfold withinCheck at hcheck
  split at hcheck
  · simp only [decide_eq_true_eq] at hcheck
    exact hcheck
  · simp only [Bool.or_eq_true, decide_eq_true_eq] at hcheck
    rcases hcheck with rfl | rfl
    · exact ⟨⟨1, 0, by decide, by decide, rfl⟩, by decide, by decide⟩
    · exact ⟨⟨1, 1, by decide, by decide, rfl⟩, by decide, by decide⟩
  · rename_i hopen hfold
    unfold WithinStore
    split
    · exact absurd rfl (hopen _ _ _ _ _)
    · exact absurd rfl (hfold _ _)
    · trivial

/-- The writer of the state owns the register and sees room, and a run from there completes its
later fold. -/
def contendedCheck (s₀ : ManifestSystem) : HandleState → Bool
  | .idle m => decide (m.record.epoch = m.epoch ∧ m.record.owner = m.owner) &&
      m.directoryHasRoom 1 &&
      (runChecked ManifestSystem.step withinCheck s₀ contendedRun).any fun s =>
        s.completions.any fun c =>
          decide (c.author.call = .foldPending laterFold ∧ c.author.handle = m.claimed ∧
          m.version ≤ c.cachedAt) &&
          decide ((History.foldsCommitted s.store.history m.claimed m.version
            c.cachedAt).dedup.length < 1)
  | .busy .. => false
  | .closed => false

theorem directory_room_kept_contended : ∃ s₀ s m, ∃ c ∈ s.completions,
    Reaches ManifestSystem.step (WithinStore 128) ManifestSystem.init s₀ ∧
    s₀.handles[0]? = some (.idle m) ∧ m.record.OwnedBy m.claimed ∧ m.directoryHasRoom 1 = true ∧
    Reaches ManifestSystem.step (WithinStore 128) s₀ s ∧ c.author.call = .foldPending laterFold ∧
    c.outcome ≠ .error .segmentDirectoryFull := by
  have hrun :
      (runChecked ManifestSystem.step withinCheck ManifestSystem.init roomyRun).any (fun s₀ =>
      s₀.handles[0]?.any (contendedCheck s₀)) = true := by
    decide +kernel
  obtain ⟨s₀, h₀, hfacts⟩ := exists_reaches (fun _ _ => withinStore_of_check) hrun
  obtain ⟨state, hi, hfacts⟩ := (Option.any_eq_true _ _).1 hfacts
  cases state with
  | idle m =>
    simp only [contendedCheck, Bool.and_eq_true, decide_eq_true_eq] at hfacts
    obtain ⟨⟨hown, hroom⟩, hlater⟩ := hfacts
    obtain ⟨s, hreach, hdone⟩ := exists_reaches (fun _ _ => withinStore_of_check) hlater
    simp only [List.any_eq_true, Bool.and_eq_true, decide_eq_true_eq] at hdone
    obtain ⟨c, hc, ⟨hcall, hclaim, hcached⟩, hcount⟩ := hdone
    exact ⟨s₀, s, m, c, hc, h₀, hi, hown, hroom, hreach, hcall,
      (directory_room_kept h₀).2 0 m 1 hi hown hroom s hreach c hc laterFold hcall hclaim hcached
        (.inl hcount)⟩
  | busy => cases hfacts
  | closed => cases hfacts

end Chorus
