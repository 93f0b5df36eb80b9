import Chorus.Manifest.Proofs.RoomProofs

/-!
# The frontier between two folds

While one claim is current and its holder changes the frontier by folds only, the register goes from
fold to fold. In an `Era` the holder expects one frontier: every document shows it or, once the fold
of it was requested and committed, the outcome of that fold. Requests of earlier eras were committed
before, so they change nothing any more, however late they arrive.
-/

namespace Chorus

open Concurrency ManifestRecord Manifest

/-- Where the register's holder writes: the tail, its base and the pending slot. -/
structure Frontier where
  tailId : Option SegmentId
  tailBase : Nat
  pendingId : Option SegmentId
  deriving DecidableEq, Repr

def ManifestRecord.frontier (r : ManifestRecord) : Frontier := ⟨r.tailId, r.tailBase, r.pendingId⟩

def PendingFold.before (fold : PendingFold) : Frontier :=
  ⟨some fold.oldTailId, fold.oldTailBase, some fold.consumedPendingId⟩

def PendingFold.after (fold : PendingFold) : Frontier :=
  ⟨some fold.successorTailId, fold.oldTailEnd + 1, some fold.refillPendingId⟩

/-- The document shows the outcome of the fold. Its entry ends the directory unless truncation has
covered it. -/
def FoldShown (fold : PendingFold) (r : ManifestRecord) : Prop :=
  foldApplied fold r ∧ (r.segments.getLast? = some fold.entry ∨ fold.oldTailEnd < r.trunc)

/-- The fold was committed at version `w` or before. -/
def History.Committed (h : History) (fold : PendingFold) (w : Nat) : Prop :=
  ∃ v r b, v ≤ w ∧ History.Entry h v r (some b) ∧ b.call = .foldPending fold

variable {h : History} {claim : WriterClaim} {fold : PendingFold}
  {r next : ManifestRecord} {b : Author} {v w since : Nat} {a : Option Author} {f : Frontier}
  {fold? : Option PendingFold}

theorem History.Committed.mono (hc : h.Committed fold v) {h' : History} (hs : h <:+ h')
    (hle : v ≤ w) : h'.Committed fold w := by
  obtain ⟨u, r, b, hu, ⟨rest, hrest, hlen⟩, hb⟩ := hc
  exact ⟨u, r, b, hu.trans hle, ⟨rest, hrest.trans hs, hlen⟩, hb⟩

/-! ## What a fold call decides -/

/-- On the frontier that it starts from and on its own outcome a fold is not fenced. -/
theorem foldPendingTransform_ne_fenced {M : Nat} (hown : r.OwnedBy claim)
    (hshown : r.frontier = fold.before ∨ foldApplied fold r) (reason : FenceReason) :
    foldPendingTransform claim M fold r ≠ .error (.fenced reason) := by
  have hcheck : checkClaim r claim.epoch claim.owner = .ok () := checkClaim_eq_ok.2 hown
  simp only [foldPendingTransform, hcheck, bind, Except.bind]
  by_cases happlied : foldApplied fold r
  · rw [if_pos happlied]
    unfold failIf
    split_ifs
    · simp
    · simp
  · rw [if_neg happlied]
    have hbefore := hshown.resolve_right happlied
    have htail : r.tailId = some fold.oldTailId := congrArg Frontier.tailId hbefore
    have hbase : r.tailBase = fold.oldTailBase := congrArg Frontier.tailBase hbefore
    have hpending : r.pendingId = some fold.consumedPendingId := congrArg Frontier.pendingId hbefore
    have hmoved : ¬ (r.tailId ≠ some fold.oldTailId ∨ r.tailBase ≠ fold.oldTailBase ∨
        r.pendingId ≠ some fold.consumedPendingId) := by
      simp [htail, hbase, hpending]
    unfold failIf
    rw [if_neg hmoved]
    simp only
    split_ifs
    all_goals simp

/-- What every decision of a transform leaves behind is in the cache of a loop that succeeds. -/
theorem casLoop_returns_cached {n : Nat} {α : Type} {exhausted : ProtocolError}
    {transform : ManifestRecord → Except ProtocolError (CasTransform α)} {P : ManifestRecord → Prop}
    (hdone : ∀ r value, transform r = .ok (.done value) → P r)
    (hupdate : ∀ r next value, transform r = .ok (.update next value) → P next) (rounds : Nat)
    (m : Manifest) : (casLoop exhausted transform rounds m : Prog StoreOp n _).Returns fun result =>
      ∀ value, result.2 = .ok value → P result.1.record :=
  casLoop_returns (I := fun _ => True) (fun _ _ => Prog.returns_true _)
    (fun _ _ _ _ hok => by cases hok) (fun _ value _ hdecided _ _ => hdone _ value hdecided)
    (fun _ _ next value _ hdecided _ _ => hupdate _ next value hdecided) rounds trivial

/-- The document shows the outcome of the fold, with the folded segment at the end of the
directory. -/
def FoldCached (fold : PendingFold) (r : ManifestRecord) : Prop :=
  foldApplied fold r ∧ ∃ last, r.segments.getLast? = some last ∧ last.base = fold.oldTailBase

/-- A call that succeeds leaves the outcome of its fold in the cache. -/
theorem foldPending_returns_cached {n : Nat} {m : Manifest} :
    (m.foldPending fold : Prog StoreOp n _).Returns
    fun result => ∀ value, result.2 = .ok value → FoldCached fold result.1.record := by
  unfold foldPending claimedTransform
  split
  · exact fun _ => nofun
  · refine casLoop_returns_cached ?_ ?_ _ m
    · intro r value hdecided
      simp only [foldPendingTransform, bind_eq_ok] at hdecided
      obtain ⟨-, -, hdecided⟩ := hdecided
      split at hdecided
      · rename_i happlied
        simp only [bind_eq_ok, failIf_eq_ok, exists_const, not_not] at hdecided
        obtain ⟨entry, hentry, -⟩ := Option.map_eq_some_iff.1 hdecided.1
        rw [Option.filter_eq_some_iff] at hentry
        obtain ⟨hlast, hsame⟩ := hentry
        exact ⟨happlied, entry, hlast, (of_decide_eq_true hsame).2⟩
      · simp only [bind_eq_ok, failIf_eq_ok, exists_const] at hdecided
        obtain ⟨-, -, -, hcontra⟩ := hdecided
        cases hcontra
    · intro r next value hdecided
      simp only [foldPendingTransform, bind_eq_ok] at hdecided
      obtain ⟨-, -, hdecided⟩ := hdecided
      split at hdecided
      · simp only [bind_eq_ok, failIf_eq_ok, exists_const] at hdecided
        obtain ⟨-, hcontra⟩ := hdecided
        cases hcontra
      · simp only [bind_eq_ok, failIf_eq_ok, exists_const, isNone_checkedAdd, not_not] at hdecided
        obtain ⟨-, hover, -, heq⟩ := hdecided
        cases heq
        refine ⟨⟨rfl, ?_, rfl, rfl, rfl, rfl⟩, fold.entry, ?_, rfl⟩
        · simp only [foldRecord, saturatingAdd]
          omega
        · show (r.segments ++ [fold.entry]).getLast? = some fold.entry
          simp

/-! ## Eras -/

/-- From version `since` on the claim is current, and every document shows the expected frontier `f`
or the outcome of the fold that was requested for it. -/
structure Era (h : History) (claim : WriterClaim) (f : Frontier) (fold? : Option PendingFold)
    (since : Nat) : Prop where
  derived : Derived h
  pos : 0 < since
  reached : since ≤ h.length
  owned : ∀ v r a, since ≤ v → History.Entry h v r a → r.OwnedBy claim
  first : ∀ r a, History.Entry h since r a → r.frontier = f
  shown : ∀ v r a, since ≤ v → History.Entry h v r a →
    r.frontier = f ∨ ∃ fold, fold? = some fold ∧ FoldShown fold r ∧ h.Committed fold v
  names : ∀ fold, fold? = some fold → fold.before = f

/-- What the author may still do to the frontier of the era: with the era's claim only its own fold,
or one that was committed before. -/
def Author.Harmless (h : History) (claim : WriterClaim) (fold? : Option PendingFold) (since : Nat)
    (b : Author) : Prop :=
  b.handle.owner = claim.owner → b.call.isHousekeeping = true ∨
    ∃ fold, b.call = .foldPending fold ∧ (fold? = some fold ∨ h.Committed fold since)

theorem Author.Harmless.mono (hb : b.Harmless h claim fold? since) {h' : History} (hs : h <:+ h') :
    b.Harmless h' claim fold? since := by
  intro howner
  rcases hb howner with hcall | ⟨fold, hcall, hfold | hcommitted⟩
  · exact .inl hcall
  · exact .inr ⟨fold, hcall, .inl hfold⟩
  · exact .inr ⟨fold, hcall, .inr (hcommitted.mono hs (Nat.le_refl _))⟩

/-- The outcome of a fold survives truncation and removal. -/
theorem FoldShown.of_maintenance (hshown : FoldShown fold r) (hm : Mutation b r next)
    (hcall : b.call.IsMaintenance) (hover : fold.oldTailEnd + 1 < u64Limit) :
    FoldShown fold next := by
  obtain ⟨-, -, htail, hbase, hpending, hsealId, hsealBase, hsealDigest, -⟩ :=
    hm.of_maintenance hcall
  obtain ⟨⟨h₁, h₂, h₃, h₄, h₅, h₆⟩, hlast⟩ := hshown
  refine ⟨⟨htail.trans h₁, hbase.trans h₂, hpending.trans h₃, hsealId.trans h₄, hsealBase.trans h₅,
    hsealDigest.trans h₆⟩, ?_⟩
  rcases hlast with hlast | hcovered
  · cases hm with
    | raiseTrunc => exact .inl hlast
    | @removeSegments ids floor _ hv =>
      -- the entry goes only once truncation has covered it
      by_cases hlive : r.trunc ≤ fold.oldTailEnd
      · left
        have hrange : (fold.entry, r.tailBase - 1) ∈ r.ranges := last_mem_rangesFrom hlast
        have hend : r.tailBase - 1 = fold.oldTailEnd := by
          rw [h₂, saturatingAdd]
          omega
        have hkept := mem_filter_of_live hv hrange (by rw [hend]; exact hlive)
        have hid : fold.entry.id ∉ ids := by simpa using (List.mem_filter.1 hkept).2
        obtain ⟨init, hinit⟩ := List.getLast?_eq_some_iff.1 hlast
        show (r.segments.filter fun entry => entry.id ∉ ids).getLast? = some fold.entry
        rw [hinit, List.filter_append]
        simp [hid]
      · right
        show fold.oldTailEnd < r.trunc
        omega
    | claim hc => simp [ManifestCall.IsMaintenance, hc] at hcall
    | registerPending hc => simp [ManifestCall.IsMaintenance, hc] at hcall
    | replaceEmptyFrontier hc => simp [ManifestCall.IsMaintenance, hc] at hcall
    | foldPending hc => simp [ManifestCall.IsMaintenance, hc] at hcall
  · exact .inr (hcovered.trans_le hm.mono.2)

theorem FoldShown.of_foldRecord (hover : fold.oldTailEnd + 1 < u64Limit) :
    FoldShown fold (foldRecord fold r) := by
  refine ⟨⟨rfl, ?_, rfl, rfl, rfl, rfl⟩, .inl ?_⟩
  · simp only [foldRecord, saturatingAdd]
    omega
  · show (r.segments ++ [fold.entry]).getLast? = some fold.entry
    simp

theorem FoldShown.frontier (hshown : FoldShown fold r) (hover : fold.oldTailEnd + 1 < u64Limit) :
    r.frontier = fold.after := by
  obtain ⟨⟨htail, hbase, hpending, -⟩, -⟩ := hshown
  have hend : saturatingAdd fold.oldTailEnd 1 = fold.oldTailEnd + 1 := by
    rw [saturatingAdd]
    omega
  rw [ManifestRecord.frontier, htail, hbase, hpending, hend]
  rfl

theorem History.Committed.end_lt (hd : Derived h) (hc : h.Committed fold w) :
    fold.oldTailEnd + 1 < u64Limit := by
  obtain ⟨v, r, b, -, he, hb⟩ := hc
  obtain ⟨u, r₀, a₀, -, -, hm⟩ := hd.exists_mutation he
  exact (hm.of_foldPending hb).2.2.2.2.1

/-- Once a fold is committed, no document is at its base any more. -/
theorem History.Committed.base_lt (hd : Derived h) (hc : h.Committed fold v)
    (he : History.Entry h w r a) (hle : v ≤ w) : fold.oldTailBase < r.tailBase := by
  obtain ⟨u, r', b, hu, he', hb⟩ := hc
  exact hd.oldTailBase_lt he' hb he (hu.trans hle)

namespace Era

/-- A write by a harmless author keeps the era. -/
theorem write (he : Era h claim f fold? since) (hcur : History.Entry h h.length r a)
    (htransform : b.transform r = .ok (.update next ())) (hvalid : next.validate = .ok ())
    (hown : next.OwnedBy claim) (hb : b.Harmless h claim fold? since) :
    Era ((next, some b) :: h) claim f fold? since := by
  have hm : Mutation b r next := transform_update htransform
  have hr : r.OwnedBy claim := he.owned _ r a he.reached hcur
  have hsuffix : h <:+ (next, some b) :: h := List.suffix_cons _ _
  have hderived : Derived ((next, some b) :: h) := by
    obtain ⟨rest, hrest, hlen⟩ := hcur
    have hwhole : (r, a) :: rest = h := hrest.eq_of_length (by rw [List.length_cons, hlen])
    have hd := he.derived
    rw [← hwhole] at hd ⊢
    exact .write hd htransform hvalid
  -- a claim-bound write carries this very claim
  have hbound : r.OwnedBy b.handle → b.handle.owner = claim.owner := fun ho => ho.2.symm.trans hr.2
  have hnext : next.frontier = f ∨
      ∃ fold, fold? = some fold ∧ FoldShown fold next ∧ History.Committed ((next, some b) :: h) fold
        (h.length + 1) := by
    have hkept : next.frontier = r.frontier → b.call.IsMaintenance → next.frontier = f ∨
        ∃ fold, fold? = some fold ∧ FoldShown fold next ∧
          History.Committed ((next, some b) :: h) fold (h.length + 1) := by
      intro hsame hcall
      rcases he.shown _ r a he.reached hcur with hfrontier | ⟨fold, hfold, hshown, hcommitted⟩
      · exact .inl (hsame.trans hfrontier)
      · exact .inr ⟨fold, hfold, hshown.of_maintenance hm hcall (hcommitted.end_lt he.derived),
          hcommitted.mono hsuffix (Nat.le_succ _)⟩
    cases hm with
    | claim hc _ =>
      have hepoch : r.epoch + 1 = claim.epoch := hown.1
      have hrepoch := hr.1
      omega
    | registerPending hc hclaim ho _ =>
      rcases hb (hbound ho) with hcall | ⟨fold, hcall, -⟩
      · simp [hc, ManifestCall.isHousekeeping] at hcall
      · rw [hc] at hcall
        cases hcall
    | replaceEmptyFrontier hc hclaim ho _ =>
      rcases hb (hbound ho) with hcall | ⟨fold, hcall, -⟩
      · simp [hc, ManifestCall.isHousekeeping] at hcall
      · rw [hc] at hcall
        cases hcall
    | @foldPending fold hc hclaim ho htail hbase hpending hover hroom =>
      rcases hb (hbound ho) with hcall | ⟨fold', hcall, hfold⟩
      · simp [hc, ManifestCall.isHousekeeping] at hcall
      · rw [hc, ManifestCall.foldPending.injEq] at hcall
        subst hcall
        rcases hfold with hfold | hcommitted
        · exact .inr ⟨fold, hfold, .of_foldRecord hover, h.length + 1, _, b, Nat.le_refl _,
            History.entry_cons.2 (.inl ⟨rfl, rfl⟩), hc⟩
        · -- a fold of an earlier era no longer finds its tail
          have hlt := hcommitted.base_lt he.derived hcur he.reached
          omega
    | raiseTrunc hc _ _ => exact hkept rfl (by simp [hc, ManifestCall.IsMaintenance])
    | removeSegments hc _ => exact hkept rfl (by simp [hc, ManifestCall.IsMaintenance])
  refine ⟨hderived, he.pos, he.reached.trans (Nat.le_succ _), fun v r' a' hv he' => ?_,
    fun r' a' he' => ?_, fun v r' a' hv he' => ?_, he.names⟩
  · rcases History.entry_cons.1 he' with ⟨-, heq⟩ | he'
    · cases heq
      exact hown
    · exact he.owned v r' a' hv he'
  · rcases History.entry_cons.1 he' with ⟨hlast, -⟩ | he'
    · have hreached := he.reached
      omega
    · exact he.first r' a' he'
  · rcases History.entry_cons.1 he' with ⟨rfl, heq⟩ | he'
    · cases heq
      exact hnext
    · rcases he.shown v r' a' hv he' with hfrontier | ⟨fold, hfold, hshown, hcommitted⟩
      · exact .inl hfrontier
      · exact .inr ⟨fold, hfold, hshown, hcommitted.mono hsuffix (Nat.le_refl _)⟩

theorem request (he : Era h claim f none since) (hbefore : fold.before = f) :
    Era h claim f (some fold) since := by
  refine ⟨he.derived, he.pos, he.reached, he.owned, he.first, fun v r a hv hr => ?_,
    fun fold' heq => ?_⟩
  · rcases he.shown v r a hv hr with hfrontier | ⟨fold', hnone, -⟩
    · exact .inl hfrontier
    · cases hnone
  · cases heq
    exact hbefore

/-- Once the fold is committed, the next era has begun. -/
theorem advance (he : Era h claim f (some fold) since) (hcommitted : h.Committed fold w)
    (hw : since ≤ w) (hle : w ≤ h.length) : Era h claim fold.after none w := by
  have hover := hcommitted.end_lt he.derived
  have hshown : ∀ v r a, w ≤ v → History.Entry h v r a → r.frontier = fold.after := by
    intro v r a hv hentry
    rcases he.shown v r a (hw.trans hv) hentry with hfrontier | ⟨fold', hfold, hshown, -⟩
    · -- the old base is gone
      have hlt := hcommitted.base_lt he.derived hentry hv
      rw [← he.names fold rfl] at hfrontier
      have hbase : r.tailBase = fold.oldTailBase := congrArg Frontier.tailBase hfrontier
      omega
    · cases hfold
      exact hshown.frontier hover
  exact ⟨he.derived, he.pos.trans_le hw, hle, fun v r a hv => he.owned v r a (hw.trans hv),
    fun r a hentry => hshown w r a (Nat.le_refl _) hentry, fun v r a hv hentry =>
      .inl (hshown v r a hv hentry), nofun⟩

/-- A document that shows the outcome of the era's fold was written in this era, by that fold or
after it. -/
theorem of_cached (he : Era h claim f (some fold) since) (hentry : History.Entry h v r a)
    (hcached : FoldCached fold r) : since ≤ v ∧ h.Committed fold v := by
  obtain ⟨-, last, hlast, hbase⟩ := hcached
  -- the folded segment lies below the tail
  have hlt : fold.oldTailBase < r.tailBase := by
    cases a with
    | none =>
      obtain ⟨-, buckets, rfl, -⟩ := he.derived.entry_none hentry
      cases hlast
    | some b =>
      have hwell := validate_eq_ok_iff.1 (he.derived.validate_eq hentry)
      rw [← hbase]
      exact hwell.basesBelowTail last (List.mem_of_getLast? hlast)
  have hold : ∀ r' : ManifestRecord, r'.frontier = f → r'.tailBase = fold.oldTailBase := by
    intro r' hfrontier
    rw [← he.names fold rfl] at hfrontier
    exact congrArg Frontier.tailBase hfrontier
  by_cases hv : since ≤ v
  · rcases he.shown v r a hv hentry with hfrontier | ⟨fold', hfold, -, hcommitted⟩
    · have := hold r hfrontier
      omega
    · cases hfold
      exact ⟨hv, hcommitted⟩
  · -- before the era the tail base was not past that of the era
    obtain ⟨r', a', hentry'⟩ := History.exists_entry he.pos he.reached
    have := hold r' (he.first r' a' hentry')
    have hle := he.derived.tailBase_le hentry hentry' (by omega)
    omega

/-- What the holder of the claim finds when it submits its fold: the frontier that the fold names or
the outcome of it. -/
theorem found (he : Era h claim f (some fold) since) (hentry : History.Entry h v r a)
    (hv : since ≤ v) : r.OwnedBy claim ∧ (r.frontier = fold.before ∨ FoldShown fold r) := by
  refine ⟨he.owned v r a hv hentry, ?_⟩
  rcases he.shown v r a hv hentry with hfrontier | ⟨fold', hfold, hshown, -⟩
  · exact .inl (hfrontier.trans (he.names fold rfl).symm)
  · cases hfold
    exact .inr hshown

theorem apply {s : Store Author} {q : StoreRequest Author} (he : Era s.history claim f fold? since)
    (hlegal : Legal s q) (hq : ∀ b, q.author = some b → b.Harmless s.history claim fold? since ∨
      q.version < since)
    (hown : ∀ r, (s.apply q).current = some r → r.OwnedBy claim) :
    Era (s.apply q).history claim f fold? since := by
  unfold Store.apply at hown ⊢
  split
  · rename_i hversion
    rw [if_pos hversion] at hown
    have hlen : s.history.length = q.version := hversion
    have hpos := he.pos
    have hreached := he.reached
    cases hauthor : q.author with
    | none =>
      -- the register exists already
      simp only [Legal, hauthor] at hlegal
      omega
    | some b =>
      simp only [Legal, hauthor] at hlegal
      obtain ⟨r, ⟨a, hentry⟩, htransform, hvalid⟩ := hlegal
      have hharmless := (hq b hauthor).resolve_right (by omega)
      exact he.write (hlen ▸ hentry) htransform hvalid (hown q.record rfl) hharmless
  · exact he

theorem resolve {s : Store Author} {q : StoreRequest Author} {fate : RequestFate}
    (he : Era s.history claim f fold? since) (hlegal : Legal s q)
    (hq : ∀ b, q.author = some b → b.Harmless s.history claim fold? since)
    (hown : ∀ r, (s.resolve q fate).current = some r → r.OwnedBy claim) :
    Era (s.resolve q fate).history claim f fold? since := by
  cases fate with
  | dropped => exact he
  | delayed => exact he
  | applied => exact he.apply hlegal (fun b hb => .inl (hq b hb)) hown

end Era

/-! ## All handles -/

/-- The era of a register under all its handles: every call that runs and every request on its way
is harmless to it. -/
structure EraInv (s : ManifestSystem) (claim : WriterClaim) (f : Frontier)
    (fold? : Option PendingFold) (since : Nat) : Prop where
  system : SystemInv s
  era : Era s.store.history claim f fold? since
  busy : ∀ (i : Nat) (c : Running) (p : Prog StoreOp 0 (Manifest × Except ProtocolError Unit)),
    s.handles[i]? = some (.busy c p) → c.author.Harmless s.store.history claim fold? since
  inflight : ∀ q ∈ s.store.inflight, ∀ b, q.author = some b →
    b.Harmless s.store.history claim fold? since ∨ q.version < since

/-- A new claim is not among the calls of the era, so the claim stays current as long as its
document is. -/
def ManifestSystem.Owned (s : ManifestSystem) (claim : WriterClaim) : Prop :=
  ∀ r, s.store.current = some r → r.OwnedBy claim

theorem ManifestSystem.Owned.of_store {s s' : ManifestSystem} {claim : WriterClaim}
    (h : s.Owned claim) (hstore : s'.store = s.store) : s'.Owned claim := by
  unfold ManifestSystem.Owned
  rw [hstore]
  exact h

namespace EraInv

variable {s s' : ManifestSystem} {act : ManifestSystem.Action}

/-- What a step does to the store keeps the era. -/
theorem step_era (h : EraInv s claim f fold? since) (hs : s.step act = some s')
    (hown : s'.Owned claim) :
    Era s'.store.history claim f fold? since ∧ ∀ q ∈ s'.store.inflight, ∀ b, q.author = some b →
      b.Harmless s.store.history claim fold? since ∨ q.version < since := by
  unfold ManifestSystem.Owned at hown
  rcases ManifestSystem.store_cases hs with heq | ⟨i, c, p, p', choice, hi, hstep⟩ | ⟨k, q, hq, heq⟩
  · rw [heq]
    exact ⟨h.era, h.inflight⟩
  · have hharmless := h.busy i c p hi
    obtain ⟨-, -, hwp⟩ := h.system.busy i c p hi
    obtain ⟨hsends, -⟩ := wp_step hwp hstep
    rcases (Relation.reflGen_iff _ _ _).1 hsends with hsame | hsame |
      ⟨q, fate, hlegal, hauthor, heq⟩
    · rw [hsame]
      exact ⟨h.era, h.inflight⟩
    · rw [hsame]
      exact ⟨h.era, h.inflight⟩
    · have hq : ∀ b, q.author = some b → b.Harmless s.store.history claim fold? since := by
        intro b hb
        rw [hauthor b hb]
        exact hharmless
      rw [heq] at hown ⊢
      refine ⟨h.era.resolve hlegal hq hown, fun q' hq' => ?_⟩
      cases fate with
      | dropped => exact h.inflight q' hq'
      | delayed =>
        rcases List.mem_cons.1 hq' with rfl | hq'
        · exact fun b hb => .inl (hq b hb)
        · exact h.inflight q' hq'
      | applied =>
        refine h.inflight q' ?_
        simp only [Store.resolve, Store.apply] at hq'
        split at hq' <;> exact hq'
  · rw [heq] at hown ⊢
    have hmem := List.mem_of_getElem? hq
    exact ⟨h.era.apply (h.system.store.legal q hmem) (h.inflight q hmem) hown,
      fun q' hq' => h.inflight q' (List.mem_of_mem_eraseIdx hq')⟩

/-- A step of the register keeps the era if a call that it starts is harmless. -/
theorem step (h : EraInv s claim f fold? since) (hs : s.step act = some s') (hown : s'.Owned claim)
    (hcall : ∀ i call m, act = .call i call → s.handles[i]? = some (.idle m) →
      (Author.of m call).Harmless s.store.history claim fold? since)
    (hopen : ∀ owner, act.opens? = some owner → owner ≠ claim.owner) :
    EraInv s' claim f fold? since := by
  have hsystem := h.system.step hs
  obtain ⟨hera, hinflight⟩ := h.step_era hs hown
  have hgrows : s.store.history <:+ s'.store.history := (h.system.step_store hs).2
  refine ⟨hsystem, hera, fun i c p hi => ?_, fun q hq b hb => (hinflight q hq b hb).imp_left
    fun hb => hb.mono hgrows⟩
  refine Author.Harmless.mono ?_ hgrows
  cases ManifestSystem.nextHandle hs hi with
  | kept hi => exact h.busy _ c p hi
  | opened hact =>
    subst hact
    exact fun howner => absurd howner (hopen _ rfl)
  | called hact hidle => exact hcall _ _ _ hact hidle
  | stepped hi => exact h.busy _ c _ hi

theorem request (h : EraInv s claim f none since) (hbefore : fold.before = f) :
    EraInv s claim f (some fold) since := by
  have hmono : ∀ b : Author, b.Harmless s.store.history claim none since →
      b.Harmless s.store.history claim (some fold) since := by
    intro b hb howner
    rcases hb howner with hcall | ⟨fold', hcall, hnone | hcommitted⟩
    · exact .inl hcall
    · cases hnone
    · exact .inr ⟨fold', hcall, .inr hcommitted⟩
  exact ⟨h.system, h.era.request hbefore, fun i c p hi => hmono _ (h.busy i c p hi),
    fun q hq b hb => (h.inflight q hq b hb).imp_left (hmono b)⟩

/-- The handle whose fold has succeeded has seen the next era. -/
theorem advance (h : EraInv s claim f (some fold) since) {i : Nat} {m : Manifest}
    (hi : s.handles[i]? = some (.idle m)) (hcached : FoldCached fold m.record) :
    since ≤ m.version ∧ EraInv s claim fold.after none m.version := by
  obtain ⟨a, hentry⟩ := (h.system.idle i m hi).cached
  obtain ⟨hle, hcommitted⟩ := h.era.of_cached hentry hcached
  have hmono : ∀ b : Author, b.Harmless s.store.history claim (some fold) since →
      b.Harmless s.store.history claim none m.version := by
    intro b hb howner
    rcases hb howner with hcall | ⟨fold', hcall, hfold | hearlier⟩
    · exact .inl hcall
    · cases hfold
      exact .inr ⟨fold, hcall, .inr hcommitted⟩
    · exact .inr ⟨fold', hcall, .inr (hearlier.mono (List.suffix_refl _) hle)⟩
  exact ⟨hle, h.system, h.era.advance hcommitted hle hentry.le_length, fun i c p hi => hmono _
    (h.busy i c p hi), fun q hq b hb => (h.inflight q hq b hb).imp (hmono b) fun hlt =>
      hlt.trans_le hle⟩

/-- A fold that was submitted in its era is not fenced. -/
theorem not_fenced (h : EraInv s claim f (some fold) since) (hepoch : claim.epoch ≠ 0)
    {i : Nat} {c : Running} {m : Manifest} {outcome : Except ProtocolError Unit}
    (hi : s.handles[i]? = some (.busy c (.ret (m, outcome))))
    (hcall : c.author.call = .foldPending fold) (hclaim : c.author.handle = claim)
    (hcached : since ≤ c.cachedAt) (reason : FenceReason) : outcome ≠ .error (.fenced reason) := by
  rintro rfl
  have hreturned : Returned c (m, .error (.fenced reason)) s.store :=
    wp_value (h.system.busy i c _ hi).2.2 rfl
  have hfrom : c.decidesFrom = c.cachedAt := by simp [Running.decidesFrom, hcall]
  obtain ⟨-, hfailed⟩ := hreturned
  rcases hfailed with hstore | ⟨hclaim', -⟩ | ⟨v, r, ⟨a, hentry⟩, hle, hrefused⟩
  · rcases hstore with hstore | hstore
    · cases hstore
    · cases hstore
  · rw [hcall] at hclaim'
    cases hclaim'
  · rw [hfrom] at hle
    obtain ⟨hown, hfound⟩ := h.era.found hentry (hcached.trans hle)
    rcases hrefused with htransform | ⟨m', haccepted, -⟩ | ⟨next, fault, -, -, hfault⟩
    · simp only [Author.transform, hcall, Author.claimed, hclaim, if_neg hepoch] at htransform
      exact foldPendingTransform_ne_fenced hown (hfound.imp_right And.left) reason htransform
    · unfold Manifest.accepted Manifest.validateConfiguration at haccepted
      split at haccepted
      · cases haccepted
      · split at haccepted
        · cases haccepted
        · cases haccepted
    · cases hfault

end EraInv

/-- A read keeps the claim of the handle and never goes back behind the cache. -/
theorem wp_refresh_forward {s : Store Author} {m : Manifest} {author : Author} (hm : HandleOk s m) :
    wp (storeMachine author) (m.refresh : Prog StoreOp 0 _) Store.Grows (Sends author)
      (fun result _ => result.1.claimed = m.claimed ∧ m.version ≤ result.1.version) s := by
  have hrefresh : wp (storeMachine author) (m.refresh : Prog StoreOp 0 _) Store.Grows (Sends author)
      (m.Refreshed m.version) s := wp_refresh (fun _ _ => id) hm.buckets hm.cached.le_version
  refine wp_mono hrefresh (fun _ _ => id) (fun _ _ => id) ?_
  rintro ⟨m', outcome⟩ t hrefreshed
  cases outcome with
  | error error =>
    obtain ⟨hsame, -⟩ := hrefreshed
    have hm' : m' = m := hsame
    rw [hm']
    exact ⟨rfl, Nat.le_refl _⟩
  | ok u =>
    obtain ⟨v, r, hread, -, -, hle⟩ := hrefreshed
    have hm' : m' = m.installCache v r := hread
    rw [hm']
    exact ⟨rfl, hle⟩

end Chorus
