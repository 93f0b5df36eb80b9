import Chorus.Manifest.Proofs.DirectoryProofs
import Chorus.Manifest.Proofs.InvariantProofs

/-!
# Retrying a fold

A fold request is sent from a document that shows its precondition; afterwards only truncation,
entry removal and the fold itself change the register (`FoldRun`). Before the fold is applied every
document shows its precondition, afterwards its outcome (`FoldRun.before`, `FoldRun.after`). The
fold is applied at most once, and a later call with the same request succeeds while the folded entry
is in the directory. Once truncation has removed it, the call reports a checksum mismatch
(`foldPending_after_removal`).
-/

namespace Chorus

open Concurrency ManifestRecord Manifest

def PendingFold.entry (fold : PendingFold) : DirectoryEntry :=
  ⟨fold.oldTailId, fold.oldTailBase, fold.oldTailCrc32c⟩

/-- The calls of the truncation task. -/
def ManifestCall.IsMaintenance : ManifestCall → Prop
  | .raiseTrunc _ _ | .removeSegments _ _ => True
  | _ => False

/-- A fold request by `b` that was applied at version `k`. The document at the earlier version `v₀`
shows its precondition (the request sends an update from it), and after `v₀` the register is changed
only by truncation, entry removal and that request. -/
structure FoldRun (h : History) (b : Author) (fold : PendingFold) (v₀ k : Nat) : Prop where
  call : b.call = .foldPending fold
  sent : ∃ r₀ a₀ next, History.Entry h v₀ r₀ a₀ ∧ b.transform r₀ = .ok (.update next ())
  applied : ∃ r, History.Entry h k r (some b)
  before : v₀ < k
  maintenance : ∀ v r a, v₀ < v → History.Entry h v r (some a) →
    a.call.IsMaintenance ∨ a.call = .foldPending fold

variable {h : History} {issued : List ManifestCall} {b : Author} {fold : PendingFold}
  {v₀ k v w : Nat} {r r' next : ManifestRecord} {a a' : Option Author}

/-- What truncation and entry removal leave alone. -/
theorem Mutation.of_maintenance {c : Author} (hm : Mutation c r next) (hc : c.call.IsMaintenance) :
    next.epoch = r.epoch ∧ next.owner = r.owner ∧ next.tailId = r.tailId ∧
      next.tailBase = r.tailBase ∧ next.pendingId = r.pendingId ∧ next.sealId = r.sealId ∧
      next.sealBase = r.sealBase ∧ next.sealDigest = r.sealDigest ∧
      ∃ p : DirectoryEntry → Bool, next.segments = r.segments.filter p := by
  cases hm with
  | raiseTrunc => exact ⟨rfl, rfl, rfl, rfl, rfl, rfl, rfl, rfl, fun _ => true, by simp⟩
  | removeSegments => exact ⟨rfl, rfl, rfl, rfl, rfl, rfl, rfl, rfl, _, rfl⟩
  | claim hcall => simp [ManifestCall.IsMaintenance, hcall] at hc
  | registerPending hcall => simp [ManifestCall.IsMaintenance, hcall] at hc
  | replaceEmptyFrontier hcall => simp [ManifestCall.IsMaintenance, hcall] at hc
  | foldPending hcall => simp [ManifestCall.IsMaintenance, hcall] at hc

/-- A document from which the fold can be made. -/
structure FoldReady (b : Author) (fold : PendingFold) (r : ManifestRecord) : Prop where
  owned : r.OwnedBy b.handle
  tail : r.tailId = some fold.oldTailId
  base : r.tailBase = fold.oldTailBase
  pending : r.pendingId = some fold.consumedPendingId
  room : r.directoryHasRoom 1 b.maxDirectoryBytes = true

/-- A document that shows the outcome of the fold. The folded entry stands at the end of the
directory until it is removed. -/
structure FoldDone (b : Author) (fold : PendingFold) (r : ManifestRecord) : Prop where
  owned : r.OwnedBy b.handle
  applied : foldApplied fold r
  segments : ∃ init : List DirectoryEntry, (∀ e ∈ init, e.base < fold.oldTailBase) ∧
    (r.segments = init ++ [fold.entry] ∨ r.segments = init)

/-- The decision of the request on a document from which the fold can be made. -/
theorem FoldReady.transform (hr : FoldReady b fold r) (hb : b.call = .foldPending fold)
    (hclaim : b.handle.epoch ≠ 0) (hend : fold.oldTailBase ≤ fold.oldTailEnd)
    (hover : fold.oldTailEnd + 1 < u64Limit) :
    b.transform r = .ok (.update (foldRecord fold r) ()) := by
  have hnot : ¬ foldApplied fold r := by
    rintro ⟨-, hbase, -⟩
    rw [hr.base, saturatingAdd] at hbase
    omega
  have hcheck : checkClaim r b.handle.epoch b.handle.owner = .ok () := checkClaim_eq_ok.2 hr.owned
  simp only [Author.transform, hb, claimed_eq_ok, foldPendingTransform, bind_eq_ok]
  refine ⟨hclaim, (), hcheck, ?_⟩
  rw [if_neg hnot]
  simp only [bind_eq_ok, failIf_eq_ok, exists_const, isNone_checkedAdd, not_not]
  exact ⟨by simp [hr.tail, hr.base, hr.pending], hover, hr.room, trivial⟩

/-- The decision of the request on a document that shows its outcome: success while the entry is in
the directory, a checksum mismatch once it was removed. -/
theorem FoldDone.transform (hr : FoldDone b fold r) (hb : b.call = .foldPending fold)
    (hclaim : b.handle.epoch ≠ 0) :
    b.transform r = if fold.entry ∈ r.segments then .ok (.done ())
      else .error (.invalidManifest (.foldChecksum none fold.oldTailCrc32c)) := by
  have hcheck : checkClaim r b.handle.epoch b.handle.owner = .ok () := checkClaim_eq_ok.2 hr.owned
  have hcrc : committedCrc32c fold r =
      if fold.entry ∈ r.segments then some fold.oldTailCrc32c else none := by
    obtain ⟨init, hinit, hs | hs⟩ := hr.segments
    · simp [committedCrc32c, hs, PendingFold.entry]
    · have hnot : fold.entry ∉ init := fun hmem => absurd (hinit _ hmem)
          (by simp [PendingFold.entry])
      rw [if_neg (hs ▸ hnot), committedCrc32c, Option.map_eq_none_iff,
        Option.filter_eq_none_iff, hs]
      intro e he
      have := hinit e (List.mem_of_getLast? he)
      simp only [decide_eq_true_eq, not_and]
      intro _
      omega
  simp only [Author.transform, hb, Author.claimed, if_neg hclaim, foldPendingTransform, hcheck,
    if_pos hr.applied, hcrc]
  by_cases hmem : fold.entry ∈ r.segments
  · simp [hmem, failIf, bind, Except.bind]
  · simp [hmem, failIf, bind, Except.bind]

theorem introduces_foldPending_ne_nil : (ManifestCall.foldPending fold).introduces ≠ [] := by
  simp [ManifestCall.introduces]

namespace FoldRun

theorem eq_applied (hrun : FoldRun h b fold v₀ k) (hf : Fresh h issued) {c : Author}
    (he : History.Entry h v r (some c)) (hc : c.call = .foldPending fold) : v = k := by
  obtain ⟨rk, hk⟩ := hrun.applied
  exact hf.once v k r rk c b he hk (hc.trans hrun.call.symm) (hc ▸ introduces_foldPending_ne_nil)

theorem claim_ne_zero (hrun : FoldRun h b fold v₀ k) : b.handle.epoch ≠ 0 := by
  obtain ⟨r₀, a₀, next, -, ht⟩ := hrun.sent
  have hclaimed : b.claimed r₀ (fun claim => foldPendingTransform claim b.maxDirectoryBytes fold) =
      .ok (.update next ()) := by
    rw [← ht, Author.transform, hrun.call]
  exact (claimed_eq_ok.1 hclaimed).1

theorem end_ge (hrun : FoldRun h b fold v₀ k) (hf : Fresh h issued) :
    fold.oldTailBase ≤ fold.oldTailEnd := by
  obtain ⟨rk, hk⟩ := hrun.applied
  exact (hf.admissible _ (hf.written _ _ _ hk)).foldEnd fold hrun.call

theorem end_lt (hrun : FoldRun h b fold v₀ k) : fold.oldTailEnd + 1 < u64Limit := by
  obtain ⟨r₀, a₀, next, -, ht⟩ := hrun.sent
  exact ((transform_update ht).of_foldPending hrun.call).2.2.2.2.1

/-- Apart from the fold itself, a later document comes from truncation or entry removal. -/
theorem exists_maintenance (hrun : FoldRun h b fold v₀ k) (hf : Fresh h issued)
    (he : History.Entry h (v + 1) r a) (hv : v₀ ≤ v) (hne : v + 1 ≠ k) :
    ∃ r₀ a₀ c, History.Entry h v r₀ a₀ ∧ Mutation c r₀ r ∧ c.call.IsMaintenance := by
  obtain ⟨r₀, a₀, next, hsent, -⟩ := hrun.sent
  have hpos := hsent.pos
  cases a with
  | none =>
    have hone := (hf.derived.entry_none he).1
    omega
  | some c =>
    obtain ⟨u, r₀, a₀, hu, he₀, hm⟩ := hf.derived.exists_mutation he
    obtain rfl : v = u := by omega
    refine ⟨r₀, a₀, c, he₀, hm, (hrun.maintenance _ _ _ (by omega) he).resolve_right fun hc => ?_⟩
    exact hne (hrun.eq_applied hf he hc)

/-- Until the fold is applied, every document since the one it was sent from shows its
precondition. -/
theorem ready (hrun : FoldRun h b fold v₀ k) (hf : Fresh h issued) (he : History.Entry h v r a)
    (hv : v₀ ≤ v) (hk : v < k) : FoldReady b fold r := by
  induction v generalizing r a with
  | zero => exact absurd he.pos (Nat.lt_irrefl 0)
  | succ v ih =>
    by_cases hfirst : v₀ = v + 1
    · obtain ⟨r₀, a₀, next, he₀, ht⟩ := hrun.sent
      obtain ⟨rfl, -⟩ := he₀.unique (hfirst ▸ he)
      obtain ⟨ho, htail, hbase, hpending, -, hroom, -⟩ :=
        (transform_update ht).of_foldPending hrun.call
      exact ⟨ho, htail, hbase, hpending, hroom⟩
    · obtain ⟨r₀, a₀, c, he₀, hm, hmaint⟩ := hrun.exists_maintenance hf he (by omega) (by omega)
      have hready := ih he₀ (by omega) (by omega)
      obtain ⟨hepoch, howner, htail, hbase, hpending, -, -, -, p, hsegs⟩ := hm.of_maintenance hmaint
      exact ⟨⟨hepoch.trans hready.owned.1, howner.trans hready.owned.2⟩, htail.trans hready.tail,
        hbase.trans hready.base, hpending.trans hready.pending,
        directoryHasRoom_of_sublist (hsegs ▸ List.filter_sublist) hready.room⟩

/-- Once the fold is applied, every document shows its outcome. -/
theorem done (hrun : FoldRun h b fold v₀ k) (hf : Fresh h issued) (he : History.Entry h v r a)
    (hk : k ≤ v) : FoldDone b fold r := by
  induction v generalizing r a with
  | zero => exact absurd he.pos (Nat.lt_irrefl 0)
  | succ v ih =>
    have hbefore := hrun.before
    by_cases hfirst : k = v + 1
    · obtain ⟨rk, hk'⟩ := hrun.applied
      obtain ⟨rfl, rfl⟩ := hk'.unique (hfirst ▸ he)
      obtain ⟨u, r₀, a₀, -, he₀, hm⟩ := hf.derived.exists_mutation he
      obtain ⟨ho, htail, hbase, hpending, hend, -, rfl⟩ := hm.of_foldPending hrun.call
      refine ⟨ho, ⟨rfl, ?_, rfl, rfl, rfl, rfl⟩, r₀.segments, ?_, Or.inl rfl⟩
      · simp only [foldRecord, saturatingAdd]
        omega
      · intro e he'
        rw [← hbase]
        exact (hf.sound _ _ _ he₀).basesBelowTail e he'
    · obtain ⟨r₀, a₀, c, he₀, hm, hmaint⟩ := hrun.exists_maintenance hf he (by omega)
        (Ne.symm hfirst)
      have hdone := ih he₀ (by omega)
      obtain ⟨hepoch, howner, htail, hbase, hpending, hsealId, hsealBase, hsealDigest, p, hsegs⟩ :=
        hm.of_maintenance hmaint
      obtain ⟨h₁, h₂, h₃, h₄, h₅, h₆⟩ := hdone.applied
      refine ⟨⟨hepoch.trans hdone.owned.1, howner.trans hdone.owned.2⟩,
        ⟨htail.trans h₁, hbase.trans h₂, hpending.trans h₃, hsealId.trans h₄, hsealBase.trans h₅,
          hsealDigest.trans h₆⟩, ?_⟩
      obtain ⟨init, hinit, hs⟩ := hdone.segments
      refine ⟨init.filter p, fun e he' => hinit e (List.mem_of_mem_filter he'), ?_⟩
      rcases hs with hs | hs
      · cases hp : p fold.entry with
        | true => exact Or.inl (by simp [hsegs, hs, List.filter_append, hp])
        | false => exact Or.inr (by simp [hsegs, hs, List.filter_append, hp])
      · exact Or.inr (by rw [hsegs, hs])

theorem mem_of_mem (hrun : FoldRun h b fold v₀ k) (hf : Fresh h issued)
    (he : History.Entry h v r a) (hk : k ≤ v) (he' : History.Entry h w r' a') (hle : v ≤ w)
    (hmem : fold.entry ∈ r'.segments) : fold.entry ∈ r.segments := by
  refine hf.derived.rel (P := fun r r' => fold.entry ∈ r'.segments → fold.entry ∈ r.segments)
    (fun _ => id) ?_ he he' hle hmem
  intro r r₀ r₁ _ c u hu he₀ he₁ hrel hm hmem₁
  have hmaint := (hrun.maintenance _ _ _ (by have := hrun.before; omega) he₁).resolve_right
    fun hc => by
      have := hrun.eq_applied hf he₁ hc
      omega
  obtain ⟨-, -, -, -, -, -, -, -, p, hsegs⟩ := hm.of_maintenance hmaint
  exact hrel (List.mem_of_mem_filter (hsegs ▸ hmem₁))

end FoldRun

/-! ## A call that the store answers -/

section Answered

variable {s : Store Author} {m : Manifest}

/-- A round of the retry loop with a stale cache against an answering store: the update conflicts,
and the next round decides on the current document. -/
theorem run_casLoop_stale {α : Type} {n : Nat} {c : Author} {exhausted : ProtocolError}
    {transform : ManifestRecord → Except ProtocolError (CasTransform α)} {value : α} {rounds : Nat}
    (hstale : m.version ≠ s.version) (ht : transform m.record = .ok (.update next value))
    (hvalid : next.validate = .ok ()) (hcur : s.current = some r)
    (haccept : m.accepted r = .ok ()) :
    (storeMachine c).run s (casLoop exhausted transform (rounds + 1) m : Prog StoreOp n _)
      (List.replicate 2 (.op .answered)) =
      some (s, casLoop exhausted transform rounds (m.installCache s.version r)) := by
  have hconflict : ¬ (s.version = m.version ∧ m.version ≠ 0) := fun h => hstale h.1.symm
  simp only [casLoop, ht, hvalid, Machine.run, Machine.step, storeMachine, if_neg hconflict,
    Option.map_some, Option.bind_some, List.replicate, refresh, refreshLoop, hcur, haccept,
    Prog.bind]

/-- A call with the request against an answering store, from a cache that shows the outcome or the
precondition: it decides on the cached document, or on the current one. -/
theorem run_foldPending {issued : List ManifestCall} (hf : Fresh s.history issued)
    (hrun : FoldRun s.history b fold v₀ k) (hm : HandleOk s m)
    (hb : Author.of m (.foldPending fold) = b) (hv : v₀ ≤ m.version) (hcur : s.current = some r) :
    ∃ n, ∃ decided m', (decided = m.record ∧ k ≤ m.version ∨ decided = r ∧ m.version < k) ∧
      (storeMachine b).run s (m.foldPending fold : Prog StoreOp 0 _)
        (List.replicate n (.op .answered)) =
      some (s, .ret (m', if fold.entry ∈ decided.segments then .ok ()
        else .error (.invalidManifest (.foldChecksum none fold.oldTailCrc32c)))) := by
  have hclaim := hrun.claim_ne_zero
  obtain ⟨a, hcached⟩ := hm.cached
  obtain ⟨a', hcurrent⟩ := Store.at_of_current hcur
  have hkver : k ≤ s.version := by
    obtain ⟨rk, hk⟩ := hrun.applied
    exact hk.le_length
  have hepoch : m.epoch ≠ 0 := by rw [← hb] at hclaim; exact hclaim
  have htransform : ∀ r, foldPendingTransform m.claimed m.maxDirectoryBytes fold r =
      b.transform r := by
    intro r
    rw [← hb]
    simp [Author.transform, Author.of, Author.claimed, Manifest.claimed, hepoch]
  have hprog : (m.foldPending fold : Prog StoreOp 0 _) = casLoop .manifestUnavailable
      (foldPendingTransform m.claimed m.maxDirectoryBytes fold) (15 + 1) m := by
    simp only [foldPending, claimedTransform, if_neg hepoch]
    rfl
  have hdecide : ∀ (rounds : Nat) (m' : Manifest), FoldDone b fold m'.record →
      (casLoop .manifestUnavailable (foldPendingTransform m.claimed m.maxDirectoryBytes fold)
        (rounds + 1) m' : Prog StoreOp 0 _) =
      .ret (m', if fold.entry ∈ m'.record.segments then .ok ()
        else .error (.invalidManifest (.foldChecksum none fold.oldTailCrc32c))) := by
    intro rounds m' hdone
    by_cases hmem : fold.entry ∈ m'.record.segments
    · simp only [casLoop, htransform, hdone.transform hrun.call hclaim, if_pos hmem]
    · simp only [casLoop, htransform, hdone.transform hrun.call hclaim, if_neg hmem]
  by_cases hk : k ≤ m.version
  · refine ⟨0, m.record, m, Or.inl ⟨rfl, hk⟩, ?_⟩
    rw [hprog, hdecide _ _ (hrun.done hf hcached hk)]
    rfl
  · have hready := hrun.ready hf hcached hv (by omega)
    have hupdate := hready.transform hrun.call hclaim (hrun.end_ge hf) hrun.end_lt
    obtain ⟨rk, hkentry⟩ := hrun.applied
    have hvalid := hf.candidate_valid (hf.written _ _ _ hkentry) hcached hupdate
    have haccept : m.accepted r = .ok () := by
      have hsound := validate_eq_ok_iff.2 (hf.sound _ _ _ hcurrent).toWellFormed
      have hconf : r.buckets = m.bucketNames :=
        (hf.derived.buckets_eq hcurrent hcached).trans hm.configured
      simp [accepted, hsound, validateConfiguration, hconf]
    refine ⟨2, r, m.installCache s.version r, Or.inr ⟨rfl, by omega⟩, ?_⟩
    rw [hprog, run_casLoop_stale (by omega) ((htransform _).trans hupdate) hvalid hcur haccept,
      hdecide 14 _ (hrun.done hf hcurrent hkver)]
    rfl

end Answered

/-- Folding is applied at most once, and retrying it is safe exactly as long as the folded entry is
in the directory. Take any interleaving whose callers introduce only unused ids, and a fold request
that was applied, after which only truncation, entry removal and the same request changed the
register while its claim stayed current. Then the request was applied only once; while the folded
entry is in the directory, no call with the request (from a cache at least as new as some document
that showed its precondition) has failed other than by the store; and a further call with the
request that the store answers returns `Ok` from every such cache if and only if the entry is still
in the directory. -/
theorem foldPending_retry {s : ManifestSystem}
    (hs : Reaches ManifestSystem.step CallerOk ManifestSystem.init s)
    (hrun : FoldRun s.store.history b fold v₀ k) (hcur : s.store.current = some r) :
    r.OwnedBy b.handle ∧
    (∀ v r' c, History.Entry s.store.history v r' (some c) → c.call = .foldPending fold → v = k) ∧
    (fold.entry ∈ r.segments → ∀ c ∈ s.completions, c.author = b → v₀ ≤ c.cachedAt →
      c.outcome = .ok () ∨ ∃ e, c.outcome = .error e ∧ StoreFailure e) ∧
    ((∀ m, HandleOk s.store m → Author.of m (.foldPending fold) = b → v₀ ≤ m.version →
      ∃ n m', (storeMachine b).run s.store (m.foldPending fold : Prog StoreOp 0 _)
        (List.replicate n (.op .answered)) = some (s.store, .ret (m', .ok ()))) ↔
      fold.entry ∈ r.segments) := by
  have hf := fresh_of_reaches hs
  have hinv := SystemInv.of_reaches hs
  obtain ⟨a, hcurrent⟩ := Store.at_of_current hcur
  have hkver : k ≤ s.store.version := by
    obtain ⟨rk, hk⟩ := hrun.applied
    exact hk.le_length
  refine ⟨(hrun.done hf hcurrent hkver).owned, ?_, ?_, ?_, ?_⟩
  · exact fun v r' c he hc => hrun.eq_applied hf he hc
  · intro hmem c hc hauthor hcached
    obtain ⟨-, t, hgrows, -, -, hres⟩ := hinv.done c hc
    cases hout : c.outcome with
    | ok u => exact Or.inl rfl
    | error e =>
      refine Or.inr ⟨e, rfl, ?_⟩
      simp only [hout] at hres
      have hfrom : c.toRunning.decidesFrom = c.cachedAt := by
        simp [Running.decidesFrom, hauthor, hrun.call]
      rcases hres with hstore | ⟨hclaim, -⟩ | ⟨v, r', hat, hle, hdec⟩
      · exact hstore
      · rw [hauthor, hrun.call] at hclaim
        cases hclaim
      · obtain ⟨a', he⟩ := hat.mono hgrows
        rw [hfrom] at hle
        rw [hauthor] at hdec
        obtain ⟨rk, hk⟩ := hrun.applied
        rcases hdec with ht | ⟨m, hm, hconf⟩ | ⟨next, fault, ht, hinvalid, -⟩
        · exfalso
          by_cases hvk : k ≤ v
          · rw [(hrun.done hf he hvk).transform hrun.call hrun.claim_ne_zero, if_pos
              (hrun.mem_of_mem hf he hvk hcurrent he.le_length hmem)] at ht
            cases ht
          · rw [(hrun.ready hf he (by omega) (by omega)).transform hrun.call hrun.claim_ne_zero
              (hrun.end_ge hf) hrun.end_lt] at ht
            cases ht
        · exfalso
          obtain ⟨v', r'', hat', hb'⟩ := hconf (by simp [hrun.call])
          obtain ⟨a'', he''⟩ := hat'.mono hgrows
          have hsound := validate_eq_ok_iff.2 (hf.sound _ _ _ he).toWellFormed
          have hb : r'.buckets = m.bucketNames := (hf.derived.buckets_eq he he'').trans hb'
          simp [accepted, hsound, validateConfiguration, hb] at hm
        · rw [hf.candidate_valid (hf.written _ _ _ hk) he ht] at hinvalid
          cases hinvalid
  · -- the handle that sent the applied update still holds the document before it
    intro hall
    by_contra hnot
    obtain ⟨rk, hk⟩ := hrun.applied
    obtain ⟨u, r₀, a₀, rfl, he₀, hm⟩ := hf.derived.exists_mutation hk
    let m : Manifest := ⟨b.handle.owner, b.handle.epoch, r₀.buckets, b.maxDirectoryBytes, 0, u, r₀⟩
    have hhandle : HandleOk s.store m := ⟨⟨a₀, he₀⟩, rfl, (hf.sound _ _ _ he₀).bucketNames⟩
    have hauthor : Author.of m (.foldPending fold) = b := by
      obtain ⟨call, handle, maxDirectoryBytes⟩ := b
      have := hrun.call
      simp only at this
      simp [Author.of, Manifest.claimed, m, this]
    have hbefore := hrun.before
    obtain ⟨n, m', hok⟩ := hall m hhandle hauthor (by simp only [m]; omega)
    obtain ⟨n', decided, m'', hdecided, hfail⟩ :=
      run_foldPending hf hrun hhandle hauthor (by simp only [m]; omega) hcur
    obtain rfl : decided = r := by
      rcases hdecided with ⟨-, hge⟩ | ⟨rfl, -⟩
      · simp only [m] at hge
        omega
      · rfl
    rw [if_neg hnot] at hfail
    have := (Machine.run_ret_unique hok hfail).2
    simp at this
  · intro hmem m hm hauthor hv
    obtain ⟨n, decided, m', hdecided, hrun'⟩ := run_foldPending hf hrun hm hauthor hv hcur
    refine ⟨n, m', ?_⟩
    have hdec : fold.entry ∈ decided.segments := by
      rcases hdecided with ⟨rfl, hk⟩ | ⟨rfl, -⟩
      · obtain ⟨a', he⟩ := hm.cached
        exact hrun.mem_of_mem hf he hk hcurrent he.le_length hmem
      · exact hmem
    rw [hrun', if_pos hdec]

/-! ## A fold whose entry is removed before its retry -/

/-- The fold of the first segment, which holds the single record 0. -/
def retriedFold : PendingFold :=
  ⟨segmentId 1 0, 0, 0, "digest", 7, segmentId 1 1, segmentId 1 1, segmentId 1 2⟩

/-- A writer folds its first segment; the update is applied but its response is lost. The
maintenance handle raises the floor past the segment. -/
def appliedRun : List ManifestSystem.Action :=
  registeredRun ["bucket"] 6144 0 ++
  [.call 0 (.foldPending retriedFold), .step 0 (.op (.unavailable .applied)),
    .step 0 (.op (.unavailable .dropped)), .finish 0] ++
  answeredRun 1 1 (.openHandle "maintenance" 1 ["bucket"] 6144 0) ++
  answeredRun 1 2 (.call 1 (.raiseTrunc ⟨1, "writer"⟩ 1))

/-- The handle also removes the segment's entry, and then the writer tries again. -/
def retriedRun : List ManifestSystem.Action :=
  appliedRun ++ answeredRun 1 1 (.call 1 (.removeSegments [segmentId 1 0] 1)) ++
  answeredRun 0 2 (.call 0 (.foldPending retriedFold))

def retriedAuthor : Author := ⟨.foldPending retriedFold, ⟨1, "writer"⟩, 6144⟩

/-- The document the fold is sent from, at version 3. -/
def retriedFrom : ManifestRecord :=
  { initial ["bucket"] with
    epoch := 1, owner := "writer", tailId := some (segmentId 1 0), pendingId :=
      some (segmentId 1 1) }

def retriedLast : ManifestRecord :=
  { foldRecord retriedFold retriedFrom with trunc := 1, segments := [] }

def retriedHistory : History :=
  [(retriedLast,
    some ⟨.removeSegments [segmentId 1 0] 1, ⟨0, "maintenance"⟩, 6144⟩),
   ({ foldRecord retriedFold retriedFrom with trunc := 1 },
    some ⟨.raiseTrunc ⟨1, "writer"⟩ 1, ⟨0, "maintenance"⟩, 6144⟩),
   (foldRecord retriedFold retriedFrom, some retriedAuthor),
   (retriedFrom, some ⟨.registerPending (segmentId 1 1), ⟨1, "writer"⟩, 6144⟩),
   ({ retriedFrom with pendingId := none }, some ⟨.claim, ⟨0, "writer"⟩, 6144⟩),
   (initial ["bucket"], none)]

/-- Also before the entry is removed, and before the floor is raised. -/
theorem foldRun_retriedHistory {h : History} (hafter : retriedHistory.drop 2 <:+ h)
    (hh : h <:+ retriedHistory) : FoldRun h retriedAuthor retriedFold 3 4 where
  call := rfl
  sent := ⟨retriedFrom, _, foldRecord retriedFold retriedFrom,
    ⟨_, (List.suffix_cons _ _).trans hafter, rfl⟩, by decide +kernel⟩
  applied := ⟨foldRecord retriedFold retriedFrom, ⟨_, hafter, rfl⟩⟩
  before := by decide
  maintenance := by
    rintro v r a hv ⟨rest, hrest, hlen⟩
    have he : History.Entry retriedHistory v r (some a) := ⟨rest, hrest.trans hh, hlen⟩
    simp only [retriedHistory, History.entry_cons, List.length_cons, List.length_nil, Prod.mk.injEq,
      Option.some.injEq] at he
    rcases he with ⟨-, -, rfl⟩ | ⟨-, -, rfl⟩ | ⟨-, -, rfl⟩ | ⟨rfl, -⟩ | ⟨rfl, -⟩ | ⟨rfl, -⟩ | he
    · exact Or.inl trivial
    · exact Or.inl trivial
    · exact Or.inr rfl
    all_goals first | omega | simp [History.Entry] at he

/-- What is checked of the writer's handle before the entry is removed. -/
def appliedCheck (s : ManifestSystem) : HandleState → Bool
  | .idle m => decide (s.store.history = retriedHistory.drop 1 ∧
      Author.of m (.foldPending retriedFold) = retriedAuthor ∧ 3 ≤ m.version)
  | _ => false

/-- The run, the writes it made and the outcome of the retry. -/
theorem exists_retriedRun : ∃ s, Reaches ManifestSystem.step CallerOk ManifestSystem.init s ∧
    s.store.current = some retriedLast ∧ s.store.history = retriedHistory ∧ ∃ c ∈ s.completions,
      c.author = retriedAuthor ∧ c.cachedAt = 3 ∧ c.startedAt = 6 ∧
      c.outcome = .error (.invalidManifest (.foldChecksum none 7)) := by
  have hrun : (runChecked ManifestSystem.step (callerCheck [(1, 1), (1, 2)]) ManifestSystem.init
      retriedRun).any (fun s => decide (s.store.history = retriedHistory) &&
        s.completions.any fun c => decide (c.author = retriedAuthor ∧ c.cachedAt = 3 ∧
          c.startedAt = 6 ∧
          c.outcome = .error (.invalidManifest (.foldChecksum none 7)))) = true := by
    decide +kernel
  obtain ⟨s, hs, hfacts⟩ := exists_reaches (fun _ _ => callerOk_of_check) hrun
  simp only [Bool.and_eq_true, decide_eq_true_eq, List.any_eq_true] at hfacts
  refine ⟨s, hs, ?_, hfacts⟩
  simp only [Store.current, hfacts.1, retriedHistory, List.head?_cons, Option.map_some]

/-- The claim is still current and the fold was applied, only the maintenance handle changed the
register since, and the writer's retry fails. -/
theorem foldPending_after_removal :
    ∃ s r, Reaches ManifestSystem.step CallerOk ManifestSystem.init s ∧
    FoldRun s.store.history retriedAuthor retriedFold 3 4 ∧
    s.store.current = some r ∧ r.OwnedBy retriedAuthor.handle ∧
    ∃ c ∈ s.completions, c.author = retriedAuthor ∧ 4 ≤ c.startedAt ∧ 3 ≤ c.cachedAt ∧
      c.outcome = .error (.invalidManifest (.foldChecksum none 7)) := by
  obtain ⟨s, hs, hcur, hhist, c, hc, hauthor, hcached, hstarted, hout⟩ := exists_retriedRun
  exact ⟨s, retriedLast, hs, hhist ▸ foldRun_retriedHistory (List.drop_suffix _ _) List.suffix_rfl,
    hcur, ⟨rfl, rfl⟩, c, hc, hauthor, by omega, by omega, hout⟩

/-- The hypotheses hold before the entry is removed, where the writer's retry returns `Ok`, and at
the end of that run, where the entry is gone and a retry fails. -/
theorem foldPending_retry_removed : (∃ s r m,
    Reaches ManifestSystem.step CallerOk ManifestSystem.init s ∧
    FoldRun s.store.history retriedAuthor retriedFold 3 4 ∧ s.store.current = some r ∧
    r.trunc = 1 ∧ s.handles[0]? = some (.idle m) ∧
    ∃ n m', (storeMachine retriedAuthor).run s.store (m.foldPending retriedFold : Prog StoreOp 0 _)
      (List.replicate n (.op .answered)) = some (s.store, .ret (m', .ok ()))) ∧
    ∃ s r, Reaches ManifestSystem.step CallerOk ManifestSystem.init s ∧
    FoldRun s.store.history retriedAuthor retriedFold 3 4 ∧ s.store.current = some r ∧
    r.OwnedBy retriedAuthor.handle ∧
    ¬ ∀ m, HandleOk s.store m → Author.of m (.foldPending retriedFold) = retriedAuthor →
      3 ≤ m.version → ∃ n m', (storeMachine retriedAuthor).run s.store
        (m.foldPending retriedFold : Prog StoreOp 0 _) (List.replicate n (.op .answered)) =
        some (s.store, .ret (m', .ok ())) := by
  constructor
  · have hchecked : (runChecked ManifestSystem.step (callerCheck [(1, 1), (1, 2)])
        ManifestSystem.init appliedRun).any (fun s =>
          s.handles[0]?.any (appliedCheck s)) = true := by
      decide +kernel
    obtain ⟨s, hs, hfacts⟩ := exists_reaches (fun _ _ => callerOk_of_check) hchecked
    obtain ⟨state, hi, hfacts⟩ := (Option.any_eq_true _ _).1 hfacts
    cases state with
    | idle m =>
      obtain ⟨hhist, hauthor, hcached⟩ := of_decide_eq_true hfacts
      have hrun : FoldRun s.store.history retriedAuthor retriedFold 3 4 :=
        hhist ▸ foldRun_retriedHistory (List.suffix_cons _ _) (List.drop_suffix _ _)
      have hcur : s.store.current = some { foldRecord retriedFold retriedFrom with
          trunc := 1 } := by
        rw [Store.current, hhist]
        rfl
      have hretry := foldPending_retry hs hrun hcur
      exact ⟨s, _, m, hs, hrun, hcur, rfl, hi,
        hretry.2.2.2.2 (by decide) m ((SystemInv.of_reaches hs).idle 0 m hi) hauthor hcached⟩
    | busy => cases hfacts
    | closed => cases hfacts
  · obtain ⟨s, hs, hcur, hhist, -⟩ := exists_retriedRun
    have hrun : FoldRun s.store.history retriedAuthor retriedFold 3 4 :=
      hhist ▸ foldRun_retriedHistory (List.drop_suffix _ _) List.suffix_rfl
    have hretry := foldPending_retry hs hrun hcur
    exact ⟨s, _, hs, hrun, hcur, hretry.1, fun hall => List.not_mem_nil (hretry.2.2.2.1 hall)⟩

end Chorus
