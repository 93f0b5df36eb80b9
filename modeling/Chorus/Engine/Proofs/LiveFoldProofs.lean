import Chorus.Engine.Proofs.LiveNamesProofs

/-!
# Live folds match the register

Every fold call of the incarnation is the one that its worker or its shutdown seal waits for. With
the agreement between the writer and the register this says what each call finds there, and what it
answers.
-/

namespace Chorus

open Concurrency RecordFrame ManifestRecord

variable {n start : Nat} {crc : Bytes → Nat} {sha256 : Bytes → String} {config : WalEngineConfig}
  {s s' : LiveWal n} {e : Engine n} {fold? : Option PendingFold} {since : Nat}
  {before : List Completion} {manifest : ManifestSystem} {act : ManifestSystem.Action}

/-! ## The calls of the incarnation -/

/-- The fold calls of the incarnation are accounted for; `before` are the calls that had returned
when the engine started. -/
structure LiveWal.CallsInv (before : List Completion) (s : LiveWal n) : Prop where
  idle : s.engine.phase ≠ .stopped → s.engine.spareRequested = none → s.worker = .idle
  running : ∀ i c p, s.manifest.handles[i]? = some (.busy c p) →
    c.author.handle.owner = s.claim.owner →
    c.author.call.isHousekeeping = true ∨ s.worker = .folding i ∨ s.shutdownSeal = .folding i
  returned : ∃ recent, s.manifest.completions = recent ++ before ∧ ∀ c ∈ recent,
    c.author.handle.owner = s.claim.owner → c.author.call.isHousekeeping = true ∨ c ∈ s.answers

namespace LiveWal.CallsInv

/-- A call that runs after a step of the register ran before, or was started by the step. -/
theorem running_of_step (h : s.CallsInv before) (hs : s.manifest.step act = some manifest)
    (hopen : ∀ owner, act.opens? = some owner → owner ≠ s.claim.owner)
    {i : Nat} {c : Running} {p : Prog StoreOp 0 (Manifest × Except ProtocolError Unit)}
    (hi : manifest.handles[i]? = some (.busy c p))
    (howner : c.author.handle.owner = s.claim.owner) :
    (c.author.call.isHousekeeping = true ∨ s.worker = .folding i ∨ s.shutdownSeal = .folding i) ∨
      ∃ call m, act = .call i call ∧ s.manifest.handles[i]? = some (.idle m) ∧
        m.owner = s.claim.owner ∧ c.author.call = call := by
  cases ManifestSystem.nextHandle hs hi with
  | kept hi => exact .inl (h.running i c p hi howner)
  | opened hact =>
    subst hact
    exact absurd howner (hopen _ rfl)
  | called hact hidle => exact .inr ⟨_, _, hact, hidle, howner, rfl⟩
  | stepped hi => exact .inl (h.running i c _ hi howner)

/-- A step of the register that neither starts nor ends a fold of the incarnation. -/
theorem register (h : s.CallsInv before) (hs : s.manifest.step act = some manifest)
    (hcall : ∀ i call m, act = .call i call → s.manifest.handles[i]? = some (.idle m) →
      m.owner = s.claim.owner → call.isHousekeeping = true)
    (hfinish : ∀ i, act = .finish i → s.worker ≠ .folding i ∧ s.shutdownSeal ≠ .folding i)
    (hopen : ∀ owner, act.opens? = some owner → owner ≠ s.claim.owner) :
    ({ s with manifest := manifest } : LiveWal n).CallsInv before := by
  obtain ⟨recent, hrecent, hreturned⟩ := h.returned
  refine ⟨h.idle, fun i c p hi howner => ?_, ?_⟩
  · rcases h.running_of_step hs hopen hi howner with hold | ⟨call, m, hact, hidle, hm, rfl⟩
    · exact hold
    · exact .inl (hcall i _ m hact hidle hm)
  · rcases ManifestSystem.completions_cases hs with hsame | ⟨i, c', m, outcome, hact, hi, -, hadded⟩
    · exact ⟨recent, hsame.trans hrecent, hreturned⟩
    · refine ⟨_ :: recent, hadded.trans (congrArg _ hrecent), fun c hc howner => ?_⟩
      rcases List.mem_cons.1 hc with rfl | hc
      · rcases h.running i c' _ hi howner with hcall | hworker | hseal
        · exact .inl hcall
        · exact absurd hworker (hfinish i hact).1
        · exact absurd hseal (hfinish i hact).2
      · exact hreturned c hc howner

theorem callFold (h : s.CallsInv before) {handle : Nat} {fold : PendingFold}
    {worker : ProvisionWorker} {shutdownSeal : ShutdownSeal}
    (hs : s.manifest.step (.call handle (.foldPending fold)) = some manifest)
    (hidle : s.engine.phase ≠ .stopped → s.engine.spareRequested = none → worker = .idle)
    (hworker : ∀ i, s.worker = .folding i → worker = .folding i)
    (hseal : ∀ i, s.shutdownSeal = .folding i → shutdownSeal = .folding i)
    (hhandle : worker = .folding handle ∨ shutdownSeal = .folding handle)
    (requests : List FoldRequest) :
    ({ s with
      manifest := manifest
      worker := worker
      shutdownSeal := shutdownSeal
      requests := requests } : LiveWal n).CallsInv before := by
  obtain ⟨recent, hrecent, hreturned⟩ := h.returned
  refine ⟨hidle, fun i c p hi howner => ?_, ?_⟩
  · rcases h.running_of_step hs (fun _ hact => by cases hact) hi howner with hold |
      ⟨call, m, hact, -⟩
    · exact hold.imp_right fun hheld => hheld.imp (hworker i) (hseal i)
    · cases hact
      exact .inr hhandle
  · rcases ManifestSystem.completions_cases hs with hsame | ⟨i, c', m, outcome, hact, -⟩
    · exact ⟨recent, hsame.trans hrecent, hreturned⟩
    · cases hact

/-- A step that leaves the register alone and ends no fold. -/
theorem move (h : s.CallsInv before) (hmanifest : s'.manifest = s.manifest)
    (hclaim : s'.claim = s.claim) (hworker : ∀ i, s.worker = .folding i → s'.worker = .folding i)
    (hseal : ∀ i, s.shutdownSeal = .folding i → s'.shutdownSeal = .folding i)
    (hanswers : s'.answers = s.answers)
    (hidle : s'.engine.phase ≠ .stopped → s'.engine.spareRequested = none → s'.worker = .idle) :
    s'.CallsInv before := by
  refine ⟨hidle, ?_, ?_⟩
  · rw [hmanifest, hclaim]
    exact fun i c p hi howner => (h.running i c p hi howner).imp_right fun hheld =>
      hheld.imp (hworker i) (hseal i)
  · rw [hmanifest, hclaim, hanswers]
    exact h.returned

theorem steady (h : s.CallsInv before) {writing : Bool}
    (hsteady : Engine.Steady crc writing s.engine e) (prefixes : Nat → AdmittedPrefix)
    (names : Option SwapNames) :
    ({ s with engine := e, prefixes := prefixes, names := names } : LiveWal n).CallsInv before := by
  refine h.move rfl rfl (fun _ => id) (fun _ => id) rfl fun hphase hnone => ?_
  obtain ⟨segments, hview, -⟩ := hsteady.view
  have hrequested : e.spareRequested = s.engine.spareRequested :=
    congrArg WriterView.requested hview
  exact h.idle (fun hstopped => hphase (hsteady.stopped hstopped)) (hrequested ▸ hnone)

theorem finishFold (h : s.CallsInv before) {handle : Nat} {c : Completion}
    {worker : ProvisionWorker} {shutdownSeal : ShutdownSeal}
    (hs : s.manifest.step (.finish handle) = some manifest)
    (hc : manifest.completions.head? = some c)
    (hidle : s.engine.phase ≠ .stopped → s.engine.spareRequested = none → worker = .idle)
    (hworker : ∀ i, i ≠ handle → s.worker = .folding i → worker = .folding i)
    (hseal : ∀ i, i ≠ handle → s.shutdownSeal = .folding i → shutdownSeal = .folding i) :
    ({ s with
      manifest := manifest
      worker := worker
      shutdownSeal := shutdownSeal
      answers := c :: s.answers } : LiveWal n).CallsInv before := by
  obtain ⟨running, m, outcome, hi, -, hcompletions, -⟩ := ManifestSystem.finish_cases hs
  rw [hcompletions, List.head?_cons, Option.some.injEq] at hc
  subst hc
  obtain ⟨recent, hrecent, hreturned⟩ := h.returned
  refine ⟨hidle, fun i c p hi' howner => ?_, _ :: recent, hcompletions.trans (congrArg _ hrecent),
    fun c hc howner => ?_⟩
  · have hne : i ≠ handle := by
      rintro rfl
      simp only [ManifestSystem.step, hi, Option.some.injEq] at hs
      subst hs
      simp only [List.getElem?_set_self (List.getElem?_eq_some_iff.1 hi).1,
        Option.some.injEq] at hi'
      split_ifs at hi'
    rcases h.running_of_step hs (fun _ hact => by cases hact) hi' howner with hold |
      ⟨call, m, hact, -⟩
    · exact hold.imp_right fun hheld => hheld.imp (hworker i hne) (hseal i hne)
    · cases hact
  · rcases List.mem_cons.1 hc with rfl | hc
    · exact .inr List.mem_cons_self
    · exact (hreturned c hc howner).imp_right (List.mem_cons_of_mem _)

theorem provision (h : s.CallsInv before) (hphase : s.engine.phase = .provision)
    {parts : Except ProtocolError Unit} {sent : Bool}
    (hs : s.followProvision (s.engine.provision parts sent) parts sent = some s') :
    s'.CallsInv before := by
  have hfrom : s.engine.phase ≠ .stopped := by simp [hphase]
  have hcases := @Engine.provision_cases n (fun _ => 0) s.engine hphase parts sent
  unfold followProvision at hs
  split at hs
  · rename_i hfree
    split at hs
    · rename_i attempt hattempt
      split at hs
      · rename_i m manifest hi hclone
        have hnone : s.engine.spareRequested = none := by
          simp only [Bool.and_eq_true, Option.isNone_iff_eq_none] at hfree
          exact hfree.1
        have hworker := h.idle hfrom hnone
        obtain ⟨s₁, hs₁, rfl⟩ := Option.map_eq_some_iff.1 hs
        -- what was requested changes first
        have hrequested :
            ({ s with engine := s.engine.provision (.ok ()) sent } : LiveWal n).CallsInv before :=
          h.move rfl rfl (fun _ => id) (fun _ => id) rfl fun _ _ => hworker
        have hcloned := hrequested.register hclone (fun _ _ _ hact => by cases hact)
            (fun _ hact => by cases hact)
          fun _ hact => by cases hact
        rw [Engine.provision_eq hfree hattempt] at hcloned ⊢
        cases attempt with
        | registered | unregistered =>
          cases hs₁
          cases sent with
          | false => exact hcloned.move rfl rfl (fun _ => id) (fun _ => id) rfl fun _ _ => hworker
          | true =>
            refine hcloned.move rfl rfl (fun i hfolding => ?_)
              (fun _ => id) rfl fun _ hnone => by cases hnone
            rw [show s.worker = .folding i from hfolding] at hworker
            cases hworker
        | fold =>
          simp only [LiveWal.attempt] at hs₁
          split at hs₁
          · cases hs₁
          · cases sent with
            | false =>
              cases hs₁
              exact hcloned.move rfl rfl (fun _ => id) (fun _ => id) rfl fun _ _ => hworker
            | true =>
              obtain ⟨manifest', hcall, rfl⟩ := Option.map_eq_some_iff.1 hs₁
              refine hcloned.callFold hcall (fun _ hnone => by cases hnone)
                (fun i hfolding => ?_) (fun _ => id) (.inl rfl) _
              rw [show s.worker = .folding i from hfolding] at hworker
              cases hworker
      · cases hs
        rcases hcases with ⟨hsteady, -⟩ | ⟨-, -, -, -, hparts, -⟩
        · exact h.steady hsteady s.prefixes s.names
        · cases hparts
      · cases hs
    · rename_i hnone
      cases hs
      rcases hcases with ⟨hsteady, -⟩ | ⟨-, -, attempt, hattempt, -⟩
      · exact h.steady hsteady s.prefixes s.names
      · exact absurd hattempt (hnone attempt)
  · rename_i hbusy
    cases hs
    rcases hcases with ⟨hsteady, -⟩ | ⟨hrequested, hretry, -⟩
    · exact h.steady hsteady s.prefixes s.names
    · simp [hrequested, hretry] at hbusy

theorem swap (h : s.CallsInv before) (hphase : s.engine.phase = .swap)
    (hdue : s.engine.rotation = .due) : (s.followSwap sha256 s.engine.swap).CallsInv before := by
  have hfrom : s.engine.phase ≠ .stopped := by simp [hphase]
  have hidle : s.engine.swap.phase ≠ .stopped → s.engine.swap.spareRequested = none →
      s.worker = .idle := by
    intro _ hnone
    refine h.idle hfrom ?_
    rcases @Engine.swap_cases n (fun _ => 0) s.engine hphase hdue with
      ⟨hsteady, -⟩ | ⟨pending, successor, -, -, hview⟩
    · obtain ⟨segments, hview, -⟩ := hsteady.view
      exact (congrArg WriterView.requested hview).symm.trans hnone
    · exact (congrArg WriterView.requested hview).symm.trans hnone
  unfold followSwap
  split
  · exact h.move rfl rfl (fun _ => id) (fun _ => id) rfl hidle
  · exact h.move rfl rfl (fun _ => id) (fun _ => id) rfl hidle

theorem provisioned (h : s.CallsInv before) {outcome : ProvisionOutcome n}
    (hanswered : Engine.Answered crc s.engine e outcome)
    (hs : s.followProvisioned e outcome = some s') : s'.CallsInv before := by
  have hdone : ∀ {worker : ProvisionWorker}, s.worker = worker → (∀ i, worker ≠ .folding i) →
      ∀ (ids : Nat → SegmentId) (names : Option SwapNames),
        ({ s with engine := e, ids := ids, names := names, worker := .idle } : LiveWal n).CallsInv
          before := by
    intro worker hworker hne ids names
    refine h.move rfl rfl (fun i hfolding => ?_) (fun _ => id) rfl fun _ _ => rfl
    exact absurd (hworker.symm.trans hfolding) (hne i)
  unfold followProvisioned at hs
  split at hs
  · rename_i hworker
    simp only [LiveWal.installUpdate, Option.map_map, Option.map_eq_some_iff] at hs
    obtain ⟨manifest, hinstall, rfl⟩ := hs
    exact (hdone hworker (fun _ heq => by cases heq) _ s.names).register hinstall
      (fun _ _ _ hact => by cases hact) (fun _ hact => by cases hact) fun _ hact => by cases hact
  · rename_i hworker
    cases hs
    exact hdone hworker (fun _ heq => by cases heq) _ s.names
  · rename_i hworker
    simp only [LiveWal.installUpdate, Option.map_map, Option.map_eq_some_iff] at hs
    obtain ⟨manifest, hinstall, rfl⟩ := hs
    exact (hdone hworker (fun _ heq => by cases heq) s.ids none).register hinstall
      (fun _ _ _ hact => by cases hact) (fun _ hact => by cases hact) fun _ hact => by cases hact
  · rename_i hworker
    cases hs
    exact hdone hworker (fun _ heq => by cases heq) s.ids s.names
  · rename_i hworker
    split_ifs at hs
    cases hs
    exact hdone hworker (fun _ heq => by cases heq) s.ids s.names
  · cases hs
    refine h.move rfl rfl (fun _ => id) (fun _ => id) rfl fun hphase => ?_
    cases hanswered with
    | stopped _ hstopped => exact absurd hstopped hphase
  · cases hs

theorem follow (h : s.CallsInv before) (hlive : LiveInv s fold? since)
    (hs : s.Follows crc config sha256 e s') : s'.CallsInv before := by
  have hkept : ∀ {writing} (prefixes : Nat → AdmittedPrefix), Engine.Steady crc writing s.engine e →
      ({ s with engine := e, prefixes := prefixes } : LiveWal n).CallsInv before :=
    fun prefixes hsteady => h.steady hsteady prefixes s.names
  cases hs with
  | kept hsteady => exact hkept s.prefixes hsteady
  | rechecked hsteady hfinish =>
    refine (hkept s.prefixes hsteady).register hfinish (fun _ _ _ hact => (by cases hact))
      (fun i hact => ?_) fun _ hact => (by cases hact)
    cases hact
    exact ⟨fun hworker => hlive.worker.ne_self (congrArg ProvisionWorker.handle? hworker) rfl,
      fun hseal => (hlive.shutdownSeal.ne_self (congrArg ShutdownSeal.handle? hseal)).1 rfl⟩
  | sealing hphase hsteady =>
    have hmoved := hkept s.prefixes hsteady
    refine hmoved.move rfl rfl (fun _ => id) (fun i hseal => ?_) rfl hmoved.idle
    have hoff := hlive.seal_off (by simp [hphase])
    rw [show s.shutdownSeal = .folding i from hseal] at hoff
    cases hoff
  | reserved hsteady | sent hsteady => exact hkept _ hsteady
  | provision hphase he hs => exact h.provision hphase (he ▸ hs)
  | swap hphase he => exact he ▸ h.swap hphase (hlive.writer.swapping hphase)
  | provisioned _ hanswered hs => exact h.provisioned hanswered hs

theorem step (h : s.CallsInv before) (hlive : LiveInv s fold? since) {action : LiveWal.Action n}
    (hs : s.step crc sha256 config action = some s') : s'.CallsInv before := by
  cases action with
  | engine action =>
    obtain ⟨e, he, hfollow⟩ := Option.bind_eq_some_iff.1 hs
    exact h.follow hlive (.of_step he hfollow)
  | hash i =>
    cases hs
    exact h.move rfl rfl (fun _ => id) (fun _ => id) rfl h.idle
  | refresh =>
    simp only [LiveWal.step] at hs
    split at hs
    · split_ifs at hs
      obtain ⟨manifest, hcall, rfl⟩ := Option.map_eq_some_iff.1 hs
      refine h.register hcall (fun i call m hact _ _ => ?_)
        (fun _ hact => by cases hact) fun _ hact => by cases hact
      cases hact
      rfl
    · cases hs
  | register =>
    simp only [LiveWal.step] at hs
    split at hs
    · rename_i hworker
      have hok := hlive.worker
      rw [hworker] at hok
      cases hok
    · cases hs
  | finishWork =>
    simp only [LiveWal.step, LiveWal.finishWork] at hs
    split at hs
    · rename_i hworker
      have hok := hlive.worker
      rw [hworker] at hok
      cases hok
    · rename_i handle hworker
      obtain ⟨manifest, hfinish, hs⟩ := Option.bind_eq_some_iff.1 hs
      split at hs
      · cases hs
      · rename_i c hc
        cases hs
        refine h.finishFold hfinish hc (fun hphase hnone => ?_)
          (fun i hne hfolding => ?_) fun _ _ => id
        · have hidle := h.idle hphase hnone
          rw [hworker] at hidle
          cases hidle
        · rw [hworker, ProvisionWorker.folding.injEq] at hfolding
          exact absurd hfolding.symm hne
    · cases hs
  | sealRefill =>
    simp only [LiveWal.step, LiveWal.sealRefill] at hs
    split at hs
    · rename_i hseal _
      split_ifs at hs
      obtain ⟨manifest, hclone, rfl⟩ := Option.map_eq_some_iff.1 hs
      have hcloned := h.register hclone (fun _ _ _ hact => by cases hact)
          (fun _ hact => by cases hact)
        fun _ hact => by cases hact
      refine hcloned.move rfl rfl (fun _ => id) (fun i hfolding => ?_) rfl hcloned.idle
      rw [show s.shutdownSeal = .folding i from hfolding] at hseal
      cases hseal
    · cases hs
  | sealFold =>
    simp only [LiveWal.step, LiveWal.sealFold] at hs
    split at hs
    · rename_i hseal
      have hnot : ∀ {shutdownSeal : ShutdownSeal} (i : Nat), s.shutdownSeal = .folding i →
          shutdownSeal = .folding i := by
        intro shutdownSeal i hfolding
        rw [hfolding] at hseal
        cases hseal
      split at hs
      · obtain ⟨manifest, hcall, rfl⟩ := Option.map_eq_some_iff.1 hs
        have hcalled := h.callFold hcall h.idle (fun _ => id) hnot (.inr rfl) s.requests
        exact hcalled.move rfl rfl (fun _ => id) (fun _ => id) rfl h.idle
      · cases hs
        exact h.move rfl rfl (fun _ => id) hnot rfl h.idle
    · cases hs
  | finishSeal =>
    simp only [LiveWal.step, LiveWal.finishSeal] at hs
    split at hs
    · rename_i handle hseal
      obtain ⟨manifest, hfinish, hs⟩ := Option.bind_eq_some_iff.1 hs
      split at hs
      · cases hs
      · rename_i c hc
        cases hs
        refine h.finishFold hfinish hc h.idle (fun _ _ => id) fun i hne hfolding => ?_
        rw [hseal, ShutdownSeal.folding.injEq] at hfolding
        exact absurd hfolding.symm hne
    · cases hs
  | manifest action =>
    obtain ⟨hpermits, hs⟩ := Option.ite_none_right_eq_some.1 hs
    obtain ⟨manifest, hstep, rfl⟩ := Option.map_eq_some_iff.1 hs
    refine h.register hstep ?_ ?_ (opens_of_permits hpermits)
    · rintro i call m rfl hi howner
      simp only [LiveWal.permits, hi, Bool.and_eq_true, Bool.or_eq_true, bne_iff_ne] at hpermits
      exact hpermits.2.resolve_left fun hne => hne howner
    · rintro i rfl
      constructor
      · intro hworker
        simp [LiveWal.permits, LiveWal.holds, hworker, ProvisionWorker.handle?] at hpermits
      · intro hseal
        simp [LiveWal.permits, LiveWal.holds, hseal, ShutdownSeal.handle?] at hpermits

end LiveWal.CallsInv

/-! ## Runs -/

namespace LiveWal

def Current (s : LiveWal n) : Prop := s.manifest.Owned s.claim

/-- What recovery hands over: a fresh engine, the manifest handle that validated its claim last, and
the frontier that the register shows. A fold that recovery has deferred comes without a writer, and
the active segment is its successor. The calls of the incarnation have returned, and what is left of
its requests was overtaken. -/
structure Handover (s : LiveWal n) : Prop where
  reachable : Reaches ManifestSystem.step (fun _ _ => True) ManifestSystem.init s.manifest
  handle : ∃ m, s.manifest.handles[s.self]? = some (.idle m) ∧ m.claimed = s.claim ∧ m.epoch ≠ 0 ∧
    m.version = s.manifest.store.version ∧ m.record.frontier = s.frontier
  alone : ∀ (i : Nat) (c : Running) (p : Prog StoreOp 0 (Manifest × Except ProtocolError Unit)),
    s.manifest.handles[i]? = some (.busy c p) → c.author.handle.owner ≠ s.claim.owner
  overtaken : ∀ q ∈ s.manifest.store.inflight, ∀ b, q.author = some b →
    b.handle.owner = s.claim.owner → q.version < s.manifest.store.version
  engine : ∃ base room active spare recoveredFold,
    s.engine = Engine.init base room active spare recoveredFold ∧
    ∀ swap, recoveredFold = some swap → swap.writer = none ∧ base = swap.endRecordIndex + 1 ∧
      ∃ names, s.names = some names ∧ names.successorId = s.ids 0
  prefixes : s.prefixes = fun _ => .empty
  worker : s.worker = .idle
  shutdownSeal : s.shutdownSeal = .off
  requests : s.requests = []
  answers : s.answers = []

namespace Handover

theorem engineInv (h : s.Handover) (crc : Bytes → Nat) : ∃ start, EngineInv crc start s.engine := by
  obtain ⟨base, room, active, spare, recoveredFold, hengine, -⟩ := h.engine
  rw [hengine]
  exact ⟨base, .of_init crc base room active spare recoveredFold⟩

theorem writerOk (h : s.Handover) : s.WriterOk := by
  obtain ⟨base, room, active, spare, recoveredFold, hengine, hfold⟩ := h.engine
  refine ⟨?_, ?_, ?_, ?_, ?_, fun hne => absurd h.shutdownSeal hne⟩
  all_goals rw [hengine]
  · nofun
  · intro swap hswap
    cases recoveredFold with
    | none => cases hswap
    | some recovered =>
      cases hswap
      obtain ⟨-, hbase, names, hnames, hsuccessor⟩ := hfold swap rfl
      exact ⟨names, hnames, hsuccessor, hbase⟩
  · intro hnone
    cases recoveredFold with
    | none => rfl
    | some swap => cases hnone
  · intro hsome
    cases recoveredFold with
    | none => cases hsome
    | some swap => rfl
  · nofun

theorem liveInv (h : s.Handover) (hcur : s.Current) : LiveInv s none s.manifest.store.version := by
  obtain ⟨m, hi, hclaimed, hepoch, hversion, hfrontier⟩ := h.handle
  have hsystem : SystemInv s.manifest := .of_reaches h.reachable
  obtain ⟨a, hentry⟩ := (hsystem.idle s.self m hi).cached
  rw [hversion] at hentry
  -- the register ends with the document that the handle has cached
  have hlast : ∀ v r a, s.manifest.store.version ≤ v →
      History.Entry s.manifest.store.history v r a → r = m.record := by
    intro v r a hv hother
    have heq : v = s.manifest.store.version := Nat.le_antisymm hother.le_length hv
    subst heq
    exact (hother.unique hentry).1
  have hcurrent : m.record.OwnedBy s.claim := by
    obtain ⟨a', rest, hhistory⟩ := Store.At.eq_history ⟨a, hentry⟩
    exact hcur m.record (by simp [Store.current, hhistory])
  have hera : Era s.manifest.store.history s.claim s.frontier none s.manifest.store.version :=
    { derived := hsystem.store.derived
      pos := hentry.pos
      reached := Nat.le_refl _
      owned := fun v r a hv hother => hlast v r a hv hother ▸ hcurrent
      first := fun r a hother => hlast _ r a (Nat.le_refl _) hother ▸ hfrontier
      shown := fun v r a hv hother => .inl (hlast v r a hv hother ▸ hfrontier)
      names := fun _ hnone => by cases hnone }
  refine ⟨h.writerOk, ?_, ⟨hsystem, hera, fun i c p hbusy howner => ?_, fun q hq b hb => ?_⟩, ?_,
    fun _ hnone => ?_, ?_, ?_, ?_⟩
  · rw [← hclaimed]
    exact hepoch
  · exact absurd howner (h.alone i c p hbusy)
  · by_cases howner : b.handle.owner = s.claim.owner
    · exact .inr (h.overtaken q hq b hb howner)
    · exact .inl fun hsame => absurd hsame howner
  · exact .inl ⟨m, hi, hclaimed, hversion.ge⟩
  · cases hnone
  · rw [h.worker]
    exact .idle
  · rw [h.shutdownSeal]
    exact .off
  · rw [h.answers]
    intro c hc
    cases hc

theorem namesInv (h : s.Handover) : s.NamesInv sha256 := by
  obtain ⟨base, room, active, spare, recoveredFold, hengine, hfold⟩ := h.engine
  refine ⟨?_, ?_, fun i => ?_, ?_, ?_, fun hne => absurd h.shutdownSeal hne⟩
  · rw [hengine]
    exact Nat.zero_lt_two
  · intro spare hspare
    rw [hengine] at hspare ⊢
    cases hspare
    exact Nat.one_lt_two
  · rw [h.prefixes, hengine]
    exact .empty
  · intro swap names i hswap hnames hwriter
    rw [hengine] at hswap
    cases recoveredFold with
    | none => cases hswap
    | some recovered =>
      cases hswap
      rw [(hfold _ rfl).1] at hwriter
      cases hwriter
  · rw [h.requests]
    intro request hmem
    cases hmem

theorem callsInv (h : s.Handover) : s.CallsInv s.manifest.completions :=
  ⟨fun _ _ => h.worker, fun i c p hi howner => absurd howner (h.alone i c p hi), [], rfl,
    fun c hc => by cases hc⟩

end Handover

/-- What the writer does along with a step of the engine does not change the engine. -/
theorem Follows.engine_eq (hs : s.Follows crc config sha256 e s') : s'.engine = e := by
  cases hs with
  | kept | rechecked | sealing | reserved | sent => rfl
  | provision _ _ hs => exact (followProvision_cases hs).1
  | swap =>
    unfold followSwap
    split
    · rfl
    · rfl
  | provisioned _ _ hs => exact (followProvisioned_cases hs).1

theorem engine_step {action : LiveWal.Action n} (hs : s.step crc sha256 config action = some s') :
    s'.engine = s.engine ∨ ∃ act, s.engine.step crc config act = some s'.engine := by
  cases action with
  | engine action =>
    obtain ⟨e, he, hfollow⟩ := Option.bind_eq_some_iff.1 hs
    exact .inr ⟨action, he.trans (congrArg some (Follows.of_step he hfollow).engine_eq.symm)⟩
  | hash i =>
    cases hs
    exact .inl rfl
  | sealFold =>
    simp only [LiveWal.step, LiveWal.sealFold] at hs
    split at hs
    · split at hs
      · obtain ⟨manifest, -, rfl⟩ := Option.map_eq_some_iff.1 hs
        exact .inl rfl
      · cases hs
        exact .inl rfl
    · cases hs
  | _ => exact .inl (unchanged_of_step hs (by simp) (by simp) (by simp)).1

end LiveWal

structure LiveWal.RunInv (crc : Bytes → Nat) (sha256 : Bytes → String) (before : List Completion)
    (s : LiveWal n) : Prop where
  engine : ∃ start, EngineInv crc start s.engine
  live : s.Current → ∃ fold? since, LiveInv s fold? since
  names : s.NamesInv sha256
  calls : s.CallsInv before

theorem LiveWal.RunInv.of_reaches {s₀ : LiveWal n} (h₀ : s₀.Handover)
    (hrun : Reaches (LiveWal.step crc sha256 config) (fun s _ => s.Current) s₀ s) :
    s.RunInv crc sha256 s₀.manifest.completions := by
  refine hrun.invariant ⟨h₀.engineInv crc, fun hcur => ⟨none, _, h₀.liveInv hcur⟩, h₀.namesInv,
    h₀.callsInv⟩ ?_
  intro s s' action h hcur hs
  obtain ⟨start, hinv⟩ := h.engine
  obtain ⟨fold?, since, hlive⟩ := h.live hcur
  refine ⟨⟨start, ?_⟩, hlive.step hinv hcur hs, h.names.step hlive hinv hs, h.calls.step hlive hs⟩
  rcases LiveWal.engine_step hs with hsame | ⟨act, hact⟩
  · rw [hsame]
    exact hinv
  · exact hinv.step hact

/-- The records of a segment are durable on a quorum of its lanes. -/
def SegmentWriter.AllDurable (writer : SegmentWriter n) : Prop :=
  ∃ lanes : Finset (Fin n), majority n ≤ lanes.card ∧ ∀ z ∈ lanes,
    (streamBytes writer.segment.stream).length ≤ (writer.segment.commits.lanes z).durable ∧
      ∃ c, (writer.segment.slots z).copy = some c ∧ streamBytes writer.segment.stream <+: c.bytes

/-- As long as its claim is current, the folds of an engine find the register where they expect it:
with the frontier that they start from, or with their own outcome. None of them is fenced. The folds
that come from a swap name exactly the records that were admitted to the swapped-out segment, and
these are durable on a quorum of its lanes. -/
theorem live_folds_match {s₀ : LiveWal n} (h₀ : s₀.Handover)
    (hrun : Reaches (LiveWal.step crc sha256 config) (fun s _ => s.Current) s₀ s)
    (hcur : s.Current) :
    (∀ (i : Nat) (c : Running) (p : Prog StoreOp 0 (Manifest × Except ProtocolError Unit))
      (fold : PendingFold),
      s.manifest.handles[i]? = some (.busy c p) → c.author.handle.owner = s.claim.owner →
      c.author.call = .foldPending fold → (∃ request ∈ s.requests, request.fold = fold) ∧
        ∀ v r, c.cachedAt ≤ v → s.manifest.store.At v r → r.frontier = fold.before ∨
          FoldShown fold r) ∧
    (∃ recent, s.manifest.completions = recent ++ s₀.manifest.completions ∧
      ∀ c ∈ recent, c.author.handle.owner = s.claim.owner →
        ∀ fold, c.author.call = .foldPending fold → (∃ request ∈ s.requests, request.fold = fold) ∧
        (∀ v r, c.cachedAt ≤ v → v ≤ c.endedAt → s.manifest.store.At v r →
          r.frontier = fold.before ∨ FoldShown fold r) ∧
        ∀ reason, c.outcome ≠ .error (.fenced reason)) ∧
    ∀ request ∈ s.requests, request.Names sha256 s.engine s.ids ∧
      ∀ i, request.writer = some i → (s.engine.segments i).AllDurable := by
  obtain ⟨⟨start, hinv⟩, hlive, hnames, hcalls⟩ := LiveWal.RunInv.of_reaches h₀ hrun
  obtain ⟨fold?, since, hlive⟩ := hlive hcur
  refine ⟨fun i c p fold hi howner hcall => ?_, ?_,
    fun request hmem => ⟨hnames.requests request hmem, fun i hwriter => ?_⟩⟩
  · have hfolding : ∃ fold', fold? = some fold' ∧ s.manifest.Folding s.claim fold' since i := by
      rcases hcalls.running i c p hi howner with hkeeping | hworker | hseal
      · rw [hcall] at hkeeping
        cases hkeeping
      · have hok := hlive.worker
        rw [hworker] at hok
        cases hok with
        | folding _ hfold hfolding => exact ⟨_, hfold, hfolding⟩
      · have hok := hlive.shutdownSeal
        rw [hseal] at hok
        cases hok with
        | folding _ _ hfold hfolding => exact ⟨_, hfold, hfolding⟩
    obtain ⟨fold', rfl, c', p', hi', hcall', -, hcached, -⟩ := hfolding
    rw [hi, Option.some.injEq, HandleState.busy.injEq] at hi'
    obtain ⟨rfl, rfl⟩ := hi'
    rw [hcall, ManifestCall.foldPending.injEq] at hcall'
    subst hcall'
    refine ⟨(hlive.submitted fold rfl).1, ?_⟩
    rintro v r hv ⟨a, hentry⟩
    exact (hlive.era.era.found hentry (hcached.trans hv)).2
  · obtain ⟨recent, hrecent, hreturned⟩ := hcalls.returned
    refine ⟨recent, hrecent, fun c hc howner fold hcall => ?_⟩
    rcases hreturned c hc howner with hkeeping | hanswer
    · rw [hcall] at hkeeping
      cases hkeeping
    · obtain ⟨-, request, hmem, hcall', -, hfound, houtcome⟩ := hlive.answers c hanswer
      rw [hcall, ManifestCall.foldPending.injEq] at hcall'
      subst hcall'
      exact ⟨⟨request, hmem, rfl⟩, hfound, houtcome⟩
  · have hwrites := (hnames.requests request hmem).writer i hwriter
    have hpos : 0 < (s.engine.segments i).segment.stream.length :=
      List.length_pos_iff.2 hwrites.nonempty
    have hlt : (s.engine.segments i).segment.stream.length - 1 <
        (s.engine.segments i).segment.commits.committed := by
      rw [show (s.engine.segments i).segment.commits.committed = _ from hwrites.committed]
      omega
    have hdurable := (hinv.books.1.segments i).durable hlt
    rw [show s.engine.ledger.segments i = s.engine.segments i from rfl, Nat.sub_add_cancel hpos,
      List.take_length] at hdurable
    exact hdurable

/-- The state in which an incarnation that has registered its first spare hands its register to the
engine. -/
def handedOver (manifest : ManifestSystem) : LiveWal 3 where
  engine := .init 0 2 (fun _ => .lane) (fun _ => .lane) none
  manifest := manifest
  claim := ⟨1, "writer"⟩
  self := 0
  nextSegmentSeq := 2
  ids i := segmentId 1 i
  prefixes _ := .empty
  names := none
  worker := .idle
  shutdownSeal := .off
  requests := []
  answers := []

/-- One record fills the first segment, which is swapped out; a refill is created and the fold is
submitted. -/
def untilFold : List (Engine.Action 3) :=
  [.enqueueAppend 0 ⟨[1]⟩, .sendAppend] ++ dispatchOne ++
  [.segment 0 (.persist 0 5), .segment 0 (.publishDurable 0 5),
    .segment 0 (.persist 2 5), .segment 0 (.publishDurable 2 5), .wake .commitUpdate true,
    .drain, .progress, .complete, .complete, .progress, .recheck none, .provision (.ok ()) true,
    .checkSwap, .swap, .drain, .progress, .recheck none, .provision (.ok ()) true,
    .checkSwap, .checkShutdown, .window, .checkExit,
    .wake (.provisioned (.unregistered fun _ => .lane)) false, .drain, .progress, .recheck none,
    .provision (.ok ()) true]

/-- The answer of the first write is lost after it was applied, so the call reads again; then the
fold returns. -/
def liveRun : List (LiveWal.Action 3) :=
  untilFold.map .engine ++
  [.hash 0, .manifest (.step 2 (.op (.unavailable .applied))), .manifest (.step 2 (.op .answered)),
    .finishWork] ++
  [.engine .checkSwap, .engine .checkShutdown, .engine .window, .engine .checkExit,
    .engine (.wake (.provisioned (.folded 1)) false)]

def currentCheck (s : LiveWal 3) : Bool :=
  s.manifest.store.current.all fun r => decide (r.epoch = s.claim.epoch ∧ r.owner = s.claim.owner)

theorem current_of_check {s : LiveWal 3} (hcheck : currentCheck s = true) : s.Current := by
  intro r hr
  unfold currentCheck at hcheck
  rw [hr, Option.all_some, decide_eq_true_eq] at hcheck
  exact hcheck

/-- An executable form of what the hand-over asks of the register. -/
def handoverCheck (manifest : ManifestSystem) : Bool :=
  match manifest.handles, manifest.store.inflight with
  | [.idle m], [] =>
    decide (m.claimed = ⟨1, "writer"⟩ ∧ m.epoch ≠ 0 ∧ m.version = manifest.store.version ∧
      m.record.frontier = (handedOver manifest).frontier)
  | _, _ => false

theorem handover_of_check {manifest : ManifestSystem}
    (hreach : Reaches ManifestSystem.step (fun _ _ => True) ManifestSystem.init manifest)
    (hcheck : handoverCheck manifest = true) : (handedOver manifest).Handover := by
  unfold handoverCheck at hcheck
  split at hcheck
  · rename_i m hhandles hinflight
    have hfacts := of_decide_eq_true hcheck
    have hself : manifest.handles[0]? = some (.idle m) := by rw [hhandles]; rfl
    refine
      { reachable := hreach
        handle := ⟨m, hself, hfacts⟩
        alone := fun i c p hi => ?_
        overtaken := fun q hq => ?_
        engine := ⟨0, 2, fun _ => .lane, fun _ => .lane, none, rfl, fun _ hnone => by cases hnone⟩
        prefixes := rfl
        worker := rfl
        shutdownSeal := rfl
        requests := rfl
        answers := rfl }
    · change manifest.handles[i]? = _ at hi
      rw [hhandles] at hi
      cases i with
      | zero => cases hi
      | succ i => cases hi
    · change q ∈ manifest.store.inflight at hq
      rw [hinflight] at hq
      cases hq
  · cases hcheck

/-- A run after the hand-over, and what is checked at its end. -/
def liveCheck (as : List (LiveWal.Action 3)) (check : ManifestSystem → LiveWal 3 → Bool) : Bool :=
  (runChecked ManifestSystem.step (fun _ _ => true) ManifestSystem.init
    (registeredRun ["a", "b", "c"] 6144 3)).any fun manifest => handoverCheck manifest &&
      (runChecked (LiveWal.step crc32c (fun _ => "sha") smallSegments) (fun s _ => currentCheck s)
        (handedOver manifest) as).any fun s => currentCheck s && check manifest s

theorem exists_of_liveCheck {as : List (LiveWal.Action 3)}
    {check : ManifestSystem → LiveWal 3 → Bool} (h : liveCheck as check = true) :
    ∃ manifest s, (handedOver manifest).Handover ∧
      Reaches (LiveWal.step crc32c (fun _ => "sha") smallSegments) (fun s _ => s.Current)
        (handedOver manifest) s ∧ s.Current ∧ check manifest s = true := by
  obtain ⟨manifest, hreach, hfacts⟩ := exists_reaches (fun _ _ _ => trivial) h
  obtain ⟨hhandover, hlive⟩ := Bool.and_eq_true_iff.1 hfacts
  obtain ⟨s, hrun, hfacts⟩ := exists_reaches (fun _ _ => current_of_check) hlive
  obtain ⟨hcurrent, hcheck⟩ := Bool.and_eq_true_iff.1 hfacts
  exact ⟨manifest, s, handover_of_check hreach hhandover, hrun, current_of_check hcurrent, hcheck⟩

theorem live_folds_match_lost_answer : ∃ s₀ s : LiveWal 3, s₀.Handover ∧
    Reaches (LiveWal.step crc32c (fun _ => "sha") smallSegments)
      (fun s _ => s.Current) s₀ s ∧ s.Current ∧
    s.requests.map FoldRequest.writer = [some 0] ∧ (s.engine.segments 0).AllDurable ∧
    ∃ c ∈ s.manifest.completions, ∃ request ∈ s.requests,
      c.author.call = .foldPending request.fold ∧
      c.outcome = .ok () ∧ ∀ v r, c.cachedAt ≤ v → v ≤ c.endedAt → s.manifest.store.At v r →
        r.frontier = request.fold.before ∨ FoldShown request.fold r := by
  have hchecked : liveCheck liveRun (fun manifest s =>
      decide (s.requests.map FoldRequest.writer = [some 0]) &&
      s.requests.all fun request => match s.manifest.completions with
        | c :: rest => decide (rest.length = manifest.completions.length ∧
            c.author.handle.owner = s.claim.owner ∧ c.author.call = .foldPending request.fold ∧
            c.outcome = .ok ())
        | [] => false) = true := by
    decide +kernel
  obtain ⟨manifest, s, h₀, hreach, hcur, hfacts⟩ := exists_of_liveCheck hchecked
  simp only [Bool.and_eq_true, decide_eq_true_eq, List.all_eq_true] at hfacts
  obtain ⟨hwriters, hcompleted⟩ := hfacts
  obtain ⟨-, ⟨recent, hrecent, hreturned⟩, hrequests⟩ := live_folds_match h₀ hreach hcur
  obtain ⟨request, hrequest⟩ : ∃ request, s.requests = [request] := by
    refine List.length_eq_one_iff.1 ?_
    rw [← List.length_map FoldRequest.writer, hwriters]
    rfl
  have hmem : request ∈ s.requests := by rw [hrequest]; exact List.mem_singleton_self _
  have hwriter : request.writer = some 0 := by
    rw [hrequest] at hwriters
    exact List.head_eq_of_cons_eq hwriters
  have hcompletion := hcompleted request hmem
  split at hcompletion
  · rename_i c rest hcompletions
    obtain ⟨hlength, howner, hcall, houtcome⟩ := of_decide_eq_true hcompletion
    have hc : c ∈ recent := by
      rw [hcompletions] at hrecent
      cases recent with
      | nil =>
        have := congrArg List.length hrecent
        simp only [List.length_cons, List.nil_append] at this
        change rest.length + 1 = manifest.completions.length at this
        omega
      | cons c' recent =>
        rw [List.head_eq_of_cons_eq hrecent]
        exact List.mem_cons_self
    refine ⟨handedOver manifest, s, h₀, hreach, hcur, hwriters,
      (hrequests request hmem).2 0 hwriter, c, ?_, request, hmem, hcall, houtcome,
      (hreturned c hc howner request.fold hcall).2.1⟩
    rw [hcompletions]
    exact List.mem_cons_self
  · cases hcompletion

end Chorus
