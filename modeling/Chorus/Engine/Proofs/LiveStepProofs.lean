import Chorus.Engine.Proofs.LiveProofs

/-!
# Steps of a live engine

Each step of the writer, of the provisioning worker and of the shutdown seal keeps the agreement
with the register. A request for a fold begins the second half of an era, its confirmation the next
era; every other step stays in the era.
-/

namespace Chorus

open Concurrency ManifestRecord Manifest

variable {n : Nat} {crc : Bytes → Nat} {sha256 : Bytes → String} {config : WalEngineConfig}
  {s s' : LiveWal n} {e : Engine n} {writing : Bool} {fold? : Option PendingFold}
  {fold : PendingFold} {since self handle : Nat} {claim : WriterClaim}
  {manifest manifest' : ManifestSystem}

/-! ## Fold requests -/

section Request

theorem ProvisionWorker.Ok.request {worker : ProvisionWorker}
    (h : worker.Ok manifest claim self none since) : worker.Ok manifest claim self fold? since := by
  cases h with
  | idle => exact .idle
  | creating => exact .creating
  | folding _ hfold => cases hfold
  | folded _ hfold => cases hfold
  | failed => exact .failed

theorem ShutdownSeal.Ok.request {shutdownSeal : ShutdownSeal} {worker : ProvisionWorker}
    (h : shutdownSeal.Ok manifest claim self worker none since) :
    shutdownSeal.Ok manifest claim self worker fold? since := by
  cases h with
  | off => exact .off
  | ready => exact .ready
  | refilling hself hworker hidle => exact .refilling hself hworker hidle
  | folding _ _ hfold => cases hfold
  | ended => exact .ended

theorem ShutdownSeal.Ok.setWorker {shutdownSeal : ShutdownSeal} {worker worker' : ProvisionWorker}
    (h : shutdownSeal.Ok manifest claim self worker fold? since)
    (hne : ∀ handle, shutdownSeal.handle? = some handle → worker'.handle? ≠ some handle) :
    shutdownSeal.Ok manifest claim self worker' fold? since := by
  cases h with
  | off => exact .off
  | ready => exact .ready
  | refilling hself _ hidle => exact .refilling hself (hne _ rfl) hidle
  | folding hself _ hfold hfolding => exact .folding hself (hne _ rfl) hfold hfolding
  | ended => exact .ended

theorem LiveWal.Answered.request {requests : List FoldRequest} {request : FoldRequest}
    {c : Completion} (h : Answered manifest claim requests c) :
    Answered manifest claim (request :: requests) c := by
  obtain ⟨hend, earlier, hmem, hfound⟩ := h
  exact ⟨hend, earlier, List.mem_cons_of_mem _ hmem, hfound⟩

theorem LiveInv.request {request : FoldRequest} (h : LiveInv s fold? since)
    (hfold : fold? = none ∨ fold? = some request.fold) (hbefore : request.fold.before = s.frontier)
    (hlink : s.foldRequest = some request ∨ s.shutdownSeal.submitted = true) :
    LiveInv { s with requests := request :: s.requests } (some request.fold) since := by
  have hwriter : ({ s with requests := request :: s.requests } : LiveWal n).WriterOk :=
    ⟨h.writer.swapping, h.writer.draining, h.writer.settled, h.writer.refill, h.writer.requested,
      h.writer.shutdown⟩
  have hsubmitted : ∀ fold, some request.fold = some fold →
      (∃ r ∈ request :: s.requests, r.fold = fold) ∧
        ((∃ r, s.foldRequest = some r ∧ r.fold = fold) ∨ s.shutdownSeal.submitted = true) := by
    intro fold heq
    cases heq
    exact ⟨⟨request, List.mem_cons_self, rfl⟩, hlink.imp_left fun hrequest => ⟨request,
      hrequest, rfl⟩⟩
  rcases hfold with rfl | rfl
  · exact ⟨hwriter, h.claimed, h.era.request hbefore, h.self, hsubmitted, h.worker.request,
      h.shutdownSeal.request, fun c hc => (h.answers c hc).request⟩
  · exact ⟨hwriter, h.claimed, h.era, h.self, hsubmitted, h.worker, h.shutdownSeal,
      fun c hc => (h.answers c hc).request⟩

/-- The register moves through a handle that neither the writer nor its tasks hold. -/
theorem LiveInv.registerOther (h : LiveInv s fold? since) {act : ManifestSystem.Action}
    (hs : s.manifest.step act = some manifest) (hown : manifest.Owned s.claim)
    (hact : act.target? = some handle) (hself : handle ≠ s.self)
    (hworker : s.worker.handle? ≠ some handle) (hseal : s.shutdownSeal.handle? ≠ some handle)
    (hcall : ∀ i call m, act = .call i call → s.manifest.handles[i]? = some (.idle m) →
      (Author.of m call).Harmless s.manifest.store.history s.claim fold? since)
    (hopen : ∀ owner, act.opens? = some owner → owner ≠ s.claim.owner) :
    LiveInv { s with manifest := manifest } fold? since := by
  have hgrows : s.manifest.store.Grows manifest.store := (h.era.system.step_store hs).2
  refine h.register hs hown (h.self.step hgrows hs (.inl ?_))
    (h.worker.step hs fun handle' hhandle => .inl fun heq => hworker ?_)
    (h.shutdownSeal.step hs fun handle' hhandle => .inl fun heq => hseal ?_) hcall hopen
  · rw [hact]
    exact fun heq => hself (Option.some.inj heq)
  · rw [hhandle, ← heq, hact]
  · rw [hhandle, ← heq, hact]

theorem LiveInv.callFold (h : LiveInv s (some fold) since)
    (hidle : s.manifest.IdleAt s.claim since handle) (hself : handle ≠ s.self)
    (hworker : s.worker.handle? ≠ some handle) (hseal : s.shutdownSeal.handle? ≠ some handle)
    (hs : s.manifest.step (.call handle (.foldPending fold)) = some manifest)
    (hown : s.manifest.Owned s.claim) :
    LiveInv { s with manifest := manifest } (some fold) since ∧
    manifest.Folding s.claim fold since handle := by
  obtain ⟨m, hi, hstore, hbusy⟩ := ManifestSystem.call_cases hs
  have hgrows : s.manifest.store.Grows manifest.store := (h.era.system.step_store hs).2
  constructor
  · refine h.registerOther hs (hown.of_store hstore) rfl hself hworker hseal ?_ nofun
    rintro i call m' heq - -
    cases heq
    exact .inr ⟨fold, rfl, .inl rfl⟩
  · obtain ⟨m', hi', hclaimed, hsince⟩ := hidle
    rw [hi, Option.some.injEq, HandleState.idle.injEq] at hi'
    subst hi'
    exact ⟨_, _, hbusy, rfl, hclaimed, hsince, foldPending_returns_cached⟩

theorem LiveInv.setWorker (h : LiveInv s fold? since) {worker : ProvisionWorker} (seq : Nat)
    (hworker : worker.Ok s.manifest s.claim s.self fold? since)
    (hseal : s.shutdownSeal.Ok s.manifest s.claim s.self worker fold? since) :
    LiveInv { s with nextSegmentSeq := seq, worker := worker } fold? since :=
  ⟨⟨h.writer.swapping, h.writer.draining, h.writer.settled, h.writer.refill, h.writer.requested,
    h.writer.shutdown⟩, h.claimed, h.era, h.self, h.submitted, hworker, hseal, h.answers⟩

/-- The work that the engine asks for comes from its pending swap. -/
theorem LiveInv.nextAttempt (h : LiveInv s fold? since) {attempt : ProvisionAttempt}
    (hattempt : s.engine.nextAttempt = .ok (some attempt)) : s.engine.rotation.swap?.isSome ∧
      attempt ≠ .registered ∧ (attempt = .unregistered → s.engine.spare = none) := by
  unfold Engine.nextAttempt at hattempt
  split_ifs at hattempt with hready hwanted hpending
  · split at hattempt
    · cases hattempt
    · rename_i swap hswap
      cases hattempt
      exact ⟨by rw [hswap]; rfl, nofun, nofun⟩
  · cases hattempt
    rw [Rotation.hasPendingFold_eq] at hpending
    exact ⟨hpending, nofun, fun _ => Option.isNone_iff_eq_none.1 hwanted⟩
  · -- while no swap is pending there is a spare
    rw [Rotation.hasPendingFold_eq, Bool.not_eq_true, Option.isSome_eq_false_iff,
      Option.isNone_iff_eq_none] at hpending
    have hspare := h.writer.settled hpending
    rw [Option.isNone_iff_eq_none.1 hwanted] at hspare
    cases hspare
  · cases hattempt

theorem LiveWal.foldRequest_before {request : FoldRequest}
    (hrequest : s.foldRequest = some request) : request.fold.before = s.frontier := by
  obtain ⟨swap, names, spare, hswap, hnames, -, rfl⟩ := LiveWal.foldRequest_eq_some hrequest
  simp only [LiveWal.frontier, hswap, hnames]
  rfl

theorem LiveInv.attempt (h : LiveInv s fold? since) (hown : s.manifest.Owned s.claim)
    (hfrom : s.engine.phase ≠ .stopped) {attempt : ProvisionAttempt} {m : Manifest} {sent : Bool}
    (hattempt : s.engine.nextAttempt = .ok (some attempt))
    (hidle : s.manifest.IdleAt s.claim since handle) (hself : handle ≠ s.self)
    (hs : s.attempt m handle sent attempt = some s') :
    s'.engine = s.engine ∧ ∃ fold?, LiveInv s' fold? since := by
  have hoff := h.seal_off hfrom
  have hseal : ∀ manifest worker fold?,
      s.shutdownSeal.Ok manifest s.claim s.self worker fold? since := by
    intro manifest worker fold?
    rw [hoff]
    exact .off
  cases attempt with
  | registered => exact absurd rfl (h.nextAttempt hattempt).2.1
  | unregistered =>
    cases hs
    cases sent with
    | false => exact ⟨rfl, fold?, h.setWorker _ h.worker h.shutdownSeal⟩
    | true => exact ⟨rfl, fold?, h.setWorker _ .creating (hseal _ _ _)⟩
  | fold =>
    simp only [LiveWal.attempt] at hs
    split at hs
    · cases hs
    · rename_i request hrequest
      cases sent with
      | false =>
        cases hs
        exact ⟨rfl, fold?, h⟩
      | true =>
        obtain ⟨manifest, hcall, rfl⟩ := Option.map_eq_some_iff.1 hs
        have hfold : fold? = none ∨ fold? = some request.fold := by
          cases hfold : fold? with
          | none => exact .inl rfl
          | some fold =>
            subst hfold
            obtain ⟨request', hrequest', rfl⟩ := h.foldRequest_of_running hfrom
            rw [hrequest, Option.some.injEq] at hrequest'
            exact .inr (by rw [hrequest'])
        have hrequested := h.request hfold (LiveWal.foldRequest_before hrequest) (.inl hrequest)
        -- the handle is no longer that of the work before
        have hfree := hrequested.setWorker s.nextSegmentSeq .idle (hseal _ _ _)
        have hseal' : s.shutdownSeal.handle? ≠ some handle := by
          rw [hoff]
          exact nofun
        obtain ⟨hcalled, hfolding⟩ := hfree.callFold hidle hself nofun hseal' hcall hown
        exact ⟨rfl, _, hcalled.setWorker s.nextSegmentSeq (.folding hself rfl hfolding)
          (hseal _ _ _)⟩

theorem Engine.provision_eq {attempt : ProvisionAttempt} {sent : Bool}
    (hfree : (e.spareRequested.isNone && !e.spareRetry) = true)
    (hattempt : e.nextAttempt = .ok (some attempt)) : e.provision (.ok ()) sent =
      { e with phase := .swapCheck, spareRequested := if sent then some attempt else none } := by
  simp only [Engine.provision, hfree, hattempt, if_true]

theorem LiveInv.provision (h : LiveInv s fold? since) (hown : s.manifest.Owned s.claim)
    (hphase : s.engine.phase = .provision) {parts : Except ProtocolError Unit} {sent : Bool}
    (hs : s.followProvision (s.engine.provision parts sent) parts sent = some s') :
    ∃ fold?, LiveInv s' fold? since := by
  have hfrom : s.engine.phase ≠ .stopped := by simp [hphase]
  have hcases := @Engine.provision_cases n (fun _ => 0) s.engine hphase parts sent
  unfold LiveWal.followProvision at hs
  split at hs
  · rename_i hfree
    split at hs
    · rename_i attempt hattempt
      split at hs
      · rename_i m manifest hi hclone
        obtain ⟨s₁, hs₁, rfl⟩ := Option.map_eq_some_iff.1 hs
        obtain ⟨-, -, -, hstore, -⟩ := ManifestSystem.offPathAccess_cases hclone
        have hown' := hown.of_store hstore
        obtain ⟨hcloned, hidle, hself, -⟩ := h.cloned hclone hown'
        obtain ⟨hengine, fold?, hattempted⟩ := hcloned.attempt hown' hfrom hattempt hidle hself hs₁
        rw [Engine.provision_eq hfree hattempt]
        refine ⟨fold?, hattempted.moveRequested (if sent then some attempt else none)
          ?_ ?_ nofun ?_⟩
        · rw [hengine]
          exact hfrom
        · rw [hengine]
          rfl
        · rw [hengine]
          intro attempt' heq
          have hsame : attempt = attempt' := by
            cases sent with
            | false => cases heq
            | true => exact Option.some.inj heq
          exact hsame ▸ h.nextAttempt hattempt
      · cases hs
        rcases hcases with ⟨hsteady, -⟩ | ⟨-, -, -, -, hparts, -⟩
        · exact ⟨fold?, h.steady hsteady s.prefixes⟩
        · cases hparts
      · cases hs
    · rename_i hnone
      cases hs
      rcases hcases with ⟨hsteady, -⟩ | ⟨-, -, attempt, hattempt, -⟩
      · exact ⟨fold?, h.steady hsteady s.prefixes⟩
      · exact absurd hattempt (hnone attempt)
  · rename_i hbusy
    cases hs
    rcases hcases with ⟨hsteady, -⟩ | ⟨hrequested, hretry, -⟩
    · exact ⟨fold?, h.steady hsteady s.prefixes⟩
    · simp [hrequested, hretry] at hbusy

end Request

/-! ## The swap -/

theorem LiveWal.followSwap_eq {pending : PendingSwap} {successor : Nat}
    (hswap : s.engine.beginSwap = .ok (some (pending, successor))) :
    s.followSwap sha256 e = { s with
      engine := e
      names := some (s.swapNames sha256 successor).1
      prefixes :=
        Function.update s.prefixes s.engine.activeSegment (s.swapNames sha256 successor).2 } := by
  simp only [LiveWal.followSwap, hswap]

/-- A registered spare stands only between two swaps. -/
theorem LiveInv.swap_eq_none (h : LiveInv s fold? since) {segment : Nat}
    (hspare : s.engine.spare = some ⟨segment, true⟩) : s.engine.rotation.swap? = none := by
  by_contra hsome
  have hrefill := h.writer.refill (Option.isSome_iff_ne_none.2 hsome)
  simp [hspare] at hrefill

theorem LiveInv.swap (h : LiveInv s fold? since) (hphase : s.engine.phase = .swap) :
    LiveInv (s.followSwap sha256 s.engine.swap) fold? since := by
  have hfrom : s.engine.phase ≠ .stopped := by simp [hphase]
  rcases @Engine.swap_cases n (fun _ => 0) s.engine hphase (h.writer.swapping hphase) with
    ⟨hsteady, hnone⟩ | ⟨pending, successor, hswap, hdrain, hview⟩
  · unfold LiveWal.followSwap
    split
    · rename_i pending successor hswap
      exact absurd hswap (hnone pending successor)
    · exact h.steady hsteady s.prefixes
  · obtain ⟨rfl, -, -, hspare⟩ := Engine.beginSwap_eq_ok hswap
    have hfree := h.swap_eq_none hspare
    have hfold : fold? = none := h.fold_eq_none (.inl hfrom) (.inl hfree)
    subst hfold
    have hoff := h.seal_off hfrom
    have hswap' : s.engine.swap.rotation.swap? = _ := congrArg WriterView.swap hview
    have hspare' : s.engine.swap.spare = none := congrArg WriterView.spare hview
    have hactive' : s.engine.swap.activeSegment = successor := congrArg WriterView.active hview
    have hbase' : s.engine.swap.baseRecordIndex = _ := congrArg WriterView.base hview
    have hrequested' : s.engine.swap.spareRequested = s.engine.spareRequested :=
      congrArg WriterView.requested hview
    have hrequested : s.engine.spareRequested = none := by
      cases hsome : s.engine.spareRequested with
      | none => rfl
      | some attempt =>
        have hpending := (h.writer.requested attempt hsome).1
        rw [hfree] at hpending
        cases hpending
    have hfrontier : (s.followSwap sha256 s.engine.swap).frontier = s.frontier := by
      rw [LiveWal.followSwap_eq hswap]
      simp only [LiveWal.frontier, hswap', hfree, hspare]
      rfl
    rw [LiveWal.followSwap_eq hswap] at hfrontier ⊢
    exact
      { writer :=
          { swapping := fun hphase' => by
              rw [hdrain] at hphase'
              cases hphase'
            draining := fun swap hsome => by
              rw [hswap', Option.some.injEq] at hsome
              subst hsome
              exact ⟨_, rfl, by simp only [hactive']; rfl, hbase'⟩
            settled := fun hnone => by
              rw [hswap'] at hnone
              cases hnone
            refill := fun _ => by simp [hspare']
            requested := fun attempt hsome => by
              rw [hrequested', hrequested] at hsome
              cases hsome
            shutdown := fun hseal => absurd hoff hseal }
        claimed := h.claimed
        era := hfrontier ▸ h.era
        self := h.self
        submitted := fun _ hnone => by cases hnone
        worker := h.worker
        shutdownSeal := h.shutdownSeal
        answers := h.answers }

/-! ## The worker's answers -/

section Answer

/-- The ids of other segments stay when one is added. -/
theorem LiveInv.adopted (h : LiveInv s fold? since) (hfrom : s.engine.phase ≠ .stopped)
    (hlt : s.engine.activeSegment < s.engine.segmentCount)
    (hrequested : s.engine.spareRequested = some .unregistered) {segments : Nat → SegmentWriter n}
    (hview : e.view = { s.engine.view with
      spare := some ⟨s.engine.segmentCount, false⟩
      requested := none
      count := s.engine.segmentCount + 1
      segments := segments })
    (hphase : e.phase = .drain) (id : SegmentId) :
    LiveInv { s with
      engine := e
      ids := Function.update s.ids s.engine.segmentCount id
      worker := .idle } fold? since := by
  obtain ⟨hpending, -, hnone⟩ := h.writer.requested _ hrequested
  obtain ⟨swap, hswap⟩ := Option.isSome_iff_exists.1 hpending
  obtain ⟨names, hnames, hsuccessor, hbase⟩ := h.writer.draining swap hswap
  have hfold : fold? = none := h.fold_eq_none (.inl hfrom) (.inr (hnone rfl))
  subst hfold
  have hoff := h.seal_off hfrom
  have hswap' : e.rotation.swap? = some swap := (congrArg WriterView.swap hview).trans hswap
  have hspare' : e.spare = _ := congrArg WriterView.spare hview
  have hactive' : e.activeSegment = s.engine.activeSegment := congrArg WriterView.active hview
  have hbase' : e.baseRecordIndex = s.engine.baseRecordIndex := congrArg WriterView.base hview
  have hrequested' : e.spareRequested = none := congrArg WriterView.requested hview
  have hfrontier : ({ s with
      engine := e
      ids := Function.update s.ids s.engine.segmentCount id
      worker := .idle } : LiveWal n).frontier = s.frontier := by
    simp only [LiveWal.frontier, hswap', hswap, hnames]
  exact
    { writer :=
        { swapping := fun hswapping => by
            rw [hphase] at hswapping
            cases hswapping
          draining := fun swap' hsome => by
            rw [hswap', Option.some.injEq] at hsome
            subst hsome
            simp only [hactive', hbase', Function.update_of_ne (Nat.ne_of_lt hlt)]
            exact ⟨names, hnames, hsuccessor, hbase⟩
          settled := fun hsettled => by
            rw [hswap'] at hsettled
            cases hsettled
          refill := fun _ => by simp [hspare']
          requested := fun attempt hsome => by
            rw [hrequested'] at hsome
            cases hsome
          shutdown := fun hseal => absurd hoff hseal }
      claimed := h.claimed
      era := hfrontier ▸ h.era
      self := h.self
      submitted := fun _ hnone => by cases hnone
      worker := .idle
      shutdownSeal := by
        simp only [hoff]
        exact .off
      answers := h.answers }

theorem Manifest.installUpdate_claimed (m : Manifest) (version : Nat) (record : ManifestRecord) :
    (m.installUpdate version record).claimed = m.claimed := by
  unfold Manifest.installUpdate
  split_ifs
  · rfl
  · rfl

theorem Manifest.le_installUpdate (m : Manifest) (version : Nat) (record : ManifestRecord) :
    version ≤ (m.installUpdate version record).version := by
  unfold Manifest.installUpdate
  split_ifs with hle
  · exact Nat.le_refl _
  · exact Nat.le_of_not_le hle

/-- The confirmed fold begins the next era, in which the writer's spare is the pending segment of
the register. -/
theorem LiveInv.folded (h : LiveInv s fold? since) (hown : s.manifest.Owned s.claim)
    (hfrom : s.engine.phase ≠ .stopped) (hworker : s.worker = .done (.folded handle))
    {swap : PendingSwap} {spare : PreparedSpare} {segments : Nat → SegmentWriter n}
    (hswap : s.engine.rotation.swap? = some swap) (hspare : s.engine.spare = some spare)
    (hview : e.view = { s.engine.view with
      swap := none
      spare := some { spare with registered := true }
      requested := none
      segments := segments })
    (hphase : e.phase ≠ .swap)
      (hs : s.manifest.step (.installUpdate s.self handle) = some manifest) :
    ∃ since', LiveInv { s with engine := e, manifest := manifest, names := none, worker := .idle }
      none since' := by
  have hoff := h.seal_off hfrom
  obtain ⟨m, m', hi, hi', hstore, hinstalled⟩ := ManifestSystem.installUpdate_cases hs
  have hok := h.worker
  rw [hworker] at hok
  cases hok with
  | folded hself hfold hfolded =>
    rename_i fold
    subst hfold
    obtain ⟨m'', hi'', hcached⟩ := hfolded
    rw [hi', Option.some.injEq, HandleState.idle.injEq] at hi''
    subst hi''
    obtain ⟨-, hadvanced⟩ := h.era.advance hi' hcached
    obtain ⟨request, hrequest, rfl⟩ := h.foldRequest_of_running hfrom
    obtain ⟨swap', names, spare', hswap', hnames, hspare', rfl⟩ :=
      LiveWal.foldRequest_eq_some hrequest
    rw [hswap, Option.some.injEq] at hswap'
    rw [hspare, Option.some.injEq] at hspare'
    subst hswap' hspare'
    obtain ⟨names', hnames', hsuccessor, hbase⟩ := h.writer.draining swap hswap
    rw [hnames, Option.some.injEq] at hnames'
    subst hnames'
    have hswap' : e.rotation.swap? = none := congrArg WriterView.swap hview
    have hspare' : e.spare = some { spare with registered := true } :=
      congrArg WriterView.spare hview
    have hactive' : e.activeSegment = s.engine.activeSegment := congrArg WriterView.active hview
    have hbase' : e.baseRecordIndex = s.engine.baseRecordIndex := congrArg WriterView.base hview
    have hrequested' : e.spareRequested = none := congrArg WriterView.requested hview
    have hfrontier :
        ({ s with engine := e, manifest := manifest, names := none, worker := .idle } :
          LiveWal n).frontier =
        (LiveWal.pendingFoldRequest swap names (s.ids spare.segment)).after := by
      simp only [LiveWal.frontier, hswap', hspare', hactive', hbase', hbase, ← hsuccessor]
      rfl
    refine ⟨m'.version, ?_⟩
    exact
      { writer :=
          { swapping := fun hswapping => absurd hswapping hphase
            draining := fun swap hsome => by
              rw [hswap'] at hsome
              cases hsome
            settled := fun _ => by simp [hspare']
            refill := fun hsome => by
              rw [hswap'] at hsome
              cases hsome
            requested := fun attempt hsome => by
              rw [hrequested'] at hsome
              cases hsome
            shutdown := fun hseal => absurd hoff hseal }
        claimed := h.claimed
        era := by
          rw [hfrontier]
          exact hadvanced.step hs (hown.of_store hstore) (fun _ _ _ hact => by cases hact)
            fun _ hact => by cases hact
        self := by
          refine .inl ⟨_, hinstalled, ?_, Manifest.le_installUpdate ..⟩
          rw [Manifest.installUpdate_claimed]
          rcases h.self with ⟨m'', hi'', hclaimed, -⟩ | ⟨c, p, hi'', -⟩
          · rw [hi, Option.some.injEq, HandleState.idle.injEq] at hi''
            rw [hi'']
            exact hclaimed
          · rw [hi] at hi''
            cases hi''
        submitted := fun _ hnone => by cases hnone
        worker := .idle
        shutdownSeal := by
          simp only [hoff]
          exact .off
        answers := fun c hc => (h.answers c hc).grow (h.era.system.step_store hs).2 }

theorem LiveInv.provisioned (h : LiveInv s fold? since) (hown : s.manifest.Owned s.claim)
    (hfrom : s.engine.phase ≠ .stopped) (hlt : s.engine.activeSegment < s.engine.segmentCount)
    {outcome : ProvisionOutcome n} (hanswered : Engine.Answered crc s.engine e outcome)
    (hs : s.followProvisioned e outcome = some s') : ∃ fold? since, LiveInv s' fold? since := by
  have hoff := h.seal_off hfrom
  -- an answer that brings nothing leaves a worker without work
  have hidle : LiveInv { s with worker := .idle } fold? since := by
    refine h.setWorker s.nextSegmentSeq .idle ?_
    rw [hoff]
    exact .off
  unfold LiveWal.followProvisioned at hs
  split at hs
  · cases hanswered with
    | registered hrequested => exact absurd rfl (h.writer.requested _ hrequested).2.1
  · cases hs
    cases hanswered with
    | adopted hrequested hview hphase =>
      exact ⟨fold?, since, h.adopted hfrom hlt hrequested hview hphase _⟩
  · rename_i handle hworker
    cases hanswered with
    | folded hrequested hswap hspare hview hsettles hphase =>
      simp only [LiveWal.installUpdate, Option.map_map, Option.map_eq_some_iff] at hs
      obtain ⟨manifest, hinstall, rfl⟩ := hs
      obtain ⟨since', hnext⟩ := h.folded hown hfrom hworker hswap hspare hview hphase hinstall
      exact ⟨none, since', hnext⟩
    | stray hgone =>
      -- the fold that the worker has confirmed is that of the pending swap
      have hok := h.worker
      rw [hworker] at hok
      cases hok with
      | folded _ hfold =>
        rw [h.fold_eq_none (.inl hfrom) hgone] at hfold
        cases hfold
  · cases hs
    cases hanswered with
    | failed hview hphase => exact ⟨fold?, since, hidle.moveRequested none hfrom hview hphase nofun⟩
  · split_ifs at hs
    cases hs
    cases hanswered with
    | failed hview hphase => exact ⟨fold?, since, hidle.moveRequested none hfrom hview hphase nofun⟩
  · cases hs
    cases hanswered with
    | stopped hview hphase =>
      exact ⟨fold?, since, h.moveRequested none hfrom hview (by rw [hphase]; nofun) nofun⟩
  · cases hs

end Answer

/-! ## Returned folds -/

section Finish

theorem LiveInv.setSeal (h : LiveInv s fold? since) {shutdownSeal : ShutdownSeal}
    (prefixes : Nat → AdmittedPrefix) (seq : Nat) (hphase : s.engine.phase = .stopped)
    (hseal : shutdownSeal.Ok s.manifest s.claim s.self s.worker fold? since)
    (hsubmitted : s.shutdownSeal.submitted = true → shutdownSeal.submitted = true) :
    LiveInv { s with nextSegmentSeq := seq, prefixes := prefixes, shutdownSeal := shutdownSeal }
      fold? since :=
  ⟨⟨h.writer.swapping, h.writer.draining, h.writer.settled, h.writer.refill, h.writer.requested,
    fun _ => hphase⟩, h.claimed, h.era, h.self,
    fun fold hfold => (h.submitted fold hfold).imp_right fun hlink => hlink.imp_right hsubmitted,
    h.worker, hseal, h.answers⟩

theorem LiveInv.answer (h : LiveInv s fold? since) {c : Completion}
    (hc : LiveWal.Answered s.manifest s.claim s.requests c) :
    LiveInv { s with answers := c :: s.answers } fold? since := by
  refine ⟨⟨h.writer.swapping, h.writer.draining, h.writer.settled, h.writer.refill,
    h.writer.requested, h.writer.shutdown⟩, h.claimed, h.era, h.self, h.submitted, h.worker,
    h.shutdownSeal, fun c' hc' => ?_⟩
  rcases List.mem_cons.1 hc' with rfl | hc'
  · exact hc
  · exact h.answers c' hc'

/-- A fold that returns on a handle which nobody else uses. -/
theorem LiveInv.finishFold (h : LiveInv s (some fold) since) (hown : s.manifest.Owned s.claim)
    (hfolding : s.manifest.Folding s.claim fold since handle) (hself : handle ≠ s.self)
    (hworker : s.worker.handle? ≠ some handle) (hseal : s.shutdownSeal.handle? ≠ some handle)
    (hs : s.manifest.step (.finish handle) = some manifest) {c : Completion}
    (hc : manifest.completions.head? = some c) :
    LiveInv { s with manifest := manifest, answers := c :: s.answers } (some fold) since ∧
      (c.outcome = .ok () → manifest.Folded fold handle) := by
  obtain ⟨running, m, outcome, hi, hstore, hcompletions, hidle⟩ := ManifestSystem.finish_cases hs
  obtain ⟨running', p, hi', hcall, hclaim, hcached, hreturns⟩ := hfolding
  rw [hi, Option.some.injEq, HandleState.busy.injEq] at hi'
  obtain ⟨rfl, rfl⟩ := hi'
  rw [hcompletions, List.head?_cons, Option.some.injEq] at hc
  subst hc
  have hgrows : s.manifest.store.Grows manifest.store := (h.era.system.step_store hs).2
  have hregistered : LiveInv { s with manifest := manifest } (some fold) since :=
    h.registerOther hs (hown.of_store hstore) rfl hself hworker hseal
      (fun _ _ _ hact => nomatch hact) nofun
  constructor
  · refine hregistered.answer ?_
    obtain ⟨⟨request, hmem, rfl⟩, -⟩ := h.submitted fold rfl
    refine ⟨hgrows.version_le, request, hmem, hcall, hclaim, ?_, ?_⟩
    · rintro v r hv - ⟨a, hentry⟩
      rw [hstore] at hentry
      exact (h.era.era.found hentry (hcached.trans hv)).2
    · exact h.era.not_fenced h.claimed hi hcall hclaim hcached
  · intro hok
    exact ⟨m, hidle (by simp [hcall]), hreturns () hok⟩

theorem LiveInv.finishWork (h : LiveInv s fold? since) (hown : s.manifest.Owned s.claim)
    (hs : s.finishWork = some s') : LiveInv s' fold? since := by
  have hok := h.worker
  unfold LiveWal.finishWork at hs
  split at hs
  · rename_i hworker
    rw [hworker] at hok
    cases hok
  · rename_i handle hworker
    obtain ⟨manifest, hfinish, hs⟩ := Option.bind_eq_some_iff.1 hs
    split at hs
    · cases hs
    · rename_i c hc
      cases hs
      rw [hworker] at hok
      cases hok with
      | folding hself hfold hfolding =>
        rename_i fold
        subst hfold
        have hseal : s.shutdownSeal.handle? ≠ some handle := by
          intro hhandle
          have hne := (h.shutdownSeal.ne_self hhandle).2
          rw [hworker] at hne
          exact hne rfl
        -- the shutdown seal has a handle of its own
        have hseal' : ∀ {manifest : ManifestSystem} {worker worker' : ProvisionWorker},
            s.shutdownSeal.Ok manifest s.claim s.self worker (some fold) since →
            (worker'.handle? = none ∨ worker'.handle? = some handle) →
            s.shutdownSeal.Ok manifest s.claim s.self worker' (some fold) since := by
          intro manifest worker worker' hok hhandle
          have hne : ∀ handle', s.shutdownSeal.handle? = some handle' →
              worker'.handle? ≠ some handle' := by
            intro handle' hhandle' heq
            rcases hhandle with hnone | hsome
            · rw [hnone] at heq
              cases heq
            · rw [hsome] at heq
              exact hseal (hhandle'.trans heq.symm)
          exact hok.setWorker hne
        have hfree := h.setWorker s.nextSegmentSeq .idle (hseal' h.shutdownSeal (.inl rfl))
        obtain ⟨hfinished, hfolded⟩ := hfree.finishFold hown hfolding hself nofun hseal hfinish hc
        cases houtcome : c.outcome with
        | error error =>
          simp only
          exact hfinished.setWorker s.nextSegmentSeq .failed
            (hseal' hfinished.shutdownSeal (.inl rfl))
        | ok u =>
          exact hfinished.setWorker s.nextSegmentSeq (.folded hself rfl (hfolded houtcome))
            (hseal' hfinished.shutdownSeal (.inr rfl))
  · cases hs

theorem LiveInv.finishSeal (h : LiveInv s fold? since) (hown : s.manifest.Owned s.claim)
    (hs : s.finishSeal = some s') : LiveInv s' fold? since := by
  have hok := h.shutdownSeal
  unfold LiveWal.finishSeal at hs
  split at hs
  · rename_i handle hseal
    obtain ⟨manifest, hfinish, hs⟩ := Option.bind_eq_some_iff.1 hs
    split at hs
    · cases hs
    · rename_i c hc
      cases hs
      rw [hseal] at hok
      cases hok with
      | folding hself hworker hfold hfolding =>
        subst hfold
        have hphase : s.engine.phase = .stopped := h.writer.shutdown (by simp [hseal])
        have hended := h.setSeal s.prefixes s.nextSegmentSeq hphase .ended fun _ => rfl
        exact (hended.finishFold hown hfolding hself hworker nofun hfinish hc).1
  · cases hs

end Finish

/-! ## The shutdown seal -/

section Shutdown

theorem LiveInv.sealRefill (h : LiveInv s fold? since) (hown : s.manifest.Owned s.claim)
    (hs : s.sealRefill = some s') : LiveInv s' fold? since := by
  unfold LiveWal.sealRefill at hs
  split at hs
  · rename_i m hseal hi
    split_ifs at hs
    obtain ⟨manifest, hclone, rfl⟩ := Option.map_eq_some_iff.1 hs
    obtain ⟨-, -, -, hstore, -⟩ := ManifestSystem.offPathAccess_cases hclone
    have hown' := hown.of_store hstore
    have hphase : s.engine.phase = .stopped := h.writer.shutdown (by simp [hseal])
    obtain ⟨hcloned, hidle, hself, hworker⟩ := h.cloned hclone hown'
    refine hcloned.setSeal s.prefixes (s.nextSegmentSeq + 1) hphase (.refilling hself hworker hidle)
      fun hsubmitted => ?_
    rw [show ({ s with manifest := manifest } : LiveWal n).shutdownSeal = _ from hseal]
      at hsubmitted
    cases hsubmitted
  · cases hs

theorem LiveInv.sealFold (h : LiveInv s fold? since) (hown : s.manifest.Owned s.claim)
    (hs : s.sealFold sha256 = some s') : ∃ fold?, LiveInv s' fold? since := by
  unfold LiveWal.sealFold at hs
  split at hs
  · rename_i refillId handle hseal
    have hphase : s.engine.phase = .stopped := h.writer.shutdown (by simp [hseal])
    split at hs
    · rename_i pending successor hswap
      obtain ⟨manifest, hcall, rfl⟩ := Option.map_eq_some_iff.1 hs
      obtain ⟨hpending, -, -, hspare⟩ := Engine.beginSwap_eq_ok hswap
      have hfree := h.swap_eq_none hspare
      have hfold : fold? = none := h.fold_eq_none (.inr (by rw [hseal]; rfl)) (.inl hfree)
      subst hfold
      have hok := h.shutdownSeal
      rw [hseal] at hok
      cases hok with
      | refilling hself hworker hidle =>
        have hended :=
          h.setSeal (Function.update s.prefixes s.engine.activeSegment
            (s.swapNames sha256 successor).2)
          s.nextSegmentSeq hphase .ended fun _ => rfl
        let request : FoldRequest :=
          ⟨LiveWal.pendingFoldRequest pending (s.swapNames sha256 successor).1 refillId,
            pending.writer, successor⟩
        have hbefore : request.fold.before = s.frontier := by
          simp only [LiveWal.frontier, hfree, hspare, request, hpending]
          rfl
        have hrequested := hended.request (.inl rfl) hbefore (.inr rfl)
        obtain ⟨hcalled, hfolding⟩ :=
          hrequested.callFold hidle hself hworker (fun heq => by cases heq) hcall hown
        exact ⟨_, hcalled.setSeal _ s.nextSegmentSeq hphase
          (.folding hself hworker rfl hfolding) fun _ => rfl⟩
    · cases hs
      exact ⟨fold?, h.setSeal s.prefixes s.nextSegmentSeq hphase .ended fun _ => rfl⟩
  · cases hs

end Shutdown

/-! ## All steps -/

section Step

variable {start : Nat}

/-- What follows from a step of the engine. -/
inductive LiveWal.Follows (crc : Bytes → Nat) (config : WalEngineConfig) (sha256 : Bytes → String)
    (s : LiveWal n) (e : Engine n) : LiveWal n → Prop
  | kept (hsteady : Engine.Steady crc false s.engine e) :
    Follows crc config sha256 s e { s with engine := e }
  | rechecked {manifest : ManifestSystem} (hsteady : Engine.Steady crc false s.engine e)
      (hfinish : s.manifest.step (.finish s.self) = some manifest) :
    Follows crc config sha256 s e { s with engine := e, manifest := manifest }
  | sealing (hphase : s.engine.phase = .shutdownCheck)
      (hsteady : Engine.Steady crc false s.engine e)
      (hstopped : e.phase = .stopped) :
    Follows crc config sha256 s e { s with engine := e, shutdownSeal := .ready }
  | reserved {fits : Bool} {prefixes : Nat → AdmittedPrefix}
      (hsteady : Engine.Steady crc true s.engine e)
      (he : s.engine.step crc config (.reserveLane fits) = some e)
      (hs : s.followReserve e = { s with engine := e, prefixes := prefixes }) :
    Follows crc config sha256 s e { s with engine := e, prefixes := prefixes }
  | sent {sent : Bool} {prefixes : Nat → AdmittedPrefix}
      (hsteady : Engine.Steady crc true s.engine e)
      (he : s.engine.step crc config (.sendLane sent) = some e)
      (hs : s.followSend e = { s with engine := e, prefixes := prefixes }) :
    Follows crc config sha256 s e { s with engine := e, prefixes := prefixes }
  | provision {parts : Except ProtocolError Unit} {sent : Bool} {s' : LiveWal n}
      (hphase : s.engine.phase = .provision) (he : e = s.engine.provision parts sent)
      (hs : s.followProvision e parts sent = some s') : Follows crc config sha256 s e s'
  | swap (hphase : s.engine.phase = .swap) (he : e = s.engine.swap) :
    Follows crc config sha256 s e (s.followSwap sha256 e)
  | provisioned {outcome : ProvisionOutcome n} {s' : LiveWal n} (hphase : s.engine.phase = .wait)
      (hanswered : Engine.Answered crc s.engine e outcome)
      (hs : s.followProvisioned e outcome = some s') : Follows crc config sha256 s e s'

theorem LiveWal.Follows.of_step {action : Engine.Action n}
    (he : s.engine.step crc config action = some e) (hs : s.follow sha256 e action = some s') :
    s.Follows crc config sha256 e s' := by
  cases hturning : Engine.turning action with
  | false =>
    have hsteady := Engine.steady_step hturning he
    cases action with
    | recheck room =>
      replace hs : s.followRecheck e room = some s' := hs
      unfold LiveWal.followRecheck at hs
      split at hs
      · split at hs
        · split_ifs at hs
          obtain ⟨manifest, hfinish, rfl⟩ := Option.map_eq_some_iff.1 hs
          exact .rechecked hsteady hfinish
        · cases hs
      · cases hs
        exact .kept hsteady
    | checkShutdown =>
      cases hs
      simp only [Engine.step] at he
      split at he <;> cases he
      rename_i hphase
      unfold LiveWal.followShutdown
      split
      · rename_i queue hqueue
        split_ifs with hpending
        · refine .sealing hphase hsteady ?_
          simp only [Engine.checkShutdown, hqueue, if_pos hpending]
          rfl
        · exact .kept hsteady
      · exact .kept hsteady
    | reserveLane fits =>
      cases hs
      have heq : ∃ prefixes, s.followReserve e = { s with engine := e, prefixes := prefixes } := by
        unfold LiveWal.followReserve
        split
        · exact ⟨_, rfl⟩
        · exact ⟨s.prefixes, rfl⟩
      obtain ⟨prefixes, heq⟩ := heq
      exact heq ▸ .reserved hsteady he heq
    | sendLane sent =>
      cases hs
      have heq : ∃ prefixes, s.followSend e = { s with engine := e, prefixes := prefixes } := by
        unfold LiveWal.followSend
        split
        · exact ⟨_, rfl⟩
        · exact ⟨s.prefixes, rfl⟩
      obtain ⟨prefixes, heq⟩ := heq
      exact heq ▸ .sent hsteady he heq
    | provision | swap => cases hturning
    | wake event queued =>
      cases event with
      | provisioned => cases hturning
      | _ => cases hs; exact .kept hsteady
    | _ => cases hs; exact .kept hsteady
  | true =>
    unfold Engine.turning at hturning
    split at hturning
    · simp only [Engine.step] at he
      split at he <;> cases he
      exact .provision ‹_› rfl hs
    · simp only [Engine.step] at he
      split at he <;> cases he
      cases hs
      exact .swap ‹_› rfl
    · simp only [Engine.step] at he
      split at he
      · exact .provisioned ‹_› (Engine.answered_provisioned he) hs
      · cases he
    · cases hturning

theorem LiveInv.follow (h : LiveInv s fold? since) (hinv : EngineInv crc start s.engine)
    (hown : s.manifest.Owned s.claim) (hs : s.Follows crc config sha256 e s') :
    ∃ fold? since, LiveInv s' fold? since := by
  cases hs with
  | kept hsteady => exact ⟨fold?, since, h.steady hsteady s.prefixes⟩
  | rechecked hsteady hfinish =>
    obtain ⟨-, -, -, -, hstore, -⟩ := ManifestSystem.finish_cases hfinish
    exact ⟨fold?, since, (h.refreshed hfinish (hown.of_store hstore)).steady hsteady s.prefixes⟩
  | sealing hphase hsteady hstopped =>
    have hoff := h.seal_off (by simp [hphase])
    exact ⟨fold?, since, (h.steady hsteady s.prefixes).shutdown hoff hstopped⟩
  | reserved hsteady | sent hsteady => exact ⟨fold?, since, h.steady hsteady _⟩
  | provision hphase he hs =>
    obtain ⟨fold?, hnext⟩ := h.provision hown hphase (he ▸ hs)
    exact ⟨fold?, since, hnext⟩
  | swap hphase he => exact ⟨fold?, since, he ▸ h.swap hphase⟩
  | provisioned hphase hanswered hs =>
    have hrun := hinv.free (congrArg Phase.free hphase)
    exact h.provisioned hown (by simp [hphase]) hrun.active_lt hanswered hs

theorem LiveInv.step (h : LiveInv s fold? since) (hinv : EngineInv crc start s.engine)
    (hown : s.manifest.Owned s.claim) {action : LiveWal.Action n}
    (hs : s.step crc sha256 config action = some s') (hown' : s'.manifest.Owned s'.claim) :
    ∃ fold? since, LiveInv s' fold? since := by
  cases action with
  | engine action =>
    obtain ⟨e, he, hfollow⟩ := Option.bind_eq_some_iff.1 hs
    exact h.follow hinv hown (.of_step he hfollow)
  | hash i =>
    cases hs
    exact ⟨fold?, since, h.move _ rfl rfl rfl rfl h.writer.swapping h.writer.requested
      h.writer.shutdown⟩
  | refresh =>
    simp only [LiveWal.step] at hs
    split at hs
    · split_ifs at hs
      obtain ⟨manifest, hcall, rfl⟩ := Option.map_eq_some_iff.1 hs
      exact ⟨fold?, since, h.refresh hcall hown'⟩
    · cases hs
  | register =>
    simp only [LiveWal.step] at hs
    split at hs
    · rename_i hworker
      have hok := h.worker
      rw [hworker] at hok
      cases hok
    · cases hs
  | finishWork => exact ⟨fold?, since, h.finishWork hown hs⟩
  | sealRefill => exact ⟨fold?, since, h.sealRefill hown hs⟩
  | sealFold =>
    obtain ⟨fold?, hnext⟩ := h.sealFold hown hs
    exact ⟨fold?, since, hnext⟩
  | finishSeal => exact ⟨fold?, since, h.finishSeal hown hs⟩
  | manifest action =>
    obtain ⟨hpermits, hs⟩ := Option.ite_none_right_eq_some.1 hs
    obtain ⟨manifest, hstep, rfl⟩ := Option.map_eq_some_iff.1 hs
    exact ⟨fold?, since, h.other hpermits hstep hown'⟩

end Step

end Chorus
