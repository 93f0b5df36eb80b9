import Chorus.Engine.Live
import Chorus.Engine.Proofs.SteadyProofs
import Chorus.Manifest.Proofs.EraProofs

/-!
# Folds of a live engine

`LiveInv` is how the writer's names and the register agree: while no swap is pending the register
shows the active segment as tail and the registered spare as pending; while one is pending, the
swapped-out segment and the active one, or the outcome of the fold. The spare that a fold names is
kept until the fold is confirmed, so all requests for one swap are the same request.
-/

namespace Chorus

open Concurrency ManifestRecord Manifest

variable {n : Nat} {crc : Bytes → Nat} {sha256 : Bytes → String}
  {config : WalEngineConfig} {start : Nat} {s s' : LiveWal n} {e : Engine n} {writing : Bool}
  {fold? : Option PendingFold} {fold : PendingFold} {since self : Nat} {claim : WriterClaim}
  {manifest manifest' : ManifestSystem}

/-! ## The handles in use -/

namespace ManifestSystem

/-- A handle of the incarnation is idle with a cache of the era. -/
def IdleAt (manifest : ManifestSystem) (claim : WriterClaim) (since : Nat) (handle : Nat) : Prop :=
  ∃ m, manifest.handles[handle]? = some (.idle m) ∧ m.claimed = claim ∧ since ≤ m.version

/-- The writer's own handle is idle, or reads the register again. -/
def SelfOk (manifest : ManifestSystem) (claim : WriterClaim) (since : Nat) (self : Nat) : Prop :=
  manifest.IdleAt claim since self ∨ ∃ c p, manifest.handles[self]? = some (.busy c p) ∧
    c.author.call = .refresh ∧ wp (storeMachine c.author) p Store.Grows (Sends c.author)
      (fun result _ => result.1.claimed = claim ∧ since ≤ result.1.version) manifest.store

/-- A handle of the incarnation runs the fold of the era. -/
def Folding (manifest : ManifestSystem) (claim : WriterClaim) (fold : PendingFold) (since : Nat)
    (handle : Nat) : Prop :=
  ∃ c p, manifest.handles[handle]? = some (.busy c p) ∧ c.author.call = .foldPending fold ∧
    c.author.handle = claim ∧ since ≤ c.cachedAt ∧
    p.Returns fun result => ∀ value, result.2 = .ok value → FoldCached fold result.1.record

/-- A handle whose fold has returned without an error. -/
def Folded (manifest : ManifestSystem) (fold : PendingFold) (handle : Nat) : Prop :=
  ∃ m, manifest.handles[handle]? = some (.idle m) ∧ FoldCached fold m.record

end ManifestSystem

/-- What the worker may be at. Spares are registered by folds only. -/
inductive ProvisionWorker.Ok (manifest : ManifestSystem) (claim : WriterClaim) (self : Nat)
    (fold? : Option PendingFold) (since : Nat) : ProvisionWorker → Prop where
  | idle : Ok manifest claim self fold? since .idle
  | creating {id : SegmentId} : Ok manifest claim self fold? since (.creating id none)
  | folding {handle : Nat} {fold : PendingFold} (hself : handle ≠ self) (hfold : fold? = some fold)
      (hfolding : manifest.Folding claim fold since handle) :
        Ok manifest claim self fold? since (.folding handle)
  | folded {handle : Nat} {fold : PendingFold} (hself : handle ≠ self) (hfold : fold? = some fold)
      (hfolded : manifest.Folded fold handle) :
        Ok manifest claim self fold? since (.done (.folded handle))
  | failed {error : ProtocolError} : Ok manifest claim self fold? since (.done (.failed error))

/-- What the shutdown seal may be at. -/
inductive ShutdownSeal.Ok (manifest : ManifestSystem) (claim : WriterClaim) (self : Nat)
    (worker : ProvisionWorker) (fold? : Option PendingFold) (since : Nat) :
    ShutdownSeal → Prop where
  | off : Ok manifest claim self worker fold? since .off
  | ready : Ok manifest claim self worker fold? since .ready
  | refilling {id : SegmentId} {handle : Nat} (hself : handle ≠ self)
      (hworker : worker.handle? ≠ some handle)
      (hidle : manifest.IdleAt claim since handle) :
        Ok manifest claim self worker fold? since (.refilling id handle)
  | folding {handle : Nat} {fold : PendingFold} (hself : handle ≠ self)
      (hworker : worker.handle? ≠ some handle)
      (hfold : fold? = some fold) (hfolding : manifest.Folding claim fold since handle) :
      Ok manifest claim self worker fold? since (.folding handle)
  | ended : Ok manifest claim self worker fold? since .ended

def ShutdownSeal.submitted : ShutdownSeal → Bool
  | .folding _ | .ended => true
  | _ => false

/-! ## The agreement -/

namespace LiveWal

/-- The frontier that the writer expects in the register. -/
def frontier (s : LiveWal n) : Frontier :=
  match s.engine.rotation.swap?, s.names with
  | some swap, some names => ⟨some names.id, swap.baseRecordIndex, some names.successorId⟩
  | _, _ => ⟨some (s.ids s.engine.activeSegment), s.engine.baseRecordIndex,
      s.engine.spare.map fun spare => s.ids spare.segment⟩

structure WriterOk (s : LiveWal n) : Prop where
  swapping : s.engine.phase = .swap → s.engine.rotation = .due
  draining : ∀ swap, s.engine.rotation.swap? = some swap → ∃ names, s.names = some names ∧
    names.successorId = s.ids s.engine.activeSegment ∧
    s.engine.baseRecordIndex = swap.endRecordIndex + 1
  settled : s.engine.rotation.swap? = none → s.engine.spare.any (·.registered) = true
  refill : s.engine.rotation.swap?.isSome → s.engine.spare.all (!·.registered) = true
  requested : ∀ attempt, s.engine.spareRequested = some attempt →
    s.engine.rotation.swap?.isSome ∧ attempt ≠ .registered ∧ (attempt = .unregistered →
      s.engine.spare = none)
  shutdown : s.shutdownSeal ≠ .off → s.engine.phase = .stopped

/-- A fold call that has returned found its frontier or its outcome, and was not fenced. -/
def Answered (manifest : ManifestSystem) (claim : WriterClaim) (requests : List FoldRequest)
    (c : Completion) : Prop :=
  c.endedAt ≤ manifest.store.version ∧
  ∃ request ∈ requests, c.author.call = .foldPending request.fold ∧ c.author.handle = claim ∧
    (∀ v r, c.cachedAt ≤ v → v ≤ c.endedAt → manifest.store.At v r →
      r.frontier = request.fold.before ∨ FoldShown request.fold r) ∧
    ∀ reason, c.outcome ≠ .error (.fenced reason)

end LiveWal

structure LiveInv (s : LiveWal n) (fold? : Option PendingFold) (since : Nat) : Prop where
  writer : s.WriterOk
  claimed : s.claim.epoch ≠ 0
  era : EraInv s.manifest s.claim s.frontier fold? since
  self : s.manifest.SelfOk s.claim since s.self
  submitted : ∀ fold, fold? = some fold → (∃ request ∈ s.requests, request.fold = fold) ∧
    ((∃ request, s.foldRequest = some request ∧ request.fold = fold) ∨
      s.shutdownSeal.submitted = true)
  worker : s.worker.Ok s.manifest s.claim s.self fold? since
  shutdownSeal : s.shutdownSeal.Ok s.manifest s.claim s.self s.worker fold? since
  answers : ∀ c ∈ s.answers, LiveWal.Answered s.manifest s.claim s.requests c

/-! ## Steps of the register -/

section Register

variable {act : ManifestSystem.Action} {handle : Nat}

/-- The action does not interfere with the handle: it may only take its call further. -/
def ManifestSystem.Action.Spares (act : ManifestSystem.Action) (handle : Nat) : Prop :=
  act.target? ≠ some handle ∨ ∃ choice, act = .step handle choice

/-- A document of a grown register that is not newer than the old one was there before. -/
theorem Store.At.of_grows {t t' : Store Author} {v : Nat} {r : ManifestRecord} (hg : t.Grows t')
    (h : t'.At v r) (hle : v ≤ t.version) : t.At v r := by
  obtain ⟨r', a, hentry⟩ := History.exists_entry h.pos hle
  have hat : t.At v r' := ⟨a, hentry⟩
  obtain ⟨a', hentry'⟩ := h
  obtain ⟨b, hgrown⟩ := hat.mono hg
  obtain ⟨rfl, -⟩ := hentry'.unique hgrown
  exact hat

namespace ManifestSystem

theorem idle_of_spares {m : Manifest} (hi : manifest.handles[handle]? = some (.idle m))
    (hs : manifest.step act = some manifest') (hact : act.Spares handle) :
    manifest'.handles[handle]? = some (.idle m) := by
  rcases hact with htarget | ⟨choice, rfl⟩
  · exact handle_of_ne hs htarget hi
  · simp [step, hi] at hs

theorem IdleAt.step (h : manifest.IdleAt claim since handle)
    (hs : manifest.step act = some manifest') (hact : act.Spares handle) :
    manifest'.IdleAt claim since handle := by
  obtain ⟨m, hi, hm⟩ := h
  exact ⟨m, idle_of_spares hi hs hact, hm⟩

theorem Folded.step (h : manifest.Folded fold handle) (hs : manifest.step act = some manifest')
    (hact : act.Spares handle) : manifest'.Folded fold handle := by
  obtain ⟨m, hi, hm⟩ := h
  exact ⟨m, idle_of_spares hi hs hact, hm⟩

theorem Folding.step (h : manifest.Folding claim fold since handle)
    (hs : manifest.step act = some manifest') (hact : act.Spares handle) :
    manifest'.Folding claim fold since handle := by
  obtain ⟨c, p, hi, hcall, hclaim, hcached, hreturns⟩ := h
  rcases hact with htarget | ⟨choice, rfl⟩
  · exact ⟨c, p, handle_of_ne hs htarget hi, hcall, hclaim, hcached, hreturns⟩
  · obtain ⟨p', hi', hstep⟩ := handle_of_step hs hi
    exact ⟨c, p', hi', hcall, hclaim, hcached, hreturns.step hstep⟩

theorem SelfOk.step (h : manifest.SelfOk claim since self)
    (hgrows : manifest.store.Grows manifest'.store) (hs : manifest.step act = some manifest')
    (hact : act.Spares self) : manifest'.SelfOk claim since self := by
  rcases h with hidle | ⟨c, p, hi, hcall, hwp⟩
  · exact .inl (hidle.step hs hact)
  · rcases hact with htarget | ⟨choice, rfl⟩
    · exact .inr ⟨c, p, handle_of_ne hs htarget hi, hcall, wp_rely hwp (.single hgrows)⟩
    · obtain ⟨p', hi', hstep⟩ := handle_of_step hs hi
      exact .inr ⟨c, p', hi', hcall, (wp_step hwp hstep).2⟩

end ManifestSystem

theorem ProvisionWorker.Ok.step {worker : ProvisionWorker}
    (h : worker.Ok manifest claim self fold? since) (hs : manifest.step act = some manifest')
    (hact : ∀ handle, worker.handle? = some handle → act.Spares handle) :
    worker.Ok manifest' claim self fold? since := by
  cases h with
  | idle => exact .idle
  | creating => exact .creating
  | folding hself hfold hfolding => exact .folding hself hfold (hfolding.step hs (hact _ rfl))
  | folded hself hfold hfolded => exact .folded hself hfold (hfolded.step hs (hact _ rfl))
  | failed => exact .failed

theorem ShutdownSeal.Ok.step {shutdownSeal : ShutdownSeal} {worker : ProvisionWorker}
    (h : shutdownSeal.Ok manifest claim self worker fold? since)
    (hs : manifest.step act = some manifest')
    (hact : ∀ handle, shutdownSeal.handle? = some handle → act.Spares handle) :
    shutdownSeal.Ok manifest' claim self worker fold? since := by
  cases h with
  | off => exact .off
  | ready => exact .ready
  | refilling hself hworker hidle => exact .refilling hself hworker (hidle.step hs (hact _ rfl))
  | folding hself hworker hfold hfolding =>
    exact .folding hself hworker hfold (hfolding.step hs (hact _ rfl))
  | ended => exact .ended

theorem LiveWal.Answered.grow {requests : List FoldRequest} {c : Completion}
    (h : Answered manifest claim requests c) (hgrows : manifest.store.Grows manifest'.store) :
    Answered manifest' claim requests c := by
  obtain ⟨hend, request, hmem, hcall, hclaim, hfound, houtcome⟩ := h
  refine ⟨hend.trans hgrows.version_le, request, hmem, hcall, hclaim,
    fun v r hv hle hat => ?_, houtcome⟩
  exact hfound v r hv hle (Store.At.of_grows hgrows hat (hle.trans hend))

/-- A step of the register keeps the agreement if the handles in use are in order afterwards and a
call that it starts is harmless. -/
theorem LiveInv.register (h : LiveInv s fold? since) (hs : s.manifest.step act = some manifest)
    (hown : manifest.Owned s.claim) (hself : manifest.SelfOk s.claim since s.self)
    (hworker : s.worker.Ok manifest s.claim s.self fold? since)
    (hseal : s.shutdownSeal.Ok manifest s.claim s.self s.worker fold? since)
    (hcall : ∀ i call m, act = .call i call → s.manifest.handles[i]? = some (.idle m) →
      (Author.of m call).Harmless s.manifest.store.history s.claim fold? since)
    (hopen : ∀ owner, act.opens? = some owner → owner ≠ s.claim.owner) :
    LiveInv { s with manifest := manifest } fold? since := by
  have hgrows : s.manifest.store.Grows manifest.store := (h.era.system.step_store hs).2
  exact
    { writer := ⟨h.writer.swapping, h.writer.draining, h.writer.settled, h.writer.refill,
        h.writer.requested, h.writer.shutdown⟩
      claimed := h.claimed
      era := h.era.step hs hown hcall hopen
      self := hself
      submitted := h.submitted
      worker := hworker
      shutdownSeal := hseal
      answers := fun c hc => (h.answers c hc).grow hgrows }

/-- What other tasks and processes may do spares the handles in use. -/
theorem LiveWal.spares_of_permits (hpermits : s.permits act = true)
    (hholds : s.holds handle = true) : act.Spares handle := by
  have hne : ∀ i, (!s.holds i) = true → some i ≠ some handle := by
    intro i hi heq
    cases heq
    rw [hholds] at hi
    cases hi
  cases act with
  | openHandle => exact .inl nofun
  | offPathAccess => exact .inl nofun
  | deliver => exact .inl nofun
  | installUpdate i j => exact .inl (hne i hpermits)
  | finish i => exact .inl (hne i hpermits)
  | call i call =>
    simp only [LiveWal.permits, Bool.and_eq_true] at hpermits
    exact .inl (hne i hpermits.1)
  | step i choice =>
    by_cases hi : i = handle
    · exact .inr ⟨choice, by rw [hi]⟩
    · exact .inl fun heq => hi (Option.some.inj heq)

theorem LiveWal.opens_of_permits (hpermits : s.permits act = true) :
    ∀ owner, act.opens? = some owner → owner ≠ s.claim.owner := by
  intro owner hopens
  cases act with
  | openHandle owner' replicaCount bucketNames maxDirectoryBytes maxRetries =>
    cases hopens
    simpa [LiveWal.permits] using hpermits
  | _ => cases hopens

theorem LiveInv.other (h : LiveInv s fold? since) (hpermits : s.permits act = true)
    (hs : s.manifest.step act = some manifest) (hown : manifest.Owned s.claim) :
    LiveInv { s with manifest := manifest } fold? since := by
  have hgrows : s.manifest.store.Grows manifest.store := (h.era.system.step_store hs).2
  refine h.register hs hown ?_ ?_ ?_ ?_ ?_
  · exact h.self.step hgrows hs (LiveWal.spares_of_permits hpermits (by simp [LiveWal.holds]))
  · refine h.worker.step hs fun handle hhandle => LiveWal.spares_of_permits hpermits ?_
    simp [LiveWal.holds, hhandle]
  · refine h.shutdownSeal.step hs fun handle hhandle => LiveWal.spares_of_permits hpermits ?_
    simp [LiveWal.holds, hhandle]
  · rintro i call m rfl hi howner
    simp only [LiveWal.permits, hi, Bool.and_eq_true, Bool.or_eq_true, bne_iff_ne] at hpermits
    exact .inl (hpermits.2.resolve_left fun hne => hne howner)
  · exact LiveWal.opens_of_permits hpermits

end Register

/-! ## The writer's own handle -/

section Self

theorem ProvisionWorker.Ok.ne_self {worker : ProvisionWorker} {handle : Nat}
    (h : worker.Ok manifest claim self fold? since) (hhandle : worker.handle? = some handle) :
    handle ≠ self := by
  cases h with
  | idle => cases hhandle
  | creating => cases hhandle
  | folding hself =>
    cases hhandle
    exact hself
  | folded hself =>
    cases hhandle
    exact hself
  | failed => cases hhandle

theorem ShutdownSeal.Ok.ne_self {shutdownSeal : ShutdownSeal} {worker : ProvisionWorker}
    {handle : Nat} (h : shutdownSeal.Ok manifest claim self worker fold? since)
    (hhandle : shutdownSeal.handle? = some handle) :
    handle ≠ self ∧ worker.handle? ≠ some handle := by
  cases h with
  | off => cases hhandle
  | ready => cases hhandle
  | refilling hself hworker =>
    cases hhandle
    exact ⟨hself, hworker⟩
  | folding hself hworker =>
    cases hhandle
    exact ⟨hself, hworker⟩
  | ended => cases hhandle

theorem ProvisionWorker.Ok.lt {worker : ProvisionWorker} {handle : Nat}
    (h : worker.Ok manifest claim self fold? since) (hhandle : worker.handle? = some handle) :
    handle < manifest.handles.length := by
  cases h with
  | idle => cases hhandle
  | creating => cases hhandle
  | folding _ _ hfolding =>
    cases hhandle
    obtain ⟨c, p, hi, -⟩ := hfolding
    exact (List.getElem?_eq_some_iff.1 hi).1
  | folded _ _ hfolded =>
    cases hhandle
    obtain ⟨m, hi, -⟩ := hfolded
    exact (List.getElem?_eq_some_iff.1 hi).1
  | failed => cases hhandle

/-- An action on the writer's own handle is harmless to the others. -/
theorem LiveInv.registerSelf (h : LiveInv s fold? since) {act : ManifestSystem.Action}
    (hs : s.manifest.step act = some manifest) (hown : manifest.Owned s.claim)
    (htarget : act.target? = some s.self) (hself : manifest.SelfOk s.claim since s.self)
    (hcall : ∀ i call, act = .call i call → call.isHousekeeping = true) :
    LiveInv { s with manifest := manifest } fold? since := by
  refine h.register hs hown hself ?_ ?_ ?_ ?_
  · refine h.worker.step hs fun handle hhandle => .inl fun heq => ?_
    rw [htarget] at heq
    exact h.worker.ne_self hhandle (Option.some.inj heq).symm
  · refine h.shutdownSeal.step hs fun handle hhandle => .inl fun heq => ?_
    rw [htarget] at heq
    exact (h.shutdownSeal.ne_self hhandle).1 (Option.some.inj heq).symm
  · exact fun i call m hact _ _ => .inl (hcall i call hact)
  · intro owner hopens
    cases act with
    | openHandle => cases htarget
    | _ => cases hopens

theorem LiveInv.refresh (h : LiveInv s fold? since)
    (hs : s.manifest.step (.call s.self .refresh) = some manifest) (hown : manifest.Owned s.claim) :
    LiveInv { s with manifest := manifest } fold? since := by
  obtain ⟨m, hi, hstore, hbusy⟩ := ManifestSystem.call_cases hs
  refine h.registerSelf hs hown rfl ?_ ?_
  · rcases h.self with ⟨m', hi', hclaimed, hsince⟩ | ⟨c, p, hi', -⟩
    · rw [hi, Option.some.injEq, HandleState.idle.injEq] at hi'
      subst hi'
      refine .inr ⟨_, _, hbusy, rfl, ?_⟩
      rw [hstore]
      refine wp_mono (wp_refresh_forward (h.era.system.idle s.self m hi)) (fun _ _ => id)
        (fun _ _ => id) ?_
      exact fun result _ hresult => ⟨hresult.1.trans hclaimed, hsince.trans hresult.2⟩
    · rw [hi] at hi'
      cases hi'
  · rintro i call heq
    cases heq
    rfl

theorem LiveInv.refreshed (h : LiveInv s fold? since)
    (hs : s.manifest.step (.finish s.self) = some manifest) (hown : manifest.Owned s.claim) :
    LiveInv { s with manifest := manifest } fold? since := by
  obtain ⟨c, m, outcome, hi, hstore, -, hidle⟩ := ManifestSystem.finish_cases hs
  refine h.registerSelf hs hown rfl ?_ fun _ _ hact => nomatch hact
  rcases h.self with ⟨m', hi', -⟩ | ⟨c', p, hi', hcall, hwp⟩
  · rw [hi] at hi'
    cases hi'
  · rw [hi, Option.some.injEq, HandleState.busy.injEq] at hi'
    obtain ⟨rfl, rfl⟩ := hi'
    obtain ⟨hclaimed, hsince⟩ := wp_value hwp rfl
    exact .inl ⟨m, hidle (by simp [hcall]), hclaimed, hsince⟩

theorem LiveInv.cloned (h : LiveInv s fold? since)
    (hs : s.manifest.step (.offPathAccess s.self) = some manifest) (hown : manifest.Owned s.claim) :
    LiveInv { s with manifest := manifest } fold? since ∧
      manifest.IdleAt s.claim since s.manifest.handles.length ∧ s.manifest.handles.length ≠ s.self ∧
      s.worker.handle? ≠ some s.manifest.handles.length := by
  obtain ⟨m, hi, -, hstore, hhandles⟩ := ManifestSystem.offPathAccess_cases hs
  have hspares : ∀ handle, (ManifestSystem.Action.offPathAccess s.self).Spares handle :=
    fun handle => .inl nofun
  have hgrows : s.manifest.store.Grows manifest.store := (h.era.system.step_store hs).2
  refine ⟨?_, ?_, ?_, ?_⟩
  · exact h.register hs hown (h.self.step hgrows hs (hspares _))
      (h.worker.step hs fun handle _ => hspares handle)
      (h.shutdownSeal.step hs fun handle _ => hspares handle) (fun _ _ _ hact => nomatch hact) nofun
  · rcases h.self with ⟨m', hi', hm'⟩ | ⟨c, p, hi', -⟩
    · rw [hi, Option.some.injEq, HandleState.idle.injEq] at hi'
      subst hi'
      refine ⟨m, ?_, hm'⟩
      rw [hhandles, List.getElem?_append_right (Nat.le_refl _), Nat.sub_self]
      rfl
    · rw [hi] at hi'
      cases hi'
  · exact Nat.ne_of_gt (List.getElem?_eq_some_iff.1 hi).1
  · intro hhandle
    exact absurd (h.worker.lt hhandle) (Nat.lt_irrefl _)

end Self

/-! ## The writer between two swaps -/

section Writer

theorem LiveInv.foldRequest_of_running (h : LiveInv s (some fold) since)
    (hphase : s.engine.phase ≠ .stopped) :
    ∃ request, s.foldRequest = some request ∧ request.fold = fold := by
  refine (h.submitted fold rfl).2.resolve_right fun hsubmitted =>
    hphase (h.writer.shutdown fun hoff => ?_)
  rw [hoff] at hsubmitted
  cases hsubmitted

theorem LiveWal.foldRequest_eq_some {request : FoldRequest} (h : s.foldRequest = some request) :
    ∃ swap names spare, s.engine.rotation.swap? = some swap ∧ s.names = some names ∧
      s.engine.spare = some spare ∧
      request = ⟨pendingFoldRequest swap names (s.ids spare.segment), swap.writer,
        s.engine.activeSegment⟩ := by
  unfold LiveWal.foldRequest at h
  split at h
  · rename_i swap names spare hswap hnames hspare
    exact ⟨swap, names, spare, hswap, hnames, hspare, (Option.some.inj h).symm⟩
  · cases h

/-- While nothing can be folded, nothing was requested. -/
theorem LiveInv.fold_eq_none (h : LiveInv s fold? since)
    (hphase : s.engine.phase ≠ .stopped ∨ s.shutdownSeal.submitted = false)
    (hfree : s.engine.rotation.swap? = none ∨ s.engine.spare = none) : fold? = none := by
  cases fold? with
  | none => rfl
  | some fold =>
    have hrequest : ∃ request, s.foldRequest = some request ∧ request.fold = fold := by
      rcases hphase with hphase | hseal
      · exact h.foldRequest_of_running hphase
      · exact (h.submitted fold rfl).2.resolve_right (by rw [hseal]; exact Bool.false_ne_true)
    obtain ⟨request, hrequest, -⟩ := hrequest
    obtain ⟨swap, names, spare, hswap, -, hspare, -⟩ := LiveWal.foldRequest_eq_some hrequest
    rcases hfree with hnone | hnone
    · rw [hswap] at hnone
      cases hnone
    · rw [hspare] at hnone
      cases hnone

theorem LiveInv.seal_off (h : LiveInv s fold? since) (hphase : s.engine.phase ≠ .stopped) :
    s.shutdownSeal = .off := by
  by_contra hne
  exact hphase (h.writer.shutdown hne)

theorem LiveInv.move (h : LiveInv s fold? since) (prefixes : Nat → AdmittedPrefix)
    (hswap : e.rotation.swap? = s.engine.rotation.swap?) (hspare : e.spare = s.engine.spare)
    (hactive : e.activeSegment = s.engine.activeSegment)
    (hbase : e.baseRecordIndex = s.engine.baseRecordIndex)
    (hswapping : e.phase = .swap → e.rotation = .due)
    (hrequested : ∀ attempt, e.spareRequested = some attempt →
      e.rotation.swap?.isSome ∧ attempt ≠ .registered ∧ (attempt = .unregistered → e.spare = none))
    (hshutdown : s.shutdownSeal ≠ .off → e.phase = .stopped) :
    LiveInv { s with engine := e, prefixes := prefixes } fold? since := by
  have hfrontier : ({ s with engine := e, prefixes := prefixes } : LiveWal n).frontier =
      s.frontier := by
    simp only [LiveWal.frontier, hswap, hspare, hactive, hbase]
  have hrequest : ({ s with engine := e, prefixes := prefixes } : LiveWal n).foldRequest =
      s.foldRequest := by
    simp only [LiveWal.foldRequest, hswap, hspare, hactive]
  exact
    { writer :=
        { swapping := hswapping
          draining := fun swap hsome => by
            simp only [hactive, hbase]
            exact h.writer.draining swap (hswap ▸ hsome)
          settled := fun hnone => by
            simp only [hspare]
            exact h.writer.settled (hswap ▸ hnone)
          refill := fun hsome => by
            simp only [hspare]
            exact h.writer.refill (hswap ▸ hsome)
          requested := hrequested
          shutdown := hshutdown }
      claimed := h.claimed
      era := hfrontier ▸ h.era
      self := h.self
      submitted := fun fold hfold => by
        rw [hrequest]
        exact h.submitted fold hfold
      worker := h.worker
      shutdownSeal := h.shutdownSeal
      answers := h.answers }

theorem LiveInv.steady (h : LiveInv s fold? since) (hsteady : Engine.Steady crc writing s.engine e)
    (prefixes : Nat → AdmittedPrefix) :
    LiveInv { s with engine := e, prefixes := prefixes } fold? since := by
  obtain ⟨segments, hview, -⟩ := hsteady.view
  have hswap : e.rotation.swap? = s.engine.rotation.swap? := congrArg WriterView.swap hview
  have hspare : e.spare = s.engine.spare := congrArg WriterView.spare hview
  have hrequested : e.spareRequested = s.engine.spareRequested :=
    congrArg WriterView.requested hview
  refine h.move prefixes hswap hspare (congrArg WriterView.active hview)
    (congrArg WriterView.base hview)
    (hsteady.swapping h.writer.swapping) ?_ fun hseal => hsteady.stopped (h.writer.shutdown hseal)
  rw [hswap, hspare, hrequested]
  exact h.writer.requested

/-- An answer or a request changes only what was requested. -/
theorem LiveInv.moveRequested (h : LiveInv s fold? since) (requested : Option ProvisionAttempt)
    (hfrom : s.engine.phase ≠ .stopped)
    (hview : e.view = { s.engine.view with requested := requested }) (hphase : e.phase ≠ .swap)
    (hrequested : ∀ attempt, requested = some attempt →
      s.engine.rotation.swap?.isSome ∧ attempt ≠ .registered ∧
      (attempt = .unregistered → s.engine.spare = none)) :
    LiveInv { s with engine := e } fold? since := by
  have hswap : e.rotation.swap? = s.engine.rotation.swap? := congrArg WriterView.swap hview
  have hspare : e.spare = s.engine.spare := congrArg WriterView.spare hview
  refine h.move s.prefixes hswap hspare (congrArg WriterView.active hview)
    (congrArg WriterView.base hview)
    (fun hswap => absurd hswap hphase) ?_ fun hseal => absurd (h.writer.shutdown hseal) hfrom
  rw [hswap, hspare, show e.spareRequested = requested from congrArg WriterView.requested hview]
  exact hrequested

theorem LiveInv.shutdown (h : LiveInv s fold? since) (hoff : s.shutdownSeal = .off)
    (hphase : s.engine.phase = .stopped) :
    LiveInv { s with shutdownSeal := .ready } fold? since := by
  refine ⟨?_, h.claimed, h.era, h.self, fun fold hfold => ?_, h.worker, .ready, h.answers⟩
  · exact ⟨h.writer.swapping, h.writer.draining, h.writer.settled, h.writer.refill,
      h.writer.requested, fun _ => hphase⟩
  · have hsubmitted := h.submitted fold hfold
    rw [hoff] at hsubmitted
    exact hsubmitted

end Writer

end Chorus
