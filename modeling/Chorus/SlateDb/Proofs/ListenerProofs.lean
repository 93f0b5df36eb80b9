import Chorus.SlateDb.Proofs.CoordinationProofs

/-!
# Proofs: what listeners and barriers see

The snapshot of a publisher is never ahead of the progress, and one with a failure is the progress.
A publisher that is about to close has reported its committed position, so a close through the
progress announces exactly what was committed when the first failure was recorded.
-/

namespace Chorus.SlateDb

open Concurrency Relation

variable {n : Nat} {crc : Bytes → Nat} {config : WalEngineConfig} {base : Nat}

/-- A snapshot that was taken of the progress or of an earlier state of it. -/
def Progress.Behind (base : Nat) (snapshot progress : Progress) : Prop :=
  snapshot.committedEnd base ≤ progress.committedEnd base ∧ (snapshot.failure ≠ none →
    snapshot = progress)

theorem Progress.Behind.refl (progress : Progress) : Behind base progress progress :=
  ⟨le_rfl, fun _ => rfl⟩

theorem Progress.Behind.trans {a b c : Progress} (hab : Behind base a b) (hbc : Behind base b c) :
    Behind base a c := by
  refine ⟨hab.1.trans hbc.1, fun hfailed => ?_⟩
  have heq := hab.2 hfailed
  rw [heq] at hfailed
  exact heq.trans (hbc.2 hfailed)

theorem Progress.behind_fail (progress : Progress) (base : Nat) (error : WalError) :
    Behind base progress (progress.fail error) := by
  constructor
  · rw [Progress.committedEnd, Progress.committedEnd, progress.committed_fail error]
  · intro hfailed
    rw [Progress.fail, if_neg (fun hnone => hfailed (Option.isNone_iff_eq_none.1 hnone))]

/-- What the stage of a publisher says about the progress and the observer. -/
def PublisherStage.Current (base : Nat) (progress : Progress) (o : Observer) : PublisherStage → Prop
  | .commit snapshot => snapshot.Behind base progress
  | .close snapshot => snapshot.Behind base progress ∧
      (o.closedReason = none → snapshot.committedEnd base ≤ o.lastFlushed)
  | _ => True

theorem PublisherStage.Current.mono {progress progress' : Progress} {o o' : Observer}
    {stage : PublisherStage} (h : stage.Current base progress o)
    (hprogress : progress.Behind base progress') (ho : o.Advances o') :
    stage.Current base progress' o' := by
  cases stage with
  | read | wait | done => trivial
  | commit snapshot => exact Progress.Behind.trans h hprogress
  | close snapshot =>
    refine ⟨h.1.trans hprogress, fun hopen => ?_⟩
    refine (h.2 (Option.eq_none_iff_forall_ne_some.2 fun error herror => ?_)).trans ho.flushed
    cases hopen.symm.trans (ho.closed error herror).1

/-- A barrier has returned what the observer shows, and its wait will be ended. -/
structure Barrier.Justified (o : Observer) (barrier : Barrier) : Prop where
  ok : barrier.result = some (.ok ()) → barrier.walId ≤ o.lastFlushed
  error : ∀ error, barrier.result = some (.error error) →
    o.closedReason = some error ∧ o.lastFlushed < barrier.walId
  seen : barrier.seen ≤ o.changed
  /-- If what the barrier waits for has happened without a signal, the event is still to be
  delivered. -/
  signalled : barrier.result = none → barrier.waiting = true → barrier.seen = o.changed →
    barrier.walId ≤ o.lastFlushed ∨ o.closedReason ≠ none → o.events.Holds

theorem Barrier.Justified.mono {o o' : Observer} {barrier : Barrier} (h : barrier.Justified o)
    (ho : o.Advances o') : barrier.Justified o' := by
  refine ⟨fun hok => (h.ok hok).trans ho.flushed, fun error herror => ?_, h.seen.trans ho.changed,
    fun hresult hwaiting hseen hreached => ?_⟩
  · obtain ⟨hclosed, hlt⟩ := h.error error herror
    obtain ⟨hclosed', hlast⟩ := ho.closed error hclosed
    exact ⟨hclosed', hlast ▸ hlt⟩
  · have hsame : o'.changed = o.changed := le_antisymm (hseen ▸ h.seen) ho.changed
    rcases ho.signalled hsame with hholds | ⟨hempty, hlast, hclosed⟩
    · exact hholds
    · rw [hlast, hclosed] at hreached
      exact absurd (h.signalled hresult hwaiting (hseen.trans hsame) hreached) hempty

theorem Barrier.Justified.poll {o : Observer} {barrier barrier' : Barrier} (h : barrier.Justified o)
    (hpoll : barrier.poll o = some barrier') : barrier'.Justified o := by
  have hseen : (if barrier.waiting = true then o.changed else barrier.seen) ≤ o.changed := by
    split_ifs
    · exact le_rfl
    · exact h.seen
  unfold Barrier.poll at hpoll
  generalize (if barrier.waiting = true then o.changed else barrier.seen) = seen at hpoll hseen
  simp only at hpoll
  split_ifs at hpoll with hblocked hreached
  · cases hpoll
    exact ⟨fun _ => hreached, fun _ herror => (by cases herror), hseen,
      fun hnone => (by cases hnone)⟩
  · have hnone : barrier.result = none := Option.not_isSome_iff_eq_none.1 (not_or.1 hblocked).1
    split at hpoll
    · next error hclosed =>
      cases hpoll
      refine ⟨fun hok => (by cases hok), fun error' herror => ?_, hseen,
        fun hnone => (by cases hnone)⟩
      cases herror
      exact ⟨hclosed, not_le.1 hreached⟩
    · next hopen =>
      cases hpoll
      refine ⟨fun hok => ?_, fun error herror => ?_, hseen, fun _ _ _ hended => ?_⟩
      · cases hnone.symm.trans hok
      · cases hnone.symm.trans herror
      · exact absurd hended (not_or.2 ⟨hreached, not_not.2 hopen⟩)

structure PublicationInv (base : Nat) (p : Core n) : Prop where
  observer : ObserverInv p.observer
  started : base ≤ p.observer.lastFlushed
  reached : p.observer.lastFlushed ≤ p.progress.committedEnd base
  failedAt : p.progress.failure ≠ none → p.failedAt = some p.progress.committed
  publishers : ∀ publisher ∈ p.publishers, publisher.stage.Current base p.progress p.observer
  closed : p.closedThroughProgress = true → p.progress.failure ≠ none ∧
    p.observer.closedReason ≠ none ∧ p.observer.lastFlushed = p.progress.committedEnd base
  barriers : ∀ barrier ∈ p.barriers, barrier.Justified p.observer

namespace PublicationInv

variable {p p' : Core n}

/-- The observer advances, and the progress with it or not. -/
theorem setObserver (h : PublicationInv base p) {o : Observer} (ho : p.observer.Advances o)
    (hinv : ObserverInv o) (hreached : o.lastFlushed ≤ p.progress.committedEnd base) :
    PublicationInv base { p with observer := o } where
  observer := hinv
  started := h.started.trans ho.flushed
  reached := hreached
  failedAt := h.failedAt
  publishers publisher hpublisher := (h.publishers publisher hpublisher).mono (.refl _) ho
  closed hclosed := by
    obtain ⟨hfailed, hreason, hlast⟩ := h.closed hclosed
    obtain ⟨error, herror⟩ := Option.ne_none_iff_exists'.1 hreason
    obtain ⟨hclosed', hlast'⟩ := ho.closed error herror
    exact ⟨hfailed, by rw [hclosed']; nofun, hlast'.trans hlast⟩
  barriers barrier hbarrier := (h.barriers barrier hbarrier).mono ho

theorem observe (h : PublicationInv base p) {o : Observer} (ho : p.observer.Moves o) :
    PublicationInv base { p with observer := o } :=
  h.setObserver ho.advances (h.observer.moves ho) (ho.lastFlushed_eq.trans_le h.reached)

theorem fail (h : PublicationInv base p) (error : WalError) :
    PublicationInv base { p with
      progress := p.progress.fail error
      failedAt := if p.progress.failure.isNone then some p.progress.committed
        else p.failedAt } where
  observer := h.observer
  started := h.started
  reached := h.reached.trans (p.progress.behind_fail base error).1
  failedAt _ := by
    show (if p.progress.failure.isNone then _ else _) = some (p.progress.fail error).committed
    rw [p.progress.committed_fail error]
    split_ifs with hnone
    · rfl
    · exact h.failedAt fun hnone' => hnone (Option.isNone_iff_eq_none.2 hnone')
  publishers publisher hpublisher :=
    (h.publishers publisher hpublisher).mono (p.progress.behind_fail base error)
      (.refl _)
  closed hclosed := by
    obtain ⟨hfailed, hreason, hlast⟩ := h.closed hclosed
    have hsame : p.progress = p.progress.fail error := (p.progress.behind_fail base error).2 hfailed
    exact ⟨p.progress.failure_fail error, hreason, hsame ▸ hlast⟩
  barriers := h.barriers

theorem commit (h : PublicationInv base p) {position : Position} (hopen : p.progress.failure = none)
    (hnext : p.progress.committedEnd base < position.walId) :
    PublicationInv base { p with progress := { p.progress with committed := some position } } := by
  have hbehind : p.progress.Behind base { p.progress with committed := some position } :=
    ⟨hnext.le.trans (le_max_left _ _), fun hfailed => absurd hopen hfailed⟩
  refine { h with
    reached := h.reached.trans hbehind.1
    failedAt := fun hfailed => absurd hopen hfailed
    publishers := fun publisher hpublisher => ?_
    closed := fun hclosed => absurd hopen (h.closed hclosed).1 }
  exact (h.publishers publisher hpublisher).mono hbehind (.refl _)

theorem setPublisher (h : PublicationInv base p) {publisher : Publisher} (i : Nat)
    (hcurrent : publisher.stage.Current base p.progress p.observer) :
    PublicationInv base { p with publishers := p.publishers.set i publisher } := by
  refine { h with publishers := fun other hother => ?_ }
  rcases List.mem_or_eq_of_mem_set hother with hold | rfl
  · exact h.publishers other hold
  · exact hcurrent

/-- A publisher reports the committed position of its snapshot. -/
theorem publishCommit (h : PublicationInv base p) {snapshot : Progress}
    (hbehind : snapshot.Behind base p.progress) {o : Observer}
    (ho : o = match snapshot.committed with
      | some position => p.observer.committed position
      | none => p.observer) :
    PublicationInv base { p with observer := o } ∧ o.closedReason = p.observer.closedReason ∧
      (o.closedReason = none → snapshot.committedEnd base ≤ o.lastFlushed) := by
  subst ho
  rcases hcommitted : snapshot.committed with _ | position
  · refine ⟨{ h with }, rfl, fun _ => ?_⟩
    rw [Progress.committedEnd, hcommitted]
    exact h.started
  · have hend : snapshot.committedEnd base = max position.walId base := by
      rw [Progress.committedEnd, hcommitted]
    have hadvances := p.observer.advances_committed position
    have hreason := p.observer.closedReason_committed position
    refine ⟨h.setObserver hadvances (h.observer.committed position) ?_, hreason, fun hopen => ?_⟩
    · refine (p.observer.lastFlushed_committed_le position).trans (max_le h.reached ?_)
      exact (le_max_left _ _).trans (hend ▸ hbehind.1)
    · rw [hend]
      refine max_le ?_ (h.started.trans hadvances.flushed)
      exact p.observer.le_lastFlushed_committed position (hreason.symm.trans hopen)

/-- A publisher closes with everything reported that was committed before the failure. -/
theorem publishClose (h : PublicationInv base p) {snapshot : Progress} {error : WalError}
    (hcurrent : (PublisherStage.close snapshot).Current base p.progress p.observer)
    (hfailure : snapshot.failure = some error) :
    PublicationInv base { p with
      observer := p.observer.close error
      closedThroughProgress := p.closedThroughProgress ||
        (p.observer.closedReason.isNone && (p.observer.close error).closedReason.isSome) } := by
  have hfailed : snapshot.failure ≠ none := by
    rw [hfailure]
    nofun
  obtain rfl : snapshot = p.progress := hcurrent.1.2 hfailed
  have hmoved := h.observe (.close error)
  refine { hmoved with closed := fun hclosed => ?_ }
  rcases Bool.or_eq_true_iff.1 hclosed with hbefore | hnow
  · exact hmoved.closed hbefore
  · have hopen : p.observer.closedReason = none :=
      Option.isNone_iff_eq_none.1 (Bool.and_eq_true_iff.1 hnow).1
    refine ⟨hfailed, p.observer.closedReason_close error, ?_⟩
    rw [p.observer.lastFlushed_close error]
    exact le_antisymm h.reached (hcurrent.2 hopen)

theorem publish (h : PublicationInv base p) {i : Nat} {publisher publisher' : Publisher}
    {o : Observer} (hget : p.publishers[i]? = some publisher)
    (hpublish : publisher.publish p.progress p.observer = some (publisher', o)) :
    PublicationInv base { p with
      publishers := p.publishers.set i publisher'
      observer := o
      closedThroughProgress := p.closedThroughProgress ||
        (p.observer.closedReason.isNone && o.closedReason.isSome) } := by
  have hcurrent := h.publishers publisher (List.mem_of_getElem? hget)
  -- an observer with the same reason is not closed by this step
  have hsame : ∀ o : Observer, o.closedReason = p.observer.closedReason →
      (p.closedThroughProgress || (p.observer.closedReason.isNone && o.closedReason.isSome)) =
        p.closedThroughProgress := by
    intro o ho
    rw [ho]
    cases p.observer.closedReason <;> simp
  unfold Publisher.publish at hpublish
  split at hpublish
  · cases hpublish
    rw [hsame p.observer rfl]
    exact h.setPublisher i (.refl _)
  · next snapshot hstage =>
    rw [hstage] at hcurrent
    obtain ⟨rfl, ho⟩ := Prod.mk.inj (Option.some.inj hpublish)
    obtain ⟨hmoved, hreason, hreported⟩ := h.publishCommit hcurrent ho.symm
    rw [hsame o hreason]
    exact hmoved.setPublisher i ⟨hcurrent, hreported⟩
  · next snapshot hstage =>
    rw [hstage] at hcurrent
    split at hpublish
    · next error hfailure =>
      cases hpublish
      exact (h.publishClose hcurrent hfailure).setPublisher i trivial
    · cases hpublish
      rw [hsame p.observer rfl]
      refine h.setPublisher i ?_
      split_ifs <;> trivial
  · cases hpublish
    rw [hsame p.observer rfl]
    exact h.setPublisher i trivial
  · cases hpublish

theorem step (h : PublicationInv base p) (hstep : Core.Step crc config base p p') :
    PublicationInv base p' := by
  cases hstep with
  | observe ho => exact h.observe ho
  | fail error => exact h.fail error
  | commit position hopen hnext => exact h.commit hopen hnext
  | join forwarding =>
    refine { h with publishers := fun publisher hpublisher => ?_ }
    rcases List.mem_append.1 hpublisher with hold | hnew
    · exact h.publishers publisher hold
    · rw [List.mem_singleton.1 hnew]
      trivial
  | publish hget hpublish => exact h.publish hget hpublish
  | endForward hget hend =>
    refine h.setPublisher _ ?_
    unfold Publisher.endForward at hend
    split at hend <;> cases hend <;> trivial
  | barrier walId =>
    refine { h with barriers := fun barrier hbarrier => ?_ }
    rcases List.mem_append.1 hbarrier with hold | hnew
    · exact h.barriers barrier hold
    · rw [List.mem_singleton.1 hnew]
      exact ⟨fun hok => (by cases hok), fun _ herror => (by cases herror), le_rfl,
        fun _ hwaiting => (by cases hwaiting)⟩
  | pollBarrier hget hpoll =>
    refine { h with barriers := fun barrier hbarrier => ?_ }
    rcases List.mem_or_eq_of_mem_set hbarrier with hold | rfl
    · exact h.barriers barrier hold
    · exact (h.barriers _ (List.mem_of_getElem? hget)).poll hpoll
  | _ => exact { h with }

theorem init (engine : Engine n) :
    PublicationInv engine.nextSeqno (Adapter.init engine).core where
  observer := .new _
  started := le_rfl
  reached := le_rfl
  failedAt h := absurd rfl h
  publishers _ hmem := absurd hmem List.not_mem_nil
  closed := Bool.noConfusion
  barriers _ hmem := absurd hmem List.not_mem_nil

theorem of_reaches {room : Nat} {active spare : Fin n → ZoneStart} {fold : Option PendingSwap}
    {s : Adapter n} (h : Reaches (Adapter.step crc config) (fun _ _ => True)
      (.init (.init base room active spare fold)) s) : PublicationInv base s.core := by
  have hstart : AdmissionInv base (.init (.init base room active spare fold) : Adapter n) :=
    .init room active spare fold
  exact stable_of_steps (fun _ _ hstep hp => PublicationInv.step hp hstep) (hstart.core_steps h)
    (.init (.init base room active spare fold))

end PublicationInv

/-! ## The drainer -/

variable {s s' : Adapter n}

/-- The engine writes and completes the record that it has admitted. -/
def writeBatch : List (Engine.Action 1) :=
  [.drain, .progress, .recheck none, .provision (.ok ()) true, .checkSwap, .checkShutdown, .window,
    .reserveLane true, .reserveLane true, .sendLane true, .sendLane true, .markDue,
    .window, .checkExit, .segment 0 (.persist 0 30), .segment 0 (.publishDurable 0 30),
    .wake .commitUpdate true, .drain, .progress, .complete]

end Chorus.SlateDb
