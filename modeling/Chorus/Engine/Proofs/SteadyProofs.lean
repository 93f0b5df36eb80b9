import Chorus.Engine.Proofs.EngineProofs

/-!
# What a step of the engine leaves alone

Three kinds of steps move the frontier of the writer, that is its active segment, the spare and the
swap that waits for its fold: a request to the provisioning worker, the swap and the worker's
answer. `Steady` says what every other step does with it, and with the segments that are no longer
written.
-/

namespace Chorus

variable {n i : Nat} {crc : Bytes → Nat} {config : WalEngineConfig} {e e' : Engine n}
  {writing : Bool}

theorem Rotation.swap?_armFoldRetry (rotation : Rotation) :
    rotation.armFoldRetry.swap? = rotation.swap? := by
  cases rotation <;> rfl

theorem Rotation.swap?_blockFoldOnCapacity (rotation : Rotation) :
    rotation.blockFoldOnCapacity.swap? = rotation.swap? := by
  cases rotation <;> rfl

theorem Rotation.hasPendingFold_eq (rotation : Rotation) :
    rotation.hasPendingFold = rotation.swap?.isSome := by
  cases rotation <;> rfl

/-- The frontier of the writer and its segments. -/
structure WriterView (n : Nat) where
  swap : Option PendingSwap
  spare : Option PreparedSpare
  requested : Option ProvisionAttempt
  active : Nat
  base : Nat
  count : Nat
  segments : Nat → SegmentWriter n

namespace Engine

def view (e : Engine n) : WriterView n where
  swap := e.rotation.swap?
  spare := e.spare
  requested := e.spareRequested
  active := e.activeSegment
  base := e.baseRecordIndex
  count := e.segmentCount
  segments := e.segments

/-- The segments that are not written move on without a new record. Only a step that is `writing`
writes the active one. -/
def Settles (crc : Bytes → Nat) (writing : Bool) (e : Engine n)
    (segments : Nat → SegmentWriter n) : Prop :=
  ∀ k, writing = false ∨ k ≠ e.activeSegment ∨ e.phase = .stopped →
    (e.segments k).Advances crc (segments k)

/-- A step that leaves the frontier of the writer as it is. The loop is at its swap only while a
rotation is due, and a loop that has ended has ended. -/
structure Steady (crc : Bytes → Nat) (writing : Bool) (e e' : Engine n) : Prop where
  view : ∃ segments, e'.view = { e.view with segments := segments } ∧ e.Settles crc writing segments
  swapping : (e.phase = .swap → e.rotation = .due) → e'.phase = .swap → e'.rotation = .due
  stopped : e.phase = .stopped → e'.phase = .stopped

theorem settles_self (crc : Bytes → Nat) (e : Engine n) : e.Settles crc writing e.segments :=
  fun k _ => .refl crc (e.segments k)

theorem settles_update {i : Nat} {writer : SegmentWriter n}
    (h : (e.segments i).Advances crc writer) :
    e.Settles crc writing (Function.update e.segments i writer) :=
  fun k _ => update_of_rel (SegmentWriter.Advances.refl crc) h k

/-- The active segment is written by the loop only, which is not at its end. -/
theorem settles_setActive (writer : SegmentWriter n) (hphase : e.phase ≠ .stopped) :
    e.Settles crc true (Function.update e.segments e.activeSegment writer) := by
  intro k hk
  rw [Function.update_of_ne ((hk.resolve_left nofun).resolve_right hphase)]
  exact .refl crc _

/-- A step that does not write leaves the records of every segment. -/
theorem Steady.advances (h : Steady crc false e e') (k : Nat) :
    (e.segments k).Advances crc (e'.segments k) := by
  obtain ⟨segments, hview, hsettles⟩ := h.view
  rw [show e'.segments = segments from congrArg WriterView.segments hview]
  exact hsettles k (.inl rfl)

theorem Steady.of_moved (hview : e'.view = e.view) (hfrom : e.phase ≠ .stopped)
    (hto : e'.phase ≠ .swap) : Steady crc writing e e' :=
  ⟨⟨e.segments, hview, settles_self crc e⟩, fun _ h => absurd h hto, fun h => absurd h hfrom⟩

theorem Steady.of_stop (hview : e'.view = e.view) : Steady crc writing e e'.stop :=
  ⟨⟨e.segments, hview, settles_self crc e⟩, nofun, fun _ => rfl⟩

theorem Steady.of_same (hview : e'.view = e.view) (hphase : e'.phase = e.phase)
    (hrotation : e'.rotation = e.rotation) : Steady crc writing e e' :=
  ⟨⟨e.segments, hview, settles_self crc e⟩, fun h hswap => hrotation.trans (h (hphase ▸ hswap)),
    fun h => hphase.trans h⟩

/-! ## Views -/

theorem view_failQueued (error : WalError) : (e.failQueued error).view = e.view := rfl

theorem view_stopped (error : WalError) : (e.failQueued error).stop.view = e.view := rfl

theorem view_poison : e.poison.view = e.view := rfl

theorem view_failWindow (appends : List AdmittedAppend) (error : WalError) :
    (e.failWindow appends error).view = e.view := rfl

theorem view_markRotationDue : (e.markRotationDue config).view = e.view := by
  unfold markRotationDue view
  simp only [Rotation.swap?_markDue]

theorem steady_failQueued (error : WalError) : Steady crc writing e (e.failQueued error).stop :=
  .of_stop (view_failQueued error)

theorem steady_failPoisoned (appends : List AdmittedAppend) (error : WalError) :
    Steady crc writing e ((e.setActive e.active.poison).failWindow appends error) :=
  ⟨⟨_, view_failWindow appends error, settles_update (.poison crc e.active)⟩, nofun, fun _ => rfl⟩

theorem view_of_frame {f : Engine n} (hframe : e'.frame = f.frame)
    (hcontrol : e'.control = f.control) : e'.view = f.view := by
  have hview : ∀ e : Engine n, e.view = ⟨e.control.1, e.control.2.2, e.control.2.1,
      e.frame.activeSegment, e.frame.baseRecordIndex, e.frame.segmentCount,
      e.frame.segments⟩ := fun _ => rfl
  rw [hview, hcontrol, hframe, ← hview]

theorem steady_reserveLane (hfrom : e.phase ≠ .stopped) (appends : List AdmittedAppend)
    (zone : Fin n) (todo zones : List (Fin n)) (fits : Bool) :
    Steady crc writing e (e.reserveLane appends zone todo zones fits) := by
  unfold reserveLane
  split
  · exact .of_moved rfl hfrom (by simp)
  · split
    · exact .of_moved rfl hfrom (by simp)
    · exact ⟨⟨_, rfl, settles_update (.dropLane crc e.active zone)⟩, nofun, fun h => absurd h hfrom⟩

theorem steady_reserved (hfrom : e.phase ≠ .stopped) {appends : List AdmittedAppend}
    {zones : List (Fin n)} (h : e.reserved crc appends zones = some e') : Steady crc true e e' := by
  unfold reserved at h
  split at h
  · cases h
    exact steady_failPoisoned _ _
  · obtain ⟨segment, -, rfl⟩ := Option.map_eq_some_iff.1 h
    exact ⟨⟨_, rfl, settles_setActive _ hfrom⟩, nofun, fun h => absurd h hfrom⟩

theorem steady_sendLane (hfrom : e.phase ≠ .stopped) (appends : List AdmittedAppend) (zone : Fin n)
    (todo represented : List (Fin n)) (sent : Bool) :
    Steady crc writing e (e.sendLane appends zone todo represented sent) := by
  unfold sendLane
  split
  · exact .of_moved rfl hfrom (by simp)
  · exact ⟨⟨_, rfl, settles_update (.dropLane crc e.active zone)⟩, nofun, fun h => absurd h hfrom⟩

theorem view_dispatched (appends : List AdmittedAppend) (commits : RecordCommitRange) :
    (e.dispatched appends commits).view = e.view ∧
    (e.dispatched appends commits).phase ≠ .swap := by
  unfold dispatched
  simp only
  split_ifs
  · exact ⟨view_failWindow .., nofun⟩
  · exact ⟨rfl, nofun⟩

theorem steady_admitWindow (hfrom : e.phase ≠ .stopped) {appends : List AdmittedAppend}
    {represented : List (Fin n)} (h : e.admitWindow crc appends represented = some e') :
    Steady crc true e e' := by
  obtain ⟨segment, -, rfl⟩ := Option.map_eq_some_iff.1 h
  exact ⟨⟨_, (view_dispatched _ _).1, settles_setActive { e.active with segment := segment } hfrom⟩,
    fun _ h => absurd h (view_dispatched _ _).2, fun h => absurd h hfrom⟩

theorem steady_of_turn {action : Action n} (hturning : turning action = false)
    (hturn : e.Turn crc config action e') : Steady crc (writes action) e e' := by
  cases hturn with
  | @idle segments htouched hfrom _ hframe _ _ hcontrol hswap =>
    exact ⟨⟨segments, view_of_frame hframe (hcontrol hturning),
      fun k _ => (htouched k).advances crc⟩, fun _ => hswap,
      fun h => absurd h (Phase.ne_stopped hfrom)⟩
  | ended _ hends =>
    obtain ⟨segments, htouched, hframe⟩ := hends.frame
    refine ⟨⟨segments, view_of_frame hframe (hends.control hturning),
      fun k _ => (htouched k).advances crc⟩, fun _ h => ?_, fun _ => hends.phase⟩
    rw [hends.phase] at h
    cases h
  | inconsistent _ _ _ he =>
    subst he
    exact .of_stop view_poison
  | popped hfrom _ he =>
    subst he
    exact .of_moved rfl (Phase.ne_stopped hfrom) (by simp)
  | completed hfrom _ _ he =>
    subst he
    refine .of_moved view_markRotationDue (by simp [hfrom]) ?_
    show e.phase ≠ .swap
    simp [hfrom]
  | swapped haction | adopted haction =>
    rw [hturning] at haction
    cases haction
  | opened _ hfrom _ _ he =>
    subst he
    exact .of_moved rfl (Phase.ne_stopped hfrom) (by simp)
  | @lane segments _ htouched hfrom hto _ _ hframe hcontrol =>
    refine ⟨⟨segments, view_of_frame hframe hcontrol, fun k _ => (htouched k).advances crc⟩,
      fun _ h => ?_, fun h => ?_⟩
    · rw [h] at hto
      cases hto
    · rw [h] at hfrom
      cases hfrom
  | joined _ hwrites hfrom _ he =>
    subst he
    rw [hwrites]
    have hne : e.phase ≠ .stopped := by simp [hfrom]
    exact ⟨⟨_, rfl, settles_setActive _ hne⟩, fun _ h => (by cases h), fun h => absurd h hne⟩
  | dispatched _ hwrites hfrom hadmits =>
    rw [hwrites]
    exact steady_admitWindow (by simp [hfrom]) hadmits

theorem steady_step {action : Action n} (hturning : turning action = false)
    (h : e.step crc config action = some e') : Steady crc (writes action) e e' := by
  cases action with
  | enqueueAppend seqno record =>
    obtain ⟨-, heq⟩ := Option.ite_none_right_eq_some.1 h
    split at heq <;> cases heq
    · exact .of_same rfl rfl rfl
    · exact .of_same rfl rfl rfl
  | sendAppend =>
    obtain ⟨append, -, rfl⟩ := Option.map_eq_some_iff.1 h
    unfold sendAppend
    split_ifs
    · exact .of_same rfl rfl rfl
    · exact .of_same rfl rfl rfl
  | cancelAppend =>
    cases h
    exact .of_same rfl rfl rfl
  | shutdown | dropHandle =>
    obtain ⟨-, heq⟩ := Option.ite_none_right_eq_some.1 h
    cases heq
    exact .of_same rfl rfl rfl
  | abort =>
    cases h
    exact .of_stop rfl
  | segment i action =>
    obtain ⟨⟨hexternal, -⟩, heq⟩ := Option.ite_none_right_eq_some.1 h
    obtain ⟨segment, hsegment, rfl⟩ := Option.map_eq_some_iff.1 heq
    exact ⟨⟨_, rfl, settles_update (.of_external hexternal hsegment)⟩, id, id⟩
  | _ => exact steady_of_turn hturning (.of_step rfl h)

/-! ## The steps that move the frontier -/

/-- A request to the worker is recorded, and nothing else of the frontier moves. -/
theorem provision_cases (hphase : e.phase = .provision) (parts : Except ProtocolError Unit)
    (sent : Bool) :
    Steady crc false e (e.provision parts sent) ∧
    (∀ attempt, (e.provision parts sent).spareRequested = some attempt →
        e.spareRequested = some attempt) ∨
      e.spareRequested = none ∧ e.spareRetry = false ∧ ∃ attempt,
        e.nextAttempt = .ok (some attempt) ∧
        parts = .ok () ∧ sent = true ∧
        (e.provision parts sent).view = { e.view with requested := some attempt } ∧
        (e.provision parts sent).phase = .swapCheck := by
  have hfrom : e.phase ≠ .stopped := by simp [hphase]
  unfold provision
  split
  · rename_i hfree
    simp only [Bool.and_eq_true, Option.isNone_iff_eq_none, Bool.not_eq_true'] at hfree
    obtain ⟨hnone, hretry⟩ := hfree
    split
    · exact .inl ⟨steady_failQueued _, fun _ h => h⟩
    · exact .inl ⟨.of_moved rfl hfrom (by simp), fun _ h => h⟩
    · rename_i attempt hattempt
      split
      · exact .inl ⟨steady_failQueued _, fun _ h => h⟩
      · cases sent with
        | false =>
          refine .inl ⟨.of_moved ?_ hfrom (by simp), nofun⟩
          unfold view
          rw [hnone]
          rfl
        | true => exact .inr ⟨hnone, hretry, attempt, hattempt, rfl, rfl, rfl, rfl⟩
  · exact .inl ⟨.of_moved rfl hfrom (by simp), fun _ h => h⟩

/-- The spare takes over, or nothing of the frontier moves. -/
theorem swap_cases (hphase : e.phase = .swap) (hdue : e.rotation = .due) :
    (Steady crc false e e.swap ∧
      ∀ pending successor, e.beginSwap ≠ .ok (some (pending, successor))) ∨
      ∃ pending successor, e.beginSwap = .ok (some (pending, successor)) ∧ e.swap.phase = .drain ∧
        e.swap.view = { e.view with
          swap := some pending
          spare := none
          active := successor
          base := pending.endRecordIndex + 1 } := by
  have hfrom : e.phase ≠ .stopped := by simp [hphase]
  unfold swap
  split
  · rename_i error herror
    exact .inl ⟨steady_failQueued _, fun _ _ h => by rw [h] at herror; cases herror⟩
  · rename_i hnone
    refine .inl ⟨.of_moved ?_ hfrom (by simp), fun _ _ h => by rw [h] at hnone; cases hnone⟩
    unfold view
    rw [hdue]
    rfl
  · rename_i pending successor hswap
    exact .inr ⟨pending, successor, hswap, rfl, rfl⟩

/-- What an answer of the provisioning worker does to the frontier. -/
inductive Answered (crc : Bytes → Nat) (e e' : Engine n) : ProvisionOutcome n → Prop where
  | registered {start : Fin n → ZoneStart} {room : Nat}
      (hrequested : e.spareRequested = some .registered)
      (hview : e'.view = { e.view with
        spare := some ⟨e.segmentCount, true⟩
        requested := none
        count := e.segmentCount + 1
        segments := Function.update e.segments e.segmentCount (.create start) })
      (hphase : e'.phase = .drain) : Answered crc e e' (.registered start room)
  | adopted {start : Fin n → ZoneStart} (hrequested : e.spareRequested = some .unregistered)
      (hview : e'.view = { e.view with
        spare := some ⟨e.segmentCount, false⟩
        requested := none
        count := e.segmentCount + 1
        segments := Function.update e.segments e.segmentCount (.create start) })
      (hphase : e'.phase = .drain) : Answered crc e e' (.unregistered start)
  | folded {room : Nat} {swap : PendingSwap} {spare : PreparedSpare}
      {segments : Nat → SegmentWriter n}
      (hrequested : e.spareRequested = some .fold) (hswap : e.rotation.swap? = some swap)
        (hspare : e.spare = some spare)
      (hview : e'.view = { e.view with
        swap := none
        spare := some { spare with registered := true }
        requested := none
        segments := segments })
      (hsettles : e.Settles crc false segments) (hphase : e'.phase ≠ .swap) :
        Answered crc e e' (.folded room)
  /-- The spare or the swap that the fold was for is gone. -/
  | stray {room : Nat} (hgone : e.rotation.swap? = none ∨ e.spare = none)
      (hview : e'.view = { e.view with requested := none }) (hphase : e'.phase = .stopped) :
      Answered crc e e' (.folded room)
  | failed {error : ProtocolError} (hview : e'.view = { e.view with requested := none })
      (hphase : e'.phase ≠ .swap) : Answered crc e e' (.failed error)
  | stopped (hview : e'.view = { e.view with requested := none }) (hphase : e'.phase = .stopped) :
      Answered crc e e' .stopped

theorem answered_folded (hrequested : e.spareRequested = some .fold) (room : Nat) (queued : Bool) :
    Answered crc e (({ e with spareRequested := none } : Engine n).folded config room queued)
      (.folded room) := by
  unfold folded
  split
  · rename_i hnone
    exact .stray (.inl hnone) (view_stopped _) rfl
  · rename_i pending hpending
    split
    · rename_i hnone
      exact .stray (.inr hnone) (view_stopped _) rfl
    · rename_i spare hspare
      simp only
      split
      · refine .folded hrequested hpending hspare (view_markRotationDue.trans rfl)
          (settles_self crc e) ?_
        simp [markRotationDue, confirmFold]
      · rename_i i hwriter
        have hseal : e.Settles crc false (Function.update e.segments i { e.segments i with
            sealed := true }) :=
          settles_update ⟨id, Nat.le_refl _, rfl, rfl⟩
        split_ifs
        · exact .folded hrequested hpending hspare rfl hseal fun heq => by cases heq
        · exact .folded hrequested hpending hspare (view_stopped _) hseal fun heq => by cases heq

theorem answered_failed (error : ProtocolError) :
    Answered crc e (({ e with spareRequested := none } : Engine n).provisionFailed error)
      (.failed error) := by
  unfold provisionFailed
  simp only
  split
  · split_ifs
    · refine .failed ?_ nofun
      simp only [view, Rotation.swap?_blockFoldOnCapacity]
    · exact .failed rfl nofun
  · exact .failed (view_stopped _) nofun
  · exact .failed (view_stopped _) nofun
  · split_ifs
    · refine .failed ?_ nofun
      simp only [view, Rotation.swap?_armFoldRetry]
    · exact .failed rfl nofun

theorem answered_provisioned {outcome : ProvisionOutcome n} {queued : Bool}
    (h : e.provisioned config outcome queued = some e') : Answered crc e e' outcome := by
  unfold provisioned at h
  split at h
  · cases h
  · rename_i attempt hrequested
    simp only at h
    split at h
    · cases h
      exact .registered hrequested rfl rfl
    · cases h
      exact .adopted hrequested rfl rfl
    · cases h
      exact answered_folded hrequested _ _
    · cases h
      exact answered_failed _
    · cases h
      exact .stopped (view_stopped _) rfl
    · cases h

/-! ## Segments that are no longer written -/

/-- The segment was swapped out, or the loop has ended. -/
def Frozen (e : Engine n) (i : Nat) : Prop := i < e.activeSegment ∨ i = e.activeSegment ∧
    e.phase = .stopped

theorem Frozen.of_settles (h : e.Frozen i) {segments : Nat → SegmentWriter n}
    (hsettles : e.Settles crc writing segments) : (e.segments i).Advances crc (segments i) := by
  refine hsettles i (.inr ?_)
  rcases h with hlt | ⟨-, hstopped⟩
  · exact .inl (Nat.ne_of_lt hlt)
  · exact .inr hstopped

theorem Steady.frozen (h : Steady crc writing e e') (hf : e.Frozen i) :
    e'.Frozen i ∧ (e.segments i).Advances crc (e'.segments i) := by
  obtain ⟨segments, hview, hsettles⟩ := h.view
  have hactive : e'.activeSegment = e.activeSegment := congrArg WriterView.active hview
  have hsegments : e'.segments = segments := congrArg WriterView.segments hview
  refine ⟨?_, hsegments ▸ hf.of_settles hsettles⟩
  rcases hf with hlt | ⟨heq, hstopped⟩
  · exact .inl (hactive ▸ hlt)
  · exact .inr ⟨heq.trans hactive.symm, h.stopped hstopped⟩

/-- A turn of the loop writes at most the active segment, and moves on to a later one. -/
theorem keeps_of_turn {start : Nat} {action : Action n} (hinv : EngineInv crc start e)
    (hturn : e.Turn crc config action e') : e.segmentCount ≤ e'.segmentCount ∧
      ∀ i < e.activeSegment, i < e'.activeSegment ∧
        (e.segments i).Advances crc (e'.segments i) := by
  have hkept : ∀ {l : Ledger n}, e'.ledger = l → e.segmentCount ≤ l.segmentCount →
      l.activeSegment = e.activeSegment →
      (∀ i < e.activeSegment, (e.segments i).Advances crc (l.segments i)) →
      e.segmentCount ≤ e'.segmentCount ∧
        ∀ i < e.activeSegment, i < e'.activeSegment ∧ (e.segments i).Advances crc
          (e'.segments i) := by
    rintro _ rfl hcount hactive hadvances
    exact ⟨hcount, fun i hi => ⟨hi.trans_eq hactive.symm, hadvances i hi⟩⟩
  cases hturn with
  | idle htouched _ _ hframe _ _ _ _ =>
    exact hkept (ledger_congr hframe) (Nat.le_refl _) rfl fun i _ => (htouched i).advances crc
  | ended _ hends =>
    obtain ⟨segments, htouched, hframe⟩ := hends.frame
    exact hkept (ledger_congr hframe) (Nat.le_refl _) rfl fun i _ => (htouched i).advances crc
  | lane _ htouched _ _ _ _ hframe _ =>
    exact hkept (ledger_congr hframe) (Nat.le_refl _) rfl fun i _ => (htouched i).advances crc
  | inconsistent _ _ _ he | popped _ _ he | completed _ _ _ he | opened _ _ _ _ he =>
    subst he
    exact ⟨Nat.le_refl _, fun i hi => ⟨hi, .refl crc _⟩⟩
  | swapped _ hfrom hswap he =>
    subst he
    obtain ⟨-, hgt, -⟩ := (hinv.free hfrom).spare _ (beginSwap_eq_some hswap).2
    exact ⟨Nat.le_refl _, fun i hi => ⟨hi.trans hgt, .refl crc _⟩⟩
  | adopted _ hfrom _ hframe =>
    -- a segment that is adopted stands behind those there are
    have hlt : e.activeSegment < e.segmentCount := (hinv.free hfrom).active_lt
    refine hkept (ledger_congr hframe) (Nat.le_succ _) rfl fun i hi => ?_
    show SegmentWriter.Advances crc _ (Function.update e.segments e.segmentCount _ i)
    rw [Function.update_of_ne (by omega)]
    exact .refl crc _
  | joined _ _ _ _ he =>
    subst he
    refine ⟨Nat.le_refl _, fun i hi => ⟨hi, ?_⟩⟩
    show SegmentWriter.Advances crc _ (Function.update e.segments e.activeSegment _ i)
    rw [Function.update_of_ne (Nat.ne_of_lt hi)]
    exact .refl crc _
  | dispatched _ _ hfrom hadmits =>
    obtain ⟨segments, hview, hsettles⟩ := (steady_admitWindow (by simp [hfrom]) hadmits).view
    have hactive : e'.activeSegment = e.activeSegment := congrArg WriterView.active hview
    refine ⟨(congrArg WriterView.count hview).ge, fun i hi => ⟨hi.trans_eq hactive.symm, ?_⟩⟩
    rw [show e'.segments = segments from congrArg WriterView.segments hview]
    exact hsettles i (.inr (.inl (Nat.ne_of_lt hi)))

/-- A segment that is no longer written stays as it is, apart from its lanes and its watermark. -/
theorem frozen_step {start : Nat} (hinv : EngineInv crc start e) {action : Action n}
    (h : e.step crc config action = some e') : e.segmentCount ≤ e'.segmentCount ∧
      ∀ i, e.Frozen i → e'.Frozen i ∧ (e.segments i).Advances crc (e'.segments i) := by
  cases hloop : loop action with
  | false =>
    have hturning : turning action = false := by
      cases action <;> first | rfl | cases hloop
    have hsteady := steady_step hturning h
    obtain ⟨segments, hview, -⟩ := hsteady.view
    exact ⟨(congrArg WriterView.count hview).ge, fun i hf => hsteady.frozen hf⟩
  | true =>
    obtain ⟨hcount, hkept⟩ := keeps_of_turn hinv (.of_step hloop h)
    refine ⟨hcount, fun i hf => ?_⟩
    rcases hf with hlt | ⟨-, hstopped⟩
    · exact (hkept i hlt).imp_left .inl
    · cases action <;> first | (simp [Engine.step, hstopped] at h; done) | cases hloop

end Engine

end Chorus
