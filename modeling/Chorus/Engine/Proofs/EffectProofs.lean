import Chorus.Engine.Proofs.TurnProofs

/-!
# What a step of the engine moves

Most steps of the loop and of its environment touch neither the admissions nor the completions nor a
stream. `Effect` says once what the other steps do; the invariants that read only these parts of the
state follow from it without another look at the loop.
-/

namespace Chorus

variable {n : Nat} {crc : Bytes → Nat} {config : WalEngineConfig} {e e' : Engine n}

structure Admissions where
  nextSeqno : Nat
  totalAdmittedBytes : Nat
  admission : Option AdmittedAppend
  accepted : List RecordFrame

def Engine.admissions (e : Engine n) : Admissions :=
  ⟨e.nextSeqno, e.totalAdmittedBytes, e.admission, e.accepted⟩

/-- The parts of the state that few steps move. -/
structure EngineTally where
  admissions : Admissions
  nextCompletion : Nat
  activeSegment : Nat
  segmentCount : Nat
  streams : Nat → List RecordFrame

def Engine.tally (e : Engine n) : EngineTally where
  admissions := e.admissions
  nextCompletion := e.nextCompletion
  activeSegment := e.activeSegment
  segmentCount := e.segmentCount
  streams i := (e.segments i).segment.stream

/-- Nothing of the tally moves, and no window is opened. -/
structure Engine.Quiet (e e' : Engine n) : Prop where
  tally : e'.tally = e.tally
  phase : e'.phase.windowed = true → e'.phase = e.phase

namespace Engine

theorem Quiet.of_idle (htally : e'.tally = e.tally) (hphase : e'.phase.windowed = false) :
    e.Quiet e' :=
  ⟨htally, fun h => absurd (hphase.symm.trans h) Bool.false_ne_true⟩

theorem Quiet.of_stop (htally : e'.tally = e.tally) : e.Quiet e'.stop := .of_idle htally rfl

/-! ## Tallies -/

theorem tally_failWindow (appends : List AdmittedAppend) (error : WalError) :
    (e.failWindow appends error).tally = e.tally := rfl

theorem tally_poison : e.poison.tally = e.tally := rfl

theorem tally_congr (h : e'.frame = e.frame) : e'.tally = e.tally := by
  show e'.frame.tally = e.frame.tally
  rw [h]

theorem tally_streams {segments : Nat → SegmentWriter n}
    (hstreams : ∀ k, (segments k).segment.stream = (e.segments k).segment.stream) :
    ({ e with segments := segments } : Engine n).tally = e.tally := by
  show EngineTally.mk _ _ _ _ (fun k => (segments k).segment.stream) = _
  rw [funext hstreams]
  rfl

theorem tally_touched {segments : Nat → SegmentWriter n}
    (h : ∀ k, (e.segments k).Touched (segments k)) :
    ({ e with segments := segments } : Engine n).tally = e.tally :=
  tally_streams fun k => ((h k).advances fun _ => 0).stream

theorem tally_update {i : Nat} {writer : SegmentWriter n}
    (hstream : writer.segment.stream = (e.segments i).segment.stream) :
    ({ e with segments := Function.update e.segments i writer } : Engine n).tally = e.tally :=
  tally_streams fun k => update_of_rel (R := fun w w' => w'.segment.stream = w.segment.stream)
    (fun _ => rfl) hstream k

theorem tally_dropLane (zone : Fin n) : (e.setActive (e.active.dropLane zone)).tally = e.tally :=
  tally_update rfl

theorem tally_setPoisoned : (e.setActive e.active.poison).tally = e.tally := tally_update rfl

/-! ## Effects -/

/-- What a step other than a call of the handle or a move of the window does. -/
inductive Effect (e e' : Engine n) : Prop where
  | quiet (h : e.Quiet e')
  /-- The oldest append is completed. -/
  | completed (htally : e'.tally = { e.tally with nextCompletion := e.nextCompletion + 1 })
      (hphase : e'.phase.windowed = false)
  | swapped (successor : Nat) (htally : e'.tally = { e.tally with activeSegment := successor })
      (hphase : e'.phase.windowed = false)
  | adopted (htally : e'.tally = { e.tally with
        segmentCount := e.segmentCount + 1
        streams := Function.update e.tally.streams e.segmentCount [] })
      (hphase : e'.phase.windowed = false)

theorem effect_adoptSpare (start : Fin n → ZoneStart) (registered : Bool)
    (htally : e'.tally = (e.adoptSpare start registered).tally)
    (hphase : e'.phase.windowed = false) : e.Effect e' := by
  refine .adopted (htally.trans ?_) hphase
  exact congrArg (EngineTally.mk _ _ _ _) (Function.comp_update
    (fun writer : SegmentWriter n => writer.segment.stream) e.segments e.segmentCount
      (.create start))

theorem effect_of_turn {action : Action n} (hwindowing : windowing action = false)
    (hturn : e.Turn crc config action e') : e.Effect e' := by
  cases hturn with
  | idle htouched _ hto hframe _ _ _ _ =>
    exact .quiet (.of_idle ((tally_congr hframe).trans (tally_touched htouched))
      (Phase.windowed_of_free hto))
  | ended _ hends =>
    obtain ⟨segments, htouched, hframe⟩ := hends.frame
    exact .quiet (.of_idle ((tally_congr hframe).trans (tally_touched htouched))
      (congrArg Phase.windowed hends.phase))
  | inconsistent _ _ _ he =>
    subst he
    exact .quiet (.of_stop tally_poison)
  | popped _ _ he =>
    subst he
    exact .quiet (.of_idle rfl rfl)
  | completed hfrom _ _ he =>
    subst he
    exact .completed rfl (congrArg Phase.windowed hfrom)
  | swapped _ _ _ he =>
    subst he
    exact .swapped _ rfl rfl
  | adopted _ _ hto hframe =>
    exact effect_adoptSpare _ _ (tally_congr hframe) (congrArg Phase.windowed hto)
  | opened haction | lane haction | joined haction | dispatched haction =>
    rw [hwindowing] at haction
    cases haction

/-- What every other step in the background does. -/
theorem step_effect {action : Action n} (hbackground : background action = true)
    (hwindowing : windowing action = false) (h : e.step crc config action = some e') :
    e.Effect e' := by
  cases action with
  | enqueueAppend | sendAppend | cancelAppend | shutdown | dropHandle | abort => cases hbackground
  | segment i action =>
    obtain ⟨⟨hexternal, -⟩, heq⟩ := Option.ite_none_right_eq_some.1 h
    obtain ⟨segment, hsegment, rfl⟩ := Option.map_eq_some_iff.1 heq
    exact .quiet ⟨tally_update (SegmentSystem.step_external hexternal hsegment).1, fun _ => rfl⟩
  | _ => exact effect_of_turn hwindowing (.of_step rfl h)

/-- A step outside the loop keeps its point; the loop leaves the point of a window only by a step of
the window. -/
theorem phase_of_step {action : Action n} (hbackground : background action = true)
    (hwindowing : windowing action = false) (h : e.step crc config action = some e') :
    e'.phase = e.phase ∨ e.phase.windowed = false := by
  cases action with
  | enqueueAppend | sendAppend | cancelAppend | shutdown | dropHandle | abort => cases hbackground
  | window | reserveLane | sendLane => cases hwindowing
  | segment i action =>
    obtain ⟨-, heq⟩ := Option.ite_none_right_eq_some.1 h
    obtain ⟨segment, -, rfl⟩ := Option.map_eq_some_iff.1 heq
    exact .inl rfl
  | _ =>
    right
    simp only [step] at h
    split at h
    · rename_i hphase
      rw [hphase]
      rfl
    · cases h

/-- A call of the handle moves neither the loop nor a segment. -/
structure HandleCall (e e' : Engine n) : Prop where
  phase : e'.phase = e.phase
  segments : e'.segments = e.segments
  segmentCount : e'.segmentCount = e.segmentCount
  activeSegment : e'.activeSegment = e.activeSegment
  nextCompletion : e'.nextCompletion = e.nextCompletion

theorem step_handleCall {action : Action n} (hbackground : background action = false)
    (habort : action ≠ .abort) (h : e.step crc config action = some e') : e.HandleCall e' := by
  cases action with
  | abort => exact absurd rfl habort
  | enqueueAppend seqno record =>
    obtain ⟨-, heq⟩ := Option.ite_none_right_eq_some.1 h
    split at heq <;> cases heq <;> exact ⟨rfl, rfl, rfl, rfl, rfl⟩
  | sendAppend =>
    obtain ⟨append, -, rfl⟩ := Option.map_eq_some_iff.1 h
    unfold sendAppend
    split_ifs <;> exact ⟨rfl, rfl, rfl, rfl, rfl⟩
  | cancelAppend =>
    cases h
    exact ⟨rfl, rfl, rfl, rfl, rfl⟩
  | shutdown | dropHandle =>
    obtain ⟨-, heq⟩ := Option.ite_none_right_eq_some.1 h
    cases heq
    exact ⟨rfl, rfl, rfl, rfl, rfl⟩
  | _ => cases hbackground

/-! ## Windows -/

/-- The loop opens a window or leaves everything as it is. -/
theorem window_cases (config : WalEngineConfig) (e : Engine n) :
    e.Quiet (e.window config) ∨ (e.window config).tally = e.tally ∧
    ∃ appends, (e.window config).phase = .reserve appends (List.finRange n) [] := by
  unfold window
  split
  · split
    · exact .inl (.of_idle rfl rfl)
    · rename_i appends queue _ _
      simp only
      split
      · exact .inl (.of_idle (tally_failWindow ..) rfl)
      · split
        · exact .inl (.of_idle (tally_failWindow ..) rfl)
        · split
          · exact .inl (.of_idle (tally_failWindow ..) rfl)
          · split
            · exact .inl (.of_idle ((tally_failWindow ..).trans tally_setPoisoned) rfl)
            · exact .inr ⟨rfl, _, rfl⟩
  · exact .inl (.of_idle rfl rfl)

theorem tally_reserveLane (appends : List AdmittedAppend) (zone : Fin n) (todo zones : List (Fin n))
    (fits : Bool) : (e.reserveLane appends zone todo zones fits).tally = e.tally := by
  unfold reserveLane
  split
  · rfl
  · split
    · rfl
    · have hdropped : (e.setActive (e.active.dropLane zone)).tally = e.tally := tally_dropLane zone
      exact hdropped

theorem phase_reserveLane (appends : List AdmittedAppend) (zone : Fin n) (todo zones : List (Fin n))
    (fits : Bool) : (e.reserveLane appends zone todo zones fits).phase =
      .reserve appends todo (if e.active.lanes zone && fits then zones ++ [zone] else zones) := by
  unfold reserveLane
  cases e.active.lanes zone <;> cases fits <;> rfl

/-- Once every lane has answered, the window joins the stream of the active segment or is failed. -/
theorem reserved_cases {appends : List AdmittedAppend} {zones : List (Fin n)}
    (h : e.reserved crc appends zones = some e') :
    e.Quiet e' ∧ e'.phase.windowed = false ∧ zones.length < majority n ∨
      majority n ≤ zones.length ∧ e'.phase = .send appends zones [] ∧ e'.tally = { e.tally with
        streams := Function.update e.tally.streams e.activeSegment
          (e.active.segment.stream ++ appends.map AdmittedAppend.record) } := by
  unfold reserved at h
  split at h
  · rename_i hfew
    cases h
    exact .inl ⟨.of_idle ((tally_failWindow ..).trans tally_setPoisoned) rfl, rfl, hfew⟩
  · rename_i hquorum
    obtain ⟨segment, hdispatch, rfl⟩ := Option.map_eq_some_iff.1 h
    obtain ⟨-, heq⟩ := Option.ite_none_right_eq_some.1 hdispatch
    cases heq
    refine .inr ⟨not_lt.1 hquorum, rfl, ?_⟩
    exact congrArg (EngineTally.mk _ _ _ _) (Function.comp_update
      (fun writer : SegmentWriter n => writer.segment.stream) e.segments e.activeSegment _)

theorem tally_sendLane (appends : List AdmittedAppend) (zone : Fin n)
    (todo represented : List (Fin n)) (sent : Bool) :
    (e.sendLane appends zone todo represented sent).tally = e.tally := by
  unfold sendLane
  split
  · rfl
  · have hdropped : (e.setActive (e.active.dropLane zone)).tally = e.tally := tally_dropLane zone
    exact hdropped

theorem phase_sendLane (appends : List AdmittedAppend) (zone : Fin n)
    (todo represented : List (Fin n)) (sent : Bool) :
    (e.sendLane appends zone todo represented sent).phase =
      .send appends todo (if sent then represented ++ [zone] else represented) := by
  unfold sendLane
  cases sent <;> rfl

theorem quiet_dispatched (appends : List AdmittedAppend) (commits : RecordCommitRange) :
    (e.dispatched appends commits).tally = e.tally ∧
    (e.dispatched appends commits).phase.windowed = false := by
  unfold dispatched
  simp only
  split_ifs
  · exact ⟨(tally_failWindow ..), rfl⟩
  · exact ⟨rfl, rfl⟩

theorem quiet_admitWindow {appends : List AdmittedAppend} {represented : List (Fin n)}
    (h : e.admitWindow crc appends represented = some e') :
    e.Quiet e' ∧ e'.phase.windowed = false := by
  obtain ⟨segment, hadmits, rfl⟩ := Option.map_eq_some_iff.1 h
  obtain ⟨-, heq⟩ := Option.ite_none_right_eq_some.1 hadmits
  have hstream : segment.stream = e.active.segment.stream := by
    cases heq
    rfl
  have htally : (e.setActive { e.active with segment := segment }).tally = e.tally :=
    tally_update hstream
  obtain ⟨hsame, hphase⟩ :=
    quiet_dispatched (e := { e.setActive { e.active with segment := segment } with
      lastDispatchedAdmissionBytes :=
        (appends.getLast?.map AdmittedAppend.admissionEndBytes).getD e.lastDispatchedAdmissionBytes
      placements := e.placements ++
        (List.range' e.active.admittedLen (segment.commits.admitted - e.active.admittedLen)).map
          fun offset =>
          ⟨e.activeSegment, offset, e.baseRecordIndex + offset⟩ })
    appends (e.assignedRange (segment.commits.admitted - e.active.admittedLen))
  exact ⟨.of_idle (hsame.trans htally) hphase, hphase⟩

/-- No turn of the loop admits an append or takes a completion back. -/
theorem admissions_of_turn {action : Action n} (hturn : e.Turn crc config action e') :
    e'.admissions = e.admissions ∧ e.nextCompletion ≤ e'.nextCompletion := by
  have hkept : ∀ {t : EngineTally}, e'.tally = t → e'.admissions = t.admissions ∧
      t.nextCompletion ≤ e'.nextCompletion := fun h =>
    ⟨congrArg EngineTally.admissions h, (congrArg EngineTally.nextCompletion h).ge⟩
  cases hturn with
  | idle _ _ _ hframe _ _ _ _ => exact hkept (tally_congr hframe)
  | ended _ hends =>
    obtain ⟨segments, -, hframe⟩ := hends.frame
    exact hkept (tally_congr hframe)
  | completed _ _ _ he =>
    subst he
    exact ⟨rfl, Nat.le_succ _⟩
  | inconsistent _ _ _ he | popped _ _ he | swapped _ _ _ he | opened _ _ _ _ he
  | joined _ _ _ _ he =>
    subst he
    exact ⟨rfl, Nat.le_refl _⟩
  | adopted _ _ _ hframe | lane _ _ _ _ _ _ hframe => exact hkept (tally_congr hframe)
  | dispatched _ _ _ hadmits => exact hkept (quiet_admitWindow hadmits).1.tally

end Engine

end Chorus
