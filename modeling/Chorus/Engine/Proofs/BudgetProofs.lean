import Chorus.Engine.Proofs.CompletionProofs
import Chorus.Engine.Proofs.HandleProofs
import Chorus.Engine.Proofs.LaneBudgetProofs
import Chorus.Engine.Proofs.PermitProofs

/-!
# Proofs: lanes that keep up

A lane that keeps up holds only batches past the committed bytes. Where none of their records has
completed, the permits of all these bytes are still taken, so together with the window they fit the
lane's budget. Once a record of a batch has completed its permits are free, while the lane still
reserves the whole batch.
-/

namespace Chorus

open RecordFrame Concurrency

variable {n : Nat} {crc : Bytes → Nat} {limits : EngineLimits} {start : Nat}

theorem EngineLimits.validate_eq_ok (h : limits.validate = .ok ()) :
    0 < limits.maxInflightBytes ∧ limits.maxInflightBytes ≤ limits.maxReplicaLagBytes := by
  unfold EngineLimits.validate at h
  simp only [bind_eq_ok, failIf_eq_ok] at h
  obtain ⟨-, -, -, -, -, hinflight, -, -, -, hlag, -⟩ := h
  exact ⟨Nat.pos_of_ne_zero hinflight, not_lt.1 hlag⟩

namespace BudgetedEngine

variable {s : BudgetedEngine n} {e : Engine n} {appends : List AdmittedAppend} {zone : Fin n}
  {todo zones : List (Fin n)}

/-! ## The invariant -/

/-- Only the given lanes of the active segment hold a reservation for a window of the given size. -/
def OpenFor (s : BudgetedEngine n) (zones : List (Fin n)) (bytes : Nat) : Prop :=
  ∀ i z charge, (s.lanes i z).reservation = some charge →
    i = s.engine.activeSegment ∧ z ∈ zones ∧ charge.For bytes

/-- The reservations for the window in hand. -/
def WindowInv (s : BudgetedEngine n) : Prop :=
  match s.engine.phase with
  | .reserve appends todo zones => (todo ++ zones).Nodup ∧ s.OpenFor zones (windowBytes appends)
  | .send appends todo _ => todo.Nodup ∧ s.OpenFor todo (windowBytes appends) ∧
      ∀ z ∈ todo, (s.lane z).sent + windowBytes appends ≤
        (streamBytes s.engine.active.segment.stream).length
  | _ => ∀ i z, (s.lanes i z).reservation = none

structure LanesInv (limits : EngineLimits) (s : BudgetedEngine n) : Prop where
  sound : ∀ i z, (s.lanes i z).Sound limits.maxReplicaLagBytes
  sent_le : ∀ i z, i < s.engine.segmentCount →
    (s.lanes i z).sent ≤ (streamBytes (s.engine.segments i).segment.stream).length
  unsent : ∀ i z, s.engine.segmentCount ≤ i → (s.lanes i z).sent = 0
  window : s.WindowInv

theorem windowInv_of_idle (hphase : s.engine.phase.windowed = false)
    (h : ∀ i z, (s.lanes i z).reservation = none) : s.WindowInv := by
  unfold WindowInv
  split
  · rename_i hreserve
    rw [hreserve] at hphase
    cases hphase
  · rename_i hsend
    rw [hsend] at hphase
    cases hphase
  · exact h

theorem WindowInv.of_idle (h : s.WindowInv) (hphase : s.engine.phase.windowed = false) (i : Nat)
    (z : Fin n) : (s.lanes i z).reservation = none := by
  unfold WindowInv at h
  split at h
  · rename_i hreserve
    rw [hreserve] at hphase
    cases hphase
  · rename_i hsend
    rw [hsend] at hphase
    cases hphase
  · exact h i z

theorem OpenFor.reservation_eq_none {bytes : Nat} (h : s.OpenFor zones bytes)
    (hzone : zone ∉ zones) (i : Nat) : (s.lanes i zone).reservation = none := by
  cases hreservation : (s.lanes i zone).reservation with
  | none => rfl
  | some charge => exact absurd (h i zone charge hreservation).2.1 hzone

theorem lanesInv_init (limits : EngineLimits) (base room : Nat) (active spare : Fin n → ZoneStart)
    (recoveredFold : Option PendingSwap) :
    (BudgetedEngine.init limits base room active spare recoveredFold).LanesInv limits where
  sound _ _ := BudgetedLane.sound_new _
  sent_le _ _ _ := Nat.zero_le _
  unsent _ _ _ := rfl
  window := windowInv_of_idle rfl fun _ _ => rfl

/-! ## Steps that leave the lanes alone -/

theorem WindowInv.samePhase (h : s.WindowInv) (hphase : e.phase = s.engine.phase)
    (hactive : e.activeSegment = s.engine.activeSegment)
    (hstream : ∀ i, (e.segments i).segment.stream = (s.engine.segments i).segment.stream)
    {verdicts : List (LaneVerdict n)} : WindowInv ⟨e, s.lanes, verdicts⟩ := by
  unfold WindowInv OpenFor lane Engine.active at h ⊢
  simp only [hphase, hactive, hstream]
  exact h

theorem LanesInv.sameStreams (h : s.LanesInv limits)
    (hcount : e.segmentCount = s.engine.segmentCount)
    (hstream : ∀ i, (e.segments i).segment.stream = (s.engine.segments i).segment.stream)
    {verdicts : List (LaneVerdict n)} (hwindow : WindowInv ⟨e, s.lanes, verdicts⟩) :
    LanesInv limits ⟨e, s.lanes, verdicts⟩ := by
  refine ⟨h.sound, fun i z hi => ?_, fun i z hi => ?_, hwindow⟩
  · show _ ≤ (streamBytes (e.segments i).segment.stream).length
    rw [hstream]
    exact h.sent_le i z (hcount ▸ hi)
  · exact h.unsent i z (hcount ▸ hi)

/-- The loop stays at its point, or it was not handing out a window. -/
theorem LanesInv.effect (h : s.LanesInv limits) (heffect : s.engine.Effect e)
    (hphase : e.phase = s.engine.phase ∨ s.engine.phase.windowed = false)
    (verdicts : List (LaneVerdict n)) : LanesInv limits ⟨e, s.lanes, verdicts⟩ := by
  have hidle : e.phase.windowed = false → ∀ i z, (s.lanes i z).reservation = none := by
    intro hwindowed
    refine h.window.of_idle ?_
    rcases hphase with hsame | hbefore
    · rw [← hsame]
      exact hwindowed
    · exact hbefore
  cases heffect with
  | quiet hquiet =>
    have hactive : e.activeSegment = s.engine.activeSegment :=
      congrArg EngineTally.activeSegment hquiet.tally
    have hstream : ∀ i, (e.segments i).segment.stream = (s.engine.segments i).segment.stream :=
      fun i => congrFun (congrArg EngineTally.streams hquiet.tally) i
    refine h.sameStreams (congrArg EngineTally.segmentCount hquiet.tally) hstream ?_
    by_cases hwindowed : e.phase.windowed = true
    · exact h.window.samePhase (hquiet.phase hwindowed) hactive hstream
    · exact windowInv_of_idle (Bool.not_eq_true _ ▸ hwindowed)
        (hidle (Bool.not_eq_true _ ▸ hwindowed))
  | completed htally hwindowed =>
    exact h.sameStreams (congrArg EngineTally.segmentCount htally)
      (fun i => congrFun (congrArg EngineTally.streams htally) i)
      (windowInv_of_idle hwindowed (hidle hwindowed))
  | swapped successor htally hwindowed =>
    exact h.sameStreams (congrArg EngineTally.segmentCount htally)
      (fun i => congrFun (congrArg EngineTally.streams htally) i)
      (windowInv_of_idle hwindowed (hidle hwindowed))
  | adopted htally hwindowed =>
    have hcount : e.segmentCount = s.engine.segmentCount + 1 :=
      congrArg EngineTally.segmentCount htally
    have hstream : ∀ i, (e.segments i).segment.stream =
        Function.update s.engine.tally.streams s.engine.segmentCount [] i :=
      fun i => congrFun (congrArg EngineTally.streams htally) i
    refine ⟨h.sound, fun i z hi => ?_, fun i z hi => ?_, windowInv_of_idle hwindowed
      (hidle hwindowed)⟩
    · show _ ≤ (streamBytes (e.segments i).segment.stream).length
      change i < e.segmentCount at hi
      by_cases hnew : i = s.engine.segmentCount
      · rw [h.unsent i z hnew.ge]
        exact Nat.zero_le _
      · rw [hstream, Function.update_of_ne hnew]
        exact h.sent_le i z (by omega)
    · change e.segmentCount ≤ i at hi
      exact h.unsent i z (by omega)

theorem LanesInv.handleCall (h : s.LanesInv limits) (hcall : s.engine.HandleCall e)
    (verdicts : List (LaneVerdict n)) : LanesInv limits ⟨e, s.lanes, verdicts⟩ := by
  have hstream : ∀ i, (e.segments i).segment.stream = (s.engine.segments i).segment.stream := by
    intro i
    rw [hcall.segments]
  exact h.sameStreams hcall.segmentCount hstream
    (h.window.samePhase hcall.phase hcall.activeSegment hstream)

/-! ## Steps that move a lane -/

theorem setLane_self (s : BudgetedEngine n) (i : Nat) (zone : Fin n) (lane : BudgetedLane) :
    s.setLane i zone lane i zone = lane := by
  unfold setLane
  rw [Function.update_self, Function.update_self]

theorem setLane_of_ne {i k : Nat} {z : Fin n} (h : ¬ (k = i ∧ z = zone)) (lane : BudgetedLane) :
    s.setLane i zone lane k z = s.lanes k z := by
  unfold setLane
  by_cases hk : k = i
  · subst hk
    rw [Function.update_self, Function.update_of_ne fun hz => h ⟨rfl, hz⟩]
  · rw [Function.update_of_ne hk]

theorem forall_setLane {P : Nat → Fin n → BudgetedLane → Prop} (hold : ∀ i z, P i z (s.lanes i z))
    {i : Nat} {lane : BudgetedLane} (hnew : P i zone lane) (k : Nat) (z : Fin n) :
    P k z (s.setLane i zone lane k z) := by
  by_cases hk : k = i ∧ z = zone
  · obtain ⟨rfl, rfl⟩ := hk
    rw [setLane_self]
    exact hnew
  · rw [setLane_of_ne hk]
    exact hold k z

/-- A lane moves, but keeps its reservation and what it was sent. -/
theorem LanesInv.setLane (h : s.LanesInv limits) {i : Nat} {lane : BudgetedLane}
    (hsound : lane.Sound limits.maxReplicaLagBytes)
    (hreservation : lane.reservation = (s.lanes i zone).reservation)
    (hsent : lane.sent = (s.lanes i zone).sent) (verdicts : List (LaneVerdict n)) :
    LanesInv limits ⟨s.engine, s.setLane i zone lane, verdicts⟩ := by
  have hreservations : ∀ k z, (s.setLane i zone lane k z).reservation = (s.lanes k z).reservation :=
    forall_setLane (P := fun k z lane => lane.reservation = (s.lanes k z).reservation)
      (fun _ _ => rfl) hreservation
  have hsents : ∀ k z, (s.setLane i zone lane k z).sent = (s.lanes k z).sent :=
    forall_setLane (P := fun k z lane => lane.sent = (s.lanes k z).sent) (fun _ _ => rfl) hsent
  refine ⟨forall_setLane (P := fun _ _ lane => lane.Sound limits.maxReplicaLagBytes) h.sound hsound,
    fun k z hk => ?_, fun k z hk => ?_, ?_⟩
  · show (s.setLane i zone lane k z).sent ≤ _
    rw [hsents]
    exact h.sent_le k z hk
  · show (s.setLane i zone lane k z).sent = 0
    rw [hsents]
    exact h.unsent k z hk
  · have hwindow := h.window
    unfold WindowInv OpenFor BudgetedEngine.lane at hwindow ⊢
    simp only [hreservations, hsents]
    exact hwindow

/-! ## Windows -/

theorem LanesInv.openWindow (h : s.LanesInv limits) (hidle : s.engine.phase.windowed = false)
    (htally : e.tally = s.engine.tally) (hphase : e.phase = .reserve appends (List.finRange n) [])
    (verdicts : List (LaneVerdict n)) : LanesInv limits ⟨e, s.lanes, verdicts⟩ := by
  refine h.sameStreams (congrArg EngineTally.segmentCount htally)
    (fun i => congrFun (congrArg EngineTally.streams htally) i) ?_
  unfold WindowInv
  simp only [hphase, List.append_nil]
  refine ⟨List.nodup_finRange n, fun i z charge hsome => ?_⟩
  rw [show (s.lanes i z).reservation = none from h.window.of_idle hidle i z] at hsome
  cases hsome

theorem LanesInv.moveLane (h : s.LanesInv limits) (htally : e.tally = s.engine.tally)
    {lane : BudgetedLane} (hactive : s.engine.activeSegment < s.engine.segmentCount)
    (hsound : lane.Sound limits.maxReplicaLagBytes)
    (hsent : lane.sent ≤ (streamBytes s.engine.active.segment.stream).length)
    {verdicts : List (LaneVerdict n)}
    (hwindow : WindowInv ⟨e, s.setLane s.engine.activeSegment zone lane, verdicts⟩) :
    LanesInv limits ⟨e, s.setLane s.engine.activeSegment zone lane, verdicts⟩ := by
  have hcount : e.segmentCount = s.engine.segmentCount := congrArg EngineTally.segmentCount htally
  have hstream : ∀ i, (e.segments i).segment.stream = (s.engine.segments i).segment.stream :=
    fun i => congrFun (congrArg EngineTally.streams htally) i
  refine ⟨forall_setLane (P := fun _ _ lane => lane.Sound limits.maxReplicaLagBytes) h.sound
    hsound, ?_, ?_, hwindow⟩
  · refine forall_setLane (P := fun i _ lane => i < e.segmentCount →
      lane.sent ≤ (streamBytes (e.segments i).segment.stream).length) (fun i z hi => ?_) fun _ => ?_
    · rw [hstream]
      exact h.sent_le i z (hcount ▸ hi)
    · rw [hstream]
      exact hsent
  · refine forall_setLane (P := fun i _ lane => e.segmentCount ≤ i → lane.sent = 0)
      (fun i z hi => ?_) fun hle => ?_
    · exact h.unsent i z (hcount ▸ hi)
    · rw [hcount] at hle
      exact absurd hactive (not_lt.2 hle)

/-- One zone answers: a lane with room holds a reservation from now on. -/
theorem LanesInv.reserveLane (h : s.LanesInv limits)
    (hactive : s.engine.activeSegment < s.engine.segmentCount)
    (hphase : s.engine.phase = .reserve appends (zone :: todo) zones)
    (verdicts : List (LaneVerdict n)) :
    LanesInv limits ⟨s.engine.reserveLane appends zone todo zones (s.fits appends zone),
      if s.engine.active.lanes zone then
        s.setLane s.engine.activeSegment zone
          ((s.lane zone).reserve (windowBytes appends) (appends.length = 1))
      else s.lanes, verdicts⟩ := by
  have htally := Engine.tally_reserveLane (e := s.engine) appends zone todo zones
      (s.fits appends zone)
  have hphase' := Engine.phase_reserveLane (e := s.engine) appends zone todo zones
      (s.fits appends zone)
  generalize s.engine.reserveLane appends zone todo zones (s.fits appends zone) =
    e' at htally hphase' ⊢
  have hsegment : e'.activeSegment = s.engine.activeSegment :=
    congrArg EngineTally.activeSegment htally
  have hwindow := h.window
  unfold WindowInv at hwindow
  rw [hphase] at hwindow
  obtain ⟨hnodup, hopen⟩ := hwindow
  have hnone : (s.lane zone).reservation = none :=
    hopen.reservation_eq_none (fun hmem => (List.nodup_cons.1 hnodup).1
      (List.mem_append_right _ hmem)) _
  by_cases hlane : s.engine.active.lanes zone = true
  · rw [if_pos hlane]
    rw [hlane, Bool.true_and] at hphase'
    refine h.moveLane htally hactive ((h.sound _ _).reserve hnone _ _) ?_ ?_
    · rw [BudgetedLane.sent_reserve]
      exact h.sent_le _ _ hactive
    · unfold WindowInv
      simp only [hphase']
      refine ⟨?_, ?_⟩
      · split_ifs
        · refine (List.Perm.nodup_iff ?_).2 hnodup
          rw [← List.append_assoc]
          exact List.perm_append_singleton _ _
        · exact (List.nodup_cons.1 hnodup).2
      · refine forall_setLane (P := fun i z lane => ∀ charge, lane.reservation = some charge →
          i = e'.activeSegment ∧ z ∈ (if s.fits appends zone = true then zones ++
            [zone] else zones) ∧
            charge.For (windowBytes appends)) (fun i z charge hsome => ?_) fun charge hsome => ?_
        · obtain ⟨hi, hz, hcharge⟩ := hopen i z charge hsome
          refine ⟨hi.trans hsegment.symm, ?_, hcharge⟩
          split_ifs
          · exact List.mem_append_left _ hz
          · exact hz
        · obtain ⟨hfits, hcharge⟩ := BudgetedLane.reservation_reserve hnone hsome
          have hfits : s.fits appends zone = true := hfits
          refine ⟨hsegment.symm, ?_, hcharge⟩
          rw [if_pos hfits]
          exact List.mem_append_right _ (List.mem_singleton_self zone)
  · rw [if_neg hlane]
    have hlost : s.engine.active.lanes zone = false := Bool.not_eq_true _ ▸ hlane
    rw [hlost, Bool.false_and] at hphase'
    refine h.sameStreams (congrArg EngineTally.segmentCount htally)
      (fun i => congrFun (congrArg EngineTally.streams htally) i) ?_
    unfold WindowInv
    simp only [hphase']
    refine ⟨(List.nodup_cons.1 hnodup).2, fun i z charge hsome => ?_⟩
    obtain ⟨hi, hz, hcharge⟩ := hopen i z charge hsome
    exact ⟨hi.trans hsegment.symm, hz, hcharge⟩

theorem forall_dropReservations {P : Nat → Fin n → BudgetedLane → Prop}
    (hold : ∀ i z, P i z (s.lanes i z))
    (hnew : ∀ z, P s.engine.activeSegment z (s.lane z).dropReservation) (i : Nat) (z : Fin n) :
    P i z (s.dropReservations i z) := by
  unfold dropReservations
  by_cases hi : i = s.engine.activeSegment
  · subst hi
    rw [Function.update_self]
    exact hnew z
  · rw [Function.update_of_ne hi]
    exact hold i z

theorem LanesInv.giveUp (h : s.LanesInv limits) (htally : e.tally = s.engine.tally)
    (hphase : e.phase.windowed = false) (hopen : ∀ i z, i ≠ s.engine.activeSegment →
      (s.lanes i z).reservation = none) (verdicts : List (LaneVerdict n)) :
    LanesInv limits ⟨e, s.dropReservations, verdicts⟩ := by
  have hcount : e.segmentCount = s.engine.segmentCount := congrArg EngineTally.segmentCount htally
  have hstream : ∀ i, (e.segments i).segment.stream = (s.engine.segments i).segment.stream :=
    fun i => congrFun (congrArg EngineTally.streams htally) i
  have hsent : ∀ i z, (s.dropReservations i z).sent = (s.lanes i z).sent :=
    forall_dropReservations (P := fun i z lane => lane.sent = (s.lanes i z).sent) (fun _ _ => rfl)
      fun z => BudgetedLane.sent_dropReservation _
  refine ⟨forall_dropReservations
    (P := fun _ _ lane => lane.Sound limits.maxReplicaLagBytes) h.sound
    fun z => (h.sound _ z).dropReservation, fun i z hi => ?_, fun i z hi => ?_,
    windowInv_of_idle hphase fun i z => ?_⟩
  · show (s.dropReservations i z).sent ≤ (streamBytes (e.segments i).segment.stream).length
    rw [hsent, hstream]
    exact h.sent_le i z (hcount ▸ hi)
  · show (s.dropReservations i z).sent = 0
    rw [hsent]
    exact h.unsent i z (hcount ▸ hi)
  · show (s.dropReservations i z).reservation = none
    unfold dropReservations
    by_cases hi : i = s.engine.activeSegment
    · rw [hi, Function.update_self]
      exact BudgetedLane.reservation_dropReservation _
    · rw [Function.update_of_ne hi]
      exact hopen i z hi

theorem WindowInv.reservation_of_ne (h : s.WindowInv) {i : Nat}
    (hi : i ≠ s.engine.activeSegment) (z : Fin n) : (s.lanes i z).reservation = none := by
  have hopen : ∀ {zones bytes}, s.OpenFor zones bytes → (s.lanes i z).reservation = none := by
    intro zones bytes hfor
    cases hreservation : (s.lanes i z).reservation with
    | none => rfl
    | some charge => exact absurd (hfor i z charge hreservation).1 hi
  unfold WindowInv at h
  split at h
  · exact hopen h.2
  · exact hopen h.2.1
  · exact h i z

/-- Every zone has answered, and the window joins the stream. -/
theorem LanesInv.joined (h : s.LanesInv limits)
    (hactive : s.engine.activeSegment < s.engine.segmentCount)
    (hphase : s.engine.phase = .reserve appends [] zones)
    (hphase' : e.phase = .send appends zones []) (htally : e.tally = { s.engine.tally with
      streams := Function.update s.engine.tally.streams s.engine.activeSegment
        (s.engine.active.segment.stream ++ appends.map AdmittedAppend.record) })
    (verdicts : List (LaneVerdict n)) : LanesInv limits ⟨e, s.lanes, verdicts⟩ := by
  have hcount : e.segmentCount = s.engine.segmentCount := congrArg EngineTally.segmentCount htally
  have hsegment : e.activeSegment = s.engine.activeSegment :=
    congrArg EngineTally.activeSegment htally
  have hstream : ∀ i, (e.segments i).segment.stream =
      Function.update s.engine.tally.streams s.engine.activeSegment
        (s.engine.active.segment.stream ++ appends.map AdmittedAppend.record) i :=
    fun i => congrFun (congrArg EngineTally.streams htally) i
  have hgrown : (streamBytes (e.segments s.engine.activeSegment).segment.stream).length =
      (streamBytes s.engine.active.segment.stream).length + windowBytes appends := by
    rw [hstream, Function.update_self, streamBytes_append, List.length_append,
      length_streamBytes (appends.map _), windowBytes_eq]
  have hwindow := h.window
  unfold WindowInv at hwindow
  rw [hphase] at hwindow
  obtain ⟨hnodup, hopen⟩ := hwindow
  refine ⟨h.sound, fun i z hi => ?_, fun i z hi => h.unsent i z (hcount ▸ hi), ?_⟩
  · show _ ≤ (streamBytes (e.segments i).segment.stream).length
    have hold := h.sent_le i z (hcount ▸ hi)
    by_cases hi' : i = s.engine.activeSegment
    · subst hi'
      rw [hgrown]
      exact hold.trans (Nat.le_add_right _ _)
    · rw [hstream, Function.update_of_ne hi']
      exact hold
  · unfold WindowInv
    simp only [hphase']
    refine ⟨hnodup, fun i z charge hsome => ?_, fun z _ => ?_⟩
    · obtain ⟨hi, hz, hcharge⟩ := hopen i z charge hsome
      exact ⟨hi.trans hsegment.symm, hz, hcharge⟩
    · show (s.lanes e.activeSegment z).sent + _ ≤
        (streamBytes (e.segments e.activeSegment).segment.stream).length
      rw [hsegment, hgrown]
      exact Nat.add_le_add_right (h.sent_le _ z hactive) _

theorem LanesInv.sendLane (h : s.LanesInv limits)
    (hactive : s.engine.activeSegment < s.engine.segmentCount) {represented : List (Fin n)}
    (hphase : s.engine.phase = .send appends (zone :: todo) represented)
    (hne : appends ≠ []) (sent : Bool) (verdicts : List (LaneVerdict n)) :
    LanesInv limits ⟨s.engine.sendLane appends zone todo represented sent,
      s.setLane s.engine.activeSegment zone
        (if sent then s.sendBatch zone (appends.map AdmittedAppend.record)
        else (s.lane zone).dropReservation), verdicts⟩ := by
  have htally := Engine.tally_sendLane (e := s.engine) appends zone todo represented sent
  have hphase' := Engine.phase_sendLane (e := s.engine) appends zone todo represented sent
  generalize s.engine.sendLane appends zone todo represented sent = e' at htally hphase' ⊢
  have hsegment : e'.activeSegment = s.engine.activeSegment :=
    congrArg EngineTally.activeSegment htally
  have hstream : ∀ i, (e'.segments i).segment.stream = (s.engine.segments i).segment.stream :=
    fun i => congrFun (congrArg EngineTally.streams htally) i
  have hwindow := h.window
  unfold WindowInv at hwindow
  rw [hphase] at hwindow
  obtain ⟨hnodup, hopen, hroom⟩ := hwindow
  have hzone := hroom zone List.mem_cons_self
  have hrecords : appends.map AdmittedAppend.record ≠ [] :=
    fun hnil => hne (List.map_eq_nil_iff.1 hnil)
  have hbytes : (streamBytes (appends.map AdmittedAppend.record)).length = windowBytes appends := by
    rw [length_streamBytes, windowBytes_eq]
  obtain ⟨lane, hlane⟩ : ∃ lane, (if sent then s.sendBatch zone (appends.map AdmittedAppend.record)
      else (s.lane zone).dropReservation) = lane := ⟨_, rfl⟩
  have hfacts : lane.Sound limits.maxReplicaLagBytes ∧ lane.reservation = none ∧
      lane.sent ≤ (streamBytes s.engine.active.segment.stream).length := by
    rw [← hlane]
    split_ifs
    · unfold sendBatch
      rw [dif_pos hrecords]
      have hsize : ∀ offset, (BatchDescriptor.ofRecords offset _ hrecords).size =
          windowBytes appends := by
        intro offset
        rw [BatchDescriptor.size_eq, ← hbytes]
        rfl
      have hstop : (BatchDescriptor.ofRecords ((streamBytes s.engine.active.segment.stream).length -
          (streamBytes (appends.map AdmittedAppend.record)).length) _ hrecords).stop =
          (streamBytes s.engine.active.segment.stream).length := by
        rw [BatchDescriptor.stop_eq]
        show _ - _ + (streamBytes (appends.map AdmittedAppend.record)).length = _
        omega
      refine ⟨(h.sound _ _).send ?_ fun charge hsome => ?_, BudgetedLane.reservation_send _ _, ?_⟩
      · show (s.lane zone).sent ≤ _ - _
        omega
      · rw [hsize]
        exact (hopen _ zone charge hsome).2.2
      · refine (BudgetedLane.sent_send_le _ _).trans (max_le ?_ hstop.le)
        omega
    · refine ⟨(h.sound _ _).dropReservation, BudgetedLane.reservation_dropReservation _, ?_⟩
      rw [BudgetedLane.sent_dropReservation]
      omega
  rw [hlane]
  obtain ⟨hsound, hnone, hsent⟩ := hfacts
  refine h.moveLane htally hactive hsound hsent ?_
  unfold WindowInv
  simp only [hphase']
  have hother : ∀ z, z ∈ zone :: todo → z ≠ zone → z ∈ todo :=
    fun z hz hzne => (List.mem_cons.1 hz).resolve_left hzne
  refine ⟨(List.nodup_cons.1 hnodup).2, fun i z charge hsome => ?_, fun z hz => ?_⟩
  · change (s.setLane s.engine.activeSegment zone lane i z).reservation = some charge at hsome
    by_cases hself : i = s.engine.activeSegment ∧ z = zone
    · obtain ⟨rfl, rfl⟩ := hself
      rw [setLane_self, hnone] at hsome
      cases hsome
    · rw [setLane_of_ne hself] at hsome
      obtain ⟨hi, hz, hcharge⟩ := hopen i z charge hsome
      exact ⟨hi.trans hsegment.symm, hother z hz fun hzone => hself ⟨hi, hzone⟩, hcharge⟩
  · have hzne : z ≠ zone := fun hzone => (List.nodup_cons.1 hnodup).1 (hzone ▸ hz)
    show (s.setLane s.engine.activeSegment zone lane e'.activeSegment z).sent + _ ≤
      (streamBytes (e'.segments e'.activeSegment).segment.stream).length
    rw [setLane_of_ne fun hself => hzne hself.2, hstream, hsegment]
    exact hroom z (List.mem_cons_of_mem _ hz)

theorem LanesInv.windowSent (h : s.LanesInv limits) {represented : List (Fin n)}
    (hphase : s.engine.phase = .send appends [] represented) (hquiet : s.engine.Quiet e)
    (hphase' : e.phase.windowed = false) (verdicts : List (LaneVerdict n)) :
    LanesInv limits ⟨e, s.lanes, verdicts⟩ := by
  have hwindow := h.window
  unfold WindowInv at hwindow
  rw [hphase] at hwindow
  refine h.sameStreams (congrArg EngineTally.segmentCount hquiet.tally)
    (fun i => congrFun (congrArg EngineTally.streams hquiet.tally) i)
      (windowInv_of_idle hphase' fun i z => ?_)
  exact hwindow.2.1.reservation_eq_none List.not_mem_nil i

/-! ## Room in a lane that keeps up -/

/-- The bytes of the active segment whose records have completed. -/
def completedBytes (s : BudgetedEngine n) : Nat :=
  (streamBytes (s.engine.active.segment.stream.take
    (s.engine.nextCompletion - s.engine.baseRecordIndex))).length

/-- A lane of the active segment holds no batch with a record that has completed. -/
def holdsUncompleted (s : BudgetedEngine n) (zone : Fin n) : Bool :=
  (s.lane zone).retained.all fun r => s.completedBytes ≤ r.batch.start

/-- While the permits of all bytes that a lane reserves are taken, it has room for the window. -/
theorem fits_of_holdsUncompleted (hvalid : limits.validate = .ok ())
    (hengine : EngineInv crc start s.engine)
    (hpermits : PermitInv limits.maxInflightBytes start s.engine) (hlanes : s.LanesInv limits)
    (hphase : s.engine.phase = .reserve appends (zone :: todo) zones)
    (hholds : s.holdsUncompleted zone = true) : s.fits appends zone = true := by
  obtain ⟨hpos, hlag⟩ := EngineLimits.validate_eq_ok hvalid
  simp only [EngineInv, hphase] at hengine
  obtain ⟨hne, hrun⟩ := hengine
  have hwindow := hlanes.window
  unfold WindowInv at hwindow
  rw [hphase] at hwindow
  obtain ⟨hnodup, hopen⟩ := hwindow
  have hnone : (s.lane zone).reservation = none :=
    hopen.reservation_eq_none (fun hmem => (List.nodup_cons.1 hnodup).1
      (List.mem_append_right _ hmem)) _
  -- what the lane reserves are bytes of records without a completion
  have hsound : (s.lane zone).Sound limits.maxReplicaLagBytes := hlanes.sound _ zone
  obtain ⟨hcharges, hempty⟩ := hsound.liveCharges_le hnone
    fun r hr => of_decide_eq_true (List.all_eq_true.1 hholds r hr)
  have hsent : (s.lane zone).sent ≤ (streamBytes s.engine.active.segment.stream).length :=
    hlanes.sent_le _ zone hrun.active_lt
  obtain ⟨rest, hrest⟩ : ∃ rest, s.engine.active.segment.stream.drop
    (s.engine.nextCompletion - s.engine.baseRecordIndex) = rest := ⟨_, rfl⟩
  have hstream : (streamBytes s.engine.active.segment.stream).length =
      s.completedBytes + (rest.map RecordFrame.size).sum := by
    rw [completedBytes, ← length_streamBytes, ← hrest, ← List.length_append, ← streamBytes_append,
      List.take_append_drop]
  -- and these records fit the in-flight budget together with the window
  have hspan : rest ++ appends.map AdmittedAppend.record <:+:
      s.engine.accepted.drop (s.engine.nextCompletion - start) := hrest ▸ hrun.uncompleted_infix
  have hcapped : (((rest ++ appends.map AdmittedAppend.record).map RecordFrame.size).map
      (min · limits.maxInflightBytes)).sum ≤ limits.maxInflightBytes := by
    refine le_trans ?_ hpermits
    rw [List.map_map]
    exact List.Sublist.sum_le_sum (hspan.sublist.map _) fun _ _ => Nat.zero_le _
  have hsizes : ∀ x ∈ (rest ++ appends.map AdmittedAppend.record).map RecordFrame.size, 0 < x := by
    intro x hx
    obtain ⟨record, -, rfl⟩ := List.mem_map.1 hx
    exact record.size_pos
  refine hsound.balanced.isSome_tryReserve ?_
  rcases sum_le_or_singleton hpos hsizes hcapped with hsum | ⟨x, hsingle⟩
  · left
    rw [List.map_append, List.sum_append, ← windowBytes_eq] at hsum
    omega
  · right
    rw [List.map_append] at hsingle
    have hlen := congrArg List.length hsingle
    rw [List.length_append, List.length_map, List.length_map, List.length_map,
      List.length_singleton] at hlen
    have happends : 0 < appends.length := List.length_pos_iff.2 hne
    have hnil : rest = [] := List.length_eq_zero_iff.1 (by omega)
    rw [hnil, List.map_nil, List.sum_nil] at hstream
    refine ⟨hempty ?_, decide_eq_true ?_⟩
    · omega
    · omega

/-! ## Runs -/

/-- The condition under which a lane is not shed: when a window asks a lane that keeps up for room,
no batch that the lane still holds has a completed record. -/
def permitsTaken (s : BudgetedEngine n) : Action n → Bool
  | .engine (.reserveLane _) =>
    match s.engine.phase with
    | .reserve _ (zone :: _) _ =>
      !(s.engine.active.lanes zone && s.caughtUp zone) || s.holdsUncompleted zone
    | _ => true
  | _ => true

structure VerdictInv (s : BudgetedEngine n) : Prop where
  kept : ∀ v ∈ s.verdicts, v.caughtUp = true → v.reserved = true
  counted : ∀ appends todo zones, s.engine.phase = .reserve appends todo zones →
    zones.length = s.verdicts.countP LaneVerdict.reserved

structure BudgetInv (crc : Bytes → Nat) (limits : EngineLimits) (start : Nat)
    (s : BudgetedEngine n) : Prop where
  engine : EngineInv crc start s.engine
  permits : PermitInv limits.maxInflightBytes start s.engine
  lanes : s.LanesInv limits
  verdicts : s.VerdictInv

theorem VerdictInv.samePhase (h : s.VerdictInv)
    (hphase : e.phase.windowed = true → e.phase = s.engine.phase)
    (lanes : Nat → Fin n → BudgetedLane) : VerdictInv ⟨e, lanes, s.verdicts⟩ := by
  refine ⟨h.kept, fun appends todo zones hreserve => ?_⟩
  change e.phase = .reserve appends todo zones at hreserve
  refine h.counted appends todo zones ?_
  rw [← hphase (by rw [hreserve]; rfl)]
  exact hreserve

/-- A step of the loop or of its environment that moves neither a window nor a lane. -/
theorem BudgetInv.effect (h : s.BudgetInv crc limits start) (hengine : EngineInv crc start e)
    (heffect : s.engine.Effect e)
    (hphase : e.phase = s.engine.phase ∨ s.engine.phase.windowed = false) :
    BudgetInv crc limits start ⟨e, s.lanes, s.verdicts⟩ := by
  refine ⟨hengine, h.permits.effect heffect, h.lanes.effect heffect hphase _,
    h.verdicts.samePhase ?_ _⟩
  intro hwindowed
  cases heffect with
  | quiet hquiet => exact hquiet.phase hwindowed
  | completed _ hidle | swapped _ _ hidle | adopted _ hidle =>
    rw [hidle] at hwindowed
    cases hwindowed

/-- A call of the handle. It enters the channel only with its permits. -/
theorem BudgetInv.handleCall (h : s.BudgetInv crc limits start) (hengine : EngineInv crc start e)
    {action : Engine.Action n} (hbackground : Engine.background action = false)
    (habort : action ≠ .abort) (hpermitted : s.permitted limits action = true)
    (hstep : s.engine.step crc limits.toWalEngineConfig action = some e) :
    BudgetInv crc limits start ⟨e, s.lanes, s.verdicts⟩ := by
  have hcall := Engine.step_handleCall hbackground habort hstep
  refine ⟨hengine, ?_, h.lanes.handleCall hcall _, h.verdicts.samePhase (fun _ => hcall.phase) _⟩
  by_cases hsend : action = .sendAppend
  · subst hsend
    obtain ⟨append, happend, rfl⟩ := Option.map_eq_some_iff.1 hstep
    simp only [permitted, happend, Option.all_some, admits, Bool.and_eq_true,
      decide_eq_true_eq] at hpermitted
    exact h.permits.sendAppend h.engine hpermitted.1
  · exact h.permits.mono (Engine.accepted_handleCall hbackground hsend hstep)
      hcall.nextCompletion.ge

theorem BudgetInv.abort (h : s.BudgetInv crc limits start) (hengine : EngineInv crc start e)
    (htally : e.tally = s.engine.tally) (hidle : e.phase.windowed = false) :
    BudgetInv crc limits start ⟨e, s.dropReservations, s.verdicts⟩ := by
  refine ⟨hengine, h.permits.mono (congrArg (·.admissions.accepted) htally)
    (congrArg EngineTally.nextCompletion htally).ge, h.lanes.giveUp htally hidle
    (fun _ z hi => h.lanes.window.reservation_of_ne hi z) _, h.verdicts.samePhase
      (fun hwindowed => ?_) _⟩
  rw [hidle] at hwindowed
  cases hwindowed

theorem BudgetInv.window (h : s.BudgetInv crc limits start)
    (hengine : EngineInv crc start (s.engine.window limits.toWalEngineConfig))
    (hphase : s.engine.phase = .dispatch) :
    BudgetInv crc limits start ⟨s.engine.window limits.toWalEngineConfig, s.lanes, []⟩ := by
  have hidle : s.engine.phase.windowed = false := by
    rw [hphase]
    rfl
  rcases Engine.window_cases limits.toWalEngineConfig s.engine with hquiet |
    ⟨htally, appends, hreserve⟩
  · have heffect : s.engine.Effect (s.engine.window limits.toWalEngineConfig) := .quiet hquiet
    refine ⟨hengine, h.permits.effect heffect, h.lanes.effect heffect (.inr hidle) _, ?_, ?_⟩
    · exact fun v hv => absurd hv List.not_mem_nil
    · intro appends todo zones hreserve
      change (s.engine.window limits.toWalEngineConfig).phase = _ at hreserve
      have hsame := hquiet.phase (by rw [hreserve]; rfl)
      rw [hreserve, hphase] at hsame
      cases hsame
  · refine ⟨hengine, h.permits.mono (congrArg (·.admissions.accepted) htally)
      (congrArg EngineTally.nextCompletion htally).ge,
      h.lanes.openWindow hidle htally hreserve _, ?_, ?_⟩
    · exact fun v hv => absurd hv List.not_mem_nil
    · intro appends' todo zones hphase'
      have hsame := hreserve.symm.trans hphase'
      cases hsame
      rfl

/-- A zone answers. A lane that keeps up has room. -/
theorem BudgetInv.reserveLane (hvalid : limits.validate = .ok ()) (h : s.BudgetInv crc limits start)
    (hphase : s.engine.phase = .reserve appends (zone :: todo) zones)
    (hengine : EngineInv crc start
      (s.engine.reserveLane appends zone todo zones (s.fits appends zone)))
    (hholds : s.engine.active.lanes zone = true → s.caughtUp zone = true →
      s.holdsUncompleted zone = true) :
    BudgetInv crc limits start ⟨s.engine.reserveLane appends zone todo zones (s.fits appends zone),
      if s.engine.active.lanes zone then
        s.setLane s.engine.activeSegment zone
          ((s.lane zone).reserve (windowBytes appends) (appends.length = 1))
      else s.lanes,
      s.verdicts ++ [⟨zone, s.engine.active.lanes zone && s.caughtUp zone,
        s.engine.active.lanes zone && s.fits appends zone⟩]⟩ := by
  have htally := Engine.tally_reserveLane (e := s.engine) appends zone todo zones
      (s.fits appends zone)
  have hphase' := Engine.phase_reserveLane (e := s.engine) appends zone todo zones
      (s.fits appends zone)
  have hactive : s.engine.activeSegment < s.engine.segmentCount := by
    have hinv := h.engine
    simp only [EngineInv, hphase] at hinv
    exact hinv.2.active_lt
  refine ⟨hengine, h.permits.mono (congrArg (·.admissions.accepted) htally)
    (congrArg EngineTally.nextCompletion htally).ge, h.lanes.reserveLane hactive hphase _, ?_, ?_⟩
  · intro v hv hcaught
    rcases List.mem_append.1 hv with hold | hnew
    · exact h.verdicts.kept v hold hcaught
    · rw [List.mem_singleton.1 hnew] at hcaught ⊢
      obtain ⟨hlane, hcaught⟩ := Bool.and_eq_true_iff.1 hcaught
      have hfits := fits_of_holdsUncompleted hvalid h.engine h.permits h.lanes hphase
        (hholds hlane hcaught)
      show (s.engine.active.lanes zone && s.fits appends zone) = true
      rw [hlane, hfits]
      rfl
  · intro appends' todo' zones' hreserve
    have hsame := hphase'.symm.trans hreserve
    cases hsame
    have hcount := h.verdicts.counted _ _ _ hphase
    rw [List.countP_append, ← hcount]
    cases s.engine.active.lanes zone && s.fits appends zone with
    | false => rfl
    | true => exact List.length_append

theorem BudgetInv.reserved (h : s.BudgetInv crc limits start)
    (hphase : s.engine.phase = .reserve appends [] zones) (hengine : EngineInv crc start e)
    (hstep : s.engine.reserved crc appends zones = some e) :
    BudgetInv crc limits start
      ⟨e, if zones.length < majority n then s.dropReservations else s.lanes, s.verdicts⟩ := by
  have hactive : s.engine.activeSegment < s.engine.segmentCount := by
    have hinv := h.engine
    simp only [EngineInv, hphase] at hinv
    exact hinv.2.active_lt
  rcases Engine.reserved_cases hstep with ⟨hquiet, hstopped, hfew⟩ | ⟨hquorum, hsend, htally⟩
  · rw [if_pos hfew]
    refine ⟨hengine, h.permits.effect (.quiet hquiet), h.lanes.giveUp hquiet.tally hstopped
      (fun _ z hi => h.lanes.window.reservation_of_ne hi z) _, h.verdicts.samePhase hquiet.phase _⟩
  · rw [if_neg (not_lt.2 hquorum)]
    refine ⟨hengine, h.permits.mono (congrArg (·.admissions.accepted) htally)
      (congrArg EngineTally.nextCompletion htally).ge, h.lanes.joined hactive hphase hsend htally _,
      h.verdicts.kept, fun appends' todo zones' hreserve => ?_⟩
    have hsame := hsend.symm.trans hreserve
    cases hsame

theorem BudgetInv.sendLane (h : s.BudgetInv crc limits start) {represented : List (Fin n)}
    (hphase : s.engine.phase = .send appends (zone :: todo) represented) (sent : Bool)
    (hengine : EngineInv crc start (s.engine.sendLane appends zone todo represented sent)) :
    BudgetInv crc limits start ⟨s.engine.sendLane appends zone todo represented sent,
      s.setLane s.engine.activeSegment zone
        (if sent then s.sendBatch zone (appends.map AdmittedAppend.record)
        else (s.lane zone).dropReservation), s.verdicts⟩ := by
  have htally := Engine.tally_sendLane (e := s.engine) appends zone todo represented sent
  have hphase' := Engine.phase_sendLane (e := s.engine) appends zone todo represented sent
  have hinv := h.engine
  simp only [EngineInv, hphase] at hinv
  refine ⟨hengine, h.permits.mono (congrArg (·.admissions.accepted) htally)
    (congrArg EngineTally.nextCompletion htally).ge,
    h.lanes.sendLane hinv.2.active_lt hphase hinv.1 sent _, h.verdicts.kept,
    fun appends' todo' zones' hreserve => ?_⟩
  have hsame := hphase'.symm.trans hreserve
  cases hsame

theorem BudgetInv.admitWindow (h : s.BudgetInv crc limits start) {represented : List (Fin n)}
    (hphase : s.engine.phase = .send appends [] represented) (hengine : EngineInv crc start e)
    (hstep : s.engine.admitWindow crc appends represented = some e) :
    BudgetInv crc limits start ⟨e, s.lanes, s.verdicts⟩ := by
  obtain ⟨hquiet, hidle⟩ := Engine.quiet_admitWindow hstep
  exact ⟨hengine, h.permits.effect (.quiet hquiet), h.lanes.windowSent hphase hquiet hidle _,
    h.verdicts.samePhase hquiet.phase _⟩

theorem BudgetInv.publishDurable (h : s.BudgetInv crc limits start) (i : Nat) (zone : Fin n)
    (durable : Nat) : BudgetInv crc limits start ⟨s.engine,
      s.setLane i zone ((s.lanes i zone).publishLaneProgress durable), s.verdicts⟩ where
  engine := h.engine
  permits := h.permits
  lanes := h.lanes.setLane ((h.lanes.sound i zone).publishLaneProgress durable) rfl rfl _
  verdicts := ⟨h.verdicts.kept, h.verdicts.counted⟩

theorem BudgetInv.clearLane (h : s.BudgetInv crc limits start) (i : Nat) (zone : Fin n) :
    BudgetInv crc limits start ⟨s.engine, s.setLane i zone (s.lanes i zone).clear, s.verdicts⟩ where
  engine := h.engine
  permits := h.permits
  lanes := h.lanes.setLane (h.lanes.sound i zone).clear rfl rfl _
  verdicts := ⟨h.verdicts.kept, h.verdicts.counted⟩

theorem BudgetInv.engineStep (hvalid : limits.validate = .ok ()) (h : s.BudgetInv crc limits start)
    {action : Engine.Action n} (hok : s.permitsTaken (.engine action) = true)
    (hpermitted : s.permitted limits action = true)
    (hstep : s.engine.step crc limits.toWalEngineConfig action = some e) :
    BudgetInv crc limits start ⟨e, s.lanesAfter action, s.verdictsAfter action⟩ := by
  have hengine : EngineInv crc start e := h.engine.step hstep
  have hother : Engine.background action = true → Engine.windowing action = false →
      BudgetInv crc limits start ⟨e, s.lanes, s.verdicts⟩ := fun hbackground hwindowing =>
    h.effect hengine (Engine.step_effect hbackground hwindowing hstep)
      (Engine.phase_of_step hbackground hwindowing hstep)
  cases action with
  | enqueueAppend | sendAppend | cancelAppend | shutdown | dropHandle =>
    exact h.handleCall hengine rfl (fun heq => by cases heq) hpermitted hstep
  | abort =>
    cases hstep
    exact h.abort hengine rfl rfl
  | segment i action =>
    have hmoved := hother rfl rfl
    cases action with
    | publishDurable zone durable => exact hmoved.publishDurable i zone durable
    | _ => exact hmoved
  | window =>
    simp only [Engine.step] at hstep
    split at hstep
    · rename_i hphase
      cases hstep
      exact h.window hengine hphase
    · cases hstep
  | reserveLane answer =>
    simp only [Engine.step] at hstep
    split at hstep
    · rename_i appends zone todo zones hphase
      cases hstep
      simp only [permitted, hphase, beq_iff_eq] at hpermitted
      subst hpermitted
      simp only [permitsTaken, hphase] at hok
      simp only [lanesAfter, verdictsAfter, hphase]
      refine h.reserveLane hvalid hphase hengine fun hlane hcaught => ?_
      rw [hlane, hcaught] at hok
      exact hok
    · rename_i appends zones hphase
      simp only [lanesAfter, verdictsAfter, hphase]
      exact h.reserved hphase hengine hstep
    · cases hstep
  | sendLane sent =>
    simp only [Engine.step] at hstep
    split at hstep
    · rename_i appends zone todo represented hphase
      cases hstep
      simp only [lanesAfter, verdictsAfter, hphase]
      exact h.sendLane hphase sent hengine
    · rename_i appends represented hphase
      simp only [lanesAfter, verdictsAfter, hphase]
      exact h.admitWindow hphase hengine hstep
    · cases hstep
  | _ => exact hother rfl rfl

theorem BudgetInv.step (hvalid : limits.validate = .ok ()) (h : s.BudgetInv crc limits start)
    {action : Action n} {s' : BudgetedEngine n} (hok : s.permitsTaken action = true)
    (hstep : s.step crc limits action = some s') : s'.BudgetInv crc limits start := by
  cases action with
  | engine action =>
    obtain ⟨hpermitted, heq⟩ := Option.ite_none_right_eq_some.1 hstep
    obtain ⟨e, hengine, rfl⟩ := Option.map_eq_some_iff.1 heq
    exact h.engineStep hvalid hok hpermitted hengine
  | clearLane i zone =>
    obtain ⟨-, heq⟩ := Option.ite_none_right_eq_some.1 hstep
    cases heq
    exact h.clearLane i zone

theorem budgetInv_init (crc : Bytes → Nat) (limits : EngineLimits) (base room : Nat)
    (active spare : Fin n → ZoneStart) (recoveredFold : Option PendingSwap) :
    (BudgetedEngine.init limits base room active spare recoveredFold).BudgetInv crc
      limits base where
  engine := .of_init crc base room active spare recoveredFold
  permits := by
    show ((([] : List RecordFrame).drop _).map _).sum ≤ _
    rw [List.drop_nil]
    exact Nat.zero_le _
  lanes := lanesInv_init limits base room active spare recoveredFold
  verdicts := by
    refine ⟨fun v hv => absurd hv List.not_mem_nil, fun appends todo zones hphase => ?_⟩
    cases hphase

/-- Lanes that keep up are not shed for capacity. In every run in which the permits of all bytes
that such a lane reserves are taken whenever a window asks it for room, the lane has room for the
window; and once the zones have answered, a window that a quorum of lanes was keeping up with goes
out to the lanes. -/
theorem caught_up_lane_kept (crc : Bytes → Nat) (limits : EngineLimits)
    (hvalid : limits.validate = .ok ()) (base room : Nat) (active spare : Fin n → ZoneStart)
    (recoveredFold : Option PendingSwap) {s : BudgetedEngine n}
    (hrun : Reaches (BudgetedEngine.step crc limits) (fun s action => s.permitsTaken action = true)
      (BudgetedEngine.init limits base room active spare recoveredFold) s) :
    (∀ v ∈ s.verdicts, v.caughtUp = true → v.reserved = true) ∧
    ∀ appends zones, s.engine.phase = .reserve appends [] zones →
      majority n ≤ s.verdicts.countP LaneVerdict.caughtUp →
      ∀ e, s.engine.reserved crc appends zones = some e → e.phase = .send appends zones [] := by
  have hinv : s.BudgetInv crc limits base :=
    hrun.invariant (budgetInv_init crc limits base room active spare recoveredFold)
      fun _ _ _ h hok hstep => h.step hvalid hok hstep
  have hkept := hinv.verdicts.kept
  refine ⟨hkept, fun appends zones hphase hquorum e hstep => ?_⟩
  have hcount : s.verdicts.countP LaneVerdict.caughtUp ≤ zones.length := by
    rw [hinv.verdicts.counted appends [] zones hphase]
    exact List.countP_mono_left hkept
  rcases Engine.reserved_cases hstep with ⟨-, -, hfew⟩ | ⟨-, hsend, -⟩
  · omega
  · exact hsend

/-- Two records of five bytes fill every budget. -/
def fullBudgets : EngineLimits where
  pipelineWindowBytes := 10
  maxSegmentBytes := 1024
  maxActiveSegmentBytes := 1024
  queueCapacityBytes := 64
  maxInflightBytes := 10
  maxReplicaLagBytes := 10
  laneStallTimeout := 5000000000
  repairInterval := none
  shutdownTimeout := 300000000000

/-- An iteration of the engine's loop up to its window, with the steps that complete records. -/
def loopTo (completing : List (Engine.Action 3)) : List (Engine.Action 3) :=
  [.drain, .progress] ++ completing ++
    [.recheck none, .provision (.ok ()) true, .checkSwap, .checkShutdown, .window]

/-- Zones make the batch of records 0 and 1 durable up to an offset, so that some of the records
complete, and record 2 asks the lanes for room. -/
def roomRun (zones : List (Fin 3)) (durable : Nat) (completing waiting : List (Engine.Action 3))
    (answers : List Bool) : List (Action 3) :=
  let acks : List (Engine.Action 3) := zones.flatMap fun zone =>
    [.segment 0 (.persist zone durable), .segment 0 (.publishDurable zone durable)]
  let actions : List (Engine.Action 3) :=
    [.enqueueAppend 0 ⟨[1]⟩, .sendAppend, .enqueueAppend 1 ⟨[2]⟩, .sendAppend] ++
      dispatchOne ++ acks ++ [.wake .commitUpdate true] ++ loopTo completing ++
      [.checkExit, .enqueueAppend 2 ⟨[3]⟩, .sendAppend, .wake .command true] ++ loopTo waiting ++
      answers.map .reserveLane
  actions.map .engine

/-- Every lane has answered, and a majority of them keeps up. -/
def caughtUpCheck (s : BudgetedEngine 3) : Phase 3 → Bool
  | .reserve _ [] _ => decide (majority 3 ≤ s.verdicts.countP LaneVerdict.caughtUp)
  | _ => false

/-- Two lanes make the whole batch durable and have room; the third one is behind and is shed. -/
theorem caught_up_lane_kept_quorum : ∃ s : BudgetedEngine 3,
    Reaches (BudgetedEngine.step crc32c fullBudgets) (fun s action => s.permitsTaken action = true)
      (BudgetedEngine.init fullBudgets 0 2 (fun _ => .lane) (fun _ => .lane) none) s ∧
    s.verdicts = [⟨0, true, true⟩, ⟨1, true, true⟩, ⟨2, false, false⟩] ∧
    (∀ v ∈ s.verdicts, v.caughtUp = true → v.reserved = true) ∧
    ∃ appends zones, s.engine.phase = .reserve appends [] zones ∧
      ∀ e, s.engine.reserved crc32c appends zones = some e → e.phase = .send appends zones [] := by
  have hrun : (runChecked (BudgetedEngine.step crc32c fullBudgets) permitsTaken
      (BudgetedEngine.init fullBudgets 0 2 (fun _ => .lane) (fun _ => .lane) none)
      (roomRun [0, 1] 10 [.complete, .complete, .complete, .progress] []
        [true, true, false])).any (fun s =>
        decide (s.verdicts = [⟨0, true, true⟩, ⟨1, true, true⟩, ⟨2, false, false⟩]) &&
        caughtUpCheck s s.engine.phase) = true := by
    decide +kernel
  obtain ⟨s, hreach, hshape⟩ := exists_reaches (fun _ _ h => h) hrun
  have hkept := caught_up_lane_kept crc32c fullBudgets rfl 0 2 (fun _ => .lane)
      (fun _ => .lane) none hreach
  rw [Bool.and_eq_true, decide_eq_true_eq] at hshape
  obtain ⟨hverdicts, hphase⟩ := hshape
  refine ⟨s, hreach, hverdicts, hkept.1, ?_⟩
  unfold caughtUpCheck at hphase
  split at hphase
  · rename_i appends zones hreserve
    exact ⟨appends, zones, hreserve, hkept.2 appends zones hreserve (of_decide_eq_true hphase)⟩
  · cases hphase

/-- Record 0 completes and gives its permits back, but every lane still holds the whole batch of
records 0 and 1 in its budget: the three lanes, all of which keep up, are shed together, and the
append fails. -/
theorem caught_up_lane_shed :
    fullBudgets.validate = .ok () ∧ ∃ s : BudgetedEngine 3,
      Reaches (BudgetedEngine.step crc32c fullBudgets) (fun _ _ => True)
        (BudgetedEngine.init fullBudgets 0 2 (fun _ => .lane) (fun _ => .lane) none) s ∧
      s.verdicts = [⟨0, true, false⟩, ⟨1, true, false⟩, ⟨2, true, false⟩] ∧
      s.engine.active.isPoisoned = true ∧
      (2, .error (.protocol .noQuorum)) ∈ s.engine.completions := by
  refine ⟨rfl, ?_⟩
  have hrun : (runChecked (BudgetedEngine.step crc32c fullBudgets) (fun _ _ => true)
      (BudgetedEngine.init fullBudgets 0 2 (fun _ => .lane) (fun _ => .lane) none)
      (roomRun [0, 1, 2] 5 [.complete, .complete] [.complete]
        [false, false, false, true])).any (fun s =>
        decide (s.verdicts = [⟨0, true, false⟩, ⟨1, true, false⟩, ⟨2, true, false⟩]) &&
        s.engine.active.isPoisoned &&
        decide ((2, .error (.protocol .noQuorum)) ∈ s.engine.completions)) = true := by
    decide +kernel
  obtain ⟨s, hreach, hshape⟩ := exists_reaches (fun _ _ _ => trivial) hrun
  rw [Bool.and_eq_true, Bool.and_eq_true, decide_eq_true_eq, decide_eq_true_eq] at hshape
  obtain ⟨⟨hverdicts, hpoisoned⟩, hfailed⟩ := hshape
  exact ⟨s, hreach, hverdicts, hpoisoned, hfailed⟩

end BudgetedEngine

end Chorus
