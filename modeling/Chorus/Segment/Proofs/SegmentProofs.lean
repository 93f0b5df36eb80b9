import Chorus.Segment.Proofs.CommitTrackerProofs
import Chorus.Segment.Proofs.RecoveryProofs
import Chorus.Segment.System

/-!
# One segment never loses or invents a record

`SegmentInv` holds along every run of the writer, its lanes and any number of recoveries: every copy
is a cut of the record stream, every offset a lane has published is durable in its zone, and what a
recovery has returned stays justified. With `Justified.holds` this gives the agreement of the commit
watermark and every recovery.
-/

namespace Chorus

open Concurrency Quorum RecordFrame Relation

variable {n : Nat} {crc : Bytes → Nat} {lane : Option Nat}

/-- A recovery step keeps every object, and the bytes of a new object are empty. -/
theorem FenceStep.bytes_eq {slot slot' : Slot} (hstep : FenceStep lane slot slot') :
    (∀ c, slot.copy = some c → ∃ c', slot'.copy = some c' ∧ c'.bytes = c.bytes) ∧
      ∀ c', slot'.copy = some c' → c'.bytes = [] ∨ ∃ c, slot.copy = some c ∧
        c'.bytes = c.bytes := by
  cases hstep with
  | create metadata habsent =>
    constructor
    · intro c hc
      rw [habsent] at hc
      cases hc
    · intro c' hc'
      cases hc'
      exact Or.inl rfl
  | reopen =>
    constructor
    · intro c hc
      exact ⟨_, Option.map_eq_some_iff.2 ⟨c, hc, rfl⟩, rfl⟩
    · intro c' hc'
      obtain ⟨c, hc, rfl⟩ := Option.map_eq_some_iff.1 hc'
      exact Or.inr ⟨c, hc, rfl⟩
  | freeze =>
    constructor
    · intro c hc
      exact ⟨_, Option.map_eq_some_iff.2 ⟨c, hc, rfl⟩, c.freeze_bytes⟩
    · intro c' hc'
      obtain ⟨c, hc, rfl⟩ := Option.map_eq_some_iff.1 hc'
      exact Or.inr ⟨c, hc, c.freeze_bytes⟩

/-- What one zone keeps for the writer: its copy is a cut of the stream, and an offset that its lane
has published is durable. -/
structure ZoneInv (stream : List RecordFrame) (lane : Option Nat) (durable : Nat) (slot : Slot) :
    Prop where
  laneOk : LaneOk lane slot
  cut : ∀ c, slot.copy = some c → c.bytes <+: streamBytes stream
  durable : 0 < durable → ∃ c, slot.copy = some c ∧ durable ≤ c.bytes.length

namespace ZoneInv

variable {stream : List RecordFrame} {durable : Nat} {slot slot' : Slot}

theorem fence (h : ZoneInv stream lane durable slot) (hstep : FenceStep lane slot slot') :
    ZoneInv stream lane durable slot' where
  laneOk := stable_laneOk _ _ (.fence hstep) h.laneOk
  cut := by
    intro c' hc'
    rcases hstep.bytes_eq.2 c' hc' with hnil | ⟨c, hc, heq⟩
    · rw [hnil]
      exact List.nil_prefix
    · rw [heq]
      exact h.cut c hc
  durable := by
    intro hpos
    obtain ⟨c, hc, hle⟩ := h.durable hpos
    obtain ⟨c', hc', heq⟩ := hstep.bytes_eq.1 c hc
    exact ⟨c', hc', heq ▸ hle⟩

theorem append {c : Copy} (h : ZoneInv stream lane durable slot) (hc : slot.copy = some c)
    {bytes : Bytes} (hgrow : c.bytes <+: bytes) (hcut : bytes <+: streamBytes stream) :
    ZoneInv stream lane durable (slot.append bytes) where
  laneOk := by
    intro session hlane
    obtain ⟨hsome, hlt⟩ := h.laneOk session hlane
    exact ⟨by simpa [Slot.append] using hsome, hlt⟩
  cut := by
    intro c' hc'
    obtain ⟨c₀, -, rfl⟩ := Option.map_eq_some_iff.1 hc'
    exact hcut
  durable := by
    intro hpos
    obtain ⟨c₀, hc₀, hle⟩ := h.durable hpos
    rw [hc] at hc₀
    cases hc₀
    exact ⟨_, Option.map_eq_some_iff.2 ⟨c, hc, rfl⟩, hle.trans hgrow.length_le⟩

theorem dispatch (h : ZoneInv stream lane durable slot) (records : List RecordFrame) :
    ZoneInv (stream ++ records) lane durable slot where
  laneOk := h.laneOk
  cut c hc := (h.cut c hc).trans (streamBytes_mono (List.prefix_append stream records))
  durable := h.durable

theorem publish (h : ZoneInv stream lane durable slot) {durable' : Nat}
    (hle : durable' ≤ durable ∨ ∃ c, slot.copy = some c ∧ durable' ≤ c.bytes.length) :
    ZoneInv stream lane durable' slot where
  laneOk := h.laneOk
  cut := h.cut
  durable := by
    intro hpos
    rcases hle with hle | hle
    · obtain ⟨c, hc, hc'⟩ := h.durable (hpos.trans_le hle)
      exact ⟨c, hc, hle.trans hc'⟩
    · exact hle

end ZoneInv

/-- What a running recovery is going to return. -/
def RecoveryOk (crc : Bytes → Nat) (lanes : Fin n → Option Nat)
    (prog : ReplicaProg n (Except ProtocolError RecoveryCandidate)) (slots : Fin n → Slot) : Prop :=
  wp (replicaMachine n crc) prog (SlotsStep lanes) (FenceSteps lanes)
    (fun r w => ∀ c, r = .ok c → Recovered crc lanes none c w) slots

structure SegmentInv (crc : Bytes → Nat) (s : SegmentSystem n) : Prop where
  fits : ∀ r ∈ s.stream, r.Fits
  zone : ∀ z, ZoneInv s.stream (s.lanes z) (s.commits.lanes z).durable (s.slots z)
  commits : s.commits.Inv s.stream
  running : ∀ prog ∈ s.recoveries, RecoveryOk crc s.lanes prog s.slots
  recovered : ∀ c ∈ s.recovered, Recovered crc s.lanes none c s.slots

namespace SegmentInv

open SegmentSystem

variable {s : SegmentSystem n}

theorem of_init (crc : Bytes → Nat) (start : Fin n → ZoneStart) : SegmentInv crc (init start) where
  fits := nofun
  zone z := by
    refine ⟨fun session hlane => ?_, fun c hc => ?_, fun hpos => absurd hpos (Nat.lt_irrefl 0)⟩
    · show ((start z).slot.copy.isSome = true) ∧ session < (start z).slot.nextId
      change (start z).session = some session at hlane
      cases hz : start z with
      | lane =>
        rw [hz] at hlane
        cases hlane
        exact ⟨rfl, Nat.lt_succ_self _⟩
      | unanswered => rw [hz] at hlane; cases hlane
      | absent => rw [hz] at hlane; cases hlane
    · change (start z).slot.copy = some c at hc
      have hnil : c.bytes = [] := by
        cases hz : start z with
        | absent => rw [hz] at hc; cases hc
        | lane => rw [hz] at hc; cases hc; rfl
        | unanswered => rw [hz] at hc; cases hc; rfl
      rw [hnil]
      exact List.nil_prefix
  commits := (CommitTracker.inv_new []).of_lanes rfl rfl rfl fun _ => Nat.zero_le _
  running := nofun
  recovered := nofun

/-- Storage moves by a step of the environment that keeps every zone. -/
theorem move (h : SegmentInv crc s) {slots : Fin n → Slot} (hstep : SlotsStep s.lanes s.slots slots)
    (hzone : ∀ z, ZoneInv s.stream (s.lanes z) (s.commits.lanes z).durable (slots z)) :
    SegmentInv crc { s with slots := slots } where
  fits := h.fits
  zone := hzone
  commits := h.commits
  running prog hprog := wp_rely (h.running prog hprog) (.single hstep)
  recovered c hc := (h.recovered c hc).of_rely (.single hstep)

theorem moveZone (h : SegmentInv crc s) {z : Fin n} {slot : Slot}
    (hstep : SlotStep (s.lanes z) (s.slots z) slot)
    (hzone : ZoneInv s.stream (s.lanes z) (s.commits.lanes z).durable slot) :
    SegmentInv crc { s with slots := Function.update s.slots z slot } := by
  refine h.move (fun z' => ?_) (fun z' => ?_)
  · by_cases hz : z' = z
    · subst hz
      rw [Function.update_self]
      exact Or.inr hstep
    · rw [Function.update_of_ne hz]
      exact Or.inl rfl
  · by_cases hz : z' = z
    · subst hz
      rw [Function.update_self]
      exact hzone
    · rw [Function.update_of_ne hz]
      exact h.zone z'

/-- The tracker moves on; what its lanes have published stays durable. -/
theorem track (h : SegmentInv crc s) {commits : CommitTracker n} (hinv : commits.Inv s.stream)
    (hlanes : ∀ z, (commits.lanes z).durable ≤ (s.commits.lanes z).durable ∨
      ∃ c, (s.slots z).copy = some c ∧ (commits.lanes z).durable ≤ c.bytes.length) :
    SegmentInv crc { s with commits := commits } where
  fits := h.fits
  zone z := (h.zone z).publish (hlanes z)
  commits := hinv
  running := h.running
  recovered := h.recovered

theorem dispatch (h : SegmentInv crc s) {records : List RecordFrame}
    (hfits : ∀ r ∈ records, r.Fits) : SegmentInv crc { s with stream := s.stream ++ records } where
  fits r hr := (List.mem_append.1 hr).elim (h.fits r) (hfits r)
  zone z := (h.zone z).dispatch records
  commits := h.commits.append records
  running := h.running
  recovered := h.recovered

/-- The set of recoveries changes, with storage as it is. -/
theorem schedule (h : SegmentInv crc s)
    {recoveries : List (ReplicaProg n (Except ProtocolError RecoveryCandidate))}
    (hprogs : ∀ prog ∈ recoveries, RecoveryOk crc s.lanes prog s.slots) :
    SegmentInv crc { s with recoveries := recoveries } where
  fits := h.fits
  zone := h.zone
  commits := h.commits
  running := hprogs
  recovered := h.recovered

theorem dropRecovery (h : SegmentInv crc s) (i : Nat) :
    SegmentInv crc { s with recoveries := s.recoveries.eraseIdx i } :=
  h.schedule fun prog hprog => h.running prog (List.mem_of_mem_eraseIdx hprog)

/-- One recovery takes a step; for the others it is a step of the environment. -/
theorem stepRecovery (h : SegmentInv crc s) {i : Nat} {choice : Choice ReplicaOutcome n}
    {prog prog' : ReplicaProg n (Except ProtocolError RecoveryCandidate)} {slots : Fin n → Slot}
    (hi : s.recoveries[i]? = some prog)
    (hrun : (replicaMachine n crc).step prog s.slots choice = some (slots, prog')) :
    SegmentInv crc { s with slots := slots, recoveries := s.recoveries.set i prog' } := by
  obtain ⟨hg, hprog'⟩ := wp_step (h.running prog (List.mem_of_getElem? hi)) hrun
  have hfence : FenceSteps s.lanes s.slots slots := by
    cases hg with
    | refl => exact fun _ => Or.inl rfl
    | single hg => exact hg
  have hmoved : SegmentInv crc { s with slots := slots } := by
    refine h.move hfence.slotsStep fun z => ?_
    rcases hfence z with heq | hstep
    · rw [heq]
      exact h.zone z
    · exact (h.zone z).fence hstep
  refine hmoved.schedule fun q hq => ?_
  rcases List.mem_or_eq_of_mem_set hq with hq | rfl
  · exact hmoved.running q hq
  · exact hprog'

theorem step (h : SegmentInv crc s) {action : Action n} {s' : SegmentSystem n}
    (hstep : s.step crc action = some s') : SegmentInv crc s' := by
  cases action with
  | dispatch records =>
    obtain ⟨hall, heq⟩ := Option.ite_none_right_eq_some.1 hstep
    cases heq
    refine h.dispatch fun r hr => ?_
    have hok := List.all_eq_true.1 hall r hr
    cases henc : r.encode with
    | ok bytes => exact (encode_eq_ok.1 henc).1
    | error e =>
      rw [henc] at hok
      cases hok
  | admitWindow zones =>
    obtain ⟨hlt, heq⟩ := Option.ite_none_right_eq_some.1 hstep
    cases heq
    refine h.track (h.commits.admitWindow zones hlt) fun z => Or.inl ?_
    rw [CommitTracker.durable_admitWindow]
  | persist z length =>
    simp only [SegmentSystem.step] at hstep
    cases hc : (s.slots z).copy with
    | none => simp [hc] at hstep
    | some c =>
      rw [hc] at hstep
      obtain ⟨⟨hlive, hge, hle⟩, heq⟩ := Option.ite_none_right_eq_some.1 hstep
      cases heq
      rw [laneIsLive, hc] at hlive
      simp only [Option.any_some, Bool.and_eq_true, Bool.not_eq_true', beq_iff_eq] at hlive
      have hgrow : c.bytes <+: (streamBytes s.stream).take length := by
        rw [List.prefix_take_iff]
        exact ⟨(h.zone z).cut c hc, hge⟩
      exact h.moveZone (.append c _ hc hlive.1 hlive.2 hgrow)
        ((h.zone z).append hc hgrow (List.take_prefix _ _))
  | publishDurable z durable =>
    obtain ⟨⟨-, hany⟩, heq⟩ := Option.ite_none_right_eq_some.1 hstep
    cases heq
    obtain ⟨c, hc, hle⟩ := (Option.any_eq_true _ _).1 hany
    have hle : durable ≤ c.bytes.length := of_decide_eq_true hle
    refine h.track (h.commits.publishDurable z durable) fun z' => ?_
    rw [CommitTracker.durable_publishDurable]
    by_cases hz : z' = z
    · subst hz
      rw [if_pos rfl]
      rcases Nat.le_total durable (s.commits.lanes z').durable with hold | hnew
      · rw [Nat.max_eq_left hold]
        exact Or.inl (Nat.le_refl _)
      · rw [Nat.max_eq_right hnew]
        exact Or.inr ⟨c, hc, hle⟩
    · rw [if_neg hz]
      exact Or.inl (Nat.le_refl _)
  | finishLane z error =>
    cases hstep
    refine h.track (h.commits.finishLane z error) fun z' => Or.inl ?_
    rw [CommitTracker.durable_finishLane]
  | poison =>
    cases hstep
    refine h.track h.commits.poison fun z' => Or.inl ?_
    rw [CommitTracker.durable_poison]
  | finalizeLane z =>
    obtain ⟨-, heq⟩ := Option.ite_none_right_eq_some.1 hstep
    cases heq
    exact h.moveZone (.fence .freeze) ((h.zone z).fence .freeze)
  | recover config =>
    cases hstep
    refine h.schedule fun prog hprog => ?_
    rcases List.mem_append.1 hprog with hprog | hprog
    · exact h.running prog hprog
    · rw [List.mem_singleton.1 hprog]
      exact wp_recoverCandidate config none fun z => (h.zone z).laneOk
  | step i choice =>
    simp only [SegmentSystem.step] at hstep
    cases hi : s.recoveries[i]? with
    | none => simp [hi] at hstep
    | some prog =>
      rw [hi] at hstep
      obtain ⟨⟨slots, prog'⟩, hrun, rfl⟩ := Option.map_eq_some_iff.1 hstep
      exact h.stepRecovery hi hrun
  | finish i =>
    simp only [SegmentSystem.step] at hstep
    split at hstep
    · rename_i candidate hi
      cases hstep
      have hok : RecoveryOk crc s.lanes (.ret (.ok candidate)) s.slots :=
        h.running _ (List.mem_of_getElem? hi)
      have hdone := h.dropRecovery i
      refine ⟨hdone.fits, hdone.zone, hdone.commits, hdone.running, fun c hc => ?_⟩
      rcases List.mem_cons.1 hc with rfl | hc
      · exact wp_value hok rfl _ rfl
      · exact h.recovered c hc
    · cases hstep
      exact h.dropRecovery i
    · cases hstep
  | interrupt i =>
    cases hstep
    exact h.dropRecovery i

/-- A recovered candidate holds a prefix of the stream with every acknowledged record. -/
theorem holds (h : SegmentInv crc s) {candidate : RecoveryCandidate}
    (hc : candidate ∈ s.recovered) :
    ∃ count, candidate.Holds s.stream count ∧ s.commits.committed ≤ count := by
  obtain ⟨held, hsettled, hmajority, hjust⟩ := h.recovered candidate hc
  have hcuts : ∀ z bytes, held z = some bytes → bytes <+: streamBytes s.stream := by
    intro z bytes hz
    cases hcopy : (s.slots z).copy with
    | none =>
      rw [(hsettled.settled z bytes hz).absent hcopy]
      exact List.nil_prefix
    | some c =>
      rw [← ((hsettled.settled z bytes hz).present c hcopy).1]
      exact (h.zone z).cut c hcopy
  obtain ⟨count, hholds, hall⟩ := hjust.holds h.fits hcuts hmajority
  refine ⟨count, hholds, ?_⟩
  by_cases hpos : 0 < s.commits.committed
  · have hle := h.commits.committed_le.trans h.commits.admitted_le
    refine hall _ hle _ (h.commits.durable hpos) fun z hz bytes hbytes => ?_
    have hlen := length_streamBytes_take_lt hpos hle
    rw [mem_durableLanes] at hz
    -- the lane has published at least that much, so its zone has a copy of that length
    obtain ⟨c, hcopy, hdurable⟩ := (h.zone z).durable (by omega)
    rw [← ((hsettled.settled z bytes hbytes).present c hcopy).1]
    exact hz.trans hdurable
  · omega

end SegmentInv

/-- A candidate that holds the first records of the stream decodes to them. -/
theorem RecoveryCandidate.Holds.records_eq {stream : List RecordFrame} {count : Nat}
    {candidate : RecoveryCandidate} (hfits : ∀ r ∈ stream, r.Fits)
    (h : candidate.Holds stream count) : candidate.records = .ok (stream.take count) := by
  cases candidate with
  | absent =>
    cases h
    rfl
  | empty tokens =>
    cases h
    rfl
  | nonEmpty tail =>
    obtain ⟨-, -, hcanonical⟩ := h
    show decodeAll tail.canonical.bytes = _
    rw [hcanonical]
    exact decodeAll_streamBytes fun r hr => hfits r (List.mem_of_mem_take hr)

/-- What later states keep: the stream only grows, the watermark never falls and nothing that was
returned is taken back. -/
structure SegmentSystem.Grows (s s' : SegmentSystem n) : Prop where
  stream : s.stream <+: s'.stream
  committed : s.commits.committed ≤ s'.commits.committed
  recovered : s.recovered ⊆ s'.recovered

namespace SegmentSystem.Grows

variable {s s' s'' : SegmentSystem n}

theorem of_eq (hstream : s'.stream = s.stream) (hcommits : s'.commits = s.commits)
    (hrecovered : s'.recovered = s.recovered) : s.Grows s' :=
  ⟨hstream ▸ List.prefix_rfl, hcommits ▸ Nat.le_refl _, hrecovered ▸ fun _ => id⟩

theorem trans (h : s.Grows s') (h' : s'.Grows s'') : s.Grows s'' :=
  ⟨h.stream.trans h'.stream, h.committed.trans h'.committed, fun _ hc => h'.recovered
    (h.recovered hc)⟩

theorem of_step {action : SegmentSystem.Action n} (hstep : s.step crc action = some s') :
    s.Grows s' := by
  cases action with
  | dispatch records =>
    obtain ⟨-, heq⟩ := Option.ite_none_right_eq_some.1 hstep
    cases heq
    exact ⟨List.prefix_append _ _, Nat.le_refl _, fun _ => id⟩
  | admitWindow zones =>
    obtain ⟨-, heq⟩ := Option.ite_none_right_eq_some.1 hstep
    cases heq
    exact ⟨List.prefix_rfl, CommitTracker.committed_le_admitWindow .., fun _ => id⟩
  | persist z length =>
    simp only [SegmentSystem.step] at hstep
    split at hstep
    · cases hstep
    · obtain ⟨-, heq⟩ := Option.ite_none_right_eq_some.1 hstep
      cases heq
      exact of_eq rfl rfl rfl
  | publishDurable z durable =>
    obtain ⟨-, heq⟩ := Option.ite_none_right_eq_some.1 hstep
    cases heq
    exact ⟨List.prefix_rfl, CommitTracker.committed_le_publishDurable .., fun _ => id⟩
  | finishLane z error =>
    cases hstep
    exact ⟨List.prefix_rfl, CommitTracker.committed_le_finishLane .., fun _ => id⟩
  | poison =>
    cases hstep
    exact ⟨List.prefix_rfl, (CommitTracker.committed_poison _).ge, fun _ => id⟩
  | finalizeLane z =>
    obtain ⟨-, heq⟩ := Option.ite_none_right_eq_some.1 hstep
    cases heq
    exact of_eq rfl rfl rfl
  | recover config =>
    cases hstep
    exact of_eq rfl rfl rfl
  | step i choice =>
    simp only [SegmentSystem.step] at hstep
    split at hstep
    · cases hstep
    · obtain ⟨_, -, rfl⟩ := Option.map_eq_some_iff.1 hstep
      exact of_eq rfl rfl rfl
  | finish i =>
    simp only [SegmentSystem.step] at hstep
    split at hstep
    · cases hstep
      exact ⟨List.prefix_rfl, Nat.le_refl _, fun _ => List.mem_cons_of_mem _⟩
    · cases hstep
      exact of_eq rfl rfl rfl
    · cases hstep
  | interrupt i =>
    cases hstep
    exact of_eq rfl rfl rfl

end SegmentSystem.Grows

theorem SegmentSystem.grows_of_reaches {s s' : SegmentSystem n}
    (h : Reaches (SegmentSystem.step crc) (fun _ _ => True) s s') : s.Grows s' := by
  induction h with
  | refl => exact .of_eq rfl rfl rfl
  | tail _ _ hstep ih => exact ih.trans (.of_step hstep)

/-- Recovery of one segment never loses or invents a record: whatever a recovery has returned
decodes to a prefix of the record stream, and that prefix contains what the writer has acknowledged
in any earlier or later state of the run. -/
theorem segment_recovery (crc : Bytes → Nat) (start : Fin n → ZoneStart) {s : SegmentSystem n}
    (hrun : Reaches (SegmentSystem.step crc) (fun _ _ => True) (SegmentSystem.init start) s)
    {candidate : RecoveryCandidate} (hc : candidate ∈ s.recovered) :
    ∃ records, candidate.records = .ok records ∧ records <+: s.stream ∧
      ∀ s', (Reaches (SegmentSystem.step crc) (fun _ _ => True) (SegmentSystem.init start) s' ∧
          Reaches (SegmentSystem.step crc) (fun _ _ => True) s' s) ∨
        Reaches (SegmentSystem.step crc) (fun _ _ => True) s s' →
          s'.stream.take s'.commits.committed <+: records := by
  have hinv : ∀ s, Reaches (SegmentSystem.step crc) (fun _ _ => True) (SegmentSystem.init start) s →
      SegmentInv crc s :=
    fun s h => h.invariant (.of_init crc start) fun _ _ _ h _ hstep => h.step hstep
  obtain ⟨count, hholds, hcommitted⟩ := (hinv s hrun).holds hc
  refine ⟨s.stream.take count, hholds.records_eq (hinv s hrun).fits, List.take_prefix _ _, ?_⟩
  rintro s' (⟨hbefore, hrest⟩ | hafter)
  · have hgrows := SegmentSystem.grows_of_reaches hrest
    have hle : s'.commits.committed ≤ s'.stream.length :=
      ((hinv s' hbefore).commits.committed_le).trans (hinv s' hbefore).commits.admitted_le
    obtain ⟨rest, hrest⟩ := hgrows.stream
    rw [← List.take_append_of_le_length hle, hrest]
    exact List.take_prefix_take_left (hgrows.committed.trans hcommitted)
  · -- the candidate is still among the returned ones, so the invariant of the later state applies
    have hgrows := SegmentSystem.grows_of_reaches hafter
    have hinv' := hinv s' (hrun.trans hafter)
    obtain ⟨count', hholds', hcommitted'⟩ := hinv'.holds (hgrows.recovered hc)
    have heq : s.stream.take count = s'.stream.take count' := by
      have h := hholds.records_eq (hinv s hrun).fits
      rw [hholds'.records_eq hinv'.fits] at h
      exact (Except.ok.inj h).symm
    rw [heq]
    exact List.take_prefix_take_left hcommitted'

/-- Two of three zones have a lane. -/
def tornStart (zone : Fin 3) : ZoneStart := if zone = 2 then .absent else .lane

/-- The second lane holds one record and a part of the next. After both zones are frozen, the read
of the longer copy fails. -/
def tornRun : List (SegmentSystem.Action 3) :=
  [.dispatch [⟨[1]⟩, ⟨[2, 3]⟩], .persist 0 11, .persist 1 9, .admitWindow [0, 1],
    .publishDurable 0 11, .publishDurable 1 9,
   .recover ⟨0⟩,
    .step 0 (.task 0 (.op .answered)), .step 0 (.task 0 (.op .answered)),
    .step 0 (.task 1 (.op .answered)), .step 0 (.task 1 (.op .answered)),
    .step 0 (.task 2 (.op .answered)), .step 0 .gather,
    .step 0 (.task 0 (.op .answered)), .step 0 (.task 1 (.op .answered)), .step 0 .gather,
    .step 0 (.task 0 (.op (.failed .unavailable false))), .step 0 (.task 1 (.op .answered)),
    .step 0 .gather,
   .finish 0]

/-- The recovery of that run returns the one acknowledged record. -/
theorem segment_recovery_torn : ∃ s candidate,
    Reaches (SegmentSystem.step crc32c) (fun _ _ => True) (SegmentSystem.init tornStart) s ∧
      candidate ∈ s.recovered ∧ s.commits.committed = 1 ∧ s.stream.length = 2 ∧
      ∃ records, candidate.records = .ok records ∧ records <+: s.stream ∧
        s.stream.take s.commits.committed <+: records := by
  have hrun : (runChecked (SegmentSystem.step crc32c) (fun _ _ => true)
      (SegmentSystem.init tornStart)
      tornRun).any (fun s => decide (s.commits.committed = 1) && decide (s.stream.length = 2) &&
        decide (0 < s.recovered.length)) = true := by
    decide +kernel
  obtain ⟨s, hreach, hfacts⟩ := exists_reaches (fun _ _ _ => trivial) hrun
  simp only [Bool.and_eq_true, decide_eq_true_eq] at hfacts
  obtain ⟨⟨hcommitted, hstream⟩, hrecovered⟩ := hfacts
  obtain ⟨candidate, hc⟩ := List.exists_mem_of_length_pos hrecovered
  obtain ⟨records, hrecords, hprefix, hacked⟩ := segment_recovery crc32c tornStart hreach hc
  exact ⟨s, candidate, hreach, hc, hcommitted, hstream, records, hrecords, hprefix,
    hacked s (Or.inr .refl)⟩

end Chorus
