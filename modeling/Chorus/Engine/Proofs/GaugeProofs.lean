import Chorus.Engine.Proofs.EngineProofs
import Chorus.Engine.Proofs.HandleProofs

/-!
# Proofs: what a segment is given

Admission checks a record in engine-lifetime byte coordinates against the boundary at which the
active segment began. The appends on their way form a chain of byte boundaries, each checked against
a boundary at or below that of the segment it reaches, so what a segment is given stays below the
ceiling wherever the swaps fall.
-/

namespace Chorus

open RecordFrame

variable {n : Nat} {crc : Bytes → Nat} {config : WalEngineConfig}

/-! ## Chains of admission boundaries -/

/-- The appends follow each other without a gap between two boundaries. -/
def Chained : Nat → List AdmittedAppend → Nat → Prop
  | first, [], last => first = last
  | first, append :: appends, last =>
    append.admissionEndBytes = first + append.encodedBytes ∧
    Chained append.admissionEndBytes appends last

theorem Chained.append {first middle last : Nat} {appends later : List AdmittedAppend}
    (h : Chained first appends middle) (hlater : Chained middle later last) :
    Chained first (appends ++ later) last := by
  induction appends generalizing first with
  | nil =>
    cases h
    exact hlater
  | cons append appends ih => exact ⟨h.1, ih h.2⟩

theorem Chained.split {first last : Nat} {appends later : List AdmittedAppend}
    (h : Chained first (appends ++ later) last) :
    ∃ middle, Chained first appends middle ∧ Chained middle later last := by
  induction appends generalizing first with
  | nil => exact ⟨first, rfl, h⟩
  | cons append appends ih =>
    obtain ⟨middle, hfront, hback⟩ := ih h.2
    exact ⟨middle, ⟨h.1, hfront⟩, hback⟩

/-- A chain covers exactly the bytes of its appends. -/
theorem Chained.eq_add {first last : Nat} {appends : List AdmittedAppend}
    (h : Chained first appends last) :
    last = first + (appends.map AdmittedAppend.encodedBytes).sum := by
  induction appends generalizing first with
  | nil => exact h.symm
  | cons append appends ih =>
    rw [ih h.2, h.1, List.map_cons, List.sum_cons]
    omega

theorem Chained.getLast {first last : Nat} {appends : List AdmittedAppend}
    (h : Chained first appends last) :
    (appends.getLast?.map AdmittedAppend.admissionEndBytes).getD first = last := by
  induction appends generalizing first with
  | nil => exact h
  | cons append appends ih =>
    have hlast := ih h.2
    cases appends with
    | nil => exact hlast
    | cons next appends => exact hlast

theorem Chained.bounds {first last : Nat} {appends : List AdmittedAppend}
    (h : Chained first appends last) :
    first ≤ last ∧ ∀ append ∈ appends, first ≤ append.admissionEndBytes := by
  induction appends generalizing first with
  | nil => exact ⟨h.le, fun _ hmem => absurd hmem List.not_mem_nil⟩
  | cons append appends ih =>
    obtain ⟨hle, hall⟩ := ih h.2
    have hstep : first ≤ append.admissionEndBytes := h.1 ▸ Nat.le_add_right _ _
    refine ⟨hstep.trans hle, fun a ha => ?_⟩
    rcases List.mem_cons.1 ha with rfl | hmem
    · exact hstep
    · exact hstep.trans (hall a hmem)

/-! ## Segments -/

def SegmentWriter.written (writer : SegmentWriter n) : Nat :=
  (streamBytes writer.segment.stream).length

theorem length_streamBytes_records (appends : List AdmittedAppend) :
    (streamBytes (appends.map AdmittedAppend.record)).length =
      (appends.map AdmittedAppend.encodedBytes).sum := by
  induction appends with
  | nil => rfl
  | cons append appends ih =>
    rw [List.map_cons, streamBytes_cons, List.length_append, ih, List.map_cons, List.sum_cons]
    rfl

structure SegmentWriter.Fresh (writer : SegmentWriter n) : Prop where
  stream : writer.segment.stream = []
  boundaries : writer.segment.commits.boundaries = []
  committedBytes : writer.segment.commits.committedBytes = 0

theorem SegmentWriter.Fresh.written {writer : SegmentWriter n} (h : writer.Fresh) :
    writer.written = 0 := by
  rw [SegmentWriter.written, h.stream]
  rfl

/-- A segment moves on without a new record. -/
structure SegmentWriter.Idles (writer writer' : SegmentWriter n) : Prop where
  stream : writer'.segment.stream = writer.segment.stream
  fresh : writer.Fresh → writer'.Fresh

theorem SegmentWriter.Idles.refl (writer : SegmentWriter n) : writer.Idles writer := ⟨rfl, id⟩

theorem SegmentWriter.fresh_create (start : Fin n → ZoneStart) :
    (SegmentWriter.create start).Fresh :=
  ⟨rfl, rfl, rfl⟩

namespace CommitTracker

variable {t : CommitTracker n}

theorem recompute_of_nil (h : t.boundaries = []) :
    t.recompute.boundaries = [] ∧ t.recompute.committedBytes = t.committedBytes := by
  unfold recompute
  split_ifs
  · exact ⟨h, rfl⟩
  · have hresolve : t.resolve.boundaries = [] ∧ t.resolve.committedBytes = t.committedBytes := by
      simp [resolve, h]
    unfold checkPossible
    split
    · exact hresolve
    · next oldest rest hcons =>
      rw [hresolve.1] at hcons
      cases hcons

theorem publishDurable_of_nil (h : t.boundaries = []) (zone : Fin n) (durable : Nat) :
    (t.publishDurable zone durable).boundaries = [] ∧
      (t.publishDurable zone durable).committedBytes = t.committedBytes := by
  unfold publishDurable
  split_ifs
  · exact ⟨h, rfl⟩
  · exact recompute_of_nil h

theorem finishLane_of_nil (h : t.boundaries = []) (zone : Fin n) (error : Option TransportError) :
    (t.finishLane zone error).boundaries = [] ∧
      (t.finishLane zone error).committedBytes = t.committedBytes := by
  unfold finishLane
  simp only
  split
  · split_ifs <;> exact ⟨h, rfl⟩
  · exact recompute_of_nil h

end CommitTracker

theorem SegmentWriter.Idles.of_external {writer : SegmentWriter n} {action : SegmentSystem.Action n}
    {segment : SegmentSystem n} (hexternal : Engine.external action = true)
    (hstep : writer.segment.step crc action = some segment) :
    writer.Idles { writer with segment := segment } := by
  obtain ⟨hstream, hcommits⟩ := SegmentSystem.external_cases hexternal hstep
  refine ⟨hstream, fun hfresh => ?_⟩
  rcases hcommits with h | ⟨z, durable, h⟩ | ⟨z, error, h⟩
  · exact ⟨hstream.trans hfresh.stream, h ▸ hfresh.boundaries, h ▸ hfresh.committedBytes⟩
  · obtain ⟨hboundaries, hbytes⟩ := CommitTracker.publishDurable_of_nil hfresh.boundaries z durable
    exact ⟨hstream.trans hfresh.stream, h ▸ hboundaries, h ▸ hbytes.trans hfresh.committedBytes⟩
  · obtain ⟨hboundaries, hbytes⟩ := CommitTracker.finishLane_of_nil hfresh.boundaries z error
    exact ⟨hstream.trans hfresh.stream, h ▸ hboundaries, h ▸ hbytes.trans hfresh.committedBytes⟩

theorem SegmentWriter.idles_dropLane (writer : SegmentWriter n) (zone : Fin n) :
    writer.Idles (writer.dropLane zone) := by
  refine ⟨rfl, fun hfresh => ?_⟩
  obtain ⟨hboundaries, hbytes⟩ := CommitTracker.finishLane_of_nil hfresh.boundaries zone none
  exact ⟨hfresh.stream, hboundaries, hbytes.trans hfresh.committedBytes⟩

theorem SegmentWriter.idles_poison (writer : SegmentWriter n) : writer.Idles writer.poison := by
  refine ⟨rfl, fun hfresh => ⟨hfresh.stream, ?_, ?_⟩⟩
  · show writer.segment.commits.poison.boundaries = []
    unfold CommitTracker.poison
    split_ifs <;> exact hfresh.boundaries
  · show writer.segment.commits.poison.committedBytes = 0
    unfold CommitTracker.poison
    split_ifs <;> exact hfresh.committedBytes

/-! ## The gauge -/

/-- The part of the engine's state that decides how much a segment is given. -/
structure Gauge (n : Nat) where
  totalAdmittedBytes : Nat
  admission : Option AdmittedAppend
  channel : List Command
  channelOpen : Bool
  admissionStartBytes : Nat
  existingBytes : Nat
  queue : List Command
  lastDispatchedAdmissionBytes : Nat
  segments : Nat → SegmentWriter n
  segmentCount : Nat
  activeSegment : Nat
  spareSegment : Option Nat

def Engine.gauge (e : Engine n) : Gauge n where
  totalAdmittedBytes := e.totalAdmittedBytes
  admission := e.admission
  channel := e.channel
  channelOpen := e.channelOpen
  admissionStartBytes := e.capacity.admissionStartBytes
  existingBytes := e.capacity.existingBytes
  queue := e.queue
  lastDispatchedAdmissionBytes := e.lastDispatchedAdmissionBytes
  segments := e.segments
  segmentCount := e.segmentCount
  activeSegment := e.activeSegment
  spareSegment := e.spare.map PreparedSpare.segment

/-- What each segment held when the engine got it, and what it had been given by then. -/
structure Adopted where
  held : Nat → Nat
  written : Nat → Nat

/-- What the segments hold when the engine starts. Every segment that is provisioned later starts
empty. -/
def Engine.adopted (e : Engine n) : Adopted where
  held i := (e.segments i).physicalSize
  written i := (e.segments i).written

namespace Gauge

variable {ceiling : Nat} {adopted : Adopted} {g : Gauge n}
  {inHand : List AdmittedAppend} {sent : Bool}

/-- The appends that are not behind the last dispatched boundary. -/
def outstanding (g : Gauge n) (inHand : List AdmittedAppend) : List AdmittedAppend :=
  inHand ++ queuedAppends g.queue ++ queuedAppends g.channel

structure Bounded (ceiling : Nat) (adopted : Adopted) (g : Gauge n) : Prop where
  boundary : g.admissionStartBytes ≤ g.totalAdmittedBytes
  grown : ∀ i, adopted.written i ≤ (g.segments i).written
  below : ∀ i, (g.segments i).written = adopted.written i ∨
    adopted.held i + ((g.segments i).written - adopted.written i) ≤ ceiling

/-- What holds while the loop runs. The window in hand is `sent` once it has joined the stream. -/
structure Running (ceiling : Nat) (adopted : Adopted) (g : Gauge n) (inHand : List AdmittedAppend)
    (sent : Bool) : Prop extends Bounded ceiling adopted g where
  chain : Chained g.lastDispatchedAdmissionBytes (g.outstanding inHand) g.totalAdmittedBytes
  start_le : g.admissionStartBytes ≤ g.lastDispatchedAdmissionBytes
  fits : ∀ append ∈ g.outstanding inHand,
    g.existingBytes + (append.admissionEndBytes - g.admissionStartBytes) ≤ ceiling
  admission : ∀ append, g.admission = some append →
    append.admissionEndBytes = g.totalAdmittedBytes + append.encodedBytes ∧
      g.existingBytes + (append.admissionEndBytes - g.admissionStartBytes) ≤ ceiling
  active : (g.segments g.activeSegment).written + g.admissionStartBytes =
    adopted.written g.activeSegment + g.lastDispatchedAdmissionBytes +
      if sent then (inHand.map AdmittedAppend.encodedBytes).sum else 0
  existing : g.existingBytes = adopted.held g.activeSegment
  later : ∀ i, g.activeSegment < i → adopted.held i = 0 ∧ adopted.written i = 0 ∧
    (g.segments i).Fresh
  active_lt : g.activeSegment < g.segmentCount
  spare : ∀ i, g.spareSegment = some i → g.activeSegment < i ∧ i < g.segmentCount

structure Stopped (ceiling : Nat) (adopted : Adopted) (g : Gauge n) : Prop
    extends Bounded ceiling adopted g where
  closed : g.channelOpen = false

theorem Running.stop (h : g.Running ceiling adopted inHand sent) {g' : Gauge n}
    (htotal : g'.totalAdmittedBytes = g.totalAdmittedBytes)
    (hstart : g'.admissionStartBytes = g.admissionStartBytes) (hsegments : g'.segments = g.segments)
    (hclosed : g'.channelOpen = false) : g'.Stopped ceiling adopted := by
  refine ⟨⟨?_, ?_, ?_⟩, hclosed⟩
  · rw [htotal, hstart]
    exact h.boundary
  · rw [hsegments]
    exact h.grown
  · rw [hsegments]
    exact h.below

section Streams

variable {segments : Nat → SegmentWriter n}
  (hstream : ∀ k, (segments k).segment.stream = (g.segments k).segment.stream)

include hstream

theorem written_eq (k : Nat) : (segments k).written = (g.segments k).written := by
  unfold SegmentWriter.written
  rw [hstream k]

theorem Bounded.sameStreams (h : g.Bounded ceiling adopted) :
    Bounded ceiling adopted { g with segments := segments } where
  boundary := h.boundary
  grown i := written_eq hstream i ▸ h.grown i
  below i := by
    show (segments i).written = _ ∨ _
    rw [written_eq hstream i]
    exact h.below i

/-- The segments move on, but no record joins a stream. -/
theorem Running.sameStreams (h : g.Running ceiling adopted inHand sent)
    (hlater : ∀ k, g.activeSegment < k → (g.segments k).Fresh → (segments k).Fresh) :
    Running ceiling adopted { g with segments := segments } inHand sent where
  toBounded := h.toBounded.sameStreams hstream
  chain := h.chain
  start_le := h.start_le
  fits := h.fits
  admission := h.admission
  active := by
    show (segments g.activeSegment).written + _ = _
    rw [written_eq hstream]
    exact h.active
  existing := h.existing
  later i hi := by
    obtain ⟨hheld, hwritten, hfresh⟩ := h.later i hi
    exact ⟨hheld, hwritten, hlater i hi hfresh⟩
  active_lt := h.active_lt
  spare := h.spare

end Streams

theorem Running.idle (h : g.Running ceiling adopted inHand sent) {segments : Nat → SegmentWriter n}
    (hidle : ∀ k, (g.segments k).Idles (segments k)) :
    Running ceiling adopted { g with segments := segments } inHand sent :=
  h.sameStreams (fun k => (hidle k).stream) fun k _ => (hidle k).fresh

theorem Running.track (h : g.Running ceiling adopted inHand sent) (writer : SegmentWriter n)
    (hstream : writer.segment.stream = (g.segments g.activeSegment).segment.stream) :
    Running ceiling adopted { g with segments := Function.update g.segments g.activeSegment writer }
      inHand sent := by
  refine h.sameStreams (update_of_rel (R := fun w w' => w'.segment.stream = w.segment.stream)
    (fun _ => rfl) hstream) fun k hk hfresh => ?_
  rw [Function.update_of_ne (Nat.ne_of_gt hk)]
  exact hfresh

/-- Appends move between the channel, the queue and the hand, but keep their order. -/
theorem Running.reroute (h : g.Running ceiling adopted inHand false) {queue channel : List Command}
    {inHand' : List AdmittedAppend}
    (hout : inHand' ++ queuedAppends queue ++ queuedAppends channel =
      inHand ++ queuedAppends g.queue ++ queuedAppends g.channel) :
    Running ceiling adopted { g with queue := queue, channel := channel } inHand' false := by
  have hsame : ({ g with queue := queue, channel := channel } : Gauge n).outstanding inHand' =
      g.outstanding inHand := hout
  exact { h with
    chain := hsame ▸ h.chain
    fits := hsame ▸ h.fits }

theorem Running.setAdmission (h : g.Running ceiling adopted inHand sent)
    {pending : Option AdmittedAppend} (hpending : ∀ append, pending = some append →
      append.admissionEndBytes = g.totalAdmittedBytes + append.encodedBytes ∧
        g.existingBytes + (append.admissionEndBytes - g.admissionStartBytes) ≤ ceiling) :
    Running ceiling adopted { g with admission := pending } inHand sent :=
  { h with admission := hpending }

theorem Running.sendAppend (h : g.Running ceiling adopted inHand sent) {append : AdmittedAppend}
    (hadmission : g.admission = some append) :
    Running ceiling adopted { g with
      admission := none
      channel := g.channel ++ [.append append]
      totalAdmittedBytes := append.admissionEndBytes } inHand sent := by
  obtain ⟨hend, hfits⟩ := h.admission append hadmission
  have hout : ({ g with
      admission := none
      channel := g.channel ++ [.append append]
      totalAdmittedBytes := append.admissionEndBytes } : Gauge n).outstanding inHand =
      g.outstanding inHand ++ [append] := by
    unfold outstanding
    rw [queuedAppends_append, ← List.append_assoc]
    rfl
  refine { h with boundary := ?_, chain := ?_, fits := ?_, admission := fun _ hnone => ?_ }
  · show g.admissionStartBytes ≤ append.admissionEndBytes
    exact hend ▸ h.boundary.trans (Nat.le_add_right _ _)
  · rw [hout]
    exact h.chain.append ⟨hend, rfl⟩
  · rw [hout]
    intro a ha
    rcases List.mem_append.1 ha with hold | hnew
    · exact h.fits a hold
    · rw [List.mem_singleton.1 hnew]
      exact hfits
  · cases hnone

theorem Running.window_fits (h : g.Running ceiling adopted inHand sent) (hne : inHand ≠ []) :
    g.existingBytes +
      (g.lastDispatchedAdmissionBytes + (inHand.map AdmittedAppend.encodedBytes).sum -
      g.admissionStartBytes) ≤ ceiling := by
  have hchain := h.chain
  rw [outstanding, List.append_assoc] at hchain
  obtain ⟨middle, hwindow, -⟩ := hchain.split
  have hlast := hwindow.getLast
  rw [List.getLast?_eq_getLast_of_ne_nil hne, Option.map_some, Option.getD_some] at hlast
  have hmem : inHand.getLast hne ∈ g.outstanding inHand := by
    rw [outstanding, List.append_assoc]
    exact List.mem_append_left _ (List.getLast_mem hne)
  have hfits := h.fits _ hmem
  rw [hlast, hwindow.eq_add] at hfits
  exact hfits

theorem Running.join (h : g.Running ceiling adopted inHand false) {writer : SegmentWriter n}
    (hstream : writer.segment.stream =
      (g.segments g.activeSegment).segment.stream ++ inHand.map AdmittedAppend.record) :
    Running ceiling adopted { g with segments := Function.update g.segments g.activeSegment writer }
      inHand true := by
  have hwritten : writer.written = (g.segments g.activeSegment).written +
      (inHand.map AdmittedAppend.encodedBytes).sum := by
    unfold SegmentWriter.written
    rw [hstream, streamBytes_append, List.length_append, length_streamBytes_records]
  have hactive := h.active
  rw [if_neg Bool.false_ne_true, Nat.add_zero] at hactive
  have hself : Function.update g.segments g.activeSegment writer g.activeSegment = writer :=
    Function.update_self ..
  refine { h with
    grown := fun i => ?_, below := fun i => ?_, active := ?_, later := fun i hi => ?_ }
  · show adopted.written i ≤ (Function.update g.segments g.activeSegment writer i).written
    by_cases hi : i = g.activeSegment
    · subst hi
      rw [hself, hwritten]
      exact (h.grown _).trans (Nat.le_add_right _ _)
    · rw [Function.update_of_ne hi]
      exact h.grown i
  · show (Function.update g.segments g.activeSegment writer i).written = _ ∨
      _ + ((Function.update g.segments g.activeSegment writer i).written - _) ≤ _
    by_cases hi : i = g.activeSegment
    · subst hi
      rw [hself, hwritten]
      by_cases hne : inHand = []
      · rw [hne, List.map_nil, List.sum_nil, Nat.add_zero]
        exact h.below _
      · right
        have hfits := h.window_fits hne
        have hstart := h.start_le
        have hexisting := h.existing
        omega
    · rw [Function.update_of_ne hi]
      exact h.below i
  · show (Function.update g.segments g.activeSegment writer g.activeSegment).written +
      g.admissionStartBytes = adopted.written g.activeSegment + g.lastDispatchedAdmissionBytes +
        (inHand.map AdmittedAppend.encodedBytes).sum
    rw [hself, hwritten]
    omega
  · show _ ∧ _ ∧ (Function.update g.segments g.activeSegment writer i).Fresh
    rw [Function.update_of_ne (Nat.ne_of_gt hi)]
    exact h.later i hi

/-- The window in hand is in the commit tracker: the dispatched boundary moves behind it. -/
theorem Running.dispatch (h : g.Running ceiling adopted inHand true) :
    Running ceiling adopted { g with
      lastDispatchedAdmissionBytes :=
        (inHand.getLast?.map AdmittedAppend.admissionEndBytes).getD g.lastDispatchedAdmissionBytes }
      [] false := by
  have hchain := h.chain
  rw [outstanding, List.append_assoc] at hchain
  obtain ⟨middle, hwindow, hrest⟩ := hchain.split
  have hactive := h.active
  rw [if_pos rfl] at hactive
  have hmiddle := hwindow.eq_add
  rw [hwindow.getLast]
  refine { h with chain := hrest, start_le := ?_, fits := ?_, active := ?_ }
  · exact h.start_le.trans hwindow.bounds.1
  · intro append happend
    refine h.fits append ?_
    rw [outstanding, List.append_assoc]
    exact List.mem_append_right _ happend
  · show (g.segments g.activeSegment).written + g.admissionStartBytes =
      adopted.written g.activeSegment + middle + 0
    omega

theorem Running.swap (h : g.Running ceiling adopted [] false) {successor : Nat}
    (hspare : g.spareSegment = some successor) :
    Running ceiling adopted { g with
      activeSegment := successor
      spareSegment := none
      admissionStartBytes := g.lastDispatchedAdmissionBytes
      existingBytes := (g.segments successor).physicalSize } [] false := by
  obtain ⟨hlt, hcount⟩ := h.spare successor hspare
  obtain ⟨hheld, hwritten, hfresh⟩ := h.later successor hlt
  have hsize : (g.segments successor).physicalSize = 0 := hfresh.committedBytes
  have hempty : (g.segments successor).written = 0 := hfresh.written
  have hstart := h.start_le
  -- an append was checked against an older boundary, so it fits all the more
  have hless : ∀ append : AdmittedAppend,
      g.existingBytes + (append.admissionEndBytes - g.admissionStartBytes) ≤ ceiling →
        (g.segments successor).physicalSize +
          (append.admissionEndBytes - g.lastDispatchedAdmissionBytes) ≤ ceiling := by
    intro append hfits
    omega
  refine { h with
    boundary := h.chain.bounds.1
    start_le := le_rfl
    fits := fun append happend => hless append (h.fits append happend)
    admission := fun append happend => ?_
    active := ?_
    existing := hsize.trans hheld.symm
    later := fun i hi => h.later i (hlt.trans hi)
    active_lt := hcount
    spare := fun _ hnone => ?_ }
  · obtain ⟨hend, hfits⟩ := h.admission append happend
    exact ⟨hend, hless append hfits⟩
  · show (g.segments successor).written + g.lastDispatchedAdmissionBytes =
      adopted.written successor + g.lastDispatchedAdmissionBytes + 0
    omega
  · cases hnone

theorem Running.adopt (h : g.Running ceiling adopted [] false) (start : Fin n → ZoneStart) :
    Running ceiling adopted { g with
      segments := Function.update g.segments g.segmentCount (.create start)
      segmentCount := g.segmentCount + 1
      spareSegment := some g.segmentCount } [] false := by
  have hlater := h.later g.segmentCount h.active_lt
  have hwritten : ∀ k, (Function.update g.segments g.segmentCount (.create start) k).written =
      (g.segments k).written := by
    intro k
    by_cases hk : k = g.segmentCount
    · subst hk
      rw [Function.update_self, hlater.2.2.written]
      rfl
    · rw [Function.update_of_ne hk]
  refine { h with
    grown := fun i => ?_
    below := fun i => ?_
    active := ?_
    later := fun i hi => ?_
    active_lt := h.active_lt.trans (Nat.lt_succ_self _)
    spare := fun i hi => ?_ }
  · show _ ≤ (Function.update g.segments g.segmentCount (.create start) i).written
    rw [hwritten]
    exact h.grown i
  · show (Function.update g.segments g.segmentCount (.create start) i).written = _ ∨
      _ + ((Function.update g.segments g.segmentCount (.create start) i).written - _) ≤ _
    rw [hwritten]
    exact h.below i
  · show (Function.update g.segments g.segmentCount (.create start) g.activeSegment).written + _ = _
    rw [hwritten]
    exact h.active
  · obtain ⟨hheld, hzero, hfresh⟩ := h.later i hi
    refine ⟨hheld, hzero, ?_⟩
    show (Function.update g.segments g.segmentCount (.create start) i).Fresh
    by_cases hcount : i = g.segmentCount
    · subst hcount
      rw [Function.update_self]
      exact SegmentWriter.fresh_create start
    · rw [Function.update_of_ne hcount]
      exact hfresh
  · cases hi
    exact ⟨h.active_lt, Nat.lt_succ_self _⟩

end Gauge

end Chorus
