import Chorus.Segment.Proofs.LaneProofs

/-!
# Byte fidelity of a lane

`LaneLog` is what holds of the segment, of the session and of the sends at every point of a lane.
`Ready` and `Broken` are what holds between two calls: the session stands at the end of what was
staged, or somewhere before it. Every path back to the head of the loop starts from `Ready`.
-/

namespace Chorus

open Concurrency

/-- A send writes the segment's own bytes, where they belong. -/
structure LaneSend.Sound (send : LaneSend) (bytes : Bytes) : Prop where
  content : send.packed.content <+: bytes.drop send.offset
  placed : ∀ m ∈ send.packed.messages, m.content <+: bytes.drop (send.offset + m.relativeOffset)
  position : send.position = send.offset
  resent : ∀ durable stop, send.origin = .resent durable stop →
    send.offset = durable ∧ send.stop = stop

theorem LaneSend.Sound.append {send : LaneSend} {bytes : Bytes} (h : send.Sound bytes)
    (more : Bytes) : send.Sound (bytes ++ more) where
  content := prefix_drop_append h.content more
  placed m hm := prefix_drop_append (h.placed m hm) more
  position := h.position
  resent := h.resent

/-- Everything that the session was or is being sent, after what was there before. -/
def AppendStream.wire (st : AppendStream) : Bytes := st.object ++ st.queued ++ st.pending

theorem AppendStream.wire_cut (st : AppendStream) : st.cut.wire <+: st.wire := by
  show st.object ++ st.queued ++ [] <+: st.object ++ st.queued ++ st.pending
  rw [List.append_nil]
  exact List.prefix_append _ _

theorem AppendStream.object_wire (st : AppendStream) : st.object <+: st.wire := by
  rw [wire, List.append_assoc]
  exact List.prefix_append _ _

/-- What holds of the segment, of the session and of the sends. -/
structure LaneLog (admitted staged : List BatchDescriptor) (shared : SharedBatches) (durable : Nat)
    (st : AppendStream) (sends : List LaneSend) : Prop where
  consecutive : Consecutive 0 admitted
  shared_sound : SharedSound shared (batchBytes admitted)
  staged_admitted : staged <+: admitted
  durable_le : durable ≤ st.object.length
  wire : st.wire <+: batchBytes staged
  sends_sound : ∀ send ∈ sends, send.Sound (batchBytes admitted)
  contiguous : sends.IsChain fun a b => a.session = b.session → b.offset = a.stop
  sessions : sends.Pairwise fun a b => a.session ≤ b.session
  session_le : ∀ send ∈ sends, send.session ≤ st.session
  last_stop : ∀ send ∈ sends.getLast?, send.stop = (batchBytes staged).length

namespace LaneLog

variable {admitted staged staged' : List BatchDescriptor} {shared shared' : SharedBatches}
  {durable durable' : Nat} {st st' : AppendStream} {sends : List LaneSend}

theorem staged_consecutive (h : LaneLog admitted staged shared durable st sends) :
    Consecutive 0 staged := by
  obtain ⟨rest, rfl⟩ := h.staged_admitted
  exact (consecutive_append.1 h.consecutive).1

theorem object_le (h : LaneLog admitted staged shared durable st sends) :
    st.object.length ≤ (batchBytes staged).length := by
  have hlen := h.wire.length_le
  simp only [AppendStream.wire, List.length_append] at hlen
  omega

/-- The session moves on without a send. -/
theorem move (h : LaneLog admitted staged shared durable st sends) (hwire : st'.wire <+: st.wire)
    (hdurable : durable' ≤ st'.object.length) (hsession : st.session ≤ st'.session) :
    LaneLog admitted staged shared durable' st' sends where
  consecutive := h.consecutive
  shared_sound := h.shared_sound
  staged_admitted := h.staged_admitted
  durable_le := hdurable
  wire := hwire.trans h.wire
  sends_sound := h.sends_sound
  contiguous := h.contiguous
  sessions := h.sessions
  session_le send hsend := (h.session_le send hsend).trans hsession
  last_stop := h.last_stop

theorem share (h : LaneLog admitted staged shared durable st sends)
    (hshared : SharedSound shared' (batchBytes admitted)) :
    LaneLog admitted staged shared' durable st sends :=
  { h with shared_sound := hshared }

theorem admitWindow (h : LaneLog admitted staged shared durable st sends) {batch : BatchDescriptor}
    (hbatch : batch.start = (batchBytes admitted).length) (lanes : Nat) :
    LaneLog (admitted ++ [batch]) staged (Function.update shared batch.start ⟨lanes, []⟩) durable st
      sends := by
  have hbytes : batchBytes (admitted ++ [batch]) = batchBytes admitted ++ batch.bytes := by simp
  refine { h with
    consecutive := consecutive_append.2 ⟨h.consecutive, by rw [hbatch, Nat.zero_add], trivial⟩
    shared_sound := ?_
    staged_admitted := h.staged_admitted.trans (List.prefix_append _ _)
    sends_sound := fun send hsend => ?_ }
  · rw [hbytes]
    exact (h.shared_sound.append batch.bytes).update batch.start _ nofun
  · rw [hbytes]
    exact (h.sends_sound send hsend).append batch.bytes

theorem send (h : LaneLog admitted staged shared durable st sends) {x : LaneSend}
    (hx : x.Sound (batchBytes admitted)) (hsession : x.session = st.session)
    (hstaged : staged' <+: admitted) (hstop : x.stop = (batchBytes staged').length)
    (hwire : st.object ++ st.queued ++ x.packed.content <+: batchBytes staged')
    (hlast : ∀ a ∈ sends.getLast?, a.session = x.session → x.offset = a.stop) :
    LaneLog admitted staged' shared durable { st with pending := x.packed.content }
      (sends ++ [x]) where
  consecutive := h.consecutive
  shared_sound := h.shared_sound
  staged_admitted := hstaged
  durable_le := h.durable_le
  wire := hwire
  sends_sound send hsend := by
    rcases List.mem_append.1 hsend with hsend | hsend
    · exact h.sends_sound send hsend
    · obtain rfl := List.mem_singleton.1 hsend
      exact hx
  contiguous := by
    refine List.isChain_append.2 ⟨h.contiguous, List.isChain_singleton _, fun a ha b hb => ?_⟩
    obtain rfl : x = b := by simpa using hb
    exact hlast a ha
  sessions := by
    refine List.pairwise_append.2 ⟨h.sessions, List.pairwise_singleton _ _, fun a ha b hb => ?_⟩
    obtain rfl := List.mem_singleton.1 hb
    rw [hsession]
    exact h.session_le a ha
  session_le send hsend := by
    rcases List.mem_append.1 hsend with hsend | hsend
    · exact h.session_le send hsend
    · obtain rfl := List.mem_singleton.1 hsend
      exact hsession.le
  last_stop send hsend := by
    rw [List.getLast?_append, List.getLast?_singleton, Option.some_or] at hsend
    obtain rfl : x = send := by simpa using hsend
    exact hstop

end LaneLog

namespace LaneSystem

variable {s s' : LaneSystem} {group : List BatchDescriptor}

/-- What the proofs read of a lane. -/
def data (s : LaneSystem) :=
  (s.admitted, s.staged, s.shared, s.lane.durable, s.stream, s.sends, s.lane.held, s.work,
    s.lane.retained)

/-- A lane that is not over. The batches in `group` were taken from the held ones to be staged. -/
structure Core (group : List BatchDescriptor) (s : LaneSystem) : Prop where
  log : LaneLog s.admitted s.staged s.shared s.lane.durable s.stream s.sends
  parts : s.admitted = s.staged ++ group ++ s.lane.held ++ s.work
  retained : s.lane.retained = undurable s.lane.durable s.staged

theorem Core.congr (h : Core group s) (hdata : s'.data = s.data) : Core group s' := by
  simp only [data, Prod.mk.injEq] at hdata
  obtain ⟨h₁, h₂, h₃, h₄, h₅, h₆, h₇, h₈, h₉⟩ := hdata
  obtain ⟨hlog, hparts, hretained⟩ := h
  constructor
  · rw [h₁, h₂, h₃, h₄, h₅, h₆]
    exact hlog
  · rw [h₁, h₂, h₇, h₈]
    exact hparts
  · rw [h₉, h₄, h₂]
    exact hretained

/-- Between two calls, with the session at the end of what was staged. -/
structure Ready (group : List BatchDescriptor) (s : LaneSystem) : Prop where
  core : Core group s
  settled : s.stream.object ++ s.stream.queued = batchBytes s.staged
  idle : s.stream.pending = []

theorem Ready.congr (h : Ready group s) (hdata : s'.data = s.data) : Ready group s' := by
  have hcore := h.core.congr hdata
  simp only [data, Prod.mk.injEq] at hdata
  obtain ⟨-, hstaged, -, -, hstream, -⟩ := hdata
  refine ⟨hcore, ?_, ?_⟩
  · rw [hstream, hstaged]
    exact h.settled
  · rw [hstream]
    exact h.idle

/-- Between two calls, with a session that may have lost bytes. -/
structure Broken (s : LaneSystem) : Prop where
  core : Core [] s
  idle : s.stream.pending = []

theorem Broken.congr (h : Broken s) (hdata : s'.data = s.data) : Broken s' := by
  have hcore := h.core.congr hdata
  simp only [data, Prod.mk.injEq] at hdata
  obtain ⟨-, -, -, -, hstream, -⟩ := hdata
  refine ⟨hcore, ?_⟩
  rw [hstream]
  exact h.idle

/-- Once nothing is retained, the object has everything that was staged. -/
theorem Broken.ready (h : Broken s) (hretained : s.lane.retained = []) : Ready [] s := by
  have hlog := h.core.log
  have hdurable := hlog.durable_le
  rw [h.core.retained, undurable_eq_nil hlog.staged_consecutive (Nat.zero_le _)] at hretained
  have hwire : s.stream.object ++ s.stream.queued <+: batchBytes s.staged := by
    have hle := hlog.wire
    rwa [AppendStream.wire, h.idle, List.append_nil] at hle
  refine ⟨h.core, hwire.eq_of_length_le ?_, h.idle⟩
  rw [List.length_append]
  omega

end LaneSystem

/-- The session stands where the lane has sent up to, the send in progress included. -/
def LanePoint.settled : LanePoint → Bool
  | .select | .sending .. | .flushing _ | .resending .. => true
  | _ => false

def LanePoint.sends : LanePoint → Bool
  | .sending .. | .resending .. => true
  | _ => false

structure LaneInv (s : LaneSystem) : Prop where
  log : LaneLog s.admitted s.staged s.shared s.lane.durable s.stream s.sends
  core : s.point.isOver = false → s.Core []
  settled : s.point.settled = true → s.stream.wire = batchBytes s.staged
  idle : s.point.sends = false → s.stream.pending = []

namespace LaneSystem

variable {s s' : LaneSystem} {first : BatchDescriptor} {group rest : List BatchDescriptor}

theorem Ready.inv (h : Ready [] s) : LaneInv s where
  log := h.core.log
  core _ := h.core
  settled _ := by rw [AppendStream.wire, h.idle, List.append_nil, h.settled]
  idle _ := h.idle

theorem Broken.inv (h : Broken s) (hp : s.point.settled = false) : LaneInv s where
  log := h.core.log
  core _ := h.core
  settled hs := absurd hs (by rw [hp]; exact Bool.false_ne_true)
  idle _ := h.idle

theorem loopTop_inv (h : Ready [] s) : LaneInv s.loopTop := by
  apply Ready.inv
  exact h.congr rfl

theorem dispatched_inv (h : Ready [] s) : LaneInv s.dispatched := by
  apply Ready.inv
  exact h.congr rfl

/-- The group that is staged is the next part of the segment. -/
theorem Ready.sound (h : Ready (first :: rest) s) (flush : Bool) {packed : PackedAppend}
    (hpacked : packed.Carries (batchBytes (first :: rest))) :
    LaneSend.Sound ⟨s.stream.session, s.stream.position, first.start, packed, flush, .staged⟩
      (batchBytes s.admitted) := by
  have hseg := h.core.log.consecutive
  rw [h.core.parts, List.append_assoc, List.append_assoc] at hseg
  have hstart : first.start = (batchBytes s.staged).length := by
    have hgroup := (consecutive_append.1 hseg).2
    rw [Nat.zero_add] at hgroup
    exact hgroup.1
  have hbytes : batchBytes s.admitted = batchBytes s.staged ++
      (batchBytes (first :: rest) ++ batchBytes (s.lane.held ++ s.work)) := by
    rw [h.core.parts]
    simp
  refine ⟨?_, fun m hm => ?_, ?_, nofun⟩
  · show packed.content <+: (batchBytes s.admitted).drop first.start
    rw [hpacked.content, hbytes, hstart, List.drop_left]
    exact List.prefix_append _ _
  · show m.content <+: (batchBytes s.admitted).drop (first.start + m.relativeOffset)
    rw [hbytes, hstart, List.drop_length_add_append]
    exact prefix_drop_append (hpacked.placed m hm) _
  · show s.stream.object.length + s.stream.queued.length = first.start
    rw [hstart, ← h.settled, List.length_append]

theorem stage_inv (h : Ready (first :: rest) s) (flush : Bool) :
    LaneInv (s.stage first rest flush) := by
  have hlog := h.core.log
  have hparts : s.admitted = s.staged ++ (first :: rest) ++ (s.lane.held ++ s.work) := by
    rw [h.core.parts, List.append_assoc]
  have hseg := hlog.consecutive
  rw [hparts] at hseg
  obtain ⟨hshared, hpacked⟩ := hlog.shared_sound.packedGroup (congrArg batchBytes hparts) hseg
  obtain ⟨hstaged, hgroup⟩ := consecutive_append.1 (consecutive_append.1 hseg).1
  rw [Nat.zero_add] at hgroup
  have hsound := h.sound flush hpacked
  have hcontent : s.stream.object ++ s.stream.queued ++
      (packedGroup s.shared first rest).2.content =
      batchBytes (s.staged ++ (first :: rest)) := by
    rw [h.settled, hpacked.content, batchBytes_append]
  have hstop : first.start + (packedGroup s.shared first rest).2.content.length =
      (batchBytes (s.staged ++ (first :: rest))).length := by
    rw [hgroup.1, hpacked.content, batchBytes_append, List.length_append]
  have hnew := (hlog.share (hshared.groupStaged (first :: rest))).send hsound rfl
    ⟨_, hparts.symm⟩ hstop (hcontent ▸ List.prefix_rfl)
    (fun a ha _ => hgroup.1.trans (hlog.last_stop a ha).symm)
  refine ⟨hnew, fun _ => ⟨hnew, ?_, ?_⟩, fun _ => hcontent, nofun⟩
  · show s.admitted = s.staged ++ (first :: rest) ++ [] ++ s.lane.held ++ s.work
    rw [h.core.parts, List.append_nil]
  · show s.lane.retained ++ (first :: rest).map _ =
      undurable s.lane.durable (s.staged ++ (first :: rest))
    have hdurable := hlog.durable_le.trans hlog.object_le
    rw [undurable_append, undurable_of_le_start hgroup hdurable, h.core.retained]

theorem Ready.take (h : Ready [] s) {held : List BatchDescriptor}
    (hheld : s.lane.held = group ++ held) (heldBytes : Nat) :
    Ready group { s with lane := { s.lane with held := held, heldBytes := heldBytes } } := by
  refine ⟨⟨h.core.log, ?_, h.core.retained⟩, h.settled, h.idle⟩
  show s.admitted = s.staged ++ group ++ held ++ s.work
  rw [h.core.parts, hheld]
  simp

theorem unflushedRound_inv (h : Ready [] s) : LaneInv s.unflushedRound := by
  unfold unflushedRound
  by_cases hbytes : laneUnflushedSendBytes ≤ s.lane.heldBytes
  · rw [if_pos hbytes]
    cases hgroup : s.lane.held.take (LaneRuntime.unflushedCount 0 s.lane.held).1 with
    | nil =>
      simp only [hgroup]
      exact dispatched_inv h
    | cons first rest =>
      simp only [hgroup]
      refine stage_inv (h.take ?_ _) false
      rw [← hgroup, List.take_append_drop]
  · rw [if_neg hbytes]
    exact dispatched_inv h

theorem dispatch_inv (h : Ready [] s) : LaneInv s.dispatch := by
  unfold dispatch
  have hpruned : Ready [] { s with lane := s.lane.pruneFlushes } := h.congr rfl
  by_cases hfree : s.lane.pruneFlushes.flushes.length < maxOutstandingFlushes
  · simp only [if_pos hfree]
    cases hheld : s.lane.pruneFlushes.held with
    | cons first rest =>
      exact stage_inv (hpruned.take (hheld.trans (List.append_nil _).symm) 0) true
    | nil =>
      by_cases hflush : s.lane.pruneFlushes.flushedThrough < s.lane.pruneFlushes.sentEnd
      · simp only [if_pos hflush]
        apply Ready.inv
        exact hpruned.congr rfl
      · simp only [if_neg hflush]
        exact dispatched_inv hpruned
  · simp only [if_neg hfree]
    exact unflushedRound_inv hpruned

theorem returnTo_inv (h : Ready [] s) (next : LaneReturn) : LaneInv (s.returnTo next) := by
  cases next with
  | dispatch => exact dispatch_inv (h.congr rfl)
  | dispatched => exact dispatched_inv h
  | unflushed => exact unflushedRound_inv h

theorem finishSend_inv (h : Broken s) (flush : Option Nat) (next : LaneReturn) (failed : Bool)
    (hready : failed = false → Ready [] s) : LaneInv (finishSend flush next s failed) := by
  unfold finishSend
  cases failed with
  | true => exact Broken.inv (h.congr rfl) rfl
  | false =>
    rw [if_neg Bool.false_ne_true]
    refine returnTo_inv ?_ next
    exact (hready rfl).congr rfl

theorem finishAttempt_inv (h : Broken s) (next : LaneReturn) (failed : Bool)
    (hready : failed = false → Ready [] s) : LaneInv (finishAttempt next s failed) := by
  unfold finishAttempt
  cases failed with
  | true => exact Broken.inv (h.congr rfl) rfl
  | false => exact returnTo_inv (hready rfl) next

/-- A lane that stops keeps what its session was sent. -/
theorem die_inv (h : LaneLog s.admitted s.staged s.shared s.lane.durable s.stream s.sends)
    (death : LaneDeath) : LaneInv (s.die death) where
  log := h.move s.stream.wire_cut h.durable_le le_rfl
  core := nofun
  settled := nofun
  idle _ := rfl

theorem failAttempt_inv (h : Broken s) (next : LaneReturn) (error : TransportError) :
    LaneInv (s.failAttempt next error) := by
  unfold failAttempt
  by_cases htransient : error.code.transient = true
  · rw [if_pos htransient]
    exact Broken.inv (h.congr rfl) rfl
  · rw [if_neg htransient]
    exact die_inv h.core.log _

/-- Publishing a tail that the object has. -/
theorem Broken.publish (h : Broken s) (tail : Nat) (htail : tail ≤ s.stream.object.length) :
    Broken { s with lane := s.lane.publishLaneProgress tail } := by
  have hlog := h.core.log
  refine ⟨⟨?_, h.core.parts, ?_⟩, h.idle⟩
  · exact hlog.move List.prefix_rfl (max_le hlog.durable_le htail) le_rfl
  · exact LaneRuntime.retained_publishLaneProgress hlog.staged_consecutive h.core.retained tail

/-- The deadline of a call: the lane stops, or goes on with the tail it has learnt. -/
theorem confirm_rule {P : LaneSystem → Prop} (observed : LaneProgress)
    (go : LaneSystem → Bool → LaneSystem) (hdie : ∀ death, P (s.die death))
    (hdead : ∀ tail death, observed.tail? = some tail →
      P (die { s with lane := s.lane.publishLaneProgress tail } death))
    (hgo : ∀ tail failed, observed.tail? = some tail →
      (failed = false → (s.lane.publishLaneProgress tail).retained = []) →
      P (go { s with lane := s.lane.publishLaneProgress tail } failed)) :
    P (s.confirm observed go) := by
  unfold confirm LaneRuntime.confirmTimeout LaneRuntime.confirmLaneStall
  cases observed with
  | stalled => exact hdie _
  | failed error =>
    by_cases htransient : error.code.transient = true
    · simp only [if_pos htransient]
      exact hdie _
    · simp only [if_neg htransient]
      exact hdie _
  | advanced change =>
    simp only [LaneRuntime.publishAdvance]
    cases herror : change.error with
    | none =>
      simp only [Except.map, Bool.false_or]
      refine hgo _ _ rfl fun hfailed => ?_
      simpa using hfailed
    | some error =>
      by_cases htransient : error.code.transient = true
      · simp only [if_pos htransient, Except.map, Bool.true_or]
        exact hgo _ _ rfl nofun
      · simp only [if_neg htransient, Except.map]
        exact hdead _ _ rfl

/-- A tail that the lane can learn is one that the object has. -/
theorem tail_le {observed : LaneProgress} {tail : Nat} (hobserved : s.observable observed = true)
    (htail : observed.tail? = some tail) : tail ≤ s.stream.object.length := by
  cases observed with
  | advanced change =>
    cases htail
    simp only [observable, Bool.and_eq_true, decide_eq_true_eq] at hobserved
    exact hobserved.2
  | stalled => cases htail
  | failed error => cases htail

theorem progressArm_rule {P : LaneSystem → Prop} (observed : LaneProgress)
    (hdie : ∀ death, P (s.die death))
    (hidle : P (loopTop { s with lane := { s.lane with monitorSession := false } }))
    (hresume : P { s with
      lane := { s.lane with monitorSession := false }
      point := .resuming .dispatch })
    (hadvanced : ∀ tail, observed.tail? = some tail →
      (∀ death, P (die { s with lane := s.lane.publishLaneProgress tail } death)) ∧
      P { s with lane := s.lane.publishLaneProgress tail, point := .resuming .dispatch } ∧
      P (returnTo { s with lane := s.lane.publishLaneProgress tail } .dispatch)) :
    P (s.progressArm observed) := by
  unfold progressArm
  cases observed with
  | stalled => exact hdie _
  | failed error =>
    simp only
    split_ifs
    · exact hidle
    · exact hresume
    · exact hdie _
  | advanced change =>
    obtain ⟨hdead, hresume, hreturn⟩ := hadvanced change.persistedSize rfl
    unfold LaneRuntime.publishAdvance
    cases herror : change.error with
    | none =>
      simp only [herror]
      exact hreturn
    | some error =>
      by_cases htransient : error.code.transient = true
      · simp only [herror, if_pos htransient]
        exact hresume
      · simp only [herror, if_neg htransient]
        exact hdead _

theorem confirm_inv (h : Broken s) {observed : LaneProgress}
    (htail : ∀ tail ∈ observed.tail?, tail ≤ s.stream.object.length)
    {go : LaneSystem → Bool → LaneSystem}
    (hgo : ∀ s' failed, Broken s' → (failed = false → Ready [] s') → LaneInv (go s' failed)) :
    LaneInv (s.confirm observed go) := by
  refine confirm_rule observed go (fun death => die_inv h.core.log death)
    (fun tail death ht => ?_) (fun tail failed ht hretained => ?_)
  · exact die_inv (h.publish tail (htail tail ht)).core.log death
  · have hpublished := h.publish tail (htail tail ht)
    exact hgo _ _ hpublished fun hfailed => hpublished.ready (hretained hfailed)

theorem stagedEnd_eq (h : Consecutive 0 s.staged) : s.stagedEnd = (batchBytes s.staged).length := by
  unfold stagedEnd
  by_cases hne : s.staged = []
  · simp [hne]
  · rw [List.getLast?_eq_some_getLast hne, Option.map_some, Option.getD_some, h.getLast_stop hne,
      Nat.zero_add]

/-- What was staged past the end of the object, sent there. -/
theorem resent_sound {admitted staged : List BatchDescriptor} {shared : SharedBatches}
    {durable : Nat} {st : AppendStream} {sends : List LaneSend}
    (h : LaneLog admitted staged shared durable st sends) {x : LaneSend}
    (hx : x.packed.Carries ((batchBytes staged).drop st.object.length))
    (hposition : x.position = st.object.length) (hoffset : x.offset = st.object.length)
    (horigin : x.origin = .resent st.object.length (batchBytes staged).length) :
    x.Sound (batchBytes admitted) := by
  obtain ⟨after, rfl⟩ := h.staged_admitted
  rw [batchBytes_append]
  refine ⟨?_, fun m hm => ?_, hposition.trans hoffset.symm, fun durable' stop hresent => ?_⟩
  · rw [hx.content, hoffset]
    exact prefix_drop_append List.prefix_rfl _
  · have hplaced := hx.placed m hm
    rw [List.drop_drop, ← hoffset] at hplaced
    exact prefix_drop_append hplaced _
  · have hle := h.object_le
    rw [horigin] at hresent
    obtain ⟨rfl, rfl⟩ := SendOrigin.resent.inj hresent
    refine ⟨hoffset, ?_⟩
    rw [LaneSend.stop, hoffset, hx.content, List.length_drop]
    omega

/-- A session that was just resumed. -/
structure Resumed (s : LaneSystem) : Prop where
  broken : Broken s
  durable_eq : s.lane.durable = s.stream.object.length
  queued : s.stream.queued = []
  fresh : ∀ send ∈ s.sends, send.session < s.stream.session

/-- A recovery sends exactly what is missing. -/
theorem resend_inv (h : Resumed s) (next : LaneReturn) : LaneInv (s.resend next) := by
  have hlog := h.broken.core.log
  have hsuffix := LaneRuntime.flatten_suffix hlog.staged_consecutive h.broken.core.retained
  rw [h.durable_eq] at hsuffix
  unfold resend
  by_cases hnil : s.lane.suffix = []
  · have hall : (batchBytes s.staged).length ≤ s.stream.object.length := by
      rw [hnil, List.flatten_nil] at hsuffix
      exact List.drop_eq_nil_iff.1 hsuffix.symm
    have hready := h.broken.ready (by
      rw [h.broken.core.retained, undurable_eq_nil hlog.staged_consecutive (Nat.zero_le _),
        Nat.zero_add, h.durable_eq]
      exact hall)
    rw [if_pos hnil]
    refine returnTo_inv ?_ next
    exact hready.congr rfl
  · have hpacked := packAppend_carries s.lane.suffix
    rw [hsuffix] at hpacked
    obtain ⟨x, hx⟩ : ∃ x : LaneSend, x = ⟨s.stream.session, s.stream.position, s.lane.durable,
      packAppend s.lane.suffix, true, .resent s.lane.durable s.stagedEnd⟩ := ⟨_, rfl⟩
    have hsound : x.Sound (batchBytes s.admitted) := by
      refine resent_sound hlog (by rw [hx]; exact hpacked) ?_ (by rw [hx]; exact h.durable_eq) ?_
      · rw [hx]
        show s.stream.object.length + s.stream.queued.length = _
        rw [h.queued, List.length_nil, Nat.add_zero]
      · rw [hx, stagedEnd_eq hlog.staged_consecutive, h.durable_eq]
    have hcontent : s.stream.object ++ s.stream.queued ++ x.packed.content =
        batchBytes s.staged := by
      have htake := List.prefix_iff_eq_take.1 (s.stream.object_wire.trans hlog.wire)
      rw [h.queued, List.append_nil, hx]
      show s.stream.object ++ (packAppend s.lane.suffix).content = _
      rw [hpacked.content]
      nth_rewrite 1 [htake]
      exact List.take_append_drop _ _
    have hstop : x.stop = (batchBytes s.staged).length := by
      rw [← hcontent, h.queued, List.append_nil, List.length_append, LaneSend.stop, hx]
      exact congrArg (· + _) h.durable_eq
    have hnew := hlog.send hsound (by rw [hx]) hlog.staged_admitted hstop
      (hcontent ▸ List.prefix_rfl) (fun a ha heq => by
        have hlt := h.fresh a (List.mem_of_getLast? ha)
        rw [heq, hx] at hlt
        exact absurd hlt (lt_irrefl _))
    rw [if_neg hnil]
    subst hx
    exact ⟨hnew, fun _ => ⟨hnew, h.broken.core.parts, h.broken.core.retained⟩,
      fun _ => hcontent, nofun⟩

theorem Broken.resumed (h : Broken s) :
    Resumed { s with stream := s.stream.resume
                     lane := s.lane.publishLaneProgress s.stream.object.length } := by
  have hlog := h.core.log
  have hwire : s.stream.resume.wire <+: s.stream.wire := by
    show s.stream.object ++ [] ++ [] <+: s.stream.wire
    rw [List.append_nil, List.append_nil]
    exact s.stream.object_wire
  have hopened : Broken { s with stream := s.stream.resume } := by
    refine ⟨⟨?_, h.core.parts, h.core.retained⟩, rfl⟩
    exact hlog.move hwire hlog.durable_le (Nat.le_succ _)
  have hpublished := hopened.publish s.stream.object.length le_rfl
  refine ⟨hpublished, max_eq_right hlog.durable_le, rfl, fun send hsend => ?_⟩
  exact Nat.lt_succ_of_le (hlog.session_le send hsend)

theorem resumeAt_inv (h : Broken s) (next : LaneReturn) : LaneInv (s.resumeAt next) :=
  resend_inv h.resumed next

theorem Ready.flush (h : Ready group s) (offsets : List Nat) :
    Ready group { s with stream := s.stream.flush offsets } := by
  refine ⟨⟨?_, h.core.parts, h.core.retained⟩, h.settled, h.idle⟩
  exact h.core.log.move List.prefix_rfl h.core.log.durable_le le_rfl

theorem Broken.lapse (h : Broken s) (revoked : Bool) :
    Broken { s with stream := s.stream.lapse revoked } := by
  have hwire : (s.stream.lapse revoked).wire <+: s.stream.wire := by
    unfold AppendStream.lapse AppendStream.wire
    simp only [h.idle, List.append_nil]
    cases revoked with
    | true => simp
    | false => exact List.prefix_rfl
  refine ⟨⟨?_, h.core.parts, h.core.retained⟩, h.idle⟩
  exact h.core.log.move hwire h.core.log.durable_le le_rfl

end LaneSystem

namespace LaneInv

open LaneSystem

variable {s s' : LaneSystem}

theorem ready (h : LaneInv s) (hover : s.point.isOver = false) (hsettled : s.point.settled = true)
    (hpending : s.stream.pending = []) : Ready [] s := by
  refine ⟨h.core hover, ?_, hpending⟩
  have hwire := h.settled hsettled
  rwa [AppendStream.wire, hpending, List.append_nil] at hwire

theorem broken (h : LaneInv s) (hover : s.point.isOver = false) (hsends : s.point.sends = false) :
    Broken s := ⟨h.core hover, h.idle hsends⟩

/-- A call that ends early leaves the session somewhere before the end of what was staged. -/
theorem cut (h : LaneInv s) (hover : s.point.isOver = false) :
    Broken { s with stream := s.stream.cut } := by
  have hcore := h.core hover
  refine ⟨⟨?_, hcore.parts, hcore.retained⟩, rfl⟩
  exact hcore.log.move s.stream.wire_cut hcore.log.durable_le le_rfl

theorem sendDone (h : LaneInv s) (hover : s.point.isOver = false)
    (hsettled : s.point.settled = true) {flush : Option Nat} {next : LaneReturn}
    {outcome : SendOutcome} (hs' : s.sendDone flush next outcome = some s') : LaneInv s' := by
  cases outcome with
  | ok =>
    obtain ⟨hpending, hs'⟩ := Option.ite_none_right_eq_some.1 hs'
    cases hs'
    have hready := (h.ready hover hsettled hpending).flush flush.toList
    exact finishSend_inv ⟨hready.core, hready.idle⟩ _ _ _ fun _ => hready
  | failed error =>
    cases hs'
    exact finishSend_inv (h.cut hover) _ _ _ nofun
  | timedOut observed =>
    obtain ⟨hobserved, hs'⟩ := Option.ite_none_right_eq_some.1 hs'
    cases hs'
    exact confirm_inv (h.cut hover) (fun _ => tail_le hobserved) fun _ _ hb hr =>
      finishSend_inv hb _ _ _ hr

theorem resendDone (h : LaneInv s) (hover : s.point.isOver = false)
    (hsettled : s.point.settled = true) {next : LaneReturn} {bytes : Nat} {outcome : SendOutcome}
    (hs' : s.resendDone next bytes outcome = some s') : LaneInv s' := by
  cases outcome with
  | ok =>
    obtain ⟨hpending, hs'⟩ := Option.ite_none_right_eq_some.1 hs'
    cases hs'
    refine returnTo_inv ?_ next
    exact ((h.ready hover hsettled hpending).flush [s.lane.durable + bytes]).congr rfl
  | failed error =>
    cases hs'
    exact failAttempt_inv (h.cut hover) _ _
  | timedOut observed =>
    obtain ⟨hobserved, hs'⟩ := Option.ite_none_right_eq_some.1 hs'
    cases hs'
    exact confirm_inv (h.cut hover) (fun _ => tail_le hobserved) fun _ _ hb hr =>
      finishAttempt_inv hb _ _ hr

theorem resumeDone (h : LaneInv s) (hover : s.point.isOver = false) (hsends : s.point.sends = false)
    {next : LaneReturn} {outcome : ResumeOutcome} (hs' : s.resumeDone next outcome = some s') :
    LaneInv s' := by
  have hbroken := h.broken hover hsends
  cases outcome with
  | ok =>
    cases hs'
    exact resumeAt_inv hbroken next
  | failed error revoked =>
    cases hs'
    exact failAttempt_inv (hbroken.lapse revoked) _ _
  | timedOut observed revoked =>
    obtain ⟨hobserved, hs'⟩ := Option.ite_none_right_eq_some.1 hs'
    cases hs'
    exact confirm_inv (hbroken.lapse revoked) (fun _ => tail_le hobserved) fun _ _ hb hr =>
      finishAttempt_inv hb _ _ hr

theorem progressArm (h : Ready [] s) {observed : LaneProgress}
    (hobserved : s.observable observed = true) : LaneInv (s.progressArm observed) := by
  have hbroken : Broken s := ⟨h.core, h.idle⟩
  refine progressArm_rule observed (fun death => die_inv h.core.log death)
    (loopTop_inv (h.congr rfl)) (Broken.inv (hbroken.congr rfl) rfl) fun tail htail => ?_
  have hpublished := hbroken.publish tail (tail_le hobserved htail)
  have hready : Ready [] { s with lane := s.lane.publishLaneProgress tail } :=
    ⟨hpublished.core, h.settled, h.idle⟩
  exact ⟨die_inv hpublished.core.log, Broken.inv (hpublished.congr rfl) rfl,
    returnTo_inv hready .dispatch⟩

theorem admitWindow (h : LaneInv s) {batch : BatchDescriptor}
    (hbatch : batch.start = s.bytes.length) (lanes : Nat) :
    LaneInv (s.admitWindow batch lanes) := by
  have hnew := h.log.admitWindow hbatch lanes
  refine ⟨hnew, fun hover => ⟨hnew, ?_, (h.core hover).retained⟩, h.settled, h.idle⟩
  have hnot : s.point.isOver = false := hover
  unfold LaneSystem.admitWindow
  simp only [hnot, Bool.false_eq_true, if_false]
  rw [(h.core hover).parts]
  simp

theorem flow (h : LaneInv s) {st : AppendStream} (hwire : st.wire = s.stream.wire)
    (hobject : s.stream.object.length ≤ st.object.length) (hsession : st.session = s.stream.session)
    (hidle : s.stream.pending = [] → st.pending = []) : LaneInv { s with stream := st } := by
  have hnew := h.log.move (hwire ▸ List.prefix_rfl) (h.log.durable_le.trans hobject) hsession.ge
  refine ⟨hnew, fun hover => ⟨hnew, (h.core hover).parts, (h.core hover).retained⟩, fun hs => ?_,
    fun hs => hidle (h.idle hs)⟩
  rw [hwire]
  exact h.settled hs

theorem share (h : LaneInv s) {shared : SharedBatches}
    (hshared : SharedSound shared (batchBytes s.admitted)) :
    LaneInv { s with shared := shared } := by
  have hnew := h.log.share hshared
  exact ⟨hnew, fun hover => ⟨hnew, (h.core hover).parts, (h.core hover).retained⟩,
    h.settled, h.idle⟩

theorem environment (h : LaneInv s) {e : LaneEvent} (hs' : s.environment e = some s') :
    LaneInv s' := by
  cases e with
  | admitWindow records lanes =>
    obtain ⟨hwindow, hs'⟩ := Option.dite_none_right_eq_some.1 hs'
    cases hs'
    exact h.admitWindow rfl lanes
  | dropSender =>
    cases hs'
    exact ⟨h.log, fun hover => (h.core hover).congr rfl, h.settled, h.idle⟩
  | otherPacks index count =>
    cases hgroup : (s.admitted.drop index).take count with
    | nil =>
      simp only [LaneSystem.environment, hgroup] at hs'
      cases hs'
    | cons first rest =>
      simp only [LaneSystem.environment, hgroup] at hs'
      cases hs'
      have hparts : s.admitted =
          s.admitted.take index ++ (first :: rest) ++ (s.admitted.drop index).drop count := by
        rw [← hgroup, List.append_assoc, List.take_append_drop, List.take_append_drop]
      have hseg := h.log.consecutive
      rw [hparts] at hseg
      exact h.share (h.log.shared_sound.packedGroup (congrArg batchBytes hparts) hseg).1
  | otherStages index =>
    obtain ⟨batch, -, rfl⟩ := Option.map_eq_some_iff.1 hs'
    exact h.share (h.log.shared_sound.laneStaged batch.start)
  | take count =>
    obtain ⟨-, hs'⟩ := Option.ite_none_right_eq_some.1 hs'
    cases hs'
    refine h.flow ?_ le_rfl rfl fun hnil => ?_
    · simp [AppendStream.wire, AppendStream.take]
    · simp [AppendStream.take, hnil]
  | persist count =>
    obtain ⟨-, hs'⟩ := Option.ite_none_right_eq_some.1 hs'
    cases hs'
    refine h.flow ?_ ?_ rfl id
    · simp [AppendStream.wire, AppendStream.persist]
    · simp [AppendStream.persist]
  | _ => cases hs'

theorem receive (h : Ready [] s) :
    Ready [] { s with lane := s.work.foldl LaneRuntime.hold s.lane, work := [] } := by
  rw [LaneRuntime.foldl_hold]
  refine ⟨⟨h.core.log, ?_, h.core.retained⟩, h.settled, h.idle⟩
  show s.admitted = s.staged ++ [] ++ (s.lane.held ++ s.work) ++ []
  rw [h.core.parts]
  simp

end LaneInv

/-- The steps of a lane, by the point at which it waits. -/
inductive LaneMove (s : LaneSystem) : LaneEvent → LaneSystem → Prop where
  | progress {observed : LaneProgress} (hpoint : s.point = .select)
      (henabled : s.progressEnabled observed = true) :
      LaneMove s (.progress observed) (s.progressArm observed)
  | receive (hpoint : s.point = .select) :
      LaneMove s .receive
        (LaneSystem.dispatch { s with lane := s.work.foldl LaneRuntime.hold s.lane, work := [] })
  | disconnected (hpoint : s.point = .select) :
      LaneMove s .disconnected (LaneSystem.loopTop { s with closed := true })
  | flushed {stop : Nat} {outcome : SendOutcome} {s' : LaneSystem}
      (hpoint : s.point = .sending true stop ∨ s.point = .flushing stop)
      (hs' : s.sendDone (some stop) .dispatched outcome = some s') : LaneMove s (.sent outcome) s'
  | unflushed {stop : Nat} {outcome : SendOutcome} {s' : LaneSystem}
      (hpoint : s.point = .sending false stop)
      (hs' : s.sendDone none .unflushed outcome = some s') : LaneMove s (.sent outcome) s'
  | resumed {next : LaneReturn} {outcome : ResumeOutcome} {s' : LaneSystem}
      (hpoint : s.point = .resuming next) (hs' : s.resumeDone next outcome = some s') :
      LaneMove s (.resumed outcome) s'
  | resent {next : LaneReturn} {bytes : Nat} {outcome : SendOutcome} {s' : LaneSystem}
      (hpoint : s.point = .resending next bytes) (hs' : s.resendDone next bytes outcome = some s') :
      LaneMove s (.sent outcome) s'
  | slept {next : LaneReturn} (hpoint : s.point = .backingOff next) :
      LaneMove s .slept { s with point := .resuming next }
  | sleepTimedOut {next : LaneReturn} {observed : LaneProgress}
      (hpoint : s.point = .backingOff next) (hobserved : s.observable observed = true) :
      LaneMove s (.sleepTimedOut observed) (s.confirm observed (LaneSystem.finishAttempt next))
  | abort : LaneMove s .abort { s with point := .aborted, stream := s.stream.cut }

theorem laneMove_of_laneStep {s s' : LaneSystem} {e : LaneEvent} (h : s.laneStep e = some s') :
    LaneMove s e s' := by
  unfold LaneSystem.laneStep at h
  split at h
  case h_1 hpoint =>
    obtain ⟨henabled, h⟩ := Option.ite_none_right_eq_some.1 h
    cases h
    exact .progress hpoint henabled
  case h_2 hpoint =>
    obtain ⟨-, h⟩ := Option.ite_none_right_eq_some.1 h
    cases h
    exact .receive hpoint
  case h_3 hpoint =>
    obtain ⟨-, h⟩ := Option.ite_none_right_eq_some.1 h
    cases h
    exact .disconnected hpoint
  case h_4 flush stop outcome hpoint =>
    cases flush with
    | true => exact .flushed (.inl hpoint) h
    | false => exact .unflushed hpoint h
  case h_5 hpoint => exact .flushed (.inr hpoint) h
  case h_6 hpoint => exact .resumed hpoint h
  case h_7 hpoint => exact .resent hpoint h
  case h_8 hpoint =>
    cases h
    exact .slept hpoint
  case h_9 hpoint =>
    obtain ⟨hobserved, h⟩ := Option.ite_none_right_eq_some.1 h
    cases h
    exact .sleepTimedOut hpoint hobserved
  case h_10 =>
    obtain ⟨-, h⟩ := Option.ite_none_left_eq_some.1 h
    cases h
    exact .abort
  case h_11 => cases h

namespace LaneInv

open LaneSystem

variable {s s' : LaneSystem}

theorem move (h : LaneInv s) {e : LaneEvent} (hmove : LaneMove s e s') : LaneInv s' := by
  -- what the invariant gives at the point of the step
  have hready : s.point = .select → Ready [] s := fun hp =>
    h.ready (by rw [hp]; rfl) (by rw [hp]; rfl) (h.idle (by rw [hp]; rfl))
  cases hmove with
  | progress hpoint henabled =>
    simp only [progressEnabled, Bool.and_eq_true] at henabled
    exact progressArm (hready hpoint) henabled.1.2
  | receive hpoint => exact dispatch_inv (receive (hready hpoint))
  | disconnected hpoint =>
    refine loopTop_inv ?_
    exact (hready hpoint).congr rfl
  | flushed hpoint hs' =>
    rcases hpoint with hpoint | hpoint
    · exact h.sendDone (by rw [hpoint]; rfl) (by rw [hpoint]; rfl) hs'
    · exact h.sendDone (by rw [hpoint]; rfl) (by rw [hpoint]; rfl) hs'
  | unflushed hpoint hs' => exact h.sendDone (by rw [hpoint]; rfl) (by rw [hpoint]; rfl) hs'
  | resumed hpoint hs' => exact h.resumeDone (by rw [hpoint]; rfl) (by rw [hpoint]; rfl) hs'
  | resent hpoint hs' => exact h.resendDone (by rw [hpoint]; rfl) (by rw [hpoint]; rfl) hs'
  | slept hpoint =>
    have hbroken := h.broken (by rw [hpoint]; rfl) (by rw [hpoint]; rfl)
    exact Broken.inv (hbroken.congr rfl) rfl
  | sleepTimedOut hpoint hobserved =>
    have hbroken := h.broken (by rw [hpoint]; rfl) (by rw [hpoint]; rfl)
    exact confirm_inv hbroken (fun _ => tail_le hobserved) fun _ _ hb hr =>
      finishAttempt_inv hb _ _ hr
  | abort =>
    have hlog := h.log.move s.stream.wire_cut h.log.durable_le le_rfl
    exact ⟨hlog, nofun, nofun, fun _ => rfl⟩

theorem step (h : LaneInv s) {e : LaneEvent} (hs' : s.step e = some s') : LaneInv s' := by
  unfold LaneSystem.step at hs'
  split at hs'
  case h_1 henv =>
    cases hs'
    exact h.environment henv
  case h_2 => exact h.move (laneMove_of_laneStep hs')

theorem init : LaneInv LaneSystem.init := by
  refine Ready.inv ⟨⟨?_, rfl, rfl⟩, rfl, rfl⟩
  exact ⟨trivial, nofun, List.prefix_rfl, le_rfl, List.prefix_rfl, nofun, .nil, .nil, nofun, nofun⟩

end LaneInv

theorem laneInv_of_reaches {ok : LaneSystem → LaneEvent → Prop} {s : LaneSystem}
    (h : Reaches LaneSystem.step ok LaneSystem.init s) : LaneInv s :=
  h.invariant LaneInv.init fun _ _ _ hs _ ha => hs.step ha

theorem eq_extract {c bytes : Bytes} {offset : Nat} (h : c <+: bytes.drop offset) :
    c = bytes.extract offset (offset + c.length) := by
  rw [List.extract_eq_take_drop, Nat.add_sub_cancel_left]
  exact List.prefix_iff_eq_take.1 h

/-- Whatever fails, a lane sends the segment's own bytes where they belong: the content of every
send, and of every message of it, is the slice of the segment at its offset, at which the session
stands; a recovery sends what is between the durable offset and the end of the last staged batch;
consecutive sends on one session are contiguous; and the object is an initial part of the
segment. -/
theorem lane_byte_fidelity {s : LaneSystem}
    (h : Reaches LaneSystem.step (fun _ _ => True) LaneSystem.init s) :
    (∀ send ∈ s.sends, send.packed.content = s.bytes.extract send.offset send.stop ∧
      send.offset = send.position ∧
      ∀ m ∈ send.packed.messages, m.content = s.bytes.extract (send.offset + m.relativeOffset)
        (send.offset + m.relativeOffset + m.content.length)) ∧
    (∀ send ∈ s.sends, ∀ durable stop, send.origin = .resent durable stop →
      send.offset = durable ∧ send.packed.content = s.bytes.extract durable stop) ∧
    (∀ before a b after, s.sends = before ++ a :: b :: after → a.session = b.session →
      b.offset = a.stop) ∧
    s.sends.Pairwise (fun a b => a.session ≤ b.session) ∧
    s.stream.object <+: s.bytes := by
  have hlog := (laneInv_of_reaches h).log
  have hcontent : ∀ send ∈ s.sends, send.packed.content = s.bytes.extract send.offset send.stop :=
    fun send hsend => eq_extract (hlog.sends_sound send hsend).content
  refine ⟨fun send hsend => ⟨hcontent send hsend, ?_, fun m hm => ?_⟩,
    fun send hsend durable stop horigin => ?_, fun before a b after hsends => ?_, hlog.sessions, ?_⟩
  · exact (hlog.sends_sound send hsend).position.symm
  · exact eq_extract ((hlog.sends_sound send hsend).placed m hm)
  · obtain ⟨hoffset, hstop⟩ := (hlog.sends_sound send hsend).resent durable stop horigin
    refine ⟨hoffset, ?_⟩
    rw [← hoffset, ← hstop]
    exact hcontent send hsend
  · exact List.isChain_iff_forall_rel_of_append_cons_cons.1 hlog.contiguous hsends
  · obtain ⟨after, hadmitted⟩ := hlog.staged_admitted
    have hstaged : batchBytes s.staged <+: s.bytes := by
      rw [LaneSystem.bytes, ← hadmitted, batchBytes_append]
      exact List.prefix_append _ _
    exact (s.stream.object_wire.trans hlog.wire).trans hstaged

namespace LaneExample

/-- Two windows in one group, which another lane has packed; the session fails when the object ends
inside the first record, and the rest is sent again. -/
def tornSend : List LaneEvent :=
  [.admitWindow [⟨[1, 2, 3]⟩] 3, .admitWindow [⟨[4]⟩, ⟨[5, 6]⟩] 3, .otherPacks 0 2,
    .otherStages 0, .receive, .take 9, .persist 6, .sent (.failed ⟨0, .unavailable⟩), .resumed .ok,
    .take 12, .persist 5, .sent .ok]

end LaneExample

open LaneExample in
theorem lane_byte_fidelity_torn : ∃ s,
    Reaches LaneSystem.step (fun _ _ => True) LaneSystem.init s ∧
    s.sends.map (fun send => (send.session, send.offset, send.origin)) =
      [(0, 0, .staged), (1, 6, .resent 6 18)] ∧
    s.stream.object.length = 11 ∧ s.stream.object <+: s.bytes := by
  have hrun : (runChecked LaneSystem.step (fun _ _ => true) LaneSystem.init tornSend).any
      (fun s => decide (s.sends.map (fun send => (send.session, send.offset, send.origin)) =
        [(0, 0, .staged), (1, 6, .resent 6 18)]) && decide (s.stream.object.length =
          11)) = true := by
    decide +kernel
  obtain ⟨s, hreach, hfacts⟩ := exists_reaches (fun _ _ _ => trivial) hrun
  simp only [Bool.and_eq_true, decide_eq_true_eq] at hfacts
  exact ⟨s, hreach, hfacts.1, hfacts.2, (lane_byte_fidelity hreach).2.2.2.2⟩

end Chorus
