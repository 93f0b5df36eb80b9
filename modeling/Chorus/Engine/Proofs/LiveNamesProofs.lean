import Chorus.Engine.Proofs.CompletionProofs
import Chorus.Engine.Proofs.LiveStepProofs
import Chorus.Engine.Proofs.PrefixProofs

/-!
# What the folds of a live engine name

A swap freezes the names of the active segment when everything that was admitted to it is committed.
The segment is not written again, so its names stay those of its records: how many they are, their
digest and their checksum.
-/

namespace Chorus

open Concurrency RecordFrame

variable {n i start : Nat} {crc : Bytes → Nat} {sha256 : Bytes → String} {config : WalEngineConfig}
  {s s' : LiveWal n} {e e' : Engine n} {ids ids' : Nat → SegmentId} {fold? : Option PendingFold}
  {fold : PendingFold} {since : Nat} {writing : Bool}

/-- The fold names exactly what was admitted to segment `i`, which is committed and not written any
more. -/
structure PendingFold.Names (sha256 : Bytes → String) (e : Engine n)
    (ids : Nat → SegmentId) (i : Nat) (fold : PendingFold) : Prop where
  lt : i < e.segmentCount
  frozen : e.Frozen i
  id : fold.oldTailId = ids i
  nonempty : (e.segments i).segment.stream ≠ []
  count : fold.oldTailEnd + 1 = fold.oldTailBase + (e.segments i).segment.stream.length
  digest : fold.oldTailDigest = sha256 (streamBytes (e.segments i).segment.stream)
  crc32c : fold.oldTailCrc32c = crc32c (streamBytes (e.segments i).segment.stream)
  admitted : (e.segments i).admittedLen = (e.segments i).segment.stream.length
  committed : (e.segments i).committedLen = (e.segments i).segment.stream.length

/-- A request names the segment that takes over and, unless recovery has deferred it, the segment
that was swapped out. -/
structure FoldRequest.Names (sha256 : Bytes → String) (e : Engine n) (ids : Nat → SegmentId)
    (request : FoldRequest) : Prop where
  lt : request.active < e.segmentCount
  consumed : request.fold.consumedPendingId = ids request.active
  successor : request.fold.successorTailId = ids request.active
  writer : ∀ i, request.writer = some i → request.fold.Names sha256 e ids i

structure LiveWal.NamesInv (sha256 : Bytes → String) (s : LiveWal n) : Prop where
  active_lt : s.engine.activeSegment < s.engine.segmentCount
  spare_lt : ∀ spare, s.engine.spare = some spare → spare.segment < s.engine.segmentCount
  described : ∀ i, (s.prefixes i).Describes (s.engine.segments i).segment.stream
    (s.engine.segments i).admittedLen
  pending : ∀ swap names i, s.engine.rotation.swap? = some swap → s.names = some names →
    swap.writer = some i →
    ∀ refillId, (pendingFoldRequest swap names refillId).Names sha256 s.engine s.ids i
  requests : ∀ request ∈ s.requests, request.Names sha256 s.engine s.ids
  quiescent : s.shutdownSeal ≠ .off → s.engine.phase = .stopped ∧
    s.engine.active.admittedLen = s.engine.active.segment.stream.length

/-! ## Segments that are no longer written -/

section Extends

/-- What the names of frozen segments rest on only grows. -/
structure Engine.Extends (crc : Bytes → Nat) (e e' : Engine n)
    (ids ids' : Nat → SegmentId) : Prop where
  count : e.segmentCount ≤ e'.segmentCount
  ids : ∀ k < e.segmentCount, ids' k = ids k
  frozen : ∀ i, e.Frozen i → e'.Frozen i ∧ (e.segments i).Advances crc (e'.segments i)
  inv : ∀ i, SegmentInv crc (e'.segments i).segment

theorem SegmentInv.committed_le_length {segment : SegmentSystem n} (h : SegmentInv crc segment) :
    segment.commits.committed ≤ segment.stream.length :=
  h.commits.committed_le.trans h.commits.admitted_le

theorem PendingFold.Names.extend (h : fold.Names sha256 e ids i) (hx : e.Extends crc e' ids ids') :
    fold.Names sha256 e' ids' i := by
  obtain ⟨hfrozen, hadvances⟩ := hx.frozen i h.frozen
  have hstream := hadvances.stream
  refine ⟨h.lt.trans_le hx.count, hfrozen, ?_, ?_, ?_, ?_, ?_, ?_, ?_⟩
  · rw [hx.ids i h.lt]
    exact h.id
  · rw [hstream]
    exact h.nonempty
  · rw [hstream]
    exact h.count
  · rw [hstream]
    exact h.digest
  · rw [hstream]
    exact h.crc32c
  · rw [hstream, hadvances.admitted]
    exact h.admitted
  · refine Nat.le_antisymm (hx.inv i).committed_le_length ?_
    rw [hstream, ← h.committed]
    exact hadvances.committed

theorem FoldRequest.Names.extend {request : FoldRequest} (h : request.Names sha256 e ids)
    (hx : e.Extends crc e' ids ids') : request.Names sha256 e' ids' := by
  refine ⟨h.lt.trans_le hx.count, ?_, ?_, fun i hi => (h.writer i hi).extend hx⟩
  · rw [hx.ids _ h.lt]
    exact h.consumed
  · rw [hx.ids _ h.lt]
    exact h.successor

theorem Engine.Extends.of_step (hinv : EngineInv crc start e) {action : Engine.Action n}
    (h : e.step crc config action = some e') (hids : ∀ k < e.segmentCount, ids' k = ids k) :
    e.Extends crc e' ids ids' :=
  have ⟨hcount, hfrozen⟩ := frozen_step hinv h
  ⟨hcount, hids, hfrozen, (hinv.step h).books.1.segments⟩

/-- Everything that joined the stream of a segment is admitted while the loop holds no window. -/
theorem Ledger.Running.admitted_eq {l : Ledger n} {inHand : List AdmittedAppend}
    (h : l.Running crc start inHand false) (i : Nat) :
    (l.segments i).admittedLen = (l.segments i).segment.stream.length := by
  have htail := h.streams i
  rw [if_neg (by simp), List.drop_eq_nil_iff] at htail
  exact Nat.le_antisymm (h.segments i).commits.admitted_le htail

end Extends

/-! ## Steps -/

/-- The writer goes on with the segments and the swap of before. -/
structure LiveWal.Kept (s s' : LiveWal n) : Prop where
  active : s'.engine.activeSegment = s.engine.activeSegment
  spare : ∀ spare, s'.engine.spare = some spare → spare.segment < s'.engine.segmentCount
  described : ∀ i, (s'.prefixes i).Describes (s'.engine.segments i).segment.stream
    (s'.engine.segments i).admittedLen
  swap : ∀ swap, s'.engine.rotation.swap? = some swap → s.engine.rotation.swap? = some swap

namespace LiveWal.NamesInv

theorem kept_of_view (h : s.NamesInv sha256)
    (hcount : s.engine.segmentCount ≤ s'.engine.segmentCount) (hprefixes : s'.prefixes = s.prefixes)
    {swap : Option PendingSwap} {spare : Option PreparedSpare} {requested : Option ProvisionAttempt}
    {segments : Nat → SegmentWriter n} (hview : s'.engine.view = { s.engine.view with
      swap := swap
      spare := spare
      requested := requested
      segments := segments })
    (hsettles : s.engine.Settles crc false segments)
    (hswap : swap = none ∨ swap = s.engine.rotation.swap?)
    (hspare : spare.map PreparedSpare.segment = s.engine.spare.map PreparedSpare.segment) :
    s.Kept s' := by
  have hswap' : s'.engine.rotation.swap? = swap := congrArg WriterView.swap hview
  have hspare' : s'.engine.spare = spare := congrArg WriterView.spare hview
  have hsegments : s'.engine.segments = segments := congrArg WriterView.segments hview
  refine ⟨congrArg WriterView.active hview, fun spare hsome => ?_, fun i => ?_,
    fun swap hsome => ?_⟩
  · rw [← hspare', hsome] at hspare
    obtain ⟨spare', hsome', hsame⟩ := Option.map_eq_some_iff.1 hspare.symm
    rw [← hsame]
    exact (h.spare_lt spare' hsome').trans_le hcount
  · have hadvances := hsettles i (.inl rfl)
    rw [hprefixes, hsegments, hadvances.stream, hadvances.admitted]
    exact h.described i
  · rw [hswap'] at hsome
    rcases hswap with rfl | rfl
    · cases hsome
    · exact hsome

theorem move (h : s.NamesInv sha256) (hx : s.engine.Extends crc s'.engine s.ids s'.ids)
    (hkept : s.Kept s') (hnames : ∀ names, s'.names = some names → s.names = some names)
    (hrequests : ∀ request ∈ s'.requests, request ∈ s.requests ∨
      request.Names sha256 s'.engine s'.ids)
    (hseal : s'.shutdownSeal ≠ .off → s.shutdownSeal ≠ .off)
    (hstopped : s.engine.phase = .stopped → s'.engine.phase = .stopped) : s'.NamesInv sha256 := by
  refine ⟨?_, hkept.spare, hkept.described, ?_, fun request hmem => ?_, fun hoff => ?_⟩
  · rw [hkept.active]
    exact h.active_lt.trans_le hx.count
  · intro swap names i hsome hsame hwriter refillId
    exact (h.pending swap names i (hkept.swap swap hsome)
      (hnames names hsame) hwriter refillId).extend hx
  · rcases hrequests request hmem with hold | hnew
    · exact (h.requests request hold).extend hx
    · exact hnew
  · obtain ⟨hphase, hadmitted⟩ := h.quiescent (hseal hoff)
    obtain ⟨-, hadvances⟩ := hx.frozen s.engine.activeSegment (.inr ⟨rfl, hphase⟩)
    refine ⟨hstopped hphase, ?_⟩
    show (s'.engine.segments s'.engine.activeSegment).admittedLen =
      (s'.engine.segments s'.engine.activeSegment).segment.stream.length
    rw [hkept.active, hadvances.admitted, hadvances.stream]
    exact hadmitted

theorem steady (h : s.NamesInv sha256) (hsteady : Engine.Steady crc writing s.engine e)
    (hx : s.engine.Extends crc e s.ids s.ids) (prefixes : Nat → AdmittedPrefix)
    (hdescribed : ∀ i, (prefixes i).Describes (e.segments i).segment.stream
      (e.segments i).admittedLen) :
    ({ s with engine := e, prefixes := prefixes } : LiveWal n).NamesInv sha256 := by
  obtain ⟨segments, hview, -⟩ := hsteady.view
  have hswap : e.rotation.swap? = s.engine.rotation.swap? := congrArg WriterView.swap hview
  have hspare : e.spare = s.engine.spare := congrArg WriterView.spare hview
  refine h.move hx ⟨congrArg WriterView.active hview, fun spare hsome => ?_, hdescribed,
    fun swap hsome => ?_⟩ (fun _ => id) (fun _ => .inl) id hsteady.stopped
  · exact (h.spare_lt spare (hspare ▸ hsome)).trans_le hx.count
  · exact hswap ▸ hsome

theorem kept (h : s.NamesInv sha256) (hsteady : Engine.Steady crc false s.engine e)
    (hx : s.engine.Extends crc e s.ids s.ids) :
    ({ s with engine := e } : LiveWal n).NamesInv sha256 := by
  refine h.steady hsteady hx s.prefixes fun i => ?_
  rw [(hsteady.advances i).stream, (hsteady.advances i).admitted]
  exact h.described i

/-- The lanes are reserved one by one. Once all have answered, the window joins the stream. -/
theorem reserveLane (h : s.NamesInv sha256) (hinv : EngineInv crc start s.engine)
    (hx : s.engine.Extends crc e s.ids s.ids) {fits : Bool}
    (he : s.engine.step crc config (.reserveLane fits) = some e) :
    (s.followReserve e).NamesInv sha256 := by
  simp only [Engine.step] at he
  split at he
  · rename_i appends zone todo zones hphase
    cases he
    have hkept :=
      h.kept (Engine.steady_reserveLane (by simp [hphase]) appends zone todo zones fits) hx
    unfold followReserve
    split
    · rename_i hphase' _
      rw [hphase] at hphase'
      cases hphase'
    · exact hkept
  · rename_i appends zones hphase
    have hsteady := Engine.steady_reserved (by simp [hphase]) he
    unfold Engine.reserved at he
    split at he
    · cases he
      have hkept := h.kept (Engine.steady_failPoisoned appends _) hx
      unfold followReserve
      split
      · rename_i hstopped
        cases hstopped
      · exact hkept
    · obtain ⟨segment, hdispatch, rfl⟩ := Option.map_eq_some_iff.1 he
      obtain ⟨-, heq⟩ := Option.ite_none_right_eq_some.1 hdispatch
      cases heq
      simp only [followReserve, hphase]
      refine h.steady hsteady hx _ fun i => ?_
      have hsegments := (hinv.books.1.segments i).commits.admitted_le
      by_cases hi : i = s.engine.activeSegment
      · subst hi
        have hextend := (h.described s.engine.activeSegment).extend hsegments
            (appends.map AdmittedAppend.record)
        rw [List.map_map] at hextend
        simp only [Engine.setActive, Function.update_self]
        exact hextend
      · simp only [Engine.setActive, Function.update_of_ne hi]
        exact h.described i
  · cases he

/-- The window is handed to the lanes one by one. Once all have it, it is admitted and queued for
hashing. -/
theorem sendLane (h : s.NamesInv sha256) (hinv : EngineInv crc start s.engine)
    (hx : s.engine.Extends crc e s.ids s.ids) {sent : Bool}
    (he : s.engine.step crc config (.sendLane sent) = some e) :
    (s.followSend e).NamesInv sha256 := by
  simp only [Engine.step] at he
  split at he
  · rename_i appends zone todo represented hphase
    cases he
    have hkept :=
      h.kept (Engine.steady_sendLane (by simp [hphase]) appends zone todo represented sent) hx
    simp only [followSend, hphase]
    exact hkept
  · rename_i appends represented hphase
    have hsteady := Engine.steady_admitWindow (by simp [hphase]) he
    have hrun : s.engine.ledger.Running crc start appends true := by
      unfold EngineInv at hinv
      rw [hphase] at hinv
      exact hinv.2
    obtain ⟨segment, hadmits, rfl⟩ := Option.map_eq_some_iff.1 he
    obtain ⟨hadmitted, hstream⟩ := hrun.admitted_window hadmits
    simp only [followSend, hphase]
    refine h.steady hsteady hx _ fun i => ?_
    rw [show Engine.segments _ = Function.update s.engine.segments s.engine.activeSegment
      { s.engine.active with segment := segment } from congrArg WriterView.segments
        (Engine.view_dispatched _ _).1]
    by_cases hi : i = s.engine.activeSegment
    · subst hi
      have hrecords := hrun.streams s.engine.activeSegment
      rw [if_pos ⟨rfl, rfl⟩] at hrecords
      have hlen := congrArg List.length hrecords
      rw [List.length_drop, List.length_map] at hlen
      have hle := (hrun.segments s.engine.activeSegment).commits.admitted_le
      have hqueue := (h.described s.engine.activeSegment).queue hrecords
      rw [List.map_map] at hqueue
      simp only [Function.update_self]
      show AdmittedPrefix.Describes _ segment.stream segment.commits.admitted
      rw [hstream, hadmitted]
      have hall : (s.engine.ledger.segments s.engine.ledger.activeSegment).admittedLen +
          appends.length =
          (s.engine.segments s.engine.activeSegment).segment.stream.length := by
        rw [← hlen]
        exact Nat.add_sub_of_le hle
      rw [hall]
      exact hqueue
    · simp only [Function.update_of_ne hi]
      exact h.described i
  · cases he

end LiveWal.NamesInv

/-! ## Requests, swaps and answers -/

namespace LiveWal

theorem attempt_cases {m : Manifest} {handle : Nat} {sent : Bool} {attempt : ProvisionAttempt}
    (h : s.attempt m handle sent attempt = some s') :
    s'.ids = s.ids ∧ s'.prefixes = s.prefixes ∧ s'.names = s.names ∧
    s'.shutdownSeal = s.shutdownSeal ∧
      ∀ request ∈ s'.requests, request ∈ s.requests ∨ s.foldRequest = some request := by
  cases attempt with
  | registered =>
    cases h
    exact ⟨rfl, rfl, rfl, rfl, fun _ => .inl⟩
  | unregistered =>
    cases h
    exact ⟨rfl, rfl, rfl, rfl, fun _ => .inl⟩
  | fold =>
    simp only [LiveWal.attempt] at h
    split at h
    · cases h
    · rename_i request hrequest
      cases sent with
      | false =>
        cases h
        exact ⟨rfl, rfl, rfl, rfl, fun _ => .inl⟩
      | true =>
        obtain ⟨manifest, -, rfl⟩ := Option.map_eq_some_iff.1 h
        refine ⟨rfl, rfl, rfl, rfl, fun request' hmem => ?_⟩
        rcases List.mem_cons.1 hmem with rfl | hmem
        · exact .inr hrequest
        · exact .inl hmem

theorem followProvision_cases {parts : Except ProtocolError Unit} {sent : Bool}
    (h : s.followProvision e parts sent = some s') :
    s'.engine = e ∧ s'.ids = s.ids ∧ s'.prefixes = s.prefixes ∧ s'.names = s.names ∧
      s'.shutdownSeal = s.shutdownSeal ∧ ∀ request ∈ s'.requests, request ∈ s.requests ∨
        s.foldRequest = some request := by
  have hkept : ({ s with engine := e } : LiveWal n).engine = e ∧ s.ids = s.ids ∧
      s.prefixes = s.prefixes ∧ s.names = s.names ∧ s.shutdownSeal = s.shutdownSeal ∧
        ∀ request ∈ s.requests, request ∈ s.requests ∨ s.foldRequest = some request :=
    ⟨rfl, rfl, rfl, rfl, rfl, fun _ => .inl⟩
  unfold followProvision at h
  split at h
  · split at h
    · split at h
      · obtain ⟨s₁, hs₁, rfl⟩ := Option.map_eq_some_iff.1 h
        have hattempt := attempt_cases hs₁
        exact ⟨rfl, hattempt⟩
      · cases h
        exact hkept
      · cases h
    · cases h
      exact hkept
  · cases h
    exact hkept

namespace NamesInv

theorem foldRequest (h : s.NamesInv sha256) (hlive : LiveInv s fold? since) {request : FoldRequest}
    (hrequest : s.foldRequest = some request) : request.Names sha256 s.engine s.ids := by
  obtain ⟨swap, names, spare, hswap, hnames, -, rfl⟩ := foldRequest_eq_some hrequest
  obtain ⟨names', hnames', hsuccessor, -⟩ := hlive.writer.draining swap hswap
  rw [hnames, Option.some.injEq] at hnames'
  subst hnames'
  exact ⟨h.active_lt, hsuccessor, hsuccessor, fun i hwriter => h.pending swap names i hswap
    hnames hwriter _⟩

theorem provision (h : s.NamesInv sha256) (hlive : LiveInv s fold? since)
    (hphase : s.engine.phase = .provision) {parts : Except ProtocolError Unit} {sent : Bool}
    (hx : s.engine.Extends crc (s.engine.provision parts sent) s.ids s.ids)
    (hs : s.followProvision (s.engine.provision parts sent) parts sent = some s') :
    s'.NamesInv sha256 := by
  obtain ⟨hengine, hids, hprefixes, hnames, hseal, hrequests⟩ := followProvision_cases hs
  have hfrom : s.engine.phase ≠ .stopped := by simp [hphase]
  have hcases := @Engine.provision_cases n crc s.engine hphase parts sent
  rw [← hengine] at hx hcases
  have hx' : s.engine.Extends crc s'.engine s.ids s'.ids := by
    rw [hids]
    exact hx
  have hkept : s.Kept s' := by
    rcases hcases with ⟨hsteady, -⟩ | ⟨-, -, attempt, -, -, -, hview, -⟩
    · obtain ⟨segments, hview, hsettles⟩ := hsteady.view
      exact h.kept_of_view hx.count hprefixes hview hsettles (.inr rfl) rfl
    · exact h.kept_of_view hx.count hprefixes hview (Engine.settles_self crc _) (.inr rfl) rfl
  refine h.move hx' hkept (fun names hsome => hnames ▸ hsome) ?_ (fun hoff => hseal ▸ hoff)
    fun hstopped => absurd hstopped hfrom
  exact fun request hmem => (hrequests request hmem).imp_right fun hnew =>
    (h.foldRequest hlive hnew).extend hx'

/-- What the writer freezes at a swap is what was admitted. -/
theorem swapNames (h : s.NamesInv sha256) {pending : PendingSwap} {successor : Nat}
    (hswap : s.engine.beginSwap = .ok (some (pending, successor)))
    (hadmitted : s.engine.active.admittedLen = s.engine.active.segment.stream.length)
    (hfrozen : e.Frozen s.engine.activeSegment) (hcount : e.segmentCount = s.engine.segmentCount)
    (hsegments : e.segments = s.engine.segments) (refillId : SegmentId) :
    (pendingFoldRequest pending (s.swapNames sha256 successor).1 refillId).Names sha256 e s.ids
      s.engine.activeSegment := by
  obtain ⟨rfl, hne, hcommitted, -⟩ := Engine.beginSwap_eq_ok hswap
  have hdescribed := h.described s.engine.activeSegment
  have hstream : s.engine.active.segment.stream.take s.engine.active.admittedLen =
      s.engine.active.segment.stream := by
    rw [hadmitted, List.take_length]
  refine ⟨hcount ▸ h.active_lt, hfrozen, rfl, ?_, ?_, ?_, ?_, ?_, ?_⟩
  all_goals rw [hsegments]
  · intro hnil
    rw [show s.engine.active.segment.stream = [] from hnil] at hadmitted
    exact hne hadmitted
  · show s.engine.baseRecordIndex + s.engine.active.committedLen - 1 + 1 =
      s.engine.baseRecordIndex + s.engine.active.segment.stream.length
    omega
  · show sha256 (s.prefixes s.engine.activeSegment).hashed = _
    rw [hdescribed.hashed]
    exact congrArg (fun stream => sha256 (streamBytes stream)) hstream
  · exact hdescribed.crc32c
  · exact hadmitted
  · exact hcommitted.symm.trans hadmitted

theorem swap (h : s.NamesInv sha256) (hinv : EngineInv crc start s.engine)
    (hphase : s.engine.phase = .swap) (hdue : s.engine.rotation = .due)
    (hx : s.engine.Extends crc s.engine.swap s.ids s.ids) :
    (s.followSwap sha256 s.engine.swap).NamesInv sha256 := by
  have hfrom : s.engine.phase ≠ .stopped := by simp [hphase]
  have hrun := hinv.free (congrArg Phase.free hphase)
  have hoff : s.shutdownSeal = .off := by
    by_contra hne
    exact hfrom (h.quiescent hne).1
  rcases @Engine.swap_cases n crc s.engine hphase hdue with ⟨hsteady, hnone⟩ |
    ⟨pending, successor, hswap, -, hview⟩
  · unfold followSwap
    split
    · rename_i pending successor hswap
      exact absurd hswap (hnone pending successor)
    · exact h.kept hsteady hx
  · obtain ⟨hpending, -, -, hspare⟩ := Engine.beginSwap_eq_ok hswap
    have hswap' : s.engine.swap.rotation.swap? = some pending := congrArg WriterView.swap hview
    have hspare' : s.engine.swap.spare = none := congrArg WriterView.spare hview
    have hactive' : s.engine.swap.activeSegment = successor := congrArg WriterView.active hview
    have hcount' : s.engine.swap.segmentCount = s.engine.segmentCount :=
      congrArg WriterView.count hview
    have hsegments' : s.engine.swap.segments = s.engine.segments :=
      congrArg WriterView.segments hview
    obtain ⟨-, hgt, -⟩ := hrun.spare successor (Engine.beginSwap_eq_some hswap).2
    have hfrozen : s.engine.swap.Frozen s.engine.activeSegment := .inl (hactive' ▸ hgt)
    rw [followSwap_eq hswap]
    refine ⟨?_, ?_, fun i => ?_, ?_, fun request hmem => (h.requests request hmem).extend hx, ?_⟩
    · show s.engine.swap.activeSegment < s.engine.swap.segmentCount
      rw [hactive', hcount']
      exact h.spare_lt _ hspare
    · intro spare hsome
      rw [show s.engine.swap.spare = none from hspare'] at hsome
      cases hsome
    · simp only [hsegments']
      by_cases hi : i = s.engine.activeSegment
      · subst hi
        rw [Function.update_self]
        exact (h.described _).takeDigest sha256
      · rw [Function.update_of_ne hi]
        exact h.described i
    · intro swap names i hsome hnames hwriter refillId
      rw [show s.engine.swap.rotation.swap? = some pending from hswap', Option.some.injEq] at hsome
      subst hsome
      cases hnames
      rw [hpending, Option.some.injEq] at hwriter
      subst hwriter
      exact h.swapNames hswap (hrun.admitted_eq _) hfrozen hcount' hsegments' refillId
    · exact fun hne => absurd hoff hne

end NamesInv

theorem followProvisioned_cases {outcome : ProvisionOutcome n}
    (h : s.followProvisioned e outcome = some s') :
    s'.engine = e ∧ (∀ k < s.engine.segmentCount, s'.ids k = s.ids k) ∧ s'.prefixes = s.prefixes ∧
      (∀ names, s'.names = some names → s.names = some names) ∧ s'.requests = s.requests ∧
      s'.shutdownSeal = s.shutdownSeal := by
  have hids : ∀ id, ∀ k < s.engine.segmentCount,
      Function.update s.ids s.engine.segmentCount id k = s.ids k :=
    fun id k hk => Function.update_of_ne (Nat.ne_of_lt hk) _ _
  unfold followProvisioned at h
  split at h
  · simp only [LiveWal.installUpdate, Option.map_map, Option.map_eq_some_iff] at h
    obtain ⟨manifest, -, rfl⟩ := h
    exact ⟨rfl, hids _, rfl, fun _ => id, rfl, rfl⟩
  · cases h
    exact ⟨rfl, hids _, rfl, fun _ => id, rfl, rfl⟩
  · simp only [LiveWal.installUpdate, Option.map_map, Option.map_eq_some_iff] at h
    obtain ⟨manifest, -, rfl⟩ := h
    exact ⟨rfl, fun _ _ => rfl, rfl, fun _ hnone => (by cases hnone), rfl, rfl⟩
  · cases h
    exact ⟨rfl, fun _ _ => rfl, rfl, fun _ => id, rfl, rfl⟩
  · split_ifs at h
    cases h
    exact ⟨rfl, fun _ _ => rfl, rfl, fun _ => id, rfl, rfl⟩
  · cases h
    exact ⟨rfl, fun _ _ => rfl, rfl, fun _ => id, rfl, rfl⟩
  · cases h

/-- The work of the register, of the provisioning worker and of the end of the log leaves the
engine, its names and its requests alone. -/
theorem unchanged_of_step {action : LiveWal.Action n}
    (hs : s.step crc sha256 config action = some s') (hengine : ∀ act, action ≠ .engine act)
    (hhash : ∀ i, action ≠ .hash i) (hfold : action ≠ .sealFold) :
    s'.engine = s.engine ∧ s'.ids = s.ids ∧ s'.prefixes = s.prefixes ∧ s'.names = s.names ∧
      s'.requests = s.requests ∧ (s'.shutdownSeal ≠ .off → s.shutdownSeal ≠ .off) := by
  cases action with
  | engine act => exact absurd rfl (hengine act)
  | hash i => exact absurd rfl (hhash i)
  | sealFold => exact absurd rfl hfold
  | refresh =>
    simp only [LiveWal.step] at hs
    split at hs
    · split_ifs at hs
      obtain ⟨manifest, -, rfl⟩ := Option.map_eq_some_iff.1 hs
      exact ⟨rfl, rfl, rfl, rfl, rfl, id⟩
    · cases hs
  | register =>
    simp only [LiveWal.step] at hs
    split at hs
    · obtain ⟨manifest, -, rfl⟩ := Option.map_eq_some_iff.1 hs
      exact ⟨rfl, rfl, rfl, rfl, rfl, id⟩
    · cases hs
  | finishWork =>
    simp only [LiveWal.step, LiveWal.finishWork] at hs
    split at hs
    · obtain ⟨manifest, -, hs⟩ := Option.bind_eq_some_iff.1 hs
      split at hs <;> cases hs
      exact ⟨rfl, rfl, rfl, rfl, rfl, id⟩
    · obtain ⟨manifest, -, hs⟩ := Option.bind_eq_some_iff.1 hs
      split at hs <;> cases hs
      exact ⟨rfl, rfl, rfl, rfl, rfl, id⟩
    · cases hs
  | sealRefill =>
    simp only [LiveWal.step, LiveWal.sealRefill] at hs
    split at hs
    · rename_i hseal _
      split_ifs at hs
      obtain ⟨manifest, -, rfl⟩ := Option.map_eq_some_iff.1 hs
      exact ⟨rfl, rfl, rfl, rfl, rfl, fun _ => by simp [hseal]⟩
    · cases hs
  | finishSeal =>
    simp only [LiveWal.step, LiveWal.finishSeal] at hs
    split at hs
    · rename_i hseal
      obtain ⟨manifest, -, hs⟩ := Option.bind_eq_some_iff.1 hs
      split at hs <;> cases hs
      exact ⟨rfl, rfl, rfl, rfl, rfl, fun _ => by simp [hseal]⟩
    · cases hs
  | manifest action =>
    obtain ⟨-, hs⟩ := Option.ite_none_right_eq_some.1 hs
    obtain ⟨manifest, -, rfl⟩ := Option.map_eq_some_iff.1 hs
    exact ⟨rfl, rfl, rfl, rfl, rfl, id⟩

namespace NamesInv

/-- A segment that is added is empty, as is what was written to its number. -/
theorem described_create (h : s.NamesInv sha256) (hrun : s.engine.ledger.Running crc start [] false)
    (zones : Fin n → ZoneStart) (i : Nat) :
    (s.prefixes i).Describes
      (Function.update s.engine.segments s.engine.segmentCount (.create zones) i).segment.stream
      (Function.update s.engine.segments s.engine.segmentCount (.create zones) i).admittedLen := by
  by_cases hi : i = s.engine.segmentCount
  · subst hi
    have hempty : (s.engine.segments s.engine.segmentCount).segment.stream = [] :=
      hrun.fresh _ hrun.active_lt
    have hadmitted : (s.engine.segments s.engine.segmentCount).admittedLen = 0 := by
      have heq := hrun.admitted_eq s.engine.segmentCount
      rw [show (s.engine.ledger.segments s.engine.segmentCount).segment.stream = [] from
        hempty] at heq
      exact heq
    have hdescribed := h.described s.engine.segmentCount
    rw [hempty, hadmitted] at hdescribed
    rw [Function.update_self]
    exact hdescribed
  · rw [Function.update_of_ne hi]
    exact h.described i

theorem provisioned (h : s.NamesInv sha256) (hrun : s.engine.ledger.Running crc start [] false)
    (hfrom : s.engine.phase ≠ .stopped) {outcome : ProvisionOutcome n}
    (hanswered : Engine.Answered crc s.engine e outcome) (hx : s.engine.Extends crc e s.ids s'.ids)
    (hs : s.followProvisioned e outcome = some s') : s'.NamesInv sha256 := by
  obtain ⟨rfl, -, hprefixes, hnames, hrequests, hseal⟩ := followProvisioned_cases hs
  have hsame : s'.engine.view = { s.engine.view with requested := none } → s.Kept s' := fun hview =>
    h.kept_of_view hx.count hprefixes hview (Engine.settles_self crc _) (.inr rfl) rfl
  have hadded : ∀ zones registered, s'.engine.view = { s.engine.view with
      spare := some ⟨s.engine.segmentCount, registered⟩
      requested := none
      count := s.engine.segmentCount + 1
      segments := Function.update s.engine.segments s.engine.segmentCount (.create zones) } →
      s.Kept s' := by
    intro zones registered hview
    have hsegments : s'.engine.segments = _ := congrArg WriterView.segments hview
    have hspare : s'.engine.spare = _ := congrArg WriterView.spare hview
    have hcount : s'.engine.segmentCount = s.engine.segmentCount + 1 :=
      congrArg WriterView.count hview
    have hswap : s'.engine.rotation.swap? = s.engine.rotation.swap? :=
      congrArg WriterView.swap hview
    refine ⟨congrArg WriterView.active hview, fun spare hsome => ?_, fun i => ?_,
      fun swap hsome => hswap ▸ hsome⟩
    · rw [hspare, Option.some.injEq] at hsome
      rw [← hsome, hcount]
      exact Nat.lt_succ_self _
    · rw [hprefixes, hsegments]
      exact h.described_create hrun zones i
  have hkept : s.Kept s' := by
    cases hanswered with
    | registered _ hview _ => exact hadded _ _ hview
    | adopted _ hview _ => exact hadded _ _ hview
    | folded _ _ hspare hview hsettles _ =>
      exact h.kept_of_view hx.count hprefixes hview hsettles (.inl rfl) (by rw [hspare]; rfl)
    | stray _ hview _ => exact hsame hview
    | failed hview _ => exact hsame hview
    | stopped hview _ => exact hsame hview
  refine h.move hx hkept hnames ?_ (fun hoff => hseal ▸ hoff) fun hstopped => absurd hstopped hfrom
  exact fun request hmem => .inl (hrequests ▸ hmem)

theorem sealing (h : s.NamesInv sha256) (hrun : s.engine.ledger.Running crc start [] false)
    (hsteady : Engine.Steady crc false s.engine e) (hstopped : e.phase = .stopped)
    (hx : s.engine.Extends crc e s.ids s.ids) :
    ({ s with engine := e, shutdownSeal := .ready } : LiveWal n).NamesInv sha256 := by
  have hkept := h.kept hsteady hx
  refine ⟨hkept.active_lt, hkept.spare_lt, hkept.described, hkept.pending, hkept.requests,
    fun _ => ⟨hstopped, ?_⟩⟩
  obtain ⟨segments, hview, -⟩ := hsteady.view
  have hactive : e.activeSegment = s.engine.activeSegment := congrArg WriterView.active hview
  have hadvances := hsteady.advances s.engine.activeSegment
  show (e.segments e.activeSegment).admittedLen =
    (e.segments e.activeSegment).segment.stream.length
  rw [hactive, hadvances.admitted, hadvances.stream]
  exact hrun.admitted_eq s.engine.activeSegment

theorem congr (h : s.NamesInv sha256) (hengine : s'.engine = s.engine) (hids : s'.ids = s.ids)
    (hprefixes : s'.prefixes = s.prefixes) (hnames : s'.names = s.names)
    (hrequests : s'.requests = s.requests)
    (hseal : s'.shutdownSeal ≠ .off → s.shutdownSeal ≠ .off) : s'.NamesInv sha256 := by
  refine ⟨?_, ?_, ?_, ?_, ?_, fun hoff => ?_⟩
  · rw [hengine]
    exact h.active_lt
  · rw [hengine]
    exact h.spare_lt
  · rw [hengine, hprefixes]
    exact h.described
  · rw [hengine, hids, hnames]
    exact h.pending
  · rw [hengine, hids, hrequests]
    exact h.requests
  · rw [hengine]
    exact h.quiescent (hseal hoff)

theorem follow (h : s.NamesInv sha256) (hlive : LiveInv s fold? since)
    (hinv : EngineInv crc start s.engine)
    (hx : ∀ ids, (∀ k < s.engine.segmentCount, ids k = s.ids k) → s.engine.Extends crc e s.ids ids)
    (hs : s.Follows crc config sha256 e s') : s'.NamesInv sha256 := by
  have hsame := hx s.ids fun _ _ => rfl
  cases hs with
  | kept hsteady => exact h.kept hsteady hsame
  | rechecked hsteady => exact (h.kept hsteady hsame).congr rfl rfl rfl rfl rfl id
  | sealing hphase hsteady hstopped =>
    exact h.sealing (hinv.free (congrArg Phase.free hphase)) hsteady hstopped hsame
  | reserved _ he hs => exact hs ▸ h.reserveLane hinv hsame he
  | sent _ he hs => exact hs ▸ h.sendLane hinv hsame he
  | provision hphase he hs =>
    subst he
    exact h.provision hlive hphase hsame hs
  | swap hphase he =>
    subst he
    exact h.swap hinv hphase (hlive.writer.swapping hphase) hsame
  | provisioned hphase hanswered hs =>
    have hrun := hinv.free (congrArg Phase.free hphase)
    exact h.provisioned hrun (by simp [hphase]) hanswered (hx _ (followProvisioned_cases hs).2.1) hs

theorem sealFold (h : s.NamesInv sha256) (hs : s.sealFold sha256 = some s') :
    s'.NamesInv sha256 := by
  unfold LiveWal.sealFold at hs
  split at hs
  · rename_i refillId handle hseal
    have hoff : s.shutdownSeal ≠ .off := by
      rw [hseal]
      intro hoff
      cases hoff
    split at hs
    · rename_i pending successor hswap
      obtain ⟨manifest, -, rfl⟩ := Option.map_eq_some_iff.1 hs
      obtain ⟨hstopped, hadmitted⟩ := h.quiescent hoff
      obtain ⟨hpending, -, -, hspare⟩ := Engine.beginSwap_eq_ok hswap
      have hnames :=
        fun refillId => h.swapNames hswap hadmitted (.inr ⟨rfl, hstopped⟩) rfl rfl refillId
      refine ⟨h.active_lt, h.spare_lt, fun i => ?_, h.pending, fun request hmem => ?_,
        fun _ => h.quiescent hoff⟩
      · by_cases hi : i = s.engine.activeSegment
        · subst hi
          simp only [Function.update_self]
          exact (h.described _).takeDigest sha256
        · simp only [Function.update_of_ne hi]
          exact h.described i
      · rcases List.mem_cons.1 hmem with rfl | hmem
        · refine ⟨h.spare_lt _ hspare, rfl, rfl, fun i hwriter => ?_⟩
          rw [hpending, Option.some.injEq] at hwriter
          subst hwriter
          exact hnames refillId
        · exact h.requests request hmem
    · cases hs
      exact h.congr rfl rfl rfl rfl rfl fun _ => hoff
  · cases hs

theorem step (h : s.NamesInv sha256) (hlive : LiveInv s fold? since)
    (hinv : EngineInv crc start s.engine) {action : LiveWal.Action n}
    (hs : s.step crc sha256 config action = some s') : s'.NamesInv sha256 := by
  cases action with
  | engine action =>
    obtain ⟨e, he, hfollow⟩ := Option.bind_eq_some_iff.1 hs
    exact h.follow hlive hinv (fun _ => .of_step hinv he) (.of_step he hfollow)
  | hash i =>
    cases hs
    refine ⟨h.active_lt, h.spare_lt, fun k => ?_, h.pending, h.requests, h.quiescent⟩
    by_cases hk : k = i
    · subst hk
      simp only [Function.update_self]
      exact (h.described k).hashNext
    · simp only [Function.update_of_ne hk]
      exact h.described k
  | sealFold => exact h.sealFold hs
  | _ =>
    obtain ⟨hengine, hids, hprefixes, hnames, hrequests, hseal⟩ :=
      unchanged_of_step hs (by simp) (by simp) (by simp)
    exact h.congr hengine hids hprefixes hnames hrequests hseal

end NamesInv

end LiveWal

end Chorus
