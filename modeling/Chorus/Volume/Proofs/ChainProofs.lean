import Chorus.Concurrency.Proofs.Failing
import Chorus.Manifest.Proofs.RetentionProofs
import Chorus.Volume.Proofs.CatalogProofs
import Chorus.Volume.Replay

/-!
# The sealed chain

Recovery replays a chain of sealed segments without gap or overlap (`Contiguous`). The live part of
a sound directory is one that starts at or below the floor and ends at the tail
(`chainFrom_contiguous`); adopting it keeps every range and checksum (`adoptChain_returns`), and a
scan returns the requested records in order (`scanSealedRange_returns`).
-/

namespace Chorus

open Concurrency ManifestRecord RecordFrame

/-- The segments follow one another without gap or overlap from `start` to before `stop`. -/
def Contiguous : Nat → List SegmentDescriptor → Nat → Prop
  | start, [], stop => start = stop
  | start, segment :: rest, stop => segment.baseRecordIndex = start ∧
      segment.baseRecordIndex ≤ segment.endRecordIndex ∧
      Contiguous (segment.endRecordIndex + 1) rest stop

/-- The segment holds the record with index `i`. -/
def SegmentDescriptor.Covers (segment : SegmentDescriptor) (i : Nat) : Prop :=
  segment.baseRecordIndex ≤ i ∧ i ≤ segment.endRecordIndex

namespace Contiguous

variable {start middle stop : Nat} {segments more : List SegmentDescriptor}

theorem append (h : Contiguous start segments middle) (h' : Contiguous middle more stop) :
    Contiguous start (segments ++ more) stop := by
  induction segments generalizing start with
  | nil =>
    cases h
    exact h'
  | cons segment rest ih => exact ⟨h.1, h.2.1, ih h.2.2⟩

theorem le (h : Contiguous start segments stop) : start ≤ stop := by
  induction segments generalizing start with
  | nil => exact Nat.le_of_eq h
  | cons segment rest ih =>
    obtain ⟨hbase, hend, hrest⟩ := h
    have hle := ih hrest
    omega

theorem bounds (h : Contiguous start segments stop) {segment : SegmentDescriptor}
    (hmem : segment ∈ segments) : start ≤ segment.baseRecordIndex ∧
      segment.baseRecordIndex ≤ segment.endRecordIndex ∧ segment.endRecordIndex < stop := by
  induction segments generalizing start with
  | nil => cases hmem
  | cons first rest ih =>
    obtain ⟨hbase, hend, hrest⟩ := h
    rcases List.mem_cons.1 hmem with rfl | hmem
    · have hle := hrest.le
      omega
    · obtain ⟨hstart, hspan, hstop⟩ := ih hrest hmem
      omega

theorem covers_unique (h : Contiguous start segments stop) {segment other : SegmentDescriptor}
    {i : Nat} (hmem : segment ∈ segments) (hmem' : other ∈ segments) (hi : segment.Covers i)
    (hi' : other.Covers i) : other = segment := by
  induction segments generalizing start with
  | nil => cases hmem
  | cons first rest ih =>
    obtain ⟨-, -, hrest⟩ := h
    rcases List.mem_cons.1 hmem with hfirst | hmem
    · rcases List.mem_cons.1 hmem' with hfirst' | hmem'
      · exact hfirst'.trans hfirst.symm
      · have hlow := (hrest.bounds hmem').1
        subst hfirst
        exact absurd hi.2 (by have := hi'.1; omega)
    · have hlow := (hrest.bounds hmem).1
      rcases List.mem_cons.1 hmem' with hfirst' | hmem'
      · subst hfirst'
        exact absurd hi'.2 (by have := hi.1; omega)
      · exact ih hrest hmem hmem'

/-- Leaving out the segments that end below a floor leaves a chain that starts where the whole chain
starts or at or below the floor. -/
theorem filter_floor (h : Contiguous start segments stop) (floor : Nat) :
    ∃ first, (first = start ∨ first ≤ floor) ∧
      Contiguous first (segments.filter fun segment => floor ≤ segment.endRecordIndex) stop := by
  induction segments generalizing start with
  | nil => exact ⟨start, Or.inl rfl, h⟩
  | cons segment rest ih =>
    obtain ⟨hbase, hend, hrest⟩ := h
    by_cases hfloor : floor ≤ segment.endRecordIndex
    · -- ends increase along the chain, so everything that follows is kept as well
      have hall : ∀ other ∈ segment :: rest, decide (floor ≤ other.endRecordIndex) = true := by
        intro other hother
        have hkept : floor ≤ other.endRecordIndex := by
          rcases List.mem_cons.1 hother with rfl | hother
          · exact hfloor
          · obtain ⟨hlow, hspan, -⟩ := hrest.bounds hother
            omega
        exact decide_eq_true hkept
      rw [List.filter_eq_self.2 hall]
      exact ⟨start, Or.inl rfl, hbase, hend, hrest⟩
    · obtain ⟨first, hfirst, hchain⟩ := ih hrest
      rw [List.filter_cons_of_neg (by simpa using hfloor)]
      refine ⟨first, Or.inr ?_, hchain⟩
      rcases hfirst with rfl | hfirst
      · omega
      · exact hfirst

end Contiguous

/-! ## The directory as a chain -/

/-- The descriptor of a directory entry with its derived end. -/
def rangeDescriptor (range : DirectoryEntry × Nat) : SegmentDescriptor :=
  ⟨range.1.id, range.1.base, range.2, range.1.crc32c, false⟩

namespace Volume

/-- An accepted directory is a contiguous chain up to the tail, and its live part is returned. -/
theorem chainFrom_eq_ok {tailBase floor : Nat} {segments : List DirectoryEntry}
    {chain : List (DirectoryEntry × Nat)} (h : chainFrom tailBase floor segments = .ok chain) :
    Contiguous (nextBase tailBase segments) ((rangesFrom tailBase segments).map rangeDescriptor)
        tailBase ∧
      chain = (rangesFrom tailBase segments).filter fun range => floor ≤ range.2 := by
  induction segments generalizing chain with
  | nil =>
    cases h
    exact ⟨rfl, rfl⟩
  | cons entry rest ih =>
    simp only [chainFrom, bind_eq_ok, failIf_eq_ok, exists_const] at h
    obtain ⟨hzero, hoverlap, kept, hkept, hchain⟩ := h
    obtain ⟨hcontiguous, rfl⟩ := ih hkept
    change ¬ nextBase tailBase rest = 0 at hzero
    change ¬ nextBase tailBase rest - 1 < entry.base at hoverlap
    change Except.ok (if nextBase tailBase rest - 1 < floor then _ else _) = _ at hchain
    rw [rangesFrom_cons]
    constructor
    · refine ⟨rfl, Nat.le_of_not_lt hoverlap, ?_⟩
      have hnext : nextBase tailBase rest - 1 + 1 = nextBase tailBase rest := by omega
      simpa only [rangeDescriptor, hnext] using hcontiguous
    · cases hchain
      by_cases hfloor : nextBase tailBase rest - 1 < floor
      · rw [if_pos hfloor, List.filter_cons_of_neg (by simpa using hfloor)]
      · rw [if_neg hfloor, List.filter_cons_of_pos (by simpa using hfloor)]
        rfl

/-- The live part of a sound directory covers the floor, unless the floor has reached the tail. -/
theorem chainFrom_contiguous {r : ManifestRecord} (hr : r.Sound)
    {chain : List (DirectoryEntry × Nat)}
    (h : chainFrom r.tailBase r.trunc r.segments = .ok chain) : chain = r.liveRanges ∧
      ∃ first ≤ r.trunc, Contiguous first (chain.map rangeDescriptor) r.tailBase := by
  obtain ⟨hcontiguous, rfl⟩ := chainFrom_eq_ok h
  obtain ⟨first, hfirst, hlive⟩ := hcontiguous.filter_floor r.trunc
  rw [List.filter_map] at hlive
  refine ⟨rfl, first, ?_, hlive⟩
  rcases hfirst with rfl | hfirst
  · by_cases hfloor : r.trunc < r.tailBase
    · obtain ⟨entry, hentry, hbase⟩ := hr.covered hfloor
      have hhead : nextBase r.tailBase r.segments ≤ entry.base := by
        have hinc := hr.basesIncrease
        cases hsegments : r.segments with
        | nil => simp [hsegments] at hentry
        | cons head rest =>
          rw [hsegments] at hentry hinc
          rcases List.mem_cons.1 hentry with rfl | hentry
          · exact Nat.le_refl _
          · exact Nat.le_of_lt ((List.pairwise_cons.1 hinc).1 entry hentry)
      exact Nat.le_trans hhead hbase
    · have hle := hlive.le
      omega
  · exact hfirst

end Volume

/-! ## Adopting the chain -/

section Adopt

variable {n : Nat} {crc : Bytes → Nat} {digest : Bytes → String}

/-- A sealed segment as it was asked for. -/
def SegmentDescriptor.IsSealOf (id : SegmentId) (base crc32c : Nat) (segment : SegmentDescriptor) :
    Prop :=
  segment = ⟨id, base, segment.endRecordIndex, crc32c, false⟩

theorem sealedDescriptor_isSealOf {id : SegmentId} {base records crc32c : Nat}
    {empty : CatalogFault} {segment : SegmentDescriptor}
    (h : sealedDescriptor id base records crc32c empty = .ok segment) :
    segment.IsSealOf id base crc32c := by
  unfold sealedDescriptor at h
  split_ifs at h
  split at h
  · cases h
  · cases h
    rfl

theorem finalizedSegmentDescriptor_returns {id : SegmentId} {base expectedCrc32c : Nat}
    {expectedRecords : Option Nat} {expectedDigest : Option String} :
    (finalizedSegmentDescriptor crc digest id base expectedRecords expectedDigest expectedCrc32c :
      ReplicaProg n _).Returns
      (IfOk fun found => ∀ segment, found = some segment →
        segment.IsSealOf id base expectedCrc32c) := by
  have hfound : ∀ {records : Nat} {empty : CatalogFault} {found : Option SegmentDescriptor},
      (sealedDescriptor id base records expectedCrc32c empty).map some = .ok found →
        ∀ segment, found = some segment → segment.IsSealOf id base expectedCrc32c := by
    intro records empty found hfound segment hsegment
    cases hdescriptor : sealedDescriptor id base records expectedCrc32c empty with
    | error error =>
      rw [hdescriptor] at hfound
      cases hfound
    | ok sealed =>
      rw [hdescriptor] at hfound
      cases hfound
      cases hsegment
      exact sealedDescriptor_isSealOf hdescriptor
  have hnone : ∀ segment, (none : Option SegmentDescriptor) = some segment →
      segment.IsSealOf id base expectedCrc32c := fun segment hsegment => by cases hsegment
  unfold finalizedSegmentDescriptor
  extract_lets fromBytes
  have hbytes : fromBytes.Returns (IfOk fun found => ∀ segment, found = some segment →
      segment.IsSealOf id base expectedCrc32c) := by
    intro reads
    simp only [Prog.bind]
    split_ifs
    · exact hnone
    · split
      · exact hnone
      · refine IfOk.intro fun found h => ?_
        simp only [bind_eq_ok, failIf_eq_ok, exists_const] at h
        exact hfound h.2.2.2
  cases expectedRecords with
  | none => exact hbytes
  | some expected =>
    intro stats
    simp only [Prog.bind]
    split_ifs
    · exact IfOk.intro fun found h => hfound h
    · exact hbytes

theorem enforceCommittedSeal_returns {config : ClientConfig} {id : SegmentId}
    {base committedEnd expectedCrc32c : Nat} {expectedDigest : Option String} :
    (enforceCommittedSeal crc digest config id base committedEnd expectedDigest expectedCrc32c :
      ReplicaProg n _).Returns
      (IfOk fun segment => segment = ⟨id, base, committedEnd, expectedCrc32c, false⟩) := by
  unfold enforceCommittedSeal
  split_ifs
  · trivial
  · refine Prog.Returns.bind (Prog.returns_true _) fun recovered _ => ?_
    cases recovered with
    | error error => trivial
    | ok recovered =>
      simp only
      split
      · trivial
      · split
        · trivial
        · split
          · trivial
          · refine Prog.Returns.bind (Prog.returns_true _) fun enforced _ => ?_
            cases enforced with
            | error error => trivial
            | ok _ => rfl

/-- Finishing a committed seal returns the committed range and checksum. -/
theorem recoverAndSealSegment_returns {config : ClientConfig} {id : SegmentId}
    {base committedEnd expectedCrc32c : Nat} {canonicalRecords : Option Nat}
    {expectedDigest : Option String} :
    (recoverAndSealSegment crc digest config id base committedEnd canonicalRecords expectedDigest
      expectedCrc32c : ReplicaProg n _).Returns
      (IfOk fun segment => segment = ⟨id, base, committedEnd, expectedCrc32c, false⟩) := by
  refine Prog.Returns.bind finalizedSegmentDescriptor_returns fun found hfound => ?_
  rcases found with error | completed
  · trivial
  · cases completed with
    | none => exact enforceCommittedSeal_returns
    | some completed =>
      refine IfOk.intro fun segment hsegment => ?_
      split_ifs at hsegment with hend
      cases hsegment
      have hseal := hfound completed rfl
      rw [hseal, not_not.1 hend]

theorem Volume.adoptChain_returns {config : VolumeConfig} {adopted : ManifestRecord}
    {chain : List (DirectoryEntry × Nat)} :
    (Volume.adoptChain crc digest config adopted chain : VolumeM n _).run.Returns
      (IfOk fun segments => segments = chain.map rangeDescriptor) := by
  induction chain with
  | nil => rfl
  | cons range rest ih =>
    obtain ⟨entry, segmentEnd⟩ := range
    have hcons : ∀ segment, segment = rangeDescriptor (entry, segmentEnd) →
        ((do
          let segments ← Volume.adoptChain crc digest config adopted rest
          pure (segment :: segments) : VolumeM n (List SegmentDescriptor))).run.Returns
          (IfOk fun segments => segments = ((entry, segmentEnd) :: rest).map rangeDescriptor) := by
      intro segment hsegment
      refine Prog.Returns.bindOk ih fun segments hsegments => ?_
      rw [hsegment, hsegments]
      rfl
    rw [Volume.adoptChain]
    by_cases hseal : adopted.sealId = some entry.id
    · rw [if_pos hseal]
      exact Prog.Returns.bindOk (Prog.Returns.lift recoverAndSealSegment_returns) hcons
    · rw [if_neg hseal]
      exact hcons _ rfl

end Adopt

/-! ## Scanning the chain -/

section Scan

variable {n : Nat} {crc : Bytes → Nat} {reads : List (SegmentId × Bytes)}

/-- The record stands at its index in a content that was read for the segment, with the segment's
checksum and record count. -/
def SegmentDescriptor.Holds (crc : Bytes → Nat) (reads : List (SegmentId × Bytes))
    (segment : SegmentDescriptor) (record : Nat × RecordFrame) : Prop :=
  segment.Covers record.1 ∧ ∃ data frames, (segment.id, data) ∈ reads ∧
    crc data = segment.crc32c ∧ decodeAll data = .ok frames ∧
    frames.length = segment.endRecordIndex - segment.baseRecordIndex + 1 ∧
    frames[record.1 - segment.baseRecordIndex]? = some record.2

/-- The indices of `[first, first + count)` that a scan of `[start, stop)` asks for. -/
def requested (start stop first count : Nat) : List Nat :=
  (List.range' first count).filter fun i => start ≤ i ∧ i < stop

theorem map_fst_replayRecords (segment : SegmentDescriptor) (frames : List RecordFrame)
    (start stop : Nat) : (replayRecords segment frames start stop).map Prod.fst =
      requested start stop segment.baseRecordIndex frames.length := by
  have hindices : (frames.mapIdx fun offset frame => (segment.baseRecordIndex + offset, frame)).map
      Prod.fst = List.range' segment.baseRecordIndex frames.length :=
    List.ext_getElem (by simp) fun i _ _ => by simp
  rw [requested, ← hindices, List.filter_map]
  rfl

theorem getElem?_of_mem_replayRecords {segment : SegmentDescriptor} {frames : List RecordFrame}
    {start stop : Nat} {record : Nat × RecordFrame}
    (h : record ∈ replayRecords segment frames start stop) :
    segment.baseRecordIndex ≤ record.1 ∧
      frames[record.1 - segment.baseRecordIndex]? = some record.2 := by
  have hmem := List.mem_of_mem_filter h
  obtain ⟨offset, hoffset, rfl⟩ := List.mem_mapIdx.1 hmem
  simp [List.getElem?_eq_getElem hoffset]

theorem requested_append {start stop first count more : Nat} :
    requested start stop first (count + more) =
      requested start stop first count ++ requested start stop (first + count) more := by
  rw [requested, requested, requested, ← List.filter_append]
  congr 1
  exact (List.range'_append_1 ..).symm

theorem requested_eq_nil {start stop first count : Nat} (h : first + count ≤ start ∨ stop ≤ first) :
    requested start stop first count = [] := by
  refine List.filter_eq_nil_iff.2 fun i hi => ?_
  have hrange := List.mem_range'_1.1 hi
  simp only [decide_eq_true_eq, not_and]
  omega

/-- A chain that starts at or below the requested range and ends with it has every index. -/
theorem requested_eq_range' {start stop first : Nat} (hfirst : first ≤ start)
    (hstop : start ≤ stop) :
    requested start stop first (stop - first) = List.range' start (stop - start) := by
  have hlength : stop - first = (start - first) + (stop - start) := by omega
  have hbelow : requested start stop first (start - first) = [] := requested_eq_nil (by omega)
  rw [hlength, requested_append, hbelow, List.nil_append, Nat.add_sub_cancel' hfirst]
  refine List.filter_eq_self.2 fun i hi => ?_
  have hrange := List.mem_range'_1.1 hi
  simp only [decide_eq_true_eq]
  omega

/-- A scan of a contiguous chain returns the requested records in order, each out of a content that
was read for the segment that covers it and has its checksum. -/
theorem Volume.scanSealedRange_returns {start stop first last : Nat}
    {segments : List SegmentDescriptor} (h : Contiguous first segments last) :
    (Volume.scanSealedRange crc start stop segments : VolumeM n _).run.ReturnsGiven
      (fun op answer => op.contents answer ⊆ reads)
      (IfOk fun records => records.map Prod.fst = requested start stop first (last - first) ∧
        ∀ record ∈ records, ∃ segment ∈ segments, segment.Holds crc reads record) := by
  induction segments generalizing first with
  | nil =>
    cases h
    refine ⟨?_, fun record hrecord => by cases hrecord⟩
    simp [requested]
  | cons segment rest ih =>
    obtain ⟨rfl, hend, hrest⟩ := h
    -- the indices of the first segment and those of the rest
    have hlast := hrest.le
    have hcount : last - segment.baseRecordIndex =
        (segment.endRecordIndex - segment.baseRecordIndex + 1) +
          (last - (segment.endRecordIndex + 1)) := by
      omega
    have hnext : segment.baseRecordIndex +
        (segment.endRecordIndex - segment.baseRecordIndex + 1) = segment.endRecordIndex + 1 := by
      omega
    rw [hcount, requested_append, hnext, Volume.scanSealedRange]
    by_cases hskip : segment.endRecordIndex < start ∨ stop ≤ segment.baseRecordIndex
    · rw [if_pos hskip, requested_eq_nil (by omega), List.nil_append]
      refine (ih hrest).mono fun _ => IfOk.mono fun records hrecords =>
        ⟨hrecords.1, fun record hrecord => ?_⟩
      obtain ⟨other, hother, hholds⟩ := hrecords.2 record hrecord
      exact ⟨other, List.mem_cons_of_mem _ hother, hholds⟩
    · rw [if_neg hskip]
      have hread := readSealedSegment_returns (n := n) crc segment
        (fun bytes => (segment.id, bytes) ∈ reads) false
      refine Prog.ReturnsGiven.bindOk
        (hread.lift (B := fun op answer => VolumeOp.contents op answer ⊆ reads)
          fun op answer hanswer bytes hbytes => hanswer (List.mem_map_of_mem hbytes))
        fun frames hframes => ?_
      refine Prog.ReturnsGiven.bindOk (ih hrest) fun records hrecords => ?_
      obtain ⟨data, hdata, hcrc, hdecode, hlength⟩ := hframes
      constructor
      · rw [List.map_append, map_fst_replayRecords, hrecords.1, hlength]
      · intro record hrecord
        rcases List.mem_append.1 hrecord with hrecord | hrecord
        · obtain ⟨hbase, hframe⟩ := getElem?_of_mem_replayRecords hrecord
          have hlt := (List.getElem?_eq_some_iff.1 hframe).1
          refine ⟨segment, List.mem_cons_self, ⟨hbase, by omega⟩, data, frames, hdata,
            hcrc, hdecode, hlength, hframe⟩
        · obtain ⟨other, hother, hholds⟩ := hrecords.2 record hrecord
          exact ⟨other, List.mem_cons_of_mem _ hother, hholds⟩

end Scan

end Chorus
