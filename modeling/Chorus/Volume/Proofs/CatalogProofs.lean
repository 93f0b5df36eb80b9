import Chorus.Concurrency.Proofs.Failing
import Chorus.Segment.Proofs.FramingProofs
import Chorus.Volume.Catalog

/-!
# Reading a sealed segment

Whatever the zones answer, a read of a sealed segment that succeeds returns the content of a copy
that was read. It has the committed checksum and decodes to the expected number of records.
-/

namespace Chorus

open Concurrency Quorum RecordFrame

variable {n : Nat} {crc : Bytes → Nat} {segment : SegmentDescriptor}

/-- What is known of the bytes and records of a sealed segment that was read. -/
structure SealedSegmentRead.Verified (crc : Bytes → Nat) (segment : SegmentDescriptor)
    (expected : Nat) (read : SealedSegmentRead) : Prop where
  checksum : crc read.bytes = segment.crc32c
  decoded : decodeAll read.bytes = .ok read.records
  count : read.records.length = expected

/-- Of two contents that decode to equally many records, one at the front of the other is the
other. -/
theorem eq_of_isPrefix_of_decodeAll {bytes content : Bytes} {records records' : List RecordFrame}
    (h : bytes <+: content) (hbytes : decodeAll bytes = .ok records)
    (hcontent : decodeAll content = .ok records') (hcount : records.length = records'.length) :
    bytes = content := by
  obtain ⟨hfits, rfl⟩ := encodes_iff.1 (decodeAll_eq_ok_iff.1 hbytes)
  obtain ⟨hfits', rfl⟩ := encodes_iff.1 (decodeAll_eq_ok_iff.1 hcontent)
  have hpre : records <+: records' := by
    have hfound := prefix_completeRecords hfits h
    rwa [completeRecords_streamBytes hfits'] at hfound
  rw [hpre.eq_of_length hcount]

theorem canonicalPrefixBytes_isPrefix {snapshots : List ReplicaSnapshot} {quorum : Nat}
    {bytes : Bytes} (hsome : snapshots ≠ [])
    (h : canonicalPrefixBytes snapshots quorum = .ok bytes) :
    ∃ snapshot ∈ snapshots, bytes <+: snapshot.bytes := by
  unfold canonicalPrefixBytes at h
  cases hselect : selectCanonicalQuorum snapshots quorum with
  | error error =>
    rw [hselect] at h
    cases h
  | ok selection =>
    rw [hselect] at h
    cases h
    cases hwitness : snapshots[selection.witness]? with
    | none =>
      obtain ⟨snapshot, hsnapshot⟩ := List.exists_mem_of_ne_nil _ hsome
      exact ⟨snapshot, hsnapshot, by simp [hwitness]⟩
    | some snapshot =>
      refine ⟨snapshot, List.mem_of_getElem? hwitness, ?_⟩
      simp only [hwitness, Option.map_some, Option.getD_some]
      exact List.take_prefix _ _

theorem usableSealedSnapshot_decodes {snapshot : ReplicaSnapshot} {expected : Nat}
    {requireFinalized : Bool} (h : usableSealedSnapshot snapshot expected requireFinalized = true) :
    ∃ records, decodeAll snapshot.bytes = .ok records ∧ records.length = expected := by
  cases hdecode : decodeAll snapshot.bytes with
  | error error => simp [usableSealedSnapshot, hdecode] at h
  | ok records =>
    simp only [usableSealedSnapshot, hdecode, Bool.and_eq_true, decide_eq_true_eq] at h
    exact ⟨records, rfl, h.2⟩

/-- What a quorum agrees on is the content of one of the copies. -/
theorem readSealedQuorum_verified {expected : Nat} {snapshots : List ReplicaSnapshot}
    {permanent : List TransportError} {read : SealedSegmentRead}
    (h : readSealedQuorum n crc segment expected snapshots permanent = .ok read) :
    (∃ snapshot ∈ snapshots, read.bytes = snapshot.bytes) ∧ read.Verified crc segment expected := by
  simp only [readSealedQuorum] at h
  split_ifs at h with hquorum
  split at h
  · cases h
  · rename_i bytes hbytes
    split at h
    · cases h
    · rename_i records hdecode
      simp only [bind_eq_ok, failIf_eq_ok, exists_const, not_not] at h
      obtain ⟨hcount, hcrc, hread⟩ := h
      cases hread
      refine ⟨?_, hcrc, hdecode, hcount⟩
      obtain ⟨snapshot, hmem, hfront⟩ := canonicalPrefixBytes_isPrefix (fun hnil => by
        rw [hnil] at hquorum
        exact hquorum (Nat.succ_pos _)) hbytes
      obtain ⟨hmem, husable⟩ := List.mem_filter.1 hmem
      obtain ⟨records', hdecode', hcount'⟩ := usableSealedSnapshot_decodes husable
      exact ⟨snapshot, hmem,
        eq_of_isPrefix_of_decodeAll hfront hdecode hdecode' (hcount.trans hcount'.symm)⟩

section Reads

variable {seen : Bytes → Prop}

/-- The answer carries only contents of the given kind. -/
def ZoneOp.Shows (seen : Bytes → Prop) {β : Type} (op : ZoneOp n β) (answer : β) : Prop :=
  ∀ bytes ∈ op.contents answer, seen bytes

theorem readSealedLoop_returns {expected : Nat} {acceptUnfinalized : Bool} {zones : List (Fin n)}
    {snapshots : List ReplicaSnapshot} {permanent : List TransportError}
    (hsnapshots : ∀ snapshot ∈ snapshots, seen snapshot.bytes) :
    (readSealedLoop crc segment expected acceptUnfinalized zones snapshots permanent).ReturnsGiven
      (ZoneOp.Shows seen)
      (IfOk fun read => seen read.bytes ∧ read.Verified crc segment expected) := by
  induction zones generalizing snapshots permanent with
  | nil =>
    refine IfOk.intro fun read hread => ?_
    obtain ⟨⟨snapshot, hmem, hbytes⟩, hverified⟩ := readSealedQuorum_verified hread
    exact ⟨hbytes ▸ hsnapshots snapshot hmem, hverified⟩
  | cons zone zones ih =>
    intro answer hanswer
    cases answer with
    | error error => exact ih hsnapshots
    | ok snapshot =>
      have hseen : seen snapshot.bytes := hanswer _ List.mem_cons_self
      simp only [Prog.bind]
      split_ifs with hcopy
      · obtain ⟨-, hcrc, husable⟩ := hcopy
        obtain ⟨records, hdecode, hcount⟩ := usableSealedSnapshot_decodes husable
        rw [hdecode]
        exact ⟨hseen, hcrc, hdecode, hcount⟩
      · refine ih fun other hother => ?_
        rcases List.mem_append.1 hother with hother | hother
        · exact hsnapshots other hother
        · rw [List.mem_singleton.1 hother]
          exact hseen

/-- A successful read of a sealed segment returns the content of a copy that was read, and it is
verified. -/
theorem readSealedSegmentBytes_returns (crc : Bytes → Nat) (segment : SegmentDescriptor)
    (seen : Bytes → Prop) (acceptUnfinalized : Bool) :
    (readSealedSegmentBytes crc segment acceptUnfinalized : ReplicaProg n _).ReturnsGiven
      (ZoneOp.Shows seen) (IfOk fun read => seen read.bytes ∧
        read.Verified crc segment (segment.endRecordIndex - segment.baseRecordIndex + 1)) := by
  unfold readSealedSegmentBytes
  simp only
  split_ifs
  · trivial
  · trivial
  · exact readSealedLoop_returns fun _ hnone => absurd hnone List.not_mem_nil

theorem readSealedSegment_returns (crc : Bytes → Nat) (segment : SegmentDescriptor)
    (seen : Bytes → Prop) (acceptUnfinalized : Bool) :
    (readSealedSegment crc segment acceptUnfinalized : ReplicaProg n _).ReturnsGiven
      (ZoneOp.Shows seen) (IfOk fun frames => ∃ data, seen data ∧ crc data = segment.crc32c ∧
        decodeAll data = .ok frames ∧
        frames.length = segment.endRecordIndex - segment.baseRecordIndex + 1) := by
  refine Prog.ReturnsGiven.bind (readSealedSegmentBytes_returns ..) fun result hresult => ?_
  cases result with
  | error error => trivial
  | ok read =>
    obtain ⟨hseen, hverified⟩ := hresult
    exact ⟨read.bytes, hseen, hverified.checksum, hverified.decoded, hverified.count⟩

end Reads

def ZoneOp.isSnapshot : {β : Type} → ZoneOp n β → Bool
  | _, .mk _ .snapshot => true
  | _, _ => false

/-- A read of a sealed segment sends nothing but reads of copies. -/
theorem readSealedSegmentBytes_sends {acceptUnfinalized : Bool} :
    (readSealedSegmentBytes crc segment acceptUnfinalized : ReplicaProg n _).Sends
      fun op => op.isSnapshot = true := by
  have hloop : ∀ (expected : Nat) (zones : List (Fin n)) (snapshots : List ReplicaSnapshot)
      (permanent : List TransportError),
      (readSealedLoop crc segment expected acceptUnfinalized zones snapshots permanent).Sends
        fun op => op.isSnapshot = true := by
    intro expected zones
    induction zones with
    | nil => exact fun _ _ => trivial
    | cons zone zones ih =>
      intro snapshots permanent
      refine ⟨rfl, fun answer => ?_⟩
      cases answer with
      | error error => exact ih _ _
      | ok snapshot =>
        simp only [Prog.bind]
        split_ifs
        · split
          · trivial
          · trivial
        · exact ih _ _
  unfold readSealedSegmentBytes
  simp only
  split_ifs
  · trivial
  · trivial
  · exact hloop _ _ _ _

end Chorus
