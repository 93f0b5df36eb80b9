import Chorus.Engine.Live
import Chorus.Segment.Proofs.FrameProofs

/-!
# The admitted prefix of a segment

The checksum of a prefix is continued chunk by chunk, and its digest is computed by a worker that
lags behind. Both end up over the bytes of the stream: the checksum over everything that joined it,
the digest over everything that was admitted (`Describes`).
-/

namespace Chorus

open RecordFrame

/-- Continuing a checksum is the checksum of the whole. -/
theorem crc32cAppend_crc32c (bytes bytes' : Bytes) :
    crc32cAppend (crc32c bytes) bytes' = crc32c (bytes ++ bytes') := by
  simp only [crc32cAppend, crc32c, Nat.xor_assoc, Nat.xor_self, Nat.xor_zero, List.foldl_append]

theorem crc32c_nil : crc32c [] = 0 := by
  simp only [crc32c, crc32cAppend, List.foldl_nil, Nat.zero_xor, Nat.xor_self]

namespace AdmittedPrefix

variable {p : AdmittedPrefix} {stream records : List RecordFrame} {admitted : Nat}

/-- The prefix describes a stream of which the given number of records is admitted. -/
structure Describes (p : AdmittedPrefix) (stream : List RecordFrame) (admitted : Nat) : Prop where
  records : p.records = stream.length
  bytes : p.bytes = (streamBytes stream).length
  crc32c : p.crc32c = Chorus.crc32c (streamBytes stream)
  hashed : p.hashed = streamBytes (stream.take admitted)

theorem Describes.empty : Describes .empty [] 0 := ⟨rfl, rfl, crc32c_nil.symm, rfl⟩

theorem extendMetadata_cons (chunk : Bytes) (chunks : List Bytes) :
    p.extendMetadata (chunk :: chunks) = { p with
      crc32c := crc32cAppend p.crc32c chunk
      bytes := p.bytes + chunk.length
      records := p.records + 1 }.extendMetadata chunks := rfl

theorem Describes.extend (h : Describes p stream admitted) (hle : admitted ≤ stream.length)
    (records : List RecordFrame) : Describes (p.extendMetadata (records.map chunk))
    (stream ++ records) admitted := by
  induction records generalizing p stream with
  | nil =>
    rw [List.append_nil]
    exact h
  | cons record records ih =>
    rw [List.map_cons, extendMetadata_cons, List.append_cons]
    have hbytes : streamBytes (stream ++ [record]) = streamBytes stream ++ record.chunk := by
      rw [streamBytes_append]
      simp [streamBytes]
    refine ih ⟨?_, ?_, ?_, ?_⟩ ?_
    · rw [List.length_append, List.length_singleton, ← h.records]
    · rw [hbytes, List.length_append, ← h.bytes]
    · show crc32cAppend p.crc32c record.chunk = _
      rw [h.crc32c, crc32cAppend_crc32c, hbytes]
    · show p.hashed = _
      rw [h.hashed, List.take_append_of_le_length hle]
    · rw [List.length_append]
      omega

theorem hashed_queueDigest (chunks : List Bytes) : (p.queueDigest chunks).hashed = p.hashed ++
    chunks.flatten := by
  obtain ⟨count, bytes, digest, crc⟩ := p
  cases digest with
  | ready hashed => simp [queueDigest, AdmittedPrefix.hashed]
  | pending hashed queued => simp [queueDigest, AdmittedPrefix.hashed]

theorem hashed_hashNext (p : AdmittedPrefix) : p.hashNext.hashed = p.hashed := by
  obtain ⟨count, bytes, digest, crc⟩ := p
  cases digest with
  | ready hashed => rfl
  | pending hashed queued =>
    cases queued with
    | nil => rfl
    | cons chunks queued => simp [hashNext, AdmittedPrefix.hashed]

/-- The window that joined the stream is admitted. -/
theorem Describes.queue (h : Describes p stream admitted)
    (hrecords : stream.drop admitted = records) :
    Describes (p.queueDigest (records.map chunk)) stream stream.length := by
  have hsame : (p.queueDigest (records.map chunk)).records = p.records ∧
      (p.queueDigest (records.map chunk)).bytes = p.bytes ∧
      (p.queueDigest (records.map chunk)).crc32c = p.crc32c := by
    unfold queueDigest
    split <;> exact ⟨rfl, rfl, rfl⟩
  refine ⟨hsame.1.trans h.records, hsame.2.1.trans h.bytes, hsame.2.2.trans h.crc32c, ?_⟩
  rw [hashed_queueDigest, h.hashed, ← hrecords, List.take_length]
  show streamBytes (stream.take admitted) ++ streamBytes (stream.drop admitted) = streamBytes stream
  rw [← streamBytes_append, List.take_append_drop]

theorem Describes.hashNext (h : Describes p stream admitted) :
    Describes p.hashNext stream admitted := by
  have hsame : p.hashNext.records = p.records ∧ p.hashNext.bytes = p.bytes ∧
      p.hashNext.crc32c = p.crc32c := by
    unfold AdmittedPrefix.hashNext
    split <;> exact ⟨rfl, rfl, rfl⟩
  exact ⟨hsame.1.trans h.records, hsame.2.1.trans h.bytes, hsame.2.2.trans h.crc32c,
    (hashed_hashNext p).trans h.hashed⟩

theorem Describes.takeDigest (h : Describes p stream admitted) (sha256 : Bytes → String) :
    Describes (p.takeDigest sha256).2 stream admitted := ⟨h.records, h.bytes, h.crc32c, h.hashed⟩

end AdmittedPrefix

end Chorus
