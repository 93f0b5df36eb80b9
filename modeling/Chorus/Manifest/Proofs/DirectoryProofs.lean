import Chorus.Manifest.Proofs.SegmentIdProofs

/-!
# The byte budget of the segment directory

The encoded directory only shrinks when entries are removed, so a positive answer of the room check
stays true until the next fold; and an entry with a minted id never needs more than the bytes the
check reserves for it.
-/

namespace Chorus

/-- An entry as the writer makes them: its id is minted, and its numbers have the widths of the
source. -/
structure DirectoryEntry.Minted (e : DirectoryEntry) : Prop where
  id : ∃ epoch seq, epoch < u64Limit ∧ seq < u64Limit ∧ e.id = segmentId epoch seq
  base : e.base < u64Limit
  crc32c : e.crc32c < 2 ^ 32

namespace ManifestRecord

def encodedLen (segments : List DirectoryEntry) : Nat := (encodeSegments segments).utf8ByteSize

theorem encodedLen_nil : encodedLen [] = 0 := rfl

theorem encodedLen_cons (e : DirectoryEntry) (rest : List DirectoryEntry) :
    encodedLen (e :: rest) =
      (encodeEntry e).utf8ByteSize + if rest = [] then 0 else 1 + encodedLen rest := by
  cases rest with
  | nil => simp [encodedLen, encodeSegments]
  | cons next rest =>
    have hcomma : (",".utf8ByteSize) = 1 := rfl
    simp only [encodedLen, encodeSegments, List.map_cons, String.intercalate_cons_cons,
      String.utf8ByteSize_append, hcomma, reduceCtorEq, if_false]
    omega

theorem encodedLen_le_of_sublist {l₁ l₂ : List DirectoryEntry} (h : l₁.Sublist l₂) :
    encodedLen l₁ ≤ encodedLen l₂ := by
  induction h with
  | slnil => exact Nat.le_refl _
  | cons a h ih =>
    rw [encodedLen_cons]
    split
    · rename_i hnil
      rw [hnil, encodedLen_nil] at ih
      omega
    · omega
  | @cons_cons l₁ l₂ a h ih =>
    rw [encodedLen_cons, encodedLen_cons]
    by_cases h₁ : l₁ = []
    · simp [h₁]
    · have h₂ : l₂ ≠ [] := fun h₂ => h₁ (List.sublist_nil.1 (h₂ ▸ h))
      simp only [h₁, h₂, if_false]
      omega

/-- Adding an entry costs its own bytes and a separator. -/
theorem encodedLen_append_le (segments : List DirectoryEntry) (e : DirectoryEntry) :
    encodedLen (segments ++ [e]) ≤ encodedLen segments + (encodeEntry e).utf8ByteSize + 1 := by
  induction segments with
  | nil => simp [encodedLen_cons, encodedLen_nil]
  | cons first rest ih =>
    rw [List.cons_append, encodedLen_cons, encodedLen_cons]
    by_cases h : rest = []
    · subst h
      simp only [List.nil_append, encodedLen_cons, reduceCtorEq, if_true, if_false]
      omega
    · simp only [List.append_eq_nil_iff, h, reduceCtorEq, and_false, if_false]
      omega

/-- The room check reserves enough for every entry and its separator. -/
theorem encodeEntry_lt {e : DirectoryEntry} (h : e.Minted) :
    (encodeEntry e).utf8ByteSize + 1 ≤ worstCaseEntryBytes := by
  obtain ⟨epoch, seq, hepoch, hseq, hid⟩ := h.id
  have hwidth : u64Limit = 16 ^ 16 := by norm_num [u64Limit]
  have hfirst := length_hexDigits_le (show 16 ≤ 16 by omega) (by omega) (hwidth ▸ hepoch)
  have hsecond := length_hexDigits_le (n := seq) (show 8 ≤ 16 by omega) (by omega) (hwidth ▸ hseq)
  have hbase := (Nat.length_toDigits_le_iff (b := 10) (k := 20) (by omega) (by omega)).2
    (show e.base < 10 ^ 20 from h.base.trans (by norm_num [u64Limit]))
  have hcrc := length_hexDigits_le (n := e.crc32c) (Nat.le_refl 8) (by omega)
      (h.crc32c.trans_eq (by norm_num))
  have hcolon : ":".utf8ByteSize = 1 := rfl
  have hdash : "-".utf8ByteSize = 1 := rfl
  simp only [encodeEntry, hid, segmentId, String.utf8ByteSize_append, utf8ByteSize_hex,
    utf8ByteSize_toString, hcolon, hdash, worstCaseEntryBytes]
  omega

theorem directoryHasRoom_iff {r : ManifestRecord} {additional maxDirectoryBytes : Nat} :
    r.directoryHasRoom additional maxDirectoryBytes = true ↔
      additional * worstCaseEntryBytes < u64Limit ∧
      encodedLen r.segments + additional * worstCaseEntryBytes < u64Limit ∧
      encodedLen r.segments + additional * worstCaseEntryBytes ≤ maxDirectoryBytes := by
  unfold directoryHasRoom directoryHasRoomFor checkedMul
  split_ifs with hmul
  · simp only [Option.bind_some, checkedAdd, hmul, true_and]
    split_ifs with hadd
    · simp [encodedLen, hadd]
    · simp [encodedLen, hadd]
  · simp [hmul]

theorem directoryHasRoom_of_sublist {r r' : ManifestRecord} {additional maxDirectoryBytes : Nat}
    (hsub : r'.segments.Sublist r.segments)
    (h : r.directoryHasRoom additional maxDirectoryBytes = true) :
    r'.directoryHasRoom additional maxDirectoryBytes = true := by
  rw [directoryHasRoom_iff] at h ⊢
  have := encodedLen_le_of_sublist hsub
  exact ⟨h.1, by omega, by omega⟩

end ManifestRecord

end Chorus
