import Chorus.Manifest.Proofs.RecordProofs
import Chorus.Wire.Text

/-!
# Segment ids

A segment id is two padded hexadecimal numbers with a dash between them. Its characters are never
separators of the encoded directory.
-/

namespace Chorus

/-- The characters of a padded hexadecimal number. -/
def hexDigits (width n : Nat) : List Char := (Nat.toDigits 16 n).leftpad width '0'

theorem toList_hex (width n : Nat) : (hex width n).toList = hexDigits width n := by
  simp [hex, hexDigits]

theorem mem_hexDigits {width n : Nat} {c : Char} (h : c ∈ hexDigits width n) :
    ∃ d < 16, c = Nat.digitChar d := by
  rcases List.mem_append.1 h with h | h
  · exact ⟨0, by omega, List.eq_of_mem_replicate h⟩
  · exact Wire.mem_toDigits (by omega) h

/-- The separators of segment ids and of the encoded directory are not hexadecimal digits. -/
theorem separator_not_mem_hexDigits {width n : Nat} {c : Char} (hc : c = ':' ∨ c = ',' ∨ c = '-') :
    c ∉ hexDigits width n := by
  intro h
  obtain ⟨d, hd, rfl⟩ := mem_hexDigits h
  have hdigits : ∀ d < 16, ¬ (d.digitChar = ':' ∨ d.digitChar = ',' ∨ d.digitChar = '-') := by
    decide
  exact hdigits d hd hc

theorem utf8Size_digitChar {d : Nat} (hd : d < 16) : (Nat.digitChar d).utf8Size = 1 := by
  have hall : ∀ d < 16, (Nat.digitChar d).utf8Size = 1 := by decide
  exact hall d hd

theorem utf8ByteSize_hex (width n : Nat) :
    (hex width n).utf8ByteSize = (hexDigits width n).length := by
  have hlist : hex width n = String.ofList (hexDigits width n) := rfl
  rw [hlist, Wire.utf8ByteSize_ofList_of_ascii]
  intro c hc
  obtain ⟨d, hd, rfl⟩ := mem_hexDigits hc
  exact utf8Size_digitChar hd

theorem utf8ByteSize_toString (n : Nat) :
    (toString n).utf8ByteSize = (Nat.toDigits 10 n).length := by
  have hlist : toString n = String.ofList (Nat.toDigits 10 n) := rfl
  rw [hlist, Wire.utf8ByteSize_ofList_of_ascii]
  intro c hc
  obtain ⟨d, hd, rfl⟩ := Wire.mem_toDigits (by omega) hc
  exact utf8Size_digitChar (by omega)

/-- A number that needs no more than `digits` digits is padded to at most as many. -/
theorem length_hexDigits_le {width digits n : Nat} (hwidth : width ≤ digits) (hdigits : 0 < digits)
    (hn : n < 16 ^ digits) : (hexDigits width n).length ≤ digits := by
  have hlen := (Nat.length_toDigits_le_iff (by omega) hdigits).2 hn
  rw [hexDigits, List.length_leftpad]
  omega

theorem length_hexDigits {width n : Nat} (hwidth : 0 < width) (hn : n < 16 ^ width) :
    (hexDigits width n).length = width := by
  have hlen := length_hexDigits_le (Nat.le_refl width) hwidth hn
  rw [hexDigits, List.length_leftpad] at hlen ⊢
  omega

theorem toList_segmentId (epoch seq : Nat) :
    (segmentId epoch seq).toList = hexDigits 16 epoch ++ '-' :: hexDigits 8 seq := by
  simp [segmentId, String.toList_append, toList_hex]

theorem idText_segmentId (epoch seq : Nat) : ManifestRecord.IdText (segmentId epoch seq) := by
  refine ⟨?_, ?_, ?_⟩
  · by_contra h
    have h' := String.isEmpty_iff.1 (by simpa using h)
    have := congrArg String.toList h'
    rw [toList_segmentId] at this
    simp at this
  · rw [toList_segmentId]
    simp [separator_not_mem_hexDigits]
  · rw [toList_segmentId]
    simp [separator_not_mem_hexDigits]

end Chorus
