import Chorus.Maintenance.Passes
import Chorus.Manifest.Proofs.SegmentIdProofs
import Mathlib.Data.Nat.Digits.Defs

/-!
# The epoch in a segment id

`parseHex` reads back the number that `hexDigits` wrote, so `idEpoch` recovers the epoch under which
an id was minted, and different epochs or sequence numbers give different ids.
-/

namespace Chorus

def pushDigit (value : Option Nat) (c : Char) : Option Nat :=
  do return (← value) * 16 + (← hexValue c)

theorem parseHex_eq {text : List Char} (hne : text ≠ []) (hplus : '+' ∉ text) :
    parseHex text = text.foldl pushDigit (some 0) := by
  unfold parseHex
  cases text with
  | nil => exact absurd rfl hne
  | cons c rest =>
    have hc : c ≠ '+' := fun h => hplus (by simp [h])
    split
    · rename_i heq
      simp only [List.cons.injEq] at heq
      exact absurd heq.1 hc
    · rw [if_neg (List.cons_ne_nil c rest)]
      rfl

theorem hexValue_digitChar {d : Nat} (hd : d < 16) : hexValue d.digitChar = some d := by
  have hall : ∀ d < 16, hexValue (Nat.digitChar d) = some d := by decide
  exact hall d hd

theorem foldl_pushDigit_toDigits (n : Nat) :
    (Nat.toDigits 16 n).foldl pushDigit (some 0) = some n := by
  induction n using Nat.strongRecOn with
  | ind n ih =>
    by_cases hn : n < 16
    · simp [Nat.toDigits_of_lt_base hn, pushDigit, hexValue_digitChar hn]
    · have hdiv := ih (n / 16) (by omega)
      have hmod : n % 16 < 16 := Nat.mod_lt _ (by omega)
      have hsum : n / 16 * 16 + n % 16 = n := by omega
      rw [Nat.toDigits_of_base_le (by omega) (by omega), List.foldl_append, hdiv]
      simp [pushDigit, hexValue_digitChar hmod, hsum]

theorem foldl_pushDigit_hexDigits (width n : Nat) :
    (hexDigits width n).foldl pushDigit (some 0) = some n := by
  have hpad : ∀ k, (List.replicate k '0').foldl pushDigit (some 0) = some 0 := by
    intro k
    induction k with
    | zero => rfl
    | succ k ih =>
      have hzero : pushDigit (some 0) '0' = some 0 := by decide
      rw [List.replicate_succ, List.foldl_cons, hzero, ih]
  rw [hexDigits, List.leftpad, List.foldl_append, hpad, foldl_pushDigit_toDigits]

theorem hexDigits_inj {width m n : Nat} (h : hexDigits width m = hexDigits width n) : m = n := by
  have := congrArg (List.foldl pushDigit (some 0)) h
  simpa only [foldl_pushDigit_hexDigits, Option.some.injEq] using this

theorem parseHex_hexDigits (width n : Nat) : parseHex (hexDigits width n) = some n := by
  rw [parseHex_eq, foldl_pushDigit_hexDigits]
  · intro hnil
    exact Nat.toDigits_ne_nil (List.append_eq_nil_iff.1 hnil).2
  · intro hmem
    obtain ⟨d, hd, hplus⟩ := mem_hexDigits hmem
    have hdigits : ∀ d < 16, '+' ≠ Nat.digitChar d := by decide
    exact hdigits d hd hplus

theorem takeWhile_segmentId (epoch seq : Nat) :
    (segmentId epoch seq).toList.takeWhile (· ≠ '-') = hexDigits 16 epoch := by
  have hdigit : ∀ c ∈ hexDigits 16 epoch, decide (c ≠ '-') = true := by
    intro c hc
    refine decide_eq_true fun h => ?_
    exact separator_not_mem_hexDigits (Or.inr (Or.inr rfl)) (h ▸ hc)
  rw [toList_segmentId, List.takeWhile_append_of_pos hdigit]
  simp

/-- Ids are equal only if they were minted from the same epoch and sequence number. -/
theorem segmentId_inj {epoch seq epoch' seq' : Nat}
    (h : segmentId epoch seq = segmentId epoch' seq') : epoch = epoch' ∧ seq = seq' := by
  have hlist := congrArg String.toList h
  have hepoch : hexDigits 16 epoch = hexDigits 16 epoch' := by
    rw [← takeWhile_segmentId epoch seq, ← takeWhile_segmentId epoch' seq', h]
  rw [toList_segmentId, toList_segmentId, hepoch] at hlist
  have hseq := List.append_cancel_left hlist
  rw [List.cons.injEq] at hseq
  exact ⟨hexDigits_inj hepoch, hexDigits_inj hseq.2⟩

/-- `idEpoch` recovers the epoch of a minted id, if the epoch fits in 64 bits. -/
theorem idEpoch_segmentId {epoch : Nat} (seq : Nat) (he : epoch < u64Limit) :
    idEpoch (segmentId epoch seq) = some epoch := by
  have hlen : (hexDigits 16 epoch).length = 16 := by
    have := Nat.toDigits_length 16 epoch 16 (by omega) he
    rw [hexDigits, List.length_leftpad]
    omega
  have hdash : '-' ∈ (segmentId epoch seq).toList := by simp [toList_segmentId]
  simp only [idEpoch, takeWhile_segmentId]
  rw [if_pos ⟨hdash, hlen⟩, parseHex_hexDigits]

end Chorus
