import Mathlib.Data.List.Basic
import Mathlib.Data.Nat.Digits.Defs

/-!
# Fields of text

Texts joined by a separator that none of them holds are found again by splitting
(`splitText_intercalate`), and splitting never leaves a separator in a piece. `parseRadix` reads
numerals the way machine integers are read from text: a leading plus sign and leading zeros are
taken, and it reads back what `Nat.toDigits` writes, whatever zeros stand in front
(`parseRadix_toDigits`).
-/

namespace Wire

/-- The pieces of a text between the separators. -/
def splitText (sep : Char) (text : String) : List String :=
  (text.toList.splitOn sep).map String.ofList

theorem map_toList_splitText (sep : Char) (text : String) :
    (splitText sep text).map String.toList = text.toList.splitOn sep := by
  rw [splitText, List.map_map]
  exact (List.map_congr_left fun l _ => String.toList_ofList).trans (List.map_id _)

theorem splitText_eq_iff {sep : Char} {text : String} {pieces : List String} :
    splitText sep text = pieces ↔ text.toList.splitOn sep = pieces.map String.toList := by
  constructor
  · rintro rfl
    exact (map_toList_splitText sep text).symm
  · intro h
    rw [splitText, h, List.map_map]
    exact (List.map_congr_left fun piece _ => String.ofList_toList).trans (List.map_id _)

theorem splitText_intercalate {sep : Char} {pieces : List String} (hne : pieces ≠ [])
    (hsep : ∀ piece ∈ pieces, sep ∉ piece.toList) :
    splitText sep (String.intercalate (String.singleton sep) pieces) = pieces := by
  rw [splitText_eq_iff, String.toList_intercalate, String.toList_singleton]
  apply List.splitOn_intercalate
  · intro l hl
    obtain ⟨piece, hpiece, rfl⟩ := List.mem_map.1 hl
    exact hsep piece hpiece
  · intro hnil
    exact hne (List.map_eq_nil_iff.1 hnil)

/-- A piece holds no separator, and nothing that is not in the whole. -/
theorem of_mem_splitOn {α : Type*} [BEq α] [LawfulBEq α] {sep : α} {l piece : List α}
    (h : piece ∈ l.splitOn sep) : sep ∉ piece ∧ piece ⊆ l := by
  induction l generalizing piece with
  | nil =>
    rw [List.splitOn_nil, List.mem_singleton] at h
    rw [h]
    exact ⟨List.not_mem_nil, List.Subset.refl _⟩
  | cons a l ih =>
    rw [List.splitOn_cons_eq_if_modifyHead] at h
    split at h
    · rcases List.mem_cons.1 h with rfl | h
      · exact ⟨List.not_mem_nil, List.nil_subset _⟩
      · exact ⟨(ih h).1, List.subset_cons_of_subset a (ih h).2⟩
    · rename_i hne
      obtain ⟨first, rest, hsplit⟩ := List.exists_cons_of_ne_nil (List.splitOn_ne_nil sep l)
      rw [hsplit] at ih
      rw [hsplit, List.modifyHead_cons] at h
      rcases List.mem_cons.1 h with rfl | h
      · obtain ⟨hsep, hsub⟩ := ih List.mem_cons_self
        rw [List.mem_cons, not_or]
        exact ⟨⟨fun heq => hne (by rw [heq, beq_self_eq_true]), hsep⟩, List.cons_subset_cons a hsub⟩
      · obtain ⟨hsep, hsub⟩ := ih (List.mem_cons_of_mem _ h)
        exact ⟨hsep, List.subset_cons_of_subset a hsub⟩

theorem of_mem_splitText {sep : Char} {text piece : String} (h : piece ∈ splitText sep text) :
    sep ∉ piece.toList ∧ piece.toList ⊆ text.toList := by
  obtain ⟨l, hl, rfl⟩ := List.mem_map.1 h
  rw [String.toList_ofList]
  exact of_mem_splitOn hl

theorem utf8ByteSize_ofList_of_ascii {l : List Char} (h : ∀ c ∈ l, c.utf8Size = 1) :
    (String.ofList l).utf8ByteSize = l.length := by
  induction l with
  | nil => rfl
  | cons c l ih =>
    have hrest := ih fun c hc => h c (List.mem_cons_of_mem _ hc)
    rw [String.ofList_cons, String.utf8ByteSize_append, String.utf8ByteSize_singleton,
      h c List.mem_cons_self, hrest, List.length_cons, Nat.add_comm]

/-! ## Numerals -/

def digitValue (radix : Nat) (c : Char) : Option Nat :=
  let value :=
    if '0' ≤ c ∧ c ≤ '9' then some (c.toNat - '0'.toNat)
    else if 'a' ≤ c ∧ c ≤ 'z' then some (c.toNat - 'a'.toNat + 10)
    else if 'A' ≤ c ∧ c ≤ 'Z' then some (c.toNat - 'A'.toNat + 10)
    else none
  value.filter (· < radix)

def pushDigit (radix : Nat) (value : Option Nat) (c : Char) : Option Nat := do
  return (← value) * radix + (← digitValue radix c)

def dropPlus : List Char → List Char
  | '+' :: digits => digits
  | digits => digits

/-- The number that a text is in a radix. -/
def parseRadix (radix : Nat) (text : List Char) : Option Nat :=
  if dropPlus text = [] then none else (dropPlus text).foldl (pushDigit radix) (some 0)

section Numerals

variable {radix : Nat}

theorem digitValue_digitChar (hradix : radix ≤ 16) {d : Nat} (hd : d < radix) :
    digitValue radix d.digitChar = some d := by
  have hall : ∀ d < 16, digitValue 16 (Nat.digitChar d) = some d := by decide
  have hsixteen := hall d (by omega)
  unfold digitValue at hsixteen ⊢
  simp only [Option.filter_eq_some_iff] at hsixteen ⊢
  exact ⟨hsixteen.1, decide_eq_true hd⟩

theorem foldl_pushDigit_toDigits (hone : 1 < radix) (hradix : radix ≤ 16) (n : Nat) :
    (Nat.toDigits radix n).foldl (pushDigit radix) (some 0) = some n := by
  induction n using Nat.strongRecOn with
  | ind n ih =>
    by_cases hn : n < radix
    · simp [Nat.toDigits_of_lt_base hn, pushDigit, digitValue_digitChar hradix hn]
    · have hdiv := ih (n / radix) (Nat.div_lt_self (by omega) hone)
      have hmod : n % radix < radix := Nat.mod_lt _ (by omega)
      have hsum : n / radix * radix + n % radix = n := Nat.div_add_mod' n radix
      rw [Nat.toDigits_of_base_le hone (by omega), List.foldl_append, hdiv]
      simp [pushDigit, digitValue_digitChar hradix hmod, hsum]

theorem mem_toDigits (hone : 1 < radix) {n : Nat} {c : Char} (h : c ∈ Nat.toDigits radix n) :
    ∃ d < radix, c = Nat.digitChar d := by
  induction n using Nat.strongRecOn with
  | ind n ih =>
    by_cases hn : n < radix
    · rw [Nat.toDigits_of_lt_base hn, List.mem_singleton] at h
      exact ⟨n, hn, h⟩
    · rw [Nat.toDigits_of_base_le hone (by omega), List.mem_append, List.mem_singleton] at h
      rcases h with h | h
      · exact ih (n / radix) (Nat.div_lt_self (by omega) hone) h
      · exact ⟨n % radix, Nat.mod_lt _ (by omega), h⟩

theorem dropPlus_eq {text : List Char} (h : '+' ∉ text) : dropPlus text = text := by
  unfold dropPlus
  split
  · exact absurd List.mem_cons_self h
  · rfl

/-- Zeros in front change nothing. -/
theorem parseRadix_toDigits (hone : 1 < radix) (hradix : radix ≤ 16) (zeros n : Nat) :
    parseRadix radix (List.replicate zeros '0' ++ Nat.toDigits radix n) = some n := by
  have hplus : '+' ∉ List.replicate zeros '0' ++ Nat.toDigits radix n := by
    intro hmem
    rcases List.mem_append.1 hmem with hmem | hmem
    · exact absurd (List.eq_of_mem_replicate hmem) (by decide)
    · obtain ⟨d, hd, hchar⟩ := mem_toDigits hone hmem
      have hdigits : ∀ d < 16, '+' ≠ Nat.digitChar d := by decide
      exact hdigits d (by omega) hchar
  have hpad : (List.replicate zeros '0').foldl (pushDigit radix) (some 0) = some 0 := by
    have hzero : pushDigit radix (some 0) '0' = some 0 := by
      have hvalue : digitValue radix '0' = some 0 :=
        digitValue_digitChar hradix (Nat.zero_lt_of_lt hone)
      simp [pushDigit, hvalue]
    induction zeros with
    | zero => rfl
    | succ zeros ih =>
      rw [List.replicate_succ, List.foldl_cons, hzero]
      apply ih
      intro hmem
      exact hplus (by rw [List.replicate_succ]; exact List.mem_cons_of_mem _ hmem)
  have hne : List.replicate zeros '0' ++ Nat.toDigits radix n ≠ [] := by
    intro hnil
    exact Nat.toDigits_ne_nil (List.append_eq_nil_iff.1 hnil).2
  rw [parseRadix, dropPlus_eq hplus, if_neg hne, List.foldl_append, hpad,
    foldl_pushDigit_toDigits hone hradix]

end Numerals

end Wire
