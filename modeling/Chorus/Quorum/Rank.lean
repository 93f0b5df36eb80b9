import Mathlib.Data.Fintype.Card
import Mathlib.Data.List.FinRange
import Mathlib.Data.List.Sort

/-!
# Order statistics over a family of voters

`kthLargest k l` is the largest value that at least `k` entries of `l` reach (`le_kthLargest_iff`).
Where `m` entries are not known, the entry of rank `k` among the others is the largest that the
entry of rank `k + m` among all can be (`kthLargest_append_le`, `kthLargest_append_replicate`).
`collect f` lists the values of those voters that gave one; counting in it is counting voters
(`countP_collect`), and sets of voters that are large enough meet (`card_add_card_le`).
-/

namespace Quorum

section Rank

variable {α : Type*} [LinearOrder α]

/-- The `k`-th largest entry. There is none for `k = 0` or for a list with fewer entries. -/
def kthLargest (k : Nat) (l : List α) : Option α :=
  if k ≤ l.length then (l.insertionSort (· ≤ ·))[l.length - k]? else none

variable {k : Nat} {l : List α} {x y : α}

theorem kthLargest_isSome (hk : 0 < k) (hl : k ≤ l.length) : (kthLargest k l).isSome := by
  have hlen : l.length - k < (l.insertionSort (· ≤ ·)).length := by
    rw [List.length_insertionSort]
    omega
  rw [kthLargest, if_pos hl, List.getElem?_eq_getElem hlen]
  rfl

/-- The `k`-th largest entry reaches `x` exactly if `k` entries do. -/
theorem le_kthLargest_iff (h : kthLargest k l = some y) : x ≤ y ↔ k ≤ l.countP (x ≤ ·) := by
  unfold kthLargest at h
  split_ifs at h with hl
  obtain ⟨hlen, hy⟩ := List.getElem?_eq_some_iff.1 h
  have hsorted := List.pairwise_insertionSort (· ≤ ·) l
  have hcount : l.countP (x ≤ ·) = (l.insertionSort (· ≤ ·)).countP (x ≤ ·) :=
    ((List.perm_insertionSort (· ≤ ·) l).countP_eq _).symm
  have hlength := List.length_insertionSort (· ≤ ·) l
  generalize l.insertionSort (· ≤ ·) = s at *
  have hmono : ∀ (i j : Nat) (hi : i < s.length) (hj : j < s.length), i ≤ j → s[i] ≤ s[j] := by
    intro i j hi hj hij
    rcases hij.lt_or_eq with hlt | rfl
    · exact List.pairwise_iff_getElem.1 hsorted i j hi hj hlt
    · exact le_rfl
  rw [hcount]
  constructor
  · -- everything from position `length - k` on is at least `y`
    intro hxy
    have hall : ∀ z ∈ s.drop (l.length - k), decide (x ≤ z) = true := by
      intro z hz
      obtain ⟨i, hi, rfl⟩ := List.mem_iff_getElem.1 hz
      rw [List.length_drop] at hi
      rw [List.getElem_drop]
      refine decide_eq_true (hxy.trans ?_)
      rw [← hy]
      exact hmono _ _ _ _ (Nat.le_add_right _ _)
    have hdrop : (s.drop (l.length - k)).countP (x ≤ ·) = k := by
      rw [List.countP_eq_length.2 hall, List.length_drop, hlength]
      omega
    rw [← hdrop]
    exact (List.drop_sublist _ _).countP_le
  · -- everything up to position `length - k` is at most `y`
    intro hk
    by_contra hxy
    have hall : ∀ z ∈ s.take (l.length - k + 1), ¬ decide (x ≤ z) = true := by
      intro z hz
      obtain ⟨i, hi, rfl⟩ := List.mem_iff_getElem.1 hz
      rw [List.length_take] at hi
      rw [List.getElem_take, decide_eq_true_eq]
      intro hxz
      refine hxy (hxz.trans ?_)
      rw [← hy]
      exact hmono _ _ _ _ (by omega)
    have htake : (s.take (l.length - k + 1)).countP (x ≤ ·) = 0 := List.countP_eq_zero.2 hall
    have hsplit := congrArg (List.countP (x ≤ ·)) (List.take_append_drop (l.length - k + 1) s)
    rw [List.countP_append, htake, Nat.zero_add] at hsplit
    have hdrop := List.countP_le_length (p := (x ≤ ·)) (l := s.drop (l.length - k + 1))
    rw [List.length_drop] at hdrop
    omega

theorem mem_of_kthLargest (h : kthLargest k l = some y) : y ∈ l := by
  unfold kthLargest at h
  split_ifs at h with hl
  exact (List.perm_insertionSort (· ≤ ·) l).subset (List.mem_of_getElem? h)

theorem kthLargest_perm {l' : List α} (h : l.Perm l') (k : Nat) :
    kthLargest k l = kthLargest k l' := by
  have hsort : l.insertionSort (· ≤ ·) = l'.insertionSort (· ≤ ·) :=
    List.Perm.eq_of_pairwise' (List.pairwise_insertionSort _ l) (List.pairwise_insertionSort _ l')
      ((List.perm_insertionSort _ l).trans (h.trans (List.perm_insertionSort _ l').symm))
  unfold kthLargest
  rw [hsort, h.length_eq]

/-- Entries that are not known can fill at most their own number of ranks. -/
theorem kthLargest_append_le {missing : List α} (h : kthLargest k l = some y)
    (h' : kthLargest (k + missing.length) (l ++ missing) = some x) : x ≤ y := by
  rw [le_kthLargest_iff h]
  have hcount := (le_kthLargest_iff h').1 (le_refl x)
  rw [List.countP_append] at hcount
  have hmissing := List.countP_le_length (p := (x ≤ ·)) (l := missing)
  omega

/-- They fill them all where each of them is at the rank already. -/
theorem kthLargest_append_replicate (h : kthLargest k l = some y) (hk : 0 < k) (m : Nat) :
    kthLargest (k + m) (l ++ List.replicate m y) = some y := by
  have hreached := (le_kthLargest_iff h).1 (le_refl y)
  have hle := List.countP_le_length (p := (y ≤ ·)) (l := l)
  have hsome : (kthLargest (k + m) (l ++ List.replicate m y)).isSome := by
    apply kthLargest_isSome
    · omega
    · rw [List.length_append, List.length_replicate]
      omega
  obtain ⟨x, hx⟩ := Option.isSome_iff_exists.1 hsome
  have hxy : x ≤ y := by
    have hrank : kthLargest (k + (List.replicate m y).length)
        (l ++ List.replicate m y) = some x := by
      rwa [List.length_replicate]
    exact kthLargest_append_le h hrank
  have hyx : y ≤ x := by
    have hall : (List.replicate m y).countP (y ≤ ·) = m := by
      rw [List.countP_eq_length.2 fun z hz => decide_eq_true (List.eq_of_mem_replicate hz).ge,
        List.length_replicate]
    rw [le_kthLargest_iff hx, List.countP_append, hall]
    omega
  rw [hx, le_antisymm hxy hyx]

end Rank

section Collect

variable {n : Nat} {β : Type*}

/-- The values of the voters that gave one, in the order of the voters. -/
def collect (f : Fin n → Option β) : List β := (List.finRange n).filterMap f

theorem mem_collect {f : Fin n → Option β} {b : β} : b ∈ collect f ↔ ∃ z, f z = some b := by
  simp [collect]

/-- Counting in the collected list is counting voters. -/
theorem countP_collect (f : Fin n → Option β) (p : β → Bool) :
    (collect f).countP p = (Finset.univ.filter fun z => ∃ b, f z = some b ∧ p b = true).card := by
  have hbool : ∀ z, ((f z).map p).getD false = decide (∃ b, f z = some b ∧ p b = true) := by
    intro z
    cases f z with
    | none => simp
    | some b => simp
  rw [collect, List.countP_filterMap, List.countP_eq_length_filter,
    ← List.toFinset_card_of_nodup ((List.nodup_finRange n).filter _)]
  congr 1
  ext z
  simp [hbool]

theorem map_collect {γ : Type*} (f : Fin n → Option β) (g : β → γ) :
    (collect f).map g = collect fun z => (f z).map g := by
  rw [collect, List.map_filterMap]
  rfl

/-- Values that name their voter are listed once. -/
theorem nodup_map_collect {f : Fin n → Option β} {g : β → Nat}
    (h : ∀ z b, f z = some b → g b = z) : ((collect f).map g).Nodup := by
  rw [map_collect]
  refine (List.nodup_finRange n).filterMap fun z z' k hk hk' => ?_
  obtain ⟨b, hb, rfl⟩ := Option.mem_map.1 hk
  obtain ⟨b', hb', heq⟩ := Option.mem_map.1 hk'
  have hz := h z b hb
  have hz' := h z' b' hb'
  exact Fin.ext (by omega)

theorem length_collect (f : Fin n → Option β) :
    (collect f).length = (Finset.univ.filter fun z => (f z).isSome = true).card := by
  have h := countP_collect f (fun _ => true)
  simp only [List.countP_true, and_true] at h
  rw [h]
  congr 1
  ext z
  simp [Option.isSome_iff_exists]

end Collect

/-- Two sets of voters share at least as many as their sizes exceed the number of voters. -/
theorem card_add_card_le {n : Nat} (A B : Finset (Fin n)) : A.card + B.card ≤ n + (A ∩ B).card := by
  have hunion := Finset.card_union_add_card_inter A B
  have hall : (A ∪ B).card ≤ n := (Finset.card_le_univ _).trans (Fintype.card_fin n).le
  omega

theorem exists_mem_inter {n : Nat} {A B : Finset (Fin n)} (h : n < A.card + B.card) :
    ∃ z, z ∈ A ∧ z ∈ B := by
  have hcard := card_add_card_le A B
  obtain ⟨z, hz⟩ := Finset.card_pos.1 (show 0 < (A ∩ B).card by omega)
  exact ⟨z, Finset.mem_inter.1 hz⟩

end Quorum
