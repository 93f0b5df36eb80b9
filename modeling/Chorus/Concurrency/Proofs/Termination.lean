import Chorus.Concurrency.Proofs.RelyGuarantee

/-!
# Programs end

Every step of a program leads into a smaller one, so no run of it is infinite, however the tasks of
a `join` interleave. If every operation has some outcome, all runs end, and what `wp` says of the
returned value becomes a statement about every run (`ends_of_wp`).
-/

namespace Concurrency

universe u

variable {Op : Type → Type} {n : Nat} {W : Type u} {Ω α : Type}

/-- No run of the program is infinite, none gets stuck, and each ends with a value that satisfies
`Q`. -/
inductive Ends (M : Machine Op W Ω) (Q : α → W → Prop) : Prog Op n α → W → Prop where
  | ret {a : α} {w : W} (h : Q a w) : Ends M Q (.ret a) w
  | step {p : Prog Op n α} {w : W} (hcan : ∃ c r, M.step p w c = some r)
      (hall : ∀ c w' p', M.step p w c = some (w', p') → Ends M Q p' w') : Ends M Q p w

section Termination

variable (M : Machine Op W Ω)

def Successor (p' p : Prog Op n α) : Prop := ∃ w c w', M.step p w c = some (w', p')

def TaskSuccessor {β : Type} (k : Nat) (ts' ts : Fin n → Prog Op n β) : Prop :=
  ∃ i : Fin n, i.val < k ∧ Successor M (ts' i) (ts i) ∧ ∀ j, j ≠ i → ts' j = ts j

/-- If each task can only take finitely many steps, so can all of them together. The tasks are added
one at a time. -/
theorem acc_taskSuccessor {β : Type} (k : Nat) {ts : Fin n → Prog Op n β}
    (h : ∀ i, Acc (Successor M) (ts i)) : Acc (TaskSuccessor M k) ts := by
  induction k generalizing ts with
  | zero =>
    constructor
    rintro ts' ⟨i, hi, -⟩
    omega
  | succ k ih =>
    by_cases hk : k < n
    · -- the last task outside, the steps of the others inside
      have hlast : ∀ p : Prog Op n β, Acc (Successor M) p → ∀ ts : Fin n → Prog Op n β,
          ts ⟨k, hk⟩ = p → (∀ i, Acc (Successor M) (ts i)) → Acc (TaskSuccessor M (k + 1)) ts := by
        intro p hp
        induction hp with
        | intro p _ ihp =>
          intro ts hts hacc
          have hothers := ih hacc
          induction hothers with
          | intro ts _ ihts =>
            constructor
            rintro ts' ⟨i, hi, hstep, hframe⟩
            have hacc' : ∀ j, Acc (Successor M) (ts' j) := by
              intro j
              by_cases hj : j = i
              · rw [hj]
                exact (hacc i).inv hstep
              · rw [hframe j hj]
                exact hacc j
            by_cases hik : i.val = k
            · have hi' : i = ⟨k, hk⟩ := Fin.ext hik
              rw [hi'] at hstep
              rw [hts] at hstep
              exact ihp _ hstep ts' rfl hacc'
            · have hkeep : ts' ⟨k, hk⟩ = p := by
                rw [hframe ⟨k, hk⟩ fun h => hik (by rw [← h]), hts]
              exact ihts ts' ⟨i, by omega, hstep, hframe⟩ hkeep hacc'
      exact hlast _ (h ⟨k, hk⟩) ts rfl h
    · -- there is no such task
      have hsame : ∀ ts' ts'' : Fin n → Prog Op n β, TaskSuccessor M (k + 1) ts' ts'' →
          TaskSuccessor M k ts' ts'' := by
        rintro ts' ts'' ⟨i, -, hstep, hframe⟩
        exact ⟨i, by omega, hstep, hframe⟩
      exact Subrelation.accessible (hsame _ _) (ih h)

theorem acc_successor (p : Prog Op n α) : Acc (Successor M) p := by
  induction p with
  | ret a =>
    constructor
    rintro p ⟨w, c, w', hstep⟩
    cases Machine.moves_of_step hstep
  | call op k ih =>
    constructor
    rintro p ⟨w, c, w', hstep⟩
    cases Machine.moves_of_step hstep with
    | op _ => exact ih _
  | join ts k ihts ihk =>
    have htasks := acc_taskSuccessor M n ihts
    clear ihts
    induction htasks with
    | intro ts _ ih =>
      constructor
      rintro p ⟨w, c, w', hstep⟩
      cases c with
      | op ω => cases Machine.moves_of_step hstep
      | task i c =>
        obtain ⟨r, hr, heq⟩ := Option.map_eq_some_iff.1 hstep
        cases heq
        refine ih _ ⟨i, i.isLt, ⟨w, c, r.1, ?_⟩, fun j hj => Function.update_of_ne hj _ _⟩
        rw [Function.update_self]
        exact hr
      | gather =>
        cases Machine.moves_of_step hstep with
        | gather _ => exact ihk _

end Termination

variable {M : Machine Op W Ω} {R G : W → W → Prop} {Q : α → W → Prop} {w : W}

theorem exists_step (hlive : ∀ (w : W) {β : Type} (op : Op β), ∃ ω r, M.exec w op ω = some r)
    (p : Prog Op n α) (w : W) : p.value?.isSome ∨ ∃ c r, M.step p w c = some r := by
  induction p generalizing w with
  | ret a => exact Or.inl rfl
  | call op k _ =>
    obtain ⟨ω, r, hr⟩ := hlive w op
    exact Or.inr ⟨.op ω, (r.1, k r.2), by simp [Machine.step, hr]⟩
  | join ts k ihts _ =>
    right
    by_cases hall : ∀ i, (ts i).value?.isSome
    · exact ⟨.gather, (w, k fun i => (ts i).value?.get (hall i)), by simp [Machine.step, hall]⟩
    · rw [not_forall] at hall
      obtain ⟨i, hi⟩ := hall
      obtain ⟨c, r, hr⟩ := (ihts i w).resolve_left hi
      exact ⟨.task i c, (r.1, .join (Function.update ts i r.2) k), by simp [Machine.step, hr]⟩

/-- Where every operation has an outcome, every run of a program ends as its specification says. -/
theorem ends_of_wp (hlive : ∀ (w : W) {β : Type} (op : Op β), ∃ ω r, M.exec w op ω = some r)
    {p : Prog Op n α} (h : wp M p R G Q w) : Ends M Q p w := by
  have hacc := acc_successor M p
  induction hacc generalizing w with
  | intro p _ ih =>
    rcases exists_step hlive p w with hdone | hcan
    · obtain ⟨a, ha⟩ := Option.isSome_iff_exists.1 hdone
      cases p with
      | ret b => exact .ret (h w .refl)
      | call op k => simp [Prog.value?] at ha
      | join ts k => simp [Prog.value?] at ha
    · refine .step hcan fun c w' p' hstep => ?_
      exact ih p' ⟨w, c, w', hstep⟩ (wp_step h hstep).2

end Concurrency
