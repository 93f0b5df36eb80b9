import Chorus.Concurrency.Prog
import Mathlib.Logic.Relation

/-!
# Rely-guarantee reasoning about client programs

`wp M p R G Q w` says that the program `p`, started in the world `w` among steps of the *rely*
relation `R`, changes the world only by steps of the *guarantee* `G`, and that whenever it returns a
value `a` the postcondition `Q a` holds then and stays true under the rely. A `join` splits the
guarantee among its tasks: each task relies on the environment and on what the other tasks
guarantee.

The predicate is a safety statement: it never says that a program returns. It is kept by the
program's own steps (`wp_step`) and by those of its environment (`wp_rely`).
-/

namespace Concurrency

open Relation

universe u

variable {Op : Type → Type} {n : Nat} {W : Type u} {Ω α β γ : Type}

/-- The rely of task `i` of a `join`: its environment and the guarantees of the other tasks. -/
def taskRely (R : W → W → Prop) (Gs : Fin n → W → W → Prop) (i : Fin n) (w w' : W) : Prop :=
  R w w' ∨ ∃ j, j ≠ i ∧ Gs j w w'

/-- Any step that happens while a `join` runs. -/
def joinRely (R : W → W → Prop) (Gs : Fin n → W → W → Prop) (w w' : W) : Prop :=
  R w w' ∨ ∃ j, Gs j w w'

/-- Weakest precondition of a program under rely `R` and guarantee `G`. -/
def wp (M : Machine Op W Ω) :
    {α : Type} → Prog Op n α → (R G : W → W → Prop) → (α → W → Prop) → W → Prop
  | _, .ret a, R, _, Q, w => ∀ w', ReflTransGen R w w' → Q a w'
  | _, .call op k, R, G, Q, w => ∀ w₁, ReflTransGen R w w₁ → ∀ ω w₂ b,
      M.exec w₁ op ω = some (w₂, b) → G w₁ w₂ ∧ wp M (k b) R G Q w₂
  | _, @Prog.join _ _ _ β ts k, R, G, Q, w =>
      ∃ (Qs : Fin n → β → W → Prop) (Gs : Fin n → W → W → Prop),
        (∀ i, wp M (ts i) (taskRely R Gs i) (Gs i) (Qs i) w) ∧
        (∀ i a b, Gs i a b → G a b) ∧
        ∀ w' bs, ReflTransGen (joinRely R Gs) w w' → (∀ i, Qs i (bs i) w') → wp M (k bs) R G Q w'

variable {M : Machine Op W Ω} {R G : W → W → Prop} {Q : α → W → Prop} {w w' : W}

/-- The rule for `join`: give each task a postcondition and a part of the guarantee. -/
theorem wp_join {ts : Fin n → Prog Op n β} {k : (Fin n → β) → Prog Op n α}
    (Qs : Fin n → β → W → Prop) (Gs : Fin n → W → W → Prop)
    (hts : ∀ i, wp M (ts i) (taskRely R Gs i) (Gs i) (Qs i) w)
    (hGs : ∀ i a b, Gs i a b → G a b)
    (hk : ∀ w' bs, ReflTransGen (joinRely R Gs) w w' → (∀ i, Qs i (bs i) w') →
      wp M (k bs) R G Q w') :
    wp M (.join ts k) R G Q w :=
  ⟨Qs, Gs, hts, hGs, hk⟩

/-- What holds of a program keeps holding when its environment moves. -/
theorem wp_rely {p : Prog Op n α} (h : wp M p R G Q w) (hR : ReflTransGen R w w') :
    wp M p R G Q w' := by
  induction p generalizing R G with
  | ret a => exact fun w₁ h₁ => h w₁ (hR.trans h₁)
  | call op k _ => exact fun w₁ h₁ => h w₁ (hR.trans h₁)
  | join ts k ihts _ =>
    obtain ⟨Qs, Gs, hts, hGs, hk⟩ := h
    refine ⟨Qs, Gs, fun i => ?_, hGs, fun w₁ bs h₁ => ?_⟩
    · exact ihts i (hts i) (ReflTransGen.mono (fun _ _ => Or.inl) _ _ hR)
    · exact hk w₁ bs ((ReflTransGen.mono (fun _ _ => Or.inl) _ _ hR).trans h₁)

/-- The rule of consequence. -/
theorem wp_mono {p : Prog Op n α} {R' G' : W → W → Prop} {Q' : α → W → Prop}
    (h : wp M p R G Q w) (hR : ∀ a b, R' a b → R a b) (hG : ∀ a b, G a b → G' a b)
    (hQ : ∀ a w, Q a w → Q' a w) : wp M p R' G' Q' w := by
  induction p generalizing R R' G G' w with
  | ret a => exact fun w₁ h₁ => hQ a w₁ (h w₁ (ReflTransGen.mono hR _ _ h₁))
  | call op k ih =>
    intro w₁ h₁ ω w₂ b he
    obtain ⟨hg, hw⟩ := h w₁ (ReflTransGen.mono hR _ _ h₁) ω w₂ b he
    exact ⟨hG _ _ hg, ih b hw hR hG hQ⟩
  | join ts k ihts ihk =>
    obtain ⟨Qs, Gs, hts, hGs, hk⟩ := h
    refine ⟨Qs, Gs, fun i => ?_, fun i a b hab => hG a b (hGs i a b hab), fun w₁ bs h₁ hq => ?_⟩
    · exact ihts i (hts i) (fun a b => Or.imp_left (hR a b)) (fun _ _ => id) (fun _ _ => id)
    · exact ihk bs
        (hk w₁ bs (ReflTransGen.mono (fun a b => Or.imp_left (hR a b)) _ _ h₁) hq) hR hG hQ

/-- The rule of sequential composition. -/
theorem wp_bind {p : Prog Op n β} {f : β → Prog Op n α}
    (h : wp M p R G (fun b w => wp M (f b) R G Q w) w) : wp M (p.bind f) R G Q w := by
  induction p generalizing w with
  | ret a => exact h w .refl
  | call op k ih => exact fun w₁ h₁ ω w₂ b he => ⟨(h w₁ h₁ ω w₂ b he).1, ih b (h w₁ h₁ ω w₂ b he).2⟩
  | join ts k _ ihk =>
    obtain ⟨Qs, Gs, hts, hGs, hk⟩ := h
    exact ⟨Qs, Gs, hts, hGs, fun w₁ bs h₁ hq => ihk bs (hk w₁ bs h₁ hq)⟩

/-- Sequential composition through an intermediate assertion. -/
theorem wp_seq {p : Prog Op n β} {f : β → Prog Op n α} {P : β → W → Prop} (h : wp M p R G P w)
    (hf : ∀ b w, P b w → wp M (f b) R G Q w) : wp M (p.bind f) R G Q w :=
  wp_bind (wp_mono h (fun _ _ => id) (fun _ _ => id) hf)

/-- Where the guarantee is part of the rely, the tasks of a `join` need no split of it. -/
theorem wp_joinAll {ts : Fin n → Prog Op n β} {f : (Fin n → β) → Prog Op n α}
    (hGR : ∀ a b, G a b → R a b) (Qs : Fin n → β → W → Prop) (hts : ∀ i, wp M (ts i) R G (Qs i) w)
    (hf : ∀ w' bs, ReflTransGen R w w' → (∀ i, Qs i (bs i) w') → wp M (f bs) R G Q w') :
    wp M ((Prog.joinAll ts).bind f) R G Q w := by
  refine wp_join Qs (fun _ => G) (fun i => ?_) (fun _ _ _ => id) fun w' bs hw hq => ?_
  · refine wp_mono (hts i) (fun a b hab => ?_) (fun _ _ => id) (fun _ _ => id)
    rcases hab with hab | ⟨_, _, hab⟩
    · exact hab
    · exact hGR a b hab
  · refine hf w' bs (ReflTransGen.mono (fun a b hab => ?_) _ _ hw) hq
    rcases hab with hab | ⟨_, hab⟩
    · exact hab
    · exact hGR a b hab

/-- The conjunction of two specifications under one rely. -/
theorem wp_and {p : Prog Op n α} {G' : W → W → Prop} {Q' : α → W → Prop} (h : wp M p R G Q w)
    (h' : wp M p R G' Q' w) :
    wp M p R (fun a b => G a b ∧ G' a b) (fun a w => Q a w ∧ Q' a w) w := by
  induction p generalizing R G G' w with
  | ret a => exact fun w₁ h₁ => ⟨h w₁ h₁, h' w₁ h₁⟩
  | call op k ih =>
    intro w₁ h₁ ω w₂ b he
    obtain ⟨hg, hk⟩ := h w₁ h₁ ω w₂ b he
    obtain ⟨hg', hk'⟩ := h' w₁ h₁ ω w₂ b he
    exact ⟨⟨hg, hg'⟩, ih b hk hk'⟩
  | join ts k ihts ihk =>
    obtain ⟨Qs, Gs, hts, hGs, hk⟩ := h
    obtain ⟨Qs', Gs', hts', hGs', hk'⟩ := h'
    -- each task keeps to both parts, so both relies hold of its environment
    refine ⟨fun i a w => Qs i a w ∧ Qs' i a w, fun i a b => Gs i a b ∧ Gs' i a b, fun i => ?_,
      fun i a b hab => ⟨hGs i a b hab.1, hGs' i a b hab.2⟩, fun w₁ bs h₁ hq => ?_⟩
    · refine ihts i (wp_mono (hts i) ?_ (fun _ _ => id) fun _ _ => id)
        (wp_mono (hts' i) ?_ (fun _ _ => id) fun _ _ => id)
      · exact fun a b => Or.imp_right fun ⟨j, hj, hab⟩ => ⟨j, hj, hab.1⟩
      · exact fun a b => Or.imp_right fun ⟨j, hj, hab⟩ => ⟨j, hj, hab.2⟩
    · refine ihk bs (hk w₁ bs (ReflTransGen.mono ?_ _ _ h₁) fun i => (hq i).1)
        (hk' w₁ bs (ReflTransGen.mono ?_ _ _ h₁) fun i => (hq i).2)
      · exact fun a b => Or.imp_right fun ⟨j, hab⟩ => ⟨j, hab.1⟩
      · exact fun a b => Or.imp_right fun ⟨j, hab⟩ => ⟨j, hab.2⟩

/-- What no step falsifies, no number of steps falsifies. -/
theorem stable_of_steps {P : W → Prop} (hR : ∀ a b, R a b → P a → P b) (h : ReflTransGen R w w')
    (hP : P w) : P w' := by
  induction h with
  | refl => exact hP
  | tail _ hstep ih => exact hR _ _ hstep ih

/-- A property that neither the environment nor the program falsifies is carried along. -/
theorem wp_frame {p : Prog Op n α} (P : W → Prop) (h : wp M p R G Q w) (hP : P w)
    (hR : ∀ a b, R a b → P a → P b) (hG : ∀ a b, G a b → P a → P b) :
    wp M p R G (fun a w => Q a w ∧ P w) w := by
  induction p generalizing w with
  | ret a => exact fun w₁ h₁ => ⟨h w₁ h₁, stable_of_steps hR h₁ hP⟩
  | call op k ih =>
    intro w₁ h₁ ω w₂ b he
    obtain ⟨hg, hw⟩ := h w₁ h₁ ω w₂ b he
    exact ⟨hg, ih b hw (hG _ _ hg (stable_of_steps hR h₁ hP))⟩
  | join ts k _ ihk =>
    obtain ⟨Qs, Gs, hts, hGs, hk⟩ := h
    refine ⟨Qs, Gs, hts, hGs, fun w₁ bs h₁ hq => ihk bs (hk w₁ bs h₁ hq) ?_⟩
    refine stable_of_steps (fun a b hab => ?_) h₁ hP
    rcases hab with hab | ⟨j, hab⟩
    · exact hR a b hab
    · exact hG a b (hGs j a b hab)

/-- A program that has returned `a` satisfies its postcondition. -/
theorem wp_value {p : Prog Op n α} {a : α} (h : wp M p R G Q w) (hv : p.value? = some a) :
    Q a w := by
  cases p with
  | ret b =>
    cases hv
    exact h w .refl
  | call op k => simp [Prog.value?] at hv
  | join ts k => simp [Prog.value?] at hv

/-- The steps of a program, one constructor for each choice. -/
inductive Machine.Moves (M : Machine Op W Ω) (w : W) :
    {α : Type} → Prog Op n α → Choice Ω n → W → Prog Op n α → Prop where
  | op {α β : Type} {op : Op β} {k : β → Prog Op n α} {ω : Ω} {w' : W} {b : β}
      (he : M.exec w op ω = some (w', b)) : Moves M w (.call op k) (.op ω) w' (k b)
  | task {α β : Type} {ts : Fin n → Prog Op n β} {k : (Fin n → β) → Prog Op n α} {i : Fin n}
      {c : Choice Ω n} {w' : W} {t : Prog Op n β} (h : Moves M w (ts i) c w' t) :
      Moves M w (.join ts k) (.task i c) w' (.join (Function.update ts i t) k)
  | gather {α β : Type} {ts : Fin n → Prog Op n β} {k : (Fin n → β) → Prog Op n α}
      (h : ∀ i, (ts i).value?.isSome) :
      Moves M w (.join ts k) .gather w (k fun i => (ts i).value?.get (h i))

theorem Machine.moves_of_step {p p' : Prog Op n α} {c : Choice Ω n}
    (hs : M.step p w c = some (w', p')) : M.Moves w p c w' p' := by
  induction p generalizing c w' with
  | ret a => simp [Machine.step] at hs
  | call op k _ =>
    cases c with
    | op ω =>
      obtain ⟨r, he, heq⟩ := Option.map_eq_some_iff.1 hs
      cases heq
      exact .op he
    | task i c => simp [Machine.step] at hs
    | gather => simp [Machine.step] at hs
  | join ts k ihts _ =>
    cases c with
    | op ω => simp [Machine.step] at hs
    | task i c =>
      obtain ⟨r, hr, heq⟩ := Option.map_eq_some_iff.1 hs
      cases heq
      exact .task (ihts i hr)
    | gather =>
      simp only [Machine.step] at hs
      split at hs
      · cases hs
        exact .gather _
      · cases hs

/-- One step of a program stays within its guarantee and preserves its weakest precondition. -/
theorem wp_step {p p' : Prog Op n α} {c : Choice Ω n} (h : wp M p R G Q w)
    (hs : M.step p w c = some (w', p')) : ReflGen G w w' ∧ wp M p' R G Q w' := by
  have hmoves := Machine.moves_of_step hs
  clear hs
  induction hmoves generalizing R G with
  | op he =>
    obtain ⟨hg, hw⟩ := h w .refl _ _ _ he
    exact ⟨.single hg, hw⟩
  | @task _ _ ts k i c w' t _ ih =>
    obtain ⟨Qs, Gs, hts, hGs, hk⟩ := h
    obtain ⟨hg, hw⟩ := ih (hts i)
    refine ⟨hg.mono (hGs i), Qs, Gs, fun j => ?_, hGs, fun w₁ bs h₁ hq => ?_⟩
    · by_cases hj : j = i
      · subst hj
        simpa using hw
      · rw [Function.update_of_ne hj]
        -- the step of task `i` is part of what task `j` relies on
        refine wp_rely (hts j) ?_
        cases hg with
        | refl => exact .refl
        | single hg => exact .single (Or.inr ⟨i, fun hij => hj hij.symm, hg⟩)
    · refine hk w₁ bs (ReflTransGen.trans ?_ h₁) hq
      cases hg with
      | refl => exact .refl
      | single hg => exact .single (Or.inr ⟨i, hg⟩)
  | gather hall =>
    obtain ⟨Qs, Gs, hts, hGs, hk⟩ := h
    exact ⟨.refl, hk w _ .refl fun i => wp_value (hts i) (Option.some_get (hall i)).symm⟩

/-- A step of a program carries out the operation that it sends, or leaves the world alone. -/
theorem Machine.step_next {p p' : Prog Op n α} {c : Choice Ω n}
    (hs : M.step p w c = some (w', p')) :
    w' = w ∨ ∃ (op : Sigma Op) (ω : Ω) (b : op.1), p.next? c = some op ∧
      M.exec w op.2 ω = some (w', b) := by
  have hmoves := moves_of_step hs
  clear hs
  induction hmoves with
  | op he => exact .inr ⟨⟨_, _⟩, _, _, rfl, he⟩
  | task _ ih => exact ih
  | gather _ => exact .inl rfl

/-! ## Runs of one program alone -/

theorem Machine.run_append (w : W) (p : Prog Op n α) (cs ds : List (Choice Ω n)) :
    M.run w p (cs ++ ds) = (M.run w p cs).bind fun r => M.run r.1 r.2 ds := by
  induction cs generalizing w p with
  | nil => rfl
  | cons c cs ih =>
    simp only [List.cons_append, Machine.run, Option.bind_assoc]
    congr 1
    funext r
    exact ih r.1 r.2

/-- Under a fixed sequence of choices a program returns in one place only. -/
theorem Machine.run_ret_unique {p : Prog Op n α} {c : Choice Ω n} {w₁ w₂ : W} {a b : α} {k l : Nat}
    (hk : M.run w p (List.replicate k c) = some (w₁, .ret a))
    (hl : M.run w p (List.replicate l c) = some (w₂, .ret b)) : w₁ = w₂ ∧ a = b := by
  have stop : ∀ {k l : Nat} {w₁ w₂ : W} {a b : α}, k ≤ l →
      M.run w p (List.replicate k c) = some (w₁, .ret a) →
      M.run w p (List.replicate l c) = some (w₂, .ret b) → w₁ = w₂ ∧ a = b := by
    intro k l w₁ w₂ a b hle hk hl
    obtain ⟨d, rfl⟩ := Nat.exists_eq_add_of_le hle
    rw [List.replicate_add, Machine.run_append, hk, Option.bind_some] at hl
    cases d with
    | zero =>
      simp only [List.replicate_zero, Machine.run, Option.some.injEq, Prod.mk.injEq,
        Prog.ret.injEq] at hl
      exact ⟨hl.1, hl.2⟩
    | succ d => simp [List.replicate_succ, Machine.run, Machine.step] at hl
  rcases Nat.le_total k l with hle | hle
  · exact stop hle hk hl
  · obtain ⟨h₁, h₂⟩ := stop hle hl hk
    exact ⟨h₁.symm, h₂.symm⟩

end Concurrency
