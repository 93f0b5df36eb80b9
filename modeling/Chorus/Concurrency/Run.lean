import Mathlib.Logic.Relation

/-!
# Runs of a transition system

A transition system is a partial step function: `step s a` is the state after the action `a`, or
`none` where `a` cannot happen. `Reaches step ok s₀ s` says that a run leads from `s₀` to `s` all of
whose actions meet the condition `ok`, evaluated in the state in which each action is taken. An
unconditional system takes `fun _ _ => True`.
-/

namespace Concurrency

universe u v

variable {S : Type u} {A : Type v}

/-- The states that runs from `s₀` reach when every action meets `ok`. -/
inductive Reaches (step : S → A → Option S) (ok : S → A → Prop) (s₀ : S) : S → Prop where
  | refl : Reaches step ok s₀ s₀
  | tail {s s' : S} {a : A} (hs : Reaches step ok s₀ s) (hok : ok s a) (ha : step s a = some s') :
      Reaches step ok s₀ s'

variable {step : S → A → Option S} {ok : S → A → Prop} {s₀ s s' : S}

namespace Reaches

/-- The invariant rule: what holds at the start and survives every permitted step always holds. -/
theorem invariant {I : S → Prop} (h : Reaches step ok s₀ s) (h₀ : I s₀)
    (hstep : ∀ s s' a, I s → ok s a → step s a = some s' → I s') : I s := by
  induction h with
  | refl => exact h₀
  | tail _ hok ha ih => exact hstep _ _ _ ih hok ha

theorem trans (h : Reaches step ok s₀ s) (h' : Reaches step ok s s') : Reaches step ok s₀ s' := by
  induction h' with
  | refl => exact h
  | tail _ hok ha ih => exact .tail ih hok ha

end Reaches

/-- The state after a list of actions each of which passes an executable check first. -/
def runChecked (step : S → A → Option S) (check : S → A → Bool) (s : S) : List A → Option S
  | [] => some s
  | a :: as => if check s a then (step s a).bind fun s' => runChecked step check s' as else none

/-- A checked list of actions is a run under every condition the check implies. -/
theorem reaches_of_runChecked {check : S → A → Bool} (hcheck : ∀ s a, check s a = true → ok s a)
    {as : List A} (h : runChecked step check s as = some s') : Reaches step ok s s' := by
  induction as generalizing s with
  | nil =>
    cases h
    exact .refl
  | cons a as ih =>
    simp only [runChecked] at h
    split at h
    · obtain ⟨s₁, ha, h⟩ := Option.bind_eq_some_iff.1 h
      exact (Reaches.tail .refl (hcheck _ _ ‹_›) ha).trans (ih h)
    · cases h

/-- A checked list of actions that ends in a state with a property shows that such a state is
reached. -/
theorem exists_reaches {check : S → A → Bool} {goal : S → Bool} {as : List A}
    (hcheck : ∀ s a, check s a = true → ok s a) (h : (runChecked step check s as).any goal = true) :
    ∃ s', Reaches step ok s s' ∧ goal s' = true := by
  obtain ⟨s', hs', hgoal⟩ := (Option.any_eq_true _ _).1 h
  exact ⟨s', reaches_of_runChecked hcheck hs', hgoal⟩

end Concurrency
