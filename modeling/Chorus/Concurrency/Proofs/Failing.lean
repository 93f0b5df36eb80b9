import Chorus.Concurrency.Proofs.Shape

/-!
# Programs that may fail

An `ExceptT` program over `Prog` stops at its first error. What is asserted of such a program speaks
about the runs that succeed: `OnOk Q` is the postcondition `Q` of a success and holds of every
failure. Both `wp` and `Returns` compose through `bind` with it.
-/

namespace Concurrency

universe u

variable {Op : Type → Type} {n : Nat} {W : Type u} {Ω ε α β : Type}

/-- The postcondition of a program that may fail: it says nothing about a failure. -/
def OnOk (Q : α → W → Prop) : Except ε α → W → Prop
  | .ok a, w => Q a w
  | .error _, _ => True

/-- The value of every success satisfies `P`. -/
def IfOk (P : α → Prop) : Except ε α → Prop
  | .ok a => P a
  | .error _ => True

theorem IfOk.intro {P : α → Prop} {r : Except ε α} (h : ∀ a, r = .ok a → P a) : IfOk P r := by
  cases r with
  | ok a => exact h a rfl
  | error e => trivial

theorem IfOk.mono {P P' : α → Prop} (hP : ∀ a, P a → P' a) {r : Except ε α} (h : IfOk P r) :
    IfOk P' r := by
  cases r with
  | ok a => exact hP a h
  | error e => trivial

namespace Prog

variable {P : α → Prop} {Q : β → Prop}

theorem Returns.bindOk {x : ExceptT ε (Prog Op n) α} {f : α → ExceptT ε (Prog Op n) β}
    (h : x.run.Returns (IfOk P)) (hf : ∀ a, P a → (f a).run.Returns (IfOk Q)) :
    (x >>= f).run.Returns (IfOk Q) := by
  refine Returns.bind h fun r hr => ?_
  cases r with
  | ok a => exact hf a hr
  | error e => exact trivial

theorem ReturnsGiven.bindOk {A : ∀ {β : Type}, Op β → β → Prop} {x : ExceptT ε (Prog Op n) α}
    {f : α → ExceptT ε (Prog Op n) β} (h : x.run.ReturnsGiven A (IfOk P))
    (hf : ∀ a, P a → (f a).run.ReturnsGiven A (IfOk Q)) :
    (x >>= f).run.ReturnsGiven A (IfOk Q) := by
  refine ReturnsGiven.bind h fun r hr => ?_
  cases r with
  | ok a => exact hf a hr
  | error e => exact trivial

theorem returns_ifOk_true (x : Prog Op n (Except ε α)) : x.Returns (IfOk fun _ => True) := by
  refine (returns_true x).mono fun r _ => ?_
  cases r <;> trivial

end Prog

variable {M : Machine Op W Ω} {R G : W → W → Prop} {w : W}

theorem wp_bindOk {x : ExceptT ε (Prog Op n) α} {f : α → ExceptT ε (Prog Op n) β}
    {P : α → W → Prop} {Q : β → W → Prop} (h : wp M x.run R G (OnOk P) w)
    (hf : ∀ a w, P a w → wp M (f a).run R G (OnOk Q) w) : wp M (x >>= f).run R G (OnOk Q) w := by
  refine wp_seq h fun r w₁ hr => ?_
  cases r with
  | ok a => exact hf a w₁ hr
  | error e => exact fun _ _ => trivial

theorem wp_monoOk {x : Prog Op n (Except ε α)} {Q Q' : α → W → Prop} (h : wp M x R G (OnOk Q) w)
    (hQ : ∀ a w, Q a w → Q' a w) : wp M x R G (OnOk Q') w := by
  refine wp_mono h (fun _ _ => id) (fun _ _ => id) fun r w₁ hr => ?_
  cases r with
  | ok a => exact hQ a w₁ hr
  | error e => trivial

/-- What the answers alone decide, together with what no step falsifies. -/
theorem wp_returnsOk {x : Prog Op n (Except ε α)} {P : α → Prop} {I : W → Prop}
    (h : x.Returns (IfOk P)) (hI : I w) (hR : ∀ a b, R a b → I a → I b)
    (hG : ∀ a b, G a b → I a → I b)
    (hexec : ∀ {β : Type} (op : Op β) (w w' : W) (ω : Ω) (b : β), M.exec w op ω = some (w', b) →
      G w w') : wp M x R G (OnOk fun a w => P a ∧ I w) w := by
  have hwp : wp M x R G (fun r _ => IfOk P r) w :=
    wp_of_answers (A := fun _ _ _ _ => True) x.sends_true (fun _ _ => h.given)
      fun op w₁ w₂ ω b _ he => ⟨hexec op w₁ w₂ ω b he, fun _ _ => trivial⟩
  refine wp_mono (wp_frame I hwp hI hR hG) (fun _ _ => id) (fun _ _ => id) fun r w₁ hr => ?_
  cases r with
  | ok a => exact hr
  | error e => trivial

end Concurrency
