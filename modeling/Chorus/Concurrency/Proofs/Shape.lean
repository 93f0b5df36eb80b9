import Chorus.Concurrency.Proofs.RelyGuarantee

/-!
# The shape of a program

What a program can return and send, whatever it is answered: `Returns` and `Sends` follow its
constructors and compose with `bind`. `ReturnsGiven` assumes something of the answers
(`wp_of_answers`). `Machine.restrict` takes away the operations that a condition forbids, so a
specification over the restricted machine speaks about the runs that meet the condition.
-/

namespace Concurrency

open Relation

universe u

variable {Op : Type → Type} {n : Nat} {W : Type u} {Ω α β γ : Type}

namespace Prog

/-- Every value the program can return satisfies `P`. -/
def Returns : {α : Type} → (α → Prop) → Prog Op n α → Prop
  | _, P, .ret a => P a
  | _, P, .call _ k => ∀ b, (k b).Returns P
  | _, P, .join _ k => ∀ bs, (k bs).Returns P

/-- Every value the program can return satisfies `P`, if the answers to its own calls satisfy
`A`. -/
def ReturnsGiven (A : ∀ {β : Type}, Op β → β → Prop) : {α : Type} → (α → Prop) → Prog Op n α → Prop
  | _, P, .ret a => P a
  | _, P, .call op k => ∀ b, A op b → (k b).ReturnsGiven A P
  | _, P, .join _ k => ∀ bs, (k bs).ReturnsGiven A P

/-- Every operation the program can send satisfies `O`. -/
def Sends (O : ∀ {β : Type}, Op β → Prop) : {α : Type} → Prog Op n α → Prop
  | _, .ret _ => True
  | _, .call op k => O op ∧ ∀ b, (k b).Sends O
  | _, .join ts k => (∀ i, (ts i).Sends O) ∧ ∀ bs, (k bs).Sends O

variable {P : α → Prop} {Q : β → Prop} {O : ∀ {β : Type}, Op β → Prop}
  {A : ∀ {β : Type}, Op β → β → Prop}

theorem Returns.bind {p : Prog Op n α} {f : α → Prog Op n β} (h : p.Returns P)
    (hf : ∀ a, P a → (f a).Returns Q) : (p.bind f).Returns Q := by
  induction p with
  | ret a => exact hf a h
  | call op k ih => exact fun b => ih b (h b) hf
  | join ts k _ ih => exact fun bs => ih bs (h bs) hf

theorem Returns.mono {P' : α → Prop} {p : Prog Op n α} (h : p.Returns P) (hP : ∀ a, P a → P' a) :
    p.Returns P' := by
  induction p with
  | ret a => exact hP a h
  | call op k ih => exact fun b => ih b (h b) hP
  | join ts k _ ih => exact fun bs => ih bs (h bs) hP

theorem Returns.and {P' : α → Prop} {p : Prog Op n α} (h : p.Returns P) (h' : p.Returns P') :
    p.Returns fun a => P a ∧ P' a := by
  induction p with
  | ret a => exact ⟨h, h'⟩
  | call op k ih => exact fun b => ih b (h b) (h' b)
  | join ts k _ ih => exact fun bs => ih bs (h bs) (h' bs)

theorem Returns.given {p : Prog Op n α} (h : p.Returns P) : p.ReturnsGiven A P := by
  induction p with
  | ret a => exact h
  | call op k ih => exact fun b _ => ih b (h b)
  | join ts k _ ih => exact fun bs => ih bs (h bs)

theorem ReturnsGiven.bind {p : Prog Op n α} {f : α → Prog Op n β} (h : p.ReturnsGiven A P)
    (hf : ∀ a, P a → (f a).ReturnsGiven A Q) : (p.bind f).ReturnsGiven A Q := by
  induction p with
  | ret a => exact hf a h
  | call op k ih => exact fun b hb => ih b (h b hb) hf
  | join ts k _ ih => exact fun bs => ih bs (h bs) hf

theorem ReturnsGiven.mono {P' : α → Prop} {p : Prog Op n α} (h : p.ReturnsGiven A P)
    (hP : ∀ a, P a → P' a) : p.ReturnsGiven A P' := by
  induction p with
  | ret a => exact hP a h
  | call op k ih => exact fun b hb => ih b (h b hb) hP
  | join ts k _ ih => exact fun bs => ih bs (h bs) hP

theorem ReturnsGiven.lift {Op' : Type → Type} {f : ∀ {β : Type}, Op β → Op' β}
    {B : ∀ {β : Type}, Op' β → β → Prop} {p : Prog Op n α} (h : p.ReturnsGiven A P)
    (hf : ∀ {β : Type} (op : Op β) (b : β), B (f op) b → A op b) :
    (p.lift f).ReturnsGiven B P := by
  induction p with
  | ret a => exact h
  | call op k ih => exact fun b hb => ih b (h b (hf op b hb))
  | join ts k _ ih => exact fun bs => ih bs (h bs)

theorem returns_true (p : Prog Op n α) : p.Returns fun _ => True := by
  induction p with
  | ret a => trivial
  | call op k ih => exact fun b => ih b
  | join ts k _ ih => exact fun bs => ih bs

theorem sends_true (p : Prog Op n α) : p.Sends fun _ => True := by
  induction p with
  | ret a => trivial
  | call op k ih => exact ⟨trivial, ih⟩
  | join ts k ihts ih => exact ⟨ihts, ih⟩

theorem Sends.bind {p : Prog Op n α} {f : α → Prog Op n β} (h : p.Sends O)
    (hf : ∀ a, (f a).Sends O) : (p.bind f).Sends O := by
  induction p with
  | ret a => exact hf a
  | call op k ih => exact ⟨h.1, fun b => ih b (h.2 b) hf⟩
  | join ts k _ ih => exact ⟨h.1, fun bs => ih bs (h.2 bs) hf⟩

theorem Returns.step {M : Machine Op W Ω} {p p' : Prog Op n α} {w w' : W} {c : Choice Ω n}
    (h : p.Returns P) (hs : M.step p w c = some (w', p')) : p'.Returns P := by
  cases Machine.moves_of_step hs with
  | op _ => exact h _
  | task _ => exact h
  | gather _ => exact h _

theorem Returns.lift {Op' : Type → Type} {f : ∀ {β : Type}, Op β → Op' β} {p : Prog Op n α}
    (h : p.Returns P) : (p.lift f).Returns P := by
  induction p with
  | ret a => exact h
  | call op k ih => exact fun b => ih b (h b)
  | join ts k _ ih => exact fun bs => ih bs (h bs)

theorem Sends.lift {Op' : Type → Type} {f : ∀ {β : Type}, Op β → Op' β}
    {O' : ∀ {β : Type}, Op' β → Prop} {p : Prog Op n α} (h : p.Sends O)
    (hf : ∀ {β : Type} (op : Op β), O op → O' (f op)) : (p.lift f).Sends O' := by
  induction p with
  | ret a => trivial
  | call op k ih => exact ⟨hf op h.1, fun b => ih b (h.2 b)⟩
  | join ts k ihts ih => exact ⟨fun i => ihts i (h.1 i), fun bs => ih bs (h.2 bs)⟩

theorem Sends.next {p : Prog Op n α} {c : Choice Ω n} {op : Sigma Op} (h : p.Sends O)
    (hop : p.next? c = some op) : O op.2 := by
  induction p generalizing c with
  | ret a => simp [next?] at hop
  | call op k _ =>
    cases c with
    | op ω =>
      cases hop
      exact h.1
    | task i c => simp [next?] at hop
    | gather => simp [next?] at hop
  | join ts k ihts _ =>
    cases c with
    | op ω => simp [next?] at hop
    | task i c => exact ihts i (h.1 i) hop
    | gather => simp [next?] at hop

end Prog

variable {M : Machine Op W Ω} {R G : W → W → Prop} {w w' : W}

/-- A program whose operations all stay within the guarantee, and whose answers satisfy `A` from
then on. What it returns under such answers may speak about the world in which it returns. -/
theorem wp_of_answers {p : Prog Op n α} {O : ∀ {β : Type}, Op β → Prop}
    {A : W → ∀ {β : Type}, Op β → β → Prop} {P : W → α → Prop} (hsends : p.Sends O)
    (hreturns : ∀ w', ReflTransGen (fun a b => R a b ∨ G a b) w w' → p.ReturnsGiven (A w') (P w'))
    (hexec : ∀ {β : Type} (op : Op β) (w w' : W) (ω : Ω) (b : β), O op →
      M.exec w op ω = some (w', b) →
        G w w' ∧ ∀ w'', ReflTransGen (fun a b => R a b ∨ G a b) w' w'' → A w'' op b) :
    wp M p R G (fun a w => P w a) w := by
  induction p generalizing R w with
  | ret a => exact fun w' hw' => hreturns w' (ReflTransGen.mono (fun _ _ => Or.inl) _ _ hw')
  | call op k ih =>
    intro w₁ h₁ ω w₂ b he
    obtain ⟨hG, hA⟩ := hexec op w₁ w₂ ω b hsends.1 he
    refine ⟨hG, ih b (hsends.2 b) (fun w' hw' => ?_) hexec⟩
    have hlater := ((ReflTransGen.mono (fun _ _ => Or.inl) _ _ h₁).tail (Or.inr hG)).trans hw'
    exact hreturns w' hlater b (hA w' hw')
  | join ts k ihts ih =>
    refine wp_join (fun _ _ _ => True) (fun _ => G) (fun i => ?_)
      (fun _ _ _ => id) fun w₁ bs h₁ _ => ?_
    · -- the other tasks take steps that the program could take itself
      have hrely : ∀ a b, (taskRely R (fun _ => G) i a b ∨ G a b) → R a b ∨ G a b := by
        rintro a b ((hR | ⟨_, -, hG⟩) | hG)
        exacts [.inl hR, .inr hG, .inr hG]
      refine ihts i (P := fun _ _ => True) (hsends.1 i) (fun _ _ => (ts i).returns_true.given) ?_
      intro β op w₁ w₂ ω b hop he
      obtain ⟨hG, hA⟩ := hexec op w₁ w₂ ω b hop he
      exact ⟨hG, fun w' hw' => hA w' (ReflTransGen.mono hrely _ _ hw')⟩
    · refine ih bs (hsends.2 bs) (fun w' hw' => ?_) hexec
      refine hreturns w' ((ReflTransGen.mono (fun a b hab => ?_) _ _ h₁).trans hw') bs
      rcases hab with hR | ⟨_, hG⟩
      exacts [.inl hR, .inr hG]

theorem Prog.Sends.step {p p' : Prog Op n α} {c : Choice Ω n} {O : ∀ {β : Type}, Op β → Prop}
    (h : p.Sends O) (hs : M.step p w c = some (w', p')) : p'.Sends O := by
  have hmoves := Machine.moves_of_step hs
  clear hs
  induction hmoves with
  | op _ => exact h.2 _
  | @task _ _ ts k i c w' t _ ih =>
    refine ⟨fun j => ?_, h.2⟩
    by_cases hj : j = i
    · subst hj
      rw [Function.update_self]
      exact ih (h.1 j)
    · rw [Function.update_of_ne hj]
      exact h.1 j
  | gather _ => exact h.2 _

/-! ## Restricted machines -/

/-- The machine without the operations that a condition forbids. -/
def Machine.restrict (M : Machine Op W Ω) (allowed : W → Sigma Op → Prop)
    [∀ w op, Decidable (allowed w op)] : Machine Op W Ω where
  exec w op ω := if allowed w ⟨_, op⟩ then M.exec w op ω else none

theorem Machine.restrict_step {allowed : W → Sigma Op → Prop} [∀ w op, Decidable (allowed w op)]
    {p p' : Prog Op n α} {c : Choice Ω n} (hallowed : ∀ op, p.next? c = some op → allowed w op)
    (hs : M.step p w c = some (w', p')) : (M.restrict allowed).step p w c = some (w', p') := by
  have hmoves := moves_of_step hs
  clear hs
  induction hmoves with
  | op he =>
    simp only [Machine.step, Machine.restrict, if_pos (hallowed _ rfl), he, Option.map_some]
  | task _ ih => simp only [Machine.step, ih hallowed, Option.map_some]
  | gather hall => simp only [Machine.step, dif_pos hall]

theorem wp_restrict {allowed : W → Sigma Op → Prop} [∀ w op, Decidable (allowed w op)]
    {p : Prog Op n α} {Q : α → W → Prop} (h : wp M p R G Q w) :
    wp (M.restrict allowed) p R G Q w := by
  induction p generalizing R G w with
  | ret a => exact h
  | call op k ih =>
    intro w₁ h₁ ω w₂ b he
    simp only [Machine.restrict] at he
    split_ifs at he
    obtain ⟨hg, hk⟩ := h w₁ h₁ ω w₂ b he
    exact ⟨hg, ih b hk⟩
  | join ts k ihts ihk =>
    obtain ⟨Qs, Gs, hts, hGs, hk⟩ := h
    exact ⟨Qs, Gs, fun i => ihts i (hts i), hGs, fun w₁ bs h₁ hq => ihk bs (hk w₁ bs h₁ hq)⟩

end Concurrency
