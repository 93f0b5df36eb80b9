import Mathlib.Logic.Function.Basic
import Mathlib.Data.Fintype.Defs
import Mathlib.Data.Fin.Basic
import Mathlib.Data.Fintype.Basic

/-!
# Client programs over remote operations

An asynchronous client is a tree of remote calls: it sends an operation, waits for the answer and
continues with a function of it. `join` starts `n` tasks, lets their calls interleave freely and
continues with all results once every task has returned, which is what a `join_all` over a fixed
family of futures does. Local computation takes no step of its own.

A `Machine` says what one operation does to the shared world. Its outcome is chosen by an oracle
(`Ω`): an operation may be applied and answered, applied with the answer lost, or refused.
Everything is executable, so a concrete schedule can be evaluated.
-/

namespace Concurrency

universe u

/-- A client program over the operations `Op` that returns an `α`. The index of `Op` is the type of
an operation's answer. -/
inductive Prog (Op : Type → Type) (n : Nat) : Type → Type 1 where
  | ret {α : Type} (a : α) : Prog Op n α
  /-- Send one operation and continue with its answer. -/
  | call {α β : Type} (op : Op β) (k : β → Prog Op n α) : Prog Op n α
  /-- Run `n` tasks concurrently and continue with all their results. -/
  | join {α β : Type} (ts : Fin n → Prog Op n β) (k : (Fin n → β) → Prog Op n α) : Prog Op n α

namespace Prog

variable {Op : Type → Type} {n : Nat} {α β γ : Type}

def bind : {α : Type} → Prog Op n α → (α → Prog Op n γ) → Prog Op n γ
  | _, .ret a, f => f a
  | _, .call op k, f => .call op fun b => (k b).bind f
  | _, .join ts k, f => .join ts fun bs => (k bs).bind f

instance : Monad (Prog Op n) where
  pure := .ret
  bind := bind

def send (op : Op β) : Prog Op n β := .call op .ret

def joinAll (ts : Fin n → Prog Op n β) : Prog Op n (Fin n → β) := .join ts .ret

def value? : {α : Type} → Prog Op n α → Option α
  | _, .ret a => some a
  | _, .call _ _ => none
  | _, .join _ _ => none

def lift {Op' : Type → Type} (f : ∀ {β : Type}, Op β → Op' β) :
    {α : Type} → Prog Op n α → Prog Op' n α
  | _, .ret a => .ret a
  | _, .call op k => .call (f op) fun b => (k b).lift f
  | _, .join ts k => .join (fun i => (ts i).lift f) fun bs => (k bs).lift f

end Prog

/-- What the operations `Op` do to a world `W`. The oracle `ω : Ω` picks one of the outcomes the
environment may choose; `none` means that this outcome is impossible here. -/
structure Machine (Op : Type → Type) (W : Type u) (Ω : Type) where
  exec : {β : Type} → W → Op β → Ω → Option (W × β)

/-- Which step of a program runs next: the pending call of the program itself, a step of one task of
a `join`, or the end of a `join` all of whose tasks have returned. -/
inductive Choice (Ω : Type) (n : Nat) where
  | op (ω : Ω)
  | task (i : Fin n) (c : Choice Ω n)
  | gather
  deriving Repr

variable {Op : Type → Type} {n : Nat} {W : Type u} {Ω α : Type}

def Machine.step (M : Machine Op W Ω) :
    {α : Type} → Prog Op n α → W → Choice Ω n → Option (W × Prog Op n α)
  | _, .call op k, w, .op ω => (M.exec w op ω).map fun r => (r.1, k r.2)
  | _, .join ts k, w, .task i c =>
      (M.step (ts i) w c).map fun r => (r.1, .join (Function.update ts i r.2) k)
  | _, .join ts k, w, .gather =>
      if h : ∀ i, (ts i).value?.isSome then some (w, k fun i => (ts i).value?.get (h i)) else none
  | _, _, _, _ => none

/-- The operation that a step of a program sends, if it sends one. -/
def Prog.next? : {α : Type} → Prog Op n α → Choice Ω n → Option (Sigma Op)
  | _, .call op _, .op _ => some ⟨_, op⟩
  | _, .join ts _, .task i c => (ts i).next? c
  | _, _, _ => none

def Machine.run (M : Machine Op W Ω) (w : W) (p : Prog Op n α) :
    List (Choice Ω n) → Option (W × Prog Op n α)
  | [] => some (w, p)
  | c :: cs => (M.step p w c).bind fun r => M.run r.1 r.2 cs

end Concurrency
