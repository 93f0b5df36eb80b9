import Chorus.Concurrency.Proofs.RelyGuarantee
import Chorus.Segment.Recovery

/-!
# Fencing one zone

While nobody rewrites an object, recovery creates it empty where the writer has no lane, opens a new
append session or finalizes it (`FenceStep`), and the writer's lane appends to it as long as its
session is the current one (`SlotStep`). Once a zone is fenced, finalized or without a lane, its
bytes never change again (`Settled`), so what one recovery learns there stays true. `ZoneTriple` is
a Hoare triple about one zone in that environment.
-/

namespace Chorus

open Concurrency Relation

variable {n : Nat} {α β : Type} {crc : Bytes → Nat} {lane : Option Nat} {slot slot' : Slot}

/-- What recovery does to an object; `lane` is the append session of the writer. -/
inductive FenceStep (lane : Option Nat) (slot : Slot) : Slot → Prop where
  | create (metadata : Metadata) (habsent : slot.copy = none) (hlane : lane = none) :
      FenceStep lane slot (slot.install [] metadata)
  | reopen : FenceStep lane slot slot.reopen
  | freeze : FenceStep lane slot slot.freeze

/-- What happens to an object that nobody rewrites. -/
inductive SlotStep (lane : Option Nat) (slot : Slot) : Slot → Prop where
  | fence {slot' : Slot} (hstep : FenceStep lane slot slot') : SlotStep lane slot slot'
  | append (c : Copy) (bytes : Bytes) (hcopy : slot.copy = some c) (hopen : c.finalized = false)
      (hlane : lane = some c.session) (hgrow : c.bytes <+: bytes) :
      SlotStep lane slot (slot.append bytes)

/-- A recovery step in every zone, or none. -/
def FenceSteps (lanes : Fin n → Option Nat) (slots slots' : Fin n → Slot) : Prop :=
  ∀ zone, slots' zone = slots zone ∨ FenceStep (lanes zone) (slots zone) (slots' zone)

/-- A step in every zone, or none. -/
def SlotsStep (lanes : Fin n → Option Nat) (slots slots' : Fin n → Slot) : Prop :=
  ∀ zone, slots' zone = slots zone ∨ SlotStep (lanes zone) (slots zone) (slots' zone)

theorem FenceSteps.slotsStep {lanes : Fin n → Option Nat} {slots slots' : Fin n → Slot}
    (h : FenceSteps lanes slots slots') : SlotsStep lanes slots slots' :=
  fun zone => (h zone).imp_right .fence

/-- A property of one zone's object that no step falsifies. -/
def Stable (lane : Option Nat) (P : Slot → Prop) : Prop :=
  ∀ slot slot', SlotStep lane slot slot' → P slot → P slot'

theorem Stable.of_rely {lanes : Fin n → Option Nat} {zone : Fin n} {P : Slot → Prop}
    (hP : Stable (lanes zone) P) {w w' : Fin n → Slot} (h : ReflTransGen (SlotsStep lanes) w w')
    (hw : P (w zone)) : P (w' zone) := by
  induction h with
  | refl => exact hw
  | tail _ hstep ih =>
    rcases hstep zone with heq | hstep
    · rw [heq]
      exact ih
    · exact hP _ _ hstep ih

/-- The writer's lane has an object, and its session number has been used. -/
def LaneOk (lane : Option Nat) (slot : Slot) : Prop :=
  ∀ session, lane = some session → slot.copy.isSome = true ∧ session < slot.nextId

theorem stable_laneOk : Stable lane (LaneOk lane) := by
  intro slot slot' hstep h session hlane
  obtain ⟨hsome, hlt⟩ := h session hlane
  rcases hstep with ⟨⟨metadata, habsent⟩ | _ | _⟩ | _
  · rw [habsent] at hsome
    cases hsome
  · exact ⟨by simpa [Slot.reopen] using hsome, Nat.lt_succ_of_lt hlt⟩
  · exact ⟨by simpa [Slot.freeze] using hsome, hlt⟩
  · exact ⟨by simpa [Slot.append] using hsome, hlt⟩

/-- The object holds `bytes` for good: it is finalized, or its append session is not the writer's,
or it does not exist and the writer has no lane there. -/
structure Settled (lane : Option Nat) (bytes : Bytes) (slot : Slot) : Prop where
  laneOk : LaneOk lane slot
  present : ∀ c, slot.copy = some c → c.bytes = bytes ∧ (c.finalized = true ∨ lane ≠ some c.session)
  absent : slot.copy = none → bytes = []

theorem stable_settled {bytes : Bytes} : Stable lane (Settled lane bytes) := by
  intro slot slot' hstep h
  have hlaneOk := stable_laneOk slot slot' hstep h.laneOk
  cases hstep with
  | fence hstep =>
    cases hstep with
    | create metadata habsent hlane =>
      refine ⟨hlaneOk, fun c hc => ?_, fun hc => ?_⟩
      · cases hc
        refine ⟨(h.absent habsent).symm, Or.inr ?_⟩
        rw [hlane]
        exact nofun
      · cases hc
    | reopen =>
      refine ⟨hlaneOk, fun c hc => ?_, fun hc => ?_⟩
      · obtain ⟨c₀, hc₀, rfl⟩ := Option.map_eq_some_iff.1 hc
        refine ⟨(h.present c₀ hc₀).1, Or.inr fun hlane => ?_⟩
        -- the new session number is larger than the lane's
        exact absurd (h.laneOk _ hlane).2 (Nat.lt_irrefl _)
      · exact h.absent (Option.map_eq_none_iff.1 hc)
    | freeze =>
      refine ⟨hlaneOk, fun c hc => ?_, fun hc => ?_⟩
      · obtain ⟨c₀, hc₀, rfl⟩ := Option.map_eq_some_iff.1 hc
        rw [Copy.freeze_bytes]
        exact ⟨(h.present c₀ hc₀).1, Or.inl c₀.freeze_finalized⟩
      · exact h.absent (Option.map_eq_none_iff.1 hc)
  | append c bytes hcopy hopen hlane hgrow =>
    rcases (h.present c hcopy).2 with hf | hne
    · rw [hopen] at hf
      cases hf
    · exact absurd hlane hne

def HasGeneration (generation : Nat) (slot : Slot) : Prop :=
  ∃ c, slot.copy = some c ∧ c.generation = generation

theorem stable_hasGeneration {generation : Nat} : Stable lane (HasGeneration generation) := by
  rintro slot slot' hstep ⟨c, hc, hg⟩
  rcases hstep with ⟨⟨metadata, habsent⟩ | _ | _⟩ | _
  · rw [habsent] at hc
    cases hc
  · exact ⟨_, Option.map_eq_some_iff.2 ⟨c, hc, rfl⟩, hg⟩
  · exact ⟨_, Option.map_eq_some_iff.2 ⟨c, hc, rfl⟩, c.freeze_generation.trans hg⟩
  · exact ⟨_, Option.map_eq_some_iff.2 ⟨c, hc, rfl⟩, hg⟩

theorem Stable.and {P Q : Slot → Prop} (hP : Stable lane P) (hQ : Stable lane Q) :
    Stable lane fun slot => P slot ∧ Q slot :=
  fun slot slot' hstep h => ⟨hP slot slot' hstep h.1, hQ slot slot' hstep h.2⟩

/-! ## Triples about one zone -/

/-- An operation of recovery, which never rewrites or deletes an object. -/
def ReplicaOp.Keeps : {β : Type} → ReplicaOp β → Prop
  | _, .replaceAppendable .. => False
  | _, .delete _ => False
  | _, _ => True

theorem perform_step {op : ReplicaOp β} (hop : op.Keeps) (zone : Nat) (hlane : LaneOk lane slot) :
    (op.perform crc zone slot).1 = slot ∨ FenceStep lane slot (op.perform crc zone slot).1 := by
  cases op with
  | replaceAppendable => exact hop.elim
  | delete => exact hop.elim
  | snapshot =>
    simp only [ReplicaOp.perform]
    split <;> exact Or.inl rfl
  | stat =>
    simp only [ReplicaOp.perform]
    split <;> exact Or.inl rfl
  | readRange offset =>
    simp only [ReplicaOp.perform]
    split
    · exact Or.inl rfl
    · split_ifs <;> exact Or.inl rfl
  | createAppendSession metadata =>
    simp only [ReplicaOp.perform]
    split
    · rename_i habsent
      refine Or.inr (.create metadata habsent ?_)
      by_contra hsome
      obtain ⟨session, hsession⟩ := Option.ne_none_iff_exists'.1 hsome
      have hpresent := (hlane session hsession).1
      rw [habsent] at hpresent
      cases hpresent
    · exact Or.inl rfl
  | takeover observed =>
    simp only [ReplicaOp.perform]
    split
    · exact Or.inl rfl
    · split_ifs
      · exact Or.inl rfl
      · exact Or.inr .reopen
  | finalize token writeOffset =>
    simp only [ReplicaOp.perform]
    split
    · exact Or.inl rfl
    · split_ifs
      · exact Or.inl rfl
      · exact Or.inr .freeze

/-- Partial correctness of a program that works on one zone, in the environment of the segment. -/
def ZoneTriple (crc : Bytes → Nat) (lanes : Fin n → Option Nat) (zone : Fin n) (P : Slot → Prop)
    (p : ReplicaProg n α) (Q : α → Slot → Prop) : Prop :=
  ∀ w : Fin n → Slot, P (w zone) → wp (replicaMachine n crc) p (SlotsStep lanes) (FenceSteps lanes)
    (fun a w => Q a (w zone)) w

namespace ZoneTriple

variable {lanes : Fin n → Option Nat} {zone : Fin n} {P : Slot → Prop} {Q : α → Slot → Prop}

theorem ret {a : α} (hQ : Stable (lanes zone) (Q a)) (h : ∀ slot, P slot → Q a slot) :
    ZoneTriple crc lanes zone P (.ret a) Q :=
  fun _ hw _ hrely => hQ.of_rely hrely (h _ hw)

theorem bind {p : ReplicaProg n β} {f : β → ReplicaProg n α} {S : β → Slot → Prop}
    (hp : ZoneTriple crc lanes zone P p S)
    (hf : ∀ b, ZoneTriple crc lanes zone (S b) (f b) Q) :
    ZoneTriple crc lanes zone P (p.bind f) Q :=
  fun w hw => wp_seq (hp w hw) fun b w' hb => hf b w' hb

theorem mono {p : ReplicaProg n α} {P' : Slot → Prop} {Q' : α → Slot → Prop}
    (h : ZoneTriple crc lanes zone P p Q) (hP : ∀ slot, P' slot → P slot)
    (hQ : ∀ a slot, Q a slot → Q' a slot) : ZoneTriple crc lanes zone P' p Q' :=
  fun w hw => wp_mono (h w (hP _ hw)) (fun _ _ => id) (fun _ _ => id) fun a w' => hQ a (w' zone)

theorem exists_pre {ι : Type} {p : ReplicaProg n α} {P : ι → Slot → Prop}
    (h : ∀ i, ZoneTriple crc lanes zone (P i) p Q) :
    ZoneTriple crc lanes zone (fun slot => ∃ i, P i slot) p Q :=
  fun w ⟨i, hw⟩ => h i w hw

/-- One operation: the postcondition is checked for the answer and for every failure. -/
theorem replica {op : ReplicaOp α} (hop : op.Keeps) (hP : Stable (lanes zone) P)
    (hQ : ∀ a, Stable (lanes zone) (Q a)) (hlane : ∀ slot, P slot → LaneOk (lanes zone) slot)
    (hanswer : ∀ slot, P slot → Q (op.perform crc zone slot).2 (op.perform crc zone slot).1)
    (hfail : ∀ slot code, P slot → op.mayFail code = true → Q (op.failure ⟨zone, code⟩) slot) :
    ZoneTriple crc lanes zone P (Prog.replica zone op) Q := by
  intro w hw w₁ hrely ω w₂ b hexec
  have hw₁ := hP.of_rely hrely hw
  have hstep := @perform_step _ crc _ _ _ hop zone (hlane _ hw₁)
  have hG : FenceSteps lanes w₁ (Function.update w₁ zone (op.perform crc zone (w₁ zone)).1) := by
    intro z
    by_cases hz : z = zone
    · subst hz
      rw [Function.update_self]
      exact hstep
    · rw [Function.update_of_ne hz]
      exact Or.inl rfl
  cases ω with
  | answered =>
    simp only [replicaMachine, Option.some.injEq, Prod.mk.injEq] at hexec
    obtain ⟨rfl, rfl⟩ := hexec
    refine ⟨hG, fun w' hrely' => (hQ _).of_rely hrely' ?_⟩
    rw [Function.update_self]
    exact hanswer _ hw₁
  | failed code applied =>
    simp only [replicaMachine] at hexec
    split_ifs at hexec with hmay happlied
    · simp only [Option.some.injEq, Prod.mk.injEq] at hexec
      obtain ⟨rfl, rfl⟩ := hexec
      refine ⟨hG, fun w' hrely' => (hQ _).of_rely hrely' ?_⟩
      rw [Function.update_self]
      rcases hstep with heq | hstep
      · rw [heq]
        exact hfail _ code hw₁ hmay
      · exact hQ _ _ _ (.fence hstep) (hfail _ code hw₁ hmay)
    · simp only [Option.some.injEq, Prod.mk.injEq] at hexec
      obtain ⟨rfl, rfl⟩ := hexec
      exact ⟨fun z => Or.inl rfl, fun w' hrely' => (hQ _).of_rely hrely' (hfail _ code hw₁ hmay)⟩

/-- Retrying needs the precondition again after a transient failure. -/
theorem withRetry {p : ReplicaProg n (Except TransportError β)}
    {Q : Except TransportError β → Slot → Prop} (hQ : ∀ a, Stable (lanes zone) (Q a))
    (hp : ZoneTriple crc lanes zone P p fun a slot => P slot ∧ Q a slot) (attempts : Nat) :
    ZoneTriple crc lanes zone P (Chorus.withRetry p attempts) Q := by
  induction attempts with
  | zero => exact hp.mono (fun _ => id) fun _ _ => And.right
  | succ attempts ih =>
    refine hp.bind fun a => ?_
    cases a with
    | error error =>
      simp only
      split_ifs
      · exact ih.mono (fun _ => And.left) fun _ _ => id
      · exact ret (hQ _) fun _ => And.right
    | ok value => exact ret (hQ _) fun _ => And.right

end ZoneTriple

end Chorus
