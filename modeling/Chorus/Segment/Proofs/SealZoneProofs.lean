import Chorus.Concurrency.Proofs.Shape
import Chorus.Segment.SealSystem

/-!
# Enforcing a seal in one zone

What the requests of enforcement do to the copy of one zone, from the single operation up to
`enforceWitness`, in all modes: what success means, and that a zone that answers, or fails in
transient ways only, does not stop the enforcement.
-/

namespace Chorus

open Concurrency Relation

variable {n : Nat} {crc : Bytes → Nat} {modes : Fin n → ZoneMode} {zone : Fin n} {α β : Type}
  {w : Fin n → Slot} {slot : Slot}

def Elsewhere (zone : Fin n) (w w' : Fin n → Slot) : Prop := w' zone = w zone

def OnlyZone (zone : Fin n) (w w' : Fin n → Slot) : Prop :=
  ∀ other, other ≠ zone → w' other = w other

theorem elsewhere_trans {w w' : Fin n → Slot} (h : ReflTransGen (Elsewhere zone) w w') :
    w' zone = w zone := by
  induction h with
  | refl => rfl
  | tail _ hstep ih => exact hstep.trans ih

/-- A program on the copy of one zone, which nobody else changes, and what it leaves there. -/
def InZone (crc : Bytes → Nat) (modes : Fin n → ZoneMode) (zone : Fin n) (p : ReplicaProg n α)
    (Q : α → Slot → Prop) (slot : Slot) : Prop :=
  ∀ w, w zone = slot →
    wp (sealMachine n crc modes) p (Elsewhere zone) (OnlyZone zone) (fun a w => Q a (w zone)) w

namespace InZone

variable {p : ReplicaProg n α} {Q Q' : α → Slot → Prop}

theorem ret {a : α} (h : Q a slot) : InZone crc modes zone (.ret a) Q slot := by
  intro w hw w' hw'
  rw [elsewhere_trans hw', hw]
  exact h

theorem bind {f : α → ReplicaProg n β} {Q : β → Slot → Prop} {P : α → Slot → Prop}
    (h : InZone crc modes zone p P slot)
    (hf : ∀ a slot, P a slot → InZone crc modes zone (f a) Q slot) :
    InZone crc modes zone (p.bind f) Q slot :=
  fun w hw => wp_seq (h w hw) fun a w' ha => hf a (w' zone) ha w' rfl

end InZone

/-! ## One operation -/

/-- How one operation on a slot can end. -/
inductive OpResult (crc : Bytes → Nat) (mode : ZoneMode) (zone : Nat) (slot : Slot)
    (op : ReplicaOp β) : β → Slot → Prop where
  | answered : OpResult crc mode zone slot op (op.perform crc zone slot).2
      (op.perform crc zone slot).1
  | failed {code : TransportCode} (applied : Bool) (hmay : op.mayFail code = true)
      (hlets : mode.lets op code = true) : OpResult crc mode zone slot op (op.failure ⟨zone, code⟩)
        (if applied then (op.perform crc zone slot).1 else slot)
  | torn {code : TransportCode} {written : Nat} {slot' : Slot}
      (htear : op.tear slot written = some slot') (hlets : mode.lets op code = true) :
      OpResult crc mode zone slot op (op.failure ⟨zone, code⟩) slot'

theorem inZone_op {op : ReplicaOp β} {Q : β → Slot → Prop}
    (h : ∀ b slot', OpResult crc (modes zone) zone slot op b slot' → Q b slot') :
    InZone crc modes zone (Prog.replica zone op) Q slot := by
  intro w hw w₁ hw₁ outcome w₂ b hexec
  have hw₁ : w₁ zone = slot := (elsewhere_trans hw₁).trans hw
  subst hw₁
  have hdone : ∀ {slot' : Slot}, w₂ = Function.update w₁ zone slot' →
      OpResult crc (modes zone) zone (w₁ zone) op b slot' →
      OnlyZone zone w₁ w₂ ∧ wp (sealMachine n crc modes) (.ret b : ReplicaProg n β)
        (Elsewhere zone) (OnlyZone zone) (fun a w => Q a (w zone)) w₂ := by
    intro slot' hslot' hresult
    constructor
    · intro other hother
      rw [hslot', Function.update_of_ne hother]
    · refine InZone.ret (h b slot' hresult) w₂ ?_
      rw [hslot', Function.update_self]
  cases outcome with
  | replica outcome =>
    cases outcome with
    | answered =>
      cases hexec
      exact hdone rfl .answered
    | failed code applied =>
      simp only [sealMachine, replicaMachine] at hexec
      split_ifs at hexec with hlets hmay happlied
      · cases hexec
        exact hdone rfl (.failed true hmay hlets)
      · cases hexec
        exact hdone (Function.update_eq_self _ _).symm (.failed false hmay hlets)
  | torn written code =>
    simp only [sealMachine] at hexec
    split_ifs at hexec with hlets
    obtain ⟨slot', htear, heq⟩ := Option.map_eq_some_iff.1 hexec
    cases heq
    exact hdone rfl (.torn htear hlets)

/-! ## Reads -/

/-- The failures of a result are within the mode of its zone. -/
def ZoneMode.Admits (mode : ZoneMode) (r : Except TransportError α) : Prop :=
  ∀ error, r = .error error → mode ≠ .answering ∧ (mode = .lapsing → error.code.transient = true)

theorem ZoneMode.admits_ok {mode : ZoneMode} (a : α) : mode.Admits (.ok a) :=
  fun _ h => by cases h

theorem ZoneMode.admits_of_lets {mode : ZoneMode} {op : ReplicaOp β} {error : TransportError}
    (h : mode.lets op error.code = true) :
    mode.Admits (.error error : Except TransportError α) := by
  intro error' heq
  cases heq
  cases mode with
  | arbitrary => exact ⟨nofun, nofun⟩
  | lapsing =>
    simp only [lets, Bool.and_eq_true] at h
    exact ⟨nofun, fun _ => h.1⟩
  | answering => cases h

/-- The slot is as it was observed. An observation from metadata alone has no bytes. -/
def Slot.Shows (slot : Slot) : Option ReplicaSnapshot → Prop
  | none => slot.copy = none
  | some observed => ∃ c, slot.copy = some c ∧ observed.generation = c.generation ∧
      observed.metageneration = c.metageneration ∧ observed.finalized = c.finalized ∧
      observed.metadata = c.metadata ∧ (observed.bytes = c.bytes ∨ observed.bytes = [])

/-- How a read of a slot can end. -/
inductive ReadResult (mode : ZoneMode) (slot : Slot) :
    Except TransportError ReplicaSnapshot → Prop where
  | found {observed : ReplicaSnapshot} (h : slot.Shows (some observed)) :
      ReadResult mode slot (.ok observed)
  | absent {zone : Nat} (h : slot.copy = none) : ReadResult mode slot (.error ⟨zone, .notFound⟩)
  | failed {error : TransportError} (hcode : error.code ≠ .notFound)
      (hmode : mode.Admits (.error error : Except TransportError ReplicaSnapshot)) :
      ReadResult mode slot (.error error)

theorem inZone_read {op : ReplicaOp (Except TransportError ReplicaSnapshot)}
    (hop : op = .snapshot ∨ op = .stat) : InZone crc modes zone (Prog.replica zone op)
      (fun r slot' => slot' = slot ∧ ReadResult (modes zone) slot r) slot := by
  have hslot : (op.perform crc zone slot).1 = slot := by
    rcases hop with rfl | rfl <;> simp only [ReplicaOp.perform] <;> split <;> rfl
  refine inZone_op fun r slot' hresult => ?_
  cases hresult with
  | answered =>
    refine ⟨hslot, ?_⟩
    cases hcopy : slot.copy with
    | none =>
      rcases hop with rfl | rfl <;> simpa only [ReplicaOp.perform, hcopy] using .absent hcopy
    | some c =>
      rcases hop with rfl | rfl
      · simpa only [ReplicaOp.perform, hcopy] using .found ⟨c, hcopy, rfl, rfl, rfl,
          rfl, Or.inl rfl⟩
      · simpa only [ReplicaOp.perform, hcopy] using .found ⟨c, hcopy, rfl, rfl, rfl,
          rfl, Or.inr rfl⟩
  | failed applied hmay hlets =>
    rcases hop with rfl | rfl <;>
      exact ⟨by rw [hslot, ite_self], .failed (of_decide_eq_true hmay).1
        (ZoneMode.admits_of_lets hlets)⟩
  | torn htear hlets => rcases hop with rfl | rfl <;> cases htear

/-- A retry loop around an operation that keeps `I` and whose results satisfy `Q`. -/
theorem inZone_withRetry {op : ReplicaProg n (Except TransportError α)} {I : Slot → Prop}
    {Q : Except TransportError α → Slot → Prop}
    (hop : ∀ slot, I slot → InZone crc modes zone op (fun r slot => I slot ∧ Q r slot) slot)
    (attempts : Nat) (hI : I slot) :
    InZone crc modes zone (withRetry op attempts) (fun r slot => I slot ∧ Q r slot) slot := by
  induction attempts generalizing slot with
  | zero => exact hop slot hI
  | succ attempts ih =>
    refine (hop slot hI).bind fun r slot' hr => ?_
    cases r with
    | ok value => exact .ret hr
    | error error =>
      simp only
      by_cases htransient : error.code.transient = true
      · rw [if_pos htransient]
        exact ih hr.1
      · rw [if_neg htransient]
        exact .ret hr

theorem inZone_snapshotWithRetry (config : ClientConfig) :
    InZone crc modes zone (snapshotWithRetry config zone)
      (fun r slot' => slot' = slot ∧ ReadResult (modes zone) slot r) slot :=
  inZone_withRetry (fun slot' hslot' => by rw [hslot']; exact inZone_read (.inl rfl)) _ rfl

theorem inZone_statWithRetry (config : ClientConfig) :
    InZone crc modes zone (statWithRetry config zone)
      (fun r slot' => slot' = slot ∧ ReadResult (modes zone) slot r) slot :=
  inZone_withRetry (fun slot' hslot' => by rw [hslot']; exact inZone_read (.inr rfl)) _ rfl

theorem inZone_observeWithRetry (config : ClientConfig) :
    InZone crc modes zone (observeWithRetry config zone)
      (fun r slot' => slot' = slot ∧ (∀ observed, r = .ok observed → slot.Shows observed) ∧
        (modes zone).Admits r) slot := by
  refine (inZone_snapshotWithRetry config).bind fun r slot' hr => ?_
  obtain ⟨rfl, hread⟩ := hr
  cases hread with
  | found h =>
    refine .ret ⟨rfl, fun observed heq => ?_, ZoneMode.admits_ok _⟩
    cases heq
    exact h
  | absent h =>
    refine .ret ⟨rfl, fun observed heq => ?_, ZoneMode.admits_ok _⟩
    cases heq
    exact h
  | failed hcode hmode =>
    simp only [if_neg hcode]
    refine .ret ⟨rfl, nofun, fun error heq => ?_⟩
    cases heq
    exact hmode _ rfl

/-! ## Finalizing -/

def Slot.Has (slot : Slot) (generation : Nat) (data : Bytes) : Prop :=
  ∃ c, slot.copy = some c ∧ c.generation = generation ∧ c.bytes = data

theorem Slot.sealedWith_iff {data : Bytes} : slot.sealedWith data = true ↔
    ∃ c, slot.copy = some c ∧ c.finalized = true ∧ c.bytes = data := by
  simp only [Slot.sealedWith, Option.any_eq_true, Bool.and_eq_true, decide_eq_true_eq]

theorem Slot.Has.freeze {generation : Nat} {data : Bytes} (h : slot.Has generation data) :
    slot.freeze.Has generation data ∧ slot.freeze.sealedWith data = true := by
  obtain ⟨c, hcopy, hgen, hbytes⟩ := h
  have hfrozen : slot.freeze.copy = some c.freeze := by simp [Slot.freeze, hcopy]
  constructor
  · exact ⟨c.freeze, hfrozen, by simpa using hgen, by simpa using hbytes⟩
  · exact Slot.sealedWith_iff.2 ⟨c.freeze, hfrozen, by simp, by simpa using hbytes⟩

/-- What finalizing leaves: the copy is in place, and success means that it is sealed. -/
def FinalizeResult (mode : ZoneMode) (generation : Nat) (data : Bytes)
    (r : Except TransportError ReplicaSnapshot) (slot : Slot) : Prop :=
  slot.Has generation data ∧ (∀ snapshot, r = .ok snapshot → slot.sealedWith data = true) ∧
    mode.Admits r

variable {generation : Nat} {data : Bytes}

theorem inZone_finalize {token : AppendToken} (h : slot.Has generation data) :
    InZone crc modes zone (Prog.replica zone (.finalize token data.length))
      (FinalizeResult (modes zone) generation data) slot := by
  have hperform : ∃ snapshot, (ReplicaOp.finalize token data.length).perform crc zone slot =
      (slot.freeze, .ok snapshot) := by
    obtain ⟨c, hcopy, -, hbytes⟩ := h
    exact ⟨ReplicaOp.snapshotOf crc zone c.freeze, by simp [ReplicaOp.perform, hcopy, hbytes]⟩
  obtain ⟨snapshot, hperform⟩ := hperform
  refine inZone_op fun r slot' hresult => ?_
  cases hresult with
  | answered =>
    rw [hperform]
    exact ⟨h.freeze.1, fun _ _ => h.freeze.2, ZoneMode.admits_ok _⟩
  | failed applied hmay hlets =>
    refine ⟨?_, nofun, ZoneMode.admits_of_lets hlets⟩
    rw [hperform]
    cases applied with
    | true => exact h.freeze.1
    | false => exact h
  | torn htear hlets => cases htear

/-- Asking for the metadata resolves an ambiguous answer. -/
theorem inZone_finalizeAttempt (config : ClientConfig) {token : AppendToken}
    {retry : Option (ReplicaProg n (Except TransportError ReplicaSnapshot))}
    (hgen : token.generation = some generation) (h : slot.Has generation data)
    (hretry : ∀ again, retry = some again → ∀ slot : Slot, slot.Has generation data →
      InZone crc modes zone again (FinalizeResult (modes zone) generation data) slot) :
    InZone crc modes zone (finalizeAttempt config zone token data.length retry)
      (FinalizeResult (modes zone) generation data) slot := by
  unfold finalizeAttempt
  extract_lets resolve
  have hresolve :
      ∀ (unresolved : ReplicaProg n (Except TransportError ReplicaSnapshot)) (slot : Slot),
      slot.Has generation data →
      InZone crc modes zone unresolved (FinalizeResult (modes zone) generation data) slot →
      InZone crc modes zone (resolve generation unresolved)
        (FinalizeResult (modes zone) generation data) slot := by
    intro unresolved slot h hunresolved
    refine (inZone_statWithRetry config).bind fun r slot' hr => ?_
    obtain ⟨rfl, hread⟩ := hr
    cases hread with
    | found hshows =>
      simp only
      split
      · rename_i hfinal
        refine .ret ⟨h, fun _ _ => ?_, ZoneMode.admits_ok _⟩
        obtain ⟨c, hcopy, -, hbytes⟩ := h
        obtain ⟨c', hcopy', -, -, hfinalized, -⟩ := hshows
        rw [hcopy] at hcopy'
        cases hcopy'
        exact Slot.sealedWith_iff.2 ⟨c, hcopy, hfinalized ▸ hfinal.1, hbytes⟩
      · exact hunresolved
    | absent hnone =>
      obtain ⟨c, hcopy, -⟩ := h
      rw [hnone] at hcopy
      cases hcopy
    | failed hcode hmode => exact .ret ⟨h, nofun, hmode⟩
  refine (inZone_finalize h).bind fun r slot' hr => ?_
  cases r with
  | ok snapshot => exact .ret hr
  | error error =>
    simp only [hgen]
    by_cases htransient : error.code.transient = true
    · rw [if_pos htransient]
      cases retry with
      | none => exact .ret hr
      | some again => exact hresolve again slot' hr.1 (hretry again rfl slot' hr.1)
    · rw [if_neg htransient]
      split
      · exact hresolve _ slot' hr.1 (.ret hr)
      · exact .ret hr

theorem inZone_finalizeWithRetry (config : ClientConfig) {token : AppendToken} (attempts : Nat)
    (hgen : token.generation = some generation) (h : slot.Has generation data) :
    InZone crc modes zone (finalizeWithRetry config zone token data.length attempts)
      (FinalizeResult (modes zone) generation data) slot := by
  induction attempts generalizing slot with
  | zero => exact inZone_finalizeAttempt config hgen h nofun
  | succ attempts ih =>
    refine inZone_finalizeAttempt config hgen h fun again heq slot' h' => ?_
    cases heq
    exact ih h'

/-! ## Rewriting -/

theorem Slot.has_install (slot : Slot) (data : Bytes) (metadata : Metadata) :
    (slot.install data metadata).Has slot.nextId data :=
  ⟨_, rfl, rfl, rfl⟩

/-- What rewriting leaves: success means that the token names a generation with the new bytes. -/
def ReplaceResult (mode : ZoneMode) (data : Bytes) (r : Except TransportError AppendToken)
    (slot : Slot) : Prop :=
  (∀ token, r = .ok token → ∃ generation, token.generation = some generation ∧
    slot.Has generation data) ∧ mode.Admits r

theorem inZone_replaceAppendable {observed : Option ReplicaSnapshot} {metadata : Metadata}
    (h : slot.Shows observed) :
    InZone crc modes zone (Prog.replica zone (.replaceAppendable observed data metadata))
      (fun r slot => ReplaceResult (modes zone) data r slot) slot := by
  have hguard : slot.copy.map (fun c => (c.generation, c.metageneration)) =
      observed.map (fun o => (o.generation, o.metageneration)) := by
    cases observed with
    | none =>
      have hnone : slot.copy = none := h
      rw [hnone]
      rfl
    | some o =>
      obtain ⟨c, hcopy, hgen, hmeta, -⟩ := h
      rw [hcopy, Option.map_some, Option.map_some, hgen, hmeta]
  refine inZone_op fun r slot' hresult => ?_
  cases hresult with
  | answered =>
    simp only [ReplicaOp.perform, if_pos hguard]
    refine ⟨fun token htoken => ?_, ZoneMode.admits_ok _⟩
    cases htoken
    exact ⟨slot.nextId, rfl, slot.has_install data metadata⟩
  | failed applied hmay hlets => exact ⟨nofun, ZoneMode.admits_of_lets hlets⟩
  | torn htear hlets => exact ⟨nofun, ZoneMode.admits_of_lets hlets⟩

theorem inZone_replaceWithRetry (config : ClientConfig) {metadata : Metadata} (hdata : data ≠ [])
    (attempts : Nat) {observed : Option ReplicaSnapshot} (h : slot.Shows observed) :
    InZone crc modes zone (replaceWithRetry config zone data metadata attempts observed)
      (ReplaceResult (modes zone) data) slot := by
  induction attempts generalizing slot observed with
  | zero => exact inZone_replaceAppendable h
  | succ attempts ih =>
    refine (inZone_replaceAppendable h).bind fun r slot' hr => ?_
    cases r with
    | ok token => exact .ret hr
    | error error =>
      simp only
      split
      · refine (inZone_observeWithRetry config).bind fun r slot'' hr => ?_
        obtain ⟨rfl, hshows, hadmits⟩ := hr
        cases r with
        | error error =>
          refine .ret ⟨nofun, fun error' heq => ?_⟩
          cases heq
          exact hadmits _ rfl
        | ok observed' =>
          have hshows := hshows observed' rfl
          simp only
          split
          · rename_i current hcurrent
            -- the copy that is there is the result of the write whose answer was lost
            obtain ⟨hsome, hmatch⟩ := Option.filter_eq_some_iff.1 hcurrent
            refine .ret ⟨fun token htoken => ?_, ZoneMode.admits_ok _⟩
            cases htoken
            rw [hsome] at hshows
            obtain ⟨c, hcopy, hgen, -, -, -, hbytes⟩ := hshows
            simp only [decide_eq_true_eq] at hmatch
            refine ⟨current.generation, rfl, c, hcopy, hgen.symm, ?_⟩
            rcases hbytes with hbytes | hbytes
            · rw [← hbytes, hmatch.1]
            · exact absurd (hmatch.1.symm.trans hbytes) hdata
          · exact ih hshows
      · exact .ret hr

/-! ## The whole zone -/

/-- What enforcement leaves in one zone: the answer is right, a zone that answers is sealed, and one
that only fails in transient ways does not stop the enforcement. -/
def EnforceResult (mode : ZoneMode) (data : Bytes) (r : Except ProtocolError Bool) (slot : Slot) :
    Prop :=
  (r = .ok true → slot.sealedWith data = true) ∧ (mode = .answering → r = .ok true) ∧
    (mode = .lapsing → ∃ enforced, r = .ok enforced)

/-- A failure that leads to another attempt comes from a zone of which anything is expected. -/
theorem ZoneMode.Admits.arbitrary {mode : ZoneMode} {error : TransportError}
    (h : mode.Admits (.error error : Except TransportError α))
    (hcode : error.code.transient = false) : mode = .arbitrary := by
  obtain ⟨hanswering, hlapsing⟩ := h error rfl
  cases mode with
  | arbitrary => rfl
  | lapsing =>
    rw [hlapsing rfl] at hcode
    cases hcode
  | answering => exact absurd rfl hanswering

/-- After a failed attempt: start over, give up on this zone, or stop. -/
theorem inZone_failedAttempt {error : TransportError}
    {again : ReplicaProg n (Except ProtocolError Bool)}
    (hadmits : (modes zone).Admits (.error error : Except TransportError α))
    (hagain : modes zone = .arbitrary → ∀ slot, InZone crc modes zone again
      (EnforceResult (modes zone) data) slot) :
    InZone crc modes zone
      (if error.code = .failedPrecondition then again
        else if error.code.transient then .ret (.ok false) else .ret (.error (.transport error)))
      (EnforceResult (modes zone) data) slot := by
  by_cases hprecondition : error.code = .failedPrecondition
  · rw [if_pos hprecondition]
    exact hagain (hadmits.arbitrary (by rw [hprecondition]; rfl)) slot
  · rw [if_neg hprecondition]
    by_cases htransient : error.code.transient = true
    · rw [if_pos htransient]
      refine .ret ⟨nofun, fun hmode => ?_, fun _ => ⟨false, rfl⟩⟩
      exact absurd hmode (hadmits error rfl).1
    · rw [if_neg htransient]
      have hmode := hadmits.arbitrary (Bool.eq_false_iff.2 htransient)
      rw [hmode]
      exact .ret ⟨nofun, nofun, nofun⟩

theorem inZone_finishWitness (config : ClientConfig) {token : AppendToken}
    {again : ReplicaProg n (Except ProtocolError Bool)} (hgen : token.generation = some generation)
    (h : slot.Has generation data)
    (hagain : modes zone = .arbitrary → ∀ slot, InZone crc modes zone again
      (EnforceResult (modes zone) data) slot) :
    InZone crc modes zone (finishWitness config zone data again token)
      (EnforceResult (modes zone) data) slot := by
  refine (inZone_finalizeWithRetry config config.maxRetries hgen h).bind fun r slot' hr => ?_
  obtain ⟨-, hsealed, hadmits⟩ := hr
  cases r with
  | ok snapshot =>
    exact .ret ⟨fun _ => hsealed snapshot rfl, fun _ => rfl, fun _ => ⟨true, rfl⟩⟩
  | error error => exact inZone_failedAttempt hadmits hagain

def Slot.Open (slot : Slot) (generation : Nat) (data : Bytes) : Prop :=
  ∃ c, slot.copy = some c ∧ c.generation = generation ∧ c.bytes = data ∧ c.finalized = false

theorem Slot.Open.has (h : slot.Open generation data) : slot.Has generation data := by
  obtain ⟨c, hcopy, hgen, hbytes, -⟩ := h
  exact ⟨c, hcopy, hgen, hbytes⟩

theorem Slot.Open.reopen (h : slot.Open generation data) : slot.reopen.Open generation data := by
  obtain ⟨c, hcopy, hgen, hbytes, hopen⟩ := h
  exact ⟨{ c with session := slot.nextId }, by simp [Slot.reopen, hcopy], hgen, hbytes, hopen⟩

/-- An open copy can be fenced; only a zone of which anything is expected fails to. -/
theorem inZone_takeover {observed : ReplicaSnapshot} (h : slot.Open observed.generation data) :
    InZone crc modes zone (Prog.replica zone (.takeover observed))
      (fun r slot => slot.Open observed.generation data ∧
        (∀ token, r = .ok token → token.generation = some observed.generation) ∧
        ∀ error, r = .error error → modes zone = .arbitrary) slot := by
  have hperform : ∃ token, (ReplicaOp.takeover observed).perform crc zone slot =
      (slot.reopen, .ok token) ∧ token.generation = some observed.generation := by
    obtain ⟨c, hcopy, hgen, -, hopen⟩ := h
    exact ⟨⟨zone, some c.generation, some c.metageneration, c.bytes.length, some slot.nextId⟩,
      by simp [ReplicaOp.perform, hcopy, hopen, hgen], by rw [hgen]⟩
  obtain ⟨token, hperform, htoken⟩ := hperform
  refine inZone_op fun r slot' hresult => ?_
  cases hresult with
  | answered =>
    rw [hperform]
    refine ⟨h.reopen, fun token' heq => ?_, nofun⟩
    cases heq
    exact htoken
  | failed applied hmay hlets =>
    refine ⟨?_, nofun, fun _ _ => ?_⟩
    · rw [hperform]
      cases applied with
      | true => exact h.reopen
      | false => exact h
    · cases hmode : modes zone with
      | arbitrary => rfl
      | lapsing => simp [hmode, ZoneMode.lets, ReplicaOp.isTakeover] at hlets
      | answering => simp [hmode, ZoneMode.lets] at hlets
  | torn htear hlets => cases htear

theorem inZone_enforceWitness (config : ClientConfig) (hdata : data ≠ []) {attempts : Nat}
    {observed : Option ReplicaSnapshot} (h : slot.Shows observed)
    (hattempts : modes zone ≠ .arbitrary → 0 < attempts) :
    InZone crc modes zone (enforceWitness config zone data attempts observed)
      (EnforceResult (modes zone) data) slot := by
  induction attempts generalizing slot observed with
  | zero =>
    have hmode : modes zone = .arbitrary := by
      by_contra hmode
      exact absurd (hattempts hmode) (Nat.lt_irrefl 0)
    rw [hmode]
    exact .ret ⟨nofun, nofun, nofun⟩
  | succ attempts ih =>
    unfold enforceWitness
    extract_lets again
    have hagain : modes zone = .arbitrary → ∀ slot, InZone crc modes zone again
        (EnforceResult (modes zone) data) slot := by
      intro hmode slot
      refine (inZone_observeWithRetry config).bind fun r slot' hr => ?_
      obtain ⟨rfl, hshows, -⟩ := hr
      cases r with
      | error error =>
        rw [hmode]
        exact .ret ⟨nofun, nofun, nofun⟩
      | ok observed' => exact ih (hshows observed' rfl) fun hne => absurd hmode hne
    split
    · rename_i snapshot hsnapshot
      obtain ⟨hsome, hmatch⟩ := Option.filter_eq_some_iff.1 hsnapshot
      rw [hsome] at h
      obtain ⟨c, hcopy, hgen, -, hfinalized, -, hbytes⟩ := h
      have hbytes : c.bytes = data := by
        rw [decide_eq_true_eq] at hmatch
        rcases hbytes with hbytes | hbytes
        · rw [← hbytes, hmatch]
        · exact absurd (hmatch.symm.trans hbytes) hdata
      by_cases hsealed : snapshot.finalized = true
      · rw [if_pos hsealed]
        have hslot : slot.sealedWith data = true :=
          Slot.sealedWith_iff.2 ⟨c, hcopy, hfinalized ▸ hsealed, hbytes⟩
        exact .ret ⟨fun _ => hslot, fun _ => rfl, fun _ => ⟨true, rfl⟩⟩
      · rw [if_neg hsealed]
        have hopen : slot.Open snapshot.generation data :=
          ⟨c, hcopy, hgen.symm, hbytes, by rw [← hfinalized]; exact Bool.eq_false_iff.2 hsealed⟩
        refine (inZone_withRetry (fun slot' h' => inZone_takeover h') config.maxRetries hopen).bind
          fun r slot' hr => ?_
        obtain ⟨hopen', htoken, herror⟩ := hr
        cases r with
        | error error => exact hagain (herror error rfl) slot'
        | ok token => exact inZone_finishWitness config (htoken token rfl) hopen'.has hagain
    · refine (inZone_replaceWithRetry config hdata config.maxRetries h).bind fun r slot' hr => ?_
      obtain ⟨htoken, hadmits⟩ := hr
      cases r with
      | ok token =>
        obtain ⟨generation, hgen, hhas⟩ := htoken token rfl
        exact inZone_finishWitness config hgen hhas hagain
      | error error => exact inZone_failedAttempt hadmits hagain

end Chorus
