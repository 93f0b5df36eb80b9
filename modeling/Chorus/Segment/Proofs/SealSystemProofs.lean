import Chorus.Concurrency.Proofs.Termination
import Chorus.Segment.Proofs.SealProofs

/-!
# Seal enforcement keeps the decided bytes

Over any number of enforcements that crash at any step: as long as no copy of the decided bytes is
rewritten while it is the only one, some zone holds them at every step. Without that they can be
lost, since a rewrite first truncates the copy it replaces. An enforcement that a quorum of zones
answers succeeds.
-/

namespace Chorus

open Concurrency Quorum Relation

variable {n : Nat} {crc : Bytes → Nat} {config : ClientConfig} {data : Bytes}

/-! ## What enforcement sends -/

/-- The operation deletes nothing and writes nothing but the decided bytes. -/
def ZoneOp.enforces (data : Bytes) : {β : Type} → ZoneOp n β → Prop
  | _, .mk _ (.replaceAppendable _ bytes metadata) => bytes = data ∧ metadata = protocolMetadata
  | _, .mk _ (.createAppendSession _) => False
  | _, .mk _ (.delete _) => False
  | _, _ => True

section Sends

variable {zone : Fin n} {α : Type}

/-- The program sends nothing but operations of an enforcement. -/
abbrev SendsSeal (data : Bytes) (p : ReplicaProg n α) : Prop :=
  p.Sends fun op => op.enforces data

theorem sendsSeal_replica (op : ReplicaOp α) (h : (ZoneOp.mk zone op).enforces data) :
    SendsSeal data (Prog.replica zone op) :=
  ⟨h, fun _ => trivial⟩

theorem sendsSeal_withRetry {op : ReplicaProg n (Except TransportError α)} (h : SendsSeal data op)
    (attempts : Nat) : SendsSeal data (withRetry op attempts) := by
  induction attempts with
  | zero => exact h
  | succ attempts ih =>
    refine h.bind fun r => ?_
    cases r with
    | ok value => trivial
    | error error =>
      simp only
      split
      · exact ih
      · trivial

theorem sendsSeal_snapshotWithRetry : SendsSeal data (snapshotWithRetry config zone) :=
  sendsSeal_withRetry (sendsSeal_replica .snapshot trivial) _

theorem sendsSeal_statWithRetry : SendsSeal data (statWithRetry config zone) :=
  sendsSeal_withRetry (sendsSeal_replica .stat trivial) _

theorem sendsSeal_observeWithRetry : SendsSeal data (observeWithRetry config zone) :=
  sendsSeal_snapshotWithRetry.bind fun r => by cases r <;> trivial

theorem sendsSeal_finalizeAttempt {token : AppendToken} {writeOffset : Nat}
    {retry : Option (ReplicaProg n (Except TransportError ReplicaSnapshot))}
    (hretry : ∀ again, retry = some again → SendsSeal data again) :
    SendsSeal data (finalizeAttempt config zone token writeOffset retry) := by
  unfold finalizeAttempt
  extract_lets resolve
  have hresolve : ∀ generation unresolved, SendsSeal data unresolved →
      SendsSeal data (resolve generation unresolved) := by
    intro generation unresolved hunresolved
    refine sendsSeal_statWithRetry.bind fun r => ?_
    cases r with
    | error error => trivial
    | ok snapshot =>
      simp only
      split
      · trivial
      · exact hunresolved
  refine (sendsSeal_replica (.finalize token writeOffset) trivial).bind fun r => ?_
  cases r with
  | ok snapshot => trivial
  | error error =>
    simp only
    split
    · trivial
    · split
      · split
        · trivial
        · exact hresolve _ _ (hretry _ rfl)
      · split
        · exact hresolve _ _ trivial
        · trivial

theorem sendsSeal_finalizeWithRetry {token : AppendToken} {writeOffset : Nat} (attempts : Nat) :
    SendsSeal data (finalizeWithRetry config zone token writeOffset attempts) := by
  induction attempts with
  | zero => exact sendsSeal_finalizeAttempt nofun
  | succ attempts ih =>
    refine sendsSeal_finalizeAttempt fun again heq => ?_
    cases heq
    exact ih

theorem sendsSeal_replaceWithRetry (attempts : Nat) {observed : Option ReplicaSnapshot} :
    SendsSeal data (replaceWithRetry config zone data protocolMetadata attempts observed) := by
  induction attempts generalizing observed with
  | zero => exact sendsSeal_replica (.replaceAppendable observed data protocolMetadata) ⟨rfl, rfl⟩
  | succ attempts ih =>
    refine (sendsSeal_replica (.replaceAppendable observed data protocolMetadata) ⟨rfl, rfl⟩).bind
      fun r => ?_
    cases r with
    | ok token => trivial
    | error error =>
      simp only
      split
      · refine sendsSeal_observeWithRetry.bind fun r => ?_
        cases r with
        | error error => trivial
        | ok observed =>
          simp only
          split
          · trivial
          · exact ih
      · trivial

theorem sendsSeal_finishWitness {token : AppendToken}
    {again : ReplicaProg n (Except ProtocolError Bool)} (hagain : SendsSeal data again) :
    SendsSeal data (finishWitness config zone data again token) := by
  refine (sendsSeal_finalizeWithRetry _).bind fun r => ?_
  cases r with
  | ok snapshot => trivial
  | error error =>
    simp only
    split
    · exact hagain
    · split <;> trivial

theorem sendsSeal_enforceWitness (attempts : Nat) {observed : Option ReplicaSnapshot} :
    SendsSeal data (enforceWitness config zone data attempts observed) := by
  induction attempts generalizing observed with
  | zero => trivial
  | succ attempts ih =>
    unfold enforceWitness
    extract_lets again
    have hagain : SendsSeal data again := by
      refine sendsSeal_observeWithRetry.bind fun r => ?_
      cases r with
      | error error => trivial
      | ok observed => exact ih
    split
    · split
      · trivial
      · rename_i snapshot _ _
        refine (sendsSeal_withRetry (sendsSeal_replica (.takeover snapshot) trivial) _).bind
          fun r => ?_
        cases r with
        | error error => exact hagain
        | ok token => exact sendsSeal_finishWitness hagain
    · refine (sendsSeal_replaceWithRetry _).bind fun r => ?_
      cases r with
      | ok token => exact sendsSeal_finishWitness hagain
      | error error =>
        simp only
        split
        · exact hagain
        · split <;> trivial

theorem sendsSeal_enforceAll {targets : List (Fin n × Option ReplicaSnapshot)} {finalized : Nat} :
    SendsSeal data (enforceAll config data targets finalized) := by
  induction targets generalizing finalized with
  | nil => trivial
  | cons target targets ih =>
    refine (sendsSeal_enforceWitness _).bind fun r => ?_
    rcases r with error | enforced
    · trivial
    · cases enforced with
      | true => exact ih
      | false => exact ih

theorem sendsSeal_planSeal {observed : Fin n → SealObservation} {zones : List (Fin n)}
    {plan : SealPlan n} : SendsSeal data (planSeal config observed zones plan) := by
  induction zones generalizing plan with
  | nil => trivial
  | cons zone zones ih =>
    unfold planSeal
    split
    · exact ih
    · exact ih
    · split
      · exact ih
      · split
        · refine sendsSeal_statWithRetry.bind fun r => ?_
          cases r with
          | ok snapshot => exact ih
          | error error =>
            simp only
            split
            · exact ih
            · split
              · exact ih
              · trivial
        · split
          · exact ih
          · trivial

theorem sendsSeal_observeForSeal {tail : RecoveredTail} :
    SendsSeal data (observeForSeal config tail zone) := by
  have hread : SendsSeal data ((snapshotWithRetry config zone).bind fun result =>
      .ret (SealObservation.read result)) := sendsSeal_snapshotWithRetry.bind fun _ => trivial
  unfold observeForSeal
  extract_lets read
  split
  · exact hread
  · refine sendsSeal_statWithRetry.bind fun r => ?_
    cases r with
    | error error => exact hread
    | ok current =>
      simp only
      split
      · trivial
      · exact hread

theorem sendsSeal_enforceSeal {tail : RecoveredTail} (h : tail.canonical.bytes = data) :
    SendsSeal data (enforceSeal config tail : ReplicaProg n _) := by
  refine Prog.Sends.bind ⟨fun zone => sendsSeal_observeForSeal, fun _ => trivial⟩ fun observed => ?_
  refine sendsSeal_planSeal.bind fun r => ?_
  cases r with
  | error error => trivial
  | ok plan =>
    rw [h]
    refine sendsSeal_enforceAll.bind fun r => ?_
    cases r <;> trivial

end Sends

/-! ## What one step does to the copies -/

/-- The zone whose copy the operation rewrites. -/
def ZoneOp.rewrites? : {β : Type} → ZoneOp n β → Option (Fin n)
  | _, .mk zone (.replaceAppendable ..) => some zone
  | _, _ => none

/-- No copy of the decided bytes is rewritten while it is the only one. -/
def RewriteGuarded (data : Bytes) (s : SealSystem n) : SealSystem.Action n → Prop
  | .step choice => ∀ prog op zone, s.running = some prog → prog.next? choice = some op →
      op.2.rewrites? = some zone → (s.slots zone).holds data = true →
      ∃ other, other ≠ zone ∧ (s.slots other).holds data = true
  | _ => True

/-- What the operations of an enforcement do to one slot. -/
inductive EnforceStep {β : Type} (data : Bytes) (zone : Fin n) (op : ReplicaOp β) (slot : Slot) :
    Slot → Prop where
  | same : EnforceStep data zone op slot slot
  | reopen : EnforceStep data zone op slot slot.reopen
  | freeze : EnforceStep data zone op slot slot.freeze
  | install (written : Nat) (h : (ZoneOp.mk zone op).rewrites? = some zone) :
      EnforceStep data zone op slot (slot.install (data.take written) protocolMetadata)

section Effect

variable {β : Type} {op : ReplicaOp β} {zone : Fin n} {slot slot' : Slot}

theorem EnforceStep.of_perform (h : (ZoneOp.mk zone op).enforces data) :
    EnforceStep data zone op slot (op.perform crc zone slot).1 := by
  cases op with
  | snapshot =>
    simp only [ReplicaOp.perform]
    split <;> exact .same
  | readRange offset =>
    simp only [ReplicaOp.perform]
    split
    · exact .same
    · split_ifs <;> exact .same
  | stat =>
    simp only [ReplicaOp.perform]
    split <;> exact .same
  | createAppendSession metadata => exact h.elim
  | takeover observed =>
    simp only [ReplicaOp.perform]
    split
    · exact .same
    · split_ifs
      · exact .same
      · exact .reopen
  | replaceAppendable observed bytes metadata =>
    obtain ⟨rfl, rfl⟩ := h
    simp only [ReplicaOp.perform]
    split_ifs
    · have hinstall :
          EnforceStep bytes zone (.replaceAppendable observed bytes protocolMetadata) slot _ :=
        .install bytes.length rfl
      rwa [List.take_length] at hinstall
    · exact .same
  | finalize token writeOffset =>
    simp only [ReplicaOp.perform]
    split
    · exact .same
    · split_ifs
      · exact .same
      · exact .freeze
  | delete generation => exact h.elim

theorem EnforceStep.of_tear {written : Nat} (h : (ZoneOp.mk zone op).enforces data)
    (htear : op.tear slot written = some slot') : EnforceStep data zone op slot slot' := by
  cases op with
  | replaceAppendable observed bytes metadata =>
    obtain ⟨rfl, rfl⟩ := h
    simp only [ReplicaOp.tear] at htear
    split_ifs at htear
    cases htear
    exact .install written rfl
  | _ => cases htear

theorem enforceStep_of_exec {modes : Fin n → ZoneMode} {w w' : Fin n → Slot}
    {outcome : SealOutcome} {b : β} (h : (ZoneOp.mk zone op).enforces data)
    (hexec : (sealMachine n crc modes).exec w (.mk zone op) outcome = some (w', b)) :
    ∃ slot', w' = Function.update w zone slot' ∧ EnforceStep data zone op (w zone) slot' := by
  cases outcome with
  | replica outcome =>
    cases outcome with
    | answered =>
      cases hexec
      exact ⟨_, rfl, .of_perform h⟩
    | failed code applied =>
      simp only [sealMachine, replicaMachine] at hexec
      split_ifs at hexec
      · cases hexec
        exact ⟨_, rfl, .of_perform h⟩
      · cases hexec
        exact ⟨w zone, (Function.update_eq_self _ _).symm, .same⟩
  | torn written code =>
    simp only [sealMachine] at hexec
    split_ifs at hexec
    obtain ⟨slot', htear, heq⟩ := Option.map_eq_some_iff.1 hexec
    cases heq
    exact ⟨slot', rfl, .of_tear h htear⟩

/-- Only a rewrite can take the decided bytes out of a copy. -/
theorem EnforceStep.holds (h : EnforceStep data zone op slot slot')
    (hholds : slot.holds data = true) :
    slot'.holds data = true ∨ (ZoneOp.mk zone op).rewrites? = some zone := by
  obtain ⟨c, hcopy, hprefix⟩ := (Option.any_eq_true _ _).1 hholds
  cases h with
  | same => exact Or.inl hholds
  | reopen =>
    left
    simpa [Slot.holds, Slot.reopen, hcopy] using hprefix
  | freeze =>
    left
    simpa [Slot.holds, Slot.freeze, hcopy] using hprefix
  | install written hrewrites => exact Or.inr hrewrites

def WellFormatted (w : Fin n → Slot) : Prop :=
  ∀ zone c, (w zone).copy = some c → validFormat c.metadata = true

theorem EnforceStep.wellFormatted {w : Fin n → Slot} (h : EnforceStep data zone op (w zone) slot')
    (hw : WellFormatted w) : WellFormatted (Function.update w zone slot') := by
  intro other c hc
  by_cases hother : other = zone
  · subst hother
    rw [Function.update_self] at hc
    cases h with
    | same => exact hw other c hc
    | reopen =>
      obtain ⟨c₀, hc₀, rfl⟩ := Option.map_eq_some_iff.1 hc
      exact hw other c₀ hc₀
    | freeze =>
      obtain ⟨c₀, hc₀, rfl⟩ := Option.map_eq_some_iff.1 hc
      rw [Copy.freeze_metadata]
      exact hw other c₀ hc₀
    | install written hrewrites =>
      cases hc
      rfl
  · rw [Function.update_of_ne hother] at hc
    exact hw other c hc

end Effect

/-! ## Every run -/

structure SealInv (crc : Bytes → Nat) (data : Bytes) (s : SealSystem n) : Prop where
  holds : ∃ zone, (s.slots zone).holds data = true
  wellFormatted : WellFormatted s.slots
  sends : ∀ prog, s.running = some prog → SendsSeal data prog
  enforcing : ∀ prog, s.running = some prog → Enforcing crc (fun _ => .arbitrary) prog
    (fun r w => r = .ok () → majority n ≤ sealedZones data w) s.slots

theorem SealInv.step {s s' : SealSystem n} {action : SealSystem.Action n}
    (h : SealInv crc data s) (hok : RewriteGuarded data s action)
    (hs : s.step crc config data action = some s') : SealInv crc data s' := by
  cases action with
  | start tail =>
    simp only [SealSystem.step] at hs
    split_ifs at hs with hstart
    cases hs
    have hgenuine := hstart.2
    refine ⟨h.holds, h.wellFormatted, fun prog hprog => ?_, fun prog hprog => ?_⟩
    · cases hprog
      exact sendsSeal_enforceSeal (RecoveredTail.genuine_iff.1 hgenuine).1.1
    · cases hprog
      refine wp_mono (enforcing_enforceSeal config hgenuine nofun) (fun _ _ => id) (fun _ _ => id)
        fun r w hr => hr.1
  | stop =>
    cases hs
    exact ⟨h.holds, h.wellFormatted, nofun, nofun⟩
  | step choice =>
    obtain ⟨prog, hprog, hs⟩ := Option.bind_eq_some_iff.1 hs
    obtain ⟨⟨w, prog'⟩, hstep, rfl⟩ := Option.map_eq_some_iff.1 hs
    have hslots : (∃ zone, (w zone).holds data = true) ∧ WellFormatted w := by
      rcases Machine.step_next hstep with rfl | ⟨⟨β, op⟩, outcome, b, hnext, hexec⟩
      · exact ⟨h.holds, h.wellFormatted⟩
      · obtain ⟨zone, op⟩ := op
        have henforces := (h.sends prog hprog).next hnext
        obtain ⟨slot', rfl, hslot⟩ := enforceStep_of_exec henforces hexec
        refine ⟨?_, hslot.wellFormatted h.wellFormatted⟩
        obtain ⟨holder, hholder⟩ := h.holds
        by_cases hzone : holder = zone
        · subst hzone
          rcases hslot.holds hholder with hkept | hrewrites
          · exact ⟨holder, by rwa [Function.update_self]⟩
          · obtain ⟨other, hne, hother⟩ := hok prog _ holder hprog hnext hrewrites hholder
            exact ⟨other, by rwa [Function.update_of_ne hne]⟩
        · exact ⟨holder, by rwa [Function.update_of_ne hzone]⟩
    refine ⟨hslots.1, hslots.2, fun p hp => ?_, fun p hp => ?_⟩
    · cases hp
      exact (h.sends prog hprog).step hstep
    · cases hp
      exact (wp_step (h.enforcing prog hprog) hstep).2

theorem sealMachine_live (modes : Fin n → ZoneMode) (w : Fin n → Slot) {β : Type}
    (op : ZoneOp n β) : ∃ outcome r, (sealMachine n crc modes).exec w op outcome = some r := by
  obtain ⟨zone, op⟩ := op
  exact ⟨.replica .answered, _, rfl⟩

/-- Over any number of enforcements of the same decided bytes, with any failures, torn rewrites and
crashes: some zone holds the bytes at every step; success means that a quorum holds sealed copies of
exactly these bytes; and a further enforcement ends with success if a quorum of zones answers it and
the other zones fail in transient ways only and not on a takeover. -/
theorem enforceSeal_keeps {slots : Fin n → Slot} {s : SealSystem n}
    (hholds : ∃ zone, (slots zone).holds data = true) (hformat : WellFormatted slots)
    (hrun : Reaches (SealSystem.step crc config data) (RewriteGuarded data) (.init slots) s) :
    (∃ zone, (s.slots zone).holds data = true) ∧
    (∀ prog, s.running = some prog → prog.value? = some (.ok ()) →
      majority n ≤ sealedZones data s.slots) ∧
    ∀ (tail : RecoveredTail) (modes : Fin n → ZoneMode), tail.genuine data s.slots = true →
      (∀ zone, modes zone ≠ .arbitrary) →
      majority n ≤ (Finset.univ.filter fun zone => modes zone = .answering).card →
      Ends (sealMachine n crc modes) (fun r w => r = .ok () ∧ majority n ≤ sealedZones data w)
        (enforceSeal config tail) s.slots := by
  have hinv : SealInv crc data s :=
    hrun.invariant ⟨hholds, hformat, nofun, nofun⟩ fun _ _ _ h hok hs => h.step hok hs
  refine ⟨hinv.holds, fun prog hprog hvalue => wp_value (hinv.enforcing prog hprog) hvalue rfl,
    fun tail modes hgenuine hmodes hquorum => ?_⟩
  have henforcing : Enforcing crc modes (enforceSeal config tail) _ s.slots :=
    enforcing_enforceSeal config hgenuine fun zone _ => hinv.wellFormatted zone
  refine ends_of_wp (fun w _ op => sealMachine_live modes w op) (wp_mono henforcing (fun _ _ => id)
    (fun _ _ => id) fun r w hr => ?_)
  have hok := hr.2 hmodes hquorum
  exact ⟨hok, hr.1 hok⟩

/-! ### Enforcements that fail -/

namespace SealExample

def decided : Bytes := RecordFrame.chunk ⟨[7]⟩

def tail (witnesses : List SealedWitness) : RecoveredTail :=
  ⟨⟨decided, [5]⟩, crc32c decided, false, witnesses⟩

def copy (bytes : Bytes) : Slot := Slot.empty.install bytes protocolMetadata

/-- Only the first zone holds the decided bytes, followed by bytes that were never acknowledged. -/
def speculative (zone : Fin 3) : Slot :=
  copy (if zone = 0 then decided ++ [0, 0] else decided.take 2)

def observe : List (Choice SealOutcome 3) :=
  (List.finRange 3).map (fun (zone : Fin 3) => .task zone (.op (.replica .answered))) ++ [.gather]

def breakOff (written : Nat) : Choice SealOutcome 3 := .op (.torn written .unavailable)

/-- All three rewrites break off. -/
def losing : List (SealSystem.Action 3) :=
  .start (tail []) :: (observe ++ [breakOff 3, breakOff 3, breakOff 1]).map .step

def openCopies (_ : Fin 3) : Slot := copy decided

/-- Zone 0 answers the first read and nothing afterwards. -/
def firstDown (zone : Fin 3) : ZoneMode := if zone = 0 then .arbitrary else .answering

def unavailable : Choice SealOutcome 3 := .op (.replica (.failed .unavailable false))

/-- One copy has bytes too many, one is exact and one is missing. -/
def mixed (zone : Fin 3) : Slot :=
  if zone = 0 then copy (decided ++ [0, 0]) else if zone = 1 then copy decided else .empty

/-- The first rewrite breaks off; the other two zones are sealed. -/
def sealing : List (SealSystem.Action 3) :=
  .start (tail []) :: (observe ++ breakOff 3 :: List.replicate 4
    (.op (.replica .answered))).map .step

def lapsingFirst (zone : Fin 3) : ZoneMode := if zone = 0 then .lapsing else .answering

end SealExample

def rewriteCheck (data : Bytes) (s : SealSystem n) : SealSystem.Action n → Bool
  | .step choice => (s.running.bind fun prog => prog.next? choice).all fun op =>
      op.2.rewrites?.all fun zone => !(s.slots zone).holds data ||
        (List.finRange n).any fun other => decide (other ≠ zone) && (s.slots other).holds data
  | _ => true

theorem rewriteGuarded_of_check {s : SealSystem n} {action : SealSystem.Action n}
    (h : rewriteCheck data s action = true) : RewriteGuarded data s action := by
  cases action with
  | step choice =>
    intro prog op zone hprog hop hzone hholds
    simp only [rewriteCheck, hprog, Option.bind_some, hop, Option.all_some, hzone, hholds,
      Bool.not_true, Bool.false_or, List.any_eq_true, Bool.and_eq_true, decide_eq_true_eq] at h
    obtain ⟨other, -, hother⟩ := h
    exact ⟨other, hother⟩
  | _ => trivial


open SealExample in
/-- A rewrite breaks off while another zone holds the bytes. The enforcement succeeds with the two
other zones, and so does the next one. -/
theorem enforceSeal_keeps_torn : ∃ s, Reaches (SealSystem.step crc32c ⟨0⟩ decided)
      (RewriteGuarded decided) (.init mixed) s ∧ (s.slots 0).holds decided = false ∧
    2 ≤ sealedZones decided s.slots ∧
    Ends (sealMachine 3 crc32c lapsingFirst)
      (fun r w => r = .ok () ∧ majority 3 ≤ sealedZones decided w)
      (enforceSeal ⟨0⟩ (tail [])) s.slots := by
  have hrun : (runChecked (SealSystem.step crc32c ⟨0⟩ decided) (rewriteCheck decided) (.init mixed)
      sealing).any (fun s => !(s.slots 0).holds decided &&
        s.running.any fun prog => decide (prog.value? = some (.ok ()))) = true := by
    decide +kernel
  obtain ⟨s, hreach, hfacts⟩ := exists_reaches (fun _ _ => rewriteGuarded_of_check) hrun
  rw [Bool.and_eq_true, Bool.not_eq_true'] at hfacts
  obtain ⟨prog, hprog, hvalue⟩ := (Option.any_eq_true _ _).1 hfacts.2
  have hformat : WellFormatted mixed := by
    intro zone c hc
    unfold mixed at hc
    split_ifs at hc
    · cases hc
      rfl
    · cases hc
      rfl
    · cases hc
  obtain ⟨-, hsealed, hagain⟩ := enforceSeal_keeps ⟨1, by decide⟩ hformat hreach
  exact ⟨s, hreach, hfacts.1, hsealed prog hprog (of_decide_eq_true hvalue),
    hagain (tail []) lapsingFirst (by simp [RecoveredTail.genuine, tail, decided, RecordFrame.chunk,
      RecordFrame.putU32]) (by decide) (by decide)⟩

open SealExample in
/-- The three rewrites of an enforcement break off one after the other, and no zone holds the
decided bytes any more. And an enforcement that two of three zones answer fails, since the third
zone refuses the takeover and the read after it. -/
theorem enforceSeal_loses_data :
    (∃ s, Reaches (SealSystem.step crc32c ⟨0⟩ decided) (fun _ _ => True) (.init speculative) s ∧
      (speculative 0).holds decided = true ∧ ∀ zone, (s.slots zone).holds decided = false) ∧
    (∃ w error, (sealMachine 3 crc32c firstDown).run openCopies (enforceSeal ⟨0⟩ (tail []))
      (observe ++ [unavailable, unavailable]) = some (w, .ret (.error error)) ∧
      (tail []).genuine decided openCopies = true) := by
  constructor
  · have hrun : (runChecked (SealSystem.step crc32c ⟨0⟩ decided) (fun _ _ => true)
        (.init speculative)
        losing).any (fun s => decide (∀ zone, (s.slots zone).holds decided = false)) = true := by
      decide +kernel
    obtain ⟨s, hreach, hlost⟩ := exists_reaches (fun _ _ _ => trivial) hrun
    exact ⟨s, hreach, by decide, of_decide_eq_true hlost⟩
  · have hrun : ((sealMachine 3 crc32c firstDown).run openCopies (enforceSeal ⟨0⟩ (tail []))
        (observe ++ [unavailable, unavailable])).any (fun r =>
          r.2.value?.any fun result =>
            decide (result = .error (.transport ⟨0, .unavailable⟩))) = true := by
      decide +kernel
    obtain ⟨⟨w, prog⟩, hs, hvalue⟩ := (Option.any_eq_true _ _).1 hrun
    obtain ⟨result, hresult, hfailed⟩ := (Option.any_eq_true _ _).1 hvalue
    cases prog with
    | ret r =>
      cases hresult
      exact ⟨w, _, by rw [hs, of_decide_eq_true hfailed], by decide⟩
    | call op k => cases hresult
    | join ts k => cases hresult

end Chorus
