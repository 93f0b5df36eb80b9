import Chorus.Segment.Proofs.SealZoneProofs

/-!
# Enforcing a seal on a quorum

`enforceSeal` looks at every zone, plans, and enforces zone by zone. The `Agenda` of an enforcement
is the set of zones that are sealed already and the list of those that are still to be enforced,
each with an observation that nobody has outdated. At the end the sealed zones are counted.
-/

namespace Chorus

open Concurrency Quorum Relation

variable {n : Nat} {crc : Bytes → Nat} {modes : Fin n → ZoneMode} {data : Bytes}
  {w : Fin n → Slot}

/-- Nobody else is at work. -/
def Undisturbed (w w' : Fin n → Slot) : Prop := w' = w

/-- A program of the only caller, with its postcondition. -/
abbrev Enforcing {α : Type} (crc : Bytes → Nat) (modes : Fin n → ZoneMode) (p : ReplicaProg n α)
    (Q : α → (Fin n → Slot) → Prop) (w : Fin n → Slot) : Prop :=
  wp (sealMachine n crc modes) p Undisturbed (fun _ _ => True) Q w

theorem undisturbed_trans {w w' : Fin n → Slot} (h : ReflTransGen Undisturbed w w') : w' = w := by
  induction h with
  | refl => rfl
  | tail _ hstep ih => exact hstep.trans ih

theorem enforcing_ret {α : Type} {a : α} {Q : α → (Fin n → Slot) → Prop} (h : Q a w) :
    Enforcing crc modes (.ret a : ReplicaProg n α) Q w := by
  intro w' hw'
  rw [undisturbed_trans hw']
  exact h

/-- What happens in one zone leaves the others alone. -/
theorem InZone.enforcing {α : Type} {zone : Fin n} {p : ReplicaProg n α} {Q : α → Slot → Prop}
    (h : InZone crc modes zone p Q (w zone)) :
    Enforcing crc modes p (fun a w' => Q a (w' zone) ∧ OnlyZone zone w w') w := by
  have hzone : wp (sealMachine n crc modes) p Undisturbed (OnlyZone zone)
      (fun a w' => Q a (w' zone)) w :=
    wp_mono (h w rfl) (fun _ _ heq => congrFun heq zone) (fun _ _ => id) fun _ _ => id
  have hframe := wp_frame (OnlyZone zone w) hzone (fun _ _ => rfl)
    (fun _ _ heq hsame other hother => (congrFun heq other).trans (hsame other hother))
    (fun _ _ hstep hsame other hother => (hstep other hother).trans (hsame other hother))
  exact wp_mono hframe (fun _ _ => id) (fun _ _ _ => trivial) fun _ _ => id

/-! ## Looking at every zone -/

/-- What enforcement knows of a zone that it has looked at. -/
inductive Seen (mode : ZoneMode) (data : Bytes) (slot : Slot) : SealObservation → Prop where
  | sealed (h : slot.sealedWith data = true) : Seen mode data slot .sealed
  | read {r : Except TransportError ReplicaSnapshot} (h : ReadResult mode slot r) :
      Seen mode data slot (.read r)

theorem RecoveredTail.genuine_iff {tail : RecoveredTail} : tail.genuine data w = true ↔
    (tail.canonical.bytes = data ∧ data ≠ []) ∧ ∀ witness ∈ tail.sealedWitnesses, ∀ zone : Fin n,
      zone.val = witness.zone → ∀ c, (w zone).copy = some c → c.generation = witness.generation →
        c.finalized = true ∧ c.bytes = data := by
  simp only [RecoveredTail.genuine, SealedWitness.genuine, Bool.and_eq_true, decide_eq_true_eq,
    List.all_eq_true, List.mem_finRange, true_imp_iff, Bool.or_eq_true, Option.all_eq_true]
  constructor
  · rintro ⟨hdata, hwitness⟩
    refine ⟨hdata, fun witness hmem zone hzone c hc hgen => ?_⟩
    have hall := (hwitness witness hmem zone).resolve_left (not_not.2 hzone)
    exact (hall c hc).resolve_left (not_not.2 hgen)
  · rintro ⟨hdata, hwitness⟩
    refine ⟨hdata, fun witness hmem zone => ?_⟩
    by_cases hzone : zone.val = witness.zone
    · refine Or.inr fun c hc => ?_
      by_cases hgen : c.generation = witness.generation
      · exact Or.inr (hwitness witness hmem zone hzone c hc hgen)
      · exact Or.inl hgen
    · exact Or.inl hzone

theorem inZone_observeForSeal (config : ClientConfig) {tail : RecoveredTail} {zone : Fin n}
    (hgenuine : tail.genuine data w = true) :
    InZone crc modes zone (observeForSeal config tail zone)
      (fun observed slot => slot = w zone ∧ Seen (modes zone) data (w zone) observed) (w zone) := by
  have hread : InZone crc modes zone ((snapshotWithRetry config zone).bind fun result =>
      .ret (SealObservation.read result)) (fun observed slot =>
        slot = w zone ∧ Seen (modes zone) data (w zone) observed) (w zone) :=
    (inZone_snapshotWithRetry config).bind fun r slot hr => .ret ⟨hr.1, .read hr.2⟩
  unfold observeForSeal
  extract_lets read
  split
  · exact hread
  · rename_i witness hwitness
    refine (inZone_statWithRetry config).bind fun r slot hr => ?_
    obtain ⟨rfl, hresult⟩ := hr
    cases hresult with
    | found hshows =>
      simp only
      split
      · rename_i hmatch
        obtain ⟨c, hcopy, hgen, -⟩ := hshows
        have hmem := List.mem_of_find?_eq_some hwitness
        have hzone : zone.val = witness.zone := by
          have := List.find?_some hwitness
          exact (of_decide_eq_true this).symm
        obtain ⟨hfinal, hbytes⟩ :=
          (RecoveredTail.genuine_iff.1 hgenuine).2 witness hmem zone hzone c
          hcopy (hgen.symm.trans hmatch.1)
        exact .ret ⟨rfl, .sealed (Slot.sealedWith_iff.2 ⟨c, hcopy, hfinal, hbytes⟩)⟩
      · exact hread
    | absent hnone => exact hread
    | failed hcode hmode => exact hread

theorem enforcing_observe (config : ClientConfig) {tail : RecoveredTail} {α : Type}
    {f : (Fin n → SealObservation) → ReplicaProg n α} {Q : α → (Fin n → Slot) → Prop}
    (hgenuine : tail.genuine data w = true)
    (hf : ∀ observed, (∀ zone, Seen (modes zone) data (w zone) (observed zone)) →
      Enforcing crc modes (f observed) Q w) :
    Enforcing crc modes ((Prog.joinAll (observeForSeal config tail)).bind f) Q w := by
  refine wp_join (fun zone observed w' => w' zone = w zone ∧ Seen (modes zone) data
    (w zone) observed)
    OnlyZone (fun zone => ?_) (fun _ _ _ _ => trivial) fun w' observed _ hobserved => ?_
  · refine wp_mono (inZone_observeForSeal config hgenuine w rfl) (fun a b hstep => ?_)
      (fun _ _ => id) fun _ _ => id
    rcases hstep with hstep | ⟨other, hother, hstep⟩
    · exact congrFun hstep zone
    · exact hstep zone hother.symm
  · have hsame : w' = w := funext fun zone => (hobserved zone).1
    rw [hsame]
    exact hf observed fun zone => (hobserved zone).2

/-! ## The agenda -/

/-- The sealed zones and the zones that are still to be enforced. -/
structure Agenda (data : Bytes) (w : Fin n → Slot) (done : Finset (Fin n))
    (targets : List (Fin n × Option ReplicaSnapshot)) : Prop where
  isSealed : ∀ zone ∈ done, (w zone).sealedWith data = true
  fresh : ∀ target ∈ targets, target.1 ∉ done ∧ (w target.1).Shows target.2
  distinct : (targets.map Prod.fst).Nodup

def agendaZones (done : Finset (Fin n)) (targets : List (Fin n × Option ReplicaSnapshot)) :
    Finset (Fin n) :=
  done ∪ (targets.map Prod.fst).toFinset

theorem mem_agendaZones {done : Finset (Fin n)} {targets : List (Fin n × Option ReplicaSnapshot)}
    {zone : Fin n} : zone ∈ agendaZones done targets ↔ zone ∈ done ∨
    zone ∈ targets.map Prod.fst := by
  rw [agendaZones, Finset.mem_union, List.mem_toFinset]

namespace Agenda

variable {done : Finset (Fin n)} {targets targets' : List (Fin n × Option ReplicaSnapshot)}
  {zone : Fin n} {observed : Option ReplicaSnapshot}

theorem perm (h : Agenda data w done targets) (hperm : targets'.Perm targets) :
    Agenda data w done targets' :=
  ⟨h.isSealed, fun target htarget => h.fresh target (hperm.mem_iff.1 htarget),
    ((hperm.map Prod.fst).nodup_iff).2 h.distinct⟩

/-- A further zone is found to be sealed. -/
theorem addSealed (h : Agenda data w done targets) (hnew : zone ∉ agendaZones done targets)
    (hsealed : (w zone).sealedWith data = true) : Agenda data w (insert zone done) targets := by
  rw [mem_agendaZones, not_or] at hnew
  refine ⟨fun other hother => ?_, fun target htarget => ⟨?_, (h.fresh target htarget).2⟩,
    h.distinct⟩
  · rcases Finset.mem_insert.1 hother with rfl | hother
    · exact hsealed
    · exact h.isSealed other hother
  · rw [Finset.mem_insert, not_or]
    refine ⟨fun heq => hnew.2 ?_, (h.fresh target htarget).1⟩
    rw [← heq]
    exact List.mem_map_of_mem htarget

theorem addTarget (h : Agenda data w done targets) (hnew : zone ∉ agendaZones done targets)
    (hshows : (w zone).Shows observed) (hperm : targets'.Perm ((zone, observed) :: targets)) :
    Agenda data w done targets' := by
  rw [mem_agendaZones, not_or] at hnew
  refine Agenda.perm ⟨h.isSealed, fun target htarget => ?_, ?_⟩ hperm
  · rcases List.mem_cons.1 htarget with rfl | htarget
    · exact ⟨hnew.1, hshows⟩
    · exact h.fresh target htarget
  · rw [List.map_cons, List.nodup_cons]
    exact ⟨hnew.2, h.distinct⟩

/-- Enforcing the next zone outdates nothing that is known of the others. -/
theorem tail {w' : Fin n → Slot} (h : Agenda data w done ((zone, observed) :: targets))
    (honly : OnlyZone zone w w') : Agenda data w' done targets := by
  have hdistinct := h.distinct
  rw [List.map_cons, List.nodup_cons] at hdistinct
  refine ⟨fun other hother => ?_, fun target htarget => ?_, hdistinct.2⟩
  · have hne : other ≠ zone := by
      rintro rfl
      exact (h.fresh _ List.mem_cons_self).1 hother
    rw [honly other hne]
    exact h.isSealed other hother
  · have hne : target.1 ≠ zone := by
      intro heq
      have hmem := List.mem_map_of_mem (f := Prod.fst) htarget
      rw [heq] at hmem
      exact hdistinct.1 hmem
    rw [honly target.1 hne]
    exact h.fresh target (List.mem_cons_of_mem _ htarget)

end Agenda

/-! ## Planning -/

/-- The zones that a plan enforces, in the order in which they were found. -/
def SealPlan.entries (plan : SealPlan n) : List (Fin n × Option ReplicaSnapshot) :=
  plan.witnesses.map (fun witness => (witness.1, some witness.2)) ++
    plan.missing.map fun zone => (zone, none)

theorem SealPlan.targets_perm (data : Bytes) (plan : SealPlan n) :
    (plan.targets data).Perm plan.entries :=
  ((List.perm_insertionSort _ plan.witnesses).map _).append_right _

/-- A plan accounts for every zone that answers among those it has considered. -/
structure Planned (modes : Fin n → ZoneMode) (data : Bytes) (w : Fin n → Slot)
    (ahead : List (Fin n)) (plan : SealPlan n) (done : Finset (Fin n)) : Prop where
  agenda : Agenda data w done plan.entries
  count : done.card = plan.finalized
  unplanned : ∀ zone ∈ ahead, zone ∉ agendaZones done plan.entries
  answering : ∀ zone, modes zone = .answering → zone ∉ ahead → zone ∈ agendaZones done plan.entries

namespace Planned

variable {zone : Fin n} {ahead : List (Fin n)} {plan plan' : SealPlan n}
  {done done' : Finset (Fin n)}

/-- The next zone is put on the agenda. -/
theorem next (h : Planned modes data w (zone :: ahead) plan done) (hnodup : (zone :: ahead).Nodup)
    (hagenda : Agenda data w done' plan'.entries) (hcount : done'.card = plan'.finalized)
    (hzones : ∀ other, other ∈ agendaZones done' plan'.entries ↔
      other = zone ∨ other ∈ agendaZones done plan.entries) :
    Planned modes data w ahead plan' done' := by
  refine ⟨hagenda, hcount, fun other hother => ?_, fun other hmode hother => ?_⟩
  · rw [hzones, not_or]
    refine ⟨?_, h.unplanned other (List.mem_cons_of_mem _ hother)⟩
    rintro rfl
    exact (List.nodup_cons.1 hnodup).1 hother
  · rw [hzones]
    by_cases heq : other = zone
    · exact Or.inl heq
    · refine Or.inr (h.answering other hmode ?_)
      rw [List.mem_cons, not_or]
      exact ⟨heq, hother⟩

theorem addSealed (h : Planned modes data w (zone :: ahead) plan done)
    (hnodup : (zone :: ahead).Nodup) (hsealed : (w zone).sealedWith data = true) :
    Planned modes data w ahead plan.addSealed (insert zone done) := by
  have hnew := h.unplanned zone List.mem_cons_self
  have hdone : zone ∉ done := fun hdone => hnew (mem_agendaZones.2 (Or.inl hdone))
  refine h.next hnodup (h.agenda.addSealed hnew hsealed) ?_ fun other => ?_
  · rw [Finset.card_insert_of_notMem hdone, h.count]
    rfl
  · rw [mem_agendaZones, mem_agendaZones, Finset.mem_insert, or_assoc]
    rfl

theorem addTarget (h : Planned modes data w (zone :: ahead) plan done)
    (observed : Option ReplicaSnapshot) (hnodup : (zone :: ahead).Nodup)
    (hshows : (w zone).Shows observed) (hfinalized : plan'.finalized = plan.finalized)
    (hperm : plan'.entries.Perm ((zone, observed) :: plan.entries)) :
    Planned modes data w ahead plan' done := by
  have hnew := h.unplanned zone List.mem_cons_self
  refine h.next hnodup (h.agenda.addTarget hnew hshows hperm) (h.count.trans hfinalized.symm)
    fun other => ?_
  rw [mem_agendaZones, mem_agendaZones, (hperm.map Prod.fst).mem_iff, List.map_cons, List.mem_cons]
  exact or_left_comm

theorem addMissing (h : Planned modes data w (zone :: ahead) plan done)
    (hnodup : (zone :: ahead).Nodup) (hnone : (w zone).copy = none) :
    Planned modes data w ahead (plan.addMissing zone) done := by
  refine h.addTarget none hnodup hnone rfl ?_
  simp only [SealPlan.entries, SealPlan.addMissing, List.map_append, List.map_cons, List.map_nil,
    ← List.append_assoc]
  exact List.perm_append_singleton _ _

/-- A zone that does not answer may be left out. -/
theorem skip (h : Planned modes data w (zone :: ahead) plan done)
    (hmode : modes zone ≠ .answering) : Planned modes data w ahead plan done := by
  refine ⟨h.agenda, h.count, fun other hother => h.unplanned other (List.mem_cons_of_mem _ hother),
    fun other hother hahead => h.answering other hother ?_⟩
  rw [List.mem_cons, not_or]
  refine ⟨?_, hahead⟩
  rintro rfl
  exact hmode hother

theorem addWitness {snapshot : ReplicaSnapshot} (h : Planned modes data w (zone :: ahead) plan done)
    (hnodup : (zone :: ahead).Nodup) (hshows : (w zone).Shows (some snapshot))
    (hformat : modes zone = .answering → validFormat snapshot.metadata = true) :
    Planned modes data w ahead (plan.addWitness zone snapshot) done := by
  unfold SealPlan.addWitness
  by_cases hvalid : validFormat snapshot.metadata = true
  · rw [if_pos hvalid]
    refine h.addTarget (some snapshot) hnodup hshows rfl ?_
    simp only [SealPlan.entries, List.map_append, List.map_cons, List.map_nil, List.append_assoc]
    exact List.perm_middle
  · rw [if_neg hvalid]
    exact h.skip fun hmode => hvalid (hformat hmode)

end Planned

/-- What planning leaves: nothing has changed, the plan accounts for every zone that answers, and
only a zone of which anything is expected stops it. -/
def PlanResult (modes : Fin n → ZoneMode) (data : Bytes) (w : Fin n → Slot)
    (r : Except ProtocolError (SealPlan n)) (w' : Fin n → Slot) : Prop :=
  w' = w ∧ (∀ plan, r = .ok plan → ∃ done, Planned modes data w [] plan done) ∧
    ∀ error, r = .error error → ∃ zone, modes zone = .arbitrary

theorem enforcing_planSeal (config : ClientConfig) {observed : Fin n → SealObservation}
    (hseen : ∀ zone, Seen (modes zone) data (w zone) (observed zone))
    (hformat : ∀ zone, modes zone = .answering → ∀ c, (w zone).copy = some c →
      validFormat c.metadata = true) {zones : List (Fin n)} (hnodup : zones.Nodup)
    {plan : SealPlan n} {done : Finset (Fin n)} (h : Planned modes data w zones plan done) :
    Enforcing crc modes (planSeal config observed zones plan) (PlanResult modes data w) w := by
  have hvalid : ∀ {zone : Fin n} {snapshot : ReplicaSnapshot}, (w zone).Shows (some snapshot) →
      modes zone = .answering → validFormat snapshot.metadata = true := by
    rintro zone snapshot ⟨c, hcopy, -, -, -, hmetadata, -⟩ hmode
    rw [hmetadata]
    exact hformat zone hmode c hcopy
  induction zones generalizing plan done with
  | nil =>
    refine enforcing_ret ⟨rfl, fun plan' hplan => ?_, nofun⟩
    cases hplan
    exact ⟨done, h⟩
  | cons zone zones ih =>
    have ih := fun {plan done} => @ih (List.nodup_cons.1 hnodup).2 plan done
    have hstop : ∀ {error : TransportError} {w' : Fin n → Slot}, w' = w →
        (modes zone).Admits (.error error : Except TransportError ReplicaSnapshot) →
        error.code.transient ≠ true →
        Enforcing crc modes (.ret (.error (.transport error))) (PlanResult modes data w) w' := by
      intro error w' hw' hadmits htransient
      have hmode := hadmits.arbitrary (Bool.eq_false_iff.2 htransient)
      exact enforcing_ret ⟨hw', nofun, fun _ _ => ⟨zone, hmode⟩⟩
    have hzone := hseen zone
    unfold planSeal
    split
    · rename_i hobserved
      rw [hobserved] at hzone
      cases hzone with
      | sealed hsealed => exact ih (h.addSealed hnodup hsealed)
    · rename_i snapshot hobserved
      rw [hobserved] at hzone
      cases hzone with
      | read hread =>
        cases hread with
        | found hshows => exact ih (h.addWitness hnodup hshows (hvalid hshows))
    · rename_i error hobserved
      rw [hobserved] at hzone
      cases hzone with
      | read hread =>
        cases hread with
        | absent hnone =>
          rw [if_pos rfl]
          exact ih (h.addMissing hnodup hnone)
        | failed hcode hadmits =>
          rw [if_neg hcode]
          by_cases hloss : error.code = .dataLoss
          · rw [if_pos hloss]
            refine wp_seq (inZone_statWithRetry config).enforcing fun r w' hr => ?_
            obtain ⟨⟨hslot, hread⟩, honly⟩ := hr
            have hw' : w' = w := by
              funext other
              by_cases hother : other = zone
              · rw [hother, hslot]
              · exact honly other hother
            subst hw'
            cases hread with
            | found hshows => exact ih (h.addWitness hnodup hshows (hvalid hshows))
            | absent hnone =>
              simp only [if_true]
              exact ih (h.addMissing hnodup hnone)
            | failed hcode' hadmits' =>
              simp only [if_neg hcode']
              split
              · exact ih (h.skip (hadmits' _ rfl).1)
              · rename_i htransient
                exact hstop rfl hadmits' htransient
          · rw [if_neg hloss]
            by_cases htransient : error.code.transient = true
            · rw [if_pos htransient]
              exact ih (h.skip (hadmits _ rfl).1)
            · rw [if_neg htransient]
              exact hstop rfl hadmits htransient

/-! ## Zone by zone -/

/-- What enforcing all zones leaves: the sealed zones are counted, those that answer among them. -/
def EnforcedAll (modes : Fin n → ZoneMode) (data : Bytes) (r : Except ProtocolError Nat)
    (w : Fin n → Slot) : Prop :=
  (∀ finalized, r = .ok finalized → ∃ done : Finset (Fin n), done.card = finalized ∧
    (∀ zone ∈ done, (w zone).sealedWith data = true) ∧ ∀ zone, modes zone = .answering →
      zone ∈ done) ∧
  ∀ error, r = .error error → ∃ zone, modes zone = .arbitrary

theorem enforcing_enforceAll (config : ClientConfig) (hdata : data ≠ [])
    {targets : List (Fin n × Option ReplicaSnapshot)} {done : Finset (Fin n)} {finalized : Nat}
    (h : Agenda data w done targets) (hcount : done.card = finalized)
    (hanswering : ∀ zone, modes zone = .answering → zone ∈ agendaZones done targets) :
    Enforcing crc modes (enforceAll config data targets finalized) (EnforcedAll modes data) w := by
  induction targets generalizing w done finalized with
  | nil =>
    refine enforcing_ret ⟨fun finalized' heq => ?_, nofun⟩
    cases heq
    refine ⟨done, hcount, h.isSealed, fun zone hmode => ?_⟩
    simpa [agendaZones] using hanswering zone hmode
  | cons target targets ih =>
    obtain ⟨zone, observed⟩ := target
    obtain ⟨hnew, hshows⟩ := h.fresh (zone, observed) List.mem_cons_self
    have hzone :
        InZone crc modes zone (enforceWitness config zone data (config.maxRetries + 1) observed)
        (EnforceResult (modes zone) data) (w zone) :=
      inZone_enforceWitness config hdata hshows fun _ => Nat.succ_pos _
    refine wp_seq hzone.enforcing fun r w' hr => ?_
    obtain ⟨⟨hsealed, hanswer, hlapse⟩, honly⟩ := hr
    have hrest := h.tail honly
    have hmem : ∀ other, modes other = .answering → other = zone ∨
        other ∈ agendaZones done targets := by
      intro other hother
      have hother := hanswering other hother
      rw [mem_agendaZones, List.map_cons, List.mem_cons] at hother
      rw [mem_agendaZones]
      tauto
    cases r with
    | error error =>
      have hmode : modes zone = .arbitrary := by
        cases hmode : modes zone with
        | arbitrary => rfl
        | lapsing =>
          obtain ⟨enforced, heq⟩ := hlapse hmode
          cases heq
        | answering => cases hanswer hmode
      exact enforcing_ret ⟨nofun, fun _ _ => ⟨zone, hmode⟩⟩
    | ok enforced =>
      cases enforced with
      | true =>
        have hout : zone ∉ agendaZones done targets := by
          have hdistinct := h.distinct
          rw [List.map_cons, List.nodup_cons] at hdistinct
          rw [mem_agendaZones, not_or]
          exact ⟨hnew, hdistinct.1⟩
        refine ih (hrest.addSealed hout (hsealed rfl)) ?_ fun other hother => ?_
        · rw [Finset.card_insert_of_notMem hnew, hcount]
        · have hother := hmem other hother
          rw [mem_agendaZones] at hother ⊢
          rw [Finset.mem_insert]
          tauto
      | false =>
        refine ih hrest hcount fun other hother => ?_
        rcases hmem other hother with rfl | hother
        · cases hanswer hother
        · exact hother

/-! ## The enforcement -/

def sealedZones (data : Bytes) (w : Fin n → Slot) : Nat :=
  (List.finRange n).countP fun zone => (w zone).sealedWith data

theorem card_le_sealedZones {done : Finset (Fin n)}
    (h : ∀ zone ∈ done, (w zone).sealedWith data = true) : done.card ≤ sealedZones data w := by
  have hsub : done.toList ⊆ (List.finRange n).filter fun zone => (w zone).sealedWith data := by
    intro zone hzone
    rw [List.mem_filter]
    exact ⟨List.mem_finRange zone, h zone (Finset.mem_toList.1 hzone)⟩
  rw [sealedZones, List.countP_eq_length_filter, ← Finset.length_toList]
  exact (done.nodup_toList.subperm hsub).length_le

/-- Success means a sealed quorum. With a quorum of zones that answer, and no others that fail in
other than transient ways, enforcement succeeds. -/
theorem enforcing_enforceSeal (config : ClientConfig) {tail : RecoveredTail}
    (hgenuine : tail.genuine data w = true)
    (hformat : ∀ zone, modes zone = .answering → ∀ c, (w zone).copy = some c →
      validFormat c.metadata = true) :
    Enforcing crc modes (enforceSeal config tail) (fun r w' =>
      (r = .ok () → majority n ≤ sealedZones data w') ∧
      ((∀ zone, modes zone ≠ .arbitrary) →
        majority n ≤ (Finset.univ.filter fun zone => modes zone = .answering).card →
        r = .ok ())) w := by
  obtain ⟨⟨hbytes, hdata⟩, -⟩ := RecoveredTail.genuine_iff.1 hgenuine
  refine enforcing_observe config hgenuine fun observed hseen => ?_
  have hempty : Planned modes data w (List.finRange n) ⟨0, [], []⟩ ∅ := by
    refine ⟨⟨?_, ?_, ?_⟩, rfl, ?_, ?_⟩
    · simp
    · simp [SealPlan.entries]
    · simp [SealPlan.entries]
    · simp [SealPlan.entries, agendaZones]
    · intro zone _ hzone
      exact absurd (List.mem_finRange zone) hzone
  refine wp_seq (enforcing_planSeal config hseen hformat (List.nodup_finRange n) hempty)
    fun r w₁ hr => ?_
  obtain ⟨rfl, hplan, herror⟩ := hr
  cases r with
  | error error =>
    refine enforcing_ret ⟨nofun, fun hmodes => ?_⟩
    obtain ⟨zone, hzone⟩ := herror error rfl
    exact absurd hzone (hmodes zone)
  | ok plan =>
    obtain ⟨done, hplanned⟩ := hplan plan rfl
    have htargets := plan.targets_perm data
    have hanswering : ∀ zone, modes zone = .answering →
        zone ∈ agendaZones done (plan.targets data) := by
      intro zone hmode
      have hzone := hplanned.answering zone hmode List.not_mem_nil
      rw [mem_agendaZones] at hzone ⊢
      rwa [(htargets.map Prod.fst).mem_iff]
    rw [hbytes]
    refine wp_seq (enforcing_enforceAll config hdata (hplanned.agenda.perm htargets) hplanned.count
      hanswering) fun r w₂ hr => ?_
    obtain ⟨hok, herror⟩ := hr
    cases r with
    | error error =>
      refine enforcing_ret ⟨nofun, fun hmodes => ?_⟩
      obtain ⟨zone, hzone⟩ := herror error rfl
      exact absurd hzone (hmodes zone)
    | ok finalized =>
      obtain ⟨done, hcount, hsealed, hanswering⟩ := hok finalized rfl
      have hzones := card_le_sealedZones hsealed
      refine enforcing_ret ⟨fun heq => ?_, fun _ hquorum => ?_⟩
      · split_ifs at heq with hquorum
        omega
      · have hsub : (Finset.univ.filter fun zone => modes zone = .answering) ⊆ done := by
          intro zone hzone
          exact hanswering zone (Finset.mem_filter.1 hzone).2
        have hcard := Finset.card_le_card hsub
        rw [if_pos (by omega)]

end Chorus
