import Chorus.Segment.Proofs.CandidateProofs
import Chorus.Segment.Proofs.FenceProofs

/-!
# What a recovery has learned when it returns

Each zone that answers its takeover is settled from then on (`observeZone_triple`), so the bytes
that are read later belong to the sizes that were counted earlier. Whatever candidate
`recoverCandidate` returns is justified by the settled bytes of at least a majority of the zones
(`wp_recoverCandidate`, `Justified`).
-/

namespace Chorus

open Concurrency Relation Quorum

variable {n : Nat} {crc : Bytes → Nat} {lanes : Fin n → Option Nat} {zone : Fin n}

section Stability

variable {lane : Option Nat}

theorem stable_const (p : Prop) : Stable lane fun _ => p := fun _ _ _ => id

theorem stable_imp {p : Prop} {P : Slot → Prop} (h : p → Stable lane P) :
    Stable lane fun slot => p → P slot :=
  fun slot slot' hstep hP hp => h hp slot slot' hstep (hP hp)

theorem stable_forall {ι : Sort*} {P : ι → Slot → Prop} (h : ∀ i, Stable lane (P i)) :
    Stable lane fun slot => ∀ i, P i slot :=
  fun slot slot' hstep hP i => h i slot slot' hstep (hP i)

theorem stable_exists {ι : Sort*} {P : ι → Slot → Prop} (h : ∀ i, Stable lane (P i)) :
    Stable lane fun slot => ∃ i, P i slot :=
  fun slot slot' hstep ⟨i, hP⟩ => ⟨i, h i slot slot' hstep hP⟩

end Stability

/-! ## Fencing a zone -/

theorem Settled.of_absent {lane : Option Nat} {slot : Slot} (h : LaneOk lane slot)
    (habsent : slot.copy = none) : Settled lane [] slot := by
  refine ⟨h, fun c hc => ?_, fun _ => rfl⟩
  rw [habsent] at hc
  cases hc

/-- What a takeover attempt says about the zone. -/
structure TakenOver (lane : Option Nat) (r : Except TransportError AppendToken) (slot : Slot) :
    Prop where
  live : ∀ token, r = .ok token → ∃ bytes, Settled lane bytes slot ∧
    token.persistedSize = bytes.length
  failed : ∀ error, r = .error error → error.code = .failedPrecondition →
    ∃ bytes, Settled lane bytes slot
  missing : ∀ error, r = .error error → error.code = .notFound → Settled lane [] slot

theorem stable_takenOver {lane : Option Nat} (r : Except TransportError AppendToken) :
    Stable lane (TakenOver lane r) := by
  intro slot slot' hstep h
  refine ⟨fun token ht => ?_, fun error he hcode => ?_, fun error he hcode => ?_⟩
  · obtain ⟨bytes, hs, hlen⟩ := h.live token ht
    exact ⟨bytes, stable_settled _ _ hstep hs, hlen⟩
  · obtain ⟨bytes, hs⟩ := h.failed error he hcode
    exact ⟨bytes, stable_settled _ _ hstep hs⟩
  · exact stable_settled _ _ hstep (h.missing error he hcode)

theorem stat_triple : ZoneTriple crc lanes zone (LaneOk (lanes zone)) (Prog.replica zone .stat)
    fun r slot => LaneOk (lanes zone) slot ∧
      (∀ observed, r = .ok observed → HasGeneration observed.generation slot) ∧
      ∀ error, r = .error error → error.code ≠ .failedPrecondition ∧
        (error.code = .notFound → Settled (lanes zone) [] slot) := by
  refine ZoneTriple.replica (by trivial) stable_laneOk (fun r => ?_) (fun _ => id) ?_ ?_
  · refine stable_laneOk.and (Stable.and ?_ ?_)
    · exact stable_forall fun _ => stable_imp fun _ => stable_hasGeneration
    · exact stable_forall fun _ => stable_imp fun _ =>
        (stable_const _).and (stable_imp fun _ => stable_settled)
  · intro slot hlane
    simp only [ReplicaOp.perform]
    cases hcopy : slot.copy with
    | none =>
      refine ⟨hlane, fun _ hok => (by cases hok), fun error he => ?_⟩
      cases he
      exact ⟨fun hcode => (by cases hcode), fun _ => .of_absent hlane hcopy⟩
    | some c =>
      refine ⟨hlane, fun observed ho => ?_, fun _ herror => by cases herror⟩
      cases ho
      exact ⟨c, hcopy, rfl⟩
  · intro slot code hlane hmay
    simp only [ReplicaOp.mayFail, decide_eq_true_eq] at hmay
    refine ⟨hlane, fun _ hok => (by cases hok), fun error he => ?_⟩
    cases he
    exact ⟨hmay.2, fun hcode => absurd hcode hmay.1⟩

theorem takeover_triple (observed : ReplicaSnapshot) :
    ZoneTriple crc lanes zone
      (fun slot => LaneOk (lanes zone) slot ∧ HasGeneration observed.generation slot)
      (Prog.replica zone (.takeover observed))
      fun r slot => LaneOk (lanes zone) slot ∧
        (∀ token, r = .ok token → ∃ bytes, Settled (lanes zone) bytes slot ∧
          token.persistedSize = bytes.length) ∧
        ∀ error, r = .error error → error.code = .failedPrecondition →
          ∃ bytes, Settled (lanes zone) bytes slot := by
  refine ZoneTriple.replica (by trivial) (stable_laneOk.and stable_hasGeneration) (fun r => ?_)
    (fun _ => And.left) ?_ ?_
  · refine stable_laneOk.and (Stable.and ?_ ?_)
    · exact stable_forall fun _ => stable_imp fun _ => stable_exists fun _ =>
        stable_settled.and (stable_const _)
    · exact stable_forall fun _ => stable_imp fun _ => stable_imp fun _ =>
        stable_exists fun _ => stable_settled
  · rintro slot ⟨hlane, c, hcopy, hgen⟩
    simp only [ReplicaOp.perform, hcopy]
    by_cases hf : c.finalized = true ∨ c.generation ≠ observed.generation
    · rw [if_pos hf]
      have hfinal := hf.resolve_right fun hne => hne hgen
      refine ⟨hlane, fun _ hok => (by cases hok),
        fun error _ _ => ⟨c.bytes, hlane, fun c' hc' => ?_, fun hc' => ?_⟩⟩
      · rw [hcopy, Option.some.injEq] at hc'
        subst hc'
        exact ⟨rfl, Or.inl hfinal⟩
      · rw [hcopy] at hc'
        cases hc'
    · rw [if_neg hf]
      have hlane' := stable_laneOk _ _ (.fence .reopen) hlane
      refine ⟨hlane', fun token ht => ⟨c.bytes, ⟨hlane', fun c' hc' => ?_, fun hc' => ?_⟩, ?_⟩,
        fun _ herror => by cases herror⟩
      · simp only [Slot.reopen, hcopy, Option.map_some, Option.some.injEq] at hc'
        subst hc'
        -- the new session number was not given out before
        exact ⟨rfl, Or.inr fun heq => absurd (hlane _ heq).2 (Nat.lt_irrefl _)⟩
      · simp [Slot.reopen, hcopy] at hc'
      · cases ht
        rfl
  · rintro slot code ⟨hlane, -⟩ hmay
    refine ⟨hlane, fun _ hok => (by cases hok), fun error he hcode => ?_⟩
    cases he
    simp only [ReplicaOp.mayFail, decide_eq_true_eq] at hmay
    exact absurd hcode hmay

theorem takeoverCurrent_triple : ZoneTriple crc lanes zone (LaneOk (lanes zone))
    (takeoverCurrent zone)
    fun r slot => LaneOk (lanes zone) slot ∧ TakenOver (lanes zone) r slot := by
  refine stat_triple.bind fun r => ?_
  cases r with
  | error error =>
    refine ZoneTriple.ret (stable_laneOk.and (stable_takenOver _)) ?_
    rintro slot ⟨hlane, -, herror⟩
    obtain ⟨hcode, hmissing⟩ := herror error rfl
    refine ⟨hlane, nofun, fun e he => ?_, fun e he => ?_⟩
    · cases he
      exact fun h => absurd h hcode
    · cases he
      exact hmissing
  | ok observed =>
    refine ((takeover_triple observed).mono (fun slot h => ⟨h.1, h.2.1 observed rfl⟩)
      fun _ _ => id).bind fun r => ?_
    cases r with
    | ok token =>
      refine ZoneTriple.ret (stable_laneOk.and (stable_takenOver _)) ?_
      rintro slot ⟨hlane, hlive, -⟩
      exact ⟨hlane, hlive, nofun, nofun⟩
    | error error =>
      refine ZoneTriple.ret (stable_laneOk.and (stable_takenOver _)) ?_
      rintro slot ⟨hlane, -, hfailed⟩
      refine ⟨hlane, nofun, fun e he hcode => ?_, fun e he hcode => ?_⟩
      · cases he
        split_ifs at hcode
        · exact hfailed error rfl hcode
      · -- an absent object was reported before; here it is ambiguous
        cases he
        split_ifs at hcode with h
        · exact absurd hcode h

/-- A read of a settled zone returns its bytes. -/
theorem snapshotWithRetry_triple (config : ClientConfig) (bytes : Bytes) :
    ZoneTriple crc lanes zone (Settled (lanes zone) bytes) (snapshotWithRetry config zone)
      fun r slot => Settled (lanes zone) bytes slot ∧ ∀ snapshot, r = .ok snapshot →
        snapshot.zone = zone ∧ snapshot.bytes = bytes ∧ snapshot.persistedSize = bytes.length := by
  have hstable : ∀ r : Except TransportError ReplicaSnapshot, Stable (lanes zone) fun slot =>
      Settled (lanes zone) bytes slot ∧ ∀ snapshot, r = .ok snapshot →
        snapshot.zone = zone ∧ snapshot.bytes = bytes ∧ snapshot.persistedSize = bytes.length :=
    fun r => stable_settled.and (stable_const _)
  refine ZoneTriple.withRetry hstable (ZoneTriple.replica (by trivial) stable_settled
    (fun r => stable_settled.and (hstable r)) (fun _ h => h.laneOk) ?_ ?_) _
  · intro slot hs
    simp only [ReplicaOp.perform]
    cases hcopy : slot.copy with
    | none => exact ⟨hs, hs, fun _ hok => by cases hok⟩
    | some c =>
      have hbytes := (hs.present c hcopy).1
      refine ⟨hs, hs, fun snapshot hsnap => ?_⟩
      cases hsnap
      exact ⟨rfl, hbytes, congrArg List.length hbytes⟩
  · intro slot code hs _
    exact ⟨hs, hs, fun _ hok => by cases hok⟩

/-- The observation of a zone whose settled bytes are `bytes`. -/
def Observation.Describes (zone : Fin n) (bytes : Bytes) : Observation → Prop
  | .live token => token.persistedSize = bytes.length
  | .finalized snapshot =>
    snapshot.zone = zone ∧ snapshot.bytes = bytes ∧ snapshot.persistedSize = bytes.length
  | .missing => bytes = []

theorem Observation.Describes.size_eq {bytes : Bytes} {o : Observation}
    (h : o.Describes zone bytes) : o.size = bytes.length := by
  cases o with
  | live token => exact h
  | finalized snapshot => exact h.2.2
  | missing => exact (congrArg List.length (show bytes = [] from h)).symm

/-- A zone that answers is settled. -/
theorem observeZone_triple (config : ClientConfig) :
    ZoneTriple crc lanes zone (LaneOk (lanes zone)) (observeZone config zone)
      fun r slot => ∀ o, r = .ok o → ∃ bytes, Settled (lanes zone) bytes slot ∧
        o.Describes zone bytes := by
  have hstable : ∀ r : Except ProtocolError Observation, Stable (lanes zone) fun slot =>
      ∀ o, r = .ok o → ∃ bytes, Settled (lanes zone) bytes slot ∧ o.Describes zone bytes :=
    fun r => stable_forall fun _ => stable_imp fun _ => stable_exists fun _ =>
      stable_settled.and (stable_const _)
  have htake : ZoneTriple crc lanes zone (LaneOk (lanes zone))
      (withRetry (takeoverCurrent zone) config.maxRetries)
      fun r slot => LaneOk (lanes zone) slot ∧ TakenOver (lanes zone) r slot :=
    ZoneTriple.withRetry (fun r => stable_laneOk.and (stable_takenOver r))
      (takeoverCurrent_triple.mono (fun _ => id) fun r slot h => ⟨h.1, h⟩) _
  refine htake.bind fun r => ?_
  cases r with
  | ok token =>
    refine ZoneTriple.ret (hstable _) ?_
    rintro slot ⟨-, htaken⟩ o ho
    cases ho
    exact htaken.live token rfl
  | error error =>
    simp only
    by_cases hfailed : error.code = .failedPrecondition
    · rw [if_pos hfailed]
      -- the precondition fails only on a finalized object
      refine ZoneTriple.mono (ZoneTriple.exists_pre fun bytes =>
        (snapshotWithRetry_triple config bytes).bind fun r => ?_)
        (fun slot h => h.2.failed error rfl hfailed) fun _ _ => id
      cases r with
      | error error => exact ZoneTriple.ret (hstable _) fun _ _ => nofun
      | ok snapshot =>
        refine ZoneTriple.ret (hstable _) ?_
        rintro slot ⟨hs, hsnap⟩ o ho
        split_ifs at ho
        cases ho
        exact ⟨bytes, hs, hsnap snapshot rfl⟩
    · rw [if_neg hfailed]
      by_cases hmissing : error.code = .notFound
      · rw [if_pos hmissing]
        refine ZoneTriple.ret (hstable _) ?_
        rintro slot ⟨-, htaken⟩ o ho
        cases ho
        exact ⟨[], htaken.missing error rfl hmissing, rfl⟩
      · rw [if_neg hmissing]
        split_ifs
        · exact ZoneTriple.ret (hstable _) fun _ _ => nofun
        · exact ZoneTriple.ret (hstable _) fun _ _ => nofun

/-! ## Operations whose answers say nothing more about settled zones -/

/-- A program of keeping operations leaves the lanes in order. -/
theorem keeps_triple {α : Type} {op : ReplicaOp α} (hop : op.Keeps) :
    ZoneTriple crc lanes zone (LaneOk (lanes zone)) (Prog.replica zone op)
      fun _ => LaneOk (lanes zone) :=
  ZoneTriple.replica hop stable_laneOk (fun _ => stable_laneOk) (fun _ => id)
    (fun slot hlane => by
      rcases @perform_step _ crc _ _ op hop zone hlane with heq | hstep
      · rw [heq]
        exact hlane
      · exact stable_laneOk _ _ (.fence hstep) hlane)
    (fun _ _ hlane _ => hlane)

theorem statWithRetry_keeps (config : ClientConfig) :
    ZoneTriple crc lanes zone (LaneOk (lanes zone)) (statWithRetry config zone)
      fun _ => LaneOk (lanes zone) :=
  ZoneTriple.withRetry (fun _ => stable_laneOk)
    ((keeps_triple (by trivial)).mono (fun _ => id) fun _ _ h => ⟨h, h⟩) _

theorem createSessionWithRetry_keeps (config : ClientConfig) (metadata : Metadata) :
    ZoneTriple crc lanes zone (LaneOk (lanes zone)) (createSessionWithRetry config zone metadata)
      fun _ => LaneOk (lanes zone) :=
  ZoneTriple.withRetry (fun _ => stable_laneOk)
    ((keeps_triple (by trivial)).mono (fun _ => id) fun _ _ h => ⟨h, h⟩) _

theorem finalizeAttempt_keeps (config : ClientConfig) (token : AppendToken) (offset : Nat)
    {retry : Option (ReplicaProg n (Except TransportError ReplicaSnapshot))}
    (hretry : ∀ p, retry = some p →
      ZoneTriple crc lanes zone (LaneOk (lanes zone)) p fun _ => LaneOk (lanes zone)) :
    ZoneTriple crc lanes zone (LaneOk (lanes zone)) (finalizeAttempt config zone token offset retry)
      fun _ => LaneOk (lanes zone) := by
  have hret : ∀ r : Except TransportError ReplicaSnapshot,
      ZoneTriple crc lanes zone (LaneOk (lanes zone)) (.ret r) fun _ => LaneOk (lanes zone) :=
    fun r => ZoneTriple.ret stable_laneOk fun _ => id
  have hresolve : ∀ (p : ReplicaProg n (Except TransportError ReplicaSnapshot)) (generation : Nat)
      (k : Except TransportError ReplicaSnapshot →
        ReplicaProg n (Except TransportError ReplicaSnapshot)),
      (∀ error, k (.error error) = .ret (.error error)) →
      (∀ snapshot, k (.ok snapshot) =
        if snapshot.finalized ∧ snapshot.generation = generation ∧ snapshot.persistedSize = offset
        then .ret (.ok snapshot) else p) →
      ZoneTriple crc lanes zone (LaneOk (lanes zone)) p (fun _ => LaneOk (lanes zone)) →
      ZoneTriple crc lanes zone (LaneOk (lanes zone)) ((statWithRetry config zone).bind k)
        fun _ => LaneOk (lanes zone) := by
    intro p generation k herror hok hp
    refine (statWithRetry_keeps config).bind fun r => ?_
    cases r with
    | error error =>
      rw [herror]
      exact hret _
    | ok snapshot =>
      rw [hok]
      split_ifs
      · exact hret _
      · exact hp
  refine (keeps_triple (by trivial)).bind fun r => ?_
  cases r with
  | ok snapshot => exact hret _
  | error error =>
    simp only
    cases token.generation with
    | none => exact hret _
    | some generation =>
      simp only
      split_ifs
      · cases retry with
        | none => exact hret _
        | some p => exact hresolve p generation _ (fun _ => rfl) (fun _ => rfl) (hretry p rfl)
      · exact hresolve _ generation _ (fun _ => rfl) (fun _ => rfl) (hret _)
      · exact hret _

theorem finalizeWithRetry_keeps (config : ClientConfig) (token : AppendToken)
    (offset attempts : Nat) : ZoneTriple crc lanes zone (LaneOk (lanes zone))
      (finalizeWithRetry config zone token offset attempts) fun _ => LaneOk (lanes zone) := by
  induction attempts with
  | zero => exact finalizeAttempt_keeps config token offset nofun
  | succ attempts ih =>
    refine finalizeAttempt_keeps config token offset fun p hp => ?_
    cases hp
    exact ih

/-! ## The whole recovery -/

/-- What the zones that answered hold for good. -/
structure SettledAt (lanes : Fin n → Option Nat) (held : Fin n → Option Bytes) (w : Fin n → Slot) :
    Prop where
  laneOk : ∀ z, LaneOk (lanes z) (w z)
  settled : ∀ z bytes, held z = some bytes → Settled (lanes z) bytes (w z)

/-- The returned candidate is justified by the settled bytes of a majority. -/
def Recovered (crc : Bytes → Nat) (lanes : Fin n → Option Nat) (expected : Option Nat)
    (candidate : RecoveryCandidate) (w : Fin n → Slot) : Prop :=
  ∃ held, SettledAt lanes held w ∧ majority n ≤ (collect held).length ∧
    Justified crc expected held candidate

variable {held : Fin n → Option Bytes} {w w' : Fin n → Slot}

theorem SettledAt.of_rely (h : SettledAt lanes held w)
    (hrely : ReflTransGen (SlotsStep lanes) w w') : SettledAt lanes held w' :=
  ⟨fun z => stable_laneOk.of_rely hrely (h.laneOk z),
    fun z bytes hz => stable_settled.of_rely hrely (h.settled z bytes hz)⟩

theorem Recovered.of_rely {expected : Option Nat} {candidate : RecoveryCandidate}
    (h : Recovered crc lanes expected candidate w) (hrely : ReflTransGen (SlotsStep lanes) w w') :
    Recovered crc lanes expected candidate w' := by
  obtain ⟨held, hsettled, hmajority, hjust⟩ := h
  exact ⟨held, hsettled.of_rely hrely, hmajority, hjust⟩

/-- The observations say what the zones that answered hold. -/
structure Observes (observations : Fin n → Option Observation)
    (held : Fin n → Option Bytes) : Prop where
  describes : ∀ z o, observations z = some o → ∃ bytes, held z = some bytes ∧ o.Describes z bytes
  unanswered : ∀ z, observations z = none → held z = none

variable {observations : Fin n → Option Observation}

theorem Observes.sizes_eq (h : Observes observations held) :
    (collect observations).map Observation.size = collect fun z => (held z).map List.length := by
  rw [map_collect]
  congr 1
  funext z
  cases ho : observations z with
  | none => rw [h.unanswered z ho]; rfl
  | some o =>
    obtain ⟨bytes, hbytes, hdesc⟩ := h.describes z o ho
    rw [hbytes, Option.map_some, Option.map_some, hdesc.size_eq]

theorem Observes.length_eq (h : Observes observations held) :
    (collect observations).length = (collect held).length := by
  have hsizes := congrArg List.length h.sizes_eq
  rw [← map_collect held List.length, List.length_map, List.length_map] at hsizes
  exact hsizes

/-- A returned value that no step of the environment can falsify. -/
theorem wp_ret_recovered {r : Except ProtocolError RecoveryCandidate} {expected : Option Nat}
    (h : ∀ c, r = .ok c → Recovered crc lanes expected c w) :
    wp (replicaMachine n crc) (.ret r : ReplicaProg n _) (SlotsStep lanes) (FenceSteps lanes)
      (fun r w => ∀ c, r = .ok c → Recovered crc lanes expected c w) w :=
  fun _ hrely c hc => (h c hc).of_rely hrely

theorem wp_recoverEmpty (config : ClientConfig) (expected : Option Nat)
    (hsettled : SettledAt lanes held w) (hmajority : majority n ≤ (collect held).length)
    (hzero : selectRecoverySize (collect fun z => (held z).map List.length) n = some 0) :
    wp (replicaMachine n crc) (recoverEmpty config observations) (SlotsStep lanes)
      (FenceSteps lanes) (fun r w => ∀ c, r = .ok c → Recovered crc lanes expected c w) w := by
  have hempty : ∀ {w' : Fin n → Slot} (tokens : Option (List AppendToken)),
      SettledAt lanes held w' → Recovered crc lanes expected (.empty tokens) w' :=
    fun tokens hs => ⟨held, hs, hmajority, Or.inr (Or.inl ⟨⟨tokens, rfl⟩, hzero⟩)⟩
  unfold recoverEmpty
  simp only
  split_ifs
  · refine wp_joinAll (fun _ _ => FenceSteps.slotsStep) (fun _ _ _ => True)
      (fun z => ?_) fun w' creates hrely _ => ?_
    · split_ifs
      · refine wp_seq (createSessionWithRetry_keeps config protocolMetadata w
          (hsettled.laneOk z)) ?_
        exact fun _ _ _ _ _ => trivial
      · exact fun _ _ => trivial
    · refine wp_ret_recovered fun c hc => ?_
      split_ifs at hc
      · cases hc
        exact hempty _ (hsettled.of_rely hrely)
      · cases hc
        exact hempty _ (hsettled.of_rely hrely)
  · exact wp_ret_recovered fun c hc => by cases hc
  · refine wp_ret_recovered fun c hc => ?_
    cases hc
    exact hempty _ hsettled
  · refine wp_ret_recovered fun c hc => ?_
    cases hc
    exact hempty _ hsettled

theorem token?_eq_some {o : Option Observation} {token : AppendToken}
    (h : o.bind Observation.token? = some token) : o = some (.live token) := by
  cases o with
  | none => cases h
  | some o => cases o <;> simp_all [Observation.token?]

theorem snapshot?_eq_some {o : Option Observation} {snapshot : ReplicaSnapshot}
    (h : o.bind Observation.snapshot? = some snapshot) : o = some (.finalized snapshot) := by
  cases o with
  | none => cases h
  | some o => cases o <;> simp_all [Observation.snapshot?]

theorem any_isMissing {o : Option Observation} (h : o.any Observation.isMissing = true) :
    o = some .missing := by
  cases o with
  | none => cases h
  | some o => cases o <;> simp_all [Observation.isMissing]

/-- The copies that were found finalized, the ones frozen and read, and the placeholders are
evidence from different zones. -/
theorem evidenceFrom_reads {reads : Fin n → Option ReplicaSnapshot} (h : Observes observations held)
    (hreads : ∀ z s, reads z = some s → (∃ token, observations z = some (.live token)) ∧
      s.zone = z ∧ held z = some s.bytes) :
    EvidenceFrom held
      ⟨(collect fun z => (observations z).bind Observation.snapshot?) ++ collect reads,
        collect fun z => if (observations z).any Observation.isMissing then
          some (missingPlaceholder crc z) else none⟩ := by
  have hfinal : ∀ z s, (observations z).bind Observation.snapshot? = some s →
      observations z = some (.finalized s) ∧ s.zone = z ∧ held z = some s.bytes := by
    intro z s hs
    have ho := snapshot?_eq_some hs
    obtain ⟨bytes, hbytes, hzone, rfl, -⟩ := h.describes z _ ho
    exact ⟨ho, hzone, hbytes⟩
  have hmissing : ∀ z s, (if (observations z).any Observation.isMissing then
      some (missingPlaceholder crc z) else none) = some s →
      observations z = some .missing ∧ s.zone = z ∧ s.bytes = [] ∧ held z = some s.bytes := by
    intro z s hs
    split_ifs at hs with hany
    rw [Option.some.injEq] at hs
    subst hs
    have ho := any_isMissing hany
    obtain ⟨bytes, hbytes, hdesc⟩ := h.describes z _ ho
    exact ⟨ho, rfl, rfl, by rw [hbytes, show bytes = [] from hdesc]; rfl⟩
  refine ⟨fun s hs => ?_, ?_, fun s hs => ?_⟩
  · simp only [List.mem_append, mem_collect] at hs
    rcases hs with (⟨z, hz⟩ | ⟨z, hz⟩) | ⟨z, hz⟩
    · exact ⟨z, (hfinal z s hz).2⟩
    · exact ⟨z, (hreads z s hz).2⟩
    · exact ⟨z, (hmissing z s hz).2.1, (hmissing z s hz).2.2.2⟩
  · -- each zone contributes at most one copy, by the kind of its observation
    simp only [List.map_append]
    refine List.nodup_append.2 ⟨List.nodup_append.2 ⟨?_, ?_, ?_⟩, ?_, ?_⟩
    · exact nodup_map_collect fun z s hs => (hfinal z s hs).2.1
    · exact nodup_map_collect fun z s hs => (hreads z s hs).2.1
    · intro k hk k' hk' heq
      obtain ⟨s, hs, rfl⟩ := List.mem_map.1 hk
      obtain ⟨s', hs', rfl⟩ := List.mem_map.1 hk'
      obtain ⟨z, hz⟩ := mem_collect.1 hs
      obtain ⟨z', hz'⟩ := mem_collect.1 hs'
      obtain ⟨ho, hzone, -⟩ := hfinal z s hz
      obtain ⟨⟨token, ho'⟩, hzone', -⟩ := hreads z' s' hz'
      obtain rfl : z = z' := Fin.ext (by omega)
      rw [ho] at ho'
      cases ho'
    · exact nodup_map_collect fun z s hs => (hmissing z s hs).2.1
    · intro k hk k' hk' heq
      obtain ⟨s', hs', rfl⟩ := List.mem_map.1 hk'
      obtain ⟨z', hz'⟩ := mem_collect.1 hs'
      obtain ⟨ho', hzone', -⟩ := hmissing z' s' hz'
      rcases List.mem_append.1 hk with hk | hk
      · obtain ⟨s, hs, rfl⟩ := List.mem_map.1 hk
        obtain ⟨z, hz⟩ := mem_collect.1 hs
        obtain ⟨ho, hzone, -⟩ := hfinal z s hz
        obtain rfl : z = z' := Fin.ext (by omega)
        rw [ho] at ho'
        cases ho'
      · obtain ⟨s, hs, rfl⟩ := List.mem_map.1 hk
        obtain ⟨z, hz⟩ := mem_collect.1 hs
        obtain ⟨⟨token, ho⟩, hzone, -⟩ := hreads z s hz
        obtain rfl : z = z' := Fin.ext (by omega)
        rw [ho] at ho'
        cases ho'
  · obtain ⟨z, hz⟩ := mem_collect.1 hs
    exact (hmissing z s hz).2.2.1

theorem wp_recoverNonEmpty (config : ClientConfig) {expected : Option Nat} {size maxSize : Nat}
    (hobs : Observes observations held) (hsettled : SettledAt lanes held w)
    (hmajority : majority n ≤ (collect held).length)
    (hsize : selectRecoverySize (collect fun z => (held z).map List.length) n = some size) :
    wp (replicaMachine n crc) (recoverNonEmpty crc config expected observations size maxSize)
      (SlotsStep lanes) (FenceSteps lanes)
      (fun r w => ∀ c, r = .ok c → Recovered crc lanes expected c w) w := by
  unfold recoverNonEmpty
  simp only
  refine wp_joinAll (fun _ _ => FenceSteps.slotsStep) (fun z frozen _ => frozen = true →
    ∃ token, observations z = some (.live token)) (fun z => ?_) fun w₁ frozen hrely₁ hfrozen => ?_
  · cases htoken : (observations z).bind Observation.token? with
    | none => exact fun _ _ => nofun
    | some token =>
      refine wp_seq (finalizeWithRetry_keeps config token token.persistedSize config.maxRetries w
        (hsettled.laneOk z)) fun r w' _ => ?_
      exact fun _ _ _ => ⟨token, token?_eq_some htoken⟩
  · have hsettled₁ := hsettled.of_rely hrely₁
    split_ifs
    · exact wp_ret_recovered nofun
    refine wp_joinAll (fun _ _ => FenceSteps.slotsStep) (fun z read _ => ∀ s, read = some s →
      (∃ token, observations z = some (.live token)) ∧ s.zone = z ∧ held z = some s.bytes)
      (fun z => ?_) fun w₂ reads hrely₂ hreads => ?_
    · split_ifs with hz
      · obtain ⟨token, ho⟩ := hfrozen z hz
        obtain ⟨bytes, hbytes, -⟩ := hobs.describes z _ ho
        refine wp_seq (snapshotWithRetry_triple config bytes w₁ (hsettled₁.settled z bytes hbytes))
          fun r w' hr => ?_
        intro w'' _ s hs
        obtain ⟨hread, -⟩ := Option.filter_eq_some_iff.1 hs
        cases r with
        | error error => cases hread
        | ok snapshot =>
          rw [Except.toOption, Option.some.injEq] at hread
          subst hread
          obtain ⟨hzone, hsame, -⟩ := hr.2 snapshot rfl
          exact ⟨⟨token, ho⟩, hzone, by rw [hbytes, hsame]⟩
      · exact fun _ _ => nofun
    · refine wp_ret_recovered fun c hc => ?_
      exact ⟨held, hsettled₁.of_rely hrely₂, hmajority,
        Or.inr (Or.inr ⟨size, maxSize, _, hsize, evidenceFrom_reads hobs hreads, hc⟩)⟩

/-- Whatever recovery returns is justified by what a majority of the zones holds for good. -/
theorem wp_recoverCandidate (config : ClientConfig) (expected : Option Nat)
    (hlanes : ∀ z, LaneOk (lanes z) (w z)) :
    wp (replicaMachine n crc) (recoverCandidate crc config expected) (SlotsStep lanes)
      (FenceSteps lanes) (fun r w => ∀ c, r = .ok c → Recovered crc lanes expected c w) w := by
  unfold recoverCandidate
  refine wp_joinAll (fun _ _ => FenceSteps.slotsStep) _ (fun z => observeZone_triple config w
    (hlanes z)) fun w₁ attempts hrely hobs => ?_
  have hlanes₁ : ∀ z, LaneOk (lanes z) (w₁ z) := fun z => stable_laneOk.of_rely hrely (hlanes z)
  cases hfatal : fatalError attempts with
  | some error => exact wp_ret_recovered nofun
  | none =>
    simp only
    -- the settled bytes of every zone that answered
    have hexists : ∀ z, ∃ h : Option Bytes,
        (∀ bytes, h = some bytes → Settled (lanes z) bytes (w₁ z)) ∧
        (∀ o, (attempts z).toOption = some o → ∃ bytes, h = some bytes ∧ o.Describes z bytes) ∧
        ((attempts z).toOption = none → h = none) := by
      intro z
      cases hz : attempts z with
      | error error => exact ⟨none, nofun, nofun, fun _ => rfl⟩
      | ok o =>
        obtain ⟨bytes, hs, hdesc⟩ := hobs z o hz
        refine ⟨some bytes, fun b hb => ?_, fun o' ho' => ?_, nofun⟩
        · cases hb
          exact hs
        · cases ho'
          exact ⟨bytes, rfl, hdesc⟩
    choose held hheld using hexists
    have hobserves : Observes (fun z => (attempts z).toOption) held :=
      ⟨fun z => (hheld z).2.1, fun z => (hheld z).2.2⟩
    have hsettled : SettledAt lanes held w₁ := ⟨hlanes₁, fun z => (hheld z).1⟩
    rw [hobserves.sizes_eq, hobserves.length_eq]
    split_ifs with hlen hall
    · exact wp_ret_recovered nofun
    · refine wp_ret_recovered fun c hc => ?_
      cases hc
      refine ⟨held, hsettled, by omega, Or.inl ⟨rfl, fun z bytes hz => ?_⟩⟩
      cases ho : (attempts z).toOption with
      | none =>
        rw [hobserves.unanswered z ho] at hz
        cases hz
      | some o =>
        obtain ⟨bytes', hz', hdesc⟩ := hobserves.describes z o ho
        rw [hz, Option.some.injEq] at hz'
        have hmissing := List.all_eq_true.1 hall o (mem_collect.2 ⟨z, ho⟩)
        cases o with
        | live token => cases hmissing
        | finalized snapshot => cases hmissing
        | missing => rw [hz']; exact hdesc
    · split
      · exact wp_ret_recovered nofun
      · exact wp_recoverEmpty config expected hsettled (by omega) ‹_›
      · exact wp_recoverNonEmpty config hobserves hsettled (by omega) ‹_›

end Chorus
