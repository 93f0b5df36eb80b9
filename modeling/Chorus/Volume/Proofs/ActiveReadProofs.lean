import Chorus.Volume.ActiveRead
import Mathlib.Data.List.Forall2

/-!
# Majority reads of the active segment are monotone

The decision accepts the longest run of records each of which a majority holds
(`activeReadDecision_spec`). Two majorities meet, so at each position there is at most one such
record, and replies that are still on their way can make the run longer but not replace a record of
it.
-/

namespace Chorus

open RecordFrame

namespace ActiveReadObservation

def frameAt (j : Nat) : ActiveReadObservation → Option RecordFrame
  | .records decoded => decoded.frames[j]?
  | _ => none

/-- The copy has no record at a position or after it. -/
def endsBy (j : Nat) : ActiveReadObservation → Bool
  | .records decoded => decoded.frames.length ≤ j
  | _ => false

/-- A pending reply may still turn out in any way; a decided one stays. -/
def Completes (o o' : ActiveReadObservation) : Prop := o = .pending ∨ o' = o

theorem endsBy_eq_false {j : Nat} {frame : RecordFrame} {o : ActiveReadObservation}
    (h : o.frameAt j = some frame) : o.endsBy j = false := by
  cases o with
  | records decoded =>
    have hj := (List.getElem?_eq_some_iff.1 h).1
    exact decide_eq_false (Nat.not_le.2 hj)
  | _ => rfl

end ActiveReadObservation

open ActiveReadObservation

variable {observations observations' : List ActiveReadObservation} {quorum : Nat}
  {accepted frames : List RecordFrame} {frame frame' : RecordFrame} {j : Nat}

def support (observations : List ActiveReadObservation) (j : Nat) (frame : RecordFrame) : Nat :=
  observations.countP fun o => o.frameAt j = some frame

def endVotes (observations : List ActiveReadObservation) (j : Nat) : Nat :=
  observations.countP (endsBy j)

/-- Every record has a quorum at its own position. -/
def Supported (observations : List ActiveReadObservation) (quorum : Nat)
    (frames : List RecordFrame) : Prop :=
  ∀ j frame, frames[j]? = some frame → quorum ≤ support observations j frame

/-! ## Counting the votes at one position -/

theorem countP_add_countP_le {α : Type} {p p' : α → Bool} {l : List α}
    (hdisjoint : ∀ x ∈ l, p x → p' x = false) : l.countP p + l.countP p' ≤ l.length := by
  have hle : l.countP p' ≤ l.countP fun x => !p x := by
    apply List.countP_mono_left
    intro x hx hp'
    rw [Bool.not_eq_true']
    by_contra hp
    rw [hdisjoint x hx (Bool.eq_true_of_not_eq_false hp)] at hp'
    cases hp'
  have hsplit := List.length_eq_countP_add_countP p (l := l)
  simp only [Bool.not_eq_true, Bool.decide_eq_false] at hsplit
  omega

theorem eq_of_support (h : majority observations.length ≤ support observations j frame)
    (h' : majority observations.length ≤ support observations j frame') : frame' = frame := by
  by_contra hne
  have hle : support observations j frame + support observations j frame' ≤
      observations.length := by
    apply countP_add_countP_le
    intro o _ ho
    rw [decide_eq_true_eq] at ho
    rw [decide_eq_false_iff_not, ho, Option.some.injEq]
    exact fun heq => hne heq.symm
  unfold majority at h h'
  omega

/-- The votes that were cast for the records in the list. -/
structure Tally (counted : List RecordFrame) (votes : List (Bytes × Nat × RecordFrame)) : Prop where
  counts : ∀ vote ∈ votes, vote.1 = vote.2.2.chunk ∧ vote.2.1 = counted.count vote.2.2
  complete : ∀ frame ∈ counted, ∃ vote ∈ votes, vote.2.2 = frame

theorem Tally.add {counted : List RecordFrame} {v : FrameVotes} (h : Tally counted v.votes)
    (frame : RecordFrame) : Tally (counted ++ [frame]) (v.add frame.chunk frame).votes := by
  have hcount : ∀ other, (counted ++ [frame]).count other =
      counted.count other + if frame = other then 1 else 0 := by
    intro other
    rw [List.count_append, List.count_singleton]
    simp only [beq_iff_eq]
  unfold FrameVotes.add
  simp only
  split_ifs with hany
  · -- the record has votes already: they go up by one
    obtain ⟨known, hknown, hkey⟩ := List.any_eq_true.1 hany
    rw [decide_eq_true_eq, (h.counts known hknown).1] at hkey
    constructor
    · intro vote hvote
      obtain ⟨old, hold, rfl⟩ := List.mem_map.1 hvote
      obtain ⟨hchunk, hvotes⟩ := h.counts old hold
      split_ifs with heq
      · have hframe : frame = old.2.2 := chunk_injective (heq.symm.trans hchunk)
        exact ⟨hchunk, by rw [hcount, if_pos hframe, hvotes]⟩
      · have hframe : frame ≠ old.2.2 := by
          rintro rfl
          exact heq hchunk
        exact ⟨hchunk, by rw [hcount, if_neg hframe, hvotes, Nat.add_zero]⟩
    · intro other hother
      have hold : ∃ vote ∈ v.votes, vote.2.2 = other := by
        rcases List.mem_append.1 hother with hother | hother
        · exact h.complete other hother
        · exact ⟨known, hknown, (chunk_injective hkey).trans (List.mem_singleton.1 hother).symm⟩
      obtain ⟨vote, hvote, heq⟩ := hold
      refine ⟨_, List.mem_map_of_mem hvote, ?_⟩
      split_ifs <;> exact heq
  · have hnew : ∀ vote ∈ v.votes, frame ≠ vote.2.2 := by
      rintro vote hvote rfl
      exact hany (List.any_eq_true.2 ⟨vote, hvote, decide_eq_true (h.counts vote hvote).1⟩)
    constructor
    · intro vote hvote
      rcases List.mem_append.1 hvote with hvote | hvote
      · obtain ⟨hchunk, hvotes⟩ := h.counts vote hvote
        exact ⟨hchunk, by rw [hcount, if_neg (hnew vote hvote), hvotes, Nat.add_zero]⟩
      · obtain rfl := List.mem_singleton.1 hvote
        have hzero : counted.count frame = 0 := by
          rw [List.count_eq_zero]
          intro hmem
          obtain ⟨vote, hvote, heq⟩ := h.complete frame hmem
          exact hnew vote hvote heq.symm
        refine ⟨rfl, ?_⟩
        rw [hcount, hzero, if_pos rfl]
    · intro other hother
      rcases List.mem_append.1 hother with hother | hother
      · obtain ⟨vote, hvote, heq⟩ := h.complete other hother
        exact ⟨vote, List.mem_append_left _ hvote, heq⟩
      · exact ⟨_, List.mem_append_right _ (List.mem_singleton_self _),
          (List.mem_singleton.1 hother).symm⟩

theorem countFrames_spec (j : Nat) (observations : List ActiveReadObservation)
    {counted : List RecordFrame} {v : FrameVotes} (h : Tally counted v.votes) :
    ∃ v', countFrames j observations v = .ok v' ∧
      Tally (counted ++ observations.filterMap (frameAt j)) v'.votes ∧
      v'.endVotes = v.endVotes + endVotes observations j := by
  induction observations generalizing counted v with
  | nil => exact ⟨v, rfl, by rwa [List.filterMap_nil, List.append_nil], rfl⟩
  | cons o observations ih =>
    have hskip : o.frameAt j = none → o.endsBy j = false →
        ∃ v', countFrames j observations v = .ok v' ∧
          Tally (counted ++ (o :: observations).filterMap (frameAt j)) v'.votes ∧
          v'.endVotes = v.endVotes + endVotes (o :: observations) j := by
      intro hframe hends
      obtain ⟨v', hv', htally, hend⟩ := ih h
      refine ⟨v', hv', ?_, ?_⟩
      · rwa [List.filterMap_cons_none hframe]
      · rw [endVotes, List.countP_cons_of_neg (by rw [hends]; exact Bool.false_ne_true), hend]
        rfl
    cases o with
    | pending => exact hskip rfl rfl
    | failed error => exact hskip rfl rfl
    | records decoded =>
      unfold countFrames
      cases hget : decoded.frames[j]? with
      | none =>
        obtain ⟨v', hv', htally, hend⟩ :=
          ih (v := { v with endVotes := v.endVotes + 1 }) h
        refine ⟨v', hv', ?_, ?_⟩
        · have hframe : frameAt j (.records decoded) = none := hget
          rwa [List.filterMap_cons_none hframe]
        · have hends : endsBy j (.records decoded) = true :=
            decide_eq_true (List.getElem?_eq_none_iff.1 hget)
          rw [endVotes, List.countP_cons_of_pos hends, hend]
          show v.endVotes + 1 + endVotes observations j = v.endVotes + (endVotes observations j + 1)
          omega
      | some frame =>
        have hfits := decoded.fits frame (List.mem_of_getElem? hget)
        have hencode : frame.encode = .ok frame.chunk := encode_eq_ok.2 ⟨hfits, rfl⟩
        obtain ⟨v', hv', htally, hend⟩ := ih (h.add frame)
        simp only [hencode]
        refine ⟨v', hv', ?_, ?_⟩
        · have hframe : frameAt j (.records decoded) = some frame := hget
          rwa [List.filterMap_cons_some hframe, List.append_cons]
        · have hends : endsBy j (.records decoded) = false := endsBy_eq_false hget
          rw [endVotes, List.countP_cons_of_neg (by rw [hends]; exact Bool.false_ne_true), hend]
          rfl

theorem count_filterMap_frameAt (observations : List ActiveReadObservation) (j : Nat)
    (frame : RecordFrame) :
    (observations.filterMap (frameAt j)).count frame = support observations j frame := by
  rw [List.count, List.countP_filterMap, support]
  apply List.countP_congr
  intro o _
  cases o.frameAt j with
  | none => simp
  | some other => simp

/-- One round of the decision: it finds a record with a quorum if there is one. -/
theorem countFrames_find (j : Nat) (observations : List ActiveReadObservation)
    (hquorum : 0 < quorum) :
    ∃ v, countFrames j observations ⟨[], 0⟩ = .ok v ∧ v.endVotes = endVotes observations j ∧
      ((∃ encoded votes frame,
          v.votes.find? (fun vote => quorum ≤ vote.2.1) = some (encoded, votes, frame) ∧
          quorum ≤ support observations j frame) ∨
        (v.votes.find? (fun vote => quorum ≤ vote.2.1) = none ∧
          ∀ frame, support observations j frame < quorum)) := by
  have hstart : Tally [] ([] : List (Bytes × Nat × RecordFrame)) :=
    ⟨fun _ hmem => (by cases hmem), fun _ hmem => by cases hmem⟩
  obtain ⟨v, hv, htally, hend⟩ := countFrames_spec j observations (v := ⟨[], 0⟩) hstart
  rw [List.nil_append] at htally
  refine ⟨v, hv, hend.trans (Nat.zero_add _), ?_⟩
  cases hfind : v.votes.find? (fun vote => quorum ≤ vote.2.1) with
  | some vote =>
    obtain ⟨encoded, votes, frame⟩ := vote
    left
    refine ⟨encoded, votes, frame, rfl, ?_⟩
    have hvotes := (htally.counts _ (List.mem_of_find?_eq_some hfind)).2
    have hquorum : quorum ≤ votes := by
      have htest := List.find?_some hfind
      exact of_decide_eq_true htest
    rw [count_filterMap_frameAt] at hvotes
    exact hquorum.trans hvotes.le
  | none =>
    right
    refine ⟨rfl, ?_⟩
    intro frame
    rw [List.find?_eq_none] at hfind
    by_contra hge
    have hpos : 0 < (observations.filterMap (frameAt j)).count frame := by
      rw [count_filterMap_frameAt]
      omega
    obtain ⟨vote, hvote, rfl⟩ := htally.complete frame (List.count_pos_iff.1 hpos)
    have hvotes := (htally.counts vote hvote).2
    rw [count_filterMap_frameAt] at hvotes
    apply hfind vote hvote
    rw [decide_eq_true_eq, hvotes]
    omega

/-! ## The decision -/

/-- The run of records that the decision accepts: none can be added. -/
structure MaximalRun (observations : List ActiveReadObservation) (quorum : Nat)
    (frames : List RecordFrame) : Prop where
  supported : Supported observations quorum frames
  maximal : ∀ frame, support observations frames.length frame < quorum

/-- What is decided once the accepted run is known. -/
def verdict (observations : List ActiveReadObservation) (quorum : Nat) (frames : List RecordFrame) :
    ActiveReadDecision :=
  if frames ≠ [] ∨ quorum ≤ endVotes observations frames.length then .frames frames
  else if observations.countP isPending = 0 then
    if observations.countP isRecords < quorum then .noReadQuorum else .frames []
  else .pending

theorem lt_longestObservation (h : 0 < support observations j frame) :
    j < longestObservation observations := by
  obtain ⟨o, ho, hframe⟩ := List.countP_pos_iff.1 h
  rw [decide_eq_true_eq] at hframe
  induction observations with
  | nil => cases ho
  | cons head observations ih =>
    have htail : longestObservation observations ≤ longestObservation (head :: observations) := by
      cases head with
      | records decoded => exact Nat.le_max_right _ _
      | _ => exact Nat.le_refl _
    rcases List.mem_cons.1 ho with rfl | ho
    · cases o with
      | records decoded =>
        have hj := (List.getElem?_eq_some_iff.1 hframe).1
        exact Nat.lt_of_lt_of_le hj (Nat.le_max_left _ _)
      | pending => cases hframe
      | failed error => cases hframe
    · have hsupport : 0 < support observations j frame :=
        List.countP_pos_iff.2 ⟨o, ho, decide_eq_true hframe⟩
      exact Nat.lt_of_lt_of_le (ih hsupport ho) htail

theorem Supported.append (h : Supported observations quorum accepted)
    (hframe : quorum ≤ support observations accepted.length frame) :
    Supported observations quorum (accepted ++ [frame]) := by
  intro j other hother
  rcases Nat.lt_trichotomy j accepted.length with hj | rfl | hj
  · rw [List.getElem?_append_left hj] at hother
    exact h j other hother
  · rw [List.getElem?_concat_length] at hother
    cases hother
    exact hframe
  · rw [List.getElem?_eq_none (by rw [List.length_append, List.length_singleton]; omega)] at hother
    cases hother

theorem activeReadDecisionFrom_spec (hquorum : 0 < quorum) (rounds : Nat)
    (hsupported : Supported observations quorum accepted)
    (hrounds : longestObservation observations < accepted.length + rounds) :
    ∃ frames, MaximalRun observations quorum frames ∧
      activeReadDecisionFrom observations quorum rounds accepted =
        .ok (verdict observations quorum frames) := by
  induction rounds generalizing accepted with
  | zero =>
    -- the last accepted record would lie past the end of every copy
    have hlength : accepted.length - 1 < accepted.length := by omega
    have hsupport := hsupported _ _ (List.getElem?_eq_getElem hlength)
    have hlt := lt_longestObservation (Nat.lt_of_lt_of_le hquorum hsupport)
    omega
  | succ rounds ih =>
    obtain ⟨v, hv, hend, hfound | ⟨hnone, hmaximal⟩⟩ :=
      countFrames_find accepted.length observations hquorum
    · obtain ⟨encoded, votes, frame, hfind, hframe⟩ := hfound
      have hlength : longestObservation observations < (accepted ++ [frame]).length + rounds := by
        rw [List.length_append, List.length_singleton]
        omega
      obtain ⟨frames, hrun, hdecision⟩ := ih (hsupported.append hframe) hlength
      refine ⟨frames, hrun, ?_⟩
      rw [activeReadDecisionFrom, hv]
      simp only [bind, Except.bind, hfind]
      exact hdecision
    · refine ⟨accepted, ⟨hsupported, hmaximal⟩, ?_⟩
      rw [activeReadDecisionFrom, hv]
      simp only [bind, Except.bind, hnone, hend, verdict]
      split_ifs <;> rfl

theorem activeReadDecision_spec (observations : List ActiveReadObservation) (hquorum : 0 < quorum) :
    ∃ frames, MaximalRun observations quorum frames ∧
      activeReadDecision observations quorum = .ok (verdict observations quorum frames) := by
  apply activeReadDecisionFrom_spec hquorum
  · intro j frame h
    cases h
  · exact Nat.lt_of_lt_of_eq (Nat.lt_succ_self _) (Nat.zero_add _).symm

theorem majority_pos (n : Nat) : 0 < majority n := Nat.succ_pos _

/-- A decision for a list of frames is a decision for the accepted run. -/
theorem activeReadDecision_eq_frames (hquorum : 0 < quorum)
    (h : activeReadDecision observations quorum = .ok (.frames frames)) :
    MaximalRun observations quorum frames ∧
    verdict observations quorum frames = .frames frames := by
  obtain ⟨run, hrun, hdecision⟩ := activeReadDecision_spec observations hquorum
  rw [h] at hdecision
  have hverdict : verdict observations quorum run = .frames frames := (Except.ok.inj hdecision).symm
  have heq : run = frames := by
    unfold verdict at hverdict
    split_ifs at hverdict with hframes hpending hrecords
    · exact ActiveReadDecision.frames.inj hverdict
    · have hempty : run = [] := by
        by_contra hne
        exact hframes (Or.inl hne)
      rw [hempty]
      exact ActiveReadDecision.frames.inj hverdict
  subst heq
  exact ⟨hrun, hverdict⟩

/-! ## Completions -/

theorem countP_le_of_forall₂ {α β : Type} {R : α → β → Prop} {l : List α} {l' : List β}
    {p : α → Bool} {p' : β → Bool} (h : List.Forall₂ R l l') (hp : ∀ x y, R x y → p x → p' y) :
    l.countP p ≤ l'.countP p' := by
  induction h with
  | nil => exact Nat.le_refl _
  | @cons x y l l' hxy _ ih =>
    rw [List.countP_cons, List.countP_cons]
    have hhead := hp x y hxy
    split_ifs with hx hy
    · omega
    · exact absurd (hhead hx) hy
    · omega
    · omega

section Completion

variable (hcompletes : List.Forall₂ Completes observations observations')
include hcompletes

theorem countP_le_of_completes {p : ActiveReadObservation → Bool} (hp : p .pending = false) :
    observations.countP p ≤ observations'.countP p := by
  apply countP_le_of_forall₂ hcompletes
  rintro o o' (rfl | rfl) ho
  · rw [hp] at ho
    cases ho
  · exact ho

theorem support_le_of_completes (j : Nat) (frame : RecordFrame) :
    support observations j frame ≤ support observations' j frame :=
  countP_le_of_completes hcompletes (decide_eq_false nofun)

theorem Supported.of_completes (h : Supported observations quorum frames) :
    Supported observations' quorum frames :=
  fun j frame hframe => (h j frame hframe).trans (support_le_of_completes hcompletes j frame)

theorem eq_of_completes_of_decided (hdecided : observations.countP isPending = 0) :
    observations' = observations := by
  induction hcompletes with
  | nil => rfl
  | @cons o o' tail tail' ho _ ih =>
    rw [List.countP_eq_zero] at hdecided
    have htail : tail.countP isPending = 0 :=
      List.countP_eq_zero.2 fun x hx => hdecided x (List.mem_cons_of_mem _ hx)
    rcases ho with rfl | rfl
    · exact absurd rfl (hdecided _ List.mem_cons_self)
    · rw [ih htail]

end Completion

/-- A run of majority records is the front of the accepted one. -/
theorem Supported.isPrefix (h : Supported observations (majority observations.length) accepted)
    (hrun : MaximalRun observations (majority observations.length) frames) :
    accepted <+: frames := by
  have hlength : accepted.length ≤ frames.length := by
    by_contra hlt
    have hget := List.getElem?_eq_getElem (Nat.not_le.1 hlt)
    exact absurd (h _ _ hget) (Nat.not_le.2 (hrun.maximal _))
  rw [List.prefix_iff_getElem?]
  intro j hj
  have hget := List.getElem?_eq_getElem (Nat.lt_of_lt_of_le hj hlength)
  rw [hget, Option.some.injEq]
  exact eq_of_support (h j _ (List.getElem?_eq_getElem hj)) (hrun.supported j _ hget)

theorem activeReadDecision_mono (hcompletes : List.Forall₂ Completes observations observations')
    (h : activeReadDecision observations (majority observations.length) = .ok (.frames frames)) :
    ∃ frames', activeReadDecision observations' (majority observations.length) =
      .ok (.frames frames') ∧ frames <+: frames' := by
  obtain ⟨hrun, hverdict⟩ := activeReadDecision_eq_frames (majority_pos _) h
  have hlength : observations.length = observations'.length := hcompletes.length_eq
  by_cases hdecided : observations.countP isPending = 0
  · rw [eq_of_completes_of_decided hcompletes hdecided]
    exact ⟨frames, h, List.prefix_rfl⟩
  obtain ⟨run, hrun', hdecision⟩ :=
    activeReadDecision_spec observations' (majority_pos observations.length)
  have hprefix : frames <+: run := by
    rw [hlength] at hrun hrun'
    exact (hrun.supported.of_completes hcompletes).isPrefix hrun'
  refine ⟨run, ?_, hprefix⟩
  rw [hdecision, verdict, if_pos]
  by_cases hne : run = []
  · -- nothing was accepted before either, so a majority of the copies is empty
    right
    subst hne
    rw [List.prefix_nil] at hprefix
    subst hprefix
    have hends : majority observations.length ≤ endVotes observations 0 := by
      unfold verdict at hverdict
      split_ifs at hverdict with hframes
      exact hframes.resolve_left fun hne => hne rfl
    exact hends.trans (countP_le_of_completes hcompletes rfl)
  · exact Or.inl hne

/-! ## Reading to the end -/

variable {n : Nat}

/-- Only a copy that is pending or longer than the answer can hold a record past its end. -/
theorem support_le_possibleLonger (hcompletes : List.Forall₂ Completes observations observations')
    (frames : List RecordFrame) (frame : RecordFrame) :
    support observations' frames.length frame ≤ possibleLonger observations frames := by
  apply countP_le_of_forall₂ hcompletes.flip
  rintro o' o (rfl | rfl) hframe
  · rfl
  · rw [decide_eq_true_eq] at hframe
    cases o' with
    | records decoded => exact decide_eq_true (List.getElem?_eq_some_iff.1 hframe).1
    | pending => rfl
    | failed error => cases hframe

/-- A read to the end returns a decision that no pending reply can lengthen. -/
theorem readActiveLoop_eq_ok {state : ActiveReadState n}
    {start final : Fin n → ActiveReadObservation} {replies : List (Option (ActiveReadResult n))}
    (h : readActiveLoop true state start replies = some (.ok frames, final)) :
    activeReadDecision (List.ofFn final) (majority n) = .ok (.frames frames) ∧
      ((List.ofFn final).countP isPending = 0 ∨
        possibleLonger (List.ofFn final) frames < majority n) := by
  induction replies generalizing state start with
  | nil => cases h
  | cons reply replies ih =>
    cases reply with
    | none => cases h
    | some result =>
      unfold readActiveLoop at h
      simp only at h
      split_ifs at h with hstale
      · exact ih h
      · cases hobserve : (state.settle result).observe true result with
        | error error =>
          rw [hobserve] at h
          cases h
        | ok next =>
          obtain ⟨state', observation⟩ := next
          rw [hobserve] at h
          simp only at h
          cases hdecision : activeReadDecision
              (List.ofFn (Function.update start result.replicaIndex observation)) (majority n) with
          | error error =>
            rw [hdecision] at h
            cases h
          | ok decision =>
            rw [hdecision] at h
            cases decision with
            | pending => exact ih h
            | noReadQuorum => cases h
            | frames decided =>
              simp only at h
              split_ifs at h with hreturn
              · cases h
                refine ⟨hdecision, ?_⟩
                rcases hreturn with hsnapshot | hall | hfew
                · cases hsnapshot
                · left
                  rw [List.countP_eq_zero]
                  intro o ho
                  have hnot := List.all_eq_true.1 hall o ho
                  rw [Bool.not_eq_true'] at hnot
                  rw [hnot]
                  exact Bool.false_ne_true
                · exact Or.inr hfew
              · exact ih h

/-- Early decisions are monotone in the replies, every record of a decision is the only one with a
majority at its position, and a read to the end returns a decision that no completion of the replies
lengthens. -/
theorem active_read_monotone :
    (∀ observations observations', List.Forall₂ Completes observations observations' → ∀ frames,
      activeReadDecision observations (majority observations.length) = .ok (.frames frames) →
      ∃ frames', activeReadDecision observations' (majority observations.length) =
        .ok (.frames frames') ∧ frames <+: frames') ∧
    (∀ observations frames,
      activeReadDecision observations (majority observations.length) = .ok (.frames frames) →
      ∀ j frame, frames[j]? = some frame →
        majority observations.length ≤ support observations j frame ∧
        ∀ other, majority observations.length ≤ support observations j other → other = frame) ∧
    (∀ (n : Nat) (state : ActiveReadState n) replies frames final,
      readActiveQuorum true state replies = some (.ok frames, final) →
      activeReadDecision (List.ofFn final) (majority n) = .ok (.frames frames) ∧
      ∀ observations', List.Forall₂ Completes (List.ofFn final) observations' → ∀ frames',
        activeReadDecision observations' (majority n) = .ok (.frames frames') →
        frames'.length ≤ frames.length) := by
  refine ⟨?_, ?_, ?_⟩
  · intro observations observations' hcompletes frames h
    exact activeReadDecision_mono hcompletes h
  · intro observations frames h j frame hframe
    obtain ⟨hrun, -⟩ := activeReadDecision_eq_frames (majority_pos _) h
    have hsupport := hrun.supported j frame hframe
    exact ⟨hsupport, fun other hother => eq_of_support hsupport hother⟩
  · intro n state replies frames final h
    unfold readActiveQuorum at h
    by_cases hn : n = 0
    · rw [if_pos hn] at h
      cases h
    rw [if_neg hn] at h
    obtain ⟨hdecision, hdone⟩ := readActiveLoop_eq_ok h
    refine ⟨hdecision, ?_⟩
    intro observations' hcompletes frames' hdecision'
    rcases hdone with hdecided | hfew
    · rw [eq_of_completes_of_decided hcompletes hdecided, hdecision] at hdecision'
      cases hdecision'
      exact Nat.le_refl _
    · obtain ⟨hrun, -⟩ := activeReadDecision_eq_frames (majority_pos n) hdecision'
      by_contra hlt
      have hsupport := hrun.supported _ _ (List.getElem?_eq_getElem (Nat.not_le.1 hlt))
      exact absurd (hsupport.trans (support_le_possibleLonger hcompletes frames _))
        (Nat.not_le.2 hfew)

section Witness

/-- Two of three zones return the same record; the third one has not replied. -/
def agreeingReplies : List (Option (ActiveReadResult 3)) :=
  [some ⟨0, 0, .ok ⟨0, 1, chunk ⟨[1]⟩⟩⟩, some ⟨1, 0, .ok ⟨1, 1, chunk ⟨[1]⟩⟩⟩]

def freshRead : ActiveReadState 3 := ⟨0, fun _ => none, fun _ => none⟩

theorem active_read_monotone_pending :
    ∃ final, readActiveQuorum true freshRead agreeingReplies = some (.ok [⟨[1]⟩], final) ∧
      (final 2).isPending ∧ 2 ≤ support (List.ofFn final) 0 ⟨[1]⟩ ∧
      ∀ observations', List.Forall₂ Completes (List.ofFn final) observations' →
        activeReadDecision observations' 2 = .ok (.frames [⟨[1]⟩]) := by
  have hread : (readActiveQuorum true freshRead agreeingReplies).map
      (fun r => (r.1, (r.2 2).isPending)) = some (.ok [⟨[1]⟩], true) := by decide +kernel
  obtain ⟨⟨result, final⟩, hrun, heq⟩ := Option.map_eq_some_iff.1 hread
  simp only [Prod.mk.injEq] at heq
  obtain ⟨rfl, hpending⟩ := heq
  obtain ⟨hmono, hunique, hend⟩ := active_read_monotone
  obtain ⟨hdecision, hlength⟩ := hend 3 freshRead agreeingReplies _ final hrun
  have hquorum : majority (List.ofFn final).length = 2 := by rw [List.length_ofFn]; rfl
  have hdecided : activeReadDecision (List.ofFn final) (majority (List.ofFn final).length) =
      .ok (.frames [⟨[1]⟩]) := by
    rw [hquorum]
    exact hdecision
  have hsupport := (hunique _ _ hdecided 0 _ rfl).1
  rw [hquorum] at hsupport
  refine ⟨final, hrun, hpending, hsupport, ?_⟩
  intro observations' hcompletes
  obtain ⟨frames', hframes', hlonger⟩ := hmono _ _ hcompletes _ hdecided
  rw [hquorum] at hframes'
  have hle := hlength observations' hcompletes frames' hframes'
  rw [hlonger.eq_of_length_le hle]
  exact hframes'

end Witness

end Chorus
