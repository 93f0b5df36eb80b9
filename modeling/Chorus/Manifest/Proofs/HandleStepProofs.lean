import Chorus.Manifest.System

/-!
# What one step of the system changes

`NextHandle` lists the handles there can be after a step, one constructor for each kind of action.
The store changes only by an operation of a running call and by the delivery of a request
(`store_cases`); the records of returned and of issued calls grow by the call that returns or starts
(`completions_cases`, `issued_cases`).
-/

namespace Chorus

open Concurrency

namespace ManifestSystem

variable {s s' : ManifestSystem} {act : ManifestSystem.Action}

/-- The handle at position `j` after a step from `s` to `s'`. -/
inductive NextHandle (s s' : ManifestSystem) (act : ManifestSystem.Action) (j : Nat) :
    HandleState → Prop where
  | kept {x : HandleState} (hj : s.handles[j]? = some x) : NextHandle s s' act j x
  | cloned {i : Nat} {m : Manifest} (hi : s.handles[i]? = some (.idle m)) :
      NextHandle s s' act j (.idle m)
  | opened {owner : String} {replicaCount : Nat} {bucketNames : List String}
      {maxDirectoryBytes maxRetries : Nat}
      {prog : Prog StoreOp 0 (Manifest × Except ProtocolError Unit)}
      (hact : act = .openHandle owner replicaCount bucketNames maxDirectoryBytes maxRetries)
      (hopen : Manifest.openHandle owner replicaCount bucketNames maxDirectoryBytes
        maxRetries = .ok prog) :
      NextHandle s s' act j (.busy ⟨⟨.openHandle, ⟨0, owner⟩, maxDirectoryBytes⟩,
        s.store.version, 0⟩ prog)
  | adopted {i : Nat} {m m' : Manifest} (hj : s.handles[j]? = some (.idle m))
      (hi : s.handles[i]? = some (.idle m')) :
      NextHandle s s' act j (.idle (m.installUpdate m'.version m'.record))
  | called {call : ManifestCall} {m : Manifest} (hact : act = .call j call)
      (hj : s.handles[j]? = some (.idle m)) (hcall : call ≠ .openHandle)
        (hissued : s'.issued = call :: s.issued) :
      NextHandle s s' act j (.busy ⟨.of m call, s.store.version, m.version⟩ (call.prog m))
  | stepped {c : Running} {p p' : Prog StoreOp 0 (Manifest × Except ProtocolError Unit)}
      {choice : Choice StoreOutcome 0} (hj : s.handles[j]? = some (.busy c p))
      (hstep : (storeMachine c.author).step p s.store choice = some (s'.store, p')) :
      NextHandle s s' act j (.busy c p')
  | finished {c : Running} {m : Manifest} {outcome : Except ProtocolError Unit}
      (hj : s.handles[j]? = some (.busy c (.ret (m, outcome))))
      (hopen : ¬ (c.author.call = .openHandle ∧ ¬ outcome.isOk)) : NextHandle s s' act j (.idle m)
  | closed : NextHandle s s' act j .closed

theorem handle_of_set {handles : List HandleState} {i j : Nat} {x y : HandleState}
    (h : (handles.set i x)[j]? = some y) : handles[j]? = some y ∨ j = i ∧ x = y := by
  rw [List.getElem?_set] at h
  split at h
  · rename_i heq
    split at h
    · exact Or.inr ⟨heq.symm, Option.some.inj h⟩
    · cases h
  · exact Or.inl h

theorem handle_of_append {handles : List HandleState} {j : Nat} {x y : HandleState}
    (h : (handles ++ [x])[j]? = some y) : handles[j]? = some y ∨ x = y := by
  rw [List.getElem?_append] at h
  split at h
  · exact Or.inl h
  · rw [List.getElem?_singleton] at h
    split at h
    · exact Or.inr (Option.some.inj h)
    · cases h

/-- Every handle after a step is one of those listed. -/
theorem nextHandle (hs : s.step act = some s') {j : Nat} {x : HandleState}
    (hj : s'.handles[j]? = some x) : NextHandle s s' act j x := by
  cases act with
  | openHandle owner replicaCount bucketNames maxDirectoryBytes maxRetries =>
    simp only [step] at hs
    split at hs
    · cases hs
    · rename_i prog hopen
      cases hs
      rcases handle_of_append hj with hj | rfl
      · exact .kept hj
      · exact .opened rfl hopen
  | offPathAccess i =>
    simp only [step] at hs
    split at hs
    · rename_i m hi
      split_ifs at hs
      cases hs
      rcases handle_of_append hj with hj | rfl
      · exact .kept hj
      · exact .cloned hi
    · cases hs
  | installUpdate i k =>
    simp only [step] at hs
    split at hs
    · rename_i m m' hi hk
      cases hs
      rcases handle_of_set hj with hj | ⟨rfl, rfl⟩
      · exact .kept hj
      · exact .adopted hi hk
    · cases hs
  | call i call =>
    simp only [step] at hs
    split at hs
    · rename_i m hi
      split_ifs at hs with hcall
      cases hs
      rcases handle_of_set hj with hj | ⟨rfl, rfl⟩
      · exact .kept hj
      · exact .called rfl hi hcall rfl
    · cases hs
  | step i choice =>
    simp only [step] at hs
    split at hs
    · rename_i c p hi
      simp only [Option.map_eq_some_iff] at hs
      obtain ⟨⟨t, p'⟩, hstep, rfl⟩ := hs
      rcases handle_of_set hj with hj | ⟨rfl, rfl⟩
      · exact .kept hj
      · exact .stepped hi hstep
    · cases hs
  | finish i =>
    simp only [step] at hs
    split at hs
    · rename_i c m outcome hi
      cases hs
      rcases handle_of_set hj with hj | ⟨rfl, rfl⟩
      · exact .kept hj
      · split_ifs with hopen
        · exact .closed
        · exact .finished hi hopen
    · cases hs
  | deliver k =>
    simp only [step] at hs
    split at hs
    · cases hs
      exact .kept hj
    · cases hs

def Action.target? : Action → Option Nat
  | .installUpdate i _ | .call i _ | .step i _ | .finish i => some i
  | .openHandle .. | .offPathAccess _ | .deliver _ => none

def Action.opens? : Action → Option String
  | .openHandle owner _ _ _ _ => some owner
  | _ => none

theorem handle_of_ne (hs : s.step act = some s') {i : Nat} {x : HandleState}
    (htarget : act.target? ≠ some i) (hi : s.handles[i]? = some x) : s'.handles[i]? = some x := by
  have hset : ∀ (j : Nat) (y : HandleState), some j ≠ some i →
      (s.handles.set j y)[i]? = some x := by
    intro j y hne
    rw [List.getElem?_set_ne (fun heq => hne (congrArg some heq))]
    exact hi
  have happend : ∀ y : HandleState, (s.handles ++ [y])[i]? = some x := by
    intro y
    rw [List.getElem?_append_left (List.getElem?_eq_some_iff.1 hi).1]
    exact hi
  cases act with
  | openHandle owner replicaCount bucketNames maxDirectoryBytes maxRetries =>
    simp only [step] at hs
    split at hs <;> cases hs
    exact happend _
  | offPathAccess j =>
    simp only [step] at hs
    split at hs
    · split_ifs at hs
      cases hs
      exact happend _
    · cases hs
  | installUpdate j k =>
    simp only [step] at hs
    split at hs <;> cases hs
    exact hset j _ htarget
  | call j call =>
    simp only [step] at hs
    split at hs
    · split_ifs at hs
      cases hs
      exact hset j _ htarget
    · cases hs
  | step j choice =>
    simp only [step] at hs
    split at hs
    · obtain ⟨r, -, rfl⟩ := Option.map_eq_some_iff.1 hs
      exact hset j _ htarget
    · cases hs
  | finish j =>
    simp only [step] at hs
    split at hs <;> cases hs
    exact hset j _ htarget
  | deliver k =>
    simp only [step] at hs
    split at hs <;> cases hs
    exact hi

theorem handle_of_step {i : Nat} {choice : Choice StoreOutcome 0}
    (hs : s.step (.step i choice) = some s') {c : Running}
    {p : Prog StoreOp 0 (Manifest × Except ProtocolError Unit)}
    (hi : s.handles[i]? = some (.busy c p)) :
    ∃ p', s'.handles[i]? = some (.busy c p') ∧
      (storeMachine c.author).step p s.store choice = some (s'.store, p') := by
  simp only [step, hi] at hs
  obtain ⟨r, hstep, rfl⟩ := Option.map_eq_some_iff.1 hs
  exact ⟨r.2, List.getElem?_set_self (List.getElem?_eq_some_iff.1 hi).1, hstep⟩

theorem offPathAccess_cases {i : Nat} (hs : s.step (.offPathAccess i) = some s') :
    ∃ m, s.handles[i]? = some (.idle m) ∧ m.epoch ≠ 0 ∧ s'.store = s.store ∧
      s'.handles = s.handles ++ [.idle m] := by
  simp only [step] at hs
  split at hs
  · rename_i m hi
    split_ifs at hs with hepoch
    cases hs
    exact ⟨m, hi, hepoch, rfl, rfl⟩
  · cases hs

theorem installUpdate_cases {i j : Nat} (hs : s.step (.installUpdate i j) = some s') :
    ∃ m m', s.handles[i]? = some (.idle m) ∧ s.handles[j]? = some (.idle m') ∧ s'.store = s.store ∧
      s'.handles[i]? = some (.idle (m.installUpdate m'.version m'.record)) := by
  simp only [step] at hs
  split at hs
  · rename_i m m' hi hj
    cases hs
    exact ⟨m, m', hi, hj, rfl, List.getElem?_set_self (List.getElem?_eq_some_iff.1 hi).1⟩
  · cases hs

theorem call_cases {i : Nat} {call : ManifestCall} (hs : s.step (.call i call) = some s') :
    ∃ m, s.handles[i]? = some (.idle m) ∧ s'.store = s.store ∧
      s'.handles[i]? = some (.busy ⟨.of m call, s.store.version, m.version⟩ (call.prog m)) := by
  simp only [step] at hs
  split at hs
  · rename_i m hi
    split_ifs at hs
    cases hs
    exact ⟨m, hi, rfl, List.getElem?_set_self (List.getElem?_eq_some_iff.1 hi).1⟩
  · cases hs

/-- A call returns. Only a failed opening does not leave its handle. -/
theorem finish_cases {i : Nat} (hs : s.step (.finish i) = some s') :
    ∃ c m outcome, s.handles[i]? = some (.busy c (.ret (m, outcome))) ∧ s'.store = s.store ∧
      s'.completions = ⟨c, s.store.version, outcome⟩ :: s.completions ∧
      (c.author.call ≠ .openHandle → s'.handles[i]? = some (.idle m)) := by
  simp only [step] at hs
  split at hs
  · rename_i c m outcome hi
    cases hs
    refine ⟨c, m, outcome, hi, rfl, rfl, fun hcall => ?_⟩
    rw [List.getElem?_set_self (List.getElem?_eq_some_iff.1 hi).1, if_neg fun h => hcall h.1]
  · cases hs

theorem store_cases (hs : s.step act = some s') :
    s'.store = s.store ∨
    (∃ (i : Nat) (c : Running) (p p' : Prog StoreOp 0 (Manifest × Except ProtocolError Unit))
      (choice : Choice StoreOutcome 0), s.handles[i]? = some (.busy c p) ∧
      (storeMachine c.author).step p s.store choice = some (s'.store, p')) ∨
    ∃ k q, s.store.inflight[k]? = some q ∧
      s'.store = { s.store.apply q with inflight := s.store.inflight.eraseIdx k } := by
  cases act with
  | step i choice =>
    simp only [step] at hs
    split at hs
    · rename_i c p hi
      simp only [Option.map_eq_some_iff] at hs
      obtain ⟨⟨t, p'⟩, hstep, rfl⟩ := hs
      exact Or.inr (Or.inl ⟨i, c, p, p', choice, hi, hstep⟩)
    · cases hs
  | deliver k =>
    simp only [step] at hs
    split at hs
    · rename_i q hq
      cases hs
      exact Or.inr (Or.inr ⟨k, q, hq, rfl⟩)
    · cases hs
  | _ =>
    refine Or.inl ?_
    simp only [step] at hs
    repeat' split at hs
    all_goals first | cases hs; rfl | cases hs

/-- A step adds at most the call that returns to those that have returned. -/
theorem completions_cases (hs : s.step act = some s') :
    s'.completions = s.completions ∨
    ∃ (i : Nat) (c : Running) (m : Manifest) (outcome : Except ProtocolError Unit),
      act = .finish i ∧ s.handles[i]? = some (.busy c (.ret (m, outcome))) ∧ s'.store = s.store ∧
      s'.completions = ⟨c, s.store.version, outcome⟩ :: s.completions := by
  cases act with
  | finish i =>
    simp only [step] at hs
    split at hs
    · rename_i c m outcome hi
      cases hs
      exact Or.inr ⟨i, c, m, outcome, rfl, hi, rfl, rfl⟩
    · cases hs
  | _ =>
    refine Or.inl ?_
    simp only [step] at hs
    repeat' split at hs
    all_goals first
      | cases hs; rfl
      | cases hs
      | (obtain ⟨_, -, rfl⟩ := Option.map_eq_some_iff.1 hs; rfl)

/-- A step adds at most the call that it starts to those that were issued. -/
theorem issued_cases (hs : s.step act = some s') :
    s'.issued = s.issued ∨ ∃ i call, act = .call i call ∧ s'.issued = call :: s.issued := by
  cases act with
  | call i call =>
    simp only [step] at hs
    split at hs
    · split_ifs at hs
      cases hs
      exact Or.inr ⟨i, call, rfl, rfl⟩
    · cases hs
  | _ =>
    refine Or.inl ?_
    simp only [step] at hs
    repeat' split at hs
    all_goals first
      | cases hs; rfl
      | cases hs
      | (obtain ⟨_, -, rfl⟩ := Option.map_eq_some_iff.1 hs; rfl)

theorem issued_subset (hs : s.step act = some s') : s.issued ⊆ s'.issued := by
  rcases issued_cases hs with heq | ⟨i, call, -, heq⟩
  · exact fun call hmem => heq ▸ hmem
  · exact fun call hmem => heq ▸ List.mem_cons_of_mem _ hmem

end ManifestSystem

end Chorus
