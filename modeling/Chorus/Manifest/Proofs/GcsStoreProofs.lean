import Chorus.Concurrency.Run
import Chorus.Manifest.GcsStore

/-!
# The object is the register

The object that `GcsManifestStore` works on is a function of the abstract register: it shows the
current document under its version. Each call and each late write does to the object what it does to
the register, with the same answer.
-/

namespace Chorus

open Concurrency

variable {A : Type} {s : Store A}

namespace GcsRegister

/-- A conditional write as the service gets it. -/
def ofRequest (q : StoreRequest A) : RegisterRequest :=
  if q.version = 0 then .writeObject q.record.encode else .updateObject q.version q.record.encode

/-- The object in which the register is kept. -/
def ofStore (s : Store A) : GcsRegister where
  object := s.current.map fun record => ⟨s.version, record.encode⟩
  inflight := s.inflight.map ofRequest

theorem apply_ofStore (s : Store A) (q : StoreRequest A) :
    (ofStore s).apply (ofRequest q) = ofStore (s.apply q) := by
  obtain ⟨history, inflight⟩ := s
  obtain ⟨version, record, author⟩ := q
  cases history with
  | nil => cases version <;> rfl
  | cons entry history =>
    cases version with
    | zero => rfl
    | succ version =>
      simp only [apply, ofRequest, ofStore, RegisterRequest.perform, Store.current,
        Store.version, Store.apply]
      by_cases h : history.length = version <;> simp [h]

theorem resolve_ofStore (s : Store A) (q : StoreRequest A) (fate : RequestFate) :
    (ofStore s).resolve (ofRequest q) fate = ofStore (s.resolve q fate) := by
  have happly := apply_ofStore s q
  unfold ofRequest at happly ⊢
  cases fate with
  | dropped => split_ifs <;> rfl
  | applied => split_ifs at happly ⊢ <;> exact happly
  | delayed =>
    show _ = GcsRegister.mk _ (ofRequest q :: _)
    unfold ofRequest
    split_ifs <;> rfl

theorem deliver_ofStore {k : Nat} {request : RegisterRequest}
    (h : (ofStore s).inflight[k]? = some request) : ∃ q, s.inflight[k]? = some q ∧
      ({ (ofStore s).apply request with inflight := (ofStore s).inflight.eraseIdx k } :
        GcsRegister) = ofStore { s.apply q with inflight := s.inflight.eraseIdx k } := by
  obtain ⟨q, hq, rfl⟩ := Option.map_eq_some_iff.1 (List.getElem?_map.symm.trans h)
  refine ⟨q, hq, ?_⟩
  rw [apply_ofStore]
  simp [ofStore, Store.current, Store.version, List.eraseIdx_map]

/-! ## Calls -/

/-- An update names the version that it replaces, and no version is 0. -/
def versioned : RegisterAction A RequestOutcome → Bool
  | .call _ (.update version _) _ => version != 0
  | _ => true

theorem request_update {version : Nat} (h : version ≠ 0) (record : ManifestRecord) (author : A) :
    (StoreCall.update version record).request = ofRequest ⟨version, record, some author⟩ :=
  (if_neg h).symm

theorem answer_of_not_definite {call : StoreCall} {code : TransportCode} (h : ¬ code.definite) :
    call.answer (.error code) = .error (if code.transient then .unavailable else .backend) := by
  cases code <;> first | exact absurd rfl h | cases call <;> rfl

theorem call_failed {author : A} {call : StoreCall} {code : TransportCode} {fate : RequestFate}
    (h : ¬ code.definite) (hcall : versioned (.call author call (.failed code fate))) :
    ∃ outcome s',
      s.call author outcome call = some (s', call.answer (.error code)) ∧
        ofStore s' = (ofStore s).resolve call.request fate := by
  rw [answer_of_not_definite h]
  refine ⟨if code.transient then .unavailable fate else .backend fate, ?_⟩
  cases call with
  | read => split_ifs <;> exact ⟨s, rfl, rfl⟩
  | create record =>
    refine ⟨s.resolve ⟨0, record, none⟩ fate, ?_, (resolve_ofStore ..).symm⟩
    split_ifs <;> rfl
  | update version record =>
    have hne : version ≠ 0 := bne_iff_ne.1 hcall
    refine ⟨s.resolve ⟨version, record, some author⟩ fate, ?_, ?_⟩
    · split_ifs <;> simp [Store.call, storeMachine, Except.map, hne]
    · rw [request_update hne record author, resolve_ofStore]

theorem call_answered {author : A} {call : StoreCall}
    (hcall : versioned (.call author call .answered)) :
    ∃ outcome s', s.call author outcome call =
      some (s', call.answer (call.request.perform (ofStore s).object).2) ∧
      ofStore s' = (ofStore s).apply call.request := by
  obtain ⟨history, inflight⟩ := s
  cases call with
  | read => exact ⟨.answered, _, by cases history <;> rfl, rfl⟩
  | create record =>
    exact ⟨.answered, Store.apply _ ⟨0, record, none⟩, by cases history <;> rfl,
      (apply_ofStore ..).symm⟩
  | update version record =>
    have hne : version ≠ 0 := bne_iff_ne.1 hcall
    rw [request_update hne record author, apply_ofStore]
    cases history with
    | nil =>
      -- an update of a missing object is no conflict for the service, but a terminal failure
      refine ⟨.backend .dropped, _, ?_, rfl⟩
      simp [Store.call, storeMachine, Store.resolve, Store.apply, Store.version, Store.current,
        Except.map, ofRequest, ofStore, RegisterRequest.perform, StoreCall.answer, storeError,
        TransportCode.transient, hne, hne.symm]
    | cons entry history =>
      refine ⟨.answered, _, ?_, rfl⟩
      simp only [Store.call, storeMachine, ofRequest, ofStore, RegisterRequest.perform,
        Store.current, Store.version]
      by_cases h : (entry :: history).length = version <;>
        simp_all [Store.apply, Store.version, Except.map, StoreCall.answer, storeError]

end GcsRegister

open GcsRegister

/-- `GcsManifestStore` is a linearizable compare-and-swap register. Whatever any number of clients
call on the object, with failed calls whose writes are dropped, applied or arrive later, the
abstract register has a run with the same calls and the same answers, and the object shows its
current document under its version. -/
theorem gcs_register_refines {g : GcsRegister} {log : StoreLog}
    (hrun : Reaches GcsRegister.step (fun _ (a : RegisterAction A RequestOutcome) => versioned a)
      (⟨none, []⟩, []) (g, log)) :
    ∃ s : Store A, Reaches Store.step (fun _ _ => True) (.empty, []) (s, log) ∧ g = ofStore s := by
  refine hrun.invariant (I := fun p => ∃ s : Store A, Reaches Store.step (fun _ _ => True)
    (.empty, []) (s, p.2) ∧ p.1 = ofStore s) ⟨.empty, .refl, rfl⟩ ?_
  rintro ⟨_, log⟩ _ action ⟨s, hs, rfl⟩ hok hstep
  cases action with
  | call author call outcome =>
    obtain ⟨r, hsend, rfl⟩ := Option.map_eq_some_iff.1 hstep
    obtain ⟨outcome', s', hcall, heq⟩ :
      ∃ outcome' s', s.call author outcome' call = some (s', call.answer r.2) ∧
        ofStore s' = r.1 := by
      cases outcome with
      | answered =>
        cases hsend
        exact call_answered hok
      | failed code fate =>
        obtain ⟨hdefinite, heq⟩ := Option.ite_none_left_eq_some.1 hsend
        cases heq
        exact call_failed hdefinite hok
    exact ⟨s', hs.tail (a := .call author call outcome') trivial
      (by rw [Store.step, hcall]; rfl), heq.symm⟩
  | deliver k =>
    obtain ⟨request, hk, rfl⟩ := Option.map_eq_some_iff.1 hstep
    obtain ⟨q, hq, heq⟩ := deliver_ofStore hk
    exact ⟨_, hs.tail (a := .deliver k) trivial (by rw [Store.step, hq]; rfl), heq⟩

/-- An update arrives after another client has replaced the document that it was to replace. -/
def lateUpdate : List (RegisterAction Unit RequestOutcome) :=
  [.call () (.create (.initial ["a"])) .answered, .call () (.update 1 (.initial ["b"]))
    (.failed .unavailable .delayed), .call () (.update 1 (.initial ["c"])) .answered, .deliver 0]

def showsLatest (g : GcsRegister) : Bool :=
  g.object.any fun o => o.metageneration == 2 && o.metadata "chorus.buckets" == some "c"

theorem gcs_register_refines_late : ∃ (s : Store Unit) (log : StoreLog),
    Reaches Store.step (fun _ _ => True) (.empty, []) (s, log) ∧ log.length = 3 ∧
    showsLatest (ofStore s) := by
  have hrun :
      (runChecked GcsRegister.step (fun _ => versioned) (⟨none, []⟩, []) lateUpdate).any (fun p =>
      p.2.length == 3 && showsLatest p.1) = true := by
    decide +kernel
  obtain ⟨⟨g, log⟩, hs, hfacts⟩ := exists_reaches (fun _ _ h => h) hrun
  obtain ⟨hlength, hlatest⟩ := Bool.and_eq_true_iff.1 hfacts
  obtain ⟨s, hreach, rfl⟩ := gcs_register_refines hs
  exact ⟨s, log, hreach, beq_iff_eq.1 hlength, hlatest⟩

end Chorus
