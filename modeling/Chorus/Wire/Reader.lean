import Mathlib.Data.List.Induction
import Mathlib.Algebra.Order.Ring.Nat
import Mathlib.Tactic.Ring

/-!
# Reading a byte string from the front

A `Reader` takes a value off the front of a byte string and leaves the rest, or fails. `Reads p
valid write` says that `p` accepts exactly the encodings: it returns `a` if and only if `a` is valid
and the input starts with `write a`. The rules follow the way readers are put together, so that the
encoding and the decoder of a format are compared once, field by field.
-/

namespace Wire

/-- A reader of byte strings that may fail with an `ε`. -/
abbrev Reader (ε : Type) := StateT (List UInt8) (Except ε)

variable {ε α β γ : Type}

def take (short : ε) (count : Nat) : Reader ε (List UInt8) := fun bytes =>
  if bytes.length < count then .error short else .ok (bytes.take count, bytes.drop count)

def reject (c : Prop) [Decidable c] (error : ε) : Reader ε Unit := fun bytes =>
  if c then .error error else .ok ((), bytes)

/-- The number of `width` bytes in network byte order. -/
def putBe : Nat → Nat → List UInt8
  | 0, _ => []
  | width + 1, value => putBe width (value / 256) ++ [UInt8.ofNat value]

/-- The number that bytes in network byte order stand for. -/
def getBe (bytes : List UInt8) : Nat := bytes.foldl (fun value byte => value * 256 + byte.toNat) 0

def number (short : ε) (width : Nat) : Reader ε Nat := do return getBe (← take short width)

def replicate (p : Reader ε α) : Nat → Reader ε (List α)
  | 0 => pure []
  | count + 1 => do
    let a ← p
    let rest ← replicate p count
    return a :: rest

/-! ## Numbers -/

@[simp]
theorem length_putBe (width value : Nat) : (putBe width value).length = width := by
  induction width generalizing value with
  | zero => rfl
  | succ width ih => rw [putBe, List.length_append, ih, List.length_singleton]

theorem getBe_append_singleton (bytes : List UInt8) (byte : UInt8) :
    getBe (bytes ++ [byte]) = getBe bytes * 256 + byte.toNat := by
  rw [getBe, List.foldl_append]
  rfl

theorem getBe_putBe {width value : Nat} (h : value < 256 ^ width) :
    getBe (putBe width value) = value := by
  induction width generalizing value with
  | zero =>
    have hzero : value = 0 := by simpa using h
    rw [hzero]
    rfl
  | succ width ih =>
    have hquotient : value / 256 < 256 ^ width := by
      rw [pow_succ] at h
      exact Nat.div_lt_of_lt_mul (by rwa [mul_comm] at h)
    have hbyte : (UInt8.ofNat value).toNat = value % 256 := UInt8.toNat_ofNat'
    rw [putBe, getBe_append_singleton, ih hquotient, hbyte]
    omega

theorem getBe_lt (bytes : List UInt8) : getBe bytes < 256 ^ bytes.length := by
  induction bytes using List.reverseRecOn with
  | nil => decide
  | append_singleton bytes byte ih =>
    have hbyte := byte.toNat_lt
    rw [getBe_append_singleton, List.length_append, List.length_singleton, pow_succ]
    omega

theorem putBe_getBe (bytes : List UInt8) : putBe bytes.length (getBe bytes) = bytes := by
  induction bytes using List.reverseRecOn with
  | nil => rfl
  | append_singleton bytes byte ih =>
    have hbyte := byte.toNat_lt
    have hquotient : (getBe bytes * 256 + byte.toNat) / 256 = getBe bytes := by omega
    have hlast : UInt8.ofNat (getBe bytes * 256 + byte.toNat) = byte := by
      apply UInt8.toNat_inj.1
      rw [UInt8.toNat_ofNat']
      omega
    rw [List.length_append, List.length_singleton, putBe, getBe_append_singleton,
      hquotient, ih, hlast]

/-! ## Readers that accept exactly the encodings -/

/-- The reader returns the valid values whose encoding stands at the front, and leaves the rest. -/
def Reads (p : Reader ε α) (valid : α → Prop) (write : α → List UInt8) : Prop :=
  ∀ bytes a rest, p.run bytes = .ok (a, rest) ↔ valid a ∧ bytes = write a ++ rest

theorem run_bind_eq_ok {p : Reader ε α} {f : α → Reader ε β} {bytes rest : List UInt8} {b : β} :
    (p >>= f).run bytes = .ok (b, rest) ↔
      ∃ a mid, p.run bytes = .ok (a, mid) ∧ (f a).run mid = .ok (b, rest) := by
  rw [StateT.run_bind]
  constructor
  · intro h
    cases hp : p.run bytes with
    | error error =>
      rw [hp] at h
      cases h
    | ok r =>
      rw [hp] at h
      exact ⟨r.1, r.2, rfl, h⟩
  · rintro ⟨a, mid, hp, hf⟩
    rw [hp]
    exact hf

namespace Reads

variable {p : Reader ε α} {valid valid' : α → Prop} {write write' : α → List UInt8}

/-- A reader of encodings reads back what was written. -/
theorem run_write (h : Reads p valid write) {a : α} (ha : valid a) (rest : List UInt8) :
    p.run (write a ++ rest) = .ok (a, rest) := (h _ _ _).2 ⟨ha, rfl⟩

theorem congr (h : Reads p valid write) (hvalid : ∀ a, valid a ↔ valid' a)
    (hwrite : ∀ a, valid a → write a = write' a) : Reads p valid' write' := by
  intro bytes a rest
  rw [h bytes a rest, ← hvalid a]
  constructor
  · rintro ⟨ha, hbytes⟩
    exact ⟨ha, by rw [← hwrite a ha]; exact hbytes⟩
  · rintro ⟨ha, hbytes⟩
    exact ⟨ha, by rw [hwrite a ha]; exact hbytes⟩

theorem take (short : ε) (count : Nat) :
    Reads (Wire.take short count) (fun bytes => bytes.length = count) id := by
  intro bytes a rest
  show Wire.take short count bytes = _ ↔ _
  unfold Wire.take
  constructor
  · intro h
    split at h
    · cases h
    · rename_i hlong
      cases h
      have hlength : (bytes.take count).length = count := by
        rw [List.length_take]
        omega
      exact ⟨hlength, (List.take_append_drop count bytes).symm⟩
  · rintro ⟨rfl, rfl⟩
    rw [if_neg (by simp), id, List.take_left, List.drop_left]

theorem pure (a : α) : Reads (Pure.pure a : Reader ε α) (fun b => b = a) (fun _ => []) := by
  intro bytes b rest
  show Except.ok (a, bytes) = _ ↔ _
  rw [Except.ok.injEq, Prod.mk.injEq, List.nil_append]
  exact and_congr_left' eq_comm

theorem throw (error : ε) (write : α → List UInt8) :
    Reads (MonadExcept.throw error : Reader ε α) (fun _ => False) write := by
  intro bytes a rest
  constructor
  · intro h
    cases h
  · rintro ⟨hfalse, -⟩
    exact hfalse.elim

theorem reject (c : Prop) [Decidable c] (error : ε) :
    Reads (Wire.reject c error) (fun _ => ¬ c) (fun _ => []) := by
  intro bytes a rest
  show Wire.reject c error bytes = _ ↔ _
  unfold Wire.reject
  by_cases h : c
  · simp [h]
  · simp [h]

/-- Two readers in sequence. What the first one returned can be told from the result. -/
theorem bind {f : α → Reader ε γ} {valid' : α → γ → Prop} {write' : α → γ → List UInt8}
    (part : γ → α) (hp : Reads p valid write)
    (hf : ∀ a, valid a → Reads (f a) (valid' a) (write' a))
    (hpart : ∀ a c, valid a → valid' a c → part c = a) :
    Reads (p >>= f) (fun c => valid (part c) ∧ valid' (part c) c)
      (fun c => write (part c) ++ write' (part c) c) := by
  intro bytes c rest
  rw [run_bind_eq_ok]
  constructor
  · rintro ⟨a, mid, ha, hc⟩
    obtain ⟨hvalid, rfl⟩ := (hp _ _ _).1 ha
    obtain ⟨hvalid', rfl⟩ := (hf a hvalid _ _ _).1 hc
    obtain rfl := hpart a c hvalid hvalid'
    exact ⟨⟨hvalid, hvalid'⟩, (List.append_assoc _ _ _).symm⟩
  · rintro ⟨⟨hvalid, hvalid'⟩, rfl⟩
    refine ⟨part c, write' (part c) c ++ rest, ?_, (hf _ hvalid).run_write hvalid' rest⟩
    rw [List.append_assoc]
    exact hp.run_write hvalid _

/-- A reader whose result is rebuilt by a function with an inverse on the valid results. -/
theorem map {g : α → γ} (part : γ → α) (hp : Reads p valid write)
    (hpart : ∀ a, valid a → part (g a) = a) :
    Reads (do return g (← p)) (fun c => valid (part c) ∧ c = g (part c))
      (fun c => write (part c)) := by
  have h := hp.bind part (fun a _ => Reads.pure (g a)) fun a c ha hc => by
    rw [hc]
    exact hpart a ha
  exact h.congr (fun _ => Iff.rfl) fun c _ => List.append_nil _

theorem number (short : ε) (width : Nat) :
    Reads (Wire.number short width) (fun value => value < 256 ^ width) (putBe width) := by
  have h := (Reads.take short width).map (g := getBe) (putBe width) fun bytes hbytes => by
    rw [← hbytes]
    exact putBe_getBe bytes
  refine h.congr (fun value => ?_) fun _ _ => rfl
  constructor
  · rintro ⟨hlength, hvalue⟩
    have hlt := getBe_lt (putBe width value)
    rwa [← hvalue, hlength] at hlt
  · intro hvalue
    exact ⟨length_putBe width value, (getBe_putBe hvalue).symm⟩

theorem replicate (hp : Reads p valid write) (count : Nat) :
    Reads (Wire.replicate p count) (fun as => as.length = count ∧ ∀ a ∈ as, valid a)
      (fun as => as.flatMap write) := by
  intro bytes as rest
  induction count generalizing bytes as rest with
  | zero =>
    rw [Wire.replicate, Reads.pure [] bytes as rest]
    constructor
    · rintro ⟨rfl, hbytes⟩
      exact ⟨⟨rfl, nofun⟩, hbytes⟩
    · rintro ⟨⟨hlength, -⟩, hbytes⟩
      obtain rfl := List.length_eq_zero_iff.1 hlength
      exact ⟨rfl, hbytes⟩
  | succ count ih =>
    rw [Wire.replicate, run_bind_eq_ok]
    simp only [run_bind_eq_ok, ih]
    constructor
    · rintro ⟨a, mid, ha, as', mid', ⟨⟨hlength, hall⟩, rfl⟩, hpure⟩
      obtain ⟨hvalid, rfl⟩ := (hp _ _ _).1 ha
      obtain ⟨rfl, rfl⟩ := (Reads.pure (a :: as') _ _ _).1 hpure
      refine ⟨⟨by rw [List.length_cons, hlength], ?_⟩, ?_⟩
      · intro b hb
        rcases List.mem_cons.1 hb with rfl | hb
        · exact hvalid
        · exact hall b hb
      · rw [List.flatMap_cons, List.append_assoc]
    · rintro ⟨⟨hlength, hall⟩, rfl⟩
      obtain ⟨a, as', rfl⟩ := List.exists_cons_of_length_eq_add_one hlength
      refine ⟨a, as'.flatMap write ++ rest, ?_, as', rest, ⟨⟨?_, ?_⟩, rfl⟩, rfl⟩
      · rw [List.flatMap_cons, List.append_assoc]
        exact hp.run_write (hall a List.mem_cons_self) _
      · simpa using hlength
      · exact fun b hb => hall b (List.mem_cons_of_mem _ hb)

end Reads

end Wire
