import Chorus.SlateDb.Codec

/-!
# The batch encoding is canonical

Every part of `decode` accepts exactly the encodings of its values, and so does the whole: `decode`
returns rows if and only if the bytes are the encoding of these rows (`decode_eq_ok_iff`).
-/

namespace Chorus.SlateDb

open Wire

/-! ## The parts of a row -/

theorem reads_u8 : Reads getU8 (fun _ => True) (fun byte => [byte]) := by
  have h := (Reads.number (BatchDataFault.truncated) 1).map (g := UInt8.ofNat) UInt8.toNat
    fun value hvalue => by
      rw [UInt8.toNat_ofNat']
      exact Nat.mod_eq_of_lt (by simpa using hvalue)
  refine h.congr (fun byte => ?_) fun byte _ => ?_
  · simp [byte.toNat_lt]
  · simp [putBe]

theorem reads_u32 : Reads getU32 (fun value => value ≤ u32Max) (putBe 4) :=
  (Reads.number _ 4).congr (fun value => by unfold u32Max; omega) fun _ _ => rfl

theorem reads_u64 : Reads getU64 (fun _ => True) (fun value => putBe 8 value.toNat) := by
  have h := (Reads.number (BatchDataFault.truncated) 8).map (g := UInt64.ofNat) UInt64.toNat
    fun value hvalue => by
      rw [UInt64.toNat_ofNat']
      exact Nat.mod_eq_of_lt (by simpa using hvalue)
  refine h.congr (fun value => ?_) fun _ _ => rfl
  have hlt := value.toNat_lt
  simp [hlt]

theorem reads_i64 : Reads getI64 (fun _ => True) (fun ts => putBe 8 ts.toUInt64.toNat) := by
  have h := reads_u64.map (g := UInt64.toInt64) Int64.toUInt64 fun _ _ => rfl
  exact h.congr (fun ts => by simp) fun _ _ => rfl

theorem reads_field : Reads field (fun bytes => bytes.length ≤ u32Max) putField := by
  have h := reads_u32.bind (f := takeBytes) List.length
    (fun count _ => Reads.take (BatchDataFault.truncated) count) fun _ _ _ hlength => hlength
  exact h.congr (fun bytes => by simp) fun _ _ => rfl

theorem reads_ts (present : Bool) :
    Reads (getTs present) (fun ts => ts.isSome = present) putTs := by
  cases present with
  | false =>
    refine (Reads.pure (none : Option Int64)).congr (fun ts => ?_) fun ts hts => ?_
    · rw [Option.isSome_eq_false_iff, Option.isNone_iff_eq_none]
    · rw [hts]
      rfl
  | true =>
    have h := reads_i64.map (g := some) (fun ts => ts.getD 0) fun _ _ => rfl
    refine h.congr (fun ts => ?_) fun ts hts => ?_
    · cases ts <;> simp
    · obtain ⟨-, hts⟩ := hts
      rw [hts]
      rfl

theorem reads_value (tag : UInt8) : Reads (getValue tag)
    (fun value => value.tag = tag ∧ value.len ≤ u32Max) ValueDeletable.encode := by
  have hfield : ∀ (kind : Bytes → ValueDeletable), (∀ bytes, (kind bytes).asBytes = some bytes) →
      Reads (do return kind (← field)) (fun value => ∃ bytes, value = kind bytes ∧
        bytes.length ≤ u32Max) ValueDeletable.encode := by
    intro kind hkind
    have h := reads_field.map (g := kind) (fun value => value.asBytes.getD []) fun bytes _ => by
      rw [hkind, Option.getD_some]
    refine h.congr (fun value => ?_) fun value hvalue => ?_
    · constructor
      · rintro ⟨hlength, hvalue⟩
        exact ⟨_, hvalue, hlength⟩
      · rintro ⟨bytes, rfl, hlength⟩
        rw [hkind, Option.getD_some]
        exact ⟨hlength, rfl⟩
    · obtain ⟨-, hvalue⟩ := hvalue
      rw [ValueDeletable.encode, hvalue, hkind, Option.getD_some]
  unfold getValue
  split
  · refine (hfield .value fun _ => rfl).congr (fun value => ?_) fun _ _ => rfl
    cases value <;> simp [ValueDeletable.tag, ValueDeletable.len]
  · refine (hfield .merge fun _ => rfl).congr (fun value => ?_) fun _ _ => rfl
    cases value <;> simp [ValueDeletable.tag, ValueDeletable.len]
  · refine (Reads.pure ValueDeletable.tombstone).congr (fun value => ?_) fun value hvalue => ?_
    · cases value <;> simp [ValueDeletable.tag, ValueDeletable.len]
    · rw [hvalue]
      rfl
  · rename_i hvalue hmerge htombstone
    refine (Reads.throw _ ValueDeletable.encode).congr (fun value => ?_) fun _ _ => rfl
    rw [false_iff, not_and]
    intro htag
    cases value with
    | value bytes => exact absurd htag.symm hvalue
    | merge bytes => exact absurd htag.symm hmerge
    | tombstone => exact absurd htag.symm htombstone

/-! ## Rows -/

/-- The two flag bits, and no other, say which timestamps a row has. -/
theorem flags_eq_iff (flags : UInt8) (create expire : Bool) :
    (flags &&& ~~~3 = 0 ∧ create = decide (flags &&& 1 ≠ 0) ∧ expire = decide (flags &&& 2 ≠ 0)) ↔
      flags = (if create then (1 : UInt8) else 0) |||
        ((if expire then (1 : UInt8) else 0) <<< 1) := by
  obtain ⟨bits⟩ := flags
  revert bits create expire
  decide +kernel

/-- The lengths of key and value fit their fields. -/
def RowEntry.Fits (row : RowEntry) : Prop := row.key.length ≤ u32Max ∧ row.value.len ≤ u32Max

section Rows

variable (key : Bytes) (seq : UInt64)

/-- The last part of a row, once its key, its tag and its timestamps are known. -/
theorem reads_rowValue (tag : UInt8) (createTs expireTs : Option Int64) :
    Reads (do return (⟨key, ← getValue tag, seq, createTs, expireTs⟩ : RowEntry))
      (fun row => row = ⟨key, row.value, seq, createTs, expireTs⟩ ∧ row.value.tag = tag ∧
        row.value.len ≤ u32Max) (fun row => row.value.encode) := by
  have h := (reads_value tag).map
      (g := fun value => (⟨key, value, seq, createTs, expireTs⟩ : RowEntry))
    RowEntry.value fun _ _ => rfl
  exact h.congr (fun row => and_comm) fun _ _ => rfl

theorem reads_rowRest (tag flags : UInt8) :
    Reads (do
      reject (flags &&& ~~~3 ≠ 0) .rowFlags
      let createTs ← getTs (flags &&& 1 ≠ 0)
      let expireTs ← getTs (flags &&& 2 ≠ 0)
      return (⟨key, ← getValue tag, seq, createTs, expireTs⟩ : RowEntry))
      (fun row => row.flags = flags ∧ row.value.tag = tag ∧ row.key = key ∧ row.seq = seq ∧
        row.value.len ≤ u32Max)
      (fun row => putTs row.createTs ++ (putTs row.expireTs ++ row.value.encode)) := by
  have h := (Reads.reject (flags &&& ~~~3 ≠ 0) BatchDataFault.rowFlags).bind (fun _ => ())
    (fun _ _ => (reads_ts (flags &&& 1 ≠ 0)).bind RowEntry.createTs
      (fun createTs _ => (reads_ts (flags &&& 2 ≠ 0)).bind RowEntry.expireTs
        (fun expireTs _ => reads_rowValue key seq tag createTs expireTs)
        fun expireTs row _ hrow => by rw [hrow.1])
      fun createTs row _ hrow => by rw [hrow.2.1])
    fun _ _ _ _ => rfl
  refine h.congr (fun row => ?_) fun _ _ => rfl
  have hflags := flags_eq_iff flags row.createTs.isSome row.expireTs.isSome
  constructor
  · rintro ⟨hreject, hcreate, hexpire, hrow, htag, hlen⟩
    refine ⟨(hflags.1 ⟨not_not.1 hreject, hcreate, hexpire⟩).symm, htag, ?_, ?_, hlen⟩
    · rw [hrow]
    · rw [hrow]
  · rintro ⟨hrow, htag, rfl, rfl, hlen⟩
    obtain ⟨hreject, hcreate, hexpire⟩ := hflags.2 hrow.symm
    exact ⟨not_not.2 hreject, hcreate, hexpire, rfl, htag, hlen⟩

theorem reads_row : Reads (getRow seq) (fun row => row.seq = seq ∧ row.Fits) RowEntry.encode := by
  have h := reads_field.bind RowEntry.key
    (fun key _ => reads_u8.bind (fun row : RowEntry => row.value.tag)
      (fun tag _ => reads_u8.bind RowEntry.flags (fun flags _ => reads_rowRest key seq tag flags)
        fun _ _ _ hrow => hrow.1)
      fun _ _ _ hrow => hrow.2.2.1)
    fun _ _ _ hrow => hrow.2.2.2.2.1
  refine h.congr (fun row => ?_) fun row _ => ?_
  · constructor
    · rintro ⟨hkey, -, -, -, -, -, hseq, hlen⟩
      exact ⟨hseq, hkey, hlen⟩
    · rintro ⟨hseq, hkey, hlen⟩
      exact ⟨hkey, trivial, trivial, rfl, rfl, rfl, hseq, hlen⟩
  · simp only [RowEntry.encode, List.append_assoc]

end Rows

/-! ## Batches -/

/-- The rows of one batch: there is at least one, they share a sequence number, and their number and
lengths fit their fields. -/
structure IsBatch (seq : UInt64) (rows : List RowEntry) : Prop where
  nonempty : rows ≠ []
  count : rows.length ≤ u32Max
  rows : ∀ row ∈ rows, row.seq = seq ∧ row.Fits

def batchBytes (seq : UInt64) (rows : List RowEntry) : Bytes :=
  magic ++ (putBe 4 rows.length ++ (putBe 8 seq.toNat ++ rows.flatMap RowEntry.encode))

def batchSize (rows : List RowEntry) : Nat :=
  magic.length + 4 + 8 +
    (rows.map fun row => row.metadataLen + row.key.length + row.value.len).sum

theorem length_putTs (ts : Option Int64) : (putTs ts).length = if ts.isSome then 8 else 0 := by
  cases ts with
  | none => rfl
  | some ts => exact length_putBe 8 _

theorem length_encode_value (value : ValueDeletable) :
    value.encode.length = (if value.isTombstone then 0 else 4) + value.len := by
  cases value with
  | value bytes => simp [ValueDeletable.encode, ValueDeletable.asBytes, putField,
      ValueDeletable.isTombstone, ValueDeletable.len]
  | merge bytes => simp [ValueDeletable.encode, ValueDeletable.asBytes, putField,
      ValueDeletable.isTombstone, ValueDeletable.len]
  | tombstone => rfl

theorem length_encode_row (row : RowEntry) :
    row.encode.length = row.metadataLen + row.key.length + row.value.len := by
  have hkey : (putField row.key).length = 4 + row.key.length := by simp [putField]
  simp only [RowEntry.encode, List.length_append, hkey, length_putTs, length_encode_value,
    List.length_singleton, RowEntry.metadataLen]
  omega

theorem length_batchBytes (seq : UInt64) (rows : List RowEntry) :
    (batchBytes seq rows).length = batchSize rows := by
  have hrows : (rows.flatMap RowEntry.encode).length =
      (rows.map fun row => row.metadataLen + row.key.length + row.value.len).sum := by
    rw [List.length_flatMap]
    exact congrArg List.sum (List.map_congr_left fun row _ => length_encode_row row)
  simp only [batchBytes, batchSize, List.length_append, length_putBe, hrows]
  omega

/-- A row takes at least six bytes, so the number of rows of a batch is plausible. -/
theorem count_le_length (rows : List RowEntry) (rest : Bytes) :
    rows.length ≤ (rows.flatMap RowEntry.encode ++ rest).length / 6 := by
  have hrows : 6 * rows.length ≤ (rows.flatMap RowEntry.encode).length := by
    induction rows with
    | nil => simp
    | cons row rows ih =>
      have hrow : 6 ≤ row.encode.length := by
        rw [length_encode_row, RowEntry.metadataLen]
        omega
      rw [List.flatMap_cons, List.length_append, List.length_cons]
      omega
  rw [List.length_append]
  omega

/-- The reader of batches finds a batch at the front and leaves the rest. -/
theorem run_getBatch_eq_ok {bytes rest : Bytes} {rows : List RowEntry} :
    getBatch.run bytes = .ok (rows, rest) ↔ ∃ seq, IsBatch seq rows ∧
      bytes = batchBytes seq rows ++ rest := by
  unfold getBatch
  simp only [run_bind_eq_ok]
  constructor
  · rintro ⟨found, b₁, hfound, _, b₂, hmagic, count, b₃, hcount, seq, b₄, hseq, left, b₅, hleft,
      _, b₆, hreject, hrows⟩
    obtain ⟨-, rfl⟩ := (Reads.take _ _ _ _ _).1 hfound
    obtain ⟨hformat, rfl⟩ := (Reads.reject _ _ _ _ _).1 hmagic
    obtain ⟨hmax, rfl⟩ := (reads_u32 _ _ _).1 hcount
    obtain ⟨-, rfl⟩ := (reads_u64 _ _ _).1 hseq
    cases hleft
    obtain ⟨hroom, rfl⟩ := (Reads.reject _ _ _ _ _).1 hreject
    obtain ⟨⟨hlength, hall⟩, rfl⟩ := ((reads_row seq).replicate count _ _ _).1 hrows
    obtain rfl := not_not.1 hformat
    refine ⟨seq, ⟨?_, by omega, hall⟩, ?_⟩
    · rintro rfl
      exact hroom (Or.inl hlength.symm)
    · simp only [batchBytes, hlength, id, List.append_assoc]
  · rintro ⟨seq, hbatch, rfl⟩
    have hpos := List.length_pos_of_ne_nil hbatch.nonempty
    have hcount := count_le_length rows rest
    have hbytes : batchBytes seq rows ++ rest = magic ++ (putBe 4 rows.length ++
        (putBe 8 seq.toNat ++ (rows.flatMap RowEntry.encode ++ rest))) := by
      simp only [batchBytes, List.append_assoc]
    have hreject : ¬ (rows.length = 0 ∨
        (rows.flatMap RowEntry.encode ++ rest).length / 6 < rows.length) := by omega
    rw [hbytes]
    exact ⟨magic, _, (Reads.take _ _).run_write rfl _, (), _,
      (Reads.reject _ _).run_write (not_not.2 rfl) _, rows.length, _,
      reads_u32.run_write hbatch.count _, seq, _, reads_u64.run_write trivial _, _, _, rfl, (), _,
      (Reads.reject _ _).run_write hreject _, ((reads_row seq).replicate rows.length).run_write
        ⟨rfl, hbatch.rows⟩ rest⟩

/-- `decode` accepts exactly the encodings. -/
theorem decode_eq_ok_iff {bytes : Bytes} {rows : List RowEntry} :
    decode bytes = .ok rows ↔ ∃ seq, IsBatch seq rows ∧ bytes = batchBytes seq rows := by
  have hrun : decode bytes = .ok rows ↔ getBatch.run bytes = .ok (rows, []) := by
    unfold decode
    rw [bind_eq_ok]
    constructor
    · rintro ⟨⟨rows', rest⟩, hrun, hrest⟩
      obtain ⟨_, hempty, hrows⟩ := bind_eq_ok.1 hrest
      rw [failIf_eq_ok, not_not] at hempty
      cases hrows
      rw [hrun, hempty]
    · intro hrun
      exact ⟨(rows, []), hrun, rfl⟩
  rw [hrun, run_getBatch_eq_ok]
  simp only [List.append_nil]

/-! ## Encoding a batch -/

theorem checkedAdd_three_eq_some {size a b c total : Nat} :
    ((checkedAdd size a).bind (checkedAdd · b)).bind (checkedAdd · c) = some total ↔
      total = size + (a + b + c) ∧ total < u64Limit := by
  unfold checkedAdd
  constructor
  · intro h
    obtain ⟨size₂, h₂, h₃⟩ := Option.bind_eq_some_iff.1 h
    obtain ⟨size₁, h₁, h₂⟩ := Option.bind_eq_some_iff.1 h₂
    rw [Option.ite_none_right_eq_some] at h₁ h₂ h₃
    simp only [Option.some.injEq] at h₁ h₂ h₃
    omega
  · rintro ⟨rfl, hlt⟩
    rw [if_pos (by omega), Option.bind_some, if_pos (by omega), Option.bind_some, if_pos (by omega)]
    congr 1
    omega

/-- The loop over the rows succeeds with the total if every row passes its checks and the total
fits. -/
theorem measure_eq_ok {seq : UInt64} {size total : Nat} {rows : List RowEntry}
    (hsize : size < u64Limit) :
    measure seq size rows = .ok total ↔ (∀ row ∈ rows, row.seq = seq ∧ row.Fits) ∧
      total = size + (rows.map fun row => row.metadataLen + row.key.length + row.value.len).sum ∧
      total < u64Limit := by
  induction rows generalizing size with
  | nil =>
    simp only [measure, Except.ok.injEq, List.not_mem_nil, false_imp_iff, implies_true, true_and,
      List.map_nil, List.sum_nil]
    omega
  | cons row rows ih =>
    have hrow : measure seq size (row :: rows) = .ok total ↔ (row.seq = seq ∧ row.Fits) ∧
        ∃ next, (next = size + (row.metadataLen + row.key.length + row.value.len) ∧
          next < u64Limit) ∧ measure seq next rows = .ok total := by
      simp only [measure, bind_eq_ok, failIf_eq_ok, exists_const, not_not, RowEntry.Fits, not_lt,
        and_assoc]
      refine and_congr_right fun _ => and_congr_right fun _ => and_congr_right fun _ => ?_
      cases hadd : ((checkedAdd size row.metadataLen).bind (checkedAdd · row.key.length)).bind
          (checkedAdd · row.value.len) with
      | none =>
        simp only [reduceCtorEq, false_iff, not_exists, not_and]
        intro next hnext hlt
        rw [checkedAdd_three_eq_some.2 ⟨hnext, hlt⟩] at hadd
        cases hadd
      | some next =>
        obtain ⟨hnext, hlt⟩ := checkedAdd_three_eq_some.1 hadd
        simp only [← hnext, exists_eq_left]
        exact ⟨fun h => ⟨hlt, h⟩, fun h => h.2⟩
    rw [hrow, List.forall_mem_cons, List.map_cons, List.sum_cons]
    constructor
    · rintro ⟨hfirst, next, ⟨rfl, hlt⟩, hrest⟩
      obtain ⟨hall, htotal, hfits⟩ := (ih hlt).1 hrest
      exact ⟨⟨hfirst, hall⟩, by omega, hfits⟩
    · rintro ⟨⟨hfirst, hall⟩, htotal, hfits⟩
      have hlt : size + (row.metadataLen + row.key.length + row.value.len) < u64Limit := by omega
      exact ⟨hfirst, _, ⟨rfl, hlt⟩, (ih hlt).2 ⟨hall, by omega, hfits⟩⟩

/-- `encode` writes the batches whose size is within the limit and within 64 bits. -/
theorem encode_eq_ok_iff {rows : List RowEntry} {maxBytes : Nat} {bytes : Bytes} :
    encode rows maxBytes = .ok bytes ↔ ∃ seq, IsBatch seq rows ∧ batchSize rows ≤ maxBytes ∧
      batchSize rows < u64Limit ∧ bytes = batchBytes seq rows := by
  have hheader : magic.length + 4 + 8 < u64Limit := by decide
  cases rows with
  | nil =>
    constructor
    · intro h
      cases h
    · rintro ⟨seq, hbatch, -⟩
      exact absurd rfl hbatch.nonempty
  | cons first rest =>
    simp only [encode, bind_eq_ok, failIf_eq_ok, exists_const, not_lt, measure_eq_ok hheader]
    constructor
    · rintro ⟨hcount, size, ⟨hrows, hsize, hlt⟩, hmax, hbytes⟩
      obtain rfl : size = batchSize (first :: rest) := hsize
      cases hbytes
      exact ⟨first.seq, ⟨by simp, hcount, hrows⟩, hmax, hlt,
        by simp only [batchBytes, List.append_assoc]⟩
    · rintro ⟨seq, hbatch, hmax, hlt, rfl⟩
      obtain rfl : first.seq = seq := (hbatch.rows first List.mem_cons_self).1
      refine ⟨hbatch.count, batchSize (first :: rest), ⟨hbatch.rows, rfl, hlt⟩, hmax, ?_⟩
      simp only [batchBytes, List.append_assoc]
      rfl

theorem decode_of_encode {rows : List RowEntry} {maxBytes : Nat} {bytes : Bytes}
    (h : encode rows maxBytes = .ok bytes) : decode bytes = .ok rows := by
  obtain ⟨seq, hbatch, -, -, hbytes⟩ := encode_eq_ok_iff.1 h
  exact decode_eq_ok_iff.2 ⟨seq, hbatch, hbytes⟩

/-- Two encodings one of which starts with the other are the same. -/
theorem eq_of_decode_isPrefix {bytes bytes' : Bytes} {rows rows' : List RowEntry}
    (h : decode bytes = .ok rows) (h' : decode bytes' = .ok rows') (hle : bytes <+: bytes') :
    bytes' = bytes := by
  obtain ⟨seq, hbatch, hbytes⟩ := decode_eq_ok_iff.1 h
  obtain ⟨seq', hbatch', hbytes'⟩ := decode_eq_ok_iff.1 h'
  obtain ⟨rest, hrest⟩ := hle
  -- the reader finds the shorter batch and leaves nothing
  have hshort : getBatch.run bytes' = .ok (rows, rest) :=
    run_getBatch_eq_ok.2 ⟨seq, hbatch, by rw [← hrest, hbytes]⟩
  have hlong : getBatch.run bytes' = .ok (rows', []) :=
    run_getBatch_eq_ok.2 ⟨seq', hbatch', by rw [hbytes', List.append_nil]⟩
  rw [hshort] at hlong
  cases hlong
  rw [← hrest, List.append_nil]

/-- A byte string has less than `2 ^ 64` bytes, and so has a size limit. Under these bounds `encode`
and `decode` are inverse to each other: `encode` succeeds within its limit, its result has the
computed size and decodes to the rows; whatever decodes is the encoding of what it decodes to; and
no proper prefix or extension of an encoding decodes. -/
theorem batch_codec_canonical :
    (∀ (rows : List RowEntry) (maxBytes : Nat), maxBytes < u64Limit → rows ≠ [] →
      (∀ row ∈ rows, ∀ row' ∈ rows, row.seq = row'.seq) →
      (∀ row ∈ rows, row.key.length ≤ u32Max ∧ row.value.len ≤ u32Max) → rows.length ≤ u32Max →
      batchSize rows ≤ maxBytes → ∃ bytes, encode rows maxBytes = .ok bytes ∧
        bytes.length = batchSize rows ∧ decode bytes = .ok rows) ∧
    (∀ (bytes : Bytes) (rows : List RowEntry), bytes.length < u64Limit → decode bytes = .ok rows →
      encode rows (u64Limit - 1) = .ok bytes) ∧
    (∀ bytes : Bytes, bytes.length < u64Limit →
      ((∃ rows, decode bytes = .ok rows) ↔ ∃ rows maxBytes, encode rows maxBytes = .ok bytes)) ∧
    (∀ (rows : List RowEntry) (maxBytes : Nat) (bytes other : Bytes),
      encode rows maxBytes = .ok bytes → other <+: bytes ∨ bytes <+: other → other ≠ bytes →
      ∀ rows', decode other ≠ .ok rows') ∧
    ∀ (rows : List RowEntry) (maxBytes : Nat) (bytes : Bytes), encode rows maxBytes = .ok bytes →
      decode bytes ≠ .error .rowCount := by
  have hback : ∀ (bytes : Bytes) (rows : List RowEntry), bytes.length < u64Limit →
      decode bytes = .ok rows → encode rows (u64Limit - 1) = .ok bytes := by
    intro bytes rows hlength h
    obtain ⟨seq, hbatch, rfl⟩ := decode_eq_ok_iff.1 h
    rw [length_batchBytes] at hlength
    exact encode_eq_ok_iff.2 ⟨seq, hbatch, by omega, hlength, rfl⟩
  refine ⟨?_, hback, ?_, ?_, ?_⟩
  · intro rows maxBytes hmax hne hseq hfits hcount hsize
    obtain ⟨first, hfirst⟩ := List.exists_mem_of_ne_nil rows hne
    have hbatch : IsBatch first.seq rows :=
      ⟨hne, hcount, fun row hrow => ⟨hseq row hrow first hfirst, hfits row hrow⟩⟩
    have hencode : encode rows maxBytes = .ok (batchBytes first.seq rows) :=
      encode_eq_ok_iff.2 ⟨first.seq, hbatch, hsize, by omega, rfl⟩
    exact ⟨_, hencode, length_batchBytes _ _, decode_of_encode hencode⟩
  · intro bytes hlength
    constructor
    · rintro ⟨rows, h⟩
      exact ⟨rows, _, hback bytes rows hlength h⟩
    · rintro ⟨rows, maxBytes, h⟩
      exact ⟨rows, decode_of_encode h⟩
  · intro rows maxBytes bytes other h hle hne rows' hother
    rcases hle with hle | hle
    · exact hne (eq_of_decode_isPrefix hother (decode_of_encode h) hle).symm
    · exact hne (eq_of_decode_isPrefix (decode_of_encode h) hother hle)
  · intro rows maxBytes bytes h hreject
    rw [decode_of_encode h] at hreject
    cases hreject

/-- A value, a merge operand without bytes and a tombstone, with the extreme timestamps. -/
def mixedBatch : List RowEntry :=
  [⟨[0, 0, 255], .value [0, 118], 18446744073709551615, some Int64.minValue, none⟩,
    ⟨[0, 1, 255], .merge [], 18446744073709551615, some Int64.minValue, some Int64.maxValue⟩,
    ⟨[], .tombstone, 18446744073709551615, none, none⟩]

/-- The batch is written with exactly its size as the limit and read back, and what is left of it
without its last byte is no batch. -/
theorem batch_codec_canonical_mixed :
    ∃ bytes, encode mixedBatch 78 = .ok bytes ∧ bytes.length = batchSize mixedBatch ∧
      decode bytes = .ok mixedBatch ∧ ∀ rows, decode bytes.dropLast ≠ .ok rows := by
  obtain ⟨hencode, -, -, hcut, -⟩ := batch_codec_canonical
  obtain ⟨bytes, hbytes, hlength, hdecode⟩ := hencode mixedBatch 78 (by decide)
    (by decide) (by decide) (by decide) (by decide) (by decide)
  have hne : bytes.dropLast ≠ bytes := by
    intro heq
    have hlen := congrArg List.length heq
    rw [List.length_dropLast, hlength] at hlen
    exact absurd hlen (by decide)
  exact ⟨bytes, hbytes, hlength, hdecode,
    hcut mixedBatch 78 bytes _ hbytes (Or.inl (List.dropLast_prefix bytes)) hne⟩

end Chorus.SlateDb
