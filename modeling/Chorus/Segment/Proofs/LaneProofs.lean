import Chorus.Segment.LaneSystem
import Chorus.Segment.Proofs.PackProofs
import Mathlib.Data.List.Chain
import Mathlib.Order.Basic

/-!
# Offsets of batches and cursors of a lane

The batches of a segment follow one another, so every offset that a lane computes names a position
in the concatenation of all batches. `undurable` is what a lane retains, as a function of the
durable offset and of the batches it has staged; what a recovery sends again is the rest of the
staged bytes past the durable offset.
-/

namespace Chorus

/-! ## Boundaries -/

section Boundaries

variable {start durable : Nat} {chunks : List Bytes}

theorem length_boundariesFrom (start : Nat) (chunks : List Bytes) :
    (boundariesFrom start chunks).length = chunks.length := by
  induction chunks generalizing start with
  | nil => rfl
  | cons chunk chunks ih => simp [boundariesFrom, ih]

theorem getLast_boundariesFrom (h : boundariesFrom start chunks ≠ []) :
    (boundariesFrom start chunks).getLast h = start + chunks.flatten.length := by
  induction chunks generalizing start with
  | nil => exact absurd rfl h
  | cons chunk chunks ih =>
    by_cases hnil : chunks = []
    · subst hnil
      simp [boundariesFrom]
    · have hne : boundariesFrom (start + chunk.length) chunks ≠ [] := by
        intro hempty
        have hlen := length_boundariesFrom (start + chunk.length) chunks
        rw [hempty] at hlen
        exact hnil (List.length_eq_zero_iff.1 hlen.symm)
      simp only [boundariesFrom, List.getLast_cons hne, ih hne, List.flatten_cons,
        List.length_append]
      omega

theorem getElem?_boundariesFrom (i : Nat) (h : i < chunks.length) :
    (boundariesFrom start chunks)[i]? = some (start + (chunks.take (i + 1)).flatten.length) := by
  induction chunks generalizing start i with
  | nil => exact absurd h (Nat.not_lt_zero i)
  | cons chunk chunks ih =>
    cases i with
    | zero => simp [boundariesFrom]
    | succ i =>
      have hi : i < chunks.length := by simpa using h
      simp only [boundariesFrom, List.getElem?_cons_succ, ih i hi, List.take_succ_cons,
        List.flatten_cons, List.length_append]
      congr 1
      omega

theorem partitionPoint_cons (start durable : Nat) (chunk : Bytes) (chunks : List Bytes) :
    partitionPoint durable (boundariesFrom start (chunk :: chunks)) =
      if start + chunk.length ≤ durable then
        partitionPoint durable (boundariesFrom (start + chunk.length) chunks) + 1
      else 0 := by
  unfold partitionPoint
  by_cases h : start + chunk.length ≤ durable
  · simp [boundariesFrom, h]
  · simp [boundariesFrom, h]

theorem partitionPoint_le (start durable : Nat) (chunks : List Bytes) :
    partitionPoint durable (boundariesFrom start chunks) ≤ chunks.length := by
  have hle := (boundariesFrom start chunks).takeWhile_sublist (· ≤ durable)
  rw [← length_boundariesFrom start chunks]
  exact hle.length_le

theorem partitionPoint_mono {durable' : Nat} (h : durable ≤ durable') (start : Nat)
    (chunks : List Bytes) :
    partitionPoint durable (boundariesFrom start chunks) ≤
      partitionPoint durable' (boundariesFrom start chunks) := by
  induction chunks generalizing start with
  | nil => exact le_rfl
  | cons chunk chunks ih =>
    rw [partitionPoint_cons, partitionPoint_cons]
    by_cases hd : start + chunk.length ≤ durable
    · have hd' : start + chunk.length ≤ durable' := hd.trans h
      rw [if_pos hd, if_pos hd']
      exact Nat.succ_le_succ (ih _)
    · rw [if_neg hd]
      exact Nat.zero_le _

theorem le_of_partitionPoint (h : start ≤ durable) (chunks : List Bytes) :
    start + (chunks.take (partitionPoint durable (boundariesFrom start chunks))).flatten.length ≤
      durable := by
  induction chunks generalizing start with
  | nil => simpa [partitionPoint, boundariesFrom] using h
  | cons chunk chunks ih =>
    rw [partitionPoint_cons]
    by_cases hd : start + chunk.length ≤ durable
    · rw [if_pos hd]
      have hrest := ih hd
      simp only [List.take_succ_cons, List.flatten_cons, List.length_append]
      omega
    · rw [if_neg hd]
      simpa using h

theorem lt_of_partitionPoint
    (h : partitionPoint durable (boundariesFrom start chunks) < chunks.length) :
    durable < start +
      (chunks.take (partitionPoint durable (boundariesFrom start chunks) + 1)).flatten.length := by
  induction chunks generalizing start with
  | nil => exact absurd h (Nat.not_lt_zero _)
  | cons chunk chunks ih =>
    rw [partitionPoint_cons] at h ⊢
    by_cases hd : start + chunk.length ≤ durable
    · rw [if_pos hd] at h ⊢
      have hrest := @ih (start + chunk.length) (by simpa using h)
      rw [List.take_succ_cons, List.flatten_cons, List.length_append]
      omega
    · rw [if_neg hd]
      simp only [Nat.zero_add, List.take_succ_cons, List.take_zero, List.flatten_cons,
        List.flatten_nil, List.append_nil]
      omega

theorem partitionPoint_eq_length (h : start ≤ durable) :
    partitionPoint durable (boundariesFrom start chunks) = chunks.length ↔
      start + chunks.flatten.length ≤ durable := by
  induction chunks generalizing start with
  | nil => simpa [partitionPoint, boundariesFrom] using h
  | cons chunk chunks ih =>
    rw [partitionPoint_cons, List.length_cons, List.flatten_cons, List.length_append]
    by_cases hd : start + chunk.length ≤ durable
    · rw [if_pos hd, Nat.add_right_cancel_iff, ih hd]
      omega
    · rw [if_neg hd]
      omega

end Boundaries

namespace BatchDescriptor

variable {b : BatchDescriptor} {durable : Nat}

theorem stop_eq (b : BatchDescriptor) : b.stop = b.start + b.bytes.length := by
  obtain ⟨start, chunks, boundaries, rfl, hne, hchunk⟩ := b
  exact getLast_boundariesFrom _

theorem bytes_ne_nil (b : BatchDescriptor) : b.bytes ≠ [] := by
  obtain ⟨chunk, chunks, h⟩ := List.exists_cons_of_ne_nil b.chunks_ne_nil
  have hchunk : chunk ≠ [] := b.chunk_ne_nil chunk (by rw [h]; exact List.mem_cons_self)
  unfold bytes
  rw [h, List.flatten_cons]
  exact List.append_ne_nil_of_left_ne_nil hchunk _

theorem start_lt_stop (b : BatchDescriptor) : b.start < b.stop := by
  have hpos := List.length_pos_iff.2 b.bytes_ne_nil
  rw [b.stop_eq]
  omega

theorem size_eq (b : BatchDescriptor) : b.size = b.bytes.length := by
  unfold size
  rw [b.stop_eq]
  omega

/-- The cursor of a batch at a durable offset. -/
def cursor (durable : Nat) (b : BatchDescriptor) : RetainedBatch :=
  ⟨b, partitionPoint durable b.boundaries⟩

theorem cursor_eq_length (b : BatchDescriptor) (hstart : b.start ≤ durable) :
    partitionPoint durable b.boundaries = b.chunks.length ↔ b.stop ≤ durable := by
  rw [b.boundaries_eq, b.stop_eq]
  exact partitionPoint_eq_length hstart

theorem cursor_eq_zero (h : durable ≤ b.start) : partitionPoint durable b.boundaries = 0 := by
  obtain ⟨chunk, chunks, hcons⟩ := List.exists_cons_of_ne_nil b.chunks_ne_nil
  have hchunk : chunk ≠ [] := b.chunk_ne_nil chunk (by rw [hcons]; exact List.mem_cons_self)
  have hpos := List.length_pos_iff.2 hchunk
  rw [b.boundaries_eq, hcons, partitionPoint_cons, if_neg (by omega)]

end BatchDescriptor

/-! ## Consecutive batches -/

/-- The batches follow one another from `start` on. -/
def Consecutive : Nat → List BatchDescriptor → Prop
  | _, [] => True
  | start, b :: bs => b.start = start ∧ Consecutive b.stop bs

section Consecutive

variable {start durable : Nat} {b first : BatchDescriptor} {bs bs' rest : List BatchDescriptor}

@[simp]
theorem batchBytes_nil : batchBytes [] = [] := rfl

@[simp]
theorem batchBytes_cons : batchBytes (b :: bs) = b.bytes ++ batchBytes bs := rfl

@[simp]
theorem batchBytes_append : batchBytes (bs ++ bs') = batchBytes bs ++ batchBytes bs' :=
  List.flatMap_append

theorem flatten_flatMap_chunks (bs : List BatchDescriptor) :
    (bs.flatMap (·.chunks)).flatten = batchBytes bs := by
  induction bs with
  | nil => rfl
  | cons b bs ih =>
    rw [List.flatMap_cons, List.flatten_append, ih, batchBytes_cons]
    rfl

theorem batchBytes_ne_nil (h : bs ≠ []) : batchBytes bs ≠ [] := by
  obtain ⟨b, bs, rfl⟩ := List.exists_cons_of_ne_nil h
  exact List.append_ne_nil_of_left_ne_nil b.bytes_ne_nil _

theorem consecutive_append :
    Consecutive start (bs ++ bs') ↔
      Consecutive start bs ∧ Consecutive (start + (batchBytes bs).length) bs' := by
  induction bs generalizing start with
  | nil => simp [Consecutive]
  | cons b bs ih =>
    simp only [List.cons_append, Consecutive, ih, batchBytes_cons, List.length_append, b.stop_eq]
    constructor
    · rintro ⟨rfl, hbs, hbs'⟩
      exact ⟨⟨rfl, hbs⟩, by rwa [Nat.add_assoc] at hbs'⟩
    · rintro ⟨⟨rfl, hbs⟩, hbs'⟩
      exact ⟨rfl, hbs, by rwa [Nat.add_assoc]⟩

theorem Consecutive.stop_le (h : Consecutive start bs) (hb : b ∈ bs) :
    b.stop ≤ start + (batchBytes bs).length := by
  induction bs generalizing start with
  | nil => cases hb
  | cons x bs ih =>
    obtain ⟨rfl, hbs⟩ := h
    rw [batchBytes_cons, List.length_append]
    have hx := x.stop_eq
    rcases List.mem_cons.1 hb with rfl | hb
    · omega
    · have hle := ih hbs hb
      omega

theorem Consecutive.getLast_stop (h : Consecutive start bs) (hne : bs ≠ []) :
    (bs.getLast hne).stop = start + (batchBytes bs).length := by
  have hsplit := List.dropLast_append_getLast hne
  rw [← hsplit] at h
  obtain ⟨-, hlast, -⟩ := consecutive_append.1 h
  have hbytes := congrArg (fun l => (batchBytes l).length) hsplit
  simp only [batchBytes_append, batchBytes_cons, batchBytes_nil, List.append_nil,
    List.length_append] at hbytes
  rw [BatchDescriptor.stop_eq, hlast]
  omega

theorem Consecutive.groupStop_eq (h : Consecutive start (first :: rest)) :
    groupStop first rest = start + (batchBytes (first :: rest)).length :=
  h.getLast_stop (List.cons_ne_nil _ _)

end Consecutive

/-! ## What a lane retains -/

/-- The batches that are not durable, with their cursors. -/
def undurable (durable : Nat) (staged : List BatchDescriptor) : List RetainedBatch :=
  (staged.filter (durable < ·.stop)).map (BatchDescriptor.cursor durable)

section Undurable

variable {start durable durable' : Nat} {b : BatchDescriptor} {staged : List BatchDescriptor}

theorem undurable_cons_of_le (h : b.stop ≤ durable) :
    undurable durable (b :: staged) = undurable durable staged := by
  unfold undurable
  rw [List.filter_cons_of_neg (by simpa using h)]

theorem undurable_cons_of_lt (h : durable < b.stop) :
    undurable durable (b :: staged) = b.cursor durable :: undurable durable staged := by
  unfold undurable
  rw [List.filter_cons_of_pos (by simpa using h), List.map_cons]

/-- Batches past the durable offset are retained whole. -/
theorem undurable_of_le_start (h : Consecutive start staged) (hd : durable ≤ start) :
    undurable durable staged = staged.map fun b => ⟨b, 0⟩ := by
  induction staged generalizing start with
  | nil => rfl
  | cons b staged ih =>
    obtain ⟨rfl, hstaged⟩ := h
    have hb := b.start_lt_stop
    have hzero : b.cursor durable = ⟨b, 0⟩ := by
      unfold BatchDescriptor.cursor
      rw [BatchDescriptor.cursor_eq_zero hd]
    rw [undurable_cons_of_lt (by omega), ih hstaged (by omega), hzero]
    rfl

theorem undurable_append (durable : Nat) (staged staged' : List BatchDescriptor) :
    undurable durable (staged ++ staged') = undurable durable staged ++
      undurable durable staged' := by
  simp [undurable]

/-- A higher durable offset moves the cursors to where they belong. -/
theorem ackThrough_undurable (h : Consecutive start staged) (hd : durable ≤ durable')
    (hstart : start ≤ durable') :
    ackThrough durable' (undurable durable staged) = undurable durable' staged := by
  induction staged generalizing start with
  | nil => rfl
  | cons b staged ih =>
    obtain ⟨rfl, hstaged⟩ := h
    by_cases hb : b.stop ≤ durable
    · rw [undurable_cons_of_le hb, undurable_cons_of_le (hb.trans hd)]
      exact ih hstaged (hb.trans hd)
    · have hcursor : max (partitionPoint durable' b.boundaries)
          (partitionPoint durable b.boundaries) =
          partitionPoint durable' b.boundaries := by
        have hmono := partitionPoint_mono hd b.start b.chunks
        rw [← b.boundaries_eq] at hmono
        exact max_eq_left hmono
      have hlen := b.cursor_eq_length hstart
      rw [undurable_cons_of_lt (by omega)]
      unfold ackThrough
      simp only [BatchDescriptor.cursor, hcursor]
      by_cases hb' : b.stop ≤ durable'
      · rw [if_pos (hlen.2 hb'), undurable_cons_of_le hb']
        exact ih hstaged hb'
      · -- the batches after it are past both offsets
        rw [if_neg (fun hn => hb' (hlen.1 hn)), undurable_cons_of_lt (by omega),
          undurable_of_le_start hstaged (by omega), undurable_of_le_start hstaged (by omega)]
        rfl

theorem undurable_eq_nil (h : Consecutive start staged) (hstart : start ≤ durable) :
    undurable durable staged = [] ↔ start + (batchBytes staged).length ≤ durable := by
  unfold undurable
  rw [List.map_eq_nil_iff, List.filter_eq_nil_iff]
  constructor
  · intro hall
    by_cases hne : staged = []
    · subst hne
      exact hstart
    · have hlast := hall _ (List.getLast_mem hne)
      rw [h.getLast_stop hne] at hlast
      simpa using hlast
  · intro hle b hb
    have hb' := h.stop_le hb
    simp only [decide_eq_true_eq]
    omega

theorem getLast?_undurable (h : Consecutive start staged)
    (hd : durable < start + (batchBytes staged).length) (hstart : start ≤ durable) :
    (undurable durable staged).getLast?.map (·.batch.stop) =
      some (start + (batchBytes staged).length) := by
  have hne : staged ≠ [] := by
    rintro rfl
    simp at hd
    omega
  have hstop := h.getLast_stop hne
  rw [← List.dropLast_append_getLast hne, undurable_append, undurable_cons_of_lt (by omega),
    List.dropLast_append_getLast hne]
  simp [undurable, BatchDescriptor.cursor, hstop]

end Undurable

/-! ## What a recovery sends again -/

section Suffix

variable {start durable i k : Nat} {b : BatchDescriptor} {r : RetainedBatch} {suffix : List Bytes}
  {staged : List BatchDescriptor}

theorem foldl_pushSuffix_of_ne_nil (h : suffix ≠ []) (hk : i + k = r.batch.chunks.length) :
    (List.range' i k).foldl (pushSuffix durable r) suffix = suffix ++ r.batch.chunks.drop i := by
  induction k generalizing i suffix with
  | zero =>
    rw [List.drop_eq_nil_of_le (by omega), List.append_nil]
    rfl
  | succ k ih =>
    have hi : i < r.batch.chunks.length := by omega
    have hpush : pushSuffix durable r suffix i = suffix ++ [r.batch.chunks[i]] := by
      unfold pushSuffix
      rw [List.getElem?_eq_getElem hi]
      exact if_neg h
    rw [List.range'_succ, List.foldl_cons, hpush, ih (by simp) (by omega),
      List.drop_eq_getElem_cons hi, List.append_assoc]
    rfl

/-- The chunk at the cursor of the first batch is cut at the durable offset. -/
theorem foldl_pushSuffix_cursor (hstart : b.start ≤ durable) (hstop : durable < b.stop) :
    ∃ suffix : List Bytes, suffix ≠ [] ∧ suffix.flatten = b.bytes.drop (durable - b.start) ∧
      (List.range' (b.cursor durable).nextChunk
        (b.chunks.length - (b.cursor durable).nextChunk)).foldl
          (pushSuffix durable (b.cursor durable)) [] = suffix := by
  have hlt : partitionPoint durable b.boundaries < b.chunks.length := by
    have hle := partitionPoint_le b.start durable b.chunks
    rw [← b.boundaries_eq] at hle
    have hne := (b.cursor_eq_length hstart).not.2 (by omega)
    omega
  have hfrom := le_of_partitionPoint hstart b.chunks
  have hto :
      durable < b.start +
        (b.chunks.take (partitionPoint durable b.boundaries + 1)).flatten.length := by
    rw [b.boundaries_eq] at hlt ⊢
    exact lt_of_partitionPoint hlt
  rw [← b.boundaries_eq] at hfrom
  obtain ⟨c, hc⟩ : ∃ c, partitionPoint durable b.boundaries = c := ⟨_, rfl⟩
  rw [hc] at hlt hfrom hto
  obtain ⟨chunk, hchunk⟩ : ∃ chunk, b.chunks[c]? = some chunk := ⟨_, List.getElem?_eq_getElem hlt⟩
  have htake : b.chunks.take (c + 1) = b.chunks.take c ++ [chunk] := by
    rw [List.take_add_one, hchunk, Option.toList_some]
  have hoffset : (if c = 0 then none else b.boundaries[c - 1]?).getD b.start =
      b.start + (b.chunks.take c).flatten.length := by
    by_cases h0 : c = 0
    · simp [h0]
    · rw [if_neg h0, b.boundaries_eq, getElem?_boundariesFrom _ (by omega),
        Nat.sub_add_cancel (by omega), Option.getD_some]
  rw [htake, List.flatten_append, List.length_append] at hto
  have hskip : ¬ chunk.length ≤ durable - (b.start + (b.chunks.take c).flatten.length) := by
    simp only [List.flatten_cons, List.flatten_nil, List.append_nil] at hto
    omega
  have hpush : pushSuffix durable (b.cursor durable) [] c =
      [chunk.drop (durable - (b.start + (b.chunks.take c).flatten.length))] := by
    unfold pushSuffix
    simp only [BatchDescriptor.cursor, hchunk, if_pos, hoffset, if_neg hskip, List.nil_append]
  refine ⟨[chunk.drop (durable - (b.start + (b.chunks.take c).flatten.length))] ++
    b.chunks.drop (c + 1), by simp, ?_, ?_⟩
  · have hsplit : b.bytes = (b.chunks.take c).flatten ++
        (chunk ++ (b.chunks.drop (c + 1)).flatten) := by
      unfold BatchDescriptor.bytes
      conv_lhs => rw [← List.take_append_drop (c + 1) b.chunks, htake]
      simp
    have hlen : durable - b.start =
        (b.chunks.take c).flatten.length +
          (durable - (b.start + (b.chunks.take c).flatten.length)) := by
      omega
    rw [hsplit, hlen, List.drop_length_add_append, List.drop_append_of_le_length (by omega)]
    rfl
  · show (List.range' (partitionPoint durable b.boundaries)
      (b.chunks.length - partitionPoint durable b.boundaries)).foldl _ [] = _
    rw [hc, show b.chunks.length - c = (b.chunks.length - (c + 1)) + 1 by omega, List.range'_succ,
      List.foldl_cons, hpush]
    exact foldl_pushSuffix_of_ne_nil (r := b.cursor durable) (by simp)
      (show c + 1 + (b.chunks.length - (c + 1)) = b.chunks.length by omega)

/-- Once there is something to send, the batches that follow are sent whole. -/
theorem foldl_suffix_whole (h : suffix ≠ []) :
    ((staged.map fun b => (⟨b, 0⟩ : RetainedBatch)).foldl (fun suffix r =>
      (List.range' r.nextChunk (r.batch.chunks.length - r.nextChunk)).foldl
        (pushSuffix durable r) suffix) suffix).flatten = suffix.flatten ++ batchBytes staged := by
  induction staged generalizing suffix with
  | nil => simp
  | cons b staged ih =>
    have hb := @foldl_pushSuffix_of_ne_nil durable 0 b.chunks.length ⟨b, 0⟩ suffix h
      (Nat.zero_add b.chunks.length)
    rw [List.map_cons, List.foldl_cons]
    simp only [Nat.sub_zero, hb]
    rw [ih (by simp [h])]
    simp [BatchDescriptor.bytes]

/-- The suffix is what was staged past the durable offset. -/
theorem flatten_foldl_suffix (h : Consecutive start staged) (hstart : start ≤ durable) :
    ((undurable durable staged).foldl (fun suffix r =>
      (List.range' r.nextChunk (r.batch.chunks.length - r.nextChunk)).foldl
        (pushSuffix durable r) suffix) []).flatten = (batchBytes staged).drop
        (durable - start) := by
  induction staged generalizing start with
  | nil => simp [undurable]
  | cons b staged ih =>
    obtain ⟨rfl, hstaged⟩ := h
    have hstop := b.stop_eq
    by_cases hb : b.stop ≤ durable
    · have hdrop : durable - b.start = b.bytes.length + (durable - b.stop) := by omega
      rw [undurable_cons_of_le hb, ih hstaged hb, batchBytes_cons, hdrop,
        List.drop_length_add_append]
    · obtain ⟨suffix, hne, hflat, hfold⟩ := foldl_pushSuffix_cursor hstart (Nat.lt_of_not_le hb)
      rw [undurable_cons_of_lt (by omega), List.foldl_cons,
        undurable_of_le_start hstaged (by omega)]
      show ((staged.map _).foldl _ ((List.range' (b.cursor durable).nextChunk
        (b.chunks.length - (b.cursor durable).nextChunk)).foldl _ [])).flatten = _
      rw [hfold, foldl_suffix_whole hne, hflat, batchBytes_cons,
        List.drop_append_of_le_length (by omega)]

end Suffix

namespace LaneRuntime

variable {lane : LaneRuntime} {staged : List BatchDescriptor}

theorem foldl_hold (work : List BatchDescriptor) (lane : LaneRuntime) :
    work.foldl hold lane =
      { lane with held := lane.held ++ work
                  heldBytes := lane.heldBytes + (batchBytes work).length } := by
  induction work generalizing lane with
  | nil => simp
  | cons batch work ih =>
    rw [List.foldl_cons, ih]
    simp only [hold, batch.size_eq, batchBytes_cons, List.length_append, List.append_assoc,
      List.singleton_append, Nat.add_assoc]

theorem sentEnd_eq (h : Consecutive 0 staged)
    (hretained : lane.retained = undurable lane.durable staged)
    (hd : lane.durable ≤ (batchBytes staged).length) :
    lane.sentEnd = (batchBytes staged).length := by
  unfold sentEnd
  rw [hretained]
  by_cases hlt : lane.durable < (batchBytes staged).length
  · rw [getLast?_undurable h (by omega) (Nat.zero_le _), Option.getD_some]
    omega
  · rw [(undurable_eq_nil h (Nat.zero_le _)).2 (by omega)]
    simp only [List.getLast?_nil, Option.map_none, Option.getD_none]
    omega

theorem flatten_suffix (h : Consecutive 0 staged)
    (hretained : lane.retained = undurable lane.durable staged) :
    lane.suffix.flatten = (batchBytes staged).drop lane.durable := by
  unfold suffix
  rw [hretained, flatten_foldl_suffix h (Nat.zero_le _), Nat.sub_zero]

theorem retained_publishLaneProgress (h : Consecutive 0 staged)
    (hretained : lane.retained = undurable lane.durable staged) (tail : Nat) :
    (lane.publishLaneProgress tail).retained =
      undurable (lane.publishLaneProgress tail).durable staged := by
  show ackThrough (max lane.durable tail) lane.retained = undurable (max lane.durable tail) staged
  rw [hretained]
  exact ackThrough_undurable h (le_max_left _ _) (Nat.zero_le _)

end LaneRuntime

/-! ## Groups that lanes share -/

/-- Every packed group carries the bytes between its offsets. -/
def SharedSound (shared : SharedBatches) (bytes : Bytes) : Prop :=
  ∀ start stop packed, (stop, packed) ∈ (shared start).packedGroups →
    stop ≤ bytes.length ∧ packed.Carries ((bytes.take stop).drop start)

namespace SharedSound

variable {shared : SharedBatches} {bytes : Bytes}

theorem append (h : SharedSound shared bytes) (more : Bytes) :
    SharedSound shared (bytes ++ more) := by
  intro start stop packed hmem
  obtain ⟨hstop, hcarries⟩ := h start stop packed hmem
  rw [List.length_append, List.take_append_of_le_length hstop]
  exact ⟨by omega, hcarries⟩

theorem update (h : SharedSound shared bytes) (start : Nat) (cell : BatchShared)
    (hcell : ∀ stop packed, (stop, packed) ∈ cell.packedGroups →
      stop ≤ bytes.length ∧ packed.Carries ((bytes.take stop).drop start)) :
    SharedSound (Function.update shared start cell) bytes := by
  intro start' stop packed hmem
  by_cases heq : start' = start
  · subst heq
    rw [Function.update_self] at hmem
    exact hcell stop packed hmem
  · rw [Function.update_of_ne heq] at hmem
    exact h start' stop packed hmem

theorem laneStaged (h : SharedSound shared bytes) (start : Nat) :
    SharedSound (shared.laneStaged start) bytes := by
  refine h.update start _ fun stop packed hmem => ?_
  unfold BatchShared.laneStaged at hmem
  by_cases hlast : (shared start).pendingLanes = 1
  · simp [hlast] at hmem
  · simp only [if_neg hlast] at hmem
    exact h start stop packed hmem

theorem groupStaged (h : SharedSound shared bytes) (group : List BatchDescriptor) :
    SharedSound (shared.groupStaged group) bytes := by
  unfold SharedBatches.groupStaged
  induction group generalizing shared with
  | nil => exact h
  | cons b group ih => exact ih (h.laneStaged b.start)

/-- A group that lies in the segment is packed as its own bytes, whoever packed it. -/
theorem packedGroup (h : SharedSound shared bytes) {first : BatchDescriptor}
    {before rest after : List BatchDescriptor}
    (hbytes : bytes = batchBytes (before ++ (first :: rest) ++ after))
    (hseg : Consecutive 0 (before ++ (first :: rest) ++ after)) :
    SharedSound (Chorus.packedGroup shared first rest).1 bytes ∧
      (Chorus.packedGroup shared first rest).2.Carries (batchBytes (first :: rest)) := by
  obtain ⟨hgroup, -⟩ := consecutive_append.1 hseg
  obtain ⟨-, hgroup⟩ := consecutive_append.1 hgroup
  have hstop := hgroup.groupStop_eq
  have hstart : first.start = 0 + (batchBytes before).length := hgroup.1
  have hlen : groupStop first rest = (batchBytes before ++ batchBytes (first :: rest)).length := by
    rw [hstop, List.length_append]
    omega
  have hspan : (bytes.take (groupStop first rest)).drop first.start =
      batchBytes (first :: rest) := by
    rw [hbytes, batchBytes_append, batchBytes_append, hlen, List.take_left, hstart, Nat.zero_add,
      List.drop_left]
  have hle : groupStop first rest ≤ bytes.length := by
    rw [hbytes, batchBytes_append, batchBytes_append, List.length_append, hlen]
    omega
  unfold Chorus.packedGroup
  cases hlookup : (shared first.start).packedGroups.lookup (groupStop first rest) with
  | some packed =>
    obtain ⟨others, others', hcell, -⟩ := List.lookup_eq_some_iff.1 hlookup
    have hmem : (groupStop first rest, packed) ∈ (shared first.start).packedGroups := by
      rw [hcell]
      exact List.mem_append_right _ List.mem_cons_self
    simp only [hlookup]
    refine ⟨h, ?_⟩
    rw [← hspan]
    exact (h first.start _ packed hmem).2
  | none =>
    have hnew : (packAppend ((first :: rest).flatMap (·.chunks))).Carries
        (batchBytes (first :: rest)) := by
      rw [← flatten_flatMap_chunks]
      exact packAppend_carries _
    simp only [hlookup]
    refine ⟨h.update first.start _ fun stop packed hmem => ?_, hnew⟩
    rcases List.mem_cons.1 hmem with heq | hmem
    · cases heq
      rw [hspan]
      exact ⟨hle, hnew⟩
    · exact h first.start stop packed hmem

end SharedSound

end Chorus
