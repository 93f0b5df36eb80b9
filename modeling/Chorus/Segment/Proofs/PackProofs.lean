import Chorus.Segment.PackedAppend
import Mathlib.Data.List.Basic

/-!
# What a packed group carries

The messages carry the bytes of the chunks in order, each message names the offset at which its
bytes stand, and none is empty or above the target size. A chunk is split only while nothing is
packed (`Sound.makeRoom`), so its pieces never overtake bytes that were packed before it.
-/

namespace Chorus

theorem prefix_drop_append {c l : Bytes} {o : Nat} (h : c <+: l.drop o) (r : Bytes) :
    c <+: (l ++ r).drop o := by
  rw [List.drop_append]
  exact h.trans (List.prefix_append _ _)

/-- Each message starts where those before it end. -/
def ContiguousMessages (messages : List PackedAppendMessage) : Prop :=
  ∀ i m, messages[i]? = some m → m.relativeOffset = ((messages.take i).flatMap (·.content)).length

/-- The message can be sent: it has bytes, not more than the target, and their checksum. -/
structure Framed (m : PackedAppendMessage) : Prop where
  ne_nil : m.content ≠ []
  length_le : m.content.length ≤ wireMessageTargetBytes
  crc_eq : m.crc32c = crc32c m.content

theorem wireMessageTargetBytes_pos : 0 < wireMessageTargetBytes := by
  unfold wireMessageTargetBytes
  omega

theorem ContiguousMessages.placed {messages : List PackedAppendMessage}
    (h : ContiguousMessages messages) {m : PackedAppendMessage} (hm : m ∈ messages) :
    m.content <+: (messages.flatMap (·.content)).drop m.relativeOffset := by
  obtain ⟨i, hi, hget⟩ := List.mem_iff_getElem.1 hm
  have hoffset := h i m (List.getElem?_eq_some_iff.2 ⟨hi, hget⟩)
  have hsplit : messages.flatMap (·.content) =
      (messages.take i).flatMap (·.content) ++
        (m.content ++ (messages.drop (i + 1)).flatMap (·.content)) := by
    rw [← hget, ← List.flatMap_cons, ← List.drop_eq_getElem_cons hi, ← List.flatMap_append,
      List.take_append_drop]
  rw [hsplit, hoffset, List.drop_left]
  exact List.prefix_append _ _

/-- The messages carry exactly `bytes`. -/
structure PackedAppend.Carries (packed : PackedAppend) (bytes : Bytes) : Prop where
  content : packed.content = bytes
  len : packed.len = bytes.length
  contiguous : ContiguousMessages packed.messages
  framed : ∀ m ∈ packed.messages, Framed m

theorem PackedAppend.Carries.placed {packed : PackedAppend} {bytes : Bytes}
    (h : packed.Carries bytes) (m : PackedAppendMessage) (hm : m ∈ packed.messages) :
    m.content <+: bytes.drop m.relativeOffset := by
  rw [← h.content]
  exact h.contiguous.placed hm

namespace Packing

def sent (p : Packing) : Bytes := p.messages.flatMap (·.content)

/-- The packing has consumed `bytes`. -/
structure Sound (p : Packing) (bytes : Bytes) : Prop where
  bytes_eq : p.sent ++ p.packed = bytes
  offset_eq : p.relativeOffset = p.sent.length
  contiguous : ContiguousMessages p.messages
  framed : ∀ m ∈ p.messages, Framed m
  packed_le : p.packed.length ≤ wireMessageTargetBytes

variable {p : Packing} {bytes content : Bytes}

@[simp]
theorem sent_push : (p.push content).sent = p.sent ++ content := by
  simp [sent, push]

theorem contiguous_push (h : p.Sound bytes) (content : Bytes) :
    ContiguousMessages (p.push content).messages := by
  intro i m hm
  have hget : (p.messages ++ [⟨p.relativeOffset, content, crc32c content⟩])[i]? = some m := hm
  show m.relativeOffset = ((List.take i (p.messages ++ [_])).flatMap (·.content)).length
  rcases Nat.lt_or_ge i p.messages.length with hi | hi
  · rw [List.getElem?_append_left hi] at hget
    rw [List.take_append_of_le_length (Nat.le_of_lt hi)]
    exact h.contiguous i m hget
  · rw [List.getElem?_append_right hi] at hget
    obtain ⟨hlast, heq⟩ := List.getElem?_eq_some_iff.1 hget
    rw [List.length_singleton] at hlast
    rw [List.getElem_singleton] at heq
    obtain rfl : i = p.messages.length := by omega
    rw [List.take_left, ← heq]
    exact h.offset_eq

theorem framed_push (h : p.Sound bytes) (hne : content ≠ [])
    (hle : content.length ≤ wireMessageTargetBytes) (m : PackedAppendMessage)
    (hm : m ∈ (p.push content).messages) : Framed m := by
  rcases List.mem_append.1 hm with hm | hm
  · exact h.framed m hm
  · obtain rfl := List.mem_singleton.1 hm
    exact ⟨hne, hle, rfl⟩

/-- A message may be pushed while nothing is packed. -/
theorem Sound.push (h : p.Sound bytes) (hp : p.packed = []) (hne : content ≠ [])
    (hle : content.length ≤ wireMessageTargetBytes) :
    (p.push content).Sound (bytes ++ content) where
  bytes_eq := by
    have hsent := h.bytes_eq
    rw [hp, List.append_nil] at hsent
    show (p.push content).sent ++ p.packed = bytes ++ content
    rw [sent_push, hsent, hp, List.append_nil]
  offset_eq := by
    rw [sent_push, List.length_append, ← h.offset_eq]
    rfl
  contiguous := contiguous_push h content
  framed := framed_push h hne hle
  packed_le := h.packed_le

theorem Sound.split (h : p.Sound bytes) (hp : p.packed ≠ []) : p.split.Sound bytes where
  bytes_eq := by
    show (p.push p.packed).sent ++ [] = bytes
    rw [sent_push, List.append_nil, h.bytes_eq]
  offset_eq := by
    show (p.push p.packed).relativeOffset = (p.push p.packed).sent.length
    rw [sent_push, List.length_append, ← h.offset_eq]
    rfl
  contiguous := contiguous_push h p.packed
  framed := framed_push h hp h.packed_le
  packed_le := Nat.zero_le _

/-- Cutting full-size pieces off a chunk leaves less than a full piece, and takes none from a chunk
that fits. -/
theorem Sound.pieces (rounds : Nat) (data : Bytes) (hrounds : data.length ≤ rounds)
    (h : p.Sound bytes) (hp : p.packed = [] ∨ data.length ≤ wireMessageTargetBytes) :
    ∃ done rest, data = done ++ rest ∧ (p.pieces rounds data).2 = rest ∧
      (p.pieces rounds data).1.Sound (bytes ++ done) ∧ (p.pieces rounds data).1.packed = p.packed ∧
      rest.length ≤ wireMessageTargetBytes := by
  have hpos := wireMessageTargetBytes_pos
  induction rounds generalizing p bytes data with
  | zero =>
    refine ⟨[], data, rfl, rfl, ?_, rfl, by omega⟩
    rw [List.append_nil]
    exact h
  | succ rounds ih =>
    by_cases hlong : wireMessageTargetBytes < data.length
    · have hempty : p.packed = [] := hp.resolve_right (by omega)
      have hlength : (data.take wireMessageTargetBytes).length = wireMessageTargetBytes := by
        rw [List.length_take]
        omega
      have hne : data.take wireMessageTargetBytes ≠ [] := by
        intro hnil
        rw [hnil, List.length_nil] at hlength
        omega
      have hshorter : (data.drop wireMessageTargetBytes).length ≤ rounds := by
        rw [List.length_drop]
        omega
      obtain ⟨done, rest, hdata, hrest, hsound, hpacked, hle⟩ :=
        ih (data.drop wireMessageTargetBytes) hshorter (h.push hempty hne (Nat.le_of_eq hlength))
          (.inl hempty)
      rw [Packing.pieces, if_pos hlong]
      refine ⟨data.take wireMessageTargetBytes ++ done, rest, ?_, hrest, ?_, hpacked, hle⟩
      · rw [List.append_assoc, ← hdata, List.take_append_drop]
      · rw [← List.append_assoc]
        exact hsound
    · rw [Packing.pieces, if_neg hlong]
      refine ⟨[], data, rfl, rfl, ?_, rfl, by omega⟩
      rw [List.append_nil]
      exact h

/-- Behind `makeRoom` either nothing is packed or the chunk fits behind what is. -/
theorem Sound.makeRoom (h : p.Sound bytes) (data : Bytes) :
    (p.makeRoom data).Sound bytes ∧ ((p.makeRoom data).packed = [] ∨
      (p.makeRoom data).packed.length + data.length ≤ wireMessageTargetBytes) := by
  unfold Packing.makeRoom
  by_cases hfull : p.packed ≠ [] ∧ wireMessageTargetBytes < p.packed.length + data.length
  · rw [if_pos hfull]
    exact ⟨h.split hfull.1, .inl rfl⟩
  · rw [if_neg hfull]
    refine ⟨h, ?_⟩
    by_cases hp : p.packed = []
    · exact .inl hp
    · refine .inr ?_
      by_contra hlong
      exact hfull ⟨hp, by omega⟩

theorem Sound.addChunk (h : p.Sound bytes) (data : Bytes) :
    (p.addChunk data).Sound (bytes ++ data) := by
  obtain ⟨hroom, hfits⟩ := h.makeRoom data
  obtain ⟨done, rest, hdata, hrest, hsound, hpacked, hle⟩ :=
    hroom.pieces data.length data (Nat.le_refl _) (hfits.imp_right (by omega))
  have hlength := congrArg List.length hdata
  rw [List.length_append] at hlength
  unfold Packing.addChunk
  constructor
  · show ((p.makeRoom data).pieces data.length data).1.sent ++
      (((p.makeRoom data).pieces data.length data).1.packed ++ _) = bytes ++ data
    rw [← List.append_assoc, hsound.bytes_eq, hrest, List.append_assoc, ← hdata]
  · exact hsound.offset_eq
  · exact hsound.contiguous
  · exact hsound.framed
  · show (((p.makeRoom data).pieces data.length data).1.packed ++
      ((p.makeRoom data).pieces data.length data).2).length ≤ wireMessageTargetBytes
    rw [hpacked, hrest, List.length_append]
    rcases hfits with hempty | hfits
    · rw [hempty]
      show 0 + rest.length ≤ wireMessageTargetBytes
      omega
    · omega

theorem Sound.foldl_addChunk (chunks : List Bytes) (h : p.Sound bytes) :
    (chunks.foldl Packing.addChunk p).Sound (bytes ++ chunks.flatten) := by
  induction chunks generalizing p bytes with
  | nil => simpa using h
  | cons chunk chunks ih =>
    have hchunk := ih (h.addChunk chunk)
    rwa [List.append_assoc] at hchunk

end Packing

theorem packAppend_carries (chunks : List Bytes) :
    (packAppend chunks).Carries chunks.flatten := by
  have hnil : (⟨[], 0, []⟩ : Packing).Sound [] :=
    ⟨rfl, rfl, fun i m hm => absurd hm (by simp), fun m hm => absurd hm List.not_mem_nil,
      Nat.zero_le _⟩
  have hall := hnil.foldl_addChunk chunks
  rw [List.nil_append] at hall
  unfold packAppend
  -- either way nothing stays packed, so the messages carry everything
  obtain ⟨p, hp, hpacked, hpeq⟩ : ∃ p : Packing, p.Sound chunks.flatten ∧ p.packed = [] ∧
      (if (chunks.foldl Packing.addChunk ⟨[], 0, []⟩).packed = []
        then chunks.foldl Packing.addChunk ⟨[], 0, []⟩
        else (chunks.foldl Packing.addChunk ⟨[], 0, []⟩).split) = p := by
    by_cases hpacked : (chunks.foldl Packing.addChunk ⟨[], 0, []⟩).packed = []
    · exact ⟨_, hall, hpacked, if_pos hpacked⟩
    · exact ⟨_, hall.split hpacked, rfl, if_neg hpacked⟩
  have hsent : p.sent = chunks.flatten := by simpa [hpacked] using hp.bytes_eq
  simp only [hpeq]
  exact ⟨hsent, List.length_flatten.symm, hp.contiguous, hp.framed⟩

/-! ## One-shot writes -/

section Requests

variable {α : Type} (writeOffset : Int64)

def requestOf (lastIndex index : Nat) (first : Option α) (message : PackedAppendMessage) :
    BidiWriteObjectRequest α where
  firstMessage := first
  writeOffset := writeOffset + Int64.ofNat message.relativeOffset
  data := ⟨message.content, some message.crc32c⟩
  flush := index == lastIndex
  stateLookup := index == lastIndex

theorem getElem?_writeRequests (lastIndex index : Nat) (first : Option α)
    (messages : List PackedAppendMessage) (i : Nat) :
    (writeRequests writeOffset lastIndex index first messages)[i]? =
      messages[i]?.map (requestOf writeOffset lastIndex (index + i)
        (if i = 0 then first else none)) := by
  induction messages generalizing index first i with
  | nil => rfl
  | cons message messages ih =>
    cases i with
    | zero => rfl
    | succ i =>
      rw [writeRequests, List.getElem?_cons_succ, List.getElem?_cons_succ, ih,
        if_neg (Nat.succ_ne_zero i), ite_self, Nat.add_right_comm, Nat.add_assoc]

theorem map_content_writeRequests (lastIndex index : Nat) (first : Option α)
    (messages : List PackedAppendMessage) :
    (writeRequests writeOffset lastIndex index first messages).map (·.data.content) =
      messages.map (·.content) := by
  induction messages generalizing index first with
  | nil => rfl
  | cons message messages ih =>
    rw [writeRequests, List.map_cons, List.map_cons, ih]

def requestBytes (requests : List (BidiWriteObjectRequest α)) : Bytes :=
  requests.flatMap (·.data.content)

theorem requestBytes_take_writeRequests (lastIndex index : Nat) (first : Option α)
    (messages : List PackedAppendMessage) (i : Nat) :
    requestBytes ((writeRequests writeOffset lastIndex index first messages).take i) =
      (messages.take i).flatMap (·.content) := by
  rw [requestBytes, List.flatMap_def, List.flatMap_def, List.map_take, List.map_take,
    map_content_writeRequests]

/-- What a one-shot write asks of the request at an index. -/
structure OneShot (first : α) (requests : List (BidiWriteObjectRequest α)) (i : Nat)
    (request : BidiWriteObjectRequest α) : Prop where
  firstMessage : request.firstMessage = if i = 0 then some first else none
  flush : request.flush = decide (i + 1 = requests.length)
  stateLookup : request.stateLookup = decide (i + 1 = requests.length)
  writeOffset : request.writeOffset = writeOffset + Int64.ofNat
    (requestBytes (requests.take i)).length
  crc : request.data.crc32c = some (crc32c request.data.content)
  length_le : request.data.content.length ≤ wireMessageTargetBytes

theorem oneShot_writeRequests (first : α) {messages : List PackedAppendMessage}
    (hne : messages ≠ []) (hcontiguous : ContiguousMessages messages)
    (hframed : ∀ m ∈ messages, Framed m) {i : Nat} {request : BidiWriteObjectRequest α}
    (h : (writeRequests writeOffset (messages.length - 1) 0 (some first) messages)[i]? =
      some request) :
    OneShot writeOffset first
      (writeRequests writeOffset (messages.length - 1) 0 (some first) messages) i request := by
  have hlength : (writeRequests writeOffset (messages.length - 1) 0 (some first) messages).length =
      messages.length := by
    have hmap := congrArg List.length
      (map_content_writeRequests writeOffset (messages.length - 1) 0 (some first) messages)
    rwa [List.length_map, List.length_map] at hmap
  rw [getElem?_writeRequests] at h
  obtain ⟨m, hm, rfl⟩ := Option.map_eq_some_iff.1 h
  have hfm := hframed m (List.mem_of_getElem? hm)
  have hpos := List.length_pos_iff.2 hne
  have hlast : ((0 + i) == messages.length - 1) = decide (i + 1 = messages.length) := by
    rw [Nat.zero_add, beq_eq_decide]
    exact decide_eq_decide.2 (by omega)
  refine ⟨rfl, ?_, ?_, ?_, congrArg some hfm.crc_eq, hfm.length_le⟩
  · rw [hlength]
    exact hlast
  · rw [hlength]
    exact hlast
  · rw [requestBytes_take_writeRequests, ← hcontiguous i m hm]
    rfl

theorem oneShotWriteRequests_spec (first : α) (data : Bytes) :
    oneShotWriteRequests first writeOffset data ≠ [] ∧
    requestBytes (oneShotWriteRequests first writeOffset data) = data ∧
    ∀ i request, (oneShotWriteRequests first writeOffset data)[i]? = some request →
      OneShot writeOffset first (oneShotWriteRequests first writeOffset data) i request := by
  have hpacked := packAppend_carries [data]
  have hcontent : (packAppend [data]).messages.flatMap (·.content) = data := by
    have hflatten := hpacked.content
    rwa [List.flatten_singleton] at hflatten
  unfold oneShotWriteRequests
  by_cases hempty : (packAppend [data]).messages.isEmpty = true
  · rw [if_pos hempty]
    rw [List.isEmpty_iff.1 hempty] at hcontent
    refine ⟨List.cons_ne_nil _ _, hcontent, fun i request h => ?_⟩
    obtain ⟨hi, rfl⟩ := List.getElem?_eq_some_iff.1 h
    obtain rfl : i = 0 := by
      rw [List.length_singleton] at hi
      omega
    exact ⟨rfl, rfl, rfl, (Int64.add_zero writeOffset).symm, rfl, Nat.zero_le _⟩
  · rw [if_neg hempty]
    have hne : (packAppend [data]).messages ≠ [] := fun hnil => hempty (List.isEmpty_iff.2 hnil)
    refine ⟨?_, ?_, fun i request h => oneShot_writeRequests writeOffset first hne
      hpacked.contiguous hpacked.framed h⟩
    · intro hnil
      have hmap := map_content_writeRequests writeOffset ((packAppend [data]).messages.length - 1)
          0 (some first)
        (packAppend [data]).messages
      rw [hnil] at hmap
      exact hne (List.map_eq_nil_iff.1 hmap.symm)
    · rw [requestBytes, List.flatMap_def, map_content_writeRequests, ← List.flatMap_def]
      exact hcontent

end Requests

theorem toInt_add_ofNat {offset : Int64} {k : Nat} (h : offset.toInt + k < 2 ^ 63) :
    (offset + Int64.ofNat k).toInt = offset.toInt + k := by
  have hlow := Int64.le_toInt offset
  rw [Int64.toInt_add, Int64.toInt_ofNat', Int64.size, Int.add_bmod_bmod,
    Int.bmod_eq_of_le (by omega) (by omega)]

/-- Packing preserves the byte stream. The messages of a group are not empty and not above the
target size, have their own checksums, follow each other from offset zero and carry the chunks,
whose length is reported. The requests of a one-shot write are at least one, name the object on the
first and ask for flush and state on the last, and carry the data at offsets that follow each other
from the start offset, as integers too where the data ends within 64 bits. -/
theorem append_packing_exact {α : Type} (chunks : List Bytes) (first : α) (writeOffset : Int64)
    (data : Bytes) :
    ((∀ m ∈ (packAppend chunks).messages, Framed m) ∧
      ContiguousMessages (packAppend chunks).messages ∧
      (packAppend chunks).messages.flatMap (·.content) = chunks.flatten ∧
      (packAppend chunks).len = chunks.flatten.length) ∧
    oneShotWriteRequests first writeOffset data ≠ [] ∧
    requestBytes (oneShotWriteRequests first writeOffset data) = data ∧
    (∀ i request, (oneShotWriteRequests first writeOffset data)[i]? = some request →
      OneShot writeOffset first (oneShotWriteRequests first writeOffset data) i request) ∧
    (writeOffset.toInt + data.length < 2 ^ 63 →
      ∀ i request, (oneShotWriteRequests first writeOffset data)[i]? = some request →
        request.writeOffset.toInt = writeOffset.toInt +
          (requestBytes ((oneShotWriteRequests first writeOffset data).take i)).length) := by
  have hpacked := packAppend_carries chunks
  obtain ⟨hne, hbytes, hrequests⟩ := oneShotWriteRequests_spec writeOffset first data
  refine ⟨⟨hpacked.framed, hpacked.contiguous, hpacked.content, hpacked.len⟩, hne, hbytes,
    hrequests, ?_⟩
  intro hend i request h
  rw [(hrequests i request h).writeOffset]
  apply toInt_add_ofNat
  have hle : (requestBytes ((oneShotWriteRequests first writeOffset data).take i)).length ≤
      data.length := by
    have hsplit := congrArg List.length
      (congrArg requestBytes
        (List.take_append_drop i (oneShotWriteRequests first writeOffset data)))
    rw [requestBytes, List.flatMap_append, List.length_append, hbytes] at hsplit
    rw [requestBytes]
    omega
  omega

end Chorus
