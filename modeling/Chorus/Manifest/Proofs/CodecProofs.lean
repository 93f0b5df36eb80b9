import Chorus.Manifest.Codec
import Chorus.Manifest.Proofs.SegmentIdProofs

/-!
# The metadata of the register determines the record

Every field is written as a text that its own reader reads back, and no text holds a separator of
the list it stands in. What `decode` accepts is in range and has such texts, so that it survives
being written again.
-/

namespace Chorus

open Wire

/-! ## Numbers -/

theorem toList_toString (n : Nat) : (toString n).toList = Nat.toDigits 10 n := Nat.toList_repr

theorem parseU64_toString {n : Nat} (hn : n < u64Limit) : parseU64 (toString n) = some n := by
  have hparse : parseRadix 10 (List.replicate 0 '0' ++ Nat.toDigits 10 n) = some n :=
    parseRadix_toDigits (by omega) (by omega) 0 n
  rw [List.replicate_zero, List.nil_append] at hparse
  rw [parseU64, toList_toString, hparse, Option.filter_some, if_pos (decide_eq_true hn)]

theorem lt_of_parseU64 {text : String} {n : Nat} (h : parseU64 text = some n) : n < u64Limit :=
  of_decide_eq_true (Option.filter_eq_some_iff.1 h).2

theorem parseHexU32_hex {n : Nat} (hn : n < 2 ^ 32) : parseHexU32 (hex 8 n) = some n := by
  have hparse : parseRadix 16 (List.replicate (8 - (Nat.toDigits 16 n).length) '0' ++
      Nat.toDigits 16 n) = some n :=
    parseRadix_toDigits (by omega) (by omega) _ n
  rw [parseHexU32, toList_hex, hexDigits, List.leftpad, hparse, Option.filter_some,
    if_pos (decide_eq_true hn)]

theorem lt_of_parseHexU32 {text : String} {n : Nat} (h : parseHexU32 text = some n) : n < 2 ^ 32 :=
  of_decide_eq_true (Option.filter_eq_some_iff.1 h).2

theorem digit_facts {c : Char} {d : Nat} (hd : d < 16) (hc : c = Nat.digitChar d) :
    isLowerHex c = true ∧ c ≠ ':' ∧ c ≠ ',' := by
  have hall : ∀ d < 16, isLowerHex (Nat.digitChar d) = true ∧ Nat.digitChar d ≠ ':' ∧
      Nat.digitChar d ≠ ',' := by
    decide
  rw [hc]
  exact hall d hd

theorem isLowerHex_of_mem_hexDigits {width n : Nat} {c : Char} (hc : c ∈ hexDigits width n) :
    isLowerHex c = true := by
  obtain ⟨d, hd, hchar⟩ := mem_hexDigits hc
  exact (digit_facts hd hchar).1

theorem separator_not_mem_toString {n : Nat} {c : Char} (hc : c = ':' ∨ c = ',') :
    c ∉ (toString n).toList := by
  rw [toList_toString]
  intro hmem
  obtain ⟨d, hd, hchar⟩ := mem_toDigits (by omega) hmem
  have hfacts := digit_facts (Nat.lt_of_lt_of_le hd (by omega)) hchar
  rcases hc with rfl | rfl
  · exact hfacts.2.1 rfl
  · exact hfacts.2.2 rfl

namespace ManifestRecord

/-! ## Directory entries -/

/-- An entry whose fields have the widths of the source and whose id can be written. -/
structure Writable (entry : DirectoryEntry) : Prop where
  idText : IdText entry.id
  base : entry.base < u64Limit
  crc32c : entry.crc32c < 2 ^ 32

theorem encodeEntry_eq (entry : DirectoryEntry) :
    encodeEntry entry = String.intercalate ":"
      [entry.id, toString entry.base, hex 8 entry.crc32c] := rfl

theorem decodeEntry_encodeEntry {entry : DirectoryEntry} (h : Writable entry) :
    decodeEntry (encodeEntry entry) = some entry := by
  have hsplit : splitText ':' (encodeEntry entry) = [entry.id, toString entry.base,
      hex 8 entry.crc32c] := by
    rw [encodeEntry_eq]
    apply splitText_intercalate (List.cons_ne_nil _ _)
    intro piece hpiece
    simp only [List.mem_cons, List.not_mem_nil, or_false] at hpiece
    rcases hpiece with rfl | rfl | rfl
    · exact h.idText.noColon
    · exact separator_not_mem_toString (.inl rfl)
    · rw [toList_hex]
      exact separator_not_mem_hexDigits (.inl rfl)
  have hcrc : ¬ ((hex 8 entry.crc32c).utf8ByteSize ≠ 8 ∨
      ¬ (hex 8 entry.crc32c).toList.all isLowerHex = true) := by
    rintro (hsize | hdigits)
    · rw [utf8ByteSize_hex, length_hexDigits (by omega)
        (Nat.lt_of_lt_of_eq h.crc32c (by norm_num))] at hsize
      exact hsize rfl
    · refine hdigits (List.all_eq_true.2 fun c hc => ?_)
      rw [toList_hex] at hc
      exact isLowerHex_of_mem_hexDigits hc
  unfold decodeEntry
  simp only [hsplit, if_neg hcrc, parseHexU32_hex h.crc32c, h.idText.nonempty,
    parseU64_toString h.base, Bool.false_eq_true, if_false, Option.map_some]

/-- What is read from a text without commas can be written. -/
theorem writable_of_decodeEntry {part : String} {entry : DirectoryEntry}
    (hcomma : ',' ∉ part.toList) (h : decodeEntry part = some entry) : Writable entry := by
  unfold decodeEntry at h
  split at h
  · rename_i id base crc hsplit
    have hmem : id ∈ splitText ':' part := by
      rw [hsplit]
      exact List.mem_cons_self
    have hid := of_mem_splitText hmem
    split at h
    · cases h
    · cases hparse : parseHexU32 crc with
      | none =>
        rw [hparse] at h
        cases h
      | some crc32c =>
        rw [hparse] at h
        obtain ⟨hempty, hmap⟩ := Option.ite_none_left_eq_some.1 h
        obtain ⟨value, hvalue, rfl⟩ := Option.map_eq_some_iff.1 hmap
        exact ⟨⟨Bool.eq_false_iff.2 hempty, hid.1, fun hmem => hcomma (hid.2 hmem)⟩,
          lt_of_parseU64 hvalue, lt_of_parseHexU32 hparse⟩
  · cases h

theorem comma_not_mem_encodeEntry {entry : DirectoryEntry} (h : IdText entry.id) :
    ',' ∉ (encodeEntry entry).toList := by
  have hbase := separator_not_mem_toString (n := entry.base) (c := ',') (.inr rfl)
  have hcrc : ',' ∉ (hex 8 entry.crc32c).toList := by
    rw [toList_hex]
    exact separator_not_mem_hexDigits (.inr (.inl rfl))
  simp only [encodeEntry, String.toList_append, List.mem_append, not_or]
  exact ⟨⟨⟨⟨h.noComma, by decide⟩, hbase⟩, by decide⟩, hcrc⟩

/-! ## The directory -/

theorem decodeSegmentsFrom_map {segments : List DirectoryEntry} {previous : Option Nat}
    (hwritable : ∀ e ∈ segments, Writable e) (hinc : segments.Pairwise fun e e' => e.base < e'.base)
    (hprevious : ∀ base, previous = some base → ∀ e ∈ segments, base < e.base) :
    decodeSegmentsFrom previous (segments.map encodeEntry) = .ok segments := by
  induction segments generalizing previous with
  | nil => rfl
  | cons entry segments ih =>
    obtain ⟨hentry, hrest⟩ := List.forall_mem_cons.1 hwritable
    obtain ⟨hbefore, hinc⟩ := List.pairwise_cons.1 hinc
    have hany : ¬ previous.any (fun base => entry.base ≤ base) = true := by
      intro hany
      obtain ⟨base, hbase, hle⟩ := (Option.any_eq_true _ _).1 hany
      have hlt := hprevious base hbase entry List.mem_cons_self
      have hle := of_decide_eq_true hle
      omega
    have hnext : decodeSegmentsFrom (some entry.base) (segments.map encodeEntry) =
        .ok segments := by
      apply ih hrest hinc
      intro base hbase e he
      cases hbase
      exact hbefore e he
    rw [List.map_cons, decodeSegmentsFrom, decodeEntry_encodeEntry hentry]
    simp only [if_neg hany, hnext]
    rfl

theorem decodeSegments_encodeSegments {segments : List DirectoryEntry}
    (hwritable : ∀ e ∈ segments, Writable e)
    (hinc : segments.Pairwise fun e e' => e.base < e'.base) :
    decodeSegments (encodeSegments segments) = .ok segments := by
  cases segments with
  | nil => rfl
  | cons entry segments =>
    have hsplit : splitText ',' (encodeSegments (entry :: segments)) =
        (entry :: segments).map encodeEntry := by
      apply splitText_intercalate (List.cons_ne_nil _ _)
      intro piece hpiece
      rw [← List.map_cons] at hpiece
      obtain ⟨e, he, rfl⟩ := List.mem_map.1 hpiece
      exact comma_not_mem_encodeEntry (hwritable e he).idText
    have hne : ¬ (encodeSegments (entry :: segments)).isEmpty = true := by
      intro hempty
      rw [String.isEmpty_iff.1 hempty] at hsplit
      have hone : splitText ',' "" = [""] := by decide
      rw [hone] at hsplit
      have hhead : encodeEntry entry = "" := (List.cons.inj hsplit).1.symm
      have hread := decodeEntry_encodeEntry (hwritable entry List.mem_cons_self)
      rw [hhead] at hread
      cases hread
    rw [decodeSegments, if_neg hne, hsplit]
    exact decodeSegmentsFrom_map hwritable hinc fun base hbase => by cases hbase

theorem writable_of_decodeSegmentsFrom {parts : List String} {previous : Option Nat}
    {segments : List DirectoryEntry} (hcomma : ∀ part ∈ parts, ',' ∉ part.toList)
    (h : decodeSegmentsFrom previous parts = .ok segments) : ∀ e ∈ segments, Writable e := by
  induction parts generalizing previous segments with
  | nil =>
    cases h
    exact fun e he => absurd he List.not_mem_nil
  | cons part parts ih =>
    obtain ⟨hpart, hparts⟩ := List.forall_mem_cons.1 hcomma
    unfold decodeSegmentsFrom at h
    cases hentry : decodeEntry part with
    | none =>
      rw [hentry] at h
      cases h
    | some entry =>
      rw [hentry] at h
      simp only at h
      split_ifs at h
      cases hrest : decodeSegmentsFrom (some entry.base) parts with
      | error error =>
        rw [hrest] at h
        cases h
      | ok rest =>
        rw [hrest] at h
        cases h
        exact List.forall_mem_cons.2 ⟨writable_of_decodeEntry hpart hentry, ih hparts hrest⟩

theorem writable_of_decodeSegments {value : String} {segments : List DirectoryEntry}
    (h : decodeSegments value = .ok segments) : ∀ e ∈ segments, Writable e := by
  unfold decodeSegments at h
  split_ifs at h
  · cases h
    exact fun e he => absurd he List.not_mem_nil
  · exact writable_of_decodeSegmentsFrom (fun part hpart => (of_mem_splitText hpart).1) h

/-! ## Bucket names -/

theorem bucket_of_validateBuckets {unique buckets : List String}
    (h : validateBuckets unique buckets = .ok ()) :
    ∀ bucket ∈ buckets, bucket.isEmpty = false ∧ ',' ∉ bucket.toList := by
  induction buckets generalizing unique with
  | nil => exact fun bucket hbucket => absurd hbucket List.not_mem_nil
  | cons bucket buckets ih =>
    unfold validateBuckets at h
    split_ifs at h with hinvalid hrepeated
    refine List.forall_mem_cons.2 ⟨⟨?_, ?_⟩, ih h⟩
    · exact Bool.eq_false_iff.2 fun hempty => hinvalid (.inl hempty)
    · exact fun hcomma => hinvalid (.inr hcomma)

theorem decodeBuckets_intercalate {buckets : List String}
    (h : validateBucketNames buckets = .ok ()) :
    decodeBuckets (String.intercalate "," buckets) = .ok buckets := by
  unfold validateBucketNames at h
  split_ifs at h with hempty hcount
  have hne : buckets ≠ [] := fun hnil => hempty (List.isEmpty_iff.2 hnil)
  have hnames := bucket_of_validateBuckets h
  have hsplit : splitText ',' (String.intercalate "," buckets) = buckets :=
    splitText_intercalate hne fun bucket hbucket => (hnames bucket hbucket).2
  have hvalue : ¬ (String.intercalate "," buckets).isEmpty = true := by
    intro hvalue
    rw [String.isEmpty_iff.1 hvalue] at hsplit
    have hone : splitText ',' "" = [""] := by decide
    rw [hone] at hsplit
    have hfalse := (hnames "" (by rw [← hsplit]; exact List.mem_singleton_self _)).1
    cases hfalse
  rw [decodeBuckets, if_neg hvalue, hsplit]

/-! ## The record -/

/-- A record whose fields have the widths of the source and whose directory can be written. -/
structure Encodable (record : ManifestRecord) : Prop where
  epoch : record.epoch < u64Limit
  tailBase : record.tailBase < u64Limit
  trunc : record.trunc < u64Limit
  sealBase : ∀ base, record.sealBase = some base → base < u64Limit
  segments : ∀ e ∈ record.segments, Writable e

theorem insertSome_of_ne {metadata : RegisterMetadata} {key key' : String} (value : Option String)
    (h : key' ≠ key) : metadata.insertSome key value key' = metadata key' := by
  cases value with
  | none => rfl
  | some value => exact Function.update_of_ne h _ _

theorem insertSome_self {metadata : RegisterMetadata} {key : String} (value : Option String)
    (h : metadata key = none) : metadata.insertSome key value key = value := by
  cases value with
  | none => exact h
  | some value => exact Function.update_self _ _ _

section Encode

variable (record : ManifestRecord)

theorem encode_required {key : String}
    (h : key ∉ [metaTailId, metaPendingId, metaSealBase, metaSealId, metaSealDigest]) :
    record.encode key = [(metaFormat, formatVersion), (metaEpoch, toString record.epoch),
      (metaOwner, record.owner),
      (metaTailBase, toString record.tailBase), (metaTrunc, toString record.trunc),
      (metaSegments, encodeSegments record.segments),
        (metaBuckets, String.intercalate "," record.buckets)].lookup key := by
  simp only [List.mem_cons, List.not_mem_nil, or_false, not_or] at h
  obtain ⟨htail, hpending, hbase, hid, hdigest⟩ := h
  rw [encode, insertSome_of_ne _ hdigest, insertSome_of_ne _ hid, insertSome_of_ne _ hbase,
    insertSome_of_ne _ hpending, insertSome_of_ne _ htail]
  rfl

theorem encode_fields :
    record.encode metaFormat = some formatVersion ∧
    record.encode metaEpoch = some (toString record.epoch) ∧
    record.encode metaOwner = some record.owner ∧
    record.encode metaTailBase = some (toString record.tailBase) ∧
    record.encode metaTrunc = some (toString record.trunc) ∧
    record.encode metaSegments = some (encodeSegments record.segments) ∧
    record.encode metaBuckets = some (String.intercalate "," record.buckets) := by
  refine ⟨?_, ?_, ?_, ?_, ?_, ?_, ?_⟩
  all_goals
    rw [encode_required record (by decide)]
    rfl

theorem encode_tailId : record.encode metaTailId = record.tailId := by
  rw [encode, insertSome_of_ne _ (by decide), insertSome_of_ne _ (by decide),
    insertSome_of_ne _ (by decide), insertSome_of_ne _ (by decide), insertSome_self]
  rfl

theorem encode_pendingId : record.encode metaPendingId = record.pendingId := by
  rw [encode, insertSome_of_ne _ (by decide), insertSome_of_ne _ (by decide),
    insertSome_of_ne _ (by decide), insertSome_self]
  rw [insertSome_of_ne _ (by decide)]
  rfl

theorem encode_sealBase : record.encode metaSealBase = record.sealBase.map toString := by
  rw [encode, insertSome_of_ne _ (by decide), insertSome_of_ne _ (by decide), insertSome_self]
  rw [insertSome_of_ne _ (by decide), insertSome_of_ne _ (by decide)]
  rfl

theorem encode_sealId : record.encode metaSealId = record.sealId := by
  rw [encode, insertSome_of_ne _ (by decide), insertSome_self]
  rw [insertSome_of_ne _ (by decide), insertSome_of_ne _ (by decide),
    insertSome_of_ne _ (by decide)]
  rfl

theorem encode_sealDigest : record.encode metaSealDigest = record.sealDigest := by
  rw [encode, insertSome_self]
  rw [insertSome_of_ne _ (by decide), insertSome_of_ne _ (by decide),
    insertSome_of_ne _ (by decide), insertSome_of_ne _ (by decide)]
  rfl

end Encode

theorem decodeField_eq {metadata : RegisterMetadata} {key : String} {n : Nat}
    (hkey : metadata key = some (toString n)) (hn : n < u64Limit) :
    decodeField metadata key = .ok n := by
  rw [decodeField, hkey]
  simp only [parseU64_toString hn]

theorem lt_of_decodeField {metadata : RegisterMetadata} {key : String} {n : Nat}
    (h : decodeField metadata key = .ok n) : n < u64Limit := by
  unfold decodeField at h
  split at h
  · cases h
  · split at h
    · cases h
    · rename_i hparse
      cases h
      exact lt_of_parseU64 hparse

theorem decodeOptionalField_eq {metadata : RegisterMetadata} {key : String} {number : Option Nat}
    (hkey : metadata key = number.map toString) (hnumber : ∀ n, number = some n → n < u64Limit) :
    decodeOptionalField metadata key = .ok number := by
  rw [decodeOptionalField, hkey]
  cases number with
  | none => rfl
  | some n =>
    simp only [Option.map_some, parseU64_toString (hnumber n rfl)]

theorem lt_of_decodeOptionalField {metadata : RegisterMetadata} {key : String} {number : Option Nat}
    (h : decodeOptionalField metadata key = .ok number) : ∀ n, number = some n → n < u64Limit := by
  intro n hn
  unfold decodeOptionalField at h
  split at h
  · cases h
    cases hn
  · split at h
    · cases h
    · rename_i hparse
      cases h
      cases hn
      exact lt_of_parseU64 hparse

theorem require_eq {metadata : RegisterMetadata} {key value : String}
    (hkey : metadata key = some value) : metadata.require key = .ok value := by
  rw [RegisterMetadata.require, hkey]

/-- A valid record that can be written is read back. -/
theorem decode_encode {record : ManifestRecord} (hvalid : record.validate = .ok ())
    (h : record.Encodable) : decode record.encode = .ok record := by
  obtain ⟨hformat, hepoch, howner, htailBase, htrunc, hsegments, hbuckets⟩ := encode_fields record
  have hwf := validate_eq_ok_iff.1 hvalid
  unfold decode
  rw [require_eq hsegments, require_eq hbuckets, decodeField_eq hepoch h.epoch,
    decodeField_eq htailBase h.tailBase, decodeField_eq htrunc h.trunc, decodeOptionalField_eq
      (encode_sealBase record) h.sealBase, encode_tailId,
    encode_pendingId, encode_sealId, encode_sealDigest, howner, hformat]
  simp only [failIf, ne_eq, not_true_eq_false, if_false, bind, Except.bind,
    decodeSegments_encodeSegments h.segments hwf.basesIncrease,
    decodeBuckets_intercalate hwf.bucketNames, Option.getD_some, hvalid]

/-- What is read is valid and can be written. -/
theorem encodable_of_decode {metadata : RegisterMetadata} {record : ManifestRecord}
    (h : decode metadata = .ok record) : record.validate = .ok () ∧ record.Encodable := by
  unfold decode at h
  obtain ⟨-, -, h⟩ := bind_eq_ok.1 h
  obtain ⟨segmentsText, -, h⟩ := bind_eq_ok.1 h
  obtain ⟨segments, hsegments, h⟩ := bind_eq_ok.1 h
  obtain ⟨sealBase, hsealBase, h⟩ := bind_eq_ok.1 h
  obtain ⟨bucketsText, -, h⟩ := bind_eq_ok.1 h
  obtain ⟨buckets, -, h⟩ := bind_eq_ok.1 h
  obtain ⟨epoch, hepoch, h⟩ := bind_eq_ok.1 h
  obtain ⟨tailBase, htailBase, h⟩ := bind_eq_ok.1 h
  obtain ⟨trunc, htrunc, h⟩ := bind_eq_ok.1 h
  simp only at h
  split at h
  · cases h
  · rename_i hvalid
    cases h
    exact ⟨hvalid, lt_of_decodeField hepoch, lt_of_decodeField htailBase, lt_of_decodeField htrunc,
      lt_of_decodeOptionalField hsealBase, writable_of_decodeSegments hsegments⟩

/-- The codec of the register. Every valid record with fields in range and directory ids that can be
written is read back from its metadata; and what is read from any metadata is valid and is the same
after it was written. -/
theorem manifest_codec_round_trip :
    (∀ record : ManifestRecord, record.validate = .ok () →
      (∀ e ∈ record.segments, e.id.isEmpty = false ∧ ':' ∉ e.id.toList ∧ ',' ∉ e.id.toList) →
      (record.epoch < u64Limit ∧ record.tailBase < u64Limit ∧ record.trunc < u64Limit ∧
        (∀ base, record.sealBase = some base → base < u64Limit) ∧
        ∀ e ∈ record.segments, e.base < u64Limit ∧ e.crc32c < 2 ^ 32) →
      decode record.encode = .ok record) ∧
    ∀ metadata record, decode metadata = .ok record →
      decode record.encode = .ok record ∧ record.validate = .ok () := by
  constructor
  · intro record hvalid hids hrange
    obtain ⟨hepoch, htailBase, htrunc, hsealBase, hsegments⟩ := hrange
    refine decode_encode hvalid ⟨hepoch, htailBase, htrunc, hsealBase, fun e he => ?_⟩
    obtain ⟨hnonempty, hcolon, hcomma⟩ := hids e he
    exact ⟨⟨hnonempty, hcolon, hcomma⟩, (hsegments e he).1, (hsegments e he).2⟩
  · intro metadata record hread
    obtain ⟨hvalid, hwritable⟩ := encodable_of_decode hread
    exact ⟨decode_encode hvalid hwritable, hvalid⟩

/-- Metadata that the encoder would not write: a plus sign, leading zeros, and a key that nothing
reads. -/
def looseMetadata : RegisterMetadata :=
  RegisterMetadata.ofEntries
    [("chorus.format", "1"), ("chorus.epoch", "+2"), ("chorus.owner", "w"),
      ("chorus.tail_base", "007"), ("chorus.tail_id", "t"), ("chorus.trunc", "0"),
      ("chorus.segments", "s:+05:0000002a"), ("chorus.seal_id", "s"), ("chorus.seal_base", "5"),
      ("chorus.seal_digest", "d"), ("chorus.buckets", "b"), ("chorus.comment", "x")]

def looseRecord : ManifestRecord where
  epoch := 2
  owner := "w"
  tailBase := 7
  tailId := some "t"
  pendingId := none
  sealBase := some 5
  sealId := some "s"
  sealDigest := some "d"
  trunc := 0
  segments := [⟨"s", 5, 42⟩]
  buckets := ["b"]

theorem manifest_codec_round_trip_loose :
    decode looseMetadata = .ok looseRecord ∧ decode looseRecord.encode = .ok looseRecord ∧
      looseRecord.encode metaTailBase = some "7" := by
  have hread : decode looseMetadata = .ok looseRecord := by decide +kernel
  exact ⟨hread, (manifest_codec_round_trip.2 _ _ hread).1, by decide +kernel⟩

end ManifestRecord

end Chorus
