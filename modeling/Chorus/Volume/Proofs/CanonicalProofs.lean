import Chorus.Segment.Proofs.SelectionProofs
import Chorus.Volume.Catalog

/-!
# The prefix that the catalog returns

The catalog cuts the copy that was selected at its last complete record. The prefix it returns is
the one of a longest copy, in whatever order the copies come (`canonical_selection`), and
`divergent_copy_excluded` says exactly when it is one of the stream although some copy diverges.
-/

namespace Chorus

open Quorum RecordFrame

section Prefix

variable {quorum : Nat} {snapshots : List ReplicaSnapshot}

/-- The prefix that is returned is the one of a longest copy. -/
theorem canonicalPrefixBytes_eq_ok (h₀ : 0 < quorum) {bytes : Bytes} :
    canonicalPrefixBytes snapshots quorum = .ok bytes ↔
      (∀ s s', IsLongest quorum snapshots s → IsLongest quorum snapshots s' →
        s.records = s'.records) ∧
      ∃ s, IsLongest quorum snapshots s ∧ bytes = streamBytes s.records := by
  obtain ⟨hiff, hnamed⟩ := selectCanonicalQuorum_spec h₀ snapshots
  have hprefix : ∀ selection, selectCanonicalQuorum snapshots quorum = .ok selection → ∃ s,
      IsLongest quorum snapshots s ∧
        canonicalPrefixBytes snapshots quorum = .ok (streamBytes s.records) := by
    intro selection hselection
    obtain ⟨s, hs, hfound, hends⟩ := hnamed selection hselection
    refine ⟨s, hs, ?_⟩
    have hcut := take_getLast?_completePrefixEnds_eq s.bytes
    rw [completePrefixEnds_eq] at hcut
    rw [canonicalPrefixBytes, hselection]
    simp only [Except.map, hfound, hends, Option.map_some, Option.getD_some]
    exact congrArg Except.ok hcut
  constructor
  · intro h
    have hok : ∃ selection, selectCanonicalQuorum snapshots quorum = .ok selection := by
      rw [canonicalPrefixBytes] at h
      cases hselection : selectCanonicalQuorum snapshots quorum with
      | error error =>
        rw [hselection] at h
        cases h
      | ok selection => exact ⟨selection, rfl⟩
    obtain ⟨selection, hselection⟩ := hok
    obtain ⟨s, hs, hbytes⟩ := hprefix selection hselection
    rw [hbytes] at h
    exact ⟨(hiff.1 ⟨selection, hselection⟩).2, s, hs, (Except.ok.inj h).symm⟩
  · rintro ⟨hsame, s, hs, rfl⟩
    obtain ⟨subset, hquorum, -⟩ := hs.member
    obtain ⟨selection, hselection⟩ := hiff.2 ⟨⟨subset, hquorum⟩, hsame⟩
    obtain ⟨s', hs', hbytes⟩ := hprefix selection hselection
    rw [hbytes, hsame s' s hs' hs]

/-! ## The order of the copies does not matter -/

theorem AgreeingQuorum.perm {snapshots' subset : List ReplicaSnapshot}
    (hperm : snapshots.Perm snapshots') (h : AgreeingQuorum quorum snapshots subset) :
    ∃ subset', AgreeingQuorum quorum snapshots' subset' ∧ ∀ s, s ∈ subset' ↔ s ∈ subset := by
  obtain ⟨subset', hsame, hsub⟩ := h.sublist.subperm.trans hperm.subperm
  refine ⟨subset', ⟨hsub, hsame.length_eq.trans h.size, fun s hs s' hs' => ?_⟩,
    fun s => hsame.mem_iff⟩
  exact h.agree s (hsame.mem_iff.1 hs) s' (hsame.mem_iff.1 hs')

theorem IsLongest.perm {snapshots' : List ReplicaSnapshot} (hperm : snapshots.Perm snapshots')
    {s : ReplicaSnapshot} (h : IsLongest quorum snapshots s) : IsLongest quorum snapshots' s := by
  obtain ⟨subset, hquorum, hmem⟩ := h.member
  obtain ⟨subset', hquorum', hiff⟩ := hquorum.perm hperm
  refine ⟨⟨subset', hquorum', (hiff s).2 hmem⟩, fun other hother s' hs' => ?_⟩
  obtain ⟨back, hback, hiff'⟩ := hother.perm hperm.symm
  exact h.longest back hback s' ((hiff' s').2 hs')

theorem canonicalPrefixBytes_perm (h₀ : 0 < quorum) {snapshots' : List ReplicaSnapshot}
    (hperm : snapshots.Perm snapshots') : (canonicalPrefixBytes snapshots quorum).toOption =
      (canonicalPrefixBytes snapshots' quorum).toOption := by
  have hlongest : ∀ s, IsLongest quorum snapshots s ↔ IsLongest quorum snapshots' s :=
    fun s => ⟨fun h => h.perm hperm, fun h => h.perm hperm.symm⟩
  have hok : ∀ bytes, canonicalPrefixBytes snapshots quorum = .ok bytes ↔
      canonicalPrefixBytes snapshots' quorum = .ok bytes := by
    intro bytes
    simp only [canonicalPrefixBytes_eq_ok h₀, hlongest]
  cases hleft : canonicalPrefixBytes snapshots quorum with
  | ok bytes => rw [(hok bytes).1 hleft]
  | error error =>
    cases hright : canonicalPrefixBytes snapshots' quorum with
    | ok bytes =>
      rw [(hok bytes).2 hright] at hleft
      cases hleft
    | error error' => rfl

/-- From copies of one stream the longest one is taken. -/
theorem canonicalPrefixBytes_of_stream (h₀ : 0 < quorum) {stream : List RecordFrame}
    (hall : ∀ s ∈ snapshots, s.records <+: stream) (hq : quorum ≤ snapshots.length) :
    ∃ s ∈ snapshots, (∀ s' ∈ snapshots, s'.records <+: s.records) ∧
      canonicalPrefixBytes snapshots quorum = .ok (streamBytes s.records) := by
  obtain ⟨selection, s, hselection, hs, -, -, hbelow⟩ := selectCanonicalQuorum_of_stream h₀ hall hq
  obtain ⟨-, hsame⟩ := (selectCanonicalQuorum_spec h₀ snapshots).1.1 ⟨selection, hselection⟩
  exact ⟨s, hs.mem, hbelow, (canonicalPrefixBytes_eq_ok h₀).2 ⟨hsame, s, hs, rfl⟩⟩

end Prefix

/-- What selection does at the level of records: when it succeeds, which copy and which bytes it
returns, that the order of the copies does not matter, and that from copies of one stream it takes
the longest. -/
theorem canonical_selection (snapshots : List ReplicaSnapshot) {quorum : Nat} (h₀ : 1 ≤ quorum) :
    ((∃ selection, selectCanonicalQuorum snapshots quorum = .ok selection) ↔
      (∃ subset, AgreeingQuorum quorum snapshots subset) ∧ ∀ s s', IsLongest quorum snapshots s →
        IsLongest quorum snapshots s' → s.records = s'.records) ∧
    (∀ selection, selectCanonicalQuorum snapshots quorum = .ok selection → ∃ s,
      IsLongest quorum snapshots s ∧ snapshots[selection.witness]? = some s ∧
        selection.recordEnds = recordEnds s.records ∧
        canonicalPrefixBytes snapshots quorum = .ok (streamBytes s.records)) ∧
    (∀ snapshots', snapshots.Perm snapshots' → (canonicalPrefixBytes snapshots quorum).toOption =
      (canonicalPrefixBytes snapshots' quorum).toOption) ∧
    ∀ stream, (∀ s ∈ snapshots, s.records <+: stream) → quorum ≤ snapshots.length →
      ∃ s ∈ snapshots, (∀ s' ∈ snapshots, s'.records <+: s.records) ∧
        canonicalPrefixBytes snapshots quorum = .ok (streamBytes s.records) := by
  obtain ⟨hiff, hnamed⟩ := selectCanonicalQuorum_spec h₀ snapshots
  refine ⟨hiff, fun selection hselection => ?_,
    fun snapshots' hperm => canonicalPrefixBytes_perm h₀ hperm, fun stream hall hq =>
      canonicalPrefixBytes_of_stream h₀ hall hq⟩
  obtain ⟨s, hs, hfound, hends⟩ := hnamed selection hselection
  obtain ⟨-, hsame⟩ := hiff.1 ⟨selection, hselection⟩
  exact ⟨s, hs, hfound, hends, (canonicalPrefixBytes_eq_ok h₀).2 ⟨hsame, s, hs, rfl⟩⟩

def openCopy (zone : Nat) (bytes : Bytes) : ReplicaSnapshot :=
  ⟨zone, 0, 1, bytes.length, false, none, protocolMetadata, bytes⟩

/-- One record, two records the first of which is the same and a torn third one, and another
record. -/
def strayCopies : List ReplicaSnapshot :=
  [openCopy 0 [0, 0, 0, 5, 1], openCopy 1 [0, 0, 0, 5, 1, 0, 0, 0, 4, 0, 0, 0],
    openCopy 2 [0, 0, 0, 5, 9]]

/-- The copy that stands alone is left out, in whatever order the copies come. -/
theorem canonical_selection_stray :
    (∃ s, IsLongest 2 strayCopies s ∧
      canonicalPrefixBytes strayCopies 2 = .ok (streamBytes s.records)) ∧
      (canonicalPrefixBytes strayCopies.reverse 2).toOption = some [0, 0, 0, 5, 1, 0, 0, 0, 4] := by
  obtain ⟨-, hnamed, hperm, -⟩ := canonical_selection strayCopies (show 1 ≤ 2 by decide)
  refine ⟨?_, ?_⟩
  · obtain ⟨s, hs, -, -, hbytes⟩ := hnamed ⟨1, [5, 9]⟩ (by decide +kernel)
    exact ⟨s, hs, hbytes⟩
  · rw [← hperm _ (List.reverse_perm _).symm]
    decide +kernel

/-! ## A copy that diverges -/

theorem decodeAll_records (s : ReplicaSnapshot) :
    decodeAll (streamBytes s.records) = .ok s.records :=
  decodeAll_streamBytes (fits_completeRecords _)

/-- With a quorum of copies of one stream, the records that selection returns are always a prefix of
the stream if no member of an agreeing quorum is longer than every copy of the stream, or if the
longest members differ; and only then. -/
theorem divergent_copy_excluded (n : Nat) (stream : List RecordFrame)
    (snapshots : List ReplicaSnapshot)
    (hhonest : majority n ≤ snapshots.countP fun s => decide (s.records <+: stream)) :
    (∀ bytes, canonicalPrefixBytes snapshots (majority n) = .ok bytes →
      ∃ records, decodeAll bytes = .ok records ∧ records <+: stream) ↔
    ((∀ subset, AgreeingQuorum (majority n) snapshots subset → ∀ d ∈ subset,
        ∃ s ∈ snapshots, s.records <+: stream ∧ d.records.length ≤ s.records.length) ∨
      ∃ d d', IsLongest (majority n) snapshots d ∧ IsLongest (majority n) snapshots d' ∧
        d.records ≠ d'.records) := by
  have h₀ : 0 < majority n := Nat.succ_pos _
  constructor
  · intro hprefix
    by_contra hnot
    push Not at hnot
    obtain ⟨⟨subset, hsubset, d, hd, hlonger⟩, hsame⟩ := hnot
    -- the longest copy is returned, is a copy of the stream, and is at least as long as `d`
    obtain ⟨s, hs⟩ := exists_isLongest h₀ hsubset
    obtain ⟨records, hdecode, hrecords⟩ :=
      hprefix _ ((canonicalPrefixBytes_eq_ok h₀).2 ⟨fun s s' h h' => hsame s s' h h', s, hs, rfl⟩)
    rw [decodeAll_records] at hdecode
    cases hdecode
    obtain ⟨subset', hsubset', hmem⟩ := hs.member
    have hlt := hlonger s (hsubset'.mem hmem) hrecords
    have hle := hs.longest subset hsubset d hd
    omega
  · intro hcond bytes hbytes
    obtain ⟨hsame, s, hs, rfl⟩ := (canonicalPrefixBytes_eq_ok h₀).1 hbytes
    refine ⟨s.records, decodeAll_records s, ?_⟩
    rcases hcond with hshort | ⟨d, d', hd, hd', hne⟩
    · -- a copy of the stream is as long as the longest, so it is one of the longest
      obtain ⟨subset, hsubset, hmem⟩ := hs.member
      obtain ⟨honest, hin, hprefix, hle⟩ := hshort subset hsubset s hmem
      obtain ⟨subset', hsubset', hmem'⟩ := exists_agreeingQuorum_of_prefix h₀ hhonest hin hprefix
      have hlongest : IsLongest (majority n) snapshots honest :=
        ⟨⟨subset', hsubset', hmem'⟩,
          fun other hother s' hs' => (hs.longest other hother s' hs').trans hle⟩
      rw [hsame s honest hs hlongest]
      exact hprefix
    · exact absurd (hsame d d' hd hd') hne

/-- With the stray copy of one record the condition is met. -/
theorem divergent_copy_excluded_stray :
    ∃ records, decodeAll [0, 0, 0, 5, 1, 0, 0, 0, 4] = .ok records ∧
      records <+: [⟨[1]⟩, ⟨[]⟩, ⟨[2]⟩] := by
  refine (divergent_copy_excluded 3 [⟨[1]⟩, ⟨[]⟩, ⟨[2]⟩] strayCopies (by decide)).2 (Or.inl ?_) _
    (by decide +kernel)
  intro subset hsubset d hd
  refine ⟨_, List.mem_cons_of_mem _ List.mem_cons_self, by decide, ?_⟩
  have hall : ∀ s ∈ strayCopies, s.records.length ≤ 2 := by decide
  exact hall d (hsubset.mem hd)

/-- An empty copy and a copy of one record of the stream, and a copy of two other records. -/
def divergentCopies : List ReplicaSnapshot :=
  [openCopy 0 [], openCopy 1 [0, 0, 0, 5, 1], openCopy 2 [0, 0, 0, 5, 8, 0, 0, 0, 5, 9]]

/-- The divergent copy agrees with the empty one and is the longest, so it is selected. -/
theorem divergent_copy_selected : ¬ ∀ (n : Nat) (stream : List RecordFrame)
    (snapshots : List ReplicaSnapshot), n % 2 = 1 → snapshots.length ≤ n →
    majority n ≤ (snapshots.countP fun s => decide (s.records <+: stream)) →
    ∀ bytes, canonicalPrefixBytes snapshots (majority n) = .ok bytes →
      ∃ records, decodeAll bytes = .ok records ∧ records <+: stream := by
  intro h
  obtain ⟨records, hdecode, hprefix⟩ := h 3 [⟨[1]⟩] divergentCopies (by decide)
    (by decide) (by decide) [0, 0, 0, 5, 8, 0, 0, 0, 5, 9] (by decide +kernel)
  have hrecords : decodeAll [0, 0, 0, 5, 8, 0, 0, 0, 5, 9] = .ok [⟨[8]⟩, ⟨[9]⟩] := by decide
  rw [hrecords] at hdecode
  cases hdecode
  exact absurd hprefix (by decide)

end Chorus
