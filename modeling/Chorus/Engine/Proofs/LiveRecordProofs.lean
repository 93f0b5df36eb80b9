import Chorus.Engine.Proofs.AcknowledgedProofs
import Chorus.Engine.Proofs.LiveFoldProofs

/-!
# A live engine acknowledges nothing that its register does not name

The next incarnation finds segments through the register only. While the claim is current, the
register shows the active segment as its tail or as its pending segment, and a segment that waits
for its fold as its tail or in its directory.
-/

namespace Chorus

open Concurrency RecordFrame

variable {n : Nat} {crc : Bytes → Nat} {sha256 : Bytes → String} {config : WalEngineConfig}
  {s : LiveWal n} {fold? : Option PendingFold} {since : Nat} {r : ManifestRecord}

/-- The document leads to a segment that is not known to be folded. Only truncation takes it out of
the directory. -/
structure LiveWal.Named (s : LiveWal n) (r : ManifestRecord) (i : Nat) : Prop where
  active : i = s.engine.activeSegment →
    r.tailId = some (s.ids i) ∧ r.tailBase = s.engine.baseRecordIndex ∨ r.pendingId = some (s.ids i)
  swapped : ∀ swap, s.engine.rotation.swap? = some swap → swap.writer = some i →
    r.tailId = some (s.ids i) ∧ r.tailBase = swap.baseRecordIndex ∨
      (∃ entry ∈ r.segments, entry.id = s.ids i ∧ entry.base = swap.baseRecordIndex) ∨
      swap.endRecordIndex < r.trunc

namespace LiveInv

/-- The current document shows the frontier of the writer, or the outcome of the fold of its pending
swap. -/
theorem shown (h : LiveInv s fold? since) (hopen : s.shutdownSeal.submitted = false)
    (hr : s.manifest.store.current = some r) : r.frontier = s.frontier ∨ ∃ swap names refillId,
      s.engine.rotation.swap? = some swap ∧ s.names = some names ∧
      FoldShown (LiveWal.pendingFoldRequest swap names refillId) r ∧
      swap.endRecordIndex + 1 < u64Limit := by
  obtain ⟨a, hentry⟩ := Store.at_of_current hr
  rcases h.era.era.shown _ r a h.era.era.reached hentry with hfrontier |
    ⟨fold, hfold, hshown, hcommitted⟩
  · exact .inl hfrontier
  · obtain ⟨request, hrequest, rfl⟩ | hsubmitted := (h.submitted fold hfold).2
    · unfold LiveWal.foldRequest at hrequest
      split at hrequest
      · next swap names spare hswap hnames _ =>
        cases hrequest
        exact .inr ⟨swap, names, _, hswap, hnames, hshown, hcommitted.end_lt h.era.era.derived⟩
      · cases hrequest
    · cases hopen.symm.trans hsubmitted

theorem named (h : LiveInv s fold? since) (hnames : s.NamesInv sha256)
    (hopen : s.shutdownSeal.submitted = false) (hr : s.manifest.store.current = some r) (i : Nat) :
    s.Named r i := by
  constructor
  · rintro rfl
    obtain hfrontier | ⟨swap, names, refillId, hswap, hheld, ⟨happlied, -⟩, hlt⟩ := h.shown hopen hr
    · unfold LiveWal.frontier ManifestRecord.frontier at hfrontier
      split at hfrontier
      · next swap names hswap hheld =>
        obtain ⟨names', hheld', hsuccessor, -⟩ := h.writer.draining swap hswap
        obtain rfl := Option.some.inj (hheld.symm.trans hheld')
        exact .inr (hsuccessor ▸ congrArg Frontier.pendingId hfrontier)
      · exact .inl ⟨congrArg Frontier.tailId hfrontier, congrArg Frontier.tailBase hfrontier⟩
    · -- the fold has made the active segment the tail
      obtain ⟨names', hheld', hsuccessor, hbase⟩ := h.writer.draining swap hswap
      obtain rfl := Option.some.inj (hheld.symm.trans hheld')
      obtain ⟨htail, htailBase, -⟩ := happlied
      refine .inl ⟨hsuccessor ▸ htail, ?_⟩
      rw [htailBase, hbase]
      exact min_eq_left (Nat.le_sub_one_of_lt hlt)
  · intro swap hswap hi
    obtain ⟨names, hheld, -⟩ := h.writer.draining swap hswap
    have hid : names.id = s.ids i := (hnames.pending swap names i hswap hheld hi names.id).id
    obtain hfrontier | ⟨swap', names', refillId, hswap', hheld', ⟨-, hentry⟩, -⟩ := h.shown hopen hr
    · rw [LiveWal.frontier, hswap, hheld] at hfrontier
      exact .inl ⟨hid ▸ congrArg Frontier.tailId hfrontier, congrArg Frontier.tailBase hfrontier⟩
    · obtain rfl := Option.some.inj (hswap.symm.trans hswap')
      obtain rfl := Option.some.inj (hheld.symm.trans hheld')
      rcases hentry with hlast | htrunc
      · exact .inr (.inl ⟨_, List.mem_of_getLast? hlast, hid, rfl⟩)
      · exact .inr (.inr htrunc)

end LiveInv

/-- While the claim of a live engine is current and its shutdown seal has not submitted a fold,
every acknowledged append is one that every recovery of its segment returns; and if that segment is
the active one or waits for its fold, the register leads to it. -/
theorem acknowledged_named {s₀ : LiveWal n} (h₀ : s₀.Handover)
    (hrun : Reaches (LiveWal.step crc sha256 config) (fun s _ => s.Current) s₀ s) (hcur : s.Current)
    (hopen : s.shutdownSeal.submitted = false) (hr : s.manifest.store.current = some r)
    {seqno : Nat} (hdone : (seqno, .ok ()) ∈ s.engine.completions) :
    ∃ (j : Nat) (p : Placement) (record : RecordFrame), s.engine.placements[j]? = some p ∧
      s.engine.accepted[j]? = some record ∧ p.recordIndex = seqno ∧ s.Named r p.segment ∧
      s.engine.Recovers p record := by
  obtain ⟨⟨start, hinv⟩, hlive, hnames, -⟩ := LiveWal.RunInv.of_reaches h₀ hrun
  obtain ⟨fold?, since, hlive⟩ := hlive hcur
  obtain ⟨hle, hlt⟩ := hinv.completed_bounds hdone
  obtain ⟨p, record, hp, hrecord, hindex, hrecovers⟩ := hinv.recovers hle hlt
  exact ⟨_, p, record, hp, hrecord, hindex, hlive.named hnames hopen hr p.segment, hrecovers⟩

/-- The fold of the first segment is applied, but its answer is lost. -/
def unansweredRun : List (LiveWal.Action 3) :=
  untilFold.map .engine ++ [.hash 0, .manifest (.step 2 (.op (.unavailable .applied)))]

theorem acknowledged_named_unanswered : ∃ (s₀ s : LiveWal 3) (r : ManifestRecord), s₀.Handover ∧
    Reaches (LiveWal.step crc32c (fun _ => "sha") smallSegments) (fun s _ => s.Current) s₀ s ∧
    s.manifest.store.current = some r ∧ s.engine.rotation.swap?.bind PendingSwap.writer = some 0 ∧
    s.Named r 0 := by
  have hchecked : liveCheck unansweredRun (fun _ s => s.manifest.store.current.isSome &&
      decide (s.shutdownSeal.submitted = false ∧ s.engine.placements = [⟨0, 0, 0⟩] ∧
        s.engine.rotation.swap?.bind PendingSwap.writer = some 0) &&
      s.engine.completions.any fun c => c.2.isOk) = true := by
    decide +kernel
  obtain ⟨manifest, s, h₀, hreach, hcur, hfacts⟩ := exists_of_liveCheck hchecked
  simp only [Bool.and_eq_true, decide_eq_true_eq] at hfacts
  obtain ⟨⟨hsome, hopen, hplacements, hwriter⟩, hany⟩ := hfacts
  obtain ⟨r, hr⟩ := Option.isSome_iff_exists.1 hsome
  obtain ⟨⟨seqno, result⟩, hdone, hok⟩ := List.any_eq_true.1 hany
  cases result with
  | error => cases hok
  | ok =>
    obtain ⟨j, p, record, hp, -, -, hnamed, -⟩ :=
      acknowledged_named h₀ hreach hcur hopen hr hdone
    rw [hplacements] at hp
    obtain rfl := List.mem_singleton.1 (List.mem_of_getElem? hp)
    exact ⟨_, s, r, h₀, hreach, hr, hwriter, hnamed⟩

end Chorus
