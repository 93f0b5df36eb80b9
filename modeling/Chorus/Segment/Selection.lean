import Chorus.Quorum.Rank
import Chorus.Segment.Replica

/-!
# Choosing what a recovered segment holds

`selectRecoverySize` bounds how much of a segment can have been acknowledged, from the sizes of the
zones that answered. `selectCanonicalQuorum` chooses the longest well-formed prefix among the copies
that were read, provided a quorum of them agrees with it.
-/

namespace Chorus

open Quorum RecordFrame

/-- Strict-majority quorum size for a replica set. -/
def majority (replicaCount : Nat) : Nat := replicaCount / 2 + 1

/-- An acknowledged offset appears on all but the unavailable members of a write quorum. -/
def selectRecoverySize (sizes : List Nat) (replicaCount : Nat) : Option Nat :=
  let quorum := majority replicaCount
  if sizes.length < quorum ∨ replicaCount < sizes.length then none
  else
    let unavailable := replicaCount - sizes.length
    if quorum < unavailable then none
    else
      let required := quorum - unavailable
      if 0 < required then kthLargest required sizes else none

/-- The well-formed prefix of one copy and the end offset of each of its records. -/
structure WitnessPrefix where
  bytes : Bytes
  recordEnds : List Nat
  deriving DecidableEq, Repr

namespace WitnessPrefix

def fromSnapshot (snapshot : ReplicaSnapshot) : WitnessPrefix :=
  let recordEnds := completePrefixEnds snapshot.bytes
  ⟨snapshot.bytes.take (recordEnds.getLast?.getD 0), recordEnds⟩

def len (w : WitnessPrefix) : Nat := w.recordEnds.length

def recordBytes (w : WitnessPrefix) (index : Nat) : Bytes :=
  let start := if index = 0 then 0 else w.recordEnds.getD (index - 1) 0
  (w.bytes.take (w.recordEnds.getD index 0)).drop start

/-- The first record on which two prefixes differ. -/
def conflict (left right : WitnessPrefix) : Option Nat :=
  (List.range (min left.len right.len)).find? fun index =>
    left.recordBytes index ≠ right.recordBytes index

end WitnessPrefix

/-- Combinations of the given size, in lexicographic order of positions. -/
def quorumSubsets {α : Type} : Nat → List α → List (List α)
  | 0, _ => [[]]
  | _ + 1, [] => []
  | quorum + 1, x :: xs => (quorumSubsets quorum xs).map (x :: ·) ++ quorumSubsets (quorum + 1) xs

/-- Pairs of entries, the earlier one first. -/
def orderedPairs {α : Type} : List α → List (α × α)
  | [] => []
  | x :: xs => xs.map (x, ·) ++ orderedPairs xs

/-- A copy that was read: its position in the input, its zone and its well-formed prefix. -/
structure Witness where
  index : Nat
  zone : Nat
  decoded : WitnessPrefix
  deriving DecidableEq, Repr

def longestMember (first : Witness) (rest : List Witness) : Witness :=
  rest.foldl (fun longest member =>
    if longest.decoded.len < member.decoded.len then member else longest) first

/-- A quorum whose prefixes agree pairwise, with its longest member. -/
def candidate (subset : List Witness) : Option (Witness × List Witness) :=
  match subset with
  | [] => none
  | first :: rest =>
    if (orderedPairs subset).all fun pair => (pair.1.decoded.conflict pair.2.decoded).isNone then
      some (longestMember first rest, subset)
    else none

/-- Of equally long candidates the one with the smallest zones wins. -/
def preferLowerZones (best other : Witness × List Witness) : Witness × List Witness :=
  if best.2.map (·.zone) < other.2.map (·.zone) then best else other

/-- The copy whose well-formed prefix was chosen and the prefix's record ends. -/
structure CanonicalSelection where
  witness : Nat
  recordEnds : List Nat
  deriving DecidableEq, Repr

/-- The longest exact, mutually consistent well-formed prefix visible on a quorum of the copies. -/
def selectCanonicalQuorum (snapshots : List ReplicaSnapshot) (quorum : Nat) :
    Except ProtocolError CanonicalSelection :=
  if snapshots.length < quorum then .error .noQuorum
  else
    let witnesses := snapshots.mapIdx fun index snapshot =>
      ⟨index, snapshot.zone, WitnessPrefix.fromSnapshot snapshot⟩
    let firstConflict := (orderedPairs witnesses).findSome? fun pair =>
      pair.1.decoded.conflict pair.2.decoded
    let candidates := (quorumSubsets quorum witnesses).filterMap candidate
    match (candidates.map fun c => c.1.decoded.len).max? with
    | none => .error (.conflictingPrefix (firstConflict.getD 0))
    | some longest =>
      match candidates.filter fun c => c.1.decoded.len = longest with
      | [] => .error (.conflictingPrefix (firstConflict.getD 0))
      | first :: rest =>
        match rest.find? fun other => other.1.decoded.bytes ≠ first.1.decoded.bytes with
        | some other =>
          .error (.conflictingPrefix (((List.range other.1.decoded.len).find? fun index =>
            other.1.decoded.recordBytes index ≠ first.1.decoded.recordBytes index).getD 0))
        | none =>
          let selected := (rest.foldl preferLowerZones first).1
          .ok ⟨selected.index, selected.decoded.recordEnds⟩

end Chorus
