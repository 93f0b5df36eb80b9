import Chorus.Volume.Recovery
import Chorus.Concurrency.Run

/-!
# Recovery and replay among other processes

One process has claimed the register and recovers the volume while others change the objects and the
register as they like. The folds that the register accepts from the recovering process are logged,
and so are the contents that it reads.
-/

namespace Chorus

open Concurrency

def ManifestOp.author : {β : Type} → ManifestOp β → Author
  | _, .call author => author

/-- The fold that a manifest call leaves in the register. -/
def Author.acceptedFold? (author : Author) (register : ManifestRecord) :
    VolumeOutcome → Option PendingFold
  | .answered => accepted
  | .lost _ applied => if applied then accepted else none
  | .failed _ _ => none
where
  accepted : Option PendingFold :=
    match author.call, author.decide register with
    | .foldPending fold, .ok _ => some fold
    | _, _ => none

def VolumeOp.acceptedFold? {n : Nat} {β : Type} (register : ManifestRecord) :
    VolumeOp n β → VolumeOutcome → Option PendingFold
  | .manifest op, outcome => op.author.acceptedFold? register outcome
  | .replica _ _, _ => none

/-- The contents that an answer carries, with the segment that they were read for. -/
def VolumeOp.contents {n : Nat} {β : Type} : VolumeOp n β → β → List (SegmentId × Bytes)
  | .manifest _, _ => []
  | .replica id op, answer => (op.contents answer).map fun bytes => (id, bytes)

def PendingFold.descriptor (fold : PendingFold) : SegmentDescriptor :=
  ⟨fold.oldTailId, fold.oldTailBase, fold.oldTailEnd, fold.oldTailCrc32c, false⟩

structure ReplayWorld (n : Nat) where
  volume : Volume n
  /-- The folds that the register accepted from the recovering process. -/
  folds : List PendingFold
  /-- The contents that the recovering process has read. -/
  reads : List (SegmentId × Bytes)

def replayMachine (n : Nat) (crc : Bytes → Nat) :
    Machine (VolumeOp n) (ReplayWorld n) VolumeOutcome where
  exec w op outcome := ((volumeMachine n crc).exec w.volume op outcome).map fun r =>
    (⟨r.1, w.folds ++ (op.acceptedFold? w.volume.register outcome).toList,
      w.reads ++ op.contents r.2⟩, r.2)

namespace Volume

def PendingSwap.descriptor (swap : PendingSwap) : SegmentDescriptor :=
  ⟨swap.id, swap.baseRecordIndex, swap.endRecordIndex, swap.crc32c, false⟩

/-- Prepare the frontier for the document that the claim installed, and replay from the
checkpoint. -/
def replay {n : Nat} (crc : Bytes → Nat) (digest : Bytes → String) (config : VolumeConfig)
    (checkpoint : Nat) (adopted : ManifestRecord) : VolumeM n Recovery := do
  let state ← prepareRecovery crc digest config checkpoint adopted
  let records ← scanSealedRange crc checkpoint state.nextRecordIndex state.sealedSegments
  return ⟨checkpoint, state, records⟩

theorem recover_eq_replay {n : Nat} (crc : Bytes → Nat) (digest : Bytes → String)
    (config : VolumeConfig) (checkpoint : Nat) :
    (recover crc digest config checkpoint : VolumeM n Recovery) =
      VolumeM.manifest ⟨.claim, ⟨0, config.owner⟩, config.maxDirectoryBytes⟩ >>=
        replay crc digest config checkpoint :=
  rfl

end Volume

structure ReplaySystem (n : Nat) where
  world : ReplayWorld n
  prog : Prog (VolumeOp n) n (Except VolumeError Volume.Recovery)

namespace ReplaySystem

variable {n : Nat}

def init (crc : Bytes → Nat) (digest : Bytes → String) (config : VolumeConfig) (checkpoint : Nat)
    (adopted : ManifestRecord) (volume : Volume n) : ReplaySystem n :=
  ⟨⟨volume, [], []⟩, (Volume.replay crc digest config checkpoint adopted).run⟩

inductive Action (n : Nat) where
  | step (choice : Choice VolumeOutcome n)
  /-- Other processes, and the zones themselves, change the volume. -/
  | disturb (volume : Volume n)

def step (crc : Bytes → Nat) (s : ReplaySystem n) : Action n → Option (ReplaySystem n)
  | .step choice => ((replayMachine n crc).step s.prog s.world choice).map fun r => ⟨r.1, r.2⟩
  | .disturb volume => some { s with world := { s.world with volume } }

end ReplaySystem

end Chorus
