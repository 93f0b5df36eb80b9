import Chorus.Segment.Selection

/-!
# Recovering one segment

`recoverCandidate` fences every reachable copy before it looks at a size, bounds the acknowledged
prefix by an order statistic over the fenced sizes, freezes the live copies, reads them and selects
the canonical prefix. Vectors that the source keeps in zone order are functions on zones here;
`Quorum.collect` lists them again where their order or number matters.
-/

namespace Chorus

open Concurrency Quorum RecordFrame

/-- Retry policy for transport operations. -/
structure ClientConfig where
  maxRetries : Nat
  deriving DecidableEq, Repr

abbrev ReplicaProg (n : Nat) (α : Type) := Prog (ZoneOp n) n α

variable {n : Nat} {α : Type}

def Prog.replica (zone : Fin n) (op : ReplicaOp α) : ReplicaProg n α := .send (.mk zone op)

/-- Run `op` again after each transient failure. -/
def withRetry (op : ReplicaProg n (Except TransportError α)) :
    Nat → ReplicaProg n (Except TransportError α)
  | 0 => op
  | attempts + 1 => op.bind fun
    | .error error => if error.code.transient then withRetry op attempts else .ret (.error error)
    | .ok value => .ret (.ok value)

def snapshotWithRetry (config : ClientConfig) (zone : Fin n) :
    ReplicaProg n (Except TransportError ReplicaSnapshot) :=
  withRetry (Prog.replica zone .snapshot) config.maxRetries

def statWithRetry (config : ClientConfig) (zone : Fin n) :
    ReplicaProg n (Except TransportError ReplicaSnapshot) :=
  withRetry (Prog.replica zone .stat) config.maxRetries

def createSessionWithRetry (config : ClientConfig) (zone : Fin n) (metadata : Metadata) :
    ReplicaProg n (Except TransportError AppendToken) :=
  withRetry (Prog.replica zone (.createAppendSession metadata)) config.maxRetries

/-- Fence the current live generation and return its durable tail. `NotFound` from the lookup means
that the object is absent; from the takeover it is ambiguous. -/
def takeoverCurrent (zone : Fin n) : ReplicaProg n (Except TransportError AppendToken) :=
  (Prog.replica zone .stat).bind fun
  | .error error => .ret (.error error)
  | .ok observed => (Prog.replica zone (.takeover observed)).bind fun
    | .error error =>
      .ret (.error (if error.code = .notFound then ⟨error.zone, .ambiguous⟩ else error))
    | .ok token => .ret (.ok token)

/-- One attempt to finalize at the given offset, with the retry that is left. An ambiguous response
is resolved by metadata: a finalized object of the same generation and size is the operation's own
result. -/
def finalizeAttempt (config : ClientConfig) (zone : Fin n) (token : AppendToken) (writeOffset : Nat)
    (retry : Option (ReplicaProg n (Except TransportError ReplicaSnapshot))) :
    ReplicaProg n (Except TransportError ReplicaSnapshot) :=
  let resolve (generation : Nat)
      (unresolved : ReplicaProg n (Except TransportError ReplicaSnapshot)) :=
    (statWithRetry config zone).bind fun
    | .error error => .ret (.error error)
    | .ok snapshot =>
      if snapshot.finalized ∧ snapshot.generation = generation ∧
          snapshot.persistedSize = writeOffset then .ret (.ok snapshot)
      else unresolved
  (Prog.replica zone (.finalize token writeOffset)).bind fun
  | .ok snapshot => .ret (.ok snapshot)
  | .error error =>
    match token.generation with
    | none => .ret (.error error)
    | some generation =>
      if error.code.transient then
        match retry with
        | none => .ret (.error error)
        | some again => resolve generation again
      else if error.code = .failedPrecondition then resolve generation (.ret (.error error))
      else .ret (.error error)

def finalizeWithRetry (config : ClientConfig) (zone : Fin n) (token : AppendToken)
    (writeOffset : Nat) : Nat → ReplicaProg n (Except TransportError ReplicaSnapshot)
  | 0 => finalizeAttempt config zone token writeOffset none
  | attempts + 1 => finalizeAttempt config zone token writeOffset
      (some (finalizeWithRetry config zone token writeOffset attempts))

/-- What the takeover found in one zone. -/
inductive Observation where
  | live (token : AppendToken)
  | finalized (snapshot : ReplicaSnapshot)
  | missing
  deriving DecidableEq, Repr

namespace Observation

def size : Observation → Nat
  | .live token => token.persistedSize
  | .finalized snapshot => snapshot.persistedSize
  | .missing => 0

def isMissing : Observation → Bool
  | .missing => true
  | _ => false

def token? : Observation → Option AppendToken
  | .live token => some token
  | _ => none

def snapshot? : Observation → Option ReplicaSnapshot
  | .finalized snapshot => some snapshot
  | _ => none

def isEmptyCopy : Observation → Bool
  | .live token => token.persistedSize = 0
  | .finalized snapshot => snapshot.persistedSize = 0
  | .missing => false

end Observation

/-- Fence one zone. -/
def observeZone (config : ClientConfig) (zone : Fin n) :
    ReplicaProg n (Except ProtocolError Observation) :=
  (withRetry (takeoverCurrent zone) config.maxRetries).bind fun
  | .ok token => .ret (.ok (.live token))
  | .error error =>
    if error.code = .failedPrecondition then
      (snapshotWithRetry config zone).bind fun
      | .error error => .ret (.error (.transport error))
      | .ok snapshot =>
        .ret (if validFormat snapshot.metadata then .ok (.finalized snapshot) else .error .noQuorum)
    else if error.code = .notFound then .ret (.ok .missing)
    else if error.code.transient ∨ error.code = .dataLoss ∨ error.code = .ambiguous then
      .ret (.error .noQuorum)
    else .ret (.error (.transport error))

/-- The first error other than a missing quorum. -/
def fatalError (attempts : Fin n → Except ProtocolError α) : Option ProtocolError :=
  (List.finRange n).findSome? fun zone =>
    match attempts zone with
    | .error error => if error = .noQuorum then none else some error
    | .ok _ => none

structure CanonicalPrefix where
  bytes : Bytes
  recordEnds : List Nat
  deriving DecidableEq, Repr

/-- A copy that was finalized with exactly the canonical bytes when recovery read it. -/
structure SealedWitness where
  zone : Nat
  generation : Nat
  deriving DecidableEq, Repr

/-- The canonical content of a fenced segment. -/
structure RecoveredTail where
  canonical : CanonicalPrefix
  crc32c : Nat
  hadDiscardedSuffix : Bool
  sealedWitnesses : List SealedWitness
  deriving DecidableEq, Repr

def RecoveredTail.len (tail : RecoveredTail) : Nat := tail.canonical.recordEnds.length

inductive RecoveryCandidate where
  | absent
  /-- The committed prefix is empty. The sessions are reusable only if every zone supplied one. -/
  | empty (reusableWriter : Option (List AppendToken))
  | nonEmpty (tail : RecoveredTail)
  deriving DecidableEq, Repr

def RecoveryCandidate.records : RecoveryCandidate → Except RecordError (List RecordFrame)
  | .absent => .ok []
  | .empty _ => .ok []
  | .nonEmpty tail => decodeAll tail.canonical.bytes

/-- The copies that recovery selects from: the ones found finalized, the ones it froze and read, cut
at the committed size, and an empty placeholder for every missing zone. -/
structure Evidence where
  snapshots : List ReplicaSnapshot
  placeholders : List ReplicaSnapshot
  deriving DecidableEq, Repr

def missingPlaceholder (crc : Bytes → Nat) (zone : Fin n) : ReplicaSnapshot :=
  ⟨zone, 0, 0, 0, true, some (crc []), protocolMetadata, []⟩

/-- A recovery that expects a number of records takes no more. -/
def limitRecords (expectedRecords : Option Nat) (recordEnds : List Nat) : List Nat :=
  match expectedRecords with
  | some expected => recordEnds.take expected
  | none => recordEnds

/-- The selection of the canonical prefix from the copies that were read. -/
def decideCandidate (crc : Bytes → Nat) (quorum committedSize maxObservedSize : Nat)
    (expectedRecords : Option Nat) (evidence : Evidence) : Except ProtocolError RecoveryCandidate :=
  let cut := evidence.snapshots.map fun snapshot =>
    { snapshot with bytes := snapshot.bytes.take committedSize }
  let recoverySnapshots := cut ++ evidence.placeholders
  match selectCanonicalQuorum recoverySnapshots quorum with
  | .error error => .error error
  | .ok selection =>
    let hadDiscardedSuffix := selection.recordEnds.getLast?.getD 0 < maxObservedSize
    let tooShort := expectedRecords.filter fun expected => selection.recordEnds.length < expected
    match tooShort with
    | some expected => .error (.recoveryPrefixTooShort expected selection.recordEnds.length)
    | none =>
      let recordEnds := limitRecords expectedRecords selection.recordEnds
      match recordEnds.getLast? with
      | none => .ok (.empty none)
      | some canonicalLen =>
        let bytes :=
          ((recoverySnapshots[selection.witness]?.map (·.bytes)).getD []).take canonicalLen
        let sealedWitnesses := (evidence.snapshots.zip cut).filter fun pair =>
          pair.2.finalized && pair.1.bytes.length = canonicalLen && pair.2.bytes = bytes
        .ok (.nonEmpty
          { canonical := ⟨bytes, recordEnds⟩
            crc32c := crc bytes
            hadDiscardedSuffix := hadDiscardedSuffix
            sealedWitnesses := sealedWitnesses.map fun pair => ⟨pair.2.zone, pair.2.generation⟩ })

/-- The committed prefix is empty: find or create a quorum of empty copies. -/
def recoverEmpty (config : ClientConfig) (observations : Fin n → Option Observation) :
    ReplicaProg n (Except ProtocolError RecoveryCandidate) :=
  let emptyWitnesses := (collect observations).countP (·.isEmptyCopy)
  let tokens := collect fun zone =>
    ((observations zone).bind Observation.token?).filter (·.persistedSize = 0)
  let decide (emptyWitnesses : Nat) (tokens : List AppendToken) :
      Except ProtocolError RecoveryCandidate :=
    if emptyWitnesses < majority n then .error .noQuorum
    else .ok (.empty (if tokens.length = n then some tokens else none))
  if tokens.length < majority n then
    (Prog.joinAll fun zone =>
      if (observations zone).any Observation.isMissing then
        (createSessionWithRetry config zone protocolMetadata).bind fun created =>
          .ret created.toOption
      else .ret none).bind fun creates =>
    let created := collect creates
    .ret (decide (emptyWitnesses + created.length) (tokens ++ created))
  else .ret (decide emptyWitnesses tokens)

/-- Freeze and read the live copies, and select the canonical prefix. -/
def recoverNonEmpty (crc : Bytes → Nat) (config : ClientConfig) (expectedRecords : Option Nat)
    (observations : Fin n → Option Observation) (committedSize maxObservedSize : Nat) :
    ReplicaProg n (Except ProtocolError RecoveryCandidate) :=
  let finalized := collect fun zone => (observations zone).bind Observation.snapshot?
  let placeholders := collect fun zone =>
    if (observations zone).any Observation.isMissing then
      some (missingPlaceholder crc zone) else none
  (Prog.joinAll fun zone =>
    match (observations zone).bind Observation.token? with
    | none => .ret false
    | some token => (finalizeWithRetry config zone token token.persistedSize config.maxRetries).bind
        fun frozen => .ret frozen.isOk).bind fun frozen =>
  if ((List.finRange n).countP fun zone => frozen zone) + finalized.length + placeholders.length <
      majority n then .ret (.error .noQuorum)
  else
    (Prog.joinAll fun zone =>
      if frozen zone then (snapshotWithRetry config zone).bind fun read =>
        .ret (read.toOption.filter fun snapshot => validFormat snapshot.metadata)
      else .ret none).bind fun reads =>
    .ret (decideCandidate crc (majority n) committedSize maxObservedSize expectedRecords
      ⟨finalized ++ collect reads, placeholders⟩)

/-- Fence before observing size, then recover the committed record prefix. -/
def recoverCandidate (crc : Bytes → Nat) (config : ClientConfig) (expectedRecords : Option Nat) :
    ReplicaProg n (Except ProtocolError RecoveryCandidate) :=
  (Prog.joinAll (observeZone config)).bind fun attempts =>
  match fatalError attempts with
  | some error => .ret (.error error)
  | none =>
    let observations := fun zone => (attempts zone).toOption
    let observed := collect observations
    let sizes := observed.map Observation.size
    if observed.length < majority n then .ret (.error .noQuorum)
    else if observed.all Observation.isMissing then .ret (.ok .absent)
    else match selectRecoverySize sizes n with
      | none => .ret (.error .noQuorum)  -- the source unwraps; a majority always selects a size
      | some 0 => recoverEmpty config observations
      | some (committedSize + 1) =>
        recoverNonEmpty crc config expectedRecords observations (committedSize + 1)
          (sizes.max?.getD 0)

/-- Recovery of a segment that must hold records. -/
def recoverForSeal (crc : Bytes → Nat) (config : ClientConfig) (expectedRecords : Option Nat) :
    ReplicaProg n (Except ProtocolError RecoveredTail) :=
  (recoverCandidate crc config expectedRecords).bind fun
  | .error error => .ret (.error error)
  | .ok (.nonEmpty tail) => .ret (.ok tail)
  | .ok _ => .ret (.error (.recoveryPrefixTooShort (expectedRecords.getD 1) 0))

end Chorus
