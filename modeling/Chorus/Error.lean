/-!
# Errors

The error values of the client: transport status codes with the two classifications the protocol
branches on, the errors of the manifest store, and `ProtocolError`. An error that carries a
formatted text in the source is a constructor with the data that goes into the text here, and
`ManifestFault.text` and `FenceReason.text` write the texts out.
-/

namespace Chorus

section Except

variable {ε α β : Type}

def failIf (c : Prop) [Decidable c] (error : ε) : Except ε Unit :=
  if c then .error error else .ok ()

@[simp]
theorem failIf_eq_ok {c : Prop} [Decidable c] {error : ε} {u : Unit} :
    failIf c error = .ok u ↔ ¬ c := by
  by_cases h : c <;> simp [failIf, h]

@[simp]
theorem failIf_eq_error {c : Prop} [Decidable c] {error error' : ε} :
    failIf c error = .error error' ↔ c ∧ error = error' := by
  by_cases h : c <;> simp [failIf, h]

theorem bind_eq_ok {x : Except ε α} {f : α → Except ε β} {b : β} :
    (x >>= f) = .ok b ↔ ∃ a, x = .ok a ∧ f a = .ok b := by
  cases x <;> simp [bind, Except.bind]

theorem bind_eq_error {x : Except ε α} {f : α → Except ε β} {e : ε} :
    (x >>= f) = .error e ↔ x = .error e ∨ ∃ a, x = .ok a ∧ f a = .error e := by
  cases x <;> simp [bind, Except.bind]

end Except

/-- Status codes of a replica operation (`TransportCode`). -/
inductive TransportCode where
  | notFound
  | alreadyExists
  | invalidArgument
  | failedPrecondition
  | aborted
  | outOfRange
  | resourceExhausted
  | unimplemented
  | dataLoss
  | ambiguous
  | unauthenticated
  | permissionDenied
  | unavailable
  | deadlineExceeded
  | internal
  deriving DecidableEq, Repr

/-- Codes after which an operation is retried as it is. -/
def TransportCode.transient : TransportCode → Bool
  | .resourceExhausted | .unavailable | .deadlineExceeded | .internal => true
  | _ => false

/-- Codes that tell a writer that its append stream was revoked. -/
def TransportCode.fencesWriter : TransportCode → Bool
  | .failedPrecondition | .aborted => true
  | _ => false

/-- A failed replica operation: the zone it was sent to and the status code. -/
structure TransportError where
  zone : Nat
  code : TransportCode
  deriving DecidableEq, Repr

def TransportCode.debug : TransportCode → String
  | .notFound => "NotFound"
  | .alreadyExists => "AlreadyExists"
  | .invalidArgument => "InvalidArgument"
  | .failedPrecondition => "FailedPrecondition"
  | .aborted => "Aborted"
  | .outOfRange => "OutOfRange"
  | .resourceExhausted => "ResourceExhausted"
  | .unimplemented => "Unimplemented"
  | .dataLoss => "DataLoss"
  | .ambiguous => "Ambiguous"
  | .unauthenticated => "Unauthenticated"
  | .permissionDenied => "PermissionDenied"
  | .unavailable => "Unavailable"
  | .deadlineExceeded => "DeadlineExceeded"
  | .internal => "Internal"

/-- The text of a transport error. The provider's diagnostic `message`, on which nothing in the
client depends, is not kept in the error. -/
def TransportError.text (error : TransportError) (message : String) : String :=
  s!"zone {error.zone}: {error.code.debug}: {message}"

inductive ManifestStoreError where
  /-- The register changed since the witnessed version. -/
  | conflict
  /-- A concurrent creator initialised the register first. -/
  | alreadyExists
  /-- Transient trouble; the operation may have been applied. -/
  | unavailable
  | backend
  deriving DecidableEq, Repr

inductive ManifestFault where
  | sealFieldsApart
  | tailIdMissing
  | basesNotIncreasing
  | entryPastTail (id : String) (base tailBase : Nat)
  | repeatedSegment (id : String)
  | tailCollides
  | invalidPending (id : String)
  | pendingIsTail
  | pendingCollides
  | sealMismatch (id : String) (base : Nat) (sealId : Option String) (sealBase : Option Nat)
  | bucketsEmpty
  | replicaCount (count : Nat)
  | invalidBucket (name : String)
  | repeatedBucket (name : String)
  deriving DecidableEq, Repr

/-- Lowercase hexadecimal with at least `width` digits (`{:0width$x}`). -/
def hex (width n : Nat) : String :=
  String.ofList ((Nat.toDigits 16 n).leftpad width '0')

private def debugOption (text : Option String) : String :=
  match text with
  | none => "None"
  | some value => s!"Some({value})"

def ManifestFault.text : ManifestFault → String
  | .sealFieldsApart => "seal_base and seal_digest must appear together"
  | .tailIdMissing => "chorus.tail_id must be present once chorus.epoch is nonzero"
  | .basesNotIncreasing => "chorus.segments bases must be strictly increasing"
  | .entryPastTail id base tailBase =>
      s!"chorus.segments entry {id} has base {base} at or past chorus.tail_base {tailBase}"
  | .repeatedSegment id => s!"chorus.segments repeats segment id {id}"
  | .tailCollides => "chorus.tail_id collides with a sealed segment id"
  | .invalidPending id => s!"invalid chorus.pending_id {id.quote}"
  | .pendingIsTail => "chorus.pending_id collides with chorus.tail_id"
  | .pendingCollides => "chorus.pending_id collides with a sealed segment id"
  | .sealMismatch id base sealId sealBase =>
      s!"chorus.segments ends with {id}:{base} but the seal record names " ++
        s!"{debugOption (sealId.map String.quote)}:{debugOption (sealBase.map toString)}"
  | .bucketsEmpty => "chorus.buckets must not be empty"
  | .replicaCount count =>
      s!"chorus.buckets has unsupported replica count {count}; expected 1, 3, or 5"
  | .invalidBucket name => s!"invalid bucket name {name.quote}"
  | .repeatedBucket name => s!"chorus.buckets repeats bucket {name}"

/-- The other reasons for which a manifest operation reports an invalid register. -/
inductive ManifestProblem where
  | record (fault : ManifestFault)
  /-- The register does not carry the supported format marker. -/
  | format
  | missing (key : String)
  | invalidField (key : String)
  | invalidEntry (part : String)
  | configuration (recorded configured : List String)
  | factoryCount (factories buckets : Nat)
  | epochOverflow
  | foldEndOverflow
  | foldChecksum (committed : Option Nat) (retry : Nat)
  | removalFloor (floor trunc : Nat)
  | removalEnd (id : String) (base : Nat)
  | removalLive (id : String) (segmentEnd floor : Nat)
  deriving DecidableEq, Repr

def ManifestProblem.text : ManifestProblem → String
  | .record fault => fault.text
  | .format => "manifest does not use chorus.format=1"
  | .missing key => s!"manifest lacks {key}"
  | .invalidField key => s!"invalid {key}"
  | .invalidEntry part => s!"invalid chorus.segments entry {part}"
  | .configuration recorded configured =>
      if recorded.length ≠ configured.length then
        s!"manifest records {recorded.length} zonal buckets but the volume is configured with " ++
          s!"{configured.length} replicas"
      else
        s!"manifest records buckets {repr recorded} but the volume is configured with " ++
          s!"{repr configured}"
  | .factoryCount factories buckets =>
      s!"volume has {factories} replica factories but {buckets} bucket identities"
  | .epochOverflow => "epoch overflowed u64"
  | .foldEndOverflow => "pending fold tail end overflowed u64"
  | .foldChecksum committed retry =>
      s!"committed fold checksum {debugOption (committed.map toString)} differs from retry " ++
        hex 8 retry
  | .removalFloor floor trunc =>
      s!"segment removal floor {floor} exceeds committed truncation floor {trunc}"
  | .removalEnd id base => s!"cannot derive an end for segment {id} at base {base}"
  | .removalLive id segmentEnd floor =>
      s!"cannot remove segment {id} ending at {segmentEnd} at truncation floor {floor}"

/-- Why a writer is told that another incarnation owns the log. -/
inductive FenceReason where
  | higherEpoch
  | noClaim
  | claimContention
  | pendingSlot (committed : String)
  | frontierMoved
  | foldMoved
  /-- A replica refused the append stream. -/
  | stream (error : TransportError)
  deriving DecidableEq, Repr

/-- The message a fence is reported with; `message` is the provider's, for `stream`. -/
def FenceReason.text (message : String) : FenceReason → String
  | .higherEpoch => "a higher epoch claimed the manifest"
  | .noClaim => "manifest mutation without a claim"
  | .claimContention => "manifest epoch claim did not converge under contention"
  | .pendingSlot committed => s!"pending segment slot already contains {committed}"
  | .frontierMoved => "manifest no longer matches the empty frontier"
  | .foldMoved => "manifest no longer matches the pending fold"
  | .stream error => error.text message

inductive ProtocolError where
  | replicaCount
  | noQuorum
  | poisoned
  | fenced (reason : FenceReason)
  | conflictingPrefix (recordIndex : Nat)
  | recoveryPrefixTooShort (expected actual : Nat)
  | sealDigestMismatch (expected actual : String)
  | sealCrc32cMismatch (expected actual : Nat)
  | invalidManifest (problem : ManifestProblem)
  | segmentDirectoryFull
  | manifestStore (error : ManifestStoreError)
  | manifestUnavailable
  | pipelineClosed
  | finalized
  | record
  | transport (error : TransportError)
  deriving DecidableEq, Repr

end Chorus
