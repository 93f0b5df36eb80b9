import Chorus.Engine.Rotation
import Chorus.SlateDb.Codec

/-!
# The durable progress of the SlateDB adapter

The adapter's tasks share one `Progress`: the position of the last committed batch and the first
failure. Once a failure is recorded, neither changes any more. WAL ids count from one: record `k`
has id `k + 1`, so the id of the last committed record is the number of committed records.
-/

namespace Chorus.SlateDb

inductive AdapterFault where
  | completionPosition
  | batchSequence
  | walIdsExhausted
  | notificationStopped
  | rowCount
  | replayFirst
  | batch (fault : BatchFault)
  deriving DecidableEq, Repr

def AdapterFault.text : AdapterFault → String
  | .completionPosition => "WAL completion position mismatch"
  | .batchSequence => "SlateDB batch sequence must increase"
  | .walIdsExhausted => "WAL ID space exhausted"
  | .notificationStopped => "WAL notification task stopped"
  | .rowCount => "WAL row count overflowed"
  | .replayFirst => "consume the complete SlateDB replay iterator first"
  | .batch fault => fault.text

/-- The errors that SlateDB sees (`slatedb::wal::WalError`). -/
inductive WalError where
  | fenced
  | closed
  | adapter (fault : AdapterFault)
  | internalError (error : Chorus.WalError)
  | dataError (error : Chorus.WalError)
  | unavailable (error : Chorus.WalError)
  deriving DecidableEq, Repr

/-- How an error of the engine is reported to SlateDB (`wal_error`). -/
def walError (error : Chorus.WalError) : WalError :=
  match error with
  | .closed => .closed
  | .outOfOrder .. | .sequenceExhausted | .recordTooLarge .. | .internal _ => .internalError error
  | .activeSegmentFull .. => .unavailable error
  | .protocol protocol =>
    match protocol with
    | .fenced _ => .fenced
    | .invalidManifest _ | .conflictingPrefix _ | .recoveryPrefixTooShort ..
    | .sealDigestMismatch .. | .sealCrc32cMismatch .. => .dataError error
    | _ => .unavailable error

structure Position where
  walId : Nat
  seq : UInt64
  totalRows : Nat
  deriving DecidableEq, Repr

structure Progress where
  committed : Option Position
  failure : Option WalError
  deriving DecidableEq, Repr

namespace Progress

def default : Progress := ⟨none, none⟩

/-- The first failure stays. -/
def fail (progress : Progress) (error : WalError) : Progress :=
  if progress.failure.isNone then { progress with failure := some error } else progress

/-- The completion of a batch; the receipt names the index behind its record. -/
def completion (progress : Progress) (position : Position) (result : Except Chorus.WalError Nat) :
    Progress :=
  if progress.failure.isSome then progress
  else match result with
    | .ok nextSeqno =>
      if nextSeqno = position.walId then { progress with committed := some position }
      else progress.fail (.adapter .completionPosition)
    | .error error => progress.fail (walError error)

/-- The number of records that are known to be committed. -/
def committedEnd (progress : Progress) (recoveredEnd : Nat) : Nat :=
  match progress.committed with
  | none => recoveredEnd
  | some position => max position.walId recoveredEnd

/-- The floor of a collection, lowered to what is known to be committed. -/
def clampFloor (progress : Progress) (recoveredEnd floor : Nat) : Nat :=
  min floor (progress.committedEnd recoveredEnd)

end Progress

end Chorus.SlateDb
