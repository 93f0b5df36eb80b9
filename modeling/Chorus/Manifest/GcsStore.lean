import Chorus.Manifest.Codec
import Chorus.Manifest.Register

/-!
# The manifest register as an object

`GcsManifestStore` keeps the register in the metadata of one object without contents, which is
created once and never deleted. Its metageneration is the version, and the preconditions of the
requests are the compare-and-swap.
-/

namespace Chorus

structure RegisterObject where
  metageneration : Nat
  metadata : RegisterMetadata

/-- The requests for the object. `writeObject` has the precondition that there is none,
`updateObject` names the metageneration it replaces. -/
inductive RegisterRequest where
  | getObject
  | writeObject (metadata : RegisterMetadata)
  | updateObject (metageneration : Nat) (metadata : RegisterMetadata)

/-- What a request leaves of the object, and its answer. -/
def RegisterRequest.perform (object : Option RegisterObject) :
    RegisterRequest → Option RegisterObject × Except TransportCode RegisterObject
  | .getObject => (object, object.elim (.error .notFound) .ok)
  | .writeObject metadata => match object with
    | none => (some ⟨1, metadata⟩, .ok ⟨1, metadata⟩)
    | some o => (some o, .error .failedPrecondition)
  | .updateObject metageneration metadata => match object with
    | none => (none, .error .notFound)
    | some o =>
      if o.metageneration = metageneration then
        (some ⟨metageneration + 1, metadata⟩, .ok ⟨metageneration + 1, metadata⟩)
      else (some o, .error .failedPrecondition)

/-- How the environment lets a request end. -/
inductive RequestOutcome where
  | answered
  | failed (code : TransportCode) (fate : RequestFate)

/-- The codes by which the service answers about the object. -/
def TransportCode.definite : TransportCode → Bool
  | .notFound | .alreadyExists | .failedPrecondition => true
  | _ => false

/-- The object, and the writes that are still on their way to it. -/
structure GcsRegister where
  object : Option RegisterObject
  inflight : List RegisterRequest

namespace GcsRegister

def apply (g : GcsRegister) (request : RegisterRequest) : GcsRegister :=
  { g with object := (request.perform g.object).1 }

def resolve (g : GcsRegister) : RegisterRequest → RequestFate → GcsRegister
  | .getObject, _ | _, .dropped => g
  | request, .applied => g.apply request
  | request, .delayed => { g with inflight := request :: g.inflight }

def send (g : GcsRegister) (request : RegisterRequest) :
    RequestOutcome → Option (GcsRegister × Except TransportCode RegisterObject)
  | .answered => some (g.apply request, (request.perform g.object).2)
  | .failed code fate => if code.definite then none else some (g.resolve request fate, .error code)

end GcsRegister

/-- The calls of `ManifestStore`, with the record whose encoding is written. -/
inductive StoreCall where
  | read
  | create (record : ManifestRecord)
  | update (version : Nat) (record : ManifestRecord)

/-- A version with its fields (`VersionedManifest`), or `none` for a register that was never
created. -/
abbrev StoreAnswer := Except ManifestStoreError (Option (Nat × RegisterMetadata))

def storeError : TransportCode → ManifestStoreError
  | .failedPrecondition => .conflict
  | .alreadyExists => .alreadyExists
  | code => if code.transient then .unavailable else .backend

/-- `create_register` has one precondition only. -/
def createRegisterError : TransportCode → TransportCode
  | .failedPrecondition => .alreadyExists
  | code => code

def StoreCall.request : StoreCall → RegisterRequest
  | .read => .getObject
  | .create record => .writeObject record.encode
  | .update version record => .updateObject version record.encode

/-- What `GcsManifestStore` makes of the answer to its request. -/
def StoreCall.answer : StoreCall → Except TransportCode RegisterObject → StoreAnswer
  | _, .ok object => .ok (some (object.metageneration, object.metadata))
  | .read, .error .notFound => .ok none
  | .create _, .error code => .error (storeError (createRegisterError code))
  | _, .error code => .error (storeError code)

abbrev StoreLog := List (StoreCall × StoreAnswer)

/-- A call by some author, or the arrival of a write that was on its way. -/
inductive RegisterAction (A Ω : Type) where
  | call (author : A) (call : StoreCall) (outcome : Ω)
  | deliver (k : Nat)

variable {A : Type}

def GcsRegister.step (s : GcsRegister × StoreLog) : RegisterAction A RequestOutcome →
    Option (GcsRegister × StoreLog)
  | .call _ call outcome => (s.1.send call.request outcome).map fun r =>
      (r.1, (call, call.answer r.2) :: s.2)
  | .deliver k => s.1.inflight[k]?.map fun request =>
      ({ s.1.apply request with inflight := s.1.inflight.eraseIdx k }, s.2)

/-! ## The same calls on the abstract register -/

namespace Store

def call (author : A) (s : Store A) (outcome : StoreOutcome) :
    StoreCall → Option (Store A × StoreAnswer)
  | .read => ((storeMachine author).exec s .read outcome).map fun r =>
      (r.1, r.2.map fun found => found.map fun d => (d.1, d.2.encode))
  | .create record => ((storeMachine author).exec s (.create record) outcome).map fun r =>
      (r.1, r.2.map fun version => some (version, record.encode))
  | .update version record =>
      ((storeMachine author).exec s (.update version record) outcome).map fun r =>
      (r.1, r.2.map fun version => some (version, record.encode))

def step (s : Store A × StoreLog) : RegisterAction A StoreOutcome → Option (Store A × StoreLog)
  | .call author call outcome => (s.1.call author outcome call).map fun r =>
      (r.1, (call, r.2) :: s.2)
  | .deliver k => s.1.inflight[k]?.map fun request =>
      ({ s.1.apply request with inflight := s.1.inflight.eraseIdx k }, s.2)

end Store

end Chorus
