import Chorus.SlateDb.Coordination

/-!
# The SlateDB adapter

The adapter of one process: the writer with its observer, the coordinator with the engine, and the
progress that they share. The engine, the callers, the coordinator, the completion task, the
publishers and the drainer of the observer's events take their steps in any order. A select lets any
ready branch win, so the runs include those of the biased select in the source.

The last fields are a log: the batches that the engine has admitted, in order; what was committed
when the first failure was recorded; and whether the observer was closed by a publisher.
-/

namespace Chorus.SlateDb

structure Adapter (n : Nat) where
  engine : Engine n
  coordinator : Coordinator
  writer : Writer
  progress : Progress
  observer : Observer
  publishers : List Publisher
  barriers : List Barrier
  admissions : List AppendRequest
  failedAt : Option (Option Position)
  closedThroughProgress : Bool

namespace Adapter

variable {n : Nat}

/-- The adapter over an engine that continues behind the recovered records. -/
def init (engine : Engine n) : Adapter n where
  engine := engine
  coordinator := .start engine.nextSeqno
  writer := .new engine.nextSeqno
  progress := .default
  observer := .new engine.nextSeqno
  publishers := []
  barriers := []
  admissions := []
  failedAt := none
  closedThroughProgress := false

inductive Action (n : Nat) where
  | engine (action : Engine.Action n)
  -- the writer and its callers
  | replay (seq : UInt64)
  | replayed
  | append (rows : List RowEntry)
  | send
  | read
  | cancel
  | shutdown
  | forget
  | dropWriter
  -- the coordinator
  | receive
  | poll
  | admitted
  | discard
  | issueTicket
  | reply
  | collect (floor : Nat)
  | beginCollection
  | collected
  | stop
  | abortEngine
  | stopped
  | appendsClosed
  -- the completion task
  | resolve
  -- the observer
  | subscribe
  | close (error : WalError)
  | publish (i : Nat)
  | endForward (i : Nat)
  | pop
  | deliver
  | wake
  | barrier (walId : Nat)
  | pollBarrier (i : Nat)

/-! ## The shared progress -/

def setProgress (s : Adapter n) (progress : Progress) : Adapter n :=
  { s with
    progress := progress
    failedAt :=
      if s.progress.failure.isNone ∧ progress.failure.isSome then some progress.committed
      else s.failedAt }

/-- `Writer::fail`: the failure is published through the progress, once there is one. -/
def fail (s : Adapter n) (error : WalError) : Adapter n :=
  if s.writer.progressHeld then
    { s.setProgress (s.progress.fail error) with publishers := s.publishers ++ [⟨false, .read⟩] }
  else { s with observer := s.observer.close error }

/-- The completion task resolves the oldest ticket. -/
def resolve (s : Adapter n) : Option (Adapter n) :=
  match s.coordinator.tickets with
  | [] => none
  | (seqno, position) :: tickets => (s.engine.resolution seqno).map fun result =>
    { s with coordinator := { s.coordinator with tickets := tickets } }.setProgress
      (s.progress.completion position (result.map fun _ => seqno + 1))

/-! ## The writer -/

/-- The notification task is spawned with the first append. -/
def start (s : Adapter n) : Except WalError (Adapter n) :=
  match s.writer.handle with
  | .started => .ok s
  | .ready => .ok { s with
      writer := { s.writer with handle := .started, progressHeld := true }
      publishers := s.publishers ++ [⟨true, .read⟩] }
  | .replaying => .error (.adapter .replayFirst)
  | .gone => .error .closed

/-- `Writer::append` up to its first wait. -/
def append (s : Adapter n) (rows : List RowEntry) : Adapter n :=
  match s.writer.checkBatch s.observer rows with
  | .error error => s.fail error
  | .ok (payload, seq) =>
    match s.start with
    | .error error => s.fail error
    | .ok s =>
      match s.writer.request (s.publishers.any Publisher.receives) rows payload seq with
      | .error error => s.fail error
      | .ok request => { s with writer := s.writer.beginCall request }

/-- The call gets its turn at the append channel. -/
def send (s : Adapter n) : Option (Adapter n) :=
  match s.writer.call with
  | some ⟨request, .sending⟩ =>
    if s.coordinator.phase = .stopped then
      some ({ s with writer := { s.writer with call := none } }.fail .closed)
    else if s.coordinator.queued.isNone then some { s with
      writer := { s.writer with call := some ⟨request, .waiting⟩ }
      coordinator := { s.coordinator with queued := some request } }
    else none
  | _ => none

def read (s : Adapter n) : Option (Adapter n) :=
  match s.writer.call with
  | some ⟨request, .answered (.ok ())⟩ => some { s with
      writer := s.writer.recordAdmission request
      observer := s.observer.admitted request.position.totalRows }
  | some ⟨_, .answered (.error error)⟩ =>
    some ({ s with writer := { s.writer with call := none } }.fail error)
  | _ => none

/-- The caller drops the call, with the reply if it is there. -/
def cancel (s : Adapter n) : Option (Adapter n) :=
  match s.writer.call with
  | none => none
  | some _ =>
    let s' := { s with writer := { s.writer with call := none } }
    if s.writer.holdsAdmission then some (s'.setProgress (s'.progress.fail .closed)) else some s'

/-- `Writer::close` asks the coordinator to stop. -/
def shutdown (s : Adapter n) : Option (Adapter n) :=
  if s.writer.call.isNone then
    match s.writer.handle with
    | .ready | .started => some { s with
        writer := { s.writer with handle := .gone }
        coordinator := { s.coordinator with stopping := some false } }
    | _ => some s
  else none

/-- `Writer::close` gives up its progress. -/
def forget (s : Adapter n) : Option (Adapter n) :=
  if s.writer.call.isNone ∧ (s.writer.handle = .gone ∨ s.writer.handle = .replaying) then
    some { s with writer := { s.writer with handle := .gone, progressHeld := false } }
  else none

/-- The writer is dropped with its handle. -/
def dropWriter (s : Adapter n) : Option (Adapter n) :=
  if s.writer.call.isNone then
    let s := s.fail .closed
    some { s with
      writer := { s.writer with handle := .gone }
      coordinator := { s.coordinator with
        stopping := if s.writer.handle = .gone then s.coordinator.stopping else some true } }
  else none

/-! ## The coordinator -/

/-- Another branch of the select has won, and the future that waits for the engine is dropped. -/
def dropAdmission (s : Adapter n) : Adapter n :=
  { s with engine := { s.engine with admission := none } }

/-- Send a reply. If nobody waits for it, it is dropped, and with it the admission that it
carries. -/
def sendReply (s : Adapter n) (request : AppendRequest) (result : Except WalError Unit) :
    Adapter n :=
  if s.writer.awaits request then
    { s with writer := { s.writer with
        call := s.writer.call.map fun call => { call with stage := .answered result } } }
  else match result with
    | .ok () => s.setProgress (s.progress.fail .closed)
    | .error _ => s

/-- The reply channels of requests that are dropped read as closed. -/
def dropRequests (s : Adapter n) (requests : List AppendRequest) : Adapter n :=
  requests.foldl (fun s request => s.sendReply request (.error .closed)) s

/-- Poll `enqueue_append` with the pending request: it fails, or it waits for its permits. -/
def poll (config : WalEngineConfig) (s : Adapter n) : Option (Adapter n) :=
  match s.coordinator.phase, s.coordinator.pending, s.engine.admission with
  | .select, some request, none =>
    match s.engine.checkAppend config request.index ⟨request.bytes⟩ with
    | .error error => some { s with coordinator := { s.coordinator with
        pending := none
        phase := .admitted request (.error error) } }
    | .ok append => some { s with engine := { s.engine with admission := some append } }
  | _, _, _ => none

/-- `Event::Admitted`: the permits are there, and the engine takes the record unless it is
closed. -/
def admitted (s : Adapter n) : Option (Adapter n) :=
  match s.coordinator.phase, s.coordinator.pending, s.engine.admission with
  | .select, some request, some append =>
    let engine := s.engine.sendAppend append
    if s.engine.channelOpen then some { s with
      engine := engine
      coordinator := { s.coordinator with
        pending := none
        phase := .admitted request (.ok append.seqno) }
      admissions := s.admissions ++ [request] }
    else some { s with
      engine := engine
      coordinator := { s.coordinator with
        pending := none
        phase := .admitted request (.error .closed) } }
  | _, _, _ => none

/-- `Event::Cancel`: the caller of the pending request is gone. -/
def discard (s : Adapter n) : Option (Adapter n) :=
  match s.coordinator.phase, s.coordinator.pending with
  | .select, some request =>
    if s.writer.awaits request then none
    else some { s.dropAdmission with coordinator := { s.coordinator with pending := none } }
  | _, _ => none

def reply (s : Adapter n) : Option (Adapter n) :=
  match s.coordinator.phase with
  | .replying request result =>
    some ({ s with coordinator := { s.coordinator with phase := .select } }.sendReply
      request result)
  | _ => none

/-- `Event::Stop`: the engine is shut down or aborted. -/
def stop (s : Adapter n) : Option (Adapter n) :=
  match s.coordinator.phase, s.coordinator.stopping with
  | .select, some abort =>
    let s := s.dropAdmission
    some { s with
      engine := if abort then { s.engine with handleOpen := false }.stop else s.engine.sendShutdown
      coordinator := { s.coordinator with phase := .stopping } }
  | _, _ => none

/-- The shutdown of the engine has timed out. -/
def abortEngine (s : Adapter n) : Option (Adapter n) :=
  if s.coordinator.phase = .stopping then
    some { s with engine := { s.engine with handleOpen := false }.stop }
  else none

/-- The coordinator returns, and the requests that it holds are dropped. -/
def stopped (s : Adapter n) : Option (Adapter n) :=
  if s.coordinator.phase = .stopping then
    some ({ s with coordinator := { s.coordinator with
      phase := .stopped
      pending := none
      queued := none } }.dropRequests s.coordinator.requests)
  else none

/-- `Event::Append` without a request: nobody can send any more. -/
def appendsClosed (s : Adapter n) : Option (Adapter n) :=
  if s.coordinator.phase = .select ∧ s.coordinator.requests = [] ∧ s.writer.handle = .gone then
    some { s with
      engine := { s.engine with handleOpen := false }.stop
      coordinator := { s.coordinator with phase := .stopped } }
  else none

/-! ## The observer -/

def publish (s : Adapter n) (i : Nat) : Option (Adapter n) :=
  s.publishers[i]?.bind fun publisher =>
  (publisher.publish s.progress s.observer).map fun r =>
    { s with
      publishers := s.publishers.set i r.1
      observer := r.2
      closedThroughProgress := s.closedThroughProgress ||
        (s.observer.state.status.closedReason.isNone && r.2.state.status.closedReason.isSome) }

def step (crc : Bytes → Nat) (config : WalEngineConfig) (s : Adapter n) :
    Action n → Option (Adapter n)
  | .engine action =>
    if Engine.background action then
      (s.engine.step crc config action).map fun engine => { s with engine := engine }
    else none
  | .replay seq =>
    if s.writer.handle = .replaying then
      some { s with observer := s.observer.replayed seq } else none
  | .replayed =>
    if s.writer.handle = .replaying then
      some { s with writer := { s.writer with handle := .ready } }
    else none
  | .append rows => if s.writer.call.isNone then some (s.append rows) else none
  | .send => s.send
  | .read => s.read
  | .cancel => s.cancel
  | .shutdown => s.shutdown
  | .forget => s.forget
  | .dropWriter => s.dropWriter
  | .receive => (s.coordinator.receive s.progress).map fun c => { s with coordinator := c }
  | .poll => s.poll config
  | .admitted => s.admitted
  | .discard => s.discard
  | .issueTicket => s.coordinator.issueTicket.map fun c => { s with coordinator := c }
  | .reply => s.reply
  | .collect floor =>
    some { s with coordinator := { s.coordinator with
      collections := s.coordinator.collections ++ [floor] } }
  | .beginCollection => (s.coordinator.beginCollection s.progress).map fun c =>
      { s.dropAdmission with coordinator := c }
  | .collected => s.coordinator.collected.map fun c => { s.dropAdmission with coordinator := c }
  | .stop => s.stop
  | .abortEngine => s.abortEngine
  | .stopped => s.stopped
  | .appendsClosed => s.appendsClosed
  | .resolve => s.resolve
  | .subscribe => some { s with observer := s.observer.subscribe }
  | .close error => some { s with observer := s.observer.close error }
  | .publish i => s.publish i
  | .endForward i => (s.publishers[i]?.bind Publisher.endForward).map fun publisher =>
      { s with publishers := s.publishers.set i publisher }
  | .pop => s.observer.pop.map fun observer => { s with observer := observer }
  | .deliver => s.observer.deliver.map fun observer => { s with observer := observer }
  | .wake => s.observer.wake.map fun observer => { s with observer := observer }
  | .barrier walId => some { s with barriers := s.barriers ++ [s.observer.barrier walId] }
  | .pollBarrier i =>
    (s.barriers[i]?.bind fun barrier => barrier.poll s.observer).map fun barrier =>
      { s with barriers := s.barriers.set i barrier }

end Adapter

end Chorus.SlateDb
