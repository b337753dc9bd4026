import AgentDaemon.Daemon.Drivers
import AgentDaemon.Daemon.Feed

/-!
`resolve_interaction` among the tasks that it meets: the engine that asks for approvals, the driver
that stores its frames, cancellations, and every other call of the store. The map of the broker
stays locked from the claim of an answer to its delivery, while the requester can be dropped and
the store can be written in between, so a claim and its delivery are two steps.
-/

namespace AgentDaemon.Daemon.Resolving

open Storage Transition

/-! ## The requesters -/

/-- Where the engine of a run stands. `execute_in_waves` runs calls side by side only if they are
read-only, and no read-only tool asks for an approval, so one request of a run is open at a time. -/
inductive Engine where
  | working
  | asking (k : Nat)
  /-- The turn has returned or was dropped. -/
  | ended
  deriving DecidableEq, Repr

/-- `handle_chat_send` from the start of its run on. -/
structure Driver where
  key : ActiveKey
  runId : RunId
  engine : Engine
  /-- The requests whose frames went into `approval_events`. -/
  frames : List Nat
  /-- How many of these frames `approval_receiver` has given out. -/
  received : Nat
  deriving DecidableEq, Repr

/-- The next stretch of `ApprovalBroker::request`. Its frame can always be sent: the driver drops
the receiver after the engine. -/
def requestStep (k : Nat) : Stage → Option Action
  | .created => some (.register k)
  | .registered => some (.sendFrame k true)
  | .waiting => some (.poll k)
  | .unsent | .orphaned => some (.unregister k)
  | .returned _ | .dropped => none

/-- The stretch locks the pending map. -/
def locksPending : Stage → Bool
  | .created | .unsent | .orphaned => true
  | _ => false

/-- The stretch sends the frame. -/
def sendsFrame : Stage → Bool
  | .registered => true
  | _ => false

def done : Stage → Bool
  | .returned _ => true
  | _ => false

/-- The frame was sent, or the request will not send it any more. -/
def pastSending : Stage → Bool
  | .created | .registered => false
  | _ => true

/-! ## `resolve_interaction` -/

structure ApprovalRespondParams where
  approvalId : InteractionId
  approved : Option Bool
  sessionId : Option SessionId
  ownerRunId : Option RunId
  revision : Option Int
  deriving DecidableEq, Repr

inductive ResolveResult where
  | accepted (interaction : InteractionRecord)
  | failed (code : Int) (message : ErrorText)
  deriving DecidableEq, Repr

inductive ResolveStage where
  | locking
  | reading
  /-- The interaction was pending: `respond_claimed` is about to lock the pending map. -/
  | claiming (current : InteractionRecord)
  /-- The interaction was settled before: the claim only compares the answers. -/
  | repeating (current : InteractionRecord)
  /-- The claim is committed. Holds the lock of the pending map. -/
  | sending (record : InteractionRecord)
  /-- `respond_claimed` has failed: the interaction is read again. -/
  | checking (error : ErrorText)
  /-- The answer is stored and no one has it: the run is about to be finished as unknown. -/
  | finishing (runId : RunId) (error : ErrorText)
  | returned (result : ResolveResult)
  deriving DecidableEq, Repr

/-- Between the lock and the release of `control_lock`. -/
def ResolveStage.holds : ResolveStage → Bool
  | .locking | .returned _ => false
  | _ => true

def ResolveStage.isSending : ResolveStage → Bool
  | .sending _ => true
  | _ => false

structure Resolve where
  params : ApprovalRespondParams
  approved : Bool
  stage : ResolveStage
  deriving DecidableEq, Repr

/-- The owner that the caller names is not the owner of the interaction. -/
def ApprovalRespondParams.mismatch (p : ApprovalRespondParams) (current : InteractionRecord) :
    Bool :=
  p.sessionId.any (· ≠ current.sessionId) || p.ownerRunId.any (· ≠ current.ownerRunId)

/-- How `respond_claimed` fails where no requester is registered. -/
def noExecutor (id : InteractionId) : ErrorText := .literal ("审批执行体不存在: " ++ id.val)

/-- How `respond_claimed` fails where the requester is gone. -/
def executorGone (id : InteractionId) : ErrorText := .literal ("审批执行体已消失: " ++ id.val)

/-- The closure `claim`. -/
def Resolve.claim (r : Resolve) (current : InteractionRecord) (s : RunStore) :
    Except RuntimeError (InteractionRecord × RunStore) :=
  s.claimInteraction r.params.approvalId current.sessionId current.ownerRunId
    (r.params.revision.getD current.revision) r.approved

/-! ## The tasks together -/

/-- `control` is the `resolve_interaction` that holds `control_lock`. -/
structure ResolveState where
  broker : Broker
  drivers : List Driver
  resolves : List Resolve
  control : Option Nat

inductive ResolveAction where
  /-- A driver calls `try_start_queued` for its run. -/
  | start (key : ActiveKey) (runId : RunId) (clock : Clock)
  /-- A tool of driver `i` calls `ApprovalBroker::request`. -/
  | ask (i : Nat) (prompt : String) (pid nonce : Nat)
  | advanceRequest (i : Nat)
  /-- The turn returns, or it is dropped together with its request. -/
  | endTurn (i : Nat)
  /-- The driver receives a frame and publishes it. -/
  | receive (i : Nat)
  /-- The driver commits the end of its run. -/
  | finish (i : Nat) (status : RunStatus) (content : Option String) (error : Option (Int × String))
      (now : Int)
  /-- The task of the driver is aborted, and the frames that it has not received are lost. -/
  | abort (i : Nat)
  /-- `cancel_request_in_session`: under `control_lock` by `cancel_one`, without it at a shutdown. -/
  | cancel (sessionId : SessionId) (requestId : RequestId)
  | resolve (params : ApprovalRespondParams) (rejected : Bool)
  | advanceResolve (j : Nat) (now : Int)
  /-- Any other call of the store. -/
  | call (op : Op)

/-- The operation is left to `resolve_interaction`, to a driver or to a restart. -/
def reserved : Op → Bool
  | .claimInteraction .. | .recover _ => true
  | op => op.approvalRun.isSome

namespace ResolveState

/-- No task is left by the restart. -/
def boot (s : RunStore) (clock : Clock) : Except RuntimeError ResolveState := do
  let (_, store) ← s.recover clock
  return ⟨Broker.init store, [], [], none⟩

variable (d : ResolveState)

abbrev store : RunStore := d.broker.store

def withStore (store : RunStore) : ResolveState := { d with broker := { d.broker with store } }

def editDriver (i : Nat) (f : Driver → Driver) : ResolveState :=
  { d with drivers := d.drivers.modify i f }

/-- A `respond_claimed` holds the lock of the pending map. -/
def pendingLocked : Bool := d.resolves.any (·.stage.isSending)

def setStage (j : Nat) (stage : ResolveStage) : ResolveState :=
  { d with resolves := d.resolves.modify j ({ · with stage }) }

/-- The guard of `control_lock` is dropped. -/
def answer (j : Nat) (result : ResolveResult) : ResolveState :=
  { d.setStage j (.returned result) with control := none }

/-- The request of the engine takes a step, and the engine goes on when it has returned. -/
def advanceRequest (i : Nat) : ResolveState :=
  match d.drivers[i]? with
  | some ⟨_, _, .asking k, _, _⟩ =>
    match d.broker.requests[k]? with
    | none => d
    | some r =>
      match requestStep k r.stage with
      | none => d
      | some a =>
        if locksPending r.stage && d.pendingLocked then d
        else
          let broker := d.broker.next a
          let returned := broker.requests[k]?.any fun r => done r.stage
          { d with broker }.editDriver i fun c =>
            { c with
              engine := if returned then .working else c.engine
              frames := if sendsFrame r.stage then c.frames ++ [k] else c.frames }
  | _ => d

/-- The turn has ended; an aborted driver also drops the receiver. -/
def endTurn (i : Nat) (aborted : Bool) : ResolveState :=
  let stop (c : Driver) : Driver :=
    { c with engine := .ended, received := if aborted then c.frames.length else c.received }
  match d.drivers[i]? with
  | some ⟨_, _, .asking k, _, _⟩ => { d with broker := d.broker.drop k }.editDriver i stop
  | _ => d.editDriver i stop

/-- `publish_update` for an approval. -/
def receive (i : Nat) : ResolveState :=
  match d.drivers[i]? with
  | none => d
  | some c =>
    match c.frames[c.received]?.bind (d.broker.requests[·]?) with
    | none => d
    | some r =>
      (d.withStore (d.store.next (.appendEvent c.runId EventKind.approvalRequired.name
        (approvalData c.key c.runId r.info)))).editDriver i
          fun c => { c with received := c.received + 1 }

/-- The interaction as it is read again after a `respond_claimed` that has failed. -/
def recheck (j : Nat) (id : InteractionId) (error : ErrorText) : ResolveState :=
  match d.store.readInteraction id with
  | none => d.answer j (.failed requestConflict error)
  | some after =>
    if after.status = .answered ∨ after.status = .rejected then
      d.setStage j (.finishing after.ownerRunId error)
    else d.answer j (.failed requestConflict error)

/-- `pending.remove(..)` and `response.send(..)`. The entry is there since the map is locked. -/
def deliver (j : Nat) (r : Resolve) (record : InteractionRecord) : ResolveState :=
  let id := r.params.approvalId
  let delivered := ((d.broker.lookup id).bind (d.broker.requests[·.request]?)).any
    (·.stage.receiving)
  let d := { d with broker := d.broker.release id (Request.send r.approved) }
  if delivered then d.answer j (.accepted record)
  else d.setStage j (.checking (executorGone id))

def advanceResolve (j : Nat) (now : Int) : ResolveState :=
  match d.resolves[j]? with
  | none => d
  | some r =>
    let id := r.params.approvalId
    match r.stage with
    | .locking => if d.control = none then { d.setStage j .reading with control := some j } else d
    | .reading =>
      match d.store.readInteraction id with
      | none => d.answer j (.failed invalidParams (.literal "interaction 不存在"))
      | some current =>
        if r.params.mismatch current then
          d.answer j (.failed requestConflict (.literal "interaction owner 不匹配"))
        else
          d.setStage j (if current.status = .pending then .claiming current else .repeating current)
    | .claiming current =>
      if d.pendingLocked then d
      else if (d.broker.lookup id).isNone then
        d.setStage j (.checking (noExecutor id))
      else
        match r.claim current d.store with
        | .error e => d.setStage j (.checking (.shown e))
        | .ok (record, store) => (d.withStore store).setStage j (.sending record)
    | .repeating current =>
      match r.claim current d.store with
      | .error e => d.answer j (.failed requestConflict (.shown e))
      | .ok (record, store) => (d.withStore store).answer j (.accepted record)
    | .sending record => d.deliver j r record
    | .checking error => d.recheck j id error
    | .finishing runId error =>
      (d.withStore (d.store.next (.finish runId .unknownAfterRestart none
        (some (-32002, "审批执行体已消失")) now))).answer j (.failed requestConflict error)
    | .returned _ => d

def next : ResolveAction → ResolveState
  | .start key runId clock =>
    match d.store.tryStartQueued runId clock with
    | .error _ => d
    | .ok (false, store) => d.withStore store
    | .ok (true, store) =>
      { d.withStore store with drivers := d.drivers ++ [⟨key, runId, .working, [], 0⟩] }
  | .ask i prompt pid nonce =>
    match d.drivers[i]? with
    | some ⟨key, _, .working, _, _⟩ =>
      { d with
        broker := d.broker.request key.requestId (some key.sessionId) prompt pid nonce }.editDriver i
          ({ · with engine := .asking d.broker.requests.length })
    | _ => d
  | .advanceRequest i => d.advanceRequest i
  | .endTurn i => d.endTurn i false
  | .receive i => d.receive i
  | .finish i status content error now =>
    match d.drivers[i]? with
    | some ⟨_, runId, .ended, frames, received⟩ =>
      if frames.length ≤ received then
        d.withStore (d.store.next (.finish runId status content error now))
      else d
    | _ => d
  | .abort i => d.endTurn i true
  | .cancel sessionId requestId =>
    if d.pendingLocked then d
    else { d with broker := d.broker.cancelMatching sessionId requestId }
  | .resolve params rejected =>
    match if rejected then some false else params.approved with
    | none =>
      { d with
        resolves := d.resolves ++
          [⟨params, false, .returned (.failed invalidParams (.literal "缺少 approved"))⟩] }
    | some approved => { d with resolves := d.resolves ++ [⟨params, approved, .locking⟩] }
  | .advanceResolve j now => d.advanceResolve j now
  | .call op => if reserved op then d else d.withStore (d.store.next op)

end ResolveState

end AgentDaemon.Daemon.Resolving
