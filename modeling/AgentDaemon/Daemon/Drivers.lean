import AgentDaemon.Storage.Status

/-!
The tasks that drive runs: `handle_chat_send`, `cancel` with its cascade over sub-agents, the
critical sections of `spawn_subagent` and `resolve_interaction`, and the deadline timers. A
task stands between two calls of the store or two awaits, `DaemonState.next` lets one task do
its next stretch, so a list of actions is an interleaving. The answers of the environment (a
store call that fails, a provider that cannot be restored, what the engine returns) are part
of the action.
-/

namespace AgentDaemon.Storage

/-- Calls that a request of a client makes on its own. -/
def Op.isClient : Op → Bool
  | reconcileUnknown .. | reserveDelegationResult .. | releaseDelegationResult ..
  | deliverDelegationResult .. => true
  | _ => false

section

variable {op : Op} {id : RunId}

/-- The engine starts and ends no run, and is no restart. -/
theorem Op.engineRun_quiet (h : op.engineRun = some id) :
    (∀ clock, op ≠ .recover clock) ∧ op.starts = none ∧ ∀ k, ¬ op.Ends k := by
  cases op <;> first | exact ⟨nofun, rfl, fun _ e => e⟩ | cases h

/-- The engine asks for approvals on behalf of its own run. -/
theorem Op.approvalRun_of_engineRun {k : RunId} (h : op.engineRun = some id)
    (ha : op.approvalRun = some k) : k = id := by
  cases op with
  | appendEvent runId event data =>
    simp only [Op.approvalRun] at ha
    simp only [Op.engineRun, Option.some.injEq] at h
    split at ha
    · exact (Option.some.inj ha).symm.trans h
    · cases ha
  | _ => cases ha

end

end AgentDaemon.Storage

namespace AgentDaemon.Daemon

open Provider Storage Transition

def invalidParams : Int := -32602
def internalError : Int := -32603
def requestCancelled : Int := -32800
def requestConflict : Int := -32001

/-! ## Tasks -/

/-- What `run_turn_with_events_for_request` returns. -/
inductive EngineResult where
  | content (text : String)
  | cancelled
  | error (message : String)
  deriving DecidableEq, Repr

/-- Where `handle_chat_send` stands, from the admission of its run on. -/
inductive ChatStage where
  /-- A new run with a frozen route that is not in `frozen_routes` yet. -/
  | freezing
  | admitted
  /-- In the active map, about to notify the waiters. -/
  | registered
  | looping
  /-- The `Notified` future exists. -/
  | armed
  | trying
  | waiting
  /-- The token was found cancelled. -/
  | leaving
  | thawing
  | started
  | routing
  | routed
  /-- About to finish the run as failed with this error. -/
  | aborting (code : Int) (message : String)
  | running
  | committing (status : RunStatus) (content : Option String) (error : Option (Int × String))
  | committed
  /-- Out of the active map, about to notify the waiters. -/
  | deregistered
  /-- About to leave the active map without a notification. -/
  | failing
  | returned
  deriving DecidableEq, Repr

/-- A `handle_chat_send`, with its token and its `Notified` future. -/
structure Chat where
  key : ActiveKey
  runId : RunId
  delegated : Bool
  stage : ChatStage
  cancelled : Bool
  notified : Bool
  storageError : Option String
  deriving DecidableEq, Repr

structure CancelParams where
  requestId : Option RequestId
  runId : Option RunId
  sessionId : Option SessionId
  deriving DecidableEq, Repr

/-- An error text: a literal, or `error.to_string()` of a store error. -/
inductive ErrorText where
  | literal (s : String)
  | shown (e : RuntimeError)
  deriving DecidableEq, Repr

inductive CancelResult where
  | failed (code : Int) (message : ErrorText)
  /-- `请求不存在`: an answer without a `run_id`. -/
  | absent
  | found (cancelled : Bool) (runId : RunId)
  deriving DecidableEq, Repr

/-- Where `cancel` stands. The stages from `reading` to `signalling` hold the control lock. -/
inductive CancelStage where
  | locking
  | reading
  | removing (run : RunRecord)
  /-- The run was taken out of the queue, its driver is not told yet. -/
  | announcing (run : RunRecord)
  | waking (run : RunRecord)
  | rereading (run : RunRecord)
  | marking (run : RunRecord)
  /-- Holds the token of the driver `chat`. -/
  | signalling (run : RunRecord) (chat : Nat)
  | listing
  | returned (result : CancelResult)
  deriving DecidableEq, Repr

/-- A `cancel`. `params` belongs to the `cancel_one` under way, `root` is the answer of the
first one, `targets` are the descendants still to come. `timer` is the chat whose deadline
timer it is. -/
structure Cancel where
  params : CancelParams
  stage : CancelStage
  root : Option (Bool × RunId)
  targets : List (RunId × SessionId)
  timer : Option Nat
  deriving DecidableEq, Repr

/-- Who holds `control_lock`. -/
inductive Holder where
  | cancel (j : Nat)
  /-- `spawn_subagent` after its check of the parent. -/
  | spawn (request : DelegationRequest)
  /-- `resolve_interaction` whose answer was stored but not received. -/
  | resolve (runId : RunId)
  deriving DecidableEq, Repr

/-- `active` maps a request to the chat whose token and run the entry holds. -/
structure DaemonState where
  store : RunStore
  active : List (ActiveKey × Nat)
  frozen : List RunId
  chats : List Chat
  cancels : List Cancel
  control : Option Holder

/-- What the environment answers in one stretch of a task. -/
structure Env where
  /-- The store call of the stretch fails. -/
  fails : Bool := false
  clock : Clock := fun _ => 0
  /-- The frozen provider can be restored. -/
  restored : Bool := true
  /-- The capabilities of a sub-agent can be restored. -/
  capable : Bool := true
  result : EngineResult := .cancelled

inductive DaemonAction where
  /-- A `chat.send` reaches its admission. -/
  | chat (key : ActiveKey) (message : String) (mode : AdmissionMode)
      (route : Option RouteSnapshot) (now : Int)
  | advance (i : Nat) (env : Env)
  /-- The engine of a running chat calls the store. -/
  | engine (i : Nat) (op : Op)
  /-- An event of a running chat cannot be stored. -/
  | storageError (i : Nat) (message : String)
  /-- The deadline timer of a chat fires. -/
  | expire (i : Nat)
  | cancel (params : CancelParams)
  | advanceCancel (j : Nat) (env : Env)
  /-- The timer of a chat that has returned is aborted at an await. -/
  | abortCancel (j : Nat)
  | spawnCheck (request : DelegationRequest)
  | spawnAdmit (env : Env)
  /-- An answer to an interaction is stored; `lost` when no one receives it. -/
  | answer (id : InteractionId) (sessionId : SessionId) (runId : RunId) (revision : Int)
      (approved lost : Bool)
  | resolveLost (env : Env)
  /-- A manual resolution or a result lease. -/
  | client (op : Op)

/-! ## What a task computes on its own -/

/-- A chat whose `Notified` future was created and not yet dropped. -/
def ChatStage.listening : ChatStage → Bool
  | .armed | .trying | .waiting => true
  | _ => false

/-- Where a chat goes on after its admission. -/
def admissionStage (route : Option RouteSnapshot) : Admission → ChatStage
  | .new _ => if route.isSome then .freezing else .admitted
  | .existing run => if run.status = .queued then .admitted else .returned

/-- The response of a turn: content, or code and message of an error. -/
def response (chat : Chat) (result : EngineResult) : Except (Int × String) String :=
  match chat.storageError, result with
  | some error, _ => .error (internalError, "持久化事件失败: " ++ error)
  | none, .content text =>
    if chat.cancelled then .error (requestCancelled, "请求已取消") else .ok text
  | none, .cancelled => .error (requestCancelled, "请求已取消")
  | none, .error message =>
    if chat.cancelled then .error (requestCancelled, "请求已取消")
    else .error (internalError, message)

/-- The outcome that a turn is about to commit. -/
def conclusion (chat : Chat) (result : EngineResult) : ChatStage :=
  match response chat result with
  | .ok text => .committing .completed (some text) none
  | .error (code, message) =>
    .committing (if code = requestCancelled then .cancelled else .failed) none
      (some (code, message))

/-- The run that `cancel_one` is about. -/
def CancelParams.find (p : CancelParams) (s : RunStore) : Except CancelResult RunRecord :=
  match p.runId, p.requestId with
  | some runId, _ =>
    match p.sessionId with
    | none => .error (.failed invalidParams (.literal "exact cancel 需要 session_id"))
    | some sessionId =>
      match s.readRun runId with
      | none => .error (.failed invalidParams (.literal "run 不存在"))
      | some run =>
        if run.sessionId ≠ sessionId then
          .error (.failed requestConflict (.literal "run 不属于指定 session"))
        else .ok run
  | none, some requestId =>
    match p.sessionId.elim (s.findRequestUnique requestId) fun sessionId =>
        .ok (s.findRequest sessionId requestId) with
    | .error e => .error (.failed requestConflict (.shown e))
    | .ok none => .error .absent
    | .ok (some run) => .ok run
  | none, none => .error (.failed invalidParams (.literal "需要 run_id 或 request_id"))

/-- The code under which a store error of the first read is reported. -/
def CancelParams.readError (p : CancelParams) : CancelResult :=
  .failed (if p.runId.isSome then internalError else requestConflict)
    (.shown (.persistence .ioFailure))

def ioError : CancelResult := .failed internalError (.shown (.persistence .ioFailure))

/-- The next `cancel_one` of the cascade, or the answer for the root. -/
def Cancel.proceed (c : Cancel) : Cancel :=
  match c.targets, c.root with
  | (runId, sessionId) :: rest, _ =>
    { c with params := ⟨none, some runId, some sessionId⟩, stage := .locking, targets := rest }
  | [], some (cancelled, runId) => { c with stage := .returned (.found cancelled runId) }
  | [], none => { c with stage := .returned .absent }

/-- The end of a `cancel_one`. In the cascade its answer is dropped. -/
def Cancel.close (c : Cancel) (result : CancelResult) : Cancel :=
  match c.root, result with
  | some _, _ => c.proceed
  | none, .found cancelled runId => { c with stage := .listing, root := some (cancelled, runId) }
  | none, result => { c with stage := .returned result }

/-- The awaits of `cancel` at which an aborted timer stops. -/
def CancelStage.abortable : CancelStage → Bool
  | .locking | .announcing _ | .marking _ => true
  | _ => false

/-- One pass of `cancel` over the rows of the tree: `owned` and `targets` grow together. -/
def sweep (rows : List DelegationRecord) (acc : List RunId × List (RunId × SessionId)) :
    List RunId × List (RunId × SessionId) :=
  rows.foldl (fun acc child =>
    if child.parentRunId ∈ acc.1 ∧ child.childRunId ∉ acc.1 then
      (acc.1 ++ [child.childRunId], acc.2 ++ [(child.childRunId, child.childSessionId)])
    else acc) acc

/-- The passes of `cancel`, until one adds nothing. -/
def collect (rows : List DelegationRecord) :
    Nat → List RunId × List (RunId × SessionId) → List RunId × List (RunId × SessionId)
  | 0, acc => acc
  | fuel + 1, acc =>
    let acc' := sweep rows acc
    if acc'.1.length = acc.1.length then acc' else collect rows fuel acc'

/-- The runs that `cancel` of `runId` goes on with. A pass adds one of the rows or is the
last, so `rows.length + 1` passes are enough. -/
def cascadeTargets (s : RunStore) (runId : RunId) :
    Except RuntimeError (List (RunId × SessionId)) :=
  let root := match s.readDelegation runId with
    | some record => record.rootRunId
    | none => runId
  (fun rows => (collect rows (rows.length + 1) ([runId], [])).2) <$> s.listDelegations root

/-- The row of this spawn key exists. -/
def spawned (s : RunStore) (request : DelegationRequest) : Bool :=
  s.delegations.rows.any fun r =>
    r.parentRunId = request.parentRunId && r.spawnKey = request.spawnKey

namespace DaemonState

/-- The start of the daemon: runs that were going are lost, queued ones are sent again. -/
def boot (s : RunStore) (clock : Clock) : Except RuntimeError DaemonState := do
  let (_, store) ← s.recover clock
  return ⟨store, [], [], [], [], none⟩

/-! ## `handle_chat_send` -/

variable (d : DaemonState)

def editChat (i : Nat) (f : Chat → Chat) : DaemonState := { d with chats := d.chats.modify i f }

def setStage (i : Nat) (stage : ChatStage) : DaemonState := d.editChat i ({ · with stage })

/-- `active.get(&key)`: the chat behind the entry. -/
def lookup (key : ActiveKey) : Option Nat := (d.active.find? fun e => e.1 = key).map Prod.snd

/-- `active.remove(&key)`. -/
def deregister (key : ActiveKey) : DaemonState :=
  { d with active := d.active.filter fun e => e.1 ≠ key }

/-- `queue_notify.notify_waiters()`. -/
def notifyWaiters : DaemonState :=
  { d with chats := d.chats.map fun c =>
    if c.stage.listening then { c with notified := true } else c }

/-- A delegated session takes requests of its own child run only. -/
def admits (key : ActiveKey) : Bool :=
  let delegated := d.store.delegations.rows.any fun r => r.childSessionId = key.sessionId
  !delegated || key.requestId = .string ("delegation:" ++ key.sessionId.val)

def newChat (key : ActiveKey) (message : String) (mode : AdmissionMode)
    (route : Option RouteSnapshot) (now : Int) : DaemonState :=
  if d.admits key then
    match d.store.admitWithRoute key.sessionId key.requestId message mode route now with
    | .error _ => d
    | .ok (admission, store) =>
      { d with
        store
        chats := d.chats ++ [{
          key
          runId := admission.record.runId
          delegated := d.store.delegations.rows.any fun r => r.childSessionId = key.sessionId
          stage := admissionStage route admission
          cancelled := false
          notified := false
          storageError := none }] }
  else d

/-- `active.insert` with a new token, unless the request is in flight already. -/
def register (i : Nat) (chat : Chat) : DaemonState :=
  if (d.lookup chat.key).isSome then d.setStage i .returned
  else { d with active := d.active ++ [(chat.key, i)] }.editChat i
    ({ · with stage := .registered, cancelled := false })

def tryStart (i : Nat) (chat : Chat) (env : Env) : DaemonState :=
  if env.fails then d.setStage i .failing
  else match d.store.tryStartQueued chat.runId env.clock with
    | .error _ => d.setStage i .failing
    | .ok (true, store) => { d with store }.setStage i .started
    | .ok (false, store) => { d with store }.setStage i .waiting

/-- The route frozen at the admission, taken out of `frozen_routes`. -/
def takeRoute (i : Nat) (chat : Chat) : DaemonState :=
  if chat.runId ∈ d.frozen then
    { d with frozen := d.frozen.filter (· ≠ chat.runId) }.setStage i .routed
  else d.setStage i .routing

/-- `route_snapshot`, and the provider restored from it. -/
def restoreRoute (i : Nat) (chat : Chat) (env : Env) : DaemonState :=
  if env.fails then d.setStage i .failing
  else match d.store.routeSnapshot chat.runId with
    | none => d.setStage i .routed
    | some _ =>
      if env.restored then d.setStage i .routed
      else d.setStage i (.aborting (-32002) "冻结 Provider 配置无法恢复")

/-- `for_delegation` on the engine of a sub-agent. -/
def restrict (i : Nat) (chat : Chat) (env : Env) : DaemonState :=
  if chat.delegated && !env.capable then
    d.setStage i (.aborting internalError "子 Agent 能力无法恢复")
  else d.setStage i .running

/-- `let _ = finish(..)`: the outcome is not looked at. -/
def finishIgnored (runId : RunId) (status : RunStatus) (code : Int) (message : String)
    (env : Env) : DaemonState :=
  if env.fails then d
  else { d with store := d.store.next (.finish runId status none (some (code, message))
    (env.clock 0)) }

def commit (i : Nat) (chat : Chat) (status : RunStatus) (content : Option String)
    (error : Option (Int × String)) (env : Env) : DaemonState :=
  if env.fails then d.setStage i .failing
  else match d.store.finish chat.runId status content error (env.clock 0) with
    | .error _ => d.setStage i .failing
    | .ok (_, store) => { d with store }.setStage i .committed

def advance (i : Nat) (chat : Chat) (env : Env) : DaemonState :=
  match chat.stage with
  | .freezing => { d with frozen := d.frozen ++ [chat.runId] }.setStage i .admitted
  | .admitted => d.register i chat
  | .registered => d.notifyWaiters.setStage i .looping
  | .looping => d.editChat i ({ · with stage := .armed, notified := false })
  | .armed => d.setStage i (if chat.cancelled then .leaving else .trying)
  | .trying => d.tryStart i chat env
  | .waiting => if chat.notified || chat.cancelled then d.setStage i .looping else d
  | .leaving => (d.deregister chat.key).setStage i .thawing
  | .thawing => { d with frozen := d.frozen.filter (· ≠ chat.runId) }.setStage i .returned
  | .started => d.takeRoute i chat
  | .routing => d.restoreRoute i chat env
  | .routed => d.restrict i chat env
  | .aborting code message =>
    (d.finishIgnored chat.runId .failed code message env).setStage i .failing
  | .running => d.setStage i (conclusion chat env.result)
  | .committing status content error => d.commit i chat status content error env
  | .committed => (d.deregister chat.key).setStage i .deregistered
  | .deregistered => d.notifyWaiters.setStage i .returned
  | .failing => (d.deregister chat.key).setStage i .returned
  | .returned => d

/-! ## `cancel` -/

def editCancel (j : Nat) (f : Cancel → Cancel) : DaemonState :=
  { d with cancels := d.cancels.modify j f }

def setCancel (j : Nat) (stage : CancelStage) : DaemonState := d.editCancel j ({ · with stage })

/-- A `cancel_one` returns and drops the control lock. -/
def closeCancel (j : Nat) (result : CancelResult) : DaemonState :=
  { d with control := none }.editCancel j (Cancel.close · result)

/-- What `cancel_one` does with a run it has read. -/
def dispatch (j : Nat) (run : RunRecord) : DaemonState :=
  if run.status.active then d.setCancel j (.marking run)
  else d.closeCancel j (.found false run.runId)

/-- The token of the driver of a run, when it is registered. -/
def tokenOf (key : ActiveKey) (runId : RunId) : Option Nat :=
  (d.lookup key).filter fun i => (d.chats[i]?).any fun chat => chat.runId = runId

/-- `cancellation.cancel()` on the token of a chat. -/
def signal (i : Nat) : DaemonState := d.editChat i ({ · with cancelled := true })

def advanceCancel (j : Nat) (c : Cancel) (env : Env) : DaemonState :=
  match c.stage with
  | .locking =>
    if d.control.isNone then { d with control := some (Holder.cancel j) }.setCancel j .reading else d
  | .reading =>
    if env.fails then d.closeCancel j c.params.readError
    else match c.params.find d.store with
      | .error result => d.closeCancel j result
      | .ok run => if run.status = .queued then d.setCancel j (.removing run) else d.dispatch j run
  | .removing run =>
    if env.fails then d.closeCancel j ioError
    else match d.store.removeQueued run.runId (env.clock 0) with
      | .error e => d.closeCancel j (.failed internalError (.shown e))
      | .ok (true, store) => { d with store }.setCancel j (.announcing run)
      | .ok (false, store) => { d with store }.setCancel j (.rereading run)
  | .announcing run =>
    match d.lookup run.key with
    | some i => (d.signal i).setCancel j (.waking run)
    | none => d.setCancel j (.waking run)
  | .waking run => d.notifyWaiters.closeCancel j (.found true run.runId)
  | .rereading run =>
    if env.fails then d.closeCancel j ioError
    else match d.store.readRun run.runId with
      | none => d.closeCancel j (.failed invalidParams (.literal "run 不存在"))
      | some run => d.dispatch j run
  | .marking run =>
    match d.tokenOf run.key run.runId with
    | some i => d.setCancel j (.signalling run i)
    | none => d.closeCancel j (.found false run.runId)
  | .signalling run i => (d.signal i).closeCancel j (.found true run.runId)
  | .listing =>
    match c.root with
    | none => d
    | some (_, runId) =>
      if env.fails then d.setCancel j (.returned ioError)
      else match cascadeTargets d.store runId with
        | .error e => d.setCancel j (.returned (.failed internalError (.shown e)))
        | .ok targets => d.editCancel j fun c => Cancel.proceed { c with targets }
  | .returned _ => d

/-- An aborted task drops its lock. -/
def abortCancel (j : Nat) (c : Cancel) : DaemonState :=
  let gone := c.timer.any fun i => (d.chats[i]?).any fun chat => chat.stage = .returned
  if gone && c.stage.abortable then
    { d with control := if d.control = some (Holder.cancel j) then none else d.control }.setCancel j
      (.returned .absent)
  else d

/-! ## The other users of the control lock -/

/-- `spawn_subagent` takes the lock: a new child needs a parent that is registered and not
cancelled. -/
def spawnCheck (request : DelegationRequest) : DaemonState :=
  match d.store.readRun request.parentRunId with
  | none => d
  | some parent =>
    if parent.sessionId ≠ request.parentSessionId || d.control.isSome then d
    else
      let live := (d.tokenOf parent.key parent.runId).any fun i =>
        (d.chats[i]?).any fun chat => !chat.cancelled
      if spawned d.store request || live then { d with control := some (Holder.spawn request) } else d

def spawnAdmit (env : Env) : DaemonState :=
  match d.control with
  | some (.spawn request) =>
    { d with
      store := if env.fails then d.store else d.store.next (.admitDelegation request env.clock)
      control := none }
  | _ => d

/-- `resolve_interaction` up to the answer in the store. Only the answer to a pending question
goes through the broker, where it can be lost. -/
def answer (id : InteractionId) (sessionId : SessionId) (runId : RunId) (revision : Int)
    (approved lost : Bool) : DaemonState :=
  if d.control.isSome then d
  else match d.store.claimInteraction id sessionId runId revision approved with
    | .error _ => d
    | .ok (_, store) =>
      let pending := (d.store.readInteraction id).any fun current => current.status = .pending
      { d with store, control := if lost && pending then some (.resolve runId) else none }

/-- No one receives the answer: the run is given up. -/
def resolveLost (env : Env) : DaemonState :=
  match d.control with
  | some (.resolve runId) =>
    { d.finishIgnored runId .unknownAfterRestart (-32002) "审批执行体已消失" env with
      control := none }
  | _ => d

/-- A chat does something in one of its stages. -/
def withChat (i : Nat) (f : Chat → DaemonState) : DaemonState :=
  match d.chats[i]? with
  | none => d
  | some chat => f chat

def withCancel (j : Nat) (f : Cancel → DaemonState) : DaemonState :=
  match d.cancels[j]? with
  | none => d
  | some c => f c

def engine (chat : Chat) (op : Op) : DaemonState :=
  if chat.stage = .running ∧ op.engineRun = some chat.runId then
    { d with store := d.store.next op }
  else d

/-- `publish_update` on an event that cannot be stored: the turn is cancelled. -/
def storageError (i : Nat) (chat : Chat) (message : String) : DaemonState :=
  if chat.stage = .running then
    d.editChat i ({ · with storageError := some message, cancelled := true })
  else d

def openCancel (params : CancelParams) (timer : Option Nat) : DaemonState :=
  { d with cancels := d.cancels ++ [⟨params, .locking, none, [], timer⟩] }

/-- The state after an action; an action that is not possible changes nothing. -/
def next : DaemonAction → DaemonState
  | .chat key message mode route now => d.newChat key message mode route now
  | .advance i env => d.withChat i fun chat => d.advance i chat env
  | .engine i op => d.withChat i fun chat => d.engine chat op
  | .storageError i message => d.withChat i fun chat => d.storageError i chat message
  | .expire i => d.withChat i fun chat =>
    if chat.delegated then
      d.openCancel ⟨none, some chat.runId, some chat.key.sessionId⟩ (some i)
    else d
  | .cancel params => d.openCancel params none
  | .advanceCancel j env => d.withCancel j fun c => d.advanceCancel j c env
  | .abortCancel j => d.withCancel j fun c => d.abortCancel j c
  | .spawnCheck request => d.spawnCheck request
  | .spawnAdmit env => d.spawnAdmit env
  | .answer id sessionId runId revision approved lost =>
    d.answer id sessionId runId revision approved lost
  | .resolveLost env => d.resolveLost env
  | .client op => if op.isClient then { d with store := d.store.next op } else d

end DaemonState

end AgentDaemon.Daemon
