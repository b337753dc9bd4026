import AgentDaemon.Lib.Fallible
import AgentDaemon.Storage.Basic

/-!
Durable child-run ownership and result delivery: `admit_delegation`, the result lease
(`reserve`, `release`, `deliver`) and `mark_terminal_in`, which every operation that ends a
run calls for the delegation row of that run.
-/

namespace AgentDaemon.Storage

open Provider

def maxDepth : Int := 2
def maxRootSpawns : Nat := 8
def maxRootActive : Nat := 4

structure DelegationRequest where
  parentSessionId : SessionId
  parentRunId : RunId
  childSessionId : SessionId
  spawnKey : String
  task : String
  tools : List String
  permissionMode : String
  cwd : String
  maxRounds : Int
  maxTokens : Int
  maxToolCalls : Int
  deadlineMs : Int
  deriving DecidableEq, Repr

/-- A delegation row joined with the outcome columns of its child run. -/
structure DelegationRecord extends Delegation where
  content : Option String
  errorCode : Option Int
  errorMessage : Option String
  deriving DecidableEq, Repr

/-- The White_Space code points that `str::trim` removes. -/
def isWhitespace (c : Char) : Bool :=
  let n := c.toNat
  (9 ≤ n && n ≤ 13) || n = 32 || n = 0x85 || n = 0xA0 || n = 0x1680 ||
    (0x2000 ≤ n && n ≤ 0x200A) || n = 0x2028 || n = 0x2029 || n = 0x202F || n = 0x205F ||
    n = 0x3000

/-- `str::trim`, as the list of remaining characters. -/
def trim (s : String) : List Char :=
  ((s.toList.dropWhile isWhitespace).reverse.dropWhile isWhitespace).reverse

/-- A statement that may violate a constraint. -/
def constraint {α : Type} : Option α → Except RuntimeError α
  | none => .error (.persistence .constraintViolation)
  | some a => .ok a

/-- The lease has run out at `now`. -/
def leaseExpired (d : Delegation) (now : Int) : Bool :=
  d.reservationExpiresAtMs.any fun expires => expires ≤ now

/-- Take an expired lease back. -/
def Delegation.releaseExpired (now : Int) (d : Delegation) : Delegation :=
  { d with
    resultState := .unconsumed
    reservationOwner := none
    reservationExpiresAtMs := none
    reservationReleasedAtMs := some now
    revision := d.revision + 1 }

/-- Grant the lease to `owner` for thirty seconds. -/
def Delegation.grant (owner : String) (now : Int) (d : Delegation) : Delegation :=
  { d with
    resultState := .reserved
    reservationOwner := some owner
    reservationExpiresAtMs := some (now + 30000)
    revision := d.revision + 1 }

/-- Move a held lease on, to `unconsumed` or `delivered`. -/
def Delegation.settleLease (target : ResultState) (now : Int) (d : Delegation) : Delegation :=
  { d with
    resultState := target
    reservationOwner := if target = .delivered then d.reservationOwner else none
    reservationExpiresAtMs := none
    reservationReleasedAtMs := if target = .unconsumed then some now else d.reservationReleasedAtMs
    revision := d.revision + 1 }

namespace RunStore

/-- The route row of an admitted run, when it comes with a route. -/
def insertRoute (s : RunStore) (runId : RunId) (route : Option RouteSnapshot) :
    Except RuntimeError (Table RunRoute.runId) :=
  match route with
  | none => .ok s.runRoutes
  | some snapshot => constraint (s.runRoutes.insert ⟨runId, snapshot⟩)

/-- The inserts that `admit_with_route` and `admit_delegation` share: the run, its turn, its
route, the `user_message` event and the queue item. -/
def enqueueRun (s : RunStore) (sessionId : SessionId) (requestId : RequestId) (input : String)
    (route : Option RouteSnapshot) (now : Int) : Except RuntimeError (RunId × RunStore) := do
  let rowid := s.nextRowid
  let runId := runIdOf rowid
  let runs ← constraint
    (s.runs.insert ⟨rowid, sessionId, requestId, .queued, input, 0, none, none, none, now⟩)
  let turns ← constraint (s.turns.insert ⟨turnIdOf rowid, runId, .queued⟩)
  let runRoutes ← s.insertRoute runId route
  let (_, s) ← { s with runs, turns, runRoutes }.insertEvent runId "user_message"
    (.obj [("content", .str input)])
  let queuedMessages ← constraint (s.queuedMessages.insert ⟨sessionId, runId, input, .queued⟩)
  return (runId, { s with queuedMessages })

def readDelegation (s : RunStore) (childRunId : RunId) : Option DelegationRecord :=
  match s.delegations.find? childRunId, s.runs.find? childRunId with
  | some d, some r => some
    { d with content := r.content, errorCode := r.errorCode, errorMessage := r.errorMessage }
  | _, _ => none

/-- The outcome columns of a child's delegation row. -/
def closeDelegation (s : RunStore) (childRunId : RunId) (run : RunRecord) (now : Int) :
    RunStore :=
  { s with delegations := s.delegations.update (·.childRunId = childRunId) fun d =>
    { d with
      status := run.status
      finishedAtMs := some now
      terminal := some (.obj [("status", run.status.toJson),
        ("content", .ofOption .str run.content), ("error_code", .ofOption .num run.errorCode),
        ("error_message", .ofOption .str run.errorMessage)]) } }

/-- `mark_terminal_in`: record the end of a child run in its delegation row, and tell the
parent's log while the parent is still going. -/
def markTerminalIn (s : RunStore) (childRunId : RunId) (run : RunRecord) (now : Int) :
    Except RuntimeError RunStore :=
  match s.delegations.find? childRunId with
  | none => .ok s
  | some delegation =>
    let s := s.closeDelegation childRunId run now
    match s.readRun delegation.parentRunId with
    | none => .ok s
    | some parent =>
      if parent.status.terminal then .ok s
      else Prod.snd <$> s.insertEvent parent.runId "delegation_terminal"
        (.obj [("child_run_id", .str childRunId.val), ("status", run.status.toJson),
          ("summary", .str (String.ofList ((run.content.getD "").toList.take 512)))])

/-- Where a new child stands in its tree: under the root of its parent, one level deeper. -/
structure TreePosition where
  rootSessionId : SessionId
  rootRunId : RunId
  depth : Int
  deriving DecidableEq, Repr

def childPosition (s : RunStore) (parent : RunRecord) : TreePosition :=
  match s.delegations.find? parent.runId with
  | some ancestor => ⟨ancestor.rootSessionId, ancestor.rootRunId, ancestor.depth + 1⟩
  | none => ⟨parent.sessionId, parent.runId, 1⟩

/-- The row of a new child. -/
def newDelegation (request : DelegationRequest) (position : TreePosition) (childRunId : RunId)
    (route : Option RouteSnapshot) (now : Int) : Delegation where
  rootSessionId := position.rootSessionId
  rootRunId := position.rootRunId
  parentSessionId := request.parentSessionId
  parentRunId := request.parentRunId
  spawnKey := request.spawnKey
  childSessionId := request.childSessionId
  childRunId := childRunId
  depth := position.depth
  status := .queued
  createdAtMs := now
  startedAtMs := none
  finishedAtMs := none
  tools := request.tools
  permissionMode := request.permissionMode
  route := route
  cwd := request.cwd
  maxRounds := request.maxRounds
  maxTokens := request.maxTokens
  maxToolCalls := request.maxToolCalls
  deadlineMs := request.deadlineMs
  terminal := none
  resultState := .unconsumed
  reservationOwner := none
  revision := 0
  reservationReleasedAtMs := none
  reservationExpiresAtMs := none

/-- The inserts of `admit_delegation`, after its checks. -/
def enqueueChild (s : RunStore) (request : DelegationRequest) (position : TreePosition)
    (now : Int) : Except RuntimeError (DelegationRecord × RunStore) := do
  let route := (s.runRoutes.find? request.parentRunId).map RunRoute.snapshot
  let sessions ← constraint (s.sessions.insert request.childSessionId)
  let (childRunId, s) ← { s with sessions }.enqueueRun request.childSessionId
    (.string ("delegation:" ++ request.childSessionId.val)) request.task route now
  let delegations ← constraint
    (s.delegations.insert (newDelegation request position childRunId route now))
  let (_, s) ← { s with delegations }.insertEvent request.parentRunId "delegation_spawned"
    (.obj [("child_session_id", .str request.childSessionId.val),
      ("child_run_id", .str childRunId.val), ("depth", .num position.depth),
      ("status", .str "queued")])
  match s.readDelegation childRunId with
  | none => .error (.internal "new delegation")
  | some record => .ok (record, s)

/-- The row already stored for a spawn key, when it was spawned by an equal request. -/
def existingDelegation (s : RunStore) (request : DelegationRequest) (childRunId : RunId) :
    Except RuntimeError DelegationRecord :=
  match s.readDelegation childRunId, s.runs.find? childRunId with
  | some record, some child =>
    if child.input ≠ request.task ∨ record.tools ≠ request.tools ∨
        record.maxRounds ≠ request.maxRounds ∨ record.maxTokens ≠ request.maxTokens ∨
        record.maxToolCalls ≠ request.maxToolCalls then
      .error (.protocol "相同 spawn_key 的委派参数冲突")
    else .ok record
  | _, _ => .error (.internal "existing delegation")

/-- `admit_delegation`. `clock 0` is read by the deadline check, `clock 1` stamps the rows. -/
def admitDelegation (s : RunStore) (request : DelegationRequest) (clock : Clock) :
    Except RuntimeError (DelegationRecord × RunStore) :=
  if trim request.task = [] ∨ trim request.spawnKey = [] ∨ request.tools = [] ∨
      request.maxRounds ≤ 0 ∨ request.maxTokens ≤ 0 ∨ request.maxToolCalls ≤ 0 then
    .error (.protocol "子 Agent 参数或预算无效")
  else
  match s.readRun request.parentRunId with
  | none => .error (.protocol "父 run 不存在")
  | some parent =>
  if parent.sessionId ≠ request.parentSessionId then
    .error (.protocol "父 run 不属于指定 session")
  else
  match s.delegations.rows.find? fun d =>
      d.parentRunId = request.parentRunId ∧ d.spawnKey = request.spawnKey with
  | some duplicate => (·, s) <$> s.existingDelegation request duplicate.childRunId
  | none =>
  if !parent.status.active then .error (.protocol "父 run 状态不允许委派")
  else if request.deadlineMs ≤ clock 0 then .error (.protocol "子 Agent deadline 已过")
  else
  let position := s.childPosition parent
  if position.depth > maxDepth then .error (.protocol "子 Agent 深度上限为 2")
  else
  let total := s.delegations.count fun d => d.rootRunId = position.rootRunId
  let active := s.delegations.count fun d =>
    d.rootRunId = position.rootRunId && d.status.busy
  if total ≥ maxRootSpawns ∨ active ≥ maxRootActive then
    .error (.protocol "子 Agent 总量或并发上限已满")
  else s.enqueueChild request position (clock 1)

/-- Rewrite the delegation of a child and read it back. -/
def writeDelegation (s : RunStore) (childRunId : RunId) (f : Delegation → Delegation)
    (hf : ∀ d, (f d).childRunId = d.childRunId) :
    Except RuntimeError (DelegationRecord × RunStore) :=
  let s := { s with
    delegations := s.delegations.update (·.childRunId = childRunId) f hf }
  match s.readDelegation childRunId with
  | none => .error (.internal "delegation")
  | some record => .ok (record, s)

/-- `reserve_delegation_result`. `clock 0` is read by the repeat check, `clock 1` by the
expiry check, `clock 2` stamps the release and `clock 3` starts the new lease. -/
def reserveDelegationResult (s : RunStore) (childRunId : RunId) (owner : String)
    (revision : Int) (clock : Clock) : Except RuntimeError (DelegationRecord × RunStore) :=
  match s.readDelegation childRunId with
  | none => .error (.protocol "子 Agent 不存在")
  | some record =>
  if owner = "" then .error (.protocol "reservation owner 不能为空")
  else if record.reservationOwner = some owner ∧ (record.resultState = .delivered ∨
      record.resultState = .reserved ∧
        record.reservationExpiresAtMs.any fun expires => expires > clock 0) then
    .ok (record, s)
  else if !record.status.terminal || record.revision ≠ revision then
    .error (.protocol "结果尚未终态或 revision 冲突")
  else
  let expired := record.resultState = .reserved && leaseExpired record.toDelegation (clock 1)
  if !expired && record.resultState ≠ .unconsumed then
    .error (.protocol "结果已由其他 owner 领取")
  else
  -- Two updates in the source: an expired lease is first taken back, then granted anew.
  let release := if expired then Delegation.releaseExpired (clock 2) else id
  s.writeDelegation childRunId (fun d => (release d).grant owner (clock 3)) (by
    intro d
    simp only [release]
    split <;> rfl)

/-- `transition_result`. `clock 0` is read by the expiry check, `clock 1` stamps the release. -/
def transitionResult (s : RunStore) (childRunId : RunId) (owner : String) (revision : Int)
    (target : ResultState) (clock : Clock) : Except RuntimeError (DelegationRecord × RunStore) :=
  match s.readDelegation childRunId with
  | none => .error (.protocol "子 Agent 不存在")
  | some record =>
  if target = .delivered ∧ record.resultState = .delivered ∧
      record.reservationOwner = some owner then
    .ok (record, s)
  else if record.resultState ≠ .reserved ∨ record.reservationOwner ≠ some owner ∨
      record.revision ≠ revision ∨
      target = .delivered ∧ leaseExpired record.toDelegation (clock 0) then
    .error (.protocol "结果 reservation owner/revision 冲突")
  else s.writeDelegation childRunId (Delegation.settleLease target (clock 1)) (fun _ => rfl)

def releaseDelegationResult (s : RunStore) (childRunId : RunId) (owner : String)
    (revision : Int) (clock : Clock) : Except RuntimeError (DelegationRecord × RunStore) :=
  s.transitionResult childRunId owner revision .unconsumed clock

def deliverDelegationResult (s : RunStore) (childRunId : RunId) (owner : String)
    (revision : Int) (clock : Clock) : Except RuntimeError (DelegationRecord × RunStore) :=
  s.transitionResult childRunId owner revision .delivered clock

/-- `list_delegations`: the rows of one root in insertion order. -/
def listDelegations (s : RunStore) (rootRunId : RunId) : Except RuntimeError (List DelegationRecord) :=
  (s.delegations.rows.filter fun d => d.rootRunId = rootRunId).mapM fun d =>
    match s.readDelegation d.childRunId with
    | none => .error (.protocol "委派记录消失")
    | some record => .ok record

end RunStore

end AgentDaemon.Storage
