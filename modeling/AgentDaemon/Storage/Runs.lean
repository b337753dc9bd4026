import AgentDaemon.Storage.Delegation
import Mathlib.Algebra.Ring.Int.Defs
import Mathlib.Algebra.Ring.Nat

/-!
The run operations of the store, one definition for each method of `RunStore`. A method is
one SQLite transaction: it returns its result with the new store, or an error, and then the
transaction is rolled back and the store is unchanged.
-/

namespace AgentDaemon.Storage

open Provider

/-- A prepared call: the call, its effect class, argument digest and replay flag. -/
structure PreparedCall where
  call : ToolCall
  effect : String
  digest : String
  replay : Bool
  deriving DecidableEq, Repr

/-- `i64::saturating_sub`. -/
def saturatingSub (a b : Int) : Int := max (-2 ^ 63) (min (2 ^ 63 - 1) (a - b))

namespace RunStore

/-! ## Column writes -/

def setRun (s : RunStore) (runId : RunId) (status : RunStatus) : RunStore :=
  { s with runs := s.runs.update (·.id = runId) ({ · with status := status }) }

/-- `UPDATE runs SET status=target WHERE id=runId AND status=source`. -/
def moveRun (s : RunStore) (runId : RunId) (source target : RunStatus) : RunStore :=
  { s with
    runs := s.runs.update (fun r => r.id = runId && r.status = source)
      ({ · with status := target }) }

/-- The number of rows that `moveRun` changes. -/
def runsIn (s : RunStore) (runId : RunId) (source : RunStatus) : Nat :=
  s.runs.count fun r => r.id = runId && r.status = source

def setTurn (s : RunStore) (runId : RunId) (status : RunStatus) : RunStore :=
  { s with turns := s.turns.update (·.runId = runId) ({ · with status := status }) }

def setQueued (s : RunStore) (runId : RunId) (status : RunStatus) : RunStore :=
  { s with queuedMessages :=
      s.queuedMessages.update (·.runId = runId) ({ · with status := status }) }

/-- `UPDATE queued_messages SET status=target WHERE run_id=runId AND status=source`. -/
def moveQueued (s : RunStore) (runId : RunId) (source target : RunStatus) : RunStore :=
  { s with
    queuedMessages := s.queuedMessages.update (fun q => q.runId = runId && q.status = source)
      ({ · with status := target }) }

/-- The verdict columns of a run, together with its turn and its queue item. -/
def setVerdict (s : RunStore) (runId : RunId) (status : RunStatus) (content : Option String)
    (error : Option (Int × String)) : RunStore :=
  let s := { s with runs := s.runs.update (·.id = runId) fun r =>
    { r with
      status := status
      content := content
      errorCode := error.map Prod.fst
      errorMessage := error.map Prod.snd } }
  (s.setTurn runId status).setQueued runId status

/-! ## Admission and the queue -/

/-- `admit_with_route`. -/
def admitWithRoute (s : RunStore) (sessionId : SessionId) (requestId : RequestId)
    (input : String) (mode : AdmissionMode) (route : Option RouteSnapshot) (now : Int) :
    Except RuntimeError (Admission × RunStore) :=
  match s.runs.rows.find? fun r => r.sessionId = sessionId ∧ r.requestId = requestId with
  | some stored =>
    if stored.input ≠ input then .error (.protocol "相同 request id 的输入内容不同")
    else .ok (.existing stored.record, s)
  | none =>
    if mode = .rejectIfBusy ∧
        s.runs.count (fun r => r.sessionId = sessionId && r.status.busy) ≠ 0 then
      .error (.protocol "session 忙碌")
    else do
      let sessions := (s.sessions.insert sessionId).getD s.sessions
      let (runId, s) ← { s with sessions }.enqueueRun sessionId requestId input route now
      match s.readRun runId with
      | none => .error (.internal "inserted run")
      | some run => .ok (.new run, s)

/-- The first queued message of the session that `runId` belongs to. -/
def queueHead (s : RunStore) (runId : RunId) : Option RunId :=
  let sessionId := (s.runs.find? runId).map Run.sessionId
  (s.queuedMessages.rows.find? fun q =>
    q.status = .queued ∧ some q.sessionId = sessionId).map QueuedMessage.runId

/-- The session of `runId` has a run that is running or waiting. -/
def sessionBusy (s : RunStore) (runId : RunId) : Bool :=
  let sessionId := (s.runs.find? runId).map Run.sessionId
  s.runs.count (fun r => some r.sessionId = sessionId && r.status.active) ≠ 0

/-- `try_start_queued`. `clock 0` is the start time of the wait measure, `clock 1` stamps the
delegation row. -/
def tryStartQueued (s : RunStore) (runId : RunId) (clock : Clock) :
    Except RuntimeError (Bool × RunStore) :=
  if s.queueHead runId ≠ some runId then .ok (false, s)
  else if s.sessionBusy runId then .ok (false, s)
  else
    let changed := s.runsIn runId .queued
    let s := s.moveRun runId .queued .running
    if changed = 1 then
      match s.runs.find? runId with
      | none => .error (.persistence .queryReturnedNoRows)
      | some run => do
        let (_, s) ← s.insertEvent runId "run_started"
          (.obj [("queue_wait_ms", .num (saturatingSub (clock 0) run.createdAtMs))])
        let s := (s.setTurn runId .running).setQueued runId .running
        return (true, { s with
          delegations := s.delegations.update (·.childRunId = runId) fun d =>
            { d with status := .running, startedAtMs := some (clock 1) } })
    else .ok (false, s)

/-- `remove_queued`. -/
def removeQueued (s : RunStore) (runId : RunId) (now : Int) :
    Except RuntimeError (Bool × RunStore) :=
  let changed := s.runsIn runId .queued
  let s := s.moveRun runId .queued .cancelled
  if changed = 1 then do
    let s := (s.setTurn runId .cancelled).moveQueued runId .queued .cancelled
    let (_, s) ← s.insertEvent runId "terminal" (.obj [("status", RunStatus.cancelled.toJson)])
    match s.readRun runId with
    | none => .error (.internal "cancelled run")
    | some cancelled =>
      let s ← s.markTerminalIn runId cancelled now
      return (true, s)
  else .ok (false, s)

/-- `recoverable_queued`: the queued runs, by creation time and then by rowid. -/
def recoverableQueued (s : RunStore) : List RunRecord :=
  ((s.runs.rows.filter fun r => r.status = .queued).mergeSort fun a b =>
    a.createdAtMs ≤ b.createdAtMs).map Run.record

/-! ## Tool receipts -/

/-- The row of a call that is about to run. -/
def preparedRow (runId : RunId) (round : Nat) (c : PreparedCall) : ToolExecution where
  runId := runId
  round := round
  callId := c.call.id
  name := c.call.name
  status := .prepared
  effect := c.effect
  argumentDigest := c.digest
  startedAtMs := none
  finishedAtMs := none
  outcome := none
  artifactRef := none
  safeToReplay := c.replay
  receipt := none

/-- `prepare_tool_batch`. -/
def prepareToolBatch (s : RunStore) (runId : RunId) (round : Nat) (calls : List PreparedCall) :
    Except RuntimeError (Unit × RunStore) :=
  match s.runs.find? runId with
  | none => .error (.persistence .queryReturnedNoRows)
  | some run =>
  if run.status ≠ .running then .error (.protocol "run 不在执行状态")
  else
  let used := s.toolExecutions.count fun t => t.runId = runId
  if (s.delegations.find? runId).any fun d =>
      (used : Int) + (calls.length : Int) > d.maxToolCalls then
    .error (.protocol "子 Agent 工具调用预算已耗尽")
  else do
  let toolExecutions ← calls.foldlM
    (fun tools c => constraint (tools.insert (preparedRow runId round c))) s.toolExecutions
  let (_, s) ← { s with toolExecutions }.insertEvent runId "tool_batch_prepared"
    (.obj [("round", .num round), ("calls", .arr (calls.map fun c : PreparedCall => .str c.call.id))])
  return ((), s)

/-- The update of `start_tool` and `finish_tool`: move one receipt on from status `source`. -/
def moveTool (s : RunStore) (runId : RunId) (round : Nat) (callId : String)
    (source : ToolStatus) (f : ToolExecution → ToolExecution)
    (hf : ∀ t, (f t).key = t.key) (message : String) : Except RuntimeError (Unit × RunStore) :=
  let p := fun t : ToolExecution => t.key = (runId, round, callId) && t.status = source
  if s.toolExecutions.count p ≠ 1 then .error (.protocol message)
  else .ok ((), { s with toolExecutions := s.toolExecutions.update p f hf })

def startTool (s : RunStore) (runId : RunId) (round : Nat) (callId : String) (now : Int) :
    Except RuntimeError (Unit × RunStore) :=
  s.moveTool runId round callId .prepared
    ({ · with status := .running, startedAtMs := some now }) (fun _ => rfl)
    "工具不是 prepared 状态"

def finishTool (s : RunStore) (runId : RunId) (round : Nat) (callId outcome : String)
    (artifactRef : Option String) (receipt : Json) (now : Int) :
    Except RuntimeError (Unit × RunStore) :=
  s.moveTool runId round callId .running
    ({ · with
      status := .terminal
      finishedAtMs := some now
      outcome := some outcome
      artifactRef := artifactRef
      receipt := some receipt }) (fun _ => rfl)
    "工具不是 running 状态"

/-- `finish_tool_batch`. -/
def finishToolBatch (s : RunStore) (runId : RunId) (round : Nat) :
    Except RuntimeError (Unit × RunStore) :=
  if s.toolExecutions.count
      (fun t => t.runId = runId && t.round = round && t.status ≠ .terminal) ≠ 0 then
    .error (.protocol "工具批次尚未全部完成")
  else do
    let (_, s) ← s.insertEvent runId "tool_batch_completed" (.obj [("round", .num round)])
    return ((), s)

/-! ## Events and interactions -/

/-- The interaction that an appended event opens, if any. -/
def approvalRequested (event : String) (data : Json) : Option InteractionId :=
  if event = "approval_required" then
    (data.get? "approval").bind fun approval => (approval.index "id").asStr?.map .mk
  else none

/-- `append_event`. The status write of an approval has no guard on the old status. -/
def appendEvent (s : RunStore) (runId : RunId) (event : String) (data : Json) :
    Except RuntimeError (Nat × RunStore) := do
  let (seq, s) ← s.insertEvent runId event data
  if event = "approval_required" then
    match data.get? "approval" with
    | none => return (seq, s)
    | some approval =>
      match (approval.index "id").asStr? with
      | none => throw (.protocol "approval id 缺失")
      | some id =>
        let prompt := (approval.index "prompt").asStr?.getD ""
        let interactions ← constraint (s.interactions.insert
          ⟨⟨id⟩, runId, "approval", .pending, 0, prompt, none, approval⟩)
        return (seq, { s with interactions }.setRun runId .waitingInteraction)
  else return (seq, s)

/-- `read_interaction_in`. -/
def readInteraction (s : RunStore) (id : InteractionId) : Option InteractionRecord :=
  (s.interactions.find? id).bind fun i =>
    (s.runs.find? i.runId).map fun r =>
      ⟨i.id, r.sessionId, i.runId, i.kind, i.status, i.revision, i.prompt, i.payload, i.response⟩

/-- The stored form of an answer. -/
def answerJson (approved : Bool) : Json := .obj [("approved", .bool approved)]

def answered (i : Interaction) (approved : Bool) : Interaction :=
  { i with
    status := if approved then .answered else .rejected
    response := some (answerJson approved)
    revision := i.revision + 1 }

def answerInteraction (s : RunStore) (id : InteractionId) (approved : Bool) : RunStore :=
  { s with
    interactions :=
      s.interactions.update (fun i => i.id = id && i.status = .pending) (answered · approved) }

def pendingInteractions (s : RunStore) (runId : RunId) : Nat :=
  s.interactions.count fun i => i.runId = runId && i.status = .pending

/-- `claim_interaction`. -/
def claimInteraction (s : RunStore) (id : InteractionId) (sessionId : SessionId) (runId : RunId)
    (revision : Int) (approved : Bool) : Except RuntimeError (InteractionRecord × RunStore) :=
  match s.readInteraction id with
  | none => .error (.protocol "interaction 不存在")
  | some current =>
  if current.sessionId ≠ sessionId ∨ current.ownerRunId ≠ runId then
    .error (.protocol "interaction owner 不匹配")
  else if current.status ≠ .pending then
    if (current.status = .answered ∨ current.status = .rejected) ∧
        current.response = some (answerJson approved) then .ok (current, s)
    else .error (.protocol "interaction 已解决或孤立，答案冲突")
  else if current.revision ≠ revision then .error (.protocol "interaction revision 冲突")
  else
  match s.runs.find? runId with
  | none => .error (.persistence .queryReturnedNoRows)
  | some run =>
  if run.status ≠ .waitingInteraction then .error (.protocol "interaction 的 run 已不在等待")
  else do
  let s := s.answerInteraction id approved
  let s := if s.pendingInteractions runId = 0 then s.moveRun runId .waitingInteraction .running
    else s
  let (_, s) ← s.insertEvent runId "interaction_resolved"
    (.obj [("interaction_id", .str id.val), ("approved", .bool approved),
      ("revision", .num (revision + 1))])
  match s.readInteraction id with
  | none => .error (.internal "claimed interaction")
  | some result => .ok (result, s)

/-! ## Ending a run -/

/-- `assistant_content`, when there is content. -/
def insertContent (s : RunStore) (runId : RunId) (data : Option Json) :
    Except RuntimeError RunStore :=
  match data with
  | none => .ok s
  | some data => Prod.snd <$> s.insertEvent runId "assistant_content" data

/-- The terminal status that `finish` records for a requested one: unresolved receipts, or
effects already started in a cancelled run, leave the outcome unknown. -/
def downgrade (s : RunStore) (runId : RunId) (status : RunStatus) : RunStatus :=
  let incompleteTools := s.toolExecutions.count fun t =>
    t.runId = runId && t.status ≠ .terminal
  let startedSideEffects := s.toolExecutions.count fun t =>
    t.runId = runId && t.effect ≠ "read" && (t.status = .running || t.status = .terminal)
  if incompleteTools > 0 ∨ (status = .cancelled ∧ startedSideEffects > 0) then
    .unknownAfterRestart
  else status

/-- The unanswered questions of an ended run. -/
def orphanPending (s : RunStore) (runId : RunId) : RunStore :=
  { s with
    interactions := s.interactions.update (fun i => i.runId = runId && i.status = .pending)
      fun i => { i with status := .orphaned, revision := i.revision + 1 } }

/-- `finish`. -/
def finish (s : RunStore) (runId : RunId) (status : RunStatus) (content : Option String)
    (error : Option (Int × String)) (now : Int) : Except RuntimeError (RunRecord × RunStore) :=
  if !status.terminal then .error (.protocol "finish 必须写入终态")
  else
  match s.readRun runId with
  | none => .error (.protocol "run 不存在")
  | some current =>
  if current.status.terminal then
    if current.status = status ∧ current.content = content ∧
        current.errorCode = error.map Prod.fst ∧
        current.errorMessage = error.map Prod.snd then .ok (current, s)
    else .error (.protocol ("run " ++ runId.val ++ " 终态冲突"))
  else do
  let status := s.downgrade runId status
  let content := if status = .completed then content else none
  let error := if status = .unknownAfterRestart then
      some (-32002, "工具执行结果未知，禁止自动重放")
    else error
  let s ← s.insertContent runId (content.map fun c => .obj [("content", .str c)])
  let providerErrorKind := if status = .failed then
      (s.providerAttempts.rows.reverse.find? fun a => a.runId = runId).bind
        ProviderAttempt.errorKind
    else none
  let (_, s) ← s.insertEvent runId "terminal"
    (.obj [("status", status.toJson), ("error_code", .ofOption .num (error.map Prod.fst)),
      ("error_message", .ofOption .str (error.map Prod.snd)),
      ("provider_error_kind", .ofOption ProviderErrorKind.toJson providerErrorKind)])
  let s := s.setVerdict runId status content error
  let s := s.orphanPending runId
  match s.readRun runId with
  | none => .error (.internal "run still exists")
  | some result =>
    let s ← s.markTerminalIn runId result now
    return (result, s)

/-- The error columns of a manual resolution. -/
def resolutionError : RunStatus → Option (Int × String)
  | .failed => some (-32003, "人工核验为失败")
  | .cancelled => some (-32800, "人工核验为取消")
  | _ => none

/-- `reconcile_unknown`. `digest` is the hexadecimal SHA-256 of the evidence, which the hash
crate computes; it only goes into the event data. -/
def reconcileUnknown (s : RunStore) (runId : RunId) (sessionId : SessionId)
    (expectedLastSeq : Nat) (status : RunStatus) (content : Option String)
    (evidence digest : String) (now : Int) : Except RuntimeError (RunRecord × RunStore) :=
  if ¬(status = .completed ∨ status = .failed ∨ status = .cancelled) ∨
      (trim evidence).length < 16 ∨ evidence.utf8ByteSize > 4096 ∨
      (status = .completed ∧ content.all fun c => c = "") then
    .error (.protocol "人工修复需要明确终态、内容和 16-4096 字节证据说明")
  else
  match s.readRun runId with
  | none => .error (.protocol "run 不存在")
  | some run =>
  if run.sessionId ≠ sessionId ∨ run.status ≠ .unknownAfterRestart ∨
      run.lastSeq ≠ expectedLastSeq then
    .error (.protocol "run owner、状态或事件序号冲突")
  else if (s.delegations.find? runId).any fun d => d.resultState ≠ .unconsumed then
    .error (.protocol "已领取的子 Agent 结果不能人工改写")
  else do
  let content := content.filter fun _ => status = .completed
  let s ← s.insertContent runId
    (content.map fun c => .obj [("content", .str c), ("manual", .bool true)])
  let (_, s) ← s.insertEvent runId "manual_resolution"
    (.obj [("from", .str "unknown_after_restart"), ("status", status.toJson),
      ("evidence_sha256", .str digest), ("evidence_note", .str evidence),
      ("previous_last_seq", .num expectedLastSeq)])
  let s := s.setVerdict runId status content (resolutionError status)
  match s.readRun runId with
  | none => .error (.internal "reconciled run")
  | some result =>
    let s ← s.markTerminalIn runId result now
    return (result, s)

/-- One iteration of the loop in `recover`. -/
def recoverRun (s : RunStore) (runId : RunId) (now : Int) : Except RuntimeError RunStore := do
  let (_, s) ← s.insertEvent runId "terminal"
    (.obj [("status", RunStatus.unknownAfterRestart.toJson)])
  let s := ((s.setRun runId .unknownAfterRestart).setTurn runId .unknownAfterRestart).setQueued
    runId .unknownAfterRestart
  match s.readRun runId with
  | none => throw (.internal "recovered run")
  | some unknown => s.markTerminalIn runId unknown now

/-- `recover`. `clock k` stamps the `k`-th recovered run. -/
def recover (s : RunStore) (clock : Clock) : Except RuntimeError (Nat × RunStore) := do
  let ids := (s.runs.rows.filter fun r => r.status.active).map Run.id
  let s ← ids.zipIdx.foldlM (fun s (runId, k) => s.recoverRun runId (clock k)) s
  let s : RunStore := { s with
    interactions := s.interactions.update
      (fun i => i.status = .pending &&
        (s.runs.find? i.runId).any fun r => r.status = .unknownAfterRestart)
      ({ · with status := .orphaned }) }
  return (ids.length, s)

/-! ## Provider attempts -/

/-- `start_provider_attempt`. -/
def startProviderAttempt (s : RunStore) (attempt : ProviderAttempt) :
    Except RuntimeError (Unit × RunStore) :=
  if attempt.status ≠ .started then .error (.protocol "attempt 初始状态必须为 started")
  else if (s.runs.find? attempt.runId).isNone then .error (.persistence .constraintViolation)
  else do
    let providerAttempts ← constraint (s.providerAttempts.insert attempt)
    let (_, s) ← { s with providerAttempts }.insertEvent attempt.runId "provider_attempt_started"
      (.obj [("attempt_id", .str attempt.attemptId), ("round", .num attempt.round),
        ("candidate_index", .num attempt.candidateIndex),
        ("profile_id", .str attempt.providerProfileId), ("model", .str attempt.model)])
    return ((), s)

/-- `finish_provider_attempt`. -/
def finishProviderAttempt (s : RunStore) (attempt : ProviderAttempt) :
    Except RuntimeError (Unit × RunStore) :=
  if attempt.status = .started then .error (.protocol "attempt 终态无效")
  else
  match s.providerAttempts.find? attempt.attemptId with
  | none => .error (.persistence .queryReturnedNoRows)
  | some previous =>
  if previous.status ≠ .started then
    if previous = attempt then .ok ((), s) else .error (.protocol "attempt 终态冲突")
  else if previous.runId ≠ attempt.runId ∨ previous.round ≠ attempt.round ∨
      previous.candidateIndex ≠ attempt.candidateIndex then
    .error (.protocol "attempt owner 冲突")
  else do
    let s : RunStore := { s with
      providerAttempts := s.providerAttempts.update
        (fun a => a.attemptId = attempt.attemptId && a.status = .started)
        (fun a => { attempt with attemptId := a.attemptId }) }
    let (_, s) ← s.insertEvent attempt.runId "provider_attempt_terminal"
      (.obj [("attempt_id", .str attempt.attemptId), ("status", attempt.status.toJson),
        ("error_kind", .ofOption ProviderErrorKind.toJson attempt.errorKind),
        ("retry_after_ms", .ofOption jsonNat attempt.retryAfterMs),
        ("stream_committed", .bool attempt.streamCommitted),
        ("first_event_at_ms", .ofOption .num attempt.firstEventAtMs),
        ("finished_at_ms", .ofOption .num attempt.finishedAtMs),
        ("usage", .ofOption ProviderUsage.toJson attempt.usage)])
    return ((), s)

/-- `events_after`: the page of events above `after`, oldest first. -/
def eventsAfter (s : RunStore) (runId : RunId) (after limit : Nat) : List StoredEvent :=
  (((s.events.rows.filter fun e => e.runId = runId && e.seq > after).mergeSort
    fun a b => a.seq ≤ b.seq).take (min limit 1000))

/-- `route_snapshot`. -/
def routeSnapshot (s : RunStore) (runId : RunId) : Option RouteSnapshot :=
  (s.runRoutes.find? runId).map RunRoute.snapshot

/-- `find_request`. -/
def findRequest (s : RunStore) (sessionId : SessionId) (requestId : RequestId) :
    Option RunRecord :=
  (s.runs.rows.find? fun r => r.sessionId = sessionId ∧ r.requestId = requestId).map Run.record

/-- `find_request_unique`. -/
def findRequestUnique (s : RunStore) (requestId : RequestId) :
    Except RuntimeError (Option RunRecord) :=
  match s.runs.rows.filter fun r => r.requestId = requestId with
  | [] => .ok none
  | [run] => .ok (some run.record)
  | _ => .error (.protocol "request_id 跨 session 不唯一；必须提供 session_id + run_id")

end RunStore

end AgentDaemon.Storage
