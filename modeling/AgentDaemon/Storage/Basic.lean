import AgentDaemon.Lib.Table
import AgentDaemon.Provider.Attempt

/-!
The data model of the run store: one row type for each SQLite table and the store as the
tuple of its tables. A text column with a closed set of values is an inductive type.
Columns that nothing reads back (`updated_at_ms`, `prepared_at_ms`, the creation times of
sessions and events) are left out. No statement of the store deletes a row, so the rows of
a table stand in `rowid` order.
-/

namespace AgentDaemon.Storage

open Provider

/-- SQLite failures that a statement can raise. -/
inductive SqlError where
  | queryReturnedNoRows | constraintViolation | ioFailure
  deriving DecidableEq, Repr

inductive RuntimeError where
  | cancelled
  | persistence (error : SqlError)
  | protocol (message : String)
  | internal (message : String)
  deriving DecidableEq, Repr

inductive RunStatus where
  | queued | running | waitingInteraction
  | completed | failed | cancelled | unknownAfterRestart
  deriving DecidableEq, Repr

namespace RunStatus

def asStr : RunStatus → String
  | queued => "queued"
  | running => "running"
  | waitingInteraction => "waiting_interaction"
  | completed => "completed"
  | failed => "failed"
  | cancelled => "cancelled"
  | unknownAfterRestart => "unknown_after_restart"

def terminal : RunStatus → Bool
  | completed | failed | cancelled | unknownAfterRestart => true
  | _ => false

/-- `status IN ('running','waiting_interaction')`. -/
def active : RunStatus → Bool
  | running | waitingInteraction => true
  | _ => false

/-- `status IN ('queued','running','waiting_interaction')`. -/
def busy (s : RunStatus) : Bool := s = queued || s.active

def toJson (s : RunStatus) : Json := .str s.asStr

@[simp] theorem busy_eq_not_terminal (s : RunStatus) : s.busy = !s.terminal := by
  cases s <;> rfl

end RunStatus

inductive InteractionStatus where
  | pending | answered | rejected | orphaned
  deriving DecidableEq, Repr

inductive ToolStatus where
  | prepared | running | terminal
  deriving DecidableEq, Repr

inductive ResultState where
  | unconsumed | reserved | delivered
  deriving DecidableEq, Repr

structure Run where
  rowid : Nat
  sessionId : SessionId
  requestId : RequestId
  status : RunStatus
  input : String
  lastSeq : Nat
  content : Option String
  errorCode : Option Int
  errorMessage : Option String
  createdAtMs : Int
  deriving DecidableEq, Repr

/-- The placeholder id `'pending'` never leaves the inserting transaction, so the id of a
stored run is always the one derived from its rowid. -/
def Run.id (r : Run) : RunId := runIdOf r.rowid

structure RunRecord where
  runId : RunId
  turnId : TurnId
  sessionId : SessionId
  requestId : RequestId
  status : RunStatus
  lastSeq : Nat
  content : Option String
  errorCode : Option Int
  errorMessage : Option String
  deriving DecidableEq, Repr

/-- The record that `read_run_in` builds from a row. -/
def Run.record (r : Run) : RunRecord where
  runId := r.id
  turnId := turnIdOf r.rowid
  sessionId := r.sessionId
  requestId := r.requestId
  status := r.status
  lastSeq := r.lastSeq
  content := r.content
  errorCode := r.errorCode
  errorMessage := r.errorMessage

structure Turn where
  id : TurnId
  runId : RunId
  status : RunStatus
  deriving DecidableEq, Repr

structure StoredEvent where
  runId : RunId
  seq : Nat
  event : String
  data : Json
  deriving DecidableEq, Repr

structure Interaction where
  id : InteractionId
  runId : RunId
  kind : String
  status : InteractionStatus
  revision : Int
  prompt : String
  response : Option Json
  payload : Json
  deriving DecidableEq, Repr

structure InteractionRecord where
  interactionId : InteractionId
  sessionId : SessionId
  ownerRunId : RunId
  kind : String
  status : InteractionStatus
  revision : Int
  prompt : String
  payload : Json
  response : Option Json
  deriving DecidableEq, Repr

structure QueuedMessage where
  sessionId : SessionId
  runId : RunId
  message : String
  status : RunStatus
  deriving DecidableEq, Repr

structure ToolExecution where
  runId : RunId
  round : Nat
  callId : String
  name : String
  status : ToolStatus
  effect : String
  argumentDigest : String
  startedAtMs : Option Int
  finishedAtMs : Option Int
  outcome : Option String
  artifactRef : Option String
  safeToReplay : Bool
  receipt : Option Json
  deriving DecidableEq, Repr

structure RunRoute where
  runId : RunId
  snapshot : RouteSnapshot
  deriving DecidableEq, Repr

structure Delegation where
  rootSessionId : SessionId
  rootRunId : RunId
  parentSessionId : SessionId
  parentRunId : RunId
  spawnKey : String
  childSessionId : SessionId
  childRunId : RunId
  depth : Int
  status : RunStatus
  createdAtMs : Int
  startedAtMs : Option Int
  finishedAtMs : Option Int
  tools : List String
  permissionMode : String
  route : Option RouteSnapshot
  cwd : String
  maxRounds : Int
  maxTokens : Int
  maxToolCalls : Int
  deadlineMs : Int
  terminal : Option Json
  resultState : ResultState
  reservationOwner : Option String
  revision : Int
  reservationReleasedAtMs : Option Int
  reservationExpiresAtMs : Option Int
  deriving DecidableEq, Repr

structure ToolCall where
  id : String
  name : String
  arguments : Json
  deriving DecidableEq, Repr

inductive Admission where
  | new (run : RunRecord)
  | existing (run : RunRecord)
  deriving DecidableEq, Repr

inductive AdmissionMode where
  | queue | rejectIfBusy
  deriving DecidableEq, Repr

/-- The successive readings of `now_ms()` inside one operation. They are arbitrary: a clock
may stand still or run backwards. -/
abbrev Clock := Nat → Int

def StoredEvent.key (e : StoredEvent) : RunId × Nat := (e.runId, e.seq)

def ToolExecution.key (t : ToolExecution) : RunId × Nat × String := (t.runId, t.round, t.callId)

/-- Each table is keyed by the unique column through which the operations address it. The
other unique columns (`runs(session_id, request_id_json)`, `delegations(parent_run_id,
spawn_key)`, `delegations(child_session_id)`) are guarded by a lookup or an insert in the
same transaction. -/
structure RunStore where
  sessions : Table (id : SessionId → SessionId)
  runs : Table Run.id
  turns : Table Turn.runId
  events : Table StoredEvent.key
  interactions : Table Interaction.id
  queuedMessages : Table QueuedMessage.runId
  toolExecutions : Table ToolExecution.key
  runRoutes : Table RunRoute.runId
  providerAttempts : Table ProviderAttempt.attemptId
  delegations : Table Delegation.childRunId

namespace RunStore

/-- A freshly migrated database. -/
def empty : RunStore :=
  ⟨.empty, .empty, .empty, .empty, .empty, .empty, .empty, .empty, .empty, .empty⟩

/-- `read_run_in`. -/
def readRun (s : RunStore) (runId : RunId) : Option RunRecord :=
  (s.runs.find? runId).map Run.record

/-- `last_insert_rowid` of the next inserted run: SQLite allocates `max(rowid) + 1`. -/
def nextRowid (s : RunStore) : Nat := (s.runs.rows.map Run.rowid).foldr max 0 + 1

/-- `insert_event`: append under the next sequence number of the run. -/
def insertEvent (s : RunStore) (runId : RunId) (event : String) (data : Json) :
    Except RuntimeError (Nat × RunStore) :=
  match s.runs.find? runId with
  | none => .error (.persistence .queryReturnedNoRows)
  | some run =>
    match s.events.insert ⟨runId, run.lastSeq + 1, event, data⟩ with
    | none => .error (.persistence .constraintViolation)
    | some events =>
      .ok (run.lastSeq + 1, { s with
        events := events
        runs := s.runs.update (·.id = runId) ({ · with lastSeq := run.lastSeq + 1 }) })

end RunStore

end AgentDaemon.Storage
