import AgentDaemon.Daemon.Approval

/-!
Event subscription. `Feed` is one run with its driver, the approval broker, the broadcast
channel of the run and one subscriber; a step is one stretch of one of them between two awaits.
The subscriber takes its receiver, the run, the ids of the pending approvals and the stored
events at four different moments, replays the events and then follows the channel.
-/

namespace AgentDaemon.Daemon

open Storage Transition

inductive EventKind where
  | turnStarted | thinkingDelta | thinkingFinished | textDelta | toolStarted | toolFinished
  | approvalRequired | turnCompleted | delegationSpawned | delegationTerminal
  deriving DecidableEq, Repr

namespace EventKind

def name : EventKind → String
  | turnStarted => "turn_started"
  | thinkingDelta => "thinking_delta"
  | thinkingFinished => "thinking_finished"
  | textDelta => "text_delta"
  | toolStarted => "tool_started"
  | toolFinished => "tool_finished"
  | approvalRequired => "approval_required"
  | turnCompleted => "turn_completed"
  | delegationSpawned => "delegation_spawned"
  | delegationTerminal => "delegation_terminal"

def ofName? (s : String) : Option EventKind :=
  [turnStarted, thinkingDelta, thinkingFinished, textDelta, toolStarted, toolFinished,
    approvalRequired, turnCompleted, delegationSpawned, delegationTerminal].find? (·.name = s)

theorem name_of_ofName? {s : String} {kind : EventKind} (h : ofName? s = some kind) :
    kind.name = s := of_decide_eq_true (List.find?_some (p := fun k : EventKind => k.name = s) h)

end EventKind

/-- `ActiveRequestUpdate`. -/
inductive Update where
  | event (kind : EventKind) (data : Json) (runId : Option RunId) (seq : Option Nat)
  | terminal (result : Except (Int × String) Json)

def Update.seq? : Update → Option Nat
  | event _ _ _ seq => seq
  | terminal _ => none

def Update.isTerminal : Update → Bool
  | event .. => false
  | terminal _ => true

/-- `stored_event_update`. -/
def storedEventUpdate (e : StoredEvent) : Option Update :=
  let kind := if e.event = "assistant_content" then some .turnCompleted
    else EventKind.ofName? e.event
  kind.map fun kind => .event kind e.data (some e.runId) (some e.seq)

/-- `data["approval"]["id"]`. -/
def approvalOf (data : Json) : Option InteractionId :=
  ((data.index "approval").index "id").asStr?.map .mk

/-- `is_resolved_approval`. -/
def isResolvedApproval (pendingIds : List InteractionId) : Update → Bool
  | .event .approvalRequired data _ _ => (approvalOf data).any fun id => id ∉ pendingIds
  | _ => false

def PendingApprovalInfo.toJson (info : PendingApprovalInfo) : Json :=
  .obj [("id", .str info.id.val), ("prompt", .str info.prompt),
    ("request_id", info.requestId.toJson)]

/-- The data of an `approval_required` event as `publish_update` stores it. -/
def approvalData (key : ActiveKey) (runId : RunId) (info : PendingApprovalInfo) : Json :=
  .obj [("approval", info.toJson),
    ("interaction", .obj [("interaction_id", .str info.id.val), ("kind", .str "approval"),
      ("owner_run_id", .str runId.val), ("payload", info.toJson), ("revision", .num 0),
      ("session_id", .str key.sessionId.val), ("status", .str "pending")])]

/-- The driver of the run, as a publisher. -/
inductive Driver where
  | idle
  /-- The update is stored and not broadcast yet. -/
  | persisted (update : Update)
  /-- The active entry is removed, and the sender of the channel with it. -/
  | closed

/-- The ids of the pending approvals as the subscriber read them. `known` is no part of the
source: the approvals that had entered the broker by then, for the statements below. -/
structure Snapshot where
  pending : List InteractionId
  known : List InteractionId

/-- Where `handle_subscribe` stands. A receiver is its position in the broadcast history. -/
inductive ViewStage where
  | start
  | opened (receiver : Option Nat)
  | found (receiver : Option Nat) (run : RunRecord)
  | listed (receiver : Option Nat) (run : RunRecord) (ids : Snapshot)
  | replaying (receiver : Option Nat) (run : RunRecord) (ids : Snapshot)
      (rest : List StoredEvent)
  | live (position : Nat)
  | ended

/-- The subscriber. `skipped` keeps the stored events that the replay dropped as resolved, and
whether their approval was pending at that moment. -/
structure Viewer where
  after : Nat
  cursor : Nat
  stage : ViewStage
  sent : List Update
  skipped : List (StoredEvent × Bool)

structure Feed where
  broker : Broker
  /-- `approval_receiver` of the driver. -/
  queue : List PendingApprovalInfo
  driver : Driver
  /-- Everything broadcast so far. -/
  published : List Update
  viewer : Viewer

/-- Capacity of the broadcast channel. -/
def channelCapacity : Nat := 1024

inductive FeedAction where
  | broker (a : Action)
  /-- `publish_update` up to the store, for the next approval or another agent event. -/
  | takeApproval (fails : Bool)
  | takeEvent (kind : EventKind) (data : Json) (fails : Bool)
  /-- The rest of `publish_update`. -/
  | publish
  /-- `notify_delegation_parent` for a child of the run. -/
  | external (kind : EventKind) (data : Json)
  /-- `publish_committed_completion`. -/
  | complete (content : String)
  | terminal (result : Except (Int × String) Json)
  | close
  /-- The next stretch of the subscriber; `fails` is a store call or a frame that fails. -/
  | view (fails : Bool)

namespace Feed

/-- A run whose driver is registered, with a subscriber that wants the events above `after`. -/
def init (store : RunStore) (after : Nat) : Feed :=
  ⟨Broker.init store, [], .idle, [], ⟨after, after, .start, [], []⟩⟩

variable (key : ActiveKey) (runId : RunId)

def atStage (f : Feed) (stage : ViewStage) : Feed := { f with viewer := { f.viewer with stage } }

/-- The queue of the driver after a step of the broker: a frame of this request goes to it. -/
def forward (f : Feed) (a : Action) : List PendingApprovalInfo :=
  match a with
  | .sendFrame k true =>
    match f.broker.requests[k]? with
    | some ⟨info, sessionId, .registered, _⟩ =>
      if sessionId = some key.sessionId ∧ info.requestId = key.requestId then f.queue ++ [info]
      else f.queue
    | _ => f.queue
  | _ => f.queue

/-- Only `publish_update` appends a request for an approval; no other store call does. -/
def foreign (runId : RunId) : Action → Bool
  | .storage op => op.approvalRun ≠ some runId
  | _ => true

def stepBroker (f : Feed) (a : Action) : Feed :=
  if foreign runId a then { f with broker := f.broker.next a, queue := f.forward key a } else f

/-- `publish_update` up to the store: the completion of the turn is left to the final commit. -/
def persist (f : Feed) (kind : EventKind) (data : Json) (fails : Bool) : Feed :=
  if kind = .turnCompleted then f
  else
    match if fails then .error (.persistence .ioFailure)
        else f.broker.store.appendEvent runId kind.name data with
    | .error _ => f
    | .ok (seq, store) =>
      { f with
        broker := { f.broker with store }
        driver := .persisted (.event kind data (some runId) (some seq)) }

def broadcast (f : Feed) (update : Update) : Feed :=
  { f with published := f.published ++ [update] }

def send (f : Feed) (update : Update) : Feed :=
  { f with viewer := { f.viewer with sent := f.viewer.sent ++ [update] } }

def moveCursor (f : Feed) (seq : Nat) : Feed := { f with viewer := { f.viewer with cursor := seq } }

/-- The approval is still waiting for an answer. -/
def unanswered (f : Feed) (id : InteractionId) : Bool := (f.broker.lookup id).isSome

/-- One event of the replay. -/
def replay (f : Feed) (receiver : Option Nat) (run : RunRecord) (ids : Snapshot)
    (e : StoredEvent) (rest : List StoredEvent) (fails : Bool) : Feed :=
  let f := f.moveCursor e.seq
  let next := ViewStage.replaying receiver run ids rest
  match storedEventUpdate e with
  | none => f.atStage next
  | some update =>
    if isResolvedApproval ids.pending update then
      { f with viewer := { f.viewer with
          stage := next
          skipped := f.viewer.skipped ++ [(e, (approvalOf e.data).any f.unanswered)] } }
    else if fails then f.atStage .ended
    else (f.send update).atStage next

/-- One `receiver.recv()` and what follows it. -/
def receive (f : Feed) (position : Nat) (fails : Bool) : Feed :=
  if position + channelCapacity < f.published.length then f.atStage .ended
  else
    match f.published[position]? with
    | none =>
      match f.driver with
      | .closed => f.atStage .ended
      | _ => f
    | some update =>
      if update.seq?.any (· ≤ f.viewer.cursor) then f.atStage (.live (position + 1))
      else
        let f := f.moveCursor (update.seq?.getD f.viewer.cursor)
        if fails then f.atStage .ended
        else (f.send update).atStage (if update.isTerminal then .ended else .live (position + 1))

/-- `handle_subscribe`, one stretch at a time. -/
def view (f : Feed) (fails : Bool) : Feed :=
  match f.viewer.stage with
  | .start =>
    let receiver := match f.driver with
      | .closed => none
      | _ => some f.published.length
    f.atStage (.opened receiver)
  | .opened receiver =>
    match if fails then none else f.broker.store.readRun runId with
    | none => f.atStage .ended
    | some run => f.atStage (.found receiver run)
  | .found receiver run =>
    f.atStage (.listed receiver run ⟨f.broker.pending.map (·.info.id),
      (f.broker.requests.filter (·.stage.entered)).map (·.info.id)⟩)
  | .listed receiver run ids =>
    if fails then f.atStage .ended
    else
      let events := f.broker.store.eventsAfter runId f.viewer.cursor 1000
      -- `resync_required`
      if events.length = 1000 ∧ events.getLast?.any (·.seq < run.lastSeq) then f.atStage .ended
      else f.atStage (.replaying receiver run ids events)
  | .replaying receiver run _ [] =>
    match receiver with
    | some position => f.atStage (if run.status.terminal then .ended else .live position)
    | none => f.atStage .ended
  | .replaying receiver run ids (e :: rest) => f.replay receiver run ids e rest fails
  | .live position => f.receive position fails
  | .ended => f

/-- One step. The driver publishes one update at a time. -/
def next (f : Feed) : FeedAction → Feed
  | .broker a => f.stepBroker key runId a
  | .takeApproval fails =>
    match f.driver, f.queue with
    | .idle, info :: queue =>
      { f with queue }.persist runId .approvalRequired (approvalData key runId info) fails
    | _, _ => f
  | .takeEvent kind data fails =>
    match f.driver with
    | .idle => if kind = .approvalRequired then f else f.persist runId kind data fails
    | _ => f
  | .publish =>
    match f.driver with
    | .persisted update => { f.broadcast update with driver := .idle }
    | _ => f
  | .external kind data =>
    match f.driver with
    | .closed => f
    | _ => if kind = .approvalRequired then f else f.broadcast (.event kind data (some runId) none)
  | .complete content =>
    match f.driver with
    | .idle => f.broadcast (.event .turnCompleted (.obj [("content", .str content)]) (some runId)
        ((f.broker.store.readRun runId).map fun run => run.lastSeq - 1))
    | _ => f
  | .terminal result =>
    match f.driver with
    | .closed => f
    | _ => f.broadcast (.terminal result)
  | .close =>
    match f.driver with
    | .idle => { f with driver := .closed }
    | _ => f
  | .view fails => f.view runId fails

end Feed

end AgentDaemon.Daemon
