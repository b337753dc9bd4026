import AgentDaemon.Daemon.Requesters

/-!
The drivers with their tokens, the approval broker that their turns ask, and the listing of the
sessions. A driver publishes the frames of its turn; where one cannot be stored, its token is
cancelled and the turn is dropped.
-/

namespace AgentDaemon.Daemon.Leftovers

open Storage
open Resolving (done requestStep sendsFrame)

/-! ## The drivers -/

/-- Where the turn of a driver stands. One request of a turn is open at a time. -/
inductive Turn where
  /-- The run waits for its place in the queue. -/
  | queued
  | working
  | asking (k : Nat)
  /-- The turn has returned or was dropped. -/
  | ended
  deriving DecidableEq, Repr

/-- `handle_chat_send` from its entry in the active map on. -/
structure Driver where
  key : ActiveKey
  runId : RunId
  turn : Turn
  /-- The requests whose frames went into `approval_events`. -/
  frames : List Nat
  /-- How many of these frames `approval_receiver` has given out. -/
  received : Nat
  /-- The token is cancelled. -/
  cancelled : Bool
  exited : Bool
  deriving DecidableEq, Repr

/-- `active` maps the key of a request to its driver. `owners` has the driver in whose approval
context each request of the broker was made. -/
structure ServerState where
  broker : Broker
  drivers : List Driver
  active : List (ActiveKey × Nat)
  owners : List Nat

inductive Step where
  /-- A chat request enters the active map, unless its key is there. -/
  | register (key : ActiveKey) (runId : RunId)
  /-- The driver calls `try_start_queued`. -/
  | start (i : Nat) (clock : Clock)
  /-- A tool of the turn calls `ApprovalBroker::request`. -/
  | ask (i : Nat) (prompt : String) (pid nonce : Nat)
  /-- The next stretch of this request. -/
  | advance (i : Nat)
  /-- The driver receives the frame of a request and publishes it; `fails` is a write that fails. -/
  | receive (i : Nat) (fails : Bool)
  /-- The driver publishes an event of the engine. -/
  | publish (i : Nat) (kind : EventKind) (data : Json) (fails : Bool)
  /-- The turn returns by itself. -/
  | complete (i : Nat)
  /-- The turn sees that its token is cancelled, and is dropped. -/
  | interrupt (i : Nat)
  /-- The driver leaves the active map and returns. -/
  | exit (i : Nat)
  /-- The task of the driver is aborted. -/
  | abort (i : Nat)
  /-- `token.cancel()`, in `cancel_one` and at the shutdown. -/
  | signal (i : Nat)
  /-- `cancel_request_in_session`, which both of them call after the signal. -/
  | cancelRequest (sessionId : SessionId) (requestId : RequestId)
  /-- `respond_claimed` by `resolve_interaction`. -/
  | respond (id : InteractionId) (sessionId : SessionId) (runId : RunId) (revision : Int)
      (approved fails : Bool)
  /-- The shutdown empties the active map. -/
  | clearActive
  /-- Any other call of the store, the commit of the end of a run among them. -/
  | call (op : Op)

namespace ServerState

/-- A daemon that has started with this store. -/
def init (store : RunStore) : ServerState := ⟨.init store, [], [], []⟩

variable (d : ServerState)

abbrev store : RunStore := d.broker.store

def withStore (store : RunStore) : ServerState := { d with broker := { d.broker with store } }

def editDriver (i : Nat) (f : Driver → Driver) : ServerState :=
  { d with drivers := d.drivers.modify i f }

def lookup (key : ActiveKey) : Option Nat := (d.active.find? fun e => e.1 = key).map Prod.snd

def register (key : ActiveKey) (runId : RunId) : ServerState :=
  if (d.lookup key).isSome then d
  else { d with
    drivers := d.drivers ++ [⟨key, runId, .queued, [], 0, false, false⟩]
    active := d.active ++ [(key, d.drivers.length)] }

def start (i : Nat) (clock : Clock) : ServerState :=
  match d.drivers[i]? with
  | some ⟨_, runId, .queued, _, _, _, false⟩ =>
    match d.store.tryStartQueued runId clock with
    | .error _ => d
    | .ok (false, store) => d.withStore store
    | .ok (true, store) => (d.withStore store).editDriver i ({ · with turn := .working })
  | _ => d

def ask (i : Nat) (prompt : String) (pid nonce : Nat) : ServerState :=
  match d.drivers[i]? with
  | some ⟨key, _, .working, _, _, _, false⟩ =>
    { d with
      broker := d.broker.request key.requestId (some key.sessionId) prompt pid nonce
      owners := d.owners ++ [i] }.editDriver i ({ · with turn := .asking d.broker.requests.length })
  | _ => d

def advance (i : Nat) : ServerState :=
  match d.drivers[i]? with
  | some ⟨_, _, .asking k, _, _, _, _⟩ =>
    match d.broker.requests[k]? with
    | none => d
    | some r =>
      match requestStep k r.stage with
      | none => d
      | some a =>
        let broker := d.broker.next a
        let returned := broker.requests[k]?.any fun r => done r.stage
        { d with broker }.editDriver i fun c =>
          { c with
            turn := if returned then .working else c.turn
            frames := if sendsFrame r.stage then c.frames ++ [k] else c.frames }
  | _ => d

/-- `publish_update`. The end of a turn is not stored here. Where an event cannot be stored, the token
is cancelled; the broker is not told. (`storage_error` only picks the answer of the run.) -/
def publishUpdate (key : ActiveKey) (kind : EventKind) (data : Json) (fails : Bool) : ServerState :=
  if kind = .turnCompleted then d
  else match d.lookup key with
    | none => d
    | some i =>
      match d.drivers[i]? with
      | none => d
      | some c =>
        match if fails then .error (.persistence .ioFailure)
          else d.store.appendEvent c.runId kind.name data with
        | .ok (_, store) => d.withStore store
        | .error _ => d.editDriver i ({ · with cancelled := true })

def receive (i : Nat) (fails : Bool) : ServerState :=
  match d.drivers[i]? with
  | none => d
  | some c =>
    match c.frames[c.received]?.bind (d.broker.requests[·]?) with
    | none => d
    | some r =>
      (d.editDriver i fun c => { c with received := c.received + 1 }).publishUpdate c.key
        .approvalRequired (approvalData c.key c.runId r.info) fails

/-- The turn is dropped, and with it the task of its request. -/
def dropTurn (i : Nat) : ServerState :=
  let d' := d.editDriver i ({ · with turn := .ended })
  match d.drivers[i]? with
  | some ⟨_, _, .asking k, _, _, _, _⟩ => { d' with broker := d.broker.drop k }
  | _ => d'

/-- The frames are published before the driver exits. A run that has not started leaves the queue. -/
def mayExit (c : Driver) : Bool :=
  match c.turn with
  | .queued => true
  | .ended => decide (c.frames.length ≤ c.received)
  | _ => false

def next : Step → ServerState
  | .register key runId => d.register key runId
  | .start i clock => d.start i clock
  | .ask i prompt pid nonce => d.ask i prompt pid nonce
  | .advance i => d.advance i
  | .receive i fails => d.receive i fails
  | .publish i kind data fails =>
    match d.drivers[i]? with
    | none => d
    | some c => d.publishUpdate c.key kind data fails
  | .complete i =>
    d.editDriver i fun c => if c.turn = .working then { c with turn := .ended } else c
  | .interrupt i =>
    if d.drivers[i]?.any fun c => c.cancelled && c.turn ≠ .queued then d.dropTurn i else d
  | .exit i =>
    match d.drivers[i]? with
    | none => d
    | some c =>
      if mayExit c && !c.exited then
        { d with active := d.active.filter (·.1 ≠ c.key) }.editDriver i ({ · with exited := true })
      else d
  | .abort i => (d.dropTurn i).editDriver i ({ · with exited := true })
  | .signal i => d.editDriver i ({ · with cancelled := true })
  | .cancelRequest sessionId requestId =>
    { d with broker := d.broker.next (.cancel sessionId requestId) }
  | .respond id sessionId runId revision approved fails =>
    { d with broker := d.broker.next (.respond id sessionId runId revision approved fails) }
  | .clearActive => { d with active := [] }
  | .call op => d.withStore (d.store.next op)

end ServerState

/-! ## The listing of the sessions -/

inductive SessionStatus where
  | idle | running | waiting
  deriving DecidableEq, Repr

structure SessionInfo where
  id : SessionId
  active : Bool
  modifiedAt : Option Nat
  status : SessionStatus
  activeRequests : Nat
  updatedAt : Option Nat
  deriving DecidableEq, Repr

def pendingSessions (b : Broker) : List SessionId := b.pending.filterMap (·.sessionId)

section Listing

variable (active : List ActiveKey) (pending : List SessionId)

def activeCount (id : SessionId) : Nat := (active.filter (·.sessionId = id)).length

def sessionStatus (id : SessionId) : SessionStatus :=
  if id ∈ pending then .waiting
  else if 0 < activeCount active id then .running
  else .idle

/-- A session that is not stored yet. -/
def newSession (current id : SessionId) : SessionInfo where
  id := id
  active := id = current
  modifiedAt := none
  status := sessionStatus active pending id
  activeRequests := activeCount active id
  updatedAt := none

def addSession (current : SessionId) (sessions : List SessionInfo) (id : SessionId) :
    List SessionInfo :=
  if sessions.any (·.id = id) then sessions else sessions ++ [newSession active pending current id]

/-- The active session first, then the ones that were modified last. -/
def sessionBefore (left right : SessionInfo) : Bool :=
  if left.active ≠ right.active then left.active
  else match left.modifiedAt, right.modifiedAt with
    | some l, some r => if l ≠ r then r < l else left.id.val ≤ right.id.val
    | some _, none => true
    | none, some _ => false
    | none, none => left.id.val ≤ right.id.val

/-- `session_infos`, from the stored sessions, the sessions in memory and the current one. The keys
of the active map and the sessions of the pending approvals are read at two moments. -/
def sessionInfos (stored : List SessionInfo) (runtimes : List SessionId) (current : SessionId) :
    List SessionInfo :=
  let sessions := stored.map fun session =>
    { session with
      active := session.id = current
      status := sessionStatus active pending session.id
      activeRequests := activeCount active session.id
      updatedAt := session.modifiedAt }
  let sessions := runtimes.foldl (addSession active pending current) sessions
  (addSession active pending current sessions current).mergeSort sessionBefore

end Listing

end AgentDaemon.Daemon.Leftovers
