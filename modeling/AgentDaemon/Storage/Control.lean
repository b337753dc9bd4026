import AgentDaemon.Storage.Ops

/-!
The control state of a run store: what decides whether a run may start, end or be answered,
without the event log and the payloads. `RunStore.control` projects a store to it. A `Change`
is one move of this abstract machine, `Change.Enabled` says when it may happen and
`Change.apply` what it does. `Simulation` proves that every store operation performs a list
of enabled changes, so an invariant of the store is checked against eleven changes instead
of eighteen methods.
-/

namespace AgentDaemon.Storage

open Provider

/-- The columns of a run that report its outcome. -/
structure Verdict where
  status : RunStatus
  content : Option String
  errorCode : Option Int
  errorMessage : Option String
  deriving DecidableEq, Repr

structure RunView where
  id : RunId
  sessionId : SessionId
  verdict : Verdict
  deriving DecidableEq, Repr

structure QueueView where
  sessionId : SessionId
  runId : RunId
  status : RunStatus
  deriving DecidableEq, Repr

structure ToolView where
  key : RunId × Nat × String
  effect : String
  status : ToolStatus
  deriving DecidableEq, Repr

/-- The delivery lease on a child result. -/
structure Lease where
  state : ResultState
  owner : Option String
  revision : Int
  deriving DecidableEq, Repr

structure ChildView where
  runId : RunId
  status : RunStatus
  lease : Lease
  deriving DecidableEq, Repr

def Run.verdict (r : Run) : Verdict := ⟨r.status, r.content, r.errorCode, r.errorMessage⟩
def RunRecord.verdict (r : RunRecord) : Verdict :=
  ⟨r.status, r.content, r.errorCode, r.errorMessage⟩
def Run.view (r : Run) : RunView := ⟨r.id, r.sessionId, r.verdict⟩
def Turn.view (t : Turn) : RunId × RunStatus := (t.runId, t.status)
def QueuedMessage.view (q : QueuedMessage) : QueueView := ⟨q.sessionId, q.runId, q.status⟩
def ToolExecution.view (t : ToolExecution) : ToolView := ⟨t.key, t.effect, t.status⟩
def Delegation.lease (d : Delegation) : Lease := ⟨d.resultState, d.reservationOwner, d.revision⟩
def Delegation.view (d : Delegation) : ChildView := ⟨d.childRunId, d.status, d.lease⟩

structure Control where
  runs : List RunView
  turns : List (RunId × RunStatus)
  queue : List QueueView
  tools : List ToolView
  children : List ChildView
  deriving DecidableEq, Repr

def RunStore.control (s : RunStore) : Control where
  runs := s.runs.rows.map Run.view
  turns := s.turns.rows.map Turn.view
  queue := s.queuedMessages.rows.map QueuedMessage.view
  tools := s.toolExecutions.rows.map ToolExecution.view
  children := s.delegations.rows.map Delegation.view

inductive Change where
  /-- A queued run enters, as a child when it comes with a delegation row. -/
  | admitted (run : RunId) (session : SessionId) (child : Bool)
  | started (run : RunId)
  /-- A queued run is cancelled. -/
  | removed (run : RunId)
  /-- A run is set to wait for an answer. -/
  | awaiting (run : RunId)
  | resumed (run : RunId)
  | finished (run : RunId) (v : Verdict)
  /-- A run of unknown outcome is resolved by hand. -/
  | reconciled (run : RunId) (v : Verdict)
  /-- A running or waiting run is found at a restart. -/
  | lost (run : RunId)
  | prepared (run : RunId) (tools : List ToolView)
  | toolMoved (key : RunId × Nat × String) (source target : ToolStatus)
  | leased (child : RunId) (lease : Lease)
  deriving DecidableEq, Repr

namespace Control

def run? (c : Control) (id : RunId) : Option RunView := c.runs.find? fun v => v.id = id

def updateRun (c : Control) (id : RunId) (f : Verdict → Verdict) : Control :=
  { c with runs := c.runs.map fun v => if v.id = id then { v with verdict := f v.verdict } else v }

def updateTurn (c : Control) (id : RunId) (status : RunStatus) : Control :=
  { c with turns := c.turns.map fun t => if t.1 = id then (t.1, status) else t }

def updateQueue (c : Control) (id : RunId) (status : RunStatus) : Control :=
  { c with queue := c.queue.map fun q => if q.runId = id then { q with status := status } else q }

def updateChild (c : Control) (id : RunId) (status : RunStatus) : Control :=
  { c with children :=
      c.children.map fun d => if d.runId = id then { d with status := status } else d }

def moveQueue (c : Control) (id : RunId) (source target : RunStatus) : Control :=
  { c with queue := c.queue.map fun q =>
      if q.runId = id ∧ q.status = source then { q with status := target } else q }

/-- Write a status into the three tables that repeat it. -/
def mirror (c : Control) (id : RunId) (status : RunStatus) : Control :=
  ((c.updateTurn id status).updateQueue id status).updateChild id status

/-- `run` is the first queued message of the session. -/
def Head (c : Control) (session : SessionId) (run : RunId) : Prop :=
  ∃ front q back, c.queue = front ++ q :: back ∧ q.runId = run ∧ q.status = .queued ∧
    q.sessionId = session ∧ ∀ p ∈ front, p.sessionId = session → p.status ≠ .queued

/-- No run of the session is running or waiting. -/
def Idle (c : Control) (session : SessionId) : Prop :=
  ∀ w ∈ c.runs, w.sessionId = session → w.verdict.status.active = false

/-- No receipt of the run is left prepared or running. -/
def Settled (c : Control) (id : RunId) : Prop :=
  ∀ t ∈ c.tools, t.key.1 = id → t.status = .terminal

/-- No execution of the run other than a read was started. -/
def NoEffects (c : Control) (id : RunId) : Prop :=
  ∀ t ∈ c.tools, t.key.1 = id → t.effect ≠ "read" → t.status = .prepared

@[simp] theorem run?_updateRun (c : Control) (id k : RunId) (f : Verdict → Verdict) :
    (c.updateRun id f).run? k =
      (c.run? k).map fun v => if v.id = id then { v with verdict := f v.verdict } else v := by
  simp only [run?, updateRun]
  induction c.runs with
  | nil => rfl
  | cons v vs ih =>
    have hid : (if v.id = id then { v with verdict := f v.verdict } else v).id = v.id := by
      split <;> rfl
    simp only [List.map_cons, List.find?_cons, hid]
    split
    · rfl
    · exact ih

theorem id_of_run? {c : Control} {id : RunId} {v : RunView} (h : c.run? id = some v) :
    v.id = id := by
  simpa using List.find?_some h

@[simp] theorem run?_updateRun_self (c : Control) (id : RunId) (f : Verdict → Verdict) :
    (c.updateRun id f).run? id =
      (c.run? id).map fun v => { v with verdict := f v.verdict } := by
  rw [run?_updateRun]
  cases hv : c.run? id with
  | none => rfl
  | some v => simp [id_of_run? hv]

/-- What holds of the verdict of a run after the verdict of `run` is rewritten. -/
theorem exists_run?_updateRun {c : Control} {run id : RunId} {f : Verdict → Verdict}
    {P : Verdict → Prop} : (∃ v, (c.updateRun run f).run? id = some v ∧ P v.verdict) ↔
      if id = run then ∃ v, c.run? id = some v ∧ P (f v.verdict)
      else ∃ v, c.run? id = some v ∧ P v.verdict := by
  rw [run?_updateRun]
  cases hv : c.run? id with
  | none => simp
  | some v =>
    have hid := id_of_run? hv
    by_cases h : id = run
    · subst h
      simp [hid]
    · have hne : ¬ v.id = run := fun e => h (hid.symm.trans e)
      simp [h, hne]

/-- What holds of the verdict of a run after a run is added. -/
theorem exists_run?_concat {c : Control} {id : RunId} {w : RunView} (hw : c.run? w.id = none)
    {P : Verdict → Prop} : (∃ v, { c with runs := c.runs ++ [w] }.run? id = some v ∧ P v.verdict) ↔
      if id = w.id then P w.verdict else ∃ v, c.run? id = some v ∧ P v.verdict := by
  have hfind : { c with runs := c.runs ++ [w] }.run? id =
      (c.run? id).or (if w.id = id then some w else none) := by
    simp only [run?, List.find?_append, List.find?_singleton, decide_eq_true_eq]
  rw [hfind]
  by_cases h : id = w.id
  · subst h
    simp [hw]
  · simp [h, Ne.symm h]

@[simp] theorem run?_updateTurn (c : Control) (id k : RunId) (status : RunStatus) :
    (c.updateTurn id status).run? k = c.run? k := rfl

@[simp] theorem run?_updateQueue (c : Control) (id k : RunId) (status : RunStatus) :
    (c.updateQueue id status).run? k = c.run? k := rfl

@[simp] theorem run?_moveQueue (c : Control) (id k : RunId) (source target : RunStatus) :
    (c.moveQueue id source target).run? k = c.run? k := rfl

@[simp] theorem run?_updateChild (c : Control) (id k : RunId) (status : RunStatus) :
    (c.updateChild id status).run? k = c.run? k := rfl

@[simp] theorem run?_mirror (c : Control) (id k : RunId) (status : RunStatus) :
    (c.mirror id status).run? k = c.run? k := rfl

theorem mem_of_run? {c : Control} {id : RunId} {v : RunView} (h : c.run? id = some v) :
    v ∈ c.runs := List.mem_of_find?_eq_some h

end Control

/-- A caller may put `next` in place of the lease `lease` of a child in status `status`. -/
inductive Lease.Moves (status : RunStatus) (lease : Lease) : Lease → Prop
  | reserve {owner : String} {revision : Int} (hs : status.terminal = true)
      (hl : lease.state ≠ .delivered) (hr : lease.revision < revision) :
      Lease.Moves status lease ⟨.reserved, some owner, revision⟩
  | release {owner : String} (hl : lease.state = .reserved) (ho : lease.owner = some owner) :
      Lease.Moves status lease ⟨.unconsumed, none, lease.revision + 1⟩
  | deliver {owner : String} (hl : lease.state = .reserved) (ho : lease.owner = some owner) :
      Lease.Moves status lease ⟨.delivered, some owner, lease.revision + 1⟩

namespace Change

open Control

/-- When a change may happen. -/
def Enabled (c : Control) : Change → Prop
  | admitted run _ child =>
    c.run? run = none ∧ (child = true → ∀ d ∈ c.children, d.runId ≠ run)
  | started run => ∃ v, c.run? run = some v ∧ v.verdict.status = .queued ∧
      c.Head v.sessionId run ∧ c.Idle v.sessionId
  | removed run => ∃ v, c.run? run = some v ∧ v.verdict.status = .queued
  | awaiting run => ∃ v, c.run? run = some v
  | resumed run => ∃ v, c.run? run = some v ∧ v.verdict.status = .waitingInteraction
  | finished run v => v.status.terminal = true ∧
      (∃ w, c.run? run = some w ∧ w.verdict.status.terminal = false) ∧
      (v.status ≠ .unknownAfterRestart → c.Settled run) ∧
      (v.status = .cancelled → c.NoEffects run)
  | reconciled run v => (v.status = .completed ∨ v.status = .failed ∨ v.status = .cancelled) ∧
      (∃ w, c.run? run = some w ∧ w.verdict.status = .unknownAfterRestart) ∧
      ∀ d ∈ c.children, d.runId = run → d.lease.state = .unconsumed
  | lost run => ∃ v, c.run? run = some v ∧ v.verdict.status.active = true
  | prepared run tools => (∃ v, c.run? run = some v ∧ v.verdict.status = .running) ∧
      ∀ t ∈ tools, t.key.1 = run ∧ t.status = .prepared
  | toolMoved _ source target => source = .prepared ∧ target = .running ∨
      source = .running ∧ target = .terminal
  | leased child lease => ∀ d ∈ c.children, d.runId = child → d.lease.Moves d.status lease

/-- What a change does. -/
def apply (c : Control) : Change → Control
  | admitted run session child =>
    { c with
      runs := c.runs ++ [⟨run, session, ⟨.queued, none, none, none⟩⟩]
      turns := c.turns ++ [(run, .queued)]
      queue := c.queue ++ [⟨session, run, .queued⟩]
      children := c.children ++ if child then [⟨run, .queued, ⟨.unconsumed, none, 0⟩⟩] else [] }
  | started run => (c.updateRun run ({ · with status := .running })).mirror run .running
  | removed run => (((c.updateRun run ({ · with status := .cancelled })).updateTurn run
      .cancelled).moveQueue run .queued .cancelled).updateChild run .cancelled
  | awaiting run => c.updateRun run ({ · with status := .waitingInteraction })
  | resumed run => c.updateRun run ({ · with status := .running })
  | finished run v => (c.updateRun run fun _ => v).mirror run v.status
  | reconciled run v => (c.updateRun run fun _ => v).mirror run v.status
  | lost run => (c.updateRun run ({ · with status := .unknownAfterRestart })).mirror run
      .unknownAfterRestart
  | prepared _ tools => { c with tools := c.tools ++ tools }
  | toolMoved key source target =>
    { c with tools := c.tools.map fun t =>
        if t.key = key ∧ t.status = source then { t with status := target } else t }
  | leased child lease =>
    { c with children := c.children.map fun d =>
        if d.runId = child then { d with lease := lease } else d }

/-- The run whose verdict a change writes. -/
def target : Change → Option RunId
  | started run | removed run | awaiting run | resumed run | lost run => some run
  | finished run _ | reconciled run _ => some run
  | _ => none

/-- A change leaves the other runs as they are. -/
theorem run?_apply_of_ne {c : Control} {ch : Change} {id : RunId} {w : RunView}
    (hne : ch.target ≠ some id) (hw : c.run? id = some w) : (ch.apply c).run? id = some w := by
  have hid := id_of_run? hw
  have hupd : ∀ run f, run ≠ id → (c.updateRun run f).run? id = some w := by
    intro run f h
    have hwr : w.id ≠ run := fun e => h (e.symm.trans hid)
    rw [run?_updateRun, hw, Option.map_some, if_neg hwr]
  cases ch with
  | admitted run session child =>
    simp only [run?, apply, List.find?_append] at hw ⊢
    rw [hw]
    rfl
  | prepared run tools => exact hw
  | toolMoved key source target => exact hw
  | leased child lease => exact hw
  | started run =>
    exact hupd run ({ · with status := .running }) fun e => hne (congrArg some e)
  | removed run =>
    exact hupd run ({ · with status := .cancelled }) fun e => hne (congrArg some e)
  | awaiting run =>
    exact hupd run ({ · with status := .waitingInteraction }) fun e => hne (congrArg some e)
  | resumed run =>
    exact hupd run ({ · with status := .running }) fun e => hne (congrArg some e)
  | finished run v =>
    exact hupd run (fun _ => v) fun e => hne (congrArg some e)
  | reconciled run v =>
    exact hupd run (fun _ => v) fun e => hne (congrArg some e)
  | lost run =>
    exact hupd run ({ · with status := .unknownAfterRestart }) fun e => hne (congrArg some e)

end Change

end AgentDaemon.Storage
