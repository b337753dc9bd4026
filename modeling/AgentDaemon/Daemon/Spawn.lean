import AgentDaemon.Storage.Tree
import AgentDaemon.Daemon.Drivers
import AgentDaemon.Lib.Slots

/-!
`spawn_subagent` as a task beside others: it checks what is asked for against the delegation of the
parent, takes the engine of the parent's session from `session_runtime`, and admits the child some
awaits later. Whatever runs in between, a child gets no more than its parent has
(`attenuated_after`). The locks are left out, so more interleavings are allowed here than there
are.
-/

namespace AgentDaemon.Daemon.Spawning

open Provider Storage Transition Fallible

/-! ## Engines -/

/-- What a delegation narrows of an engine: the names in its tool registry, its limits, and the
token budget of its context. -/
structure LoopEngine where
  tools : List String
  roundLimit : Option Nat
  totalTokenBudget : Option Nat
  tokenBudget : Nat
  deriving DecidableEq, Repr

/-- `ToolRegistry::subset`. -/
def subset (tools : List String) : List String → Except String (List String)
  | [] => .ok []
  | name :: names =>
    if name ∈ tools then List.insert name <$> subset tools names
    else .error ("不可用的子 Agent 工具: " ++ name)

namespace LoopEngine

/-- The session file is the only difference. -/
def forSession (engine : LoopEngine) : LoopEngine := engine

def forDelegation (engine : LoopEngine) (names : List String) (maxRounds maxTokens : Nat) :
    Except String LoopEngine := do
  let tools ← subset engine.tools names
  return { engine with
    tools
    roundLimit := some maxRounds
    totalTokenBudget := some maxTokens
    tokenBudget := min maxTokens engine.tokenBudget }

def withTool (engine : LoopEngine) (name : String) : LoopEngine :=
  { engine with tools := engine.tools.insert name }

end LoopEngine

/-! ## The checks on the arguments -/

structure SpawnSubagentParams where
  parentSessionId : SessionId
  parentRunId : RunId
  spawnKey : String
  task : String
  tools : Option (List String) := none
  maxRounds : Option Int := none
  maxTokens : Option Int := none
  maxToolCalls : Option Int := none
  timeoutMs : Option Int := none
  deriving DecidableEq, Repr

/-- A spawn that has passed the checks, with its defaults filled in. -/
structure Checked where
  params : SpawnSubagentParams
  parent : RunRecord
  parentDelegation : Option DelegationRecord
  tools : List String
  maxRounds : Int
  maxTokens : Int
  maxToolCalls : Int
  timeoutMs : Int
  deriving DecidableEq, Repr

abbrev Failure := Int × ErrorText

def readFailure : Failure := (internalError, .shown (.persistence .ioFailure))

/-- `spawn_subagent` up to its call of `session_runtime`; `fails` when the store cannot be read. -/
def check (s : RunStore) (params : SpawnSubagentParams) (fails : Bool) : Except Failure Checked :=
  if fails then .error readFailure
  else
  match s.readRun params.parentRunId with
  | none => .error (invalidParams, .literal "父 run 不存在")
  | some parent =>
  if parent.sessionId ≠ params.parentSessionId then
    .error (requestConflict, .literal "父 run 不属于指定 session")
  else
  let parentDelegation := s.readDelegation params.parentRunId
  let tools := params.tools.getD ["read_file"]
  if tools = [] ∨ tools.any (· ≠ "read_file") ∨
      parentDelegation.any fun record => tools.any (· ∉ record.tools) then
    .error (requestConflict, .literal "子 Agent 只能继承 read_file 能力")
  else
  let maxRounds := params.maxRounds.getD 8
  let maxTokens := params.maxTokens.getD 16000
  let maxToolCalls := params.maxToolCalls.getD 16
  let timeoutMs := params.timeoutMs.getD 120000
  if ¬ (1 ≤ maxRounds ∧ maxRounds ≤ 15) ∨ ¬ (512 ≤ maxTokens ∧ maxTokens ≤ 32000) ∨
      ¬ (1 ≤ maxToolCalls ∧ maxToolCalls ≤ 32) ∨ ¬ (1000 ≤ timeoutMs ∧ timeoutMs ≤ 600000) ∨
      parentDelegation.any fun record => maxRounds > record.maxRounds ∨
        maxTokens > record.maxTokens ∨ maxToolCalls > record.maxToolCalls then
    .error (invalidParams, .literal "子 Agent 预算无效或超过父预算")
  else .ok ⟨params, parent, parentDelegation, tools, maxRounds, maxTokens, maxToolCalls, timeoutMs⟩

/-! ## The tasks -/

/-- Where a call of `session_runtime` stands, and the spawn that goes on from it. -/
inductive Stage where
  /-- About to look into `sessions`. -/
  | looking
  /-- The session is not there and its file is being read. -/
  | loading
  /-- About to enter the engine into `sessions`. -/
  | built (engine : LoopEngine)
  /-- `session_runtime` has returned. -/
  | opened (engine : LoopEngine)
  /-- About to take `control_lock`. -/
  | locking (engine : LoopEngine) (request : DelegationRequest)
  /-- No child has the spawn key, `active` is about to be read. -/
  | admitting (engine : LoopEngine) (request : DelegationRequest)
  | returned (result : Except Failure (Option DelegationRecord))
  deriving Repr

/-- `spawn` is absent in the other callers of `session_runtime`. -/
structure Task where
  sessionId : SessionId
  spawn : Option Checked
  stage : Stage
  deriving Repr

/-- `sessions` maps a session to the engine of its runtime. -/
structure Spawner where
  store : RunStore
  defaultSession : SessionId
  defaultEngine : LoopEngine
  sessions : List (SessionId × LoopEngine)
  tasks : List Task

/-- What the environment answers in one stretch of a task. -/
structure Env where
  /-- A read of the store fails. -/
  fails : Bool := false
  /-- The session id is a valid name, its file exists, and it can be read. -/
  valid : Bool := true
  opens : Bool := true
  loads : Bool := true
  /-- `frozen_child_read_tool` succeeds. -/
  thaws : Bool := true
  /-- The text of an error of these. -/
  error : String := ""
  /-- The session that `create_isolated_session` makes. -/
  session : Option SessionId := none
  /-- The directory of a child whose parent is a root. -/
  workspace : String := ""
  now : Int := 0
  clock : Clock := fun _ => 0
  /-- Run and cancellation of the entry that `active` has for the parent. -/
  active : Option (RunId × Bool) := none

inductive Action where
  | spawn (params : SpawnSubagentParams) (fails : Bool)
  /-- Another request calls `session_runtime`. -/
  | open (sessionId : SessionId)
  | advance (i : Nat) (env : Env)
  /-- `session_new`, with a session id that is new. -/
  | newSession (sessionId : SessionId)
  /-- Another call of the store. Only `spawn_subagent` admits children. -/
  | call (op : Op)
  /-- The daemon starts again, perhaps with another engine. -/
  | restart (clock : Clock) (sessionId : SessionId) (engine : LoopEngine)

def permissionMode : String := "request_approval"

/-- The request of a checked spawn. -/
def Checked.request (c : Checked) (env : Env) (child : SessionId) : DelegationRequest where
  parentSessionId := c.params.parentSessionId
  parentRunId := c.params.parentRunId
  childSessionId := child
  spawnKey := c.params.spawnKey
  task := c.params.task
  tools := c.tools
  permissionMode := permissionMode
  cwd := c.parentDelegation.elim env.workspace (·.cwd)
  maxRounds := c.maxRounds
  maxTokens := c.maxTokens
  maxToolCalls := c.maxToolCalls
  deadlineMs := c.parentDelegation.elim (env.now + c.timeoutMs) fun record =>
    min (env.now + c.timeoutMs) record.deadlineMs

/-- `delegation_for_session`. -/
def delegationForSession (s : RunStore) (sessionId : SessionId) : Option DelegationRecord :=
  (s.delegations.rows.find? fun d => d.childSessionId = sessionId).bind fun d =>
    s.readDelegation d.childRunId

/-- The engine that `session_runtime` makes for a session. -/
def buildEngine (d : Spawner) (sessionId : SessionId) (env : Env) : Except Failure LoopEngine :=
  let engine := d.defaultEngine.forSession
  if env.fails then .error readFailure
  else
  match delegationForSession d.store sessionId with
  | none => .ok engine
  | some child =>
    match engine.forDelegation child.tools child.maxRounds.toNat child.maxTokens.toNat with
    | .error error => .error (internalError, .literal error)
    | .ok engine =>
      if env.thaws then .ok (engine.withTool "read_file")
      else .error (internalError, .literal env.error)

/-- What `spawn_subagent` does with the engine of the parent's session, up to `control_lock`. -/
def grant (c : Checked) (engine : LoopEngine) (env : Env) : Except Failure DelegationRequest :=
  if c.maxTokens.toNat > engine.tokenBudget then
    .error (invalidParams, .literal "子 Agent token 预算超过父会话")
  else
  match engine.forDelegation c.tools c.maxRounds.toNat c.maxTokens.toNat with
  | .error error => .error (requestConflict, .literal error)
  | .ok _ =>
  match env.session with
  | none => .error (internalError, .literal env.error)
  | some child => .ok (c.request env child)

namespace Spawner

variable (d : Spawner)

def lookup (sessionId : SessionId) : Option LoopEngine :=
  (d.sessions.find? fun entry => entry.1 = sessionId).map Prod.snd

/-- The engine of a session whose runtime exists. -/
def runtime? (sessionId : SessionId) : Option LoopEngine :=
  if sessionId = d.defaultSession then some d.defaultEngine else d.lookup sessionId

def setStage (i : Nat) (stage : Stage) : Spawner :=
  { d with tasks := d.tasks.modify i fun t => { t with stage } }

def fail (i : Nat) (failure : Failure) : Spawner := d.setStage i (.returned (.error failure))

/-- The call of `admit_delegation`. -/
def admitChild (i : Nat) (request : DelegationRequest) (env : Env) : Spawner :=
  match d.store.admitDelegation request env.clock with
  | .error e => d.fail i (requestConflict, .shown e)
  | .ok (record, store) => { d with store }.setStage i (.returned (.ok (some record)))

/-- One stretch of a task, from one await to the next. -/
def advance (i : Nat) (t : Task) (env : Env) : Spawner :=
  match t.stage with
  | .looking =>
    match d.runtime? t.sessionId with
    | some engine => d.setStage i (.opened engine)
    | none =>
      if env.valid && (env.opens || t.sessionId ∈ d.store.sessions.rows) then d.setStage i .loading
      else d.fail i (invalidParams, .literal env.error)
  | .loading =>
    if env.loads then
      match buildEngine d t.sessionId env with
      | .error failure => d.fail i failure
      | .ok engine => d.setStage i (.built engine)
    else d.fail i (internalError, .literal env.error)
  | .built engine =>
    match d.lookup t.sessionId with
    | some engine => d.setStage i (.opened engine)
    | none =>
      { d with sessions := d.sessions ++ [(t.sessionId, engine)] }.setStage i (.opened engine)
  | .opened engine =>
    match t.spawn with
    | none => d.setStage i (.returned (.ok none))
    | some c =>
      match grant c engine env with
      | .error failure => d.fail i failure
      | .ok request => d.setStage i (.locking engine request)
  | .locking engine request =>
    if env.fails then d.fail i readFailure
    else if spawned d.store request then d.admitChild i request env
    else d.setStage i (.admitting engine request)
  | .admitting _ request =>
    if env.active.any fun entry => entry.1 = request.parentRunId && !entry.2 then
      d.admitChild i request env
    else d.fail i (requestConflict, .literal "父 run 已停止接纳子 Agent")
  | .returned _ => d

def next (d : Spawner) : Action → Spawner
  | .spawn params fails =>
    match check d.store params fails with
    | .error failure =>
      { d with tasks := d.tasks ++ [⟨params.parentSessionId, none, .returned (.error failure)⟩] }
    | .ok c => { d with tasks := d.tasks ++ [⟨params.parentSessionId, some c, .looking⟩] }
  | .open sessionId => { d with tasks := d.tasks ++ [⟨sessionId, none, .looking⟩] }
  | .advance i env =>
    match d.tasks[i]? with
    | none => d
    | some t => d.advance i t env
  | .newSession sessionId =>
    if (d.runtime? sessionId).isSome then d
    else { d with sessions := d.sessions ++ [(sessionId, d.defaultEngine.forSession)] }
  | .call op =>
    match op with
    | .admitDelegation .. => d
    | op => { d with store := d.store.next op }
  | .restart clock sessionId engine => ⟨d.store.next (.recover clock), sessionId, engine, [], []⟩

/-- The first start of the daemon. -/
def init (sessionId : SessionId) (engine : LoopEngine) : Spawner :=
  ⟨.empty, sessionId, engine, [], []⟩

end Spawner

/-! ## What a task knows -/

/-- The request asks for no more than its parent has, where the parent is a child itself. -/
structure Modest (a : Archive) (request : DelegationRequest) : Prop where
  known : request.parentRunId ∈ a.heads.map Head.id
  within : ∀ p ∈ a.terms, p.childRunId = request.parentRunId → ∀ position child,
    (request.terms position child).Within p

/-- The request asks for no more than the engine has. -/
structure Granted (engine : LoopEngine) (request : DelegationRequest) : Prop where
  tools : request.tools ⊆ engine.tools
  tokens : request.maxTokens ≤ engine.tokenBudget

/-- The checks were made against the delegation of the parent. -/
structure Checked.Sound (a : Archive) (c : Checked) : Prop where
  known : c.params.parentRunId ∈ a.heads.map Head.id
  within : ∀ p ∈ a.terms, p.childRunId = c.params.parentRunId →
    ∃ record, c.parentDelegation = some record ∧ record.deadlineMs = p.deadlineMs ∧
      c.tools ⊆ p.tools ∧ c.maxRounds ≤ p.maxRounds ∧ c.maxTokens ≤ p.maxTokens ∧
      c.maxToolCalls ≤ p.maxToolCalls

theorem check_sound {s : RunStore} {params : SpawnSubagentParams} {fails : Bool} {c : Checked}
    (h : check s params fails = .ok c) : c.params = params ∧ c.Sound s.archive := by
  unfold check at h
  split at h
  · cases h
  split at h
  · cases h
  rename_i parent hparent
  split at h
  · cases h
  dsimp only at h
  split at h
  · cases h
  rename_i htools
  split at h
  · cases h
  rename_i hbudget
  cases h
  obtain ⟨r, hr, -⟩ := RunStore.readRun_eq_some hparent
  refine ⟨rfl, mem_heads.mpr ⟨r, hr⟩, ?_⟩
  intro p hp hid
  obtain ⟨d, hd, rfl⟩ := List.mem_map.mp hp
  have hfind : s.delegations.find? params.parentRunId = some d :=
    Table.find?_eq_some_iff.mpr ⟨hd, hid⟩
  have hread : s.readDelegation params.parentRunId =
      some { d with content := r.content, errorCode := r.errorCode, errorMessage := r.errorMessage } := by
    rw [RunStore.readDelegation, hfind, hr]
  simp only [hread, Option.any_some, not_or, Bool.not_eq_true, List.any_eq_false,
    decide_eq_true_eq, not_not, gt_iff_lt, Int.not_lt] at htools hbudget
  obtain ⟨-, -, hsubset⟩ := htools
  obtain ⟨-, -, -, -, hrounds, htokens, hcalls⟩ := hbudget
  exact ⟨_, hread, rfl, hsubset, hrounds, htokens, hcalls⟩

theorem subset_spec {tools names names' : List String} (h : subset tools names = .ok names') :
    names ⊆ tools := by
  induction names generalizing names' with
  | nil => exact List.nil_subset _
  | cons name names ih =>
    rw [subset] at h
    split at h
    · rename_i hname
      obtain ⟨rest, hrest, -⟩ := map_eq_ok.mp h
      exact List.cons_subset.mpr ⟨hname, ih hrest⟩
    · cases h

theorem grant_spec {c : Checked} {engine : LoopEngine} {env : Env} {request : DelegationRequest}
    (h : grant c engine env = .ok request) :
    (∃ child, request = c.request env child) ∧ Granted engine request := by
  unfold grant at h
  split at h
  · cases h
  rename_i htokens
  split at h
  · cases h
  rename_i narrowed hnarrow
  split at h
  · cases h
  rename_i child hchild
  cases h
  obtain ⟨tools, htools, -⟩ := bind_eq_ok.mp hnarrow
  refine ⟨⟨child, rfl⟩, subset_spec htools, ?_⟩
  show c.maxTokens ≤ engine.tokenBudget
  omega

theorem Checked.Sound.modest {a : Archive} {c : Checked} (h : c.Sound a) (env : Env)
    (child : SessionId) : Modest a (c.request env child) where
  known := h.known
  within := by
    intro p hp hid position run
    obtain ⟨record, hrecord, hdeadline, htools, hrounds, htokens, hcalls⟩ := h.within p hp hid
    refine ⟨htools, hrounds, htokens, hcalls, ?_⟩
    show (c.request env child).deadlineMs ≤ p.deadlineMs
    rw [Checked.request, hrecord, ← hdeadline]
    exact Int.min_le_right _ _

/-- What holds of a task at its stage. -/
def Stage.Sound (d : Spawner) (sessionId : SessionId) : Stage → Prop
  | .loading | .built _ => sessionId ≠ d.defaultSession
  | .opened engine => d.runtime? sessionId = some engine
  | .locking engine request | .admitting engine request =>
    d.runtime? request.parentSessionId = some engine ∧ Granted engine request ∧
      Modest d.store.archive request
  | _ => True

structure Task.Sound (d : Spawner) (t : Task) : Prop where
  checked : ∀ c, t.spawn = some c →
    c.Sound d.store.archive ∧ t.sessionId = c.params.parentSessionId
  stage : t.stage.Sound d t.sessionId

/-- `d'` has the runs and the runtimes of `d`, and the runs of `d` their place in the trees. -/
structure Extends (d d' : Spawner) : Prop where
  heads : ∀ id ∈ d.store.archive.heads.map Head.id, id ∈ d'.store.archive.heads.map Head.id
  terms : ∀ id ∈ d.store.archive.heads.map Head.id, ∀ p ∈ d'.store.archive.terms,
    p.childRunId = id → p ∈ d.store.archive.terms
  default : d'.defaultSession = d.defaultSession
  runtimes : ∀ sessionId engine, d.runtime? sessionId = some engine →
    d'.runtime? sessionId = some engine

theorem Extends.of_store {d d' : Spawner} (hstore : d'.store = d.store)
    (hdefault : d'.defaultSession = d.defaultSession)
    (hruntimes : ∀ sessionId engine, d.runtime? sessionId = some engine →
      d'.runtime? sessionId = some engine) : Extends d d' where
  heads := fun _ h => hstore ▸ h
  terms := fun _ _ _ hp _ => hstore ▸ hp
  default := hdefault
  runtimes := hruntimes

theorem extends_call (d : Spawner) (op : Op) :
    Extends d { d with store := d.store.next op } where
  heads := fun _ h => ((heads_next d.store op).map Head.id).subset h
  terms := fun _ hid _ hp e => mem_terms_of_next hid hp e
  default := rfl
  runtimes := fun _ _ => id

theorem Modest.extends {d d' : Spawner} (hext : Extends d d') {request : DelegationRequest}
    (h : Modest d.store.archive request) : Modest d'.store.archive request where
  known := hext.heads _ h.known
  within := fun p hp hid => h.within p (hext.terms _ h.known p hp hid) hid

theorem Task.Sound.extends {d d' : Spawner} (hext : Extends d d') {t : Task} (h : t.Sound d) :
    t.Sound d' where
  checked := by
    intro c hc
    obtain ⟨hs, hid⟩ := h.checked c hc
    exact ⟨⟨hext.heads _ hs.known,
      fun p hp e => hs.within p (hext.terms _ hs.known p hp e) e⟩, hid⟩
  stage := by
    have hs := h.stage
    cases hstage : t.stage with
    | looking => trivial
    | returned result => trivial
    | loading =>
      rw [hstage] at hs
      exact fun e => hs (e.trans hext.default)
    | built engine =>
      rw [hstage] at hs
      exact fun e => hs (e.trans hext.default)
    | opened engine =>
      rw [hstage] at hs
      exact hext.runtimes _ _ hs
    | locking engine request =>
      rw [hstage] at hs
      exact ⟨hext.runtimes _ _ hs.1, hs.2.1, hs.2.2.extends hext⟩
    | admitting engine request =>
      rw [hstage] at hs
      exact ⟨hext.runtimes _ _ hs.1, hs.2.1, hs.2.2.extends hext⟩

/-! ## One stretch -/

/-- The calls of the store that a stretch may make in `d`. -/
inductive Serves (d : Spawner) : Op → Prop
  | other {op : Op} (h : ∀ request clock, op ≠ .admitDelegation request clock) : Serves d op
  | delegated {engine : LoopEngine} {request : DelegationRequest} {clock : Clock}
      (runtime : d.runtime? request.parentSessionId = some engine) (granted : Granted engine request)
      (modest : Modest d.store.archive request) : Serves d (.admitDelegation request clock)

/-- What one stretch makes of the state. -/
structure Stretch (d d' : Spawner) : Prop where
  ext : Extends d d'
  store : d'.store = d.store ∨ ∃ op, Serves d op ∧ d'.store = d.store.next op
  tasks : ∀ t ∈ d'.tasks, t ∈ d.tasks ∨ t.Sound d'

theorem mem_setStage {d : Spawner} {i : Nat} {stage : Stage} {t : Task}
    (h : t ∈ (d.setStage i stage).tasks) :
    t ∈ d.tasks ∨ ∃ t₀, d.tasks[i]? = some t₀ ∧ t = { t₀ with stage } := by
  obtain ⟨k, hk⟩ := List.getElem?_of_mem h
  obtain ⟨t₀, ht₀, rfl⟩ := Slots.of_modify hk
  split
  · rename_i e
    exact .inr ⟨t₀, e ▸ ht₀, rfl⟩
  · exact .inl (List.mem_of_getElem? ht₀)

/-- A task comes to another stage, perhaps in a state that was changed before. -/
theorem Stretch.stage {d d₁ : Spawner} {i : Nat} {t : Task} {stage : Stage}
    (hd : ∀ t ∈ d.tasks, t.Sound d) (ht : d.tasks[i]? = some t) (hext : Extends d d₁)
    (htasks : d₁.tasks = d.tasks)
    (hstore : d₁.store = d.store ∨ ∃ op, Serves d op ∧ d₁.store = d.store.next op)
    (hstage : stage.Sound d₁ t.sessionId) : Stretch d (d₁.setStage i stage) where
  ext := ⟨hext.heads, hext.terms, hext.default, hext.runtimes⟩
  store := hstore
  tasks := by
    intro t' ht'
    rcases mem_setStage ht' with h | ⟨t₀, ht₀, rfl⟩
    · exact .inl (htasks ▸ h)
    · rw [htasks] at ht₀
      cases ht.symm.trans ht₀
      have hs := (hd t (List.mem_of_getElem? ht)).extends hext
      refine .inr ⟨hs.checked, ?_⟩
      cases stage <;> exact hstage

theorem Extends.refl (d : Spawner) : Extends d d := .of_store rfl rfl fun _ _ => id

theorem next_of_admitDelegation {s : RunStore} {request : DelegationRequest} {clock : Clock} :
    (∀ rec s', s.admitDelegation request clock = .ok (rec, s') →
      s.next (.admitDelegation request clock) = s') ∧
    ∀ e, s.admitDelegation request clock = .error e →
      s.next (.admitDelegation request clock) = s := by
  constructor
  · intro rec s' h
    refine RunStore.next_of_ok (r := .delegation rec) ?_
    rw [RunStore.exec, h]
    rfl
  · intro e h
    refine RunStore.next_of_error (e := e) ?_
    rw [RunStore.exec, h]
    rfl

theorem stretch_admitChild {d : Spawner} {i : Nat} {t : Task} {engine : LoopEngine}
    {request : DelegationRequest} (hd : ∀ t ∈ d.tasks, t.Sound d) (ht : d.tasks[i]? = some t)
    (hruntime : d.runtime? request.parentSessionId = some engine) (hgranted : Granted engine request)
    (hmodest : Modest d.store.archive request) (env : Env) : Stretch d (d.admitChild i request env) := by
  unfold Spawner.admitChild
  cases h : d.store.admitDelegation request env.clock with
  | error e => exact .stage hd ht (.refl d) rfl (.inl rfl) trivial
  | ok p =>
    obtain ⟨rec, s'⟩ := p
    have hs' := next_of_admitDelegation.1 rec s' h
    refine .stage hd ht (hs' ▸ extends_call d _) rfl (.inr ⟨_, ?_, hs'.symm⟩) trivial
    exact .delegated hruntime hgranted hmodest

theorem stretch_advance {d : Spawner} {i : Nat} {t : Task} (hd : ∀ t ∈ d.tasks, t.Sound d)
    (ht : d.tasks[i]? = some t) (env : Env) : Stretch d (d.advance i t env) := by
  have hsound := hd t (List.mem_of_getElem? ht)
  have hstage := hsound.stage
  have hset : ∀ stage : Stage, stage.Sound d t.sessionId → Stretch d (d.setStage i stage) :=
    fun stage h => .stage hd ht (.refl d) rfl (.inl rfl) h
  unfold Spawner.advance
  split
  · -- looking
    split
    · rename_i engine hengine
      exact hset _ hengine
    · rename_i hnone
      split
      · refine hset .loading fun e => ?_
        rw [Spawner.runtime?, if_pos e] at hnone
        cases hnone
      · exact hset _ trivial
  · -- loading
    rename_i e
    rw [e] at hstage
    split
    · split
      · exact hset _ trivial
      · exact hset (.built _) hstage
    · exact hset _ trivial
  · -- built
    rename_i engine e
    rw [e] at hstage
    split
    · rename_i other hother
      refine hset (.opened other) ?_
      show d.runtime? t.sessionId = some other
      rw [Spawner.runtime?, if_neg hstage, hother]
    · rename_i hnone
      have hlookup : ∀ sessionId, Spawner.lookup
          { d with sessions := d.sessions ++ [(t.sessionId, engine)] } sessionId =
            (d.lookup sessionId).or (if t.sessionId = sessionId then some engine else none) := by
        intro sessionId
        rw [Spawner.lookup, List.find?_append, List.find?_singleton, Option.map_or, Spawner.lookup]
        by_cases e : t.sessionId = sessionId <;> simp [e]
      refine .stage hd ht (.of_store rfl rfl ?_) rfl (.inl rfl) ?_
      · intro sessionId other h
        unfold Spawner.runtime? at h ⊢
        split
        · rename_i e
          rwa [if_pos e] at h
        · rename_i e
          rw [if_neg e] at h
          rw [hlookup, h]
          rfl
      · show Spawner.runtime? _ t.sessionId = some engine
        rw [Spawner.runtime?, if_neg hstage, hlookup, hnone, if_pos rfl]
        rfl
  · -- opened
    rename_i engine e
    rw [e] at hstage
    split
    · exact hset _ trivial
    · rename_i c hc
      obtain ⟨hchecked, hid⟩ := hsound.checked c hc
      split
      · exact hset _ trivial
      · rename_i request hgrant
        obtain ⟨⟨child, rfl⟩, hgranted⟩ := grant_spec hgrant
        refine hset _ ⟨?_, hgranted, hchecked.modest env child⟩
        show d.runtime? c.params.parentSessionId = some engine
        rw [← hid]
        exact hstage
  · -- locking
    rename_i engine request e
    rw [e] at hstage
    split
    · exact hset _ trivial
    · split
      · exact stretch_admitChild hd ht hstage.1 hstage.2.1 hstage.2.2 env
      · exact hset (.admitting engine request) hstage
  · -- admitting
    rename_i engine request e
    rw [e] at hstage
    split
    · exact stretch_admitChild hd ht hstage.1 hstage.2.1 hstage.2.2 env
    · exact hset _ trivial
  · exact ⟨.refl d, .inl rfl, fun t ht => .inl ht⟩

/-- A new task. -/
theorem stretch_enter {d : Spawner} {t : Task} (ht : t.Sound d) :
    Stretch d { d with tasks := d.tasks ++ [t] } where
  ext := .of_store rfl rfl fun _ _ => id
  store := .inl rfl
  tasks := by
    intro t' ht'
    rcases List.mem_append.mp ht' with h | h
    · exact .inl h
    · rw [List.mem_singleton.mp h]
      have hext : Extends d { d with tasks := d.tasks ++ [t] } := .of_store rfl rfl fun _ _ => id
      exact .inr (ht.extends hext)

theorem sound_other (d : Spawner) (sessionId : SessionId) :
    Task.Sound d ⟨sessionId, none, .looking⟩ where
  checked := by
    intro c h
    cases h
  stage := trivial

theorem stretch_next {d : Spawner} {a : Action} (hd : ∀ t ∈ d.tasks, t.Sound d)
    (ha : ∀ clock sessionId engine, a ≠ .restart clock sessionId engine) :
    Stretch d (d.next a) := by
  cases a with
  | spawn params fails =>
    rw [Spawner.next]
    split
    · refine stretch_enter ⟨?_, trivial⟩
      intro c h
      cases h
    · rename_i c hcheck
      obtain ⟨hparams, hc⟩ := check_sound hcheck
      refine stretch_enter ⟨?_, trivial⟩
      intro c' h
      cases h
      exact ⟨hc, congrArg SpawnSubagentParams.parentSessionId hparams.symm⟩
  | «open» sessionId => exact stretch_enter (sound_other d sessionId)
  | advance i env =>
    rw [Spawner.next]
    split
    · exact ⟨.refl d, .inl rfl, fun t ht => .inl ht⟩
    · rename_i t ht
      exact stretch_advance hd ht env
  | newSession sessionId =>
    rw [Spawner.next]
    split
    · exact ⟨.refl d, .inl rfl, fun t ht => .inl ht⟩
    · refine ⟨.of_store rfl rfl ?_, .inl rfl, fun t ht => .inl ht⟩
      intro other engine h
      unfold Spawner.runtime? at h ⊢
      split
      · rename_i e
        rwa [if_pos e] at h
      · rename_i e
        rw [if_neg e] at h
        rw [Spawner.lookup, Option.map_eq_some_iff] at h ⊢
        obtain ⟨entry, hentry, he⟩ := h
        exact ⟨entry, by rw [List.find?_append, hentry]; rfl, he⟩
  | call op =>
    have hother : (∀ request clock, op ≠ .admitDelegation request clock) →
        Stretch d { d with store := d.store.next op } :=
      fun hop => ⟨extends_call d op, .inr ⟨op, .other hop, rfl⟩, fun t ht => .inl ht⟩
    cases op with
    | admitDelegation request clock => exact ⟨.refl d, .inl rfl, fun t ht => .inl ht⟩
    | _ => exact hother nofun
  | restart clock sessionId engine => exact absurd rfl (ha clock sessionId engine)

/-! ## Every run -/

structure Spawner.Sound (d : Spawner) : Prop where
  reached : ∃ ops, d.store = storeAfter ops
  narrowing : Narrowing d.store.archive.terms
  tasks : ∀ t ∈ d.tasks, t.Sound d

/-- The children that an action admits: none, or one that is within its parent or, under a root,
within the engine of the session of the root. -/
theorem terms_step {d : Spawner} (hd : d.Sound) (a : Action) :
    (d.next a).store.archive.terms = d.store.archive.terms ∨
    ∃ t, (d.next a).store.archive.terms = d.store.archive.terms ++ [t] ∧
      Narrowing (d.store.archive.terms ++ [t]) ∧
      (UnderRoot d.store.archive.terms t → ∃ engine, d.runtime? t.parentSessionId = some engine ∧
        t.tools ⊆ engine.tools ∧ t.maxTokens ≤ engine.tokenBudget) := by
  have hstore : (d.next a).store = d.store ∨
      ∃ op, Serves d op ∧ (d.next a).store = d.store.next op := by
    by_cases ha : ∃ clock sessionId engine, a = .restart clock sessionId engine
    · obtain ⟨clock, sessionId, engine, rfl⟩ := ha
      exact .inr ⟨.recover clock, .other nofun, rfl⟩
    · exact (stretch_next hd.tasks fun clock sessionId engine e =>
        ha ⟨clock, sessionId, engine, e⟩).store
  rcases hstore with e | ⟨op, hop, e⟩
  · exact .inl (by rw [e])
  · rw [e]
    rcases terms_next d.store op with hsame | ⟨request, clock, parent, child, rfl, hspawns, hfresh, hnew⟩
    · exact .inl hsame
    · right
      cases hop with
      | other hother => exact absurd rfl (hother request clock)
      | delegated hruntime hgranted hmodest =>
        rename_i engine
        obtain ⟨ops, hops⟩ := hd.reached
        have hb : d.store.archive.Bounded := hops ▸ bounded_after ops
        refine ⟨_, hnew, ?_, fun _ => ⟨engine, hruntime, hgranted.tools, hgranted.tokens⟩⟩
        refine hd.narrowing.graft hb ?_ hmodest.known ?_ ?_
        · intro hm
          obtain ⟨r, hr⟩ := mem_heads.mp hm
          cases hfresh.symm.trans hr
        · have hroot := (childPosition_eq d.store parent).1
          rw [(RunStore.readRun_view hspawns.found).1] at hroot
          exact hroot
        · exact fun p hp hid => hmodest.within p hp hid _ _

theorem Spawner.Sound.next {d : Spawner} (hd : d.Sound) (a : Action) : (d.next a).Sound where
  reached := by
    obtain ⟨ops, hops⟩ := hd.reached
    have hone : ∀ op, d.store.next op = storeAfter (ops ++ [op]) := by
      intro op
      rw [storeAfter_append, ← hops]
      rfl
    by_cases ha : ∃ clock sessionId engine, a = .restart clock sessionId engine
    · obtain ⟨clock, sessionId, engine, rfl⟩ := ha
      exact ⟨_, hone _⟩
    · rcases (stretch_next hd.tasks fun clock sessionId engine e =>
        ha ⟨clock, sessionId, engine, e⟩).store with e | ⟨op, -, e⟩
      · exact ⟨ops, e.trans hops⟩
      · exact ⟨_, e.trans (hone op)⟩
  narrowing := by
    rcases terms_step hd a with e | ⟨t, e, hn, -⟩
    · rw [e]
      exact hd.narrowing
    · rw [e]
      exact hn
  tasks := by
    by_cases ha : ∃ clock sessionId engine, a = .restart clock sessionId engine
    · obtain ⟨clock, sessionId, engine, rfl⟩ := ha
      intro t ht
      cases ht
    · have hs := stretch_next hd.tasks fun clock sessionId engine e =>
        ha ⟨clock, sessionId, engine, e⟩
      intro t ht
      rcases hs.tasks t ht with h | h
      · exact (hd.tasks t h).extends hs.ext
      · exact h

variable (sessionId : SessionId) (engine : LoopEngine)

/-- The daemon after these actions. -/
def spawnerAfter (actions : List Action) : Spawner :=
  after Spawner.next (.init sessionId engine) actions

theorem sound_after (actions : List Action) : (spawnerAfter sessionId engine actions).Sound := by
  refine after_induct (G := fun _ _ => True) (I := Spawner.Sound) (fun d a hd _ => hd.next a) ?_
    (along_true _ _)
  refine ⟨⟨[], rfl⟩, ⟨?_, ?_⟩, ?_⟩
  · intro c hc
    cases hc
  · intro c hc
    cases hc
  · intro t ht
    cases ht

/-- No descendant has more authority than its ancestors. -/
structure Attenuated (actions : List Action) : Prop where
  /-- A child of a child is within its parent. -/
  parent : ∀ c ∈ (spawnerAfter sessionId engine actions).store.delegations.rows,
    ∀ p ∈ (spawnerAfter sessionId engine actions).store.delegations.rows,
      p.childRunId = c.parentRunId → c.terms.Within p.terms
  /-- A child of a root is, at its admission, within the engine of the session of the root. -/
  root : ∀ pre a post, actions = pre ++ a :: post →
    ∀ c ∈ (spawnerAfter sessionId engine (pre ++ [a])).store.delegations.rows,
      (spawnerAfter sessionId engine pre).store.delegations.find? c.childRunId = none →
      (spawnerAfter sessionId engine pre).store.delegations.find? c.parentRunId = none →
      ∃ e, (spawnerAfter sessionId engine pre).runtime? c.parentSessionId = some e ∧
        c.tools ⊆ e.tools ∧ c.maxTokens ≤ e.tokenBudget
  descendant : ∀ c ∈ (spawnerAfter sessionId engine actions).store.delegations.rows,
    ∀ p ∈ (spawnerAfter sessionId engine actions).store.delegations.rows,
      Relation.TransGen (spawnerAfter sessionId engine actions).store.Delegates
        p.childRunId c.childRunId → c.terms.Within p.terms
  /-- Above each child there is a child of its root that it is within. -/
  top : ∀ c ∈ (spawnerAfter sessionId engine actions).store.delegations.rows,
    ∃ t ∈ (spawnerAfter sessionId engine actions).store.delegations.rows,
      t.parentRunId = c.rootRunId ∧
      (spawnerAfter sessionId engine actions).store.delegations.find? c.rootRunId = none ∧
      c.terms.Within t.terms

variable {sessionId engine}

theorem within_of_delegates {s : RunStore}
    (hparent : ∀ c ∈ s.delegations.rows, ∀ p ∈ s.delegations.rows,
      p.childRunId = c.parentRunId → c.terms.Within p.terms)
    {p : Delegation} (hp : p ∈ s.delegations.rows) {id : RunId}
    (h : Relation.TransGen s.Delegates p.childRunId id) :
    ∀ c ∈ s.delegations.rows, c.childRunId = id → c.terms.Within p.terms := by
  have hsame : ∀ c ∈ s.delegations.rows, ∀ d ∈ s.delegations.rows,
      c.childRunId = d.childRunId → c = d :=
    fun c hc d hd e => s.delegations.eq_of_key_eq hc hd e
  induction h with
  | single hstep =>
    obtain ⟨d, hd, hdp, rfl⟩ := hstep
    intro c hc e
    cases hsame c hc d hd e
    exact hparent d hd p hp hdp.symm
  | tail hpath hstep ih =>
    obtain ⟨d, hd, hdp, rfl⟩ := hstep
    intro c hc e
    cases hsame c hc d hd e
    -- the run in between is a child too
    obtain ⟨z, -, m, hm, -, hmid⟩ := Relation.TransGen.tail'_iff.mp hpath
    exact (hparent d hd m hm (hmid.trans hdp.symm)).trans (ih m hm hmid)

/-- **Attenuation.** Over any run of spawns, answers to them and other calls, with restarts in
between, no child has more tools, budget or time than the runs above it. -/
theorem attenuated_after (sessionId : SessionId) (engine : LoopEngine) (actions : List Action) :
    Attenuated sessionId engine actions := by
  have hd := sound_after sessionId engine actions
  have hmem : ∀ {d : Spawner} {c}, c ∈ d.store.delegations.rows → c.terms ∈ d.store.archive.terms :=
    fun hc => List.mem_map_of_mem hc
  have hparent : ∀ c ∈ (spawnerAfter sessionId engine actions).store.delegations.rows,
      ∀ p ∈ (spawnerAfter sessionId engine actions).store.delegations.rows,
        p.childRunId = c.parentRunId → c.terms.Within p.terms :=
    fun c hc p hp hid => hd.narrowing.parent c.terms (hmem hc) p.terms (hmem hp) hid
  refine ⟨hparent, ?_, fun c hc p hp h => within_of_delegates hparent hp h c hc rfl, ?_⟩
  · rintro pre a post rfl c hc hnew hroot
    have hpre := sound_after sessionId engine pre
    have hnext : spawnerAfter sessionId engine (pre ++ [a]) =
        (spawnerAfter sessionId engine pre).next a := by
      rw [spawnerAfter, after_append]
      rfl
    rw [hnext] at hc
    have hold : c.terms ∉ (spawnerAfter sessionId engine pre).store.archive.terms := by
      intro hm
      obtain ⟨d, hd, e⟩ := List.mem_map.mp hm
      have hfind := Table.find?_of_mem hd
      rw [show d.childRunId = c.childRunId from congrArg Terms.childRunId e, hnew] at hfind
      cases hfind
    rcases terms_step hpre a with e | ⟨t, e, -, hunder⟩
    · exact absurd (e ▸ hmem hc) hold
    · have hc' := hmem hc
      rw [e] at hc'
      rcases List.mem_append.mp hc' with hm | hm
      · exact absurd hm hold
      · have hlast : c.terms = t := List.mem_singleton.mp hm
        subst hlast
        refine hunder fun p hp hid => ?_
        obtain ⟨d, hd, rfl⟩ := List.mem_map.mp hp
        have hfind := Table.find?_of_mem hd
        rw [show d.childRunId = c.parentRunId from hid, hroot] at hfind
        cases hfind
  · intro c hc
    obtain ⟨t, ht, hunder, hid, hw⟩ := hd.narrowing.top c.terms (hmem hc)
    obtain ⟨d, hdrow, rfl⟩ := List.mem_map.mp ht
    refine ⟨d, hdrow, hid, ?_, hw⟩
    cases hfind : (spawnerAfter sessionId engine actions).store.delegations.find? c.rootRunId with
    | none => rfl
    | some p =>
      have hp := hmem (Table.mem_of_find? hfind)
      exact absurd ((Table.key_of_find? hfind).trans hid.symm) (hunder p.terms hp)

/-- A spawn without limits of its own, under a root with an engine of 20000 tokens. -/
def oneSpawn : List Action :=
  [.call (.admitWithRoute ⟨"s"⟩ (.number 1) "a" .queue none 0),
    .call (.tryStartQueued (runIdOf 1) fun _ => 0),
    .spawn { parentSessionId := ⟨"s"⟩, parentRunId := runIdOf 1, spawnKey := "k", task := "t" } false,
    .advance 0 {}, .advance 0 {}, .advance 0 {}, .advance 0 { session := some ⟨"c"⟩ }, .advance 0 {},
    .advance 0 { active := some (runIdOf 1, false) }]

example : (spawnerAfter ⟨"d"⟩ ⟨["read_file"], none, none, 20000⟩ oneSpawn).store.delegations.rows.map
    (fun d => (d.tools, d.maxTokens, d.deadlineMs)) = [(["read_file"], 16000, 120000)] := by
  decide

end AgentDaemon.Daemon.Spawning
