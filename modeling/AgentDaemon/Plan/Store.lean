import AgentDaemon.Ids
import AgentDaemon.Lib.Fallible
import AgentDaemon.Lib.FileTree
import AgentDaemon.Lib.Slots
import AgentDaemon.Lib.Text
import AgentDaemon.Lib.Transition
import AgentDaemon.Lib.Utf8

/-!
`PlanStore`: the plan of a workspace, in memory and in a file that is replaced as a whole. Its
operations work one after another under a lock, and each step on the file may fail. The plan stays
valid, the file agrees with it whenever nobody is at work, and it is what the operations that
succeeded have made of it, in their order (`planStore_atomic`).
-/

namespace AgentDaemon.Plan

open Fallible AgentDaemon.Path Transition

/-! ## Plans -/

inductive PlanStatus where
  | pending | inProgress | done
  deriving DecidableEq

def PlanStatus.display : PlanStatus → String
  | pending => "pending"
  | inProgress => "in_progress"
  | done => "done"

structure PlanStep where
  id : String
  description : String
  status : PlanStatus := .pending
  deriving DecidableEq

structure PlanState where
  steps : List PlanStep := []
  deriving DecidableEq

inductive PlanError where
  | emptyId
  | emptyDescription (id : String)
  | duplicateId (id : String)
  | missingStep (id : String)

def PlanError.text : PlanError → String
  | emptyId => "计划步骤 id 不能为空"
  | emptyDescription id => "计划步骤描述不能为空: " ++ id
  | duplicateId id => "计划步骤 id 重复: " ++ id
  | missingStep id => "找不到计划步骤: " ++ id

/-- The loop of `validate_steps`, with the ids seen so far. -/
def validateFrom (ids : List String) : List PlanStep → Except PlanError Unit
  | [] => .ok ()
  | step :: steps =>
    if blank step.id then .error .emptyId
    else if blank step.description then .error (.emptyDescription step.id)
    else if step.id ∈ ids then .error (.duplicateId step.id)
    else validateFrom (step.id :: ids) steps

def validateSteps (steps : List PlanStep) : Except PlanError Unit := validateFrom [] steps

def marker : PlanStatus → String
  | .pending => "[ ]"
  | .inProgress => "[>]"
  | .done => "[x]"

def renderPlan (steps : List PlanStep) : String :=
  if steps = [] then "当前计划为空"
  else
    let done := (steps.filter fun step => step.status = .done).length
    let output := "计划进度：" ++ toString done ++ "/" ++ toString steps.length ++ "\n" ++
      String.join (steps.map fun step => marker step.status ++ " " ++ step.id ++ " · " ++
        step.description ++ " (" ++ step.status.display ++ ")\n")
    .ofList (trimEndMatches isWhiteSpace output.toList)

inductive Operation where
  | set (steps : List PlanStep)
  | update (id : String) (status : PlanStatus)
  | add (step : PlanStep)

/-- The plan that an operation wants to commit. -/
def PlanState.apply (plan : PlanState) : Operation → Except PlanError PlanState
  | .set steps => do
    validateSteps steps
    .ok ⟨steps⟩
  | .update id status =>
    match plan.steps.findIdx? fun step => step.id = id with
    | none => .error (.missingStep id)
    | some i => .ok ⟨plan.steps.modify i fun step => { step with status }⟩
  | .add step => do
    validateSteps (plan.steps ++ [step])
    .ok ⟨plan.steps ++ [step]⟩

/-- The ids are unique, and neither they nor the descriptions are blank. -/
structure Valid (steps : List PlanStep) : Prop where
  ids : (steps.map PlanStep.id).Nodup
  id : ∀ step ∈ steps, blank step.id = false
  description : ∀ step ∈ steps, blank step.description = false

theorem validateFrom_ok {ids : List String} {steps : List PlanStep} :
    validateFrom ids steps = .ok () ↔ Valid steps ∧ ∀ step ∈ steps, step.id ∉ ids := by
  induction steps generalizing ids with
  | nil => exact iff_of_true rfl ⟨⟨.nil, nofun, nofun⟩, nofun⟩
  | cons step steps ih =>
    rw [validateFrom]
    constructor
    · intro h
      split at h
      · cases h
      rename_i hid
      split at h
      · cases h
      rename_i hdescription
      split at h
      · cases h
      rename_i hnew
      obtain ⟨hvalid, hfresh⟩ := ih.mp h
      have hne : step.id ∉ steps.map PlanStep.id := by
        intro hmem
        obtain ⟨other, hother, he⟩ := List.mem_map.mp hmem
        exact hfresh other hother (he ▸ List.mem_cons_self)
      refine ⟨⟨List.nodup_cons.mpr ⟨hne, hvalid.ids⟩, ?_, ?_⟩, ?_⟩
      · exact List.forall_mem_cons.mpr ⟨Bool.eq_false_iff.mpr hid, hvalid.id⟩
      · exact List.forall_mem_cons.mpr ⟨Bool.eq_false_iff.mpr hdescription, hvalid.description⟩
      · exact List.forall_mem_cons.mpr
          ⟨hnew, fun other hother hmem => hfresh other hother (List.mem_cons_of_mem _ hmem)⟩
    · rintro ⟨⟨hids, hid, hdescription⟩, hfresh⟩
      obtain ⟨hne, hids⟩ := List.nodup_cons.mp hids
      obtain ⟨hid₀, hid⟩ := List.forall_mem_cons.mp hid
      obtain ⟨hdescription₀, hdescription⟩ := List.forall_mem_cons.mp hdescription
      obtain ⟨hnew, hfresh⟩ := List.forall_mem_cons.mp hfresh
      rw [hid₀, hdescription₀, if_neg nofun, if_neg nofun, if_neg hnew]
      refine ih.mpr ⟨⟨hids, hid, hdescription⟩, fun other hother hmem => ?_⟩
      rcases List.mem_cons.mp hmem with he | hmem
      · exact hne (he ▸ List.mem_map_of_mem hother)
      · exact hfresh other hother hmem

theorem validateSteps_ok {steps : List PlanStep} : validateSteps steps = .ok () ↔ Valid steps := by
  rw [validateSteps, validateFrom_ok]
  exact ⟨And.left, fun h => ⟨h, nofun⟩⟩

/-- A change of the status changes neither ids nor descriptions. -/
theorem Valid.setStatus {steps : List PlanStep} (h : Valid steps) (i : Nat) (status : PlanStatus) :
    Valid (steps.modify i fun step => { step with status }) := by
  have hold : ∀ step ∈ steps.modify i (fun step => { step with status }),
      ∃ old ∈ steps, step.id = old.id ∧ step.description = old.description := by
    intro step hstep
    obtain ⟨k, hk⟩ := List.mem_iff_getElem?.mp hstep
    obtain ⟨old, hold, rfl⟩ := Slots.of_modify hk
    refine ⟨old, List.mem_of_getElem? hold, ?_⟩
    split <;> exact ⟨rfl, rfl⟩
  refine ⟨?_, fun step hstep => ?_, fun step hstep => ?_⟩
  · have hids : (steps.modify i fun step => { step with status }).map PlanStep.id =
        steps.map PlanStep.id := by
      refine List.ext_getElem? fun k => ?_
      rw [List.getElem?_map, List.getElem?_map, List.getElem?_modify]
      cases steps[k]? with
      | none => rfl
      | some step => by_cases hk : i = k <;> simp [hk]
    rw [hids]
    exact h.ids
  · obtain ⟨old, hmem, hid, -⟩ := hold step hstep
    rw [hid]
    exact h.id old hmem
  · obtain ⟨old, hmem, -, hdescription⟩ := hold step hstep
    rw [hdescription]
    exact h.description old hmem

theorem valid_of_apply {plan plan' : PlanState} {operation : Operation} (hvalid : Valid plan.steps)
    (h : plan.apply operation = .ok plan') : Valid plan'.steps := by
  cases operation with
  | set steps =>
    obtain ⟨hcheck, h⟩ := check_eq_ok.mp h
    cases h
    exact validateSteps_ok.mp hcheck
  | update id status =>
    rw [PlanState.apply] at h
    split at h
    · cases h
    · cases h
      exact hvalid.setStatus _ status
  | add step =>
    obtain ⟨hcheck, h⟩ := check_eq_ok.mp h
    cases h
    exact validateSteps_ok.mp hcheck

/-! ## The store -/

/-- What a store is made with. The last two are `serde_json` on a plan. -/
structure PlanHost where
  path : Option (List Name)
  pid : Nat
  toVecPretty : PlanState → List UInt8
  fromSlice : List UInt8 → Option PlanState

/-- The regular files. -/
abbrev Files := List Name → Option (List UInt8)

def planJson : Name := ⟨"plan.json".toList, by decide⟩

/-- `.{file_name}.tmp-{pid}`. -/
def temporaryName (pid : Nat) (fileName : Name) : Name where
  chars := '.' :: (fileName.chars ++ ".tmp-".toList ++ (toString pid).toList)
  valid := by
    have hpid : '/' ∉ (toString pid).toList := fun h => absurd (isDigit_of_mem_toString h) (by decide)
    refine ⟨by simp, by simp, ?_, ?_⟩
    · intro h
      have hlen := congrArg List.length h
      simp only [List.length_cons, List.length_append] at hlen
      have htmp : ".tmp-".toList.length = 5 := by decide
      simp at hlen
      omega
    · simp only [List.mem_cons, List.mem_append, not_or]
      exact ⟨by decide, ⟨fileName.valid.2.2.2, by decide⟩, hpid⟩

def temporaryFile (pid : Nat) (path : List Name) : List Name :=
  path.dropLast ++ [temporaryName pid (path.getLast?.getD planJson)]

def loadState (host : PlanHost) (files : Files) (path : List Name) : Except String PlanState :=
  match files path with
  | none => .ok {}
  | some bytes =>
    match host.fromSlice bytes with
    | none => .error ("解析计划失败: " ++ display path)
    | some plan => .ok plan

/-- Where an operation is; from `locked` on it has the mutation lock. -/
inductive PlanPhase where
  | waiting
  | locked
  | creatingDirectory (path : List Name) (next : PlanState)
  | writing (path : List Name) (next : PlanState)
  | replacing (path : List Name) (next : PlanState)
  | storing (next : PlanState)
  | returned (result : Except String String)

namespace PlanPhase

def held : PlanPhase → Bool
  | waiting | returned _ => false
  | _ => true

def next? : PlanPhase → Option PlanState
  | creatingDirectory _ next | writing _ next | replacing _ next | storing next => some next
  | _ => none

def path? : PlanPhase → Option (List Name)
  | creatingDirectory path _ | writing path _ | replacing path _ => some path
  | _ => none

/-- The plan is in the file, but not yet in memory. -/
def storing? : PlanPhase → Option PlanState
  | storing next => some next
  | _ => none

/-- What the operation does can not fail any more. -/
def committed : PlanPhase → Bool
  | storing _ | returned (.ok _) => true
  | _ => false

end PlanPhase

structure PlanCall where
  operation : Operation
  phase : PlanPhase

/-- `files` are what the file system has. -/
structure PlanStore where
  files : Files
  state : PlanState
  lock : Option Nat := none
  calls : List PlanCall := []

/-- The plan that a store starts with; `unreadable` where the file can not be read. -/
def initialState (host : PlanHost) (files : Files) (unreadable : Bool) : Except String PlanState :=
  match host.path with
  | none => .ok {}
  | some path =>
    if unreadable ∧ (files path).isSome then .error ("读取计划失败: " ++ display path)
    else loadState host files path

/-- `PlanStore::new`. -/
def PlanStore.new (host : PlanHost) (files : Files) (unreadable : Bool) :
    Except String PlanStore := do
  let state ← initialState host files unreadable
  match validateSteps state.steps with
  | .error error => .error error.text
  | .ok () => .ok { files, state }

/-- A step fails. `left` is what a write that fails leaves in the temporary file. -/
structure Fault where
  left : Option (List UInt8)

namespace PlanStore

section Steps

variable (host : PlanHost) (s : PlanStore)

def setPhase (i : Nat) (phase : PlanPhase) : PlanStore :=
  { s with calls := s.calls.modify i fun call => { call with phase } }

/-- The guard of the lock is dropped. -/
def finish (i : Nat) (result : Except String String) : PlanStore :=
  { s.setPhase i (.returned result) with lock := none }

def setFile (path : List Name) (bytes : Option (List UInt8)) : PlanStore :=
  { s with files := Function.update s.files path bytes }

/-- Where `persist_state` starts. -/
def persist (next : PlanState) : PlanPhase :=
  match host.path with
  | none => .storing next
  | some path => if path = [] then .writing path next else .creatingDirectory path next

def stepCall (i : Nat) (call : PlanCall) (fault : Option Fault) : PlanStore :=
  match call.phase with
  | .waiting => if s.lock = none then { s.setPhase i .locked with lock := some i } else s
  | .locked =>
    match s.state.apply call.operation with
    | .error error => s.finish i (.error error.text)
    | .ok next => s.setPhase i (persist host next)
  | .creatingDirectory path next =>
    match fault with
    | some _ => s.finish i (.error ("创建计划目录失败: " ++ display path.dropLast))
    | none => s.setPhase i (.writing path next)
  | .writing path next =>
    let temporary := temporaryFile host.pid path
    match fault with
    | some fault => (s.setFile temporary fault.left).finish i
        (.error ("写入临时计划失败: " ++ display temporary))
    | none => (s.setFile temporary (some (host.toVecPretty next))).setPhase i (.replacing path next)
  | .replacing path next =>
    let temporary := temporaryFile host.pid path
    match fault, s.files temporary with
    | none, some bytes =>
      ((s.setFile path (some bytes)).setFile temporary none).setPhase i (.storing next)
    | _, _ => s.finish i (.error ("提交计划失败: " ++ display path))
  | .storing next => { s.finish i (.ok (renderPlan next.steps)) with state := next }
  | .returned _ => s

inductive Event where
  | call (operation : Operation)
  /-- The next step of operation `i`. -/
  | step (i : Nat) (fault : Option Fault)

def next (s : PlanStore) : Event → PlanStore
  | .call operation => { s with calls := s.calls ++ [⟨operation, .waiting⟩] }
  | .step i fault =>
    match s.calls[i]? with
    | some call => s.stepCall host i call fault
    | none => s

end Steps

/-! ## Atomic operations -/

/-- The plan that the event puts in the place of the file. -/
def stores (s : PlanStore) : Event → Option PlanState
  | .call _ => none
  | .step i fault =>
    match s.calls[i]?.map PlanCall.phase, fault with
    | some (.replacing _ next), none => some next
    | _, _ => none

/-- The operation that succeeds with the event. -/
def succeeds (s : PlanStore) : Event → Option Operation
  | .call _ => none
  | .step i _ =>
    match s.calls[i]? with
    | some ⟨operation, .storing _⟩ => some operation
    | _ => none

/-- No operation is in progress. -/
def Idle (s : PlanStore) : Prop := ∀ call ∈ s.calls, call.phase.held = false

/-- The event changes the plan in memory or in the file. -/
def Changes (host : PlanHost) (s : PlanStore) (event : Event) : Prop :=
  (s.next host event).state ≠ s.state ∨
    ∃ path, host.path = some path ∧ (s.next host event).files path ≠ s.files path

structure Atomic (host : PlanHost) (s₀ : PlanStore) (events : List Event) : Prop where
  valid : Valid (after (next host) s₀ events).state.steps
  /-- At any time the file has a valid plan. -/
  file : ∀ path, host.path = some path →
    ∃ plan, loadState host (after (next host) s₀ events).files path = .ok plan ∧ Valid plan.steps
  agree : (after (next host) s₀ events).Idle → ∀ path, host.path = some path →
    loadState host (after (next host) s₀ events).files path =
      .ok (after (next host) s₀ events).state
  /-- Only operations that do not fail change anything. -/
  failed : ∀ pre event post, events = pre ++ event :: post →
    (after (next host) s₀ pre).Changes host event → ∃ (i : Nat) (fault : _) (call : _), event = .step i fault ∧
      (after (next host) s₀ events).calls[i]? = some call ∧ call.phase.committed = true
  /-- The plan is what the operations that succeeded have made of it, one after another. -/
  applied : (outputs (next host) succeeds s₀ events).foldlM PlanState.apply s₀.state =
    .ok (after (next host) s₀ events).state

/-! ## What a step keeps -/

/-- What the operation that has the lock knows. -/
structure Working (host : PlanHost) (s : PlanStore) (call : PlanCall) : Prop where
  next : ∀ plan, call.phase.next? = some plan → s.state.apply call.operation = .ok plan
  path : ∀ path, call.phase.path? = some path → host.path = some path
  temporary : ∀ path plan, call.phase = .replacing path plan →
    s.files (temporaryFile host.pid path) = some (host.toVecPretty plan)

structure Inv (host : PlanHost) (s : PlanStore) : Prop where
  lock : ∀ (i : Nat) call, s.calls[i]? = some call → call.phase.held = true → s.lock = some i
  working : ∀ (i : Nat) call, s.calls[i]? = some call → call.phase.held = true →
    s.Working host call
  valid : Valid s.state.steps
  agree : (∀ (i : Nat) call, s.calls[i]? = some call → call.phase.storing? = none) →
    ∀ path, host.path = some path → loadState host s.files path = .ok s.state
  stored : ∀ (i : Nat) call plan, s.calls[i]? = some call → call.phase = .storing plan →
    ∀ path, host.path = some path → loadState host s.files path = .ok plan

section Keeps

variable {host : PlanHost} {s : PlanStore}

theorem temporaryFile_ne (pid : Nat) (path : List Name) : temporaryFile pid path ≠ path := by
  intro he
  have hlast : path.getLast? = some (temporaryName pid (path.getLast?.getD planJson)) := by
    conv_lhs => rw [← he]
    rw [temporaryFile, List.getLast?_concat]
  rw [hlast, Option.getD_some, Option.some.injEq] at hlast
  have hlen := congrArg (fun name => name.chars.length) hlast
  simp only [temporaryName, List.length_cons, List.length_append] at hlen
  omega

theorem loadState_congr {files files' : Files} {path : List Name} (h : files path = files' path) :
    loadState host files path = loadState host files' path := by
  rw [loadState, loadState, h]

theorem held_of_storing {phase : PlanPhase} {plan : PlanState} (h : phase.storing? = some plan) :
    phase.held = true := by
  cases phase <;> first | rfl | cases h

/-- Only one operation works. -/
theorem Inv.alone (h : s.Inv host) {i k : Nat} (hlock : s.lock = none ∨ s.lock = some i) (hne : k ≠ i)
    {other : PlanCall} (hother : s.calls[k]? = some other) : other.phase.held = false := by
  refine Bool.eq_false_iff.mpr fun hheld => ?_
  have hk := h.lock k other hother hheld
  rcases hlock with hnone | hsome
  · rw [hk] at hnone
    cases hnone
  · rw [hk] at hsome
    exact hne (Option.some.inj hsome)

/-- The file has the plan that is in memory, or is about to be. -/
theorem Inv.file (h : s.Inv host) {i : Nat} {call : PlanCall} (hcall : s.calls[i]? = some call)
    (hlock : s.lock = none ∨ s.lock = some i) {path : List Name} (hpath : host.path = some path) :
    loadState host s.files path = .ok (call.phase.storing?.getD s.state) := by
  cases hstoring : call.phase.storing? with
  | none =>
    refine h.agree (fun k other hother => ?_) path hpath
    by_cases hk : k = i
    · subst hk
      cases hcall.symm.trans hother
      exact hstoring
    · refine Option.eq_none_iff_forall_ne_some.mpr fun plan hplan => ?_
      exact absurd (held_of_storing hplan) (by rw [h.alone hlock hk hother]; nofun)
  | some plan =>
    refine h.stored i call plan hcall ?_ path hpath
    revert hstoring
    cases call.phase <;> intro hstoring <;> cases hstoring
    rfl

/-- An operation that has the lock goes on to another phase. -/
theorem Inv.work {s' : PlanStore} (h : s.Inv host) {i : Nat} {call : PlanCall} (phase : PlanPhase)
    (hcall : s.calls[i]? = some call) (hlock : s.lock = none ∨ s.lock = some i)
    (hcalls : s'.calls = s.calls.modify i fun call => { call with phase })
    (hlock' : phase.held = true → s'.lock = some i) (hvalid : Valid s'.state.steps)
    (hworking : phase.held = true → s'.Working host ⟨call.operation, phase⟩)
    (hfile : ∀ path, host.path = some path →
      loadState host s'.files path = .ok (phase.storing?.getD s'.state)) : s'.Inv host := by
  have hself : s'.calls[i]? = some { call with phase } := by
    rw [hcalls, Slots.modify_self hcall]
  have hheld : ∀ (k : Nat) other, s'.calls[k]? = some other → other.phase.held = true →
      k = i ∧ other = { call with phase } := by
    intro k other hother hheld
    by_cases hk : k = i
    · subst hk
      exact ⟨rfl, Option.some.inj (hother.symm.trans hself)⟩
    · rw [hcalls, Slots.modify_other hk] at hother
      rw [h.alone hlock hk hother] at hheld
      cases hheld
  constructor
  · intro k other hother hk
    obtain ⟨rfl, rfl⟩ := hheld k other hother hk
    exact hlock' hk
  · intro k other hother hk
    obtain ⟨rfl, rfl⟩ := hheld k other hother hk
    exact hworking hk
  · exact hvalid
  · intro hnone path hpath
    rw [hfile path hpath, show phase.storing? = none from hnone i _ hself, Option.getD_none]
  · intro k other plan hother hstoring path hpath
    obtain ⟨rfl, rfl⟩ := hheld k other hother (by rw [hstoring]; rfl)
    replace hstoring : phase = .storing plan := hstoring
    rw [hfile path hpath, hstoring]
    rfl

/-- The operation fails, or ends before it has begun, and leaves the plan and its file. -/
theorem Inv.leave (h : s.Inv host) {i : Nat} {call : PlanCall} (hcall : s.calls[i]? = some call)
    (hlock : s.lock = some i) (hstoring : call.phase.storing? = none) {files : Files}
    (hfiles : ∀ path, host.path = some path → files path = s.files path)
    (result : Except String String) : ({ s with files }.finish i result).Inv host := by
  refine h.work (.returned result) hcall (.inr hlock) rfl nofun h.valid nofun ?_
  intro path hpath
  have hload := h.file hcall (.inr hlock) hpath
  rw [hstoring] at hload
  exact (loadState_congr (hfiles path hpath)).trans hload

/-- The write of the temporary file is no change of the plan. -/
theorem update_temporary (files : Files) (bytes : Option (List UInt8)) (path : List Name) :
    Function.update files (temporaryFile host.pid path) bytes path = files path :=
  Function.update_of_ne (temporaryFile_ne host.pid path).symm bytes files

theorem working_persist (host : PlanHost) {operation : Operation} {next : PlanState}
    (happly : s.state.apply operation = .ok next) :
    s.Working host ⟨operation, persist host next⟩ := by
  unfold persist
  split
  · exact ⟨fun plan hplan => by cases hplan; exact happly, nofun, nofun⟩
  · rename_i path hpath
    split
    · exact ⟨fun plan hplan => by cases hplan; exact happly,
        fun path' hpath' => by cases hpath'; exact hpath, nofun⟩
    · exact ⟨fun plan hplan => by cases hplan; exact happly,
        fun path' hpath' => by cases hpath'; exact hpath, nofun⟩

theorem Inv.stepCall (h : s.Inv host) {i : Nat} {call : PlanCall} (hcall : s.calls[i]? = some call)
    (fault : Option Fault) (hlaw : ∀ plan, s.stores (.step i fault) = some plan →
      host.fromSlice (host.toVecPretty plan) = some plan) : (s.stepCall host i call fault).Inv host := by
  obtain ⟨operation, phase⟩ := call
  have hheld : phase.held = true → s.lock = some i := fun hheld => h.lock i _ hcall hheld
  have hworking : phase.held = true → s.Working host ⟨operation, phase⟩ :=
    fun hheld => h.working i _ hcall hheld
  cases phase with
  | waiting =>
    simp only [PlanStore.stepCall]
    split
    · rename_i hfree
      exact h.work .locked hcall (.inl hfree) rfl (fun _ => rfl) h.valid
        (fun _ => ⟨nofun, nofun, nofun⟩) fun path hpath => h.file hcall (.inl hfree) hpath
    · exact h
  | locked =>
    have hlock := hheld rfl
    simp only [PlanStore.stepCall]
    split
    · exact h.leave hcall hlock rfl (fun _ _ => rfl) _
    · rename_i next happly
      refine h.work (persist host next) hcall (.inr hlock) rfl (fun _ => hlock) h.valid
        (fun _ => ?_) fun path hpath => ?_
      · obtain ⟨hnext, hpath, htemporary⟩ := working_persist host happly
        exact ⟨hnext, hpath, htemporary⟩
      · have hstoring : (persist host next).storing? = none := by
          rw [persist, hpath]
          dsimp only
          split <;> rfl
        rw [hstoring]
        exact h.file hcall (.inr hlock) hpath
  | creatingDirectory path next =>
    have hlock := hheld rfl
    obtain ⟨hnext, hpath, -⟩ := hworking rfl
    cases fault with
    | some fault => exact h.leave hcall hlock rfl (fun _ _ => rfl) _
    | none =>
      exact h.work (.writing path next) hcall (.inr hlock) rfl (fun _ => hlock) h.valid
        (fun _ => ⟨hnext, hpath, nofun⟩) fun path hpath => h.file hcall (.inr hlock) hpath
  | writing path next =>
    have hlock := hheld rfl
    obtain ⟨hnext, hpath, -⟩ := hworking rfl
    have hsame : ∀ bytes path', host.path = some path' →
        Function.update s.files (temporaryFile host.pid path) bytes path' = s.files path' := by
      intro bytes path' hpath'
      cases (hpath path rfl).symm.trans hpath'
      exact update_temporary s.files bytes path
    cases fault with
    | some fault => exact h.leave hcall hlock rfl (hsame fault.left) _
    | none =>
      refine h.work (.replacing path next) hcall (.inr hlock) rfl (fun _ => hlock) h.valid
        (fun _ => ⟨hnext, hpath, ?_⟩) fun path' hpath' => ?_
      · intro path' plan hphase
        cases hphase
        exact Function.update_self ..
      · exact (loadState_congr (hsame _ path' hpath')).trans (h.file hcall (.inr hlock) hpath')
  | replacing path next =>
    have hlock := hheld rfl
    obtain ⟨hnext, hpath, htemporary⟩ := hworking rfl
    cases fault with
    | some fault => exact h.leave hcall hlock rfl (fun _ _ => rfl) _
    | none =>
      simp only [PlanStore.stepCall, htemporary path next rfl]
      refine h.work (.storing next) hcall (.inr hlock) rfl (fun _ => hlock) h.valid
        (fun _ => ⟨hnext, nofun, nofun⟩) fun path' hpath' => ?_
      cases (hpath path rfl).symm.trans hpath'
      have hbytes : Function.update (Function.update s.files path (some (host.toVecPretty next)))
          (temporaryFile host.pid path) none path = some (host.toVecPretty next) := by
        rw [update_temporary, Function.update_self]
      have hread := hlaw next (by simp [stores, hcall])
      rw [loadState]
      simp only [PlanStore.setPhase, PlanStore.setFile, hbytes, hread, PlanPhase.storing?,
        Option.getD_some]
  | storing next =>
    have hlock := hheld rfl
    have happly := (hworking rfl).next next rfl
    exact h.work (.returned (.ok (renderPlan next.steps))) hcall (.inr hlock) rfl nofun
      (valid_of_apply h.valid happly) nofun fun path hpath => h.file hcall (.inr hlock) hpath
  | returned result => exact h

theorem Inv.next (h : s.Inv host) (event : Event) (hlaw : ∀ plan, s.stores event = some plan →
    host.fromSlice (host.toVecPretty plan) = some plan) : (s.next host event).Inv host := by
  cases event with
  | call operation =>
    have hold : ∀ (k : Nat) other, (s.next host (.call operation)).calls[k]? = some other →
        other.phase.held = true → s.calls[k]? = some other := by
      intro k other hother hheld
      rcases Slots.of_concat hother with hold | ⟨-, rfl⟩
      · exact hold
      · cases hheld
    refine ⟨fun k other hother hheld => h.lock k other (hold k other hother hheld) hheld,
      fun k other hother hheld => ?_, h.valid, fun hnone => h.agree fun k other hother => ?_,
      fun k other plan hother hstoring => ?_⟩
    · obtain ⟨hnext, hpath, htemporary⟩ := h.working k other (hold k other hother hheld) hheld
      exact ⟨hnext, hpath, htemporary⟩
    · exact hnone k other (Slots.append_of_some hother _)
    · exact h.stored k other plan (hold k other hother (by rw [hstoring]; rfl)) hstoring
  | step i fault =>
    simp only [PlanStore.next]
    split
    · rename_i call hcall
      exact h.stepCall hcall fault hlaw
    · exact h

theorem inv_new {files : Files} {unreadable : Bool} (h : PlanStore.new host files unreadable = .ok s) :
    s.Inv host := by
  obtain ⟨state, hload, h⟩ := bind_eq_ok.mp h
  split at h
  · cases h
  rename_i hvalid
  cases h
  refine ⟨nofun, nofun, validateSteps_ok.mp hvalid, fun _ path hpath => ?_, nofun⟩
  rw [initialState, hpath] at hload
  dsimp only at hload
  split at hload
  · cases hload
  · exact hload

/-! ## What a step changes -/

/-- Only the rename changes the file, and only what follows it changes the memory. -/
theorem next_cases (h : s.Inv host) (event : Event) :
    ((s.next host event).state = s.state ∧ s.succeeds event = none ∧
      ∀ path, host.path = some path → (s.next host event).files path = s.files path) ∨
    (∃ i call path plan, event = .step i none ∧ s.calls[i]? = some call ∧
      call.phase = .replacing path plan ∧ (s.next host event).state = s.state ∧
      (s.next host event).calls[i]? = some { call with phase := .storing plan }) ∨
    ∃ i fault call plan, event = .step i fault ∧ s.calls[i]? = some call ∧
      call.phase = .storing plan ∧
      s.next host event = { s.finish i (.ok (renderPlan plan.steps)) with state := plan } := by
  cases event with
  | call operation => exact .inl ⟨rfl, rfl, fun _ _ => rfl⟩
  | step i fault =>
    cases hcall : s.calls[i]? with
    | none =>
      left
      simp [PlanStore.next, succeeds, hcall]
    | some call =>
      obtain ⟨operation, phase⟩ := call
      have hnext : s.next host (.step i fault) = s.stepCall host i ⟨operation, phase⟩ fault := by
        rw [PlanStore.next, hcall]
      have hworking : phase.held = true → s.Working host ⟨operation, phase⟩ :=
        fun hheld => h.working i _ hcall hheld
      rw [hnext]
      cases phase with
      | waiting =>
        left
        simp only [PlanStore.stepCall, succeeds, hcall]
        split <;> exact ⟨rfl, trivial, fun _ _ => rfl⟩
      | locked =>
        left
        simp only [PlanStore.stepCall, succeeds, hcall]
        split <;> exact ⟨rfl, trivial, fun _ _ => rfl⟩
      | creatingDirectory path plan =>
        left
        cases fault <;> exact ⟨rfl, by simp [succeeds, hcall], fun _ _ => rfl⟩
      | writing path plan =>
        have hsame : ∀ bytes path', host.path = some path' →
            Function.update s.files (temporaryFile host.pid path) bytes path' = s.files path' := by
          intro bytes path' hpath'
          cases ((hworking rfl).path path rfl).symm.trans hpath'
          exact update_temporary s.files bytes path
        left
        cases fault with
        | some fault => exact ⟨rfl, by simp [succeeds, hcall], hsame fault.left⟩
        | none => exact ⟨rfl, by simp [succeeds, hcall], hsame _⟩
      | replacing path plan =>
        have htemporary := (hworking rfl).temporary path plan rfl
        cases fault with
        | some fault => exact .inl ⟨rfl, by simp [succeeds, hcall], fun _ _ => rfl⟩
        | none =>
          refine .inr (.inl ⟨i, _, path, plan, rfl, hcall, rfl, ?_, ?_⟩)
          · simp only [PlanStore.stepCall, htemporary]
            rfl
          · simp only [PlanStore.stepCall, htemporary]
            exact Slots.modify_self hcall _
      | storing plan => exact .inr (.inr ⟨i, fault, _, plan, rfl, hcall, rfl, rfl⟩)
      | returned result =>
        left
        exact ⟨rfl, by simp [succeeds, hcall], fun _ _ => rfl⟩

theorem changes_cases (h : s.Inv host) {event : Event} (hchange : s.Changes host event) :
    ∃ (i : Nat) (fault : _) (call : _), event = .step i fault ∧
      (s.next host event).calls[i]? = some call ∧ call.phase.committed = true := by
  rcases next_cases h event with ⟨hstate, -, hfiles⟩ | ⟨i, call, path, plan, rfl, -, -, -, hcall'⟩ |
    ⟨i, fault, call, plan, rfl, hcall, -, hnext⟩
  · rcases hchange with hne | ⟨path, hpath, hne⟩
    · exact absurd hstate hne
    · exact absurd (hfiles path hpath) hne
  · exact ⟨i, none, _, rfl, hcall', rfl⟩
  · refine ⟨i, fault, { call with phase := .returned (.ok (renderPlan plan.steps)) }, rfl, ?_, rfl⟩
    rw [hnext]
    exact Slots.modify_self hcall _

/-- The plan after a step is what the operation that succeeds with it makes of the plan before. -/
theorem applied_next (h : s.Inv host) (event : Event) :
    (s.succeeds event).toList.foldlM PlanState.apply s.state = .ok (s.next host event).state := by
  rcases next_cases h event with ⟨hstate, hnone, -⟩ |
    ⟨i, call, path, plan, rfl, hcall, hphase, hstate, -⟩ | ⟨i, fault, call, plan, rfl, hcall, hphase, hnext⟩
  · rw [hnone, hstate]
    rfl
  · obtain ⟨operation, phase⟩ := call
    cases hphase
    rw [hstate, show s.succeeds (.step i none) = none by simp [succeeds, hcall]]
    rfl
  · obtain ⟨operation, phase⟩ := call
    cases hphase
    have happly := (h.working i _ hcall rfl).next plan rfl
    rw [hnext, show s.succeeds (.step i fault) = some operation by simp [succeeds, hcall]]
    exact bind_eq_ok.mpr ⟨plan, happly, rfl⟩

theorem stepCall_other {i k : Nat} (hne : k ≠ i) (call : PlanCall) (fault : Option Fault) :
    (s.stepCall host i call fault).calls[k]? = s.calls[k]? := by
  have hmodify : ∀ phase, (s.setPhase i phase).calls[k]? = s.calls[k]? :=
    fun phase => Slots.modify_other hne _
  obtain ⟨operation, phase⟩ := call
  cases phase with
  | waiting =>
    simp only [PlanStore.stepCall]
    split
    · exact hmodify _
    · rfl
  | locked =>
    simp only [PlanStore.stepCall]
    split <;> exact hmodify _
  | creatingDirectory path next => cases fault <;> exact hmodify _
  | writing path next => cases fault <;> exact hmodify _
  | replacing path next =>
    simp only [PlanStore.stepCall]
    split <;> exact hmodify _
  | storing next => exact hmodify _
  | returned result => rfl

/-- What is committed stays so. -/
theorem committed_next (host : PlanHost) {i : Nat} {call : PlanCall} (hcall : s.calls[i]? = some call)
    (h : call.phase.committed = true) (event : Event) :
    ∃ call', (s.next host event).calls[i]? = some call' ∧ call'.phase.committed = true := by
  cases event with
  | call operation => exact ⟨call, Slots.append_of_some hcall _, h⟩
  | step k fault =>
    cases hother : s.calls[k]? with
    | none =>
      refine ⟨call, ?_, h⟩
      rw [PlanStore.next, hother]
      exact hcall
    | some other =>
      rw [PlanStore.next, hother]
      by_cases hk : i = k
      · subst hk
        cases hcall.symm.trans hother
        obtain ⟨operation, phase⟩ := call
        cases phase with
        | storing plan => exact ⟨_, Slots.modify_self hcall _, rfl⟩
        | returned result => exact ⟨_, hcall, h⟩
        | _ => cases h
      · exact ⟨call, (stepCall_other hk other fault).trans hcall, h⟩

theorem committed_after (host : PlanHost) {i : Nat} {call : PlanCall} (hcall : s.calls[i]? = some call)
    (h : call.phase.committed = true) (events : List Event) :
    ∃ call', (after (next host) s events).calls[i]? = some call' ∧
      call'.phase.committed = true := by
  induction events generalizing s call with
  | nil => exact ⟨call, hcall, h⟩
  | cons event events ih =>
    obtain ⟨call', hcall', h'⟩ := committed_next host hcall h event
    exact ih hcall' h'

/-- The plan that is put in the place of the file is read back as it is. -/
def ReadBack (host : PlanHost) (s : PlanStore) (event : Event) : Prop :=
  ∀ plan, s.stores event = some plan → host.fromSlice (host.toVecPretty plan) = some plan

theorem inv_after (h : s.Inv host) {events : List Event}
    (hlaw : Along (next host) (ReadBack host) s events) : (after (next host) s events).Inv host :=
  after_induct (fun _ event hs hread => hs.next event hread) h hlaw

/-- The file has a valid plan also while an operation is at work. -/
theorem Inv.valid_file (h : s.Inv host) {path : List Name} (hpath : host.path = some path) :
    ∃ plan, loadState host s.files path = .ok plan ∧ Valid plan.steps := by
  by_cases hstoring : ∃ (i : Nat) (call : _) (plan : _), s.calls[i]? = some call ∧
      call.phase = .storing plan
  · obtain ⟨i, call, plan, hcall, hphase⟩ := hstoring
    have happly := (h.working i call hcall (by rw [hphase]; rfl)).next plan (by rw [hphase]; rfl)
    exact ⟨plan, h.stored i call plan hcall hphase path hpath, valid_of_apply h.valid happly⟩
  · refine ⟨s.state, h.agree (fun i call hcall => ?_) path hpath, h.valid⟩
    cases hphase : call.phase with
    | storing plan => exact absurd ⟨i, call, plan, hcall, hphase⟩ hstoring
    | _ => rfl

theorem applied_after (h : s.Inv host) {events : List Event}
    (hlaw : Along (next host) (ReadBack host) s events) :
    (outputs (next host) succeeds s events).foldlM PlanState.apply s.state =
      .ok (after (next host) s events).state := by
  induction events generalizing s with
  | nil => rfl
  | cons event events ih =>
    rw [outputs, List.foldlM_append]
    exact bind_eq_ok.mpr ⟨_, applied_next h event, ih (h.next event hlaw.1) hlaw.2⟩

end Keeps

/-! ## Runs -/

private def analysis (status : PlanStatus) : PlanState := ⟨[⟨"1", "分析", status⟩]⟩

private def planText (plan : PlanState) : String :=
  "\x7b\n  \"steps\": [" ++ ",".intercalate (plan.steps.map fun step =>
    "\n    \x7b\n      \"id\": \"" ++ step.id ++ "\",\n      \"description\": \"" ++
      step.description ++ "\",\n      \"status\": \"" ++ step.status.display ++ "\"\n    \x7d") ++
    "\n  ]\n\x7d"

private def planHost : PlanHost where
  path := some [⟨"w".toList, by decide⟩, planJson]
  pid := 7
  toVecPretty plan := utf8 (planText plan).toList
  fromSlice bytes := [analysis .pending, analysis .inProgress, analysis .done].find? fun plan =>
    utf8 (planText plan).toList = bytes

/-- The first write fails, and the two operations after it wait for one another. -/
private def oneFailure : List Event :=
  [.call (.set (analysis .pending).steps), .step 0 none, .step 0 none, .step 0 none,
    .step 0 (some ⟨some [123]⟩), .call (.set (analysis .pending).steps), .step 1 none,
    .step 1 none, .call (.update "1" .inProgress), .step 2 none, .step 1 none, .step 1 none,
    .step 1 none, .step 1 none, .step 2 none, .step 2 none, .step 2 none, .step 2 none,
    .step 2 none, .step 2 none]

end PlanStore

end AgentDaemon.Plan
