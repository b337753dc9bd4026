import AgentDaemon.Engine.Context
import Mathlib.Data.List.TakeWhile

/-!
`run_turn`: one turn of the ReAct loop, round after round. A round composes a request, lets the
model answer, and records an answer, a note on what was wrong with the calls, or the calls and
their results. What the surroundings do in a round (the provider, the tools, the cancellation and
every call of a store that fails) is its input. `tools_paired_iff` says in which turns the calls
stay paired with their results, in memory and in the session file.
-/

namespace AgentDaemon.Engine

open Provider Storage Transition

variable {Value : Type}

/-! ## Tools -/

inductive ToolAdmissionError where
  | unknownTool (name : String)
  | invalidArguments (tool message : String)
  deriving DecidableEq, Repr

namespace ToolAdmissionError

def code : ToolAdmissionError → String
  | unknownTool _ => "unknown_tool"
  | invalidArguments .. => "invalid_arguments"

def display : ToolAdmissionError → String
  | unknownTool name => "未知工具: " ++ name
  | invalidArguments tool message => "工具 " ++ tool ++ " 参数校验失败: " ++ message

end ToolAdmissionError

/-- The tools of a round; those of a dynamic source may differ from round to round. -/
structure ToolRegistry (Value : Type) where
  isReadOnly : String → Bool
  admission : String → Value → Except ToolAdmissionError Unit

def ToolRegistry.admitAll (tools : ToolRegistry Value) (calls : List (ToolCall Value)) :
    Except ToolAdmissionError Unit :=
  calls.forM fun call => tools.admission call.name call.arguments

structure ToolOutput (Value : Type) where
  content : String
  transientMessages : List (Message Value) := []

structure ToolFingerprint where
  toolName : String
  arguments : Nat
  result : Nat
  deriving DecidableEq, Repr

structure ToolExecution (Value : Type) where
  message : Message Value
  transientMessages : List (Message Value)
  fingerprint : ToolFingerprint
  failed : Bool
  error : Option String

/-- What becomes of one call: what the tool gives, and which call of the audit store fails. -/
structure ToolRun (Value : Type) where
  output : Except String (ToolOutput Value)
  startFails : Option RuntimeError := none
  storeFails : Option RuntimeError := none
  finishFails : Option RuntimeError := none

/-- The audit store takes the whole record of the call. -/
def ToolRun.Durable (run : ToolRun Value) : Prop :=
  run.startFails = none ∧ run.storeFails = none ∧ run.finishFails = none

instance (run : ToolRun Value) : Decidable run.Durable :=
  inferInstanceAs (Decidable (_ ∧ _ ∧ _))

/-- A call of the audit store, if there is one. -/
def audited (audit : Bool) (fails : Option RuntimeError) : Except RuntimeError Unit :=
  if audit then
    match fails with
    | some error => .error error
    | none => .ok ()
  else .ok ()

/-- The error of a tool is its result. -/
def outcomeOf : Except String (ToolOutput Value) → ToolOutput Value × Option String
  | .ok output => (output, none)
  | .error error => (⟨"工具执行错误: " ++ error, []⟩, some ("工具执行错误: " ++ error))

section Execution

variable (printer : Printer Value) (audit : Bool) (runs : ToolCall Value → ToolRun Value)

def executeOne (call : ToolCall Value) : Except RuntimeError (ToolExecution Value) := do
  audited audit (runs call).startFails
  let (result, error) := outcomeOf (runs call).output
  audited audit (runs call).storeFails
  audited audit (runs call).finishFails
  return {
    message := .toolResult call result.content
    transientMessages := result.transientMessages
    fingerprint := ⟨call.name, printer.fingerprintText (printer.value call.arguments),
      printer.fingerprintText result.content⟩
    failed := error.isSome
    error }

/-- Read-only calls that follow each other are one wave, every other call is a wave of its own.
A wave that fails is the last one. The number of calls is fuel enough. -/
def executeWaves (tools : ToolRegistry Value) :
    Nat → List (ToolCall Value) → Except RuntimeError (List (ToolExecution Value))
  | 0, _ | _, [] => .ok []
  | n + 1, call :: calls =>
    let readOnly := fun call : ToolCall Value => tools.isReadOnly call.name
    if readOnly call then do
      let batch ← (call :: calls.takeWhile readOnly).mapM (executeOne printer audit runs)
      let results ← executeWaves tools n (calls.dropWhile readOnly)
      return batch ++ results
    else do
      let result ← executeOne printer audit runs call
      let results ← executeWaves tools n calls
      return result :: results

def executeInWaves (tools : ToolRegistry Value) (calls : List (ToolCall Value)) :
    Except RuntimeError (List (ToolExecution Value)) :=
  executeWaves printer audit runs tools calls.length calls

end Execution

structure RepeatDetector where
  last : Option (List ToolFingerprint) := none
  count : Nat := 0

def RepeatDetector.observe (d : RepeatDetector) (fingerprints : List ToolFingerprint) :
    RepeatDetector :=
  if d.last = some fingerprints then { d with count := d.count + 1 }
  else ⟨some fingerprints, 1⟩

/-! ## The state of a turn -/

def maxConsecutiveToolFailures : Nat := 3

def repetitionThreshold : Nat := 3

def repetitionAbortThreshold : Nat := 10

def defaultProgressCheckpointRounds : Nat := 50

def repetitionReminderText : String :=
  "检测到连续重复的工具调用、参数与结果。可以继续使用任何工具，但请先判断该重复是否必要；若没有新信息，考虑换个思路或直接给出结论。"

def progressCheckpointReminder : String :=
  "这是一次长任务的进度检查点，不是终止信号。请核对当前计划和已完成工作：若任务已经完成，立即给出最终结论；若仍有必要工作，继续执行剩余步骤，避免重做已经完成的内容。"

/-- `u64::saturating_add`. -/
def saturatingAdd (a b : Nat) : Nat := min (a + b) (2 ^ 64 - 1)

/-- `session` says whether there is a session file, `audit` for which run the store is told of
the tools. `specs` is empty for a provider without tools. -/
structure LoopEngine (Value : Type) where
  context : ContextManager
  session : Bool
  audit : Option RunId
  specs : List (ToolSpec Value) := []
  roundLimit : Option Nat := none
  totalTokenBudget : Option Nat := none
  route : Option FrozenRoute := none

/-- How an append to the session file ends. One that fails may still have left its whole line
there (`kept`), as when the flush fails; a part of a line is not a message. -/
inductive Appending where
  | done
  | failed (error : String) (kept : Bool)
  deriving DecidableEq, Repr

/-- `session` is the session file, as the messages of its lines. -/
structure TurnState (Value : Type) where
  history : List (Message Value)
  session : List (Message Value)
  transientMessages : List (Message Value) := []
  repeatDetector : RepeatDetector := {}
  repetitionReminder : Bool := false
  consecutiveToolFailures : Nat := 0
  estimatedTotalTokens : Nat := 0
  round : Nat := 0
  result : Option (Except EngineError String) := none

/-- What the surroundings do in one round. -/
structure RoundInput (Value : Type) where
  /-- `dynamic_environment` before and after a compression. -/
  environment : String × String := ("", "")
  summary : Except EngineError String := .error (.other "")
  cancelled : Bool := false
  requests : List RequestInput := []
  usage : Except RuntimeError ProviderUsage := .ok ⟨none, none, none, none⟩
  tools : ToolRegistry Value := ⟨fun _ => true, fun _ _ => .ok ()⟩
  prepareFails : Option RuntimeError := none
  /-- The append of the message that the model's answer becomes. -/
  appended : Appending := .done
  runs : ToolCall Value → ToolRun Value := fun _ => ⟨.ok ⟨"", []⟩, none, none, none⟩
  /-- The cancellation is seen before the last tool has finished. -/
  interrupted : Bool := false
  /-- The append of the result of a call, by its place among the calls. -/
  resultAppended : Nat → Appending := fun _ => .done
  finishFails : Option RuntimeError := none

namespace TurnState

variable (s : TurnState Value)

def conclude (result : Except EngineError String) : TurnState Value :=
  { s with result := some result }

/-- First the session file, then the history. -/
def record (session : Bool) (message : Message Value) (appended : Appending)
    (k : TurnState Value → TurnState Value) : TurnState Value :=
  if session then
    match appended with
    | .done => k { s with history := s.history ++ [message], session := s.session ++ [message] }
    | .failed error kept =>
      { s with session := if kept then s.session ++ [message] else s.session }.conclude
        (.error (.other error))
  else k { s with history := s.history ++ [message] }

end TurnState

/-! ## One round -/

section Round

variable (json : Serde Value) (printer : Printer Value) (e : LoopEngine Value)

/-- How far a round gets without running a tool. -/
inductive Head (Value : Type) where
  | over (s : TurnState Value)
  | batch (s : TurnState Value) (calls : List (ToolCall Value)) (thinking : Option String)

/-- A system message instead of the calls, and the end after three of them in a row. -/
def reject (input : RoundInput Value) (note : String) (stop : Nat → String) (s : TurnState Value) :
    TurnState Value :=
  let s := { s with consecutiveToolFailures := s.consecutiveToolFailures + 1 }
  s.record e.session (.text .system note) input.appended fun s =>
  if s.consecutiveToolFailures ≥ maxConsecutiveToolFailures then
    s.conclude (.error (.other (stop s.consecutiveToolFailures)))
  else s

def estimateOutput : Response Value → Nat
  | .text text => estimateTextTokens text
  | .toolCalls calls =>
    (calls.map fun call => estimateTextTokens (printer.value call.arguments)).sum
  | .toolAssemblyFailed _ => 0

def Response.isText : Response Value → Bool
  | .text _ => true
  | _ => false

/-- The token budget of a delegated run. -/
def spend (input : RoundInput Value) (messages : List (Message Value)) (response : Response Value)
    (s : TurnState Value) (k : TurnState Value → Head Value) : Head Value :=
  match e.totalTokenBudget with
  | none => k s
  | some budget =>
    let estimateInput :=
      (messages.map fun message => (message.content.map estimateTextTokens).getD 0).sum
    let estimated := saturatingAdd s.estimatedTotalTokens
      (saturatingAdd estimateInput (estimateOutput printer response))
    let s := { s with estimatedTotalTokens := estimated }
    let usage := if e.audit.isSome then some <$> input.usage else .ok none
    match usage with
    | .error error => .over (s.conclude (.error (.runtime error)))
    | .ok usage =>
      let measured := (usage.map fun usage =>
        saturatingAdd (usage.inputTokens.getD 0) (usage.outputTokens.getD 0)).getD 0
      if max measured estimated > budget ∧ Response.isText response = false then
        .over (s.conclude (.error (.other ("子 Agent token 预算已耗尽：上限 " ++ toString budget))))
      else k s

/-- The answer of the model, up to the point where the tools are to run. -/
def answer (input : RoundInput Value) (output : ModelOutput Value) (s : TurnState Value) :
    Head Value :=
  match output.response with
  | .text text =>
    .over (s.record e.session (.assistantWithThinking text output.thinking) input.appended fun s =>
      s.conclude (.ok text))
  | .toolCalls calls =>
    if calls.isEmpty then
      .over (reject e input
        "[empty_tool_calls] 模型返回了空工具调用列表；请直接回答或生成有效工具调用。"
        (fun n => "连续 " ++ toString n ++ " 次收到空工具调用，已停止无效重试") s)
    else match input.tools.admitAll calls with
      | .error error =>
        .over (reject e input
          ("[tool_call_admission_error:" ++ error.code ++ "] " ++ error.display ++
            "。本轮没有执行任何工具；请修正全部调用后重试。")
          (fun n => "连续 " ++ toString n ++ " 次工具调用无效，已停止自动重试。最近错误：" ++
            error.display) s)
      | .ok () =>
        match audited e.audit.isSome input.prepareFails with
        | .error error => .over (s.conclude (.error (.runtime error)))
        | .ok () => .batch s calls output.thinking
  | .toolAssemblyFailed error =>
    .over (reject e input
      ("[tool_call_assembly_error:" ++ error.code ++ "] " ++ error.message ++
        "。本轮没有执行任何工具；请重新生成完整且合法的工具调用。")
      (fun n => "连续 " ++ toString n ++ " 次工具调用装配失败，已停止自动重试。最近错误：" ++
        error.message) s)

/-- The round up to the point where the tools are to run. A round whose request has not returned
yet is not over, and leaves the state as it is. -/
def head (s : TurnState Value) (input : RoundInput Value) : Head Value :=
  let round := s.round + 1
  match e.roundLimit.filter (round > ·) with
  | some limit =>
    .over ({ s with round }.conclude
      (.error (.other ("ReAct 循环达到最大轮次 " ++ toString limit ++ "，已停止"))))
  | none =>
    let checkpoint := e.roundLimit.isNone && round > 1 &&
      (round - 1) % defaultProgressCheckpointRounds = 0
    let (history, prepared) :=
      e.context.prepare printer s.history e.specs input.environment input.summary
    match prepared with
    | .error error => .over ({ s with round, history }.conclude (.error error))
    | .ok messages =>
      let messages := messages ++ s.transientMessages ++
        (if checkpoint then [.text .system progressCheckpointReminder] else []) ++
        (if s.repetitionReminder then [.text .system repetitionReminderText] else [])
      match (requestModel json (e.audit.map fun runId => ⟨runId, round⟩) e.route input.cancelled
          input.requests).result with
      | none => .over s
      | some (.error error) =>
        .over ({ s with round, history, repetitionReminder := false }.conclude (.error error))
      | some (.ok output) =>
        spend printer e input messages output.response
          { s with round, history, repetitionReminder := false } (answer e input output)

/-- The results, each recorded before the next. -/
def recordResults (input : RoundInput Value) (k : TurnState Value → TurnState Value) :
    Nat → List (ToolExecution Value) → TurnState Value → TurnState Value
  | _, [], s => k s
  | i, result :: results, s =>
    s.record e.session result.message (input.resultAppended i) fun s =>
    recordResults input k (i + 1) results
      { s with transientMessages := s.transientMessages ++ result.transientMessages }

/-- What follows when all results are recorded. -/
def closeBatch (input : RoundInput Value) (results : List (ToolExecution Value))
    (s : TurnState Value) : TurnState Value :=
  match audited e.audit.isSome input.finishFails with
  | .error error => s.conclude (.error (.runtime error))
  | .ok () =>
    let detector := s.repeatDetector.observe (results.map (·.fingerprint))
    let s := { s with
      repeatDetector := detector
      repetitionReminder := s.repetitionReminder || detector.count = repetitionThreshold }
    if detector.count ≥ repetitionAbortThreshold then
      s.conclude (.error (.other ("检测到同一组工具调用及结果连续重复 " ++ toString detector.count ++
        " 轮，判定为无进展循环，已停止；这不是任务轮次上限")))
    else
      let failures := results.countP (·.failed)
      if failures = 0 then { s with consecutiveToolFailures := 0 }
      else
        let s := { s with consecutiveToolFailures := s.consecutiveToolFailures + failures }
        if s.consecutiveToolFailures ≥ maxConsecutiveToolFailures then
          let detail := (results.reverse.findSome? (·.error)).getD "未提供错误详情"
          s.conclude (.error (.other ("连续 " ++ toString s.consecutiveToolFailures ++
            " 次工具执行失败，已停止自动重试。最近错误：" ++ detail)))
        else s

/-- The tools, once the message with the calls is recorded. -/
def finishBatch (input : RoundInput Value) (calls : List (ToolCall Value)) (s : TurnState Value) :
    TurnState Value :=
  if input.interrupted then s.conclude (.error (.runtime .cancelled))
  else match executeInWaves printer e.audit.isSome input.runs input.tools calls with
    | .error error => s.conclude (.error (.runtime error))
    | .ok results => recordResults e input (closeBatch e input results) 0 results s

/-- The calls and their results. -/
def runBatch (input : RoundInput Value) (calls : List (ToolCall Value)) (thinking : Option String)
    (s : TurnState Value) : TurnState Value :=
  s.record e.session (.assistantToolCallsWithThinking calls thinking) input.appended
    (finishBatch printer e input calls)

/-- One round. A turn that has returned does nothing more. -/
def turnRound (s : TurnState Value) (input : RoundInput Value) : TurnState Value :=
  if s.result.isSome then s
  else match head json printer e s input with
    | .over s => s
    | .batch s calls thinking => runBatch printer e input calls thinking s

/-- What the surroundings do before the first round. -/
structure TurnInput where
  input : String
  cancelled : Bool := false
  cancelledAtLock : Bool := false
  appended : Appending := .done

/-- Up to the first round, with the user's message recorded. -/
def beginTurn (input : TurnInput) (history session : List (Message Value)) : TurnState Value :=
  let s : TurnState Value := { history, session }
  if input.cancelled then s.conclude (.error (.runtime .cancelled))
  else if e.session && input.cancelledAtLock then s.conclude (.error (.runtime .cancelled))
  else s.record e.session (.text .user input.input) input.appended fun s => s

/-- `run_turn`, up to the round that the inputs go to. -/
def runTurn (input : TurnInput) (history session : List (Message Value))
    (rounds : List (RoundInput Value)) : TurnState Value :=
  after (turnRound json printer e) (beginTurn e input history session) rounds

end Round

/-! ## The results of a batch -/

section Batch

variable {printer : Printer Value} {e : LoopEngine Value} {audit : Bool}
  {runs : ToolCall Value → ToolRun Value} {tools : ToolRegistry Value} {input : RoundInput Value}

theorem audited_eq_ok {fails : Option RuntimeError} :
    audited audit fails = .ok () ↔ (audit = true → fails = none) := by
  unfold audited
  cases audit <;> cases fails <;> simp

/-- A call has a result of its own, unless the audit store fails. -/
theorem executeOne_eq_ok {call : ToolCall Value} {result : ToolExecution Value}
    (h : executeOne printer audit runs call = .ok result) :
    (audit = true → (runs call).Durable) ∧ ∃ content, result.message = .toolResult call content := by
  unfold executeOne at h
  obtain ⟨⟨⟩, h₁, h⟩ := Fallible.bind_eq_ok.mp h
  obtain ⟨⟨⟩, h₂, h⟩ := Fallible.bind_eq_ok.mp h
  obtain ⟨⟨⟩, h₃, h⟩ := Fallible.bind_eq_ok.mp h
  cases h
  exact ⟨fun ha => ⟨audited_eq_ok.mp h₁ ha, audited_eq_ok.mp h₂ ha, audited_eq_ok.mp h₃ ha⟩, _, rfl⟩

theorem exists_executeOne (printer : Printer Value) {call : ToolCall Value}
    (h : audit = true → (runs call).Durable) :
    ∃ result, executeOne printer audit runs call = .ok result := by
  have h₁ := audited_eq_ok.mpr fun ha => (h ha).1
  have h₂ := audited_eq_ok.mpr fun ha => (h ha).2.1
  have h₃ := audited_eq_ok.mpr fun ha => (h ha).2.2
  unfold executeOne
  rw [h₁, h₂, h₃]
  exact ⟨_, rfl⟩

/-- The waves give what the calls give one after the other. -/
theorem executeWaves_eq (n : Nat) (calls : List (ToolCall Value)) (h : calls.length ≤ n) :
    executeWaves printer audit runs tools n calls = calls.mapM (executeOne printer audit runs) := by
  induction n generalizing calls with
  | zero =>
    rw [List.length_eq_zero_iff.mp (Nat.le_zero.mp h)]
    rfl
  | succ n ih =>
    cases calls with
    | nil => rfl
    | cons call calls =>
      rw [List.length_cons] at h
      simp only [executeWaves]
      split
      · have hlen := List.length_dropWhile_le
          (fun call : ToolCall Value => tools.isReadOnly call.name) calls
        rw [ih _ (by omega)]
        conv_rhs =>
          rw [← List.takeWhile_append_dropWhile
            (p := fun call : ToolCall Value => tools.isReadOnly call.name) (l := calls),
            ← List.cons_append, List.mapM_append]
      · rw [ih _ (by omega), List.mapM_cons]

/-- The messages of a batch are the results of its calls, in their order. -/
theorem executeInWaves_eq_ok {calls : List (ToolCall Value)} {results : List (ToolExecution Value)}
    (h : executeInWaves printer audit runs tools calls = .ok results) :
    (audit = true → ∀ call ∈ calls, (runs call).Durable) ∧
    List.Forall₂ (fun call result => ∃ content, result.message = Message.toolResult call content)
      calls results := by
  rw [executeInWaves, executeWaves_eq _ _ (Nat.le_refl _)] at h
  refine ⟨fun ha call hm => ?_, (Fallible.mapM_eq_ok h).imp fun _ _ hr => (executeOne_eq_ok hr).2⟩
  obtain ⟨result, hr⟩ := Fallible.exists_ok_of_mapM h hm
  exact (executeOne_eq_ok hr).1 ha

theorem exists_executeInWaves (printer : Printer Value) (tools : ToolRegistry Value)
    {calls : List (ToolCall Value)} (h : audit = true → ∀ call ∈ calls, (runs call).Durable) :
    ∃ results, executeInWaves printer audit runs tools calls = .ok results := by
  rw [executeInWaves, executeWaves_eq _ _ (Nat.le_refl _)]
  cases hm : calls.mapM (executeOne printer audit runs) with
  | ok results => exact ⟨results, rfl⟩
  | error error =>
    obtain ⟨call, hc, herr⟩ := Fallible.mapM_eq_error hm
    obtain ⟨result, hr⟩ := exists_executeOne printer fun ha => h ha call hc
    cases herr.symm.trans hr

/-- The replies of a batch. -/
theorem replies_of_results {calls : List (ToolCall Value)} {results : List (ToolExecution Value)}
    (h : List.Forall₂ (fun call result => ∃ content, result.message = Message.toolResult call content)
      calls results) :
    (results.map (·.message)).map (toolDialogue Value).reply? =
        (calls.map fun call => some call.id).map some ∧
      ∀ m ∈ results.map (·.message), (toolDialogue Value).asks m = [] := by
  induction h with
  | nil => exact ⟨rfl, by simp⟩
  | cons hr _ ih =>
    obtain ⟨content, hr⟩ := hr
    simp only [List.map_cons, List.forall_mem_cons, hr, ih.1]
    exact ⟨rfl, rfl, ih.2⟩

/-! ## What a round does to the history and the session file -/

namespace TurnState

variable {s : TurnState Value}

/-- In memory and in the session file, the calls are paired with their results. -/
def Paired (s : TurnState Value) : Prop := ToolsPaired s.history ∧ ToolsPaired s.session

/-- Both logs have grown by the messages. -/
def Grown (session : Bool) (messages : List (Message Value)) (s s' : TurnState Value) : Prop :=
  s'.history = s.history ++ messages ∧
    s'.session = if session then s.session ++ messages else s.session

theorem Grown.trans {session : Bool} {messages messages' : List (Message Value)}
    {s₁ s' : TurnState Value} (h : Grown session messages s s₁) (h' : Grown session messages' s₁ s') :
    Grown session (messages ++ messages') s s' := by
  refine ⟨?_, ?_⟩
  · rw [h'.1, h.1, List.append_assoc]
  · rw [h'.2, h.2]
    split
    · rw [List.append_assoc]
    · rfl

theorem Paired.grown {session : Bool} {messages : List (Message Value)} {s' : TurnState Value}
    (h : s.Paired) (hg : Grown session messages s s')
    (hpaired : ∀ l, ToolsPaired l → ToolsPaired (l ++ messages)) : s'.Paired := by
  obtain ⟨hh, hs⟩ := hg
  refine ⟨hh ▸ hpaired _ h.1, hs ▸ ?_⟩
  split
  · exact hpaired _ h.2
  · exact h.2

/-- A message that is neither a call nor a result may be recorded. -/
theorem Paired.record {session : Bool} {message : Message Value} {appended : Appending}
    {k : TurnState Value → TurnState Value} (h : s.Paired) (hm : message.Plain)
    (hk : ∀ history session, Paired { s with history, session } →
      (k { s with history, session }).Paired) : (s.record session message appended k).Paired := by
  unfold TurnState.record
  split
  · split
    · exact hk _ _ ⟨hm.concat h.1, hm.concat h.2⟩
    · refine ⟨h.1, ?_⟩
      show ToolsPaired (if _ then _ else _)
      split
      · exact hm.concat h.2
      · exact h.2
  · exact hk _ s.session ⟨hm.concat h.1, h.2⟩

end TurnState

/-- Where the appends succeed, all results are recorded. -/
theorem recordResults_done (e : LoopEngine Value) (input : RoundInput Value)
    {k : TurnState Value → TurnState Value}
    (results : List (ToolExecution Value)) (i : Nat) (s : TurnState Value)
    (h : e.session = true → ∀ j < results.length, input.resultAppended (i + j) = .done) :
    ∃ s', recordResults e input k i results s = k s' ∧
      TurnState.Grown e.session (results.map (·.message)) s s' := by
  induction results generalizing i s with
  | nil => exact ⟨s, rfl, by simp [TurnState.Grown]⟩
  | cons result results ih =>
    have hrest : e.session = true → ∀ j < results.length, input.resultAppended (i + 1 + j) = .done := by
      intro he j hj
      have := h he (j + 1) (by simpa using hj)
      rwa [show i + 1 + j = i + (j + 1) by omega]
    simp only [recordResults, TurnState.record]
    by_cases he : e.session = true
    · have hfirst : input.resultAppended i = .done := h he 0 (by simp)
      obtain ⟨s', hs', hh, hf⟩ := ih (i + 1) _ hrest
      rw [if_pos he, hfirst]
      refine ⟨s', hs', ?_, ?_⟩
      · rw [hh, List.map_cons, List.append_assoc]
        rfl
      · rw [hf, if_pos he, if_pos he, List.map_cons, List.append_assoc]
        rfl
    · obtain ⟨s', hs', hh, hf⟩ := ih (i + 1) _ hrest
      rw [if_neg he]
      refine ⟨s', hs', ?_, ?_⟩
      · rw [hh, List.map_cons, List.append_assoc]
        rfl
      · rw [hf, if_neg he, if_neg he]

/-- Where one fails, the turn ends with a result missing in the history. -/
theorem recordResults_failed {k : TurnState Value → TurnState Value} (he : e.session = true)
    (results : List (ToolExecution Value)) (i : Nat) (s : TurnState Value) {j : Nat}
    (hj : j < results.length) (hfail : input.resultAppended (i + j) ≠ .done) :
    ∃ recorded, recorded.length < results.length ∧
      (recordResults e input k i results s).history = s.history ++ recorded ∧
      (recordResults e input k i results s).result.isSome = true := by
  induction results generalizing i j s with
  | nil => exact absurd hj (Nat.not_lt_zero j)
  | cons result results ih =>
    simp only [recordResults, TurnState.record, if_pos he]
    cases hi : input.resultAppended i with
    | failed error kept =>
      refine ⟨[], Nat.zero_lt_succ _, ?_, rfl⟩
      rw [List.append_nil]
      rfl
    | done =>
      cases j with
      | zero => exact absurd hi hfail
      | succ j =>
        obtain ⟨recorded, hlen, hh, hr⟩ := ih (i + 1) _ (j := j) (by simpa using hj)
          (by rwa [show i + 1 + j = i + (j + 1) by omega])
        refine ⟨result.message :: recorded, by simpa using hlen, ?_, hr⟩
        rw [hh, List.append_assoc]
        rfl

theorem closeBatch_frame (e : LoopEngine Value) (input : RoundInput Value)
    (results : List (ToolExecution Value)) (s : TurnState Value) :
    (closeBatch e input results s).history = s.history ∧
      (closeBatch e input results s).session = s.session := by
  unfold closeBatch
  split
  · exact ⟨rfl, rfl⟩
  · dsimp only
    split
    · exact ⟨rfl, rfl⟩
    · split
      · exact ⟨rfl, rfl⟩
      · split <;> exact ⟨rfl, rfl⟩

end Batch

/-! ## Pairing -/

section Pairing

variable (json : Serde Value) (printer : Printer Value) (e : LoopEngine Value)

/-- The tools are not interrupted, and no call of the audit store and no append of a result
fails. -/
def Finishes (input : RoundInput Value) (calls : List (ToolCall Value)) : Prop :=
  input.interrupted = false ∧
    (e.audit.isSome = true → ∀ call ∈ calls, (input.runs call).Durable) ∧
      (e.session = true → ∀ i < calls.length, input.resultAppended i = .done)

instance (input : RoundInput Value) (calls : List (ToolCall Value)) :
    Decidable (Finishes e input calls) :=
  inferInstanceAs (Decidable (_ ∧ _ ∧ _))

/-- Nothing comes between the message with the calls and the last of their results. Where the
append of the message itself fails, it must not have left its line in the session file. -/
def Undisturbed (input : RoundInput Value) (calls : List (ToolCall Value)) : Prop :=
  match e.session, input.appended with
  | true, .failed _ kept => kept = false
  | _, _ => Finishes e input calls

instance (input : RoundInput Value) (calls : List (ToolCall Value)) :
    Decidable (Undisturbed e input calls) := by
  unfold Undisturbed
  split <;> exact inferInstance

/-- If the round comes to a batch of calls, it is undisturbed. -/
def Closes (s : TurnState Value) (input : RoundInput Value) : Prop :=
  s.result = none →
    match head json printer e s input with
    | .over _ => True
    | .batch _ calls _ => Undisturbed e input calls

variable {json printer e} {s : TurnState Value} {input : RoundInput Value}

theorem paired_reject (h : s.Paired) (note : String) (stop : Nat → String) :
    (reject e input note stop s).Paired := by
  have hp : TurnState.Paired { s with consecutiveToolFailures := s.consecutiveToolFailures + 1 } := h
  refine hp.record ⟨(fun e => nomatch e), rfl⟩ fun history session hp' => ?_
  dsimp only
  split <;> exact hp'

/-- A round keeps the pairs up to its batch, and the calls of a batch have ids of their own. -/
def Head.Sound : Head Value → Prop
  | .over s => s.Paired
  | .batch s calls _ => s.Paired ∧ calls ≠ [] ∧ (calls.map (·.id)).Nodup

theorem sound_answer (h : s.Paired) {output : ModelOutput Value} (hspoken : Spoken json output) :
    (answer e input output s).Sound := by
  unfold answer
  split
  · exact h.record ⟨(fun e => nomatch e), rfl⟩ fun _ _ hp => hp
  · rename_i calls hcalls
    split
    · exact paired_reject h _ _
    · rename_i hne
      split
      · exact paired_reject h _ _
      · split
        · exact h
        · exact ⟨h, fun e => hne (by rw [e]; rfl), hspoken.nodup_ids hcalls⟩
  · exact paired_reject h _ _

theorem sound_spend (h : s.Paired) (messages : List (Message Value)) (response : Response Value)
    {k : TurnState Value → Head Value} (hk : ∀ s, s.Paired → (k s).Sound) :
    (spend printer e input messages response s k).Sound := by
  unfold spend
  split
  · exact hk s h
  · dsimp only
    split
    · exact h
    · split
      · exact h
      · exact hk _ h

theorem sound_head (json : Serde Value) (printer : Printer Value) (e : LoopEngine Value)
    (h : s.Paired) (input : RoundInput Value) :
    (head json printer e s input).Sound := by
  have hprep := e.context.paired_prepare printer h.1 e.specs input.environment input.summary
  unfold head
  generalize e.context.prepare printer s.history e.specs input.environment input.summary = p at hprep
  obtain ⟨history, prepared⟩ := p
  dsimp only
  split
  · exact h
  · split
    · exact ⟨hprep, h.2⟩
    · split
      · exact h
      · exact ⟨hprep, h.2⟩
      · rename_i hres
        exact sound_spend (by exact ⟨hprep, h.2⟩) _ _ fun s hs =>
          sound_answer hs (spoken_of_result hres)

/-- The message with the calls alone, or with too few results. -/
theorem not_paired_of_open {calls : List (ToolCall Value)} {thinking : Option String}
    {l recorded : List (Message Value)} (h : recorded.length < calls.length) :
    ¬ ToolsPaired (l ++ .assistantToolCallsWithThinking calls thinking :: recorded) :=
  Dialogue.not_paired_of_open (by simpa using h)

/-- A batch that finishes ends with all its results, any other one ends the turn with a result
missing in the history. -/
theorem finishBatch_cases (printer : Printer Value) (e : LoopEngine Value)
    (input : RoundInput Value) {calls : List (ToolCall Value)} (hne : calls ≠ [])
    (s : TurnState Value) :
    (Finishes e input calls ∧ ∃ results : List (ToolExecution Value),
      List.Forall₂ (fun call result => ∃ content, result.message = Message.toolResult call content)
        calls results ∧
      TurnState.Grown e.session (results.map (·.message)) s (finishBatch printer e input calls s)) ∨
    (¬ Finishes e input calls ∧ ∃ recorded : List (Message Value),
      recorded.length < calls.length ∧
      (finishBatch printer e input calls s).history = s.history ++ recorded ∧
      (finishBatch printer e input calls s).result.isSome = true) := by
  have hpos : 0 < calls.length := List.length_pos_iff.mpr hne
  unfold finishBatch
  cases hint : input.interrupted with
  | true =>
    refine .inr ⟨fun h => ?_, [], hpos, ?_, rfl⟩
    · cases hint.symm.trans h.1
    · rw [List.append_nil]
      rfl
  | false =>
    rw [if_neg (by decide)]
    cases hex : executeInWaves printer e.audit.isSome input.runs input.tools calls with
    | error error =>
      refine .inr ⟨fun h => ?_, [], hpos, ?_, rfl⟩
      · obtain ⟨results, hok⟩ := exists_executeInWaves printer input.tools h.2.1
        cases hex.symm.trans hok
      · rw [List.append_nil]
        rfl
    | ok results =>
      obtain ⟨hdurable, hresults⟩ := executeInWaves_eq_ok hex
      have hlen := hresults.length_eq
      by_cases hdone : e.session = true → ∀ i < calls.length, input.resultAppended i = .done
      · obtain ⟨s', hs', hgrown⟩ := recordResults_done e input (k := closeBatch e input results)
          results 0 s (by simpa only [Nat.zero_add, ← hlen] using hdone)
        obtain ⟨hh, hf⟩ := closeBatch_frame e input results s'
        refine .inl ⟨⟨hint, hdurable, hdone⟩, results, hresults, ?_⟩
        dsimp only
        rw [hs']
        exact ⟨hh.trans hgrown.1, hf.trans hgrown.2⟩
      · obtain ⟨he, i, hi, hfail⟩ : e.session = true ∧ ∃ i, i < calls.length ∧
            input.resultAppended i ≠ .done := by
          simpa only [Classical.not_imp, not_forall, exists_prop] using hdone
        refine .inr ⟨fun h => hdone h.2.2, ?_⟩
        rw [hlen]
        exact recordResults_failed he results 0 s (hlen ▸ hi) (by rwa [Nat.zero_add])

/-- The calls and their results may be appended to a log together. -/
theorem paired_batch {calls : List (ToolCall Value)} {results : List (ToolExecution Value)}
    (hnodup : (calls.map (·.id)).Nodup)
    (hresults : List.Forall₂
      (fun call result => ∃ content, result.message = Message.toolResult call content) calls results)
    (thinking : Option String) (l : List (Message Value)) (hl : ToolsPaired l) :
    ToolsPaired (l ++ .assistantToolCallsWithThinking calls thinking :: results.map (·.message)) := by
  obtain ⟨hreplies, hsilent⟩ := replies_of_results hresults
  refine Dialogue.Paired.exchange hl (by simp) (by simpa using hreplies) ?_ hsilent
  rw [asks_assistantToolCallsWithThinking]
  have hsome := hnodup.map (fun _ _ => Option.some.inj : Function.Injective (some : String → _))
  rwa [List.map_map] at hsome

/-- The turn is over, with a call whose result is missing. -/
def Broken (s : TurnState Value) : Prop := ¬ s.Paired ∧ s.result.isSome = true

theorem runBatch_finishes (h : s.Paired) {calls : List (ToolCall Value)} (hne : calls ≠ [])
    (hnodup : (calls.map (·.id)).Nodup) (thinking : Option String) (hf : Finishes e input calls)
    {s₁ : TurnState Value}
    (hg : TurnState.Grown e.session [.assistantToolCallsWithThinking calls thinking] s s₁) :
    (finishBatch printer e input calls s₁).Paired := by
  rcases finishBatch_cases printer e input hne s₁ with ⟨-, results, hresults, hg'⟩ | ⟨hno, -⟩
  · exact h.grown (hg.trans hg') (paired_batch hnodup hresults thinking)
  · exact absurd hf hno

theorem runBatch_disturbed {calls : List (ToolCall Value)} (hne : calls ≠ [])
    (thinking : Option String) (hf : ¬ Finishes e input calls) {s₁ : TurnState Value}
    (hh : s₁.history = s.history ++ [.assistantToolCallsWithThinking calls thinking]) :
    Broken (finishBatch printer e input calls s₁) := by
  rcases finishBatch_cases printer e input hne s₁ with ⟨hyes, -⟩ | ⟨-, recorded, hlen, hh', hr⟩
  · exact absurd hyes hf
  · refine ⟨fun hp => ?_, hr⟩
    have hhist := hp.1
    rw [hh', hh, List.append_assoc] at hhist
    exact not_paired_of_open hlen hhist

/-- A batch that is undisturbed keeps the pairs, any other one breaks them for good. -/
theorem runBatch_spec (h : s.Paired) {calls : List (ToolCall Value)} (hne : calls ≠ [])
    (hnodup : (calls.map (·.id)).Nodup) (thinking : Option String) :
    (Undisturbed e input calls → (runBatch printer e input calls thinking s).Paired) ∧
      (¬ Undisturbed e input calls → Broken (runBatch printer e input calls thinking s)) := by
  unfold runBatch TurnState.record Undisturbed
  by_cases he : e.session = true
  · rw [if_pos he, he]
    cases input.appended with
    | failed error kept =>
      refine ⟨?_, fun hk => ⟨fun hp => ?_, rfl⟩⟩
      · rintro rfl
        exact h
      · have hkept : kept = true := by simpa using hk
        have hsession := hp.2
        dsimp only [TurnState.conclude] at hsession
        rw [if_pos hkept] at hsession
        have hlen : ([] : List (Message Value)).length < calls.length := List.length_pos_iff.mpr hne
        exact not_paired_of_open hlen hsession
    | done =>
      refine ⟨fun hf => runBatch_finishes h hne hnodup thinking hf ⟨rfl, ?_⟩,
        fun hf => runBatch_disturbed hne thinking hf rfl⟩
      rw [if_pos he]
  · rw [if_neg he, (Bool.not_eq_true _).mp he]
    refine ⟨fun hf => runBatch_finishes h hne hnodup thinking hf ⟨rfl, ?_⟩,
      fun hf => runBatch_disturbed hne thinking hf rfl⟩
    rw [if_neg he]

theorem round_keeps (h : s.Paired) (hc : Closes json printer e s input) :
    (turnRound json printer e s input).Paired := by
  unfold turnRound
  split
  · exact h
  · rename_i hfree
    have hc' := hc (by simpa [Option.isSome_iff_ne_none] using hfree)
    have hsound := sound_head json printer e h input
    split
    · rename_i hhead
      rwa [hhead] at hsound
    · rename_i hhead
      rw [hhead] at hsound hc'
      exact (runBatch_spec hsound.1 hsound.2.1 hsound.2.2 _).1 hc'

theorem round_breaks (h : s.Paired) (hc : ¬ Closes json printer e s input) :
    Broken (turnRound json printer e s input) := by
  obtain ⟨hr, hc'⟩ := Classical.not_imp.mp hc
  have hsound := sound_head json printer e h input
  unfold turnRound
  rw [hr, if_neg (by simp)]
  split
  · rename_i hhead
    rw [hhead] at hc'
    exact absurd trivial hc'
  · rename_i hhead
    rw [hhead] at hsound hc'
    exact (runBatch_spec hsound.1 hsound.2.1 hsound.2.2 _).2 hc'

theorem paired_beginTurn {history session : List (Message Value)} (hh : ToolsPaired history)
    (hs : ToolsPaired session) (input : TurnInput) :
    (beginTurn e input history session).Paired := by
  have hp : TurnState.Paired ({ history, session } : TurnState Value) := ⟨hh, hs⟩
  unfold beginTurn
  dsimp only
  split
  · exact hp
  · split
    · exact hp
    · exact hp.record ⟨(fun e => nomatch e), rfl⟩ fun _ _ h => h

/-- **Tool-call pairing.** Whatever a turn meets, its history and its session file keep the calls
paired with their results exactly if no batch of calls is disturbed: an interruption of the tools,
a failing call of the audit store or a failing append between the calls and the last result leaves
a call without its result. -/
theorem tools_paired_iff (json : Serde Value) (printer : Printer Value) (e : LoopEngine Value)
    (input : TurnInput) {history session : List (Message Value)} (hh : ToolsPaired history)
    (hs : ToolsPaired session) (rounds : List (RoundInput Value)) :
    (ToolsPaired (runTurn json printer e input history session rounds).history ∧
      ToolsPaired (runTurn json printer e input history session rounds).session) ↔
    Along (turnRound json printer e) (Closes json printer e) (beginTurn e input history session)
      rounds := by
  refine after_iff_along (I := TurnState.Paired) (B := Broken) (fun s a h hc => round_keeps h hc)
    (fun s a h hc => round_breaks h hc) (fun s a hb => ?_) (fun s hb => hb.1)
    (paired_beginTurn hh hs input) rounds
  unfold turnRound
  rwa [if_pos hb.2]

end Pairing

/-! ## Two turns -/

instance (json : Serde Value) (printer : Printer Value) (e : LoopEngine Value)
    (s : TurnState Value) (input : RoundInput Value) : Decidable (Closes json printer e s input) := by
  unfold Closes
  have : Decidable (s.result = none) := decidable_of_iff _ Option.isNone_iff_eq_none
  cases head json printer e s input <;> exact inferInstance

def emptyJson : Serde Json := ⟨fun _ => .ok (.obj []), .obj []⟩

def emptyPrinter : Printer Json := ⟨fun _ => "{}", fun _ => "[]", fun _ => "[]", fun _ => 0⟩

/-- A daemon session without a budget or a route. -/
def sessionEngine : LoopEngine Json where
  context := ⟨"", none, 32000, 12, 60, 85⟩
  session := true
  audit := none

/-- The model calls `read_file`, and the tool fails. -/
def callingRound : RoundInput Json where
  requests := [{ stream := ⟨[(1, .responseStarted),
    (2, .toolCallStarted (.wire .openaiChat "a") "read_file"),
    (3, .toolCallDelta (.wire .openaiChat "a") (.append "\x7b\x7d")),
    (4, .toolCallCompleted (.wire .openaiChat "a")), (5, .protocolDone)], .finished, []⟩ }]
  runs := fun _ => ⟨.error "not found", none, none, none⟩

def textRound : RoundInput Json where
  requests := [{ stream := ⟨[(1, .textDelta "done")], .finished, []⟩ }]

theorem paired_callingRound :
    (runTurn emptyJson emptyPrinter sessionEngine ⟨"read", false, false, .done⟩ [] []
      [callingRound, textRound]).history.length = 4 ∧
    ToolsPaired (runTurn emptyJson emptyPrinter sessionEngine ⟨"read", false, false, .done⟩ [] []
      [callingRound, textRound]).history ∧
    ToolsPaired (runTurn emptyJson emptyPrinter sessionEngine ⟨"read", false, false, .done⟩ [] []
      [callingRound, textRound]).session :=
  ⟨by decide +kernel, (tools_paired_iff emptyJson emptyPrinter sessionEngine
    ⟨"read", false, false, .done⟩ (show ToolsPaired [] from trivial)
      (show ToolsPaired [] from trivial) [callingRound, textRound]).mpr
      (by decide +kernel)⟩

/-- A cancellation that arrives while the tool runs leaves the call without its result. -/
theorem not_paired_interrupted :
    ¬ ∀ (input : TurnInput) (history session : List (Message Json))
      (rounds : List (RoundInput Json)), ToolsPaired history → ToolsPaired session →
      (runTurn emptyJson emptyPrinter sessionEngine input history session rounds).result.isSome →
      ToolsPaired (runTurn emptyJson emptyPrinter sessionEngine input history session rounds).history ∧
      ToolsPaired (runTurn emptyJson emptyPrinter sessionEngine input history session rounds).session := by
  intro h
  have hpaired := h ⟨"read", false, false, .done⟩ [] [] [{ callingRound with interrupted := true }]
    trivial trivial (by decide +kernel)
  exact absurd hpaired.1 (by decide +kernel)

end AgentDaemon.Engine
