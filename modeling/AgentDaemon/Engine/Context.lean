import AgentDaemon.Engine.Request
import AgentDaemon.Provider.Message
import Mathlib.Algebra.Ring.Nat

/-!
`ContextManager`: what is put before and after the history in a request, and the compression of
a history that has grown too long. What the provider answers to the request for a summary is an
input. Compression keeps the tool results next to their calls (`paired_compressHistory`).
-/

namespace AgentDaemon.Engine

open Provider

structure ContextConfig where
  tokenBudget : Nat
  recentMessages : Nat
  mildCompressionPercent : Nat
  strongCompressionPercent : Nat
  deriving DecidableEq, Repr

structure ContextManager where
  systemPrompt : String
  projectRules : Option String
  config : ContextConfig

inductive CompressionMode where
  | mild | strong
  deriving DecidableEq, Repr

/-! ## Estimates -/

def isCjk (c : Char) : Bool :=
  let n := c.toNat
  (0x3400 ≤ n && n ≤ 0x4DBF) || (0x4E00 ≤ n && n ≤ 0x9FFF) || (0xF900 ≤ n && n ≤ 0xFAFF)

def divCeil (a b : Nat) : Nat := (a + b - 1) / b

def estimateTextTokens (text : String) : Nat :=
  let cjk := text.toList.countP isCjk
  let other := text.toList.countP fun c => !isCjk c
  divCeil (cjk * 2) 3 + divCeil other 4

variable {Value : Type} (printer : Printer Value)

def estimateMessages (messages : List (Message Value)) : Nat :=
  (messages.map fun message =>
    (message.content.map estimateTextTokens).getD 0 +
      estimateTextTokens (printer.toolCalls message.toolCalls) +
      message.imageUrls.length * 384 + 6).sum

namespace ContextManager

variable (c : ContextManager)

/-- The system prompt and the rules, the history, and what `dynamic_environment` says. -/
def compose (history : List (Message Value)) (environment : String) : List (Message Value) :=
  .text .system c.systemPrompt ::
    ((c.projectRules.map fun rules =>
      Message.text .system ("项目规则（AGENTS.md）：\n" ++ rules)).toList ++
    history ++ [.text .system environment])

/-! ## Compression -/

/-- The loop that moves a cut to the left, off the tool messages. -/
def cutBefore (history : List (Message Value)) : Nat → Nat
  | 0 => 0
  | split + 1 =>
    if history[split + 1]?.any fun message => message.role = .tool then cutBefore history split
    else split + 1

/-- Where the history is cut, 0 where it is not. -/
def cut (history : List (Message Value)) (mode : CompressionMode) : Nat :=
  if history.length ≤ c.config.recentMessages then 0
  else
    let compressible := history.length - c.config.recentMessages
    cutBefore history (match mode with
      | .mild => max (divCeil compressible 3) 1
      | .strong => compressible)

/-- `summary` is what `summarize_text` makes of the messages before the cut. -/
def compressHistory (history : List (Message Value)) (mode : CompressionMode)
    (summary : Except EngineError String) : Except EngineError (List (Message Value)) :=
  match c.cut history mode with
  | 0 => .ok history
  | split =>
    match summary with
    | .error error => .error error
    | .ok summary => .ok (.text .system ("此前对话摘要：\n" ++ summary) :: history.drop split)

/-- The history goes on as the first component, whether or not the request could be composed. -/
def prepare (history : List (Message Value)) (tools : List (ToolSpec Value))
    (environment : String × String) (summary : Except EngineError String) :
    List (Message Value) × Except EngineError (List (Message Value)) :=
  let total := estimateMessages printer (c.compose history environment.1) +
    estimateTextTokens (printer.specs tools)
  let compressed :=
    if total > c.config.tokenBudget * c.config.strongCompressionPercent / 100 then
      c.compressHistory history .strong summary
    else if total > c.config.tokenBudget * c.config.mildCompressionPercent / 100 then
      c.compressHistory history .mild summary
    else .ok history
  match compressed with
  | .error error => (history, .error error)
  | .ok history => (history, .ok (c.compose history environment.2))

/-- A summary and a part of the history that was kept. -/
theorem compressHistory_eq_ok {history history' : List (Message Value)} {mode : CompressionMode}
    {summary : Except EngineError String} (h : c.compressHistory history mode summary = .ok history') :
    history' = history ∨ ∃ text split, history' = .text .system text :: history.drop split := by
  unfold compressHistory at h
  split at h
  · exact .inl (Except.ok.inj h).symm
  · split at h
    · cases h
    · exact .inr ⟨_, _, (Except.ok.inj h).symm⟩

theorem paired_compressHistory {history history' : List (Message Value)} {mode : CompressionMode}
    {summary : Except EngineError String} (hp : ToolsPaired history)
    (h : c.compressHistory history mode summary = .ok history') : ToolsPaired history' := by
  rcases c.compressHistory_eq_ok h with rfl | ⟨text, split, rfl⟩
  · exact hp
  · rw [← List.take_append_drop split history] at hp
    exact ⟨fun hne => absurd (asks_of_toolCalls_nil rfl) hne, hp.suffix⟩

theorem paired_prepare {history : List (Message Value)} (hp : ToolsPaired history)
    (tools : List (ToolSpec Value)) (environment : String × String)
    (summary : Except EngineError String) :
    ToolsPaired (c.prepare printer history tools environment summary).1 := by
  unfold prepare
  dsimp only
  split
  · exact hp
  · rename_i history' h
    split at h
    · exact c.paired_compressHistory hp h
    · split at h
      · exact c.paired_compressHistory hp h
      · cases h
        exact hp

end ContextManager

end AgentDaemon.Engine
