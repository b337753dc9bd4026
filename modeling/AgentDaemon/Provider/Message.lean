import AgentDaemon.Lib.Dialogue
import AgentDaemon.Provider.Events

/-!
The messages of a conversation. An assistant message asks for the results of its tool calls, a
tool message is the result of one call.
-/

namespace AgentDaemon.Provider

inductive Role where
  | system | user | assistant | tool
  deriving DecidableEq, Repr

structure Message (Value : Type) where
  role : Role
  content : Option String
  thinking : Option String
  toolCalls : List (ToolCall Value)
  toolCallId : Option String
  name : Option String
  imageUrls : List String
  deriving DecidableEq, Repr

structure ToolSpec (Value : Type) where
  name : String
  description : String
  parameters : Value

variable {Value : Type}

namespace Message

def text (role : Role) (content : String) : Message Value :=
  ⟨role, some content, none, [], none, none, []⟩

def assistantToolCalls (calls : List (ToolCall Value)) : Message Value :=
  ⟨.assistant, none, none, calls, none, none, []⟩

def toolResult (call : ToolCall Value) (content : String) : Message Value :=
  ⟨.tool, some content, none, [], some call.id, some call.name, []⟩

def assistantWithThinking (content : String) (thinking : Option String) : Message Value :=
  ⟨.assistant, some content, thinking, [], none, none, []⟩

def assistantToolCallsWithThinking (calls : List (ToolCall Value)) (thinking : Option String) :
    Message Value :=
  if thinking.isNone then assistantToolCalls calls
  else ⟨.assistant, none, thinking, calls, none, none, []⟩

end Message

/-- What the engine uses of the printing side of `serde_json`, and the hash of a text. -/
structure Printer (Value : Type) where
  value : Value → String
  toolCalls : List (ToolCall Value) → String
  specs : List (ToolSpec Value) → String
  fingerprintText : String → Nat

/-! ## Tool calls and their results -/

/-- The ids of the calls an assistant message makes; of a tool message, the id it carries. -/
def toolDialogue (Value : Type) : Dialogue (Message Value) (Option String) where
  asks m := if m.role = .assistant then m.toolCalls.map fun call => some call.id else []
  reply? m := if m.role = .tool then some m.toolCallId else none

/-- Each assistant message with tool calls is followed by one tool message for each call id, in
the order of the calls, before any other message. -/
abbrev ToolsPaired (history : List (Message Value)) : Prop := (toolDialogue Value).Paired history

section Dialogue

@[simp] theorem asks_assistantToolCallsWithThinking (calls : List (ToolCall Value))
    (thinking : Option String) :
    (toolDialogue Value).asks (.assistantToolCallsWithThinking calls thinking) =
      calls.map fun call => some call.id := by
  unfold Message.assistantToolCallsWithThinking
  split <;> rfl

@[simp] theorem reply?_assistantToolCallsWithThinking (calls : List (ToolCall Value))
    (thinking : Option String) :
    (toolDialogue Value).reply? (.assistantToolCallsWithThinking calls thinking) = none := by
  unfold Message.assistantToolCallsWithThinking
  split <;> rfl

@[simp] theorem asks_toolResult (call : ToolCall Value) (content : String) :
    (toolDialogue Value).asks (.toolResult call content) = [] := rfl

@[simp] theorem reply?_toolResult (call : ToolCall Value) (content : String) :
    (toolDialogue Value).reply? (.toolResult call content) = some (some call.id) := rfl

/-- Neither a tool message nor one that calls tools. -/
def Message.Plain (m : Message Value) : Prop := m.role ≠ .tool ∧ m.toolCalls = []

theorem asks_of_toolCalls_nil {m : Message Value} (h : m.toolCalls = []) :
    (toolDialogue Value).asks m = [] := by
  simp [toolDialogue, h]

theorem Message.Plain.concat {m : Message Value} (h : m.Plain) {history : List (Message Value)}
    (hp : ToolsPaired history) : ToolsPaired (history ++ [m]) :=
  Dialogue.Paired.concat hp (asks_of_toolCalls_nil h.2) (if_neg h.1)

end Dialogue

end AgentDaemon.Provider
