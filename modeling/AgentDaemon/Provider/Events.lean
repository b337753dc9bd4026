import AgentDaemon.Lib.Base64
import AgentDaemon.Provider.Attempt

/-!
The events of a provider stream, the identities of the tool calls in it, and what a response
is assembled to. A JSON value is a type `Value`, of which `serde_json` is used through `Serde`.
-/

namespace AgentDaemon.Provider

/-- What the engine uses of `serde_json`. -/
structure Serde (Value : Type) where
  /-- `from_str`, with the text of its error. -/
  fromStr : String → Except String Value
  /-- `json!({})`. -/
  emptyObject : Value

/-! ## Identities of tool calls -/

inductive IdentitySource where
  | wireId (id : String)
  | position (position : Nat)
  deriving DecidableEq, Repr

structure ExecutionIdentity where
  domain : ApiType
  source : IdentitySource
  deriving DecidableEq, Repr

namespace ExecutionIdentity

def wire (domain : ApiType) (id : String) : ExecutionIdentity := ⟨domain, .wireId id⟩

def position (domain : ApiType) (position : Nat) : ExecutionIdentity := ⟨domain, .position position⟩

def encode (identity : ExecutionIdentity) : String :=
  match identity.source with
  | .wireId id =>
    "tc1:" ++ identity.domain.asStr ++ ":id:" ++
      String.ofList (Base64.encode id.toByteArray.data.toList)
  | .position position => "tc1:" ++ identity.domain.asStr ++ ":pos:" ++ toString position

private theorem ofList_data_injective {x y : String}
    (h : Base64.encode x.toByteArray.data.toList = Base64.encode y.toByteArray.data.toList) :
    x = y := by
  have e := Base64.encode_injective h
  exact String.toByteArray_inj.mp (ByteArray.ext (Array.toList_inj.mp e))

theorem encode_injective {a b : ExecutionIdentity} (h : a.encode = b.encode) : a = b := by
  obtain ⟨da, sa⟩ := a
  obtain ⟨db, sb⟩ := b
  have hl := congrArg String.toList h
  cases sa with
  | wireId x =>
    cases sb with
    | wireId y =>
      cases da <;> cases db <;> simp [encode, ApiType.asStr] at hl <;>
        rw [ofList_data_injective hl]
    | position n => cases da <;> cases db <;> simp [encode, ApiType.asStr] at hl
  | position m =>
    cases sb with
    | wireId y => cases da <;> cases db <;> simp [encode, ApiType.asStr] at hl
    | position n =>
      cases da <;> cases db <;> simp [encode, ApiType.asStr] at hl <;>
        rw [toDigits_inj hl]

end ExecutionIdentity

/-! ## Events -/

inductive ToolArgumentsFragment where
  | append (fragment : String)
  | authoritativeSnapshot (snapshot : String)
  deriving DecidableEq, Repr

structure ToolCallStreamError where
  code : String
  message : String
  deriving DecidableEq, Repr

inductive ProviderEvent where
  | responseStarted
  | protocolDone
  | usage (usage : ProviderUsage)
  | textDelta (text : String)
  | thinkingDelta (text : String)
  /-- The response was cut off at the limit of output tokens. -/
  | outputTruncated
  | toolCallStarted (execId : ExecutionIdentity) (name : String)
  | toolCallDelta (execId : ExecutionIdentity) (fragment : ToolArgumentsFragment)
  | toolCallCompleted (execId : ExecutionIdentity)
  | toolCallFailed (error : ToolCallStreamError)
  deriving DecidableEq, Repr

/-- `id` is the execution identity of the agent, not the id on the wire. -/
structure ToolCall (Value : Type) where
  id : String
  name : String
  arguments : Value
  deriving DecidableEq, Repr

inductive Response (Value : Type) where
  | text (text : String)
  | toolCalls (calls : List (ToolCall Value))
  | toolAssemblyFailed (error : ToolCallStreamError)
  deriving DecidableEq, Repr

def ProviderUsage.mergePartial (u other : ProviderUsage) : ProviderUsage where
  inputTokens := other.inputTokens.or u.inputTokens
  outputTokens := other.outputTokens.or u.outputTokens
  cacheReadTokens := other.cacheReadTokens.or u.cacheReadTokens
  cacheCreationTokens := other.cacheCreationTokens.or u.cacheCreationTokens

end AgentDaemon.Provider
