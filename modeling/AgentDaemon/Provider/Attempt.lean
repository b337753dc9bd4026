import AgentDaemon.Ids
import Mathlib.Algebra.Ring.Nat

/-!
The provider records that the run store keeps: a frozen route snapshot and the audit
record of one provider attempt. Unsigned counters are naturals.
-/

namespace AgentDaemon.Provider

inductive ApiType where
  | openaiChat | anthropicMessages | ollama
  deriving DecidableEq, Repr

def ApiType.asStr : ApiType → String
  | .openaiChat => "openai-chat"
  | .anthropicMessages => "anthropic-messages"
  | .ollama => "ollama"

inductive TimeoutPhase where
  | connect | firstEvent | streamIdle | overall
  deriving DecidableEq, Repr

inductive ProviderErrorKind where
  | auth | accessDenied | rateLimit | quotaExceeded | invalidRequest | contextOverflow
  | contentPolicy | timeout (phase : TimeoutPhase) | transport | server | protocol
  | emptyCompletion | reasoningOnly | outputTruncated | cancelled
  deriving DecidableEq, Repr

structure ProviderDiagnostic where
  httpStatus : Option Nat
  upstreamCode : Option String
  requestId : Option String
  retryAfterMs : Option Nat
  redactedMessage : String
  deriving DecidableEq, Repr

structure ProviderUsage where
  inputTokens : Option Nat
  outputTokens : Option Nat
  cacheReadTokens : Option Nat
  cacheCreationTokens : Option Nat
  deriving DecidableEq, Repr

inductive AttemptStatus where
  | started | succeeded | failed | cancelled
  deriving DecidableEq, Repr

structure ProviderAttempt where
  attemptId : String
  runId : RunId
  round : Nat
  candidateIndex : Nat
  providerProfileId : String
  apiType : ApiType
  model : String
  status : AttemptStatus
  errorKind : Option ProviderErrorKind
  diagnostic : Option ProviderDiagnostic
  retryAfterMs : Option Nat
  streamCommitted : Bool
  startedAtMs : Int
  firstEventAtMs : Option Int
  finishedAtMs : Option Int
  usage : Option ProviderUsage
  deriving DecidableEq, Repr

structure RouteCandidate where
  profileId : String
  apiType : ApiType
  model : String
  baseUrlSha256 : String
  deriving DecidableEq, Repr

structure RetryPolicy where
  rateLimitRetries : Nat
  transportRetries : Nat
  serverRetries : Nat
  timeoutRetries : Nat
  protocolRetries : Nat
  maxBackoffMs : Nat
  deriving DecidableEq, Repr

structure TimeoutPolicy where
  connectMs : Nat
  firstEventMs : Nat
  streamIdleMs : Nat
  overallMs : Nat
  deriving DecidableEq, Repr

structure ContextPolicySnapshot where
  tokenBudget : Nat
  deriving DecidableEq, Repr

structure RouteSnapshot where
  candidates : List RouteCandidate
  retryPolicy : RetryPolicy
  timeoutPolicy : TimeoutPolicy
  contextPolicy : ContextPolicySnapshot
  configGeneration : Nat
  deriving DecidableEq, Repr

/-! Their `serde` images, as far as the event log carries them. -/

def TimeoutPhase.toJson : TimeoutPhase → Json
  | .connect => .str "connect"
  | .firstEvent => .str "first_event"
  | .streamIdle => .str "stream_idle"
  | .overall => .str "overall"

/-- `#[serde(tag = "kind", content = "phase")]`. -/
def ProviderErrorKind.toJson : ProviderErrorKind → Json
  | .auth => .obj [("kind", .str "auth")]
  | .accessDenied => .obj [("kind", .str "access_denied")]
  | .rateLimit => .obj [("kind", .str "rate_limit")]
  | .quotaExceeded => .obj [("kind", .str "quota_exceeded")]
  | .invalidRequest => .obj [("kind", .str "invalid_request")]
  | .contextOverflow => .obj [("kind", .str "context_overflow")]
  | .contentPolicy => .obj [("kind", .str "content_policy")]
  | .timeout phase => .obj [("kind", .str "timeout"), ("phase", phase.toJson)]
  | .transport => .obj [("kind", .str "transport")]
  | .server => .obj [("kind", .str "server")]
  | .protocol => .obj [("kind", .str "protocol")]
  | .emptyCompletion => .obj [("kind", .str "empty_completion")]
  | .reasoningOnly => .obj [("kind", .str "reasoning_only")]
  | .outputTruncated => .obj [("kind", .str "output_truncated")]
  | .cancelled => .obj [("kind", .str "cancelled")]

def AttemptStatus.toJson : AttemptStatus → Json
  | .started => .str "started"
  | .succeeded => .str "succeeded"
  | .failed => .str "failed"
  | .cancelled => .str "cancelled"

def jsonNat (n : Nat) : Json := .num n

def ProviderUsage.toJson (u : ProviderUsage) : Json :=
  .obj [("input_tokens", .ofOption jsonNat u.inputTokens),
    ("output_tokens", .ofOption jsonNat u.outputTokens),
    ("cache_read_tokens", .ofOption jsonNat u.cacheReadTokens),
    ("cache_creation_tokens", .ofOption jsonNat u.cacheCreationTokens)]

end AgentDaemon.Provider
