import AgentDaemon.Provider.Attempt

/-!
What follows a failed attempt: the decision of the retry policy and the circuit breaker of a
candidate. Times are in milliseconds.
-/

namespace AgentDaemon.Provider

/-! ## `RetryPolicy::decide` -/

inductive RetryDecision where
  | fail
  | retry (delayMs : Nat)
  | fallback
  deriving DecidableEq, Repr

namespace RetryPolicy

variable (p : RetryPolicy)

/-- How often an error of this kind may be retried on one candidate. -/
def budget : ProviderErrorKind → Nat
  | .rateLimit => p.rateLimitRetries
  | .transport => p.transportRetries
  | .server => p.serverRetries
  | .timeout .connect | .timeout .firstEvent | .timeout .streamIdle => p.timeoutRetries
  | .protocol => p.protocolRetries
  | _ => 0

def fallbackAllowed : ProviderErrorKind → Bool
  | .rateLimit | .transport | .server => true
  | .timeout .connect | .timeout .firstEvent | .timeout .streamIdle => true
  | .protocol => p.protocolRetries > 0
  | _ => false

/-- The exponent is at most 6, so nothing saturates or wraps. -/
def backoff (priorRetries : Nat) (retryAfterMs : Option Nat) : Nat :=
  let exponential := 100 * 2 ^ min priorRetries 6
  let jitter := (priorRetries * 47 + 31) % 67
  min (retryAfterMs.getD (exponential + jitter)) p.maxBackoffMs

def decide (kind : ProviderErrorKind) (priorRetries : Nat) (retryAfterMs : Option Nat)
    (safeToReplay moreCandidates : Bool) : RetryDecision :=
  if !safeToReplay then .fail
  else if p.budget kind > priorRetries then .retry (p.backoff priorRetries retryAfterMs)
  else if moreCandidates && p.fallbackAllowed kind then .fallback
  else .fail

end RetryPolicy

/-! ## `CircuitBreaker` -/

inductive CircuitState where
  | closed | «open» | halfOpen
  deriving DecidableEq, Repr

/-- `format!("{state:?}").to_ascii_lowercase()`. -/
def CircuitState.label : CircuitState → String
  | closed => "closed"
  | «open» => "open"
  | halfOpen => "halfopen"

structure CircuitEntry where
  failures : Nat := 0
  openedAt : Option Nat := none
  probeActive : Bool := false
  deriving DecidableEq, Repr

/-- A key that was never used has the default entry. -/
structure CircuitBreaker where
  entries : String → CircuitEntry := fun _ => {}
  openDuration : Nat := 30000

namespace CircuitBreaker

variable (b : CircuitBreaker)

def set (key : String) (entry : CircuitEntry) : CircuitBreaker :=
  { b with entries := fun k => if k = key then entry else b.entries k }

def acquire (now : Nat) (key : String) : CircuitState × CircuitBreaker :=
  let entry := b.entries key
  match entry.openedAt with
  | none => (.closed, b)
  | some openedAt =>
    if now - openedAt < b.openDuration || entry.probeActive then (.open, b)
    else (.halfOpen, b.set key { entry with probeActive := true })

def record (now : Nat) (key : String) (success transientFailure : Bool) :
    CircuitState × CircuitBreaker :=
  let entry := { b.entries key with probeActive := false }
  if success then (.closed, b.set key { entry with failures := 0, openedAt := none })
  else
    let entry := if transientFailure then { entry with failures := min (entry.failures + 1) (2 ^ 32 - 1) }
      else { entry with failures := 0, openedAt := none }
    if entry.failures ≥ 3 then (.open, b.set key { entry with openedAt := some now })
    else (.closed, b.set key entry)

end CircuitBreaker

end AgentDaemon.Provider
