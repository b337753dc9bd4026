import AgentDaemon.Lib.ByteLines
import AgentDaemon.Lib.Text
import AgentDaemon.Lib.Utf8
import AgentDaemon.Provider.Events
import Mathlib.Data.List.Basic
import Mathlib.Algebra.Ring.Int.Defs
import Mathlib.Algebra.Ring.Nat

/-!
What the adapters of the providers share: the channel that the events of a response are sent
to, and the error a response ends with. `Wired` and `Counted` are the two ways in which an adapter
gives identities to the tool calls of a response.
-/

namespace AgentDaemon.Provider

/-- The events sent so far. -/
structure Sender where
  events : List ProviderEvent := []

/-- What `ProviderError::new` is given. -/
structure AdapterError where
  kind : ProviderErrorKind
  message : String
  deriving DecidableEq, Repr

/-- `sanitize_provider_error`, for an error that is not one of a provider. -/
def AdapterError.sanitized : AdapterError := ⟨.protocol, "Provider 协议数据无效"⟩

/-- The text of a `data:` line. -/
def dataOf (line : List UInt8) : Option (List Char) :=
  ((fromUtf8Lossy line).dropPrefix? "data:".toList).map (·.dropWhile isWhiteSpace)

/-- The check at the end of a stream. -/
def expectDone {σ : Type} (done : Bool) (message : String) (s : σ) : Except (AdapterError × σ) σ :=
  if done then .ok s else .error (⟨.protocol, message⟩, s)

@[simp] theorem last_expectDone {σ : Type} (done : Bool) (message : String) (s : σ) :
    ByteLines.last (expectDone done message s) = s := by
  unfold expectDone
  split <;> rfl

/-- The identity that an event starts a call with. -/
def ProviderEvent.startedId : ProviderEvent → Option ExecutionIdentity
  | .toolCallStarted execId _ => some execId
  | _ => none

/-- Every call has the id that the provider gave it. -/
def Wired (events : List ProviderEvent) : Prop :=
  ∀ execId ∈ events.filterMap ProviderEvent.startedId, ∃ domain id, execId = .wire domain id

/-- The calls are counted from zero. -/
structure Counted (events : List ProviderEvent) : Prop where
  first : ∀ execId, (events.filterMap ProviderEvent.startedId).head? = some execId →
    execId = .position .ollama 0
  all : ∀ execId ∈ events.filterMap ProviderEvent.startedId,
    ∃ position, execId = .position .ollama position

variable {events sent : List ProviderEvent}

theorem Wired.of_initial (h : Wired events) (hp : sent <+: events) : Wired sent :=
  fun execId hm => h execId ((hp.sublist.filterMap _).mem hm)

theorem Counted.of_initial (h : Counted events) (hp : sent <+: events) : Counted sent := by
  obtain ⟨rest, rfl⟩ := hp
  refine ⟨fun execId hhead => h.first execId ?_, fun execId hm => h.all execId ?_⟩
  · rw [List.filterMap_append, List.head?_append, hhead]
    rfl
  · rw [List.filterMap_append]
    exact List.mem_append_left _ hm

theorem Wired.concat (h : Wired events) {event : ProviderEvent}
    (he : ∀ execId, event.startedId = some execId → ∃ domain id, execId = .wire domain id) :
    Wired (events ++ [event]) := by
  intro execId hm
  rw [List.filterMap_append] at hm
  rcases List.mem_append.mp hm with hm | hm
  · exact h execId hm
  · obtain ⟨e, he', hid⟩ := List.mem_filterMap.mp hm
    rw [List.mem_singleton.mp he'] at hid
    exact he execId hid

/-- An event that starts no call. -/
theorem Counted.concat (h : Counted events) {event : ProviderEvent} (he : event.startedId = none) :
    Counted (events ++ [event]) := by
  have e : (events ++ [event]).filterMap ProviderEvent.startedId =
      events.filterMap ProviderEvent.startedId := by
    simp [List.filterMap_append, he]
  exact ⟨e ▸ h.first, e ▸ h.all⟩

end AgentDaemon.Provider
