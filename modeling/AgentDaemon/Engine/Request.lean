import AgentDaemon.Engine.Assembler
import AgentDaemon.Lib.Transition
import AgentDaemon.Provider.Retry
import AgentDaemon.Storage.Ops

/-!
`request_model`: one model request over a frozen route, attempt after attempt. What a provider
streams, how it ends and when a call of the store fails is the input of a step; a step is the
head of the loop over the candidates or one pass of the loop over the attempts. `shown_once`
says that an attempt that showed something to the client is the last one.
-/

namespace AgentDaemon.Engine

open Provider Storage Transition

/-! ## One attempt -/

structure ProviderError where
  kind : ProviderErrorKind
  diagnostic : ProviderDiagnostic
  deriving DecidableEq, Repr

def ProviderError.new (kind : ProviderErrorKind) (message : String) : ProviderError :=
  ⟨kind, ⟨none, none, none, none, message⟩⟩

def ProviderError.timeout (phase : TimeoutPhase) : ProviderError :=
  .new (.timeout phase) "Provider 等待超时"

/-- An `anyhow::Error`, by what it can be downcast to. -/
inductive EngineError where
  | provider (error : ProviderError)
  | runtime (error : RuntimeError)
  | other (message : String)
  deriving DecidableEq, Repr

/-- The events of a request that reach the client. -/
inductive AgentEvent where
  | thinkingDelta (delta : String)
  | thinkingFinished
  | textDelta (delta : String)
  deriving DecidableEq, Repr

structure ModelOutput (Value : Type) where
  response : Response Value
  thinking : Option String
  deriving DecidableEq, Repr

structure AttemptObservation where
  responseStarted : Bool := false
  firstEvent : Bool := false
  firstEventAtMs : Option Int := none
  protocolDone : Bool := false
  streamCommitted : Bool := false
  toolCallSeen : Bool := false
  outputTruncated : Bool := false
  usage : Option ProviderUsage := none

namespace AttemptObservation

def markFirstEvent (o : AttemptObservation) (now : Int) : AttemptObservation :=
  if o.firstEvent then o else { o with firstEvent := true, firstEventAtMs := some now }

def observe (o : AttemptObservation) (now : Int) : ProviderEvent → AttemptObservation
  | .responseStarted => { o with responseStarted := true }
  | .protocolDone => { o with protocolDone := true }
  | .usage usage =>
    { o with usage := some ((o.usage.getD ⟨none, none, none, none⟩).mergePartial usage) }
  | .textDelta text | .thinkingDelta text =>
    if text.isEmpty then o else { o with streamCommitted := true }.markFirstEvent now
  | .toolCallStarted .. | .toolCallDelta .. | .toolCallCompleted _ | .toolCallFailed _ =>
    { o with toolCallSeen := true, streamCommitted := true }.markFirstEvent now
  | .outputTruncated => { o with outputTruncated := true }.markFirstEvent now

/-- Nothing was shown, so the request may be made again. -/
def safe (o : AttemptObservation) : Bool := !o.streamCommitted && !o.toolCallSeen

end AttemptObservation

/-- What `request_model_once` keeps while it follows the stream. -/
structure StreamState where
  observation : AttemptObservation := {}
  assembler : ToolCallAssembler := {}
  thinking : String := ""
  thinkingActive : Bool := false
  emitted : List AgentEvent := []

namespace StreamState

variable (s : StreamState)

def emit (event : AgentEvent) : StreamState := { s with emitted := s.emitted ++ [event] }

def finishThinking : StreamState :=
  if s.thinkingActive then { s.emit .thinkingFinished with thinkingActive := false } else s

/-- `consume_provider_event`. -/
def consume (event : ProviderEvent) : StreamState :=
  match event with
  | .thinkingDelta delta =>
    if delta.isEmpty then s
    else { s with thinking := s.thinking ++ delta, thinkingActive := true }.emit
      (.thinkingDelta delta)
  | event =>
    let (delta, assembler) := s.assembler.accept event
    match delta with
    | some delta => ({ s with assembler }.finishThinking).emit (.textDelta delta)
    | none => { s with assembler }

def receive (event : Int × ProviderEvent) : StreamState :=
  { s with observation := s.observation.observe event.1 event.2 }.consume event.2

end StreamState

/-- How the stream of an attempt ends. -/
inductive StreamEnd where
  | finished
  | failed (error : EngineError)
  | cancelled
  /-- The deadline of the current phase passes. -/
  | phaseTimeout
  | overallTimeout

/-- An attempt of a provider: the events received until the stream ends, and those that are
still in the channel then, each with the time it is seen at. -/
structure StreamScript where
  events : List (Int × ProviderEvent)
  ending : StreamEnd
  drained : List (Int × ProviderEvent) := []

def StreamScript.all (script : StreamScript) : List ProviderEvent :=
  (script.events ++ script.drained).map Prod.snd

variable {Value : Type} (json : Serde Value)

/-- The error that the stream ends with, where it is known. The phase that has timed out is read
off before the channel is drained. -/
def StreamEnd.error (o : AttemptObservation) : StreamEnd → Option EngineError
  | .finished => none
  | .failed error => some error
  | .cancelled => some (.runtime .cancelled)
  | .phaseTimeout => some (.provider (.timeout
      (if !o.responseStarted then .connect else if !o.firstEvent then .firstEvent else .streamIdle)))
  | .overallTimeout => some (.provider (.timeout .overall))

def requestModelOnce (script : StreamScript) :
    Except EngineError (ModelOutput Value) × StreamState :=
  let s : StreamState := script.events.foldl StreamState.receive {}
  let error := script.ending.error s.observation
  let s := (script.drained.foldl StreamState.receive s).finishThinking
  match error with
  | some error => (.error error, s)
  | none =>
    if s.observation.responseStarted && !s.observation.protocolDone then
      (.error (.provider (.new .protocol "Provider 流未正常结束")), s)
    else
      (.ok ⟨s.assembler.finish json, if s.thinking.isEmpty then none else some s.thinking⟩, s)

/-! ## The loops over candidates and attempts -/

/-- `providers` has one provider for each candidate that could be built. -/
structure FrozenRoute where
  snapshot : RouteSnapshot
  providers : Nat

/-- What the engine knows of the run it works for. -/
structure Audit where
  runId : RunId
  round : Nat

/-- What the surroundings answer in one step. The circuit breaker is shared with other requests,
so its state at every call is part of the input. -/
structure RequestInput where
  cancelled : Bool := false
  /-- `NEXT_ATTEMPT_ID`. -/
  attemptId : Nat := 0
  startedAtMs : Int := 0
  finishedAtMs : Int := 0
  stream : StreamScript := ⟨[], .cancelled, []⟩
  circuit : CircuitBreaker := {}
  now : Nat := 0
  startFails : Option RuntimeError := none
  finishFails : Option RuntimeError := none
  circuitFails : Option RuntimeError := none
  noteFails : Option RuntimeError := none
  /-- `compact_for_overflow` finds a smaller request. -/
  compactible : Bool := false
  cancelledAsleep : Bool := false

/-- An attempt that was made. -/
structure AttemptLog where
  candidate : Nat
  events : List ProviderEvent

/-- `candidate` is the candidate at hand, `trying` says whether its loop over the attempts has
been entered. `emitted` is what the client was sent and `writes` what the store was asked for. -/
structure RequestState (Value : Type) where
  candidate : Nat := 0
  trying : Bool := false
  priorRetries : Nat := 0
  compacted : Bool := false
  lastError : ProviderError := .new .server "没有可用的 Provider 路由"
  attempts : List AttemptLog := []
  emitted : List AgentEvent := []
  writes : List Op := []
  result : Option (Except EngineError (ModelOutput Value)) := none

namespace RequestState

variable {json} (s : RequestState Value)

def conclude (result : Except EngineError (ModelOutput Value)) : RequestState Value :=
  { s with result := some result }

/-- A call of the audit store, if there is one; its failure is the result of the request. -/
def write (audit : Option Audit) (op : Audit → Op) (fails : Option RuntimeError)
    (k : RequestState Value → RequestState Value) : RequestState Value :=
  match audit with
  | none => k s
  | some audit =>
    match fails with
    | some error => s.conclude (.error (.runtime error))
    | none => k { s with writes := s.writes ++ [op audit] }

end RequestState

/-- The error an attempt counts as, where it does not end the request. -/
def failureOf (outcome : Except EngineError (ModelOutput Value)) (o : AttemptObservation) :
    Except ProviderError (ModelOutput Value) :=
  match outcome with
  | .ok output =>
    if o.outputTruncated then .error (.new .outputTruncated "Provider 输出被截断")
    else match output.response with
      | .text text =>
        if text.isEmpty then
          .error (.new (if output.thinking.isSome then .reasoningOnly else .emptyCompletion)
            "Provider 未返回可用内容")
        else .ok output
      | _ => .ok output
  | .error (.provider error) => .error error
  | .error (.runtime .cancelled) => .error (.new .cancelled "请求已取消")
  | .error _ => .error (.new .protocol "Provider 请求失败")

def transient : ProviderErrorKind → Bool
  | .rateLimit | .transport | .server | .timeout _ => true
  | _ => false

def RouteCandidate.circuitKey (c : RouteCandidate) : String := c.profileId ++ ":" ++ c.model

def assemblyFailed : Response Value → Bool
  | .toolAssemblyFailed _ => true
  | _ => false

section Steps

variable (route : FrozenRoute) (audit : Option Audit)

/-- The candidate at an index, as far as a provider goes with it. -/
def FrozenRoute.candidate? (i : Nat) : Option RouteCandidate :=
  (route.snapshot.candidates.take route.providers)[i]?

/-- The record of an attempt when it starts. -/
def startedAttempt (audit : Audit) (candidate : RouteCandidate) (index : Nat)
    (input : RequestInput) : ProviderAttempt where
  attemptId := audit.runId.val ++ "-" ++ toString audit.round ++ "-" ++ toString index ++ "-" ++
    toString input.attemptId
  runId := audit.runId
  round := audit.round
  candidateIndex := index
  providerProfileId := candidate.profileId
  apiType := candidate.apiType
  model := candidate.model
  status := .started
  errorKind := none
  diagnostic := none
  retryAfterMs := none
  streamCommitted := false
  startedAtMs := input.startedAtMs
  firstEventAtMs := none
  finishedAtMs := none
  usage := none

/-- `finish_attempt`, for the error the attempt is recorded with. -/
def finishedAttempt (attempt : ProviderAttempt) (status : AttemptStatus)
    (error : Option ProviderError) (retryAfterMs : Option Nat) (o : AttemptObservation)
    (finishedAtMs : Int) : ProviderAttempt :=
  { attempt with
    status
    errorKind := error.map (·.kind)
    diagnostic := error.map (·.diagnostic)
    retryAfterMs
    streamCommitted := o.streamCommitted
    firstEventAtMs := o.firstEventAtMs
    finishedAtMs := some finishedAtMs
    usage := o.usage }

def circuitEvent (index : Nat) (state : CircuitState) (a : Audit) : Op :=
  .appendEvent a.runId "provider_circuit"
    (.obj [("candidate_index", .num index), ("state", .str state.label)])

/-- The head of the loop over the candidates. -/
def enter (input : RequestInput) (s : RequestState Value) : RequestState Value :=
  match route.candidate? s.candidate with
  | none => s.conclude (.error (.provider s.lastError))
  | some candidate =>
    if (input.circuit.acquire input.now (RouteCandidate.circuitKey candidate)).1 = .open then
      s.write audit (fun a => .appendEvent a.runId "provider_circuit"
        (.obj [("action", .str "skip"), ("candidate_index", .num s.candidate),
          ("state", .str "open")])) input.circuitFails
        fun s => { s with candidate := s.candidate + 1 }
    else { s with trying := true, priorRetries := 0 }

/-- An attempt whose output is returned. -/
def succeed (input : RequestInput) (candidate : RouteCandidate) (o : AttemptObservation)
    (output : ModelOutput Value) (s : RequestState Value) : RequestState Value :=
  let bad := assemblyFailed output.response
  let error := ProviderError.new .protocol "工具调用流装配失败"
  let s := if bad then { s with lastError := error } else s
  s.write audit (fun a => .finishProviderAttempt (finishedAttempt
      (startedAttempt a candidate s.candidate input) (if bad then .failed else .succeeded)
      (if bad then some error else none) none o input.finishedAtMs)) input.finishFails fun s =>
  let state := (input.circuit.record input.now (RouteCandidate.circuitKey candidate) (!bad) false).1
  s.write audit (circuitEvent s.candidate state) input.circuitFails fun s =>
  s.conclude (.ok output)

/-- What the retry policy and the circuit breaker make of an error. -/
def decision (index priorRetries : Nat) (error : ProviderError) (safe : Bool)
    (state : CircuitState) : RetryDecision :=
  let more := index + 1 < route.providers
  let decision := route.snapshot.retryPolicy.decide error.kind priorRetries
    error.diagnostic.retryAfterMs safe more
  match decision with
  | .retry delay =>
    if state = .open then if safe && more then .fallback else .fail else .retry delay
  | decision => decision

/-- After an error that is not to be answered by a smaller request. -/
def recover (input : RequestInput) (error : ProviderError) (safe : Bool) (state : CircuitState)
    (s : RequestState Value) : RequestState Value :=
  let decision := decision route s.candidate s.priorRetries error safe state
  let s := { s with lastError := error }
  match decision with
  | .retry delay =>
    s.write audit (fun a => .appendEvent a.runId "provider_retry"
      (.obj [("candidate_index", .num s.candidate), ("delay_ms", .num delay),
        ("error_kind", error.kind.toJson), ("round", .num a.round)])) input.noteFails fun s =>
    let s := { s with priorRetries := s.priorRetries + 1 }
    if input.cancelledAsleep then s.conclude (.error (.runtime .cancelled)) else s
  | .fallback =>
    s.write audit (fun a => .appendEvent a.runId "provider_fallback"
      (.obj [("from_candidate_index", .num s.candidate), ("reason", error.kind.toJson),
        ("to_candidate_index", .num (s.candidate + 1))])) input.noteFails fun s =>
    { s with candidate := s.candidate + 1, trying := false }
  | .fail => s.conclude (.error (.provider error))

/-- An attempt that failed. -/
def failAttempt (input : RequestInput) (candidate : RouteCandidate) (o : AttemptObservation)
    (error : ProviderError) (s : RequestState Value) : RequestState Value :=
  s.write audit (fun a => .finishProviderAttempt (finishedAttempt
      (startedAttempt a candidate s.candidate input)
      (if error.kind = .cancelled then .cancelled else .failed) (some error)
      error.diagnostic.retryAfterMs o input.finishedAtMs)) input.finishFails fun s =>
  let state := (input.circuit.record input.now (RouteCandidate.circuitKey candidate) false
    (transient error.kind)).1
  s.write audit (circuitEvent s.candidate state) input.circuitFails fun s =>
  if error.kind = .contextOverflow ∧ s.compacted = false ∧ o.safe = true then
    let s := { s with compacted := true }
    if input.compactible then s else recover route audit input error o.safe state s
  else recover route audit input error o.safe state s

/-- One pass of the loop over the attempts. -/
def attempt (input : RequestInput) (candidate : RouteCandidate) (s : RequestState Value) :
    RequestState Value :=
  if input.cancelled then s.conclude (.error (.runtime .cancelled))
  else s.write audit (fun a => .startProviderAttempt
      (startedAttempt a candidate s.candidate input)) input.startFails fun s =>
  let (outcome, stream) := requestModelOnce json input.stream
  let s := { s with
    attempts := s.attempts ++ [⟨s.candidate, input.stream.all⟩]
    emitted := s.emitted ++ stream.emitted }
  match failureOf outcome stream.observation with
  | .ok output => succeed audit input candidate stream.observation output s
  | .error error => failAttempt route audit input candidate stream.observation error s

/-- One step of `request_model` over a route. A request that has returned does nothing more. -/
def requestNext (s : RequestState Value) (input : RequestInput) : RequestState Value :=
  if s.result.isSome then s
  else if s.trying then
    match route.candidate? s.candidate with
    | none => s
    | some candidate => attempt json route audit input candidate s
  else enter route audit input s

/-- Without a route there is one attempt, whatever comes of it. -/
def requestPlain (cancelled : Bool) (script : StreamScript) : RequestState Value :=
  if cancelled then { result := some (.error (.runtime .cancelled)) }
  else
    let (outcome, stream) := requestModelOnce json script
    { attempts := [⟨0, script.all⟩], emitted := stream.emitted, result := some outcome }

/-- `request_model`, up to the step that the inputs go to. -/
def requestModel (route : Option FrozenRoute) (cancelled : Bool) (inputs : List RequestInput) :
    RequestState Value :=
  match route with
  | none => requestPlain json cancelled ((inputs.head?.map (·.stream)).getD ⟨[], .cancelled, []⟩)
  | some route =>
    if cancelled then { result := some (.error (.runtime .cancelled)) }
    else after (requestNext json route audit) {} inputs

end Steps

/-! ## What the client is shown -/

/-- Text, thinking or a part of a tool call. -/
def visible : ProviderEvent → Bool
  | .textDelta text | .thinkingDelta text => !text.isEmpty
  | .toolCallStarted .. | .toolCallDelta .. | .toolCallCompleted _ | .toolCallFailed _ => true
  | _ => false

/-- The text or thinking of an event, as the client is shown it. -/
def shownEvent : ProviderEvent → Option AgentEvent
  | .textDelta text => if text.isEmpty then none else some (.textDelta text)
  | .thinkingDelta text => if text.isEmpty then none else some (.thinkingDelta text)
  | _ => none

/-- Text or thinking that is not empty. -/
def AgentEvent.shown : AgentEvent → Bool
  | .textDelta text | .thinkingDelta text => !text.isEmpty
  | .thinkingFinished => false

/-- Nothing of the attempt is visible. -/
def AttemptLog.Quiet (a : AttemptLog) : Prop := ∀ e ∈ a.events, visible e = false

/-- What the attempts showed: nothing but what the last one did, and only it may be visible. -/
structure ShownOnce (attempts : List AttemptLog) (emitted : List AgentEvent) : Prop where
  quiet : ∀ a ∈ attempts.dropLast, a.Quiet
  shown : emitted.filter AgentEvent.shown =
    ((attempts.getLast?.map AttemptLog.events).getD []).filterMap shownEvent

theorem shownEvent_of_not_visible {e : ProviderEvent} (h : visible e = false) :
    shownEvent e = none := by
  cases e <;> simp_all [visible, shownEvent]

section Stream

theorem accept_fst (a : ToolCallAssembler) (e : ProviderEvent) :
    (a.accept e).1 = match e with
      | .textDelta delta => some delta
      | _ => none := by
  unfold ToolCallAssembler.accept
  split <;> cases e <;> rfl

@[simp] theorem filter_emit (s : StreamState) (e : AgentEvent) :
    (s.emit e).emitted.filter AgentEvent.shown =
      s.emitted.filter AgentEvent.shown ++ [e].filter AgentEvent.shown := by
  simp [StreamState.emit]

@[simp] theorem filter_finishThinking (s : StreamState) :
    s.finishThinking.emitted.filter AgentEvent.shown = s.emitted.filter AgentEvent.shown := by
  unfold StreamState.finishThinking
  split
  · exact (filter_emit s .thinkingFinished).trans (List.append_nil _)
  · rfl

/-- The client is shown the text and thinking of the event. -/
theorem filter_receive (s : StreamState) (e : Int × ProviderEvent) :
    (s.receive e).emitted.filter AgentEvent.shown =
      s.emitted.filter AgentEvent.shown ++ [e.2].filterMap shownEvent := by
  obtain ⟨now, e⟩ := e
  unfold StreamState.receive StreamState.consume
  cases e with
  | thinkingDelta delta =>
    dsimp only
    split
    · rename_i he
      simp [shownEvent, he]
    · rename_i he
      rw [filter_emit]
      simp [shownEvent, AgentEvent.shown, he]
  | textDelta delta =>
    simp only [accept_fst]
    rw [filter_emit, filter_finishThinking]
    by_cases he : delta.isEmpty <;> simp [shownEvent, AgentEvent.shown, he]
  | _ =>
    simp only [accept_fst]
    simp [shownEvent]

theorem filter_received (s : StreamState) (l : List (Int × ProviderEvent)) :
    (l.foldl StreamState.receive s).emitted.filter AgentEvent.shown =
      s.emitted.filter AgentEvent.shown ++ (l.map Prod.snd).filterMap shownEvent := by
  induction l generalizing s with
  | nil => simp
  | cons e l ih =>
    rw [List.foldl_cons, ih, filter_receive, List.append_assoc, ← List.filterMap_append]
    rfl

@[simp] theorem safe_markFirstEvent (o : AttemptObservation) (now : Int) :
    (o.markFirstEvent now).safe = o.safe := by
  unfold AttemptObservation.markFirstEvent
  split <;> rfl

/-- What is visible is noticed, and stays so. -/
theorem safe_observe (o : AttemptObservation) (now : Int) (e : ProviderEvent) :
    (o.observe now e).safe = (o.safe && !visible e) := by
  cases e with
  | textDelta text | thinkingDelta text =>
    simp only [AttemptObservation.observe]
    by_cases he : text.isEmpty = true
    · simp [he, visible]
    · rw [if_neg he, safe_markFirstEvent]
      simp [he, visible, AttemptObservation.safe]
  | toolCallStarted _ _ | toolCallDelta _ _ | toolCallCompleted _ | toolCallFailed _ =>
    simp only [AttemptObservation.observe, safe_markFirstEvent]
    simp [AttemptObservation.safe, visible]
  | outputTruncated =>
    simp only [AttemptObservation.observe, safe_markFirstEvent]
    simp [AttemptObservation.safe, visible]
  | _ => simp [AttemptObservation.observe, AttemptObservation.safe, visible]

theorem safe_receive {s : StreamState} {e : Int × ProviderEvent}
    (h : (s.receive e).observation.safe = true) :
    s.observation.safe = true ∧ visible e.2 = false := by
  obtain ⟨now, e⟩ := e
  have hobs : (s.receive (now, e)).observation = s.observation.observe now e := by
    unfold StreamState.receive StreamState.consume StreamState.finishThinking StreamState.emit
    cases e <;> dsimp only <;> split <;> first | rfl | (split <;> rfl)
  rw [hobs, safe_observe] at h
  simpa using h

theorem safe_received {s : StreamState} {l : List (Int × ProviderEvent)}
    (h : (l.foldl StreamState.receive s).observation.safe = true) :
    s.observation.safe = true ∧ ∀ e ∈ l.map Prod.snd, visible e = false := by
  induction l generalizing s with
  | nil => exact ⟨h, by simp⟩
  | cons e l ih =>
    obtain ⟨hs, hl⟩ := ih h
    obtain ⟨hs, he⟩ := safe_receive hs
    refine ⟨hs, ?_⟩
    rw [List.map_cons, List.forall_mem_cons]
    exact ⟨he, hl⟩

/-- An attempt shows its own text and thinking. -/
theorem filter_once (json : Serde Value) (script : StreamScript) :
    (requestModelOnce json script).2.emitted.filter AgentEvent.shown =
      script.all.filterMap shownEvent := by
  have hemit : ∀ s : StreamState,
      ((script.drained.foldl StreamState.receive (script.events.foldl StreamState.receive s)
        ).finishThinking).emitted.filter AgentEvent.shown =
        s.emitted.filter AgentEvent.shown ++ script.all.filterMap shownEvent := by
    intro s
    rw [filter_finishThinking, ← List.foldl_append, filter_received]
    rfl
  unfold requestModelOnce
  dsimp only
  split
  · exact hemit {}
  · split <;> exact hemit {}

/-- An attempt that passes for safe is quiet. -/
theorem safe_once {json : Serde Value} {script : StreamScript}
    (h : (requestModelOnce json script).2.observation.safe = true) :
    ∀ e ∈ script.all, visible e = false := by
  have hsafe : ∀ s : StreamState,
      ((script.drained.foldl StreamState.receive (script.events.foldl StreamState.receive s)
        ).finishThinking).observation.safe = true → ∀ e ∈ script.all, visible e = false := by
    intro s hs
    have e : ∀ t : StreamState, t.finishThinking.observation = t.observation := by
      intro t
      unfold StreamState.finishThinking StreamState.emit
      split <;> rfl
    rw [e, ← List.foldl_append] at hs
    exact (safe_received hs).2
  unfold requestModelOnce at h
  dsimp only at h
  split at h
  · exact hsafe {} h
  · split at h <;> exact hsafe {} h

section Assembled

variable {json : Serde Value}

@[simp] theorem assembler_emit (s : StreamState) (e : AgentEvent) :
    (s.emit e).assembler = s.assembler := rfl

@[simp] theorem assembler_finishThinking (s : StreamState) :
    s.finishThinking.assembler = s.assembler := by
  unfold StreamState.finishThinking
  split <;> rfl

theorem accept_thinkingDelta (a : ToolCallAssembler) (text : String) :
    (a.accept (.thinkingDelta text)).2 = a := by
  unfold ToolCallAssembler.accept
  split <;> rfl

theorem assembler_receive (s : StreamState) (e : Int × ProviderEvent) :
    (s.receive e).assembler = (s.assembler.accept e.2).2 := by
  obtain ⟨now, e⟩ := e
  unfold StreamState.receive StreamState.consume
  cases e with
  | thinkingDelta delta =>
    rw [accept_thinkingDelta]
    dsimp only
    split <;> rfl
  | _ =>
    dsimp only
    split <;> simp

theorem assembler_received (s : StreamState) (l : List (Int × ProviderEvent)) :
    (l.foldl StreamState.receive s).assembler =
      (l.map Prod.snd).foldl (fun a e => (a.accept e).2) s.assembler := by
  induction l generalizing s with
  | nil => rfl
  | cons e l ih => rw [List.foldl_cons, ih, assembler_receive]; rfl

/-- What an attempt returns is what the assembler makes of its events. -/
theorem response_once {script : StreamScript} {output : ModelOutput Value}
    (h : (requestModelOnce json script).1 = .ok output) :
    output.response = (assemble script.all).finish json := by
  unfold requestModelOnce at h
  dsimp only at h
  split at h
  · cases h
  · split at h
    · cases h
    · cases h
      rw [assembler_finishThinking, ← List.foldl_append, assembler_received]
      rfl

end Assembled

end Stream

/-! ## From attempt to attempt -/

section Loop

variable {json : Serde Value} {route : FrozenRoute} {audit : Option Audit}
  {s s' : RequestState Value} {input : RequestInput} {safe : Bool}

/-- `s'` goes on from `s` without another attempt, and returns unless that was safe. -/
structure GoesOn (safe : Bool) (s s' : RequestState Value) : Prop where
  attempts : s'.attempts = s.attempts
  emitted : s'.emitted = s.emitted
  returns : s'.result = none → safe = true

theorem goesOn_conclude (safe : Bool) (h : s'.attempts = s.attempts) (h' : s'.emitted = s.emitted)
    (result : Except EngineError (ModelOutput Value)) : GoesOn safe s (s'.conclude result) :=
  ⟨h, h', fun e => nomatch e⟩

theorem goesOn_write {op : Audit → Op} {fails : Option RuntimeError}
    {k : RequestState Value → RequestState Value} (h : s'.attempts = s.attempts)
    (h' : s'.emitted = s.emitted)
    (hk : ∀ s₁, s₁.attempts = s.attempts → s₁.emitted = s.emitted → GoesOn safe s (k s₁)) :
    GoesOn safe s (s'.write audit op fails k) := by
  unfold RequestState.write
  split
  · exact hk s' h h'
  · split
    · exact goesOn_conclude safe h h' _
    · exact hk _ h h'

/-- A call of the audit store ends the request, or leaves it as it is but for its record. -/
theorem write_induct {Q : RequestState Value → Prop} {op : Audit → Op}
    {fails : Option RuntimeError} {k : RequestState Value → RequestState Value}
    (herror : ∀ error, Q (s.conclude (.error error))) (hk : ∀ writes, Q (k { s with writes })) :
    Q (s.write audit op fails k) := by
  unfold RequestState.write
  split
  · exact hk s.writes
  · split
    · exact herror _
    · exact hk _

theorem decision_not_safe (index priorRetries : Nat) (error : ProviderError)
    (state : CircuitState) : decision route index priorRetries error false state = .fail := rfl

theorem goesOn_recover (error : ProviderError) (state : CircuitState)
    (h : s'.attempts = s.attempts) (h' : s'.emitted = s.emitted) :
    GoesOn safe s (recover route audit input error safe state s') := by
  cases safe with
  | false =>
    unfold recover
    rw [decision_not_safe]
    exact ⟨h, h', fun e => nomatch e⟩
  | true =>
    unfold recover
    dsimp only
    split
    · refine goesOn_write h h' fun s₁ h₁ h₁' => ?_
      split <;> exact ⟨h₁, h₁', fun _ => rfl⟩
    · exact goesOn_write h h' fun s₁ h₁ h₁' => ⟨h₁, h₁', fun _ => rfl⟩
    · exact ⟨h, h', fun _ => rfl⟩

theorem goesOn_failAttempt (candidate : RouteCandidate) (o : AttemptObservation)
    (error : ProviderError) : GoesOn o.safe s (failAttempt route audit input candidate o error s) := by
  unfold failAttempt
  refine goesOn_write rfl rfl fun s₁ h₁ h₁' => ?_
  refine goesOn_write h₁ h₁' fun s₂ h₂ h₂' => ?_
  split
  · rename_i hsafe
    dsimp only
    split
    · exact ⟨h₂, h₂', fun _ => hsafe.2.2⟩
    · exact goesOn_recover error _ h₂ h₂'
  · exact goesOn_recover error _ h₂ h₂'

theorem goesOn_succeed (candidate : RouteCandidate) (o : AttemptObservation)
    (output : ModelOutput Value) : GoesOn safe s (succeed audit input candidate o output s) := by
  unfold succeed
  dsimp only
  have hkeep : ∀ b : Bool, ∀ e : ProviderError,
      (if b then { s with lastError := e } else s).attempts = s.attempts ∧
        (if b then { s with lastError := e } else s).emitted = s.emitted := by
    intro b e
    split <;> exact ⟨rfl, rfl⟩
  refine goesOn_write (hkeep _ _).1 (hkeep _ _).2 fun s₁ h₁ h₁' => ?_
  refine goesOn_write h₁ h₁' fun s₂ h₂ h₂' => ?_
  exact goesOn_conclude safe h₂ h₂' _

theorem goesOn_enter : GoesOn true s (enter route audit input s) := by
  unfold enter
  split
  · exact goesOn_conclude true rfl rfl _
  · split
    · exact goesOn_write rfl rfl fun s₁ h₁ h₁' => ⟨h₁, h₁', fun _ => rfl⟩
    · exact ⟨rfl, rfl, fun _ => rfl⟩

/-- The request is quiet as long as it has not returned. -/
structure QuietSoFar (s : RequestState Value) : Prop where
  shownOnce : ShownOnce s.attempts s.emitted
  quiet : s.result = none → ∀ a ∈ s.attempts, a.Quiet

theorem QuietSoFar.goesOn (h : QuietSoFar s) (hr : s.result = none) (hg : GoesOn true s s') :
    QuietSoFar s' := by
  refine ⟨by rw [hg.attempts, hg.emitted]; exact h.shownOnce, fun _ => ?_⟩
  rw [hg.attempts]
  exact h.quiet hr

/-- Before an attempt that may be visible, nothing was shown. -/
theorem QuietSoFar.filter_eq_nil (h : QuietSoFar s) (hr : s.result = none) :
    s.emitted.filter AgentEvent.shown = [] := by
  rw [h.shownOnce.shown]
  cases hl : s.attempts.getLast? with
  | none => rfl
  | some a =>
    rw [Option.map_some, Option.getD_some, List.filterMap_eq_nil_iff]
    intro e he
    exact shownEvent_of_not_visible (h.quiet hr a (List.mem_of_getLast? hl) e he)

/-- After an attempt the request returns, or the attempt was quiet as well. -/
theorem QuietSoFar.attempted {s₁ : RequestState Value} (h : QuietSoFar s) (hr : s.result = none)
    (hattempts : s₁.attempts = s.attempts ++ [⟨s.candidate, input.stream.all⟩])
    (hemitted : s₁.emitted = s.emitted ++ (requestModelOnce json input.stream).2.emitted)
    (hg : GoesOn (requestModelOnce json input.stream).2.observation.safe s₁ s') :
    QuietSoFar s' where
  shownOnce := by
    refine ⟨?_, ?_⟩
    · rw [hg.attempts, hattempts, List.dropLast_concat]
      exact h.quiet hr
    · rw [hg.emitted, hg.attempts, hattempts, hemitted, List.filter_append, h.filter_eq_nil hr,
        filter_once, List.getLast?_concat]
      rfl
  quiet hnone := by
    rw [hg.attempts, hattempts]
    intro a ha
    rcases List.mem_append.mp ha with ha | ha
    · exact h.quiet hr a ha
    · rw [List.mem_singleton.mp ha]
      exact safe_once (hg.returns hnone)

/-- A pass over the attempts goes on without another one, or from where it was made. -/
theorem attempt_cases (candidate : RouteCandidate) :
    GoesOn true s (attempt json route audit input candidate s) ∨
      ∃ s₁ : RequestState Value, s₁.attempts = s.attempts ++ [⟨s.candidate, input.stream.all⟩] ∧
        s₁.emitted = s.emitted ++ (requestModelOnce json input.stream).2.emitted ∧
          GoesOn (requestModelOnce json input.stream).2.observation.safe s₁
            (attempt json route audit input candidate s) := by
  have hpass : ∀ s₁ : RequestState Value, GoesOn
      (requestModelOnce json input.stream).2.observation.safe s₁
      (match failureOf (requestModelOnce json input.stream).1
          (requestModelOnce json input.stream).2.observation with
        | .ok output => succeed audit input candidate
            (requestModelOnce json input.stream).2.observation output s₁
        | .error error => failAttempt route audit input candidate
            (requestModelOnce json input.stream).2.observation error s₁) := by
    intro s₁
    split
    · exact goesOn_succeed candidate _ _
    · exact goesOn_failAttempt candidate _ _
  unfold Engine.attempt
  split
  · exact .inl (goesOn_conclude true rfl rfl _)
  · unfold RequestState.write
    split
    · exact .inr ⟨_, rfl, rfl, hpass _⟩
    · split
      · exact .inl (goesOn_conclude true rfl rfl _)
      · exact .inr ⟨_, rfl, rfl, hpass _⟩

theorem QuietSoFar.attempt (h : QuietSoFar s) (hr : s.result = none) (candidate : RouteCandidate) :
    QuietSoFar (attempt json route audit input candidate s) := by
  obtain hg | ⟨s₁, hattempts, hemitted, hg⟩ := attempt_cases candidate
  · exact h.goesOn hr hg
  · exact h.attempted hr hattempts hemitted hg

theorem QuietSoFar.next (h : QuietSoFar s) (input : RequestInput) :
    QuietSoFar (requestNext json route audit s input) := by
  unfold requestNext
  split
  · exact h
  · rename_i hfree
    have hr : s.result = none := by simpa [Option.isSome_iff_ne_none] using hfree
    split
    · split
      · exact h
      · exact h.attempt hr _
    · exact h.goesOn hr goesOn_enter

theorem shownOnce_nil : ShownOnce [] [] := ⟨by simp, rfl⟩

end Loop

/-- **No replay after visible output.** However often `request_model` tries, and wherever the
request stands, only the last attempt may have shown anything, and what the client was shown is
what that attempt said. -/
theorem shown_once (json : Serde Value) (audit : Option Audit) (route : Option FrozenRoute)
    (cancelled : Bool) (inputs : List RequestInput) :
    ShownOnce (requestModel json audit route cancelled inputs).attempts
      (requestModel json audit route cancelled inputs).emitted := by
  unfold requestModel
  split
  · unfold requestPlain
    split
    · exact shownOnce_nil
    · exact ⟨by simp, filter_once json _⟩
  · split
    · exact shownOnce_nil
    · have hstart : QuietSoFar ({} : RequestState Value) := ⟨shownOnce_nil, fun _ => by simp⟩
      exact (after_induct (G := fun _ _ => True) (fun s a h _ => h.next a) hstart
        (along_true _ inputs)).shownOnce

/-! ## What the model answers -/

section Answers

variable {json : Serde Value} {route : FrozenRoute} {audit : Option Audit}
  {s : RequestState Value} {input : RequestInput} {P : ModelOutput Value → Prop}

/-- Where the request has returned an output, it is of this kind. -/
def RequestState.Yields (P : ModelOutput Value → Prop) (s : RequestState Value) : Prop :=
  ∀ output, s.result = some (.ok output) → P output

theorem yields_of_none (h : s.result = none) : s.Yields P := by
  intro output e
  rw [h] at e
  cases e

theorem yields_error (error : EngineError) : (s.conclude (.error error)).Yields P := by
  intro output e
  cases e

theorem yields_write {op : Audit → Op} {fails : Option RuntimeError}
    {k : RequestState Value → RequestState Value}
    (hk : ∀ s₁, s₁.result = s.result → (k s₁).Yields P) : (s.write audit op fails k).Yields P := by
  unfold RequestState.write
  split
  · exact hk s rfl
  · split
    · exact yields_error _
    · exact hk _ rfl

theorem yields_recover (hr : s.result = none) (error : ProviderError) (safe : Bool)
    (state : CircuitState) : (recover route audit input error safe state s).Yields P := by
  unfold recover
  dsimp only
  split
  · refine yields_write fun s₁ h₁ => ?_
    split
    · exact yields_error _
    · exact yields_of_none (h₁.trans hr)
  · exact yields_write fun s₁ h₁ => yields_of_none (h₁.trans hr)
  · exact yields_error _

theorem yields_failAttempt (hr : s.result = none) (candidate : RouteCandidate)
    (o : AttemptObservation) (error : ProviderError) :
    (failAttempt route audit input candidate o error s).Yields P := by
  unfold failAttempt
  refine yields_write fun s₁ h₁ => yields_write fun s₂ h₂ => ?_
  have hr₂ : s₂.result = none := (h₂.trans h₁).trans hr
  split
  · dsimp only
    split
    · exact yields_of_none hr₂
    · exact yields_recover (by exact hr₂) _ _ _
  · exact yields_recover hr₂ _ _ _

theorem yields_succeed (candidate : RouteCandidate) (o : AttemptObservation)
    {output : ModelOutput Value} (hP : P output) :
    (succeed audit input candidate o output s).Yields P := by
  unfold succeed
  refine yields_write fun s₁ _ => yields_write fun s₂ _ => ?_
  rintro _ ⟨⟩
  exact hP

theorem failureOf_eq_ok {outcome : Except EngineError (ModelOutput Value)} {o : AttemptObservation}
    {output : ModelOutput Value} (h : failureOf outcome o = .ok output) : outcome = .ok output := by
  unfold failureOf at h
  split at h
  · split at h
    · cases h
    · split at h
      · split at h
        · cases h
        · cases h
          rfl
      · cases h
        rfl
  · cases h
  · cases h
  · cases h

/-- The tool calls or the text of the events of some attempt. -/
def Spoken (json : Serde Value) (output : ModelOutput Value) : Prop :=
  ∃ events, output.response = (assemble events).finish json

/-- Where an attempt is answered, it is by its own events. -/
theorem answered_attempt (hr : s.result = none) (candidate : RouteCandidate) :
    ∀ output, (attempt json route audit input candidate s).result = some (.ok output) →
      (attempt json route audit input candidate s).attempts =
          s.attempts ++ [⟨s.candidate, input.stream.all⟩] ∧
        output.response = (assemble input.stream.all).finish json := by
  unfold Engine.attempt
  split
  · rintro output ⟨⟩
  · refine write_induct (Q := fun s' => ∀ output, s'.result = some (.ok output) →
      s'.attempts = s.attempts ++ [⟨s.candidate, input.stream.all⟩] ∧
        output.response = (assemble input.stream.all).finish json) ?_ fun writes => ?_
    · rintro error output ⟨⟩
    · intro output hres
      dsimp only at hres ⊢
      cases hout : failureOf (requestModelOnce json input.stream).1
          (requestModelOnce json input.stream).2.observation with
      | ok output' =>
        rw [hout] at hres
        have hresponse := response_once (failureOf_eq_ok hout)
        exact ⟨GoesOn.attempts (show GoesOn true _ _ from goesOn_succeed candidate _ _),
          yields_succeed (P := fun o => o.response = (assemble input.stream.all).finish json)
            candidate _ hresponse output hres⟩
      | error error =>
        rw [hout] at hres
        exact (yields_failAttempt (P := fun _ => False) (by exact hr) candidate _ _ output hres).elim

/-- Where the request has returned an output, it is what the last attempt said, and that is one
of the inputs. -/
def RequestState.Answered (json : Serde Value) (inputs : List RequestInput)
    (s : RequestState Value) : Prop :=
  s.Yields fun output => ∃ input ∈ inputs, ∃ candidate,
    s.attempts.getLast? = some ⟨candidate, input.stream.all⟩ ∧
      output.response = (assemble input.stream.all).finish json

theorem answered_next {inputs : List RequestInput} (h : s.Answered json inputs)
    (hm : input ∈ inputs) : (requestNext json route audit s input).Answered json inputs := by
  unfold requestNext
  split
  · exact h
  · rename_i hfree
    have hr : s.result = none := by simpa [Option.isSome_iff_ne_none] using hfree
    split
    · split
      · exact h
      · intro output hres
        obtain ⟨hlog, hresponse⟩ := answered_attempt hr _ output hres
        exact ⟨input, hm, s.candidate, by rw [hlog, List.getLast?_concat], hresponse⟩
    · unfold enter
      split
      · exact yields_error _
      · split
        · exact yields_write fun s₁ h₁ => yields_of_none (h₁.trans hr)
        · exact yields_of_none hr

/-- What `request_model` returns, its last attempt said. -/
theorem answered_of_result {audit : Option Audit} {route : Option FrozenRoute} {cancelled : Bool}
    {inputs : List RequestInput} : (requestModel json audit route cancelled inputs).Answered json
      inputs := by
  unfold requestModel
  split
  · unfold requestPlain
    split
    · rintro output ⟨⟩
    · intro output hres
      have hresponse := response_once (Option.some.inj hres)
      cases inputs with
      | nil => cases Option.some.inj hres
      | cons input inputs => exact ⟨input, List.mem_cons_self, 0, rfl, hresponse⟩
  · split
    · rintro output ⟨⟩
    · have hstart : ({} : RequestState Value).Answered json inputs := yields_of_none rfl
      exact after_induct (G := fun _ a => a ∈ inputs) (I := RequestState.Answered json inputs)
        (fun s a h hm => answered_next h hm) hstart
        (along_mono (along_true _ inputs) fun _ _ hm _ => hm)

theorem spoken_of_result {audit : Option Audit} {route : Option FrozenRoute} {cancelled : Bool}
    {inputs : List RequestInput} {output : ModelOutput Value}
    (h : (requestModel json audit route cancelled inputs).result = some (.ok output)) :
    Spoken json output := by
  obtain ⟨input, -, candidate, -, hresponse⟩ := answered_of_result output h
  exact ⟨input.stream.all, hresponse⟩

/-- The calls of an answer have ids of their own. -/
theorem Spoken.nodup_ids {output : ModelOutput Value} (h : Spoken json output)
    {calls : List (ToolCall Value)} (hcalls : output.response = .toolCalls calls) :
    (calls.map (·.id)).Nodup := by
  obtain ⟨events, he⟩ := h
  exact ((assembled_spec json events).2.1 calls (he ▸ hcalls)).nodup_ids

end Answers

end AgentDaemon.Engine
