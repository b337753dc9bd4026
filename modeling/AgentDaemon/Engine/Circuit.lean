import AgentDaemon.Engine.Request
import AgentDaemon.Lib.Slots

/-!
The circuit breaker under the requests that share it. `acquire` may admit a probe, and `record`
takes the outcome of any attempt, whoever made it: two probes are in flight only after an attempt
that is no probe has reported while one was (`exclusive_after`). A request that leaves between the
two calls keeps the place of its probe (`unwedged_iff`).
-/

namespace AgentDaemon.Engine

open Provider Storage Transition

variable {Value : Type}

/-! ## The calls of one request -/

/-- What an attempt records: success, and whether a failure is transient. An attempt that is not
made, or whose receipt cannot be written, records nothing. -/
def verdict (json : Serde Value) (audit : Option Audit) (input : RequestInput) :
    Option (Bool × Bool) :=
  if input.cancelled then none
  else if audit.isSome && (input.startFails.isSome || input.finishFails.isSome) then none
  else
    let (outcome, stream) := requestModelOnce json input.stream
    match failureOf outcome stream.observation with
    | .ok output => some (!assemblyFailed output.response, false)
    | .error error => some (false, transient error.kind)

/-- The breaker after a step of `request_model`. -/
def circuitNext (json : Serde Value) (route : FrozenRoute) (audit : Option Audit)
    (s : RequestState Value) (input : RequestInput) : CircuitBreaker :=
  if s.result.isSome then input.circuit
  else match route.candidate? s.candidate with
    | none => input.circuit
    | some candidate =>
      if s.trying then
        match verdict json audit input with
        | none => input.circuit
        | some (success, transientFailure) =>
          (input.circuit.record input.now (RouteCandidate.circuitKey candidate) success
            transientFailure).2
      else (input.circuit.acquire input.now (RouteCandidate.circuitKey candidate)).2

/-- A call of `request_model`. `probing` is history: the breaker was half-open when the candidate
at hand was admitted, and the request has not reported on it. -/
structure Caller (Value : Type) where
  route : FrozenRoute
  audit : Option Audit
  state : RequestState Value
  probing : Bool := false

namespace Caller

/-- The circuit key that the request is in progress for. -/
def key? (c : Caller Value) : Option String :=
  if c.state.result.isNone && c.state.trying then
    (c.route.candidate? c.state.candidate).map RouteCandidate.circuitKey
  else none

def next (json : Serde Value) (c : Caller Value) (input : RequestInput) : Caller Value :=
  { c with
    state := requestNext json c.route c.audit c.state input
    probing := c.state.result.isNone && !c.state.trying &&
      (c.route.candidate? c.state.candidate).any fun candidate =>
        (input.circuit.acquire input.now (RouteCandidate.circuitKey candidate)).1 = .halfOpen }

end Caller

/-! ## The requests of a daemon -/

/-- `callers` are the calls so far, returned or not. -/
structure SharedCircuit (Value : Type) where
  circuit : CircuitBreaker := {}
  callers : List (Caller Value) := []

inductive CircuitEvent where
  | call (route : FrozenRoute) (audit : Option Audit) (cancelled : Bool)
  /-- The next step of call `i`. -/
  | step (i : Nat) (input : RequestInput)

def SharedCircuit.next (json : Serde Value) (s : SharedCircuit Value) :
    CircuitEvent → SharedCircuit Value
  | .call route audit cancelled =>
    { s with
      callers := s.callers ++
        [{ route, audit, state := requestModel json audit (some route) cancelled [] }] }
  | .step i input =>
    match s.callers[i]? with
    | none => s
    | some c =>
      let input := { input with circuit := s.circuit }
      { circuit := circuitNext json c.route c.audit c.state input
        callers := s.callers.set i (c.next json input) }

namespace SharedCircuit

variable (s : SharedCircuit Value)

/-- Request `i` is in progress for the key. -/
def InProgress (key : String) (i : Nat) : Prop := ∃ c, s.callers[i]? = some c ∧ c.key? = some key

/-- Request `i` is in progress for the key as a probe. -/
def Probes (key : String) (i : Nat) : Prop :=
  ∃ c, s.callers[i]? = some c ∧ c.key? = some key ∧ c.probing = true

/-- At most one probe is in flight. -/
def Exclusive : Prop := ∀ key i j, s.Probes key i → s.Probes key j → i = j

end SharedCircuit

/-! ## What a step does -/

section Steps

variable {json : Serde Value} {route : FrozenRoute} {audit : Option Audit} {input : RequestInput}
  {s : RequestState Value}

/-- A request that records nothing has returned. -/
theorem returned_of_verdict (h : verdict json audit input = none) (candidate : RouteCandidate) :
    (attempt json route audit input candidate s).result.isSome = true := by
  unfold verdict at h
  unfold attempt
  split at h
  · rename_i hcancelled
    rw [if_pos hcancelled]
    rfl
  rename_i hgoing
  rw [if_neg hgoing]
  split at h
  · rename_i hfails
    simp only [Bool.and_eq_true, Bool.or_eq_true] at hfails
    obtain ⟨haudit, hfails⟩ := hfails
    obtain ⟨a, rfl⟩ := Option.isSome_iff_exists.mp haudit
    cases hstart : input.startFails with
    | some error => rfl
    | none =>
      rw [hstart] at hfails
      obtain ⟨error, hfinish⟩ := Option.isSome_iff_exists.mp (hfails.resolve_left nofun)
      dsimp only [RequestState.write]
      split
      · simp only [succeed, RequestState.write, hfinish]
        rfl
      · simp only [failAttempt, RequestState.write, hfinish]
        rfl
  · dsimp only at h
    split at h <;> cases h

/-- While it goes on with its attempts, a request stays with its candidate. -/
def StaysWith (index : Nat) (s : RequestState Value) : Prop :=
  s.result = none → s.trying = true → s.candidate = index

theorem staysWith_conclude (index : Nat) (result : Except EngineError (ModelOutput Value)) :
    StaysWith index (s.conclude result) := by
  intro h
  cases h

theorem staysWith_write {index : Nat} {op : Audit → Op} {fails : Option RuntimeError}
    {k : RequestState Value → RequestState Value} (hs : s.candidate = index)
    (hk : ∀ s₁ : RequestState Value, s₁.candidate = index → StaysWith index (k s₁)) :
    StaysWith index (s.write audit op fails k) :=
  write_induct (fun _ => staysWith_conclude index _) fun _ => hk _ hs

theorem staysWith_recover {index : Nat} (hs : s.candidate = index) (error : ProviderError)
    (safe : Bool) (state : CircuitState) :
    StaysWith index (recover route audit input error safe state s) := by
  unfold recover
  dsimp only
  split
  · refine staysWith_write hs fun s₁ h₁ => ?_
    split
    · exact staysWith_conclude index _
    · exact fun _ _ => h₁
  · refine staysWith_write hs fun s₁ h₁ => ?_
    intro _ h
    cases h
  · exact staysWith_conclude index _

theorem staysWith_attempt (candidate : RouteCandidate) :
    StaysWith s.candidate (attempt json route audit input candidate s) := by
  unfold attempt
  split
  · exact staysWith_conclude _ _
  refine staysWith_write rfl fun s₁ h₁ => ?_
  dsimp only
  split
  · unfold succeed
    refine staysWith_write ?_ fun s₂ h₂ => staysWith_write h₂ fun s₃ h₃ => staysWith_conclude _ _
    dsimp only
    split
    · exact h₁
    · exact h₁
  · unfold failAttempt
    refine staysWith_write h₁ fun s₂ h₂ => staysWith_write h₂ fun s₃ h₃ => ?_
    split
    · dsimp only
      split
      · exact fun _ _ => h₃
      · refine staysWith_recover ?_ _ _ _
        exact h₃
    · exact staysWith_recover h₃ _ _ _

/-- What a step of a caller does to the breaker. -/
inductive Caller.Steps (json : Serde Value) (input : RequestInput) (c c' : Caller Value) :
    CircuitBreaker → Prop
  | idle (hkey : c.key? = none) (hkey' : c'.key? = none) : c.Steps json input c' input.circuit
  | admitted (key : String) (hkey : c.key? = none) (hkey' : c'.key? = some key)
      (hstate : (input.circuit.acquire input.now key).1 ≠ .open)
      (hprobing : c'.probing = decide ((input.circuit.acquire input.now key).1 = .halfOpen)) :
      c.Steps json input c' (input.circuit.acquire input.now key).2
  | left (key : String) (hkey : c.key? = some key) (hkey' : c'.key? = none)
      (hverdict : verdict json c.audit input = none) : c.Steps json input c' input.circuit
  | reported (key : String) (success transientFailure : Bool) (hkey : c.key? = some key)
      (hkey' : ∀ key', c'.key? = some key' → key' = key) (hprobing : c'.probing = false)
      (hverdict : verdict json c.audit input = some (success, transientFailure)) :
      c.Steps json input c' (input.circuit.record input.now key success transientFailure).2

theorem acquire_cases (b : CircuitBreaker) (now : Nat) (key : String) :
    (b.acquire now key = (.closed, b) ∧ (b.entries key).openedAt = none) ∨
    b.acquire now key = (.open, b) ∨
    b.acquire now key = (.halfOpen, b.set key { b.entries key with probeActive := true }) ∧
      (b.entries key).probeActive = false ∧ (b.entries key).openedAt.isSome = true := by
  unfold CircuitBreaker.acquire
  dsimp only
  split
  · rename_i hclosed
    exact .inl ⟨rfl, hclosed⟩
  · rename_i openedAt hopened
    split
    · exact .inr (.inl rfl)
    · rename_i hprobe
      simp only [Bool.or_eq_true, decide_eq_true_eq, not_or, Bool.not_eq_true] at hprobe
      exact .inr (.inr ⟨rfl, hprobe.2, by rw [hopened]; rfl⟩)

theorem key?_of_trying {c : Caller Value} {key : String} (h : c.key? = some key) :
    c.state.result = none ∧ c.state.trying = true ∧
      ∃ candidate, c.route.candidate? c.state.candidate = some candidate ∧
        RouteCandidate.circuitKey candidate = key := by
  unfold Caller.key? at h
  split at h
  · rename_i hgoing
    simp only [Bool.and_eq_true, Option.isNone_iff_eq_none] at hgoing
    exact ⟨hgoing.1, hgoing.2, Option.map_eq_some_iff.mp h⟩
  · cases h

theorem key?_eq_none {c : Caller Value} (h : c.state.result ≠ none ∨ c.state.trying = false) :
    c.key? = none := by
  unfold Caller.key?
  split
  · rename_i hgoing
    simp only [Bool.and_eq_true, Option.isNone_iff_eq_none] at hgoing
    rcases h with h | h
    · exact absurd hgoing.1 h
    · rw [h] at hgoing
      cases hgoing.2
  · rfl

theorem Caller.steps_enter (c : Caller Value) (input : RequestInput) {candidate : RouteCandidate}
    (hr : c.state.result = none) (htrying : c.state.trying = false)
    (hcandidate : c.route.candidate? c.state.candidate = some candidate) :
    c.Steps json input (c.next json input)
      (circuitNext json c.route c.audit c.state input) := by
  have hcircuit : circuitNext json c.route c.audit c.state input =
      (input.circuit.acquire input.now (RouteCandidate.circuitKey candidate)).2 := by
    simp [circuitNext, hr, hcandidate, htrying]
  have hstate : (c.next json input).state = enter c.route c.audit input c.state := by
    simp [Caller.next, requestNext, hr, htrying]
  have hkey : c.key? = none := key?_eq_none (.inr htrying)
  rw [hcircuit]
  by_cases hopen : (input.circuit.acquire input.now (RouteCandidate.circuitKey candidate)).1 = .open
  · have hsame : (input.circuit.acquire input.now (RouteCandidate.circuitKey candidate)).2 = input.circuit := by
      rcases acquire_cases input.circuit input.now (RouteCandidate.circuitKey candidate) with ⟨h, -⟩ | h | ⟨h, -⟩
      · rw [h] at hopen
        cases hopen
      · rw [h]
      · rw [h] at hopen
        cases hopen
    rw [hsame]
    refine .idle hkey (key?_eq_none ?_)
    rw [hstate, enter, hcandidate]
    dsimp only
    rw [if_pos hopen]
    refine write_induct (Q := fun s => s.result ≠ none ∨ s.trying = false) ?_ ?_
    · exact fun _ => .inl nofun
    · exact fun _ => .inr htrying
  · have hentered : (c.next json input).state =
        { c.state with trying := true, priorRetries := 0 } := by
      rw [hstate, enter, hcandidate]
      exact if_neg hopen
    refine .admitted (RouteCandidate.circuitKey candidate) hkey ?_ hopen ?_
    · have hroute : (c.next json input).route = c.route := rfl
      simp [Caller.key?, hentered, hr, hroute, hcandidate]
    · simp [Caller.next, hr, htrying, hcandidate]

theorem Caller.steps_attempt (c : Caller Value) (input : RequestInput) {candidate : RouteCandidate}
    (hr : c.state.result = none) (htrying : c.state.trying = true)
    (hcandidate : c.route.candidate? c.state.candidate = some candidate) :
    c.Steps json input (c.next json input)
      (circuitNext json c.route c.audit c.state input) := by
  have hstate : (c.next json input).state =
      attempt json c.route c.audit input candidate c.state := by
    simp [Caller.next, requestNext, hr, htrying, hcandidate]
  have hkey : c.key? = some (RouteCandidate.circuitKey candidate) := by
    simp [Caller.key?, hr, htrying, hcandidate]
  cases hverdict : verdict json c.audit input with
  | none =>
    have hcircuit : circuitNext json c.route c.audit c.state input = input.circuit := by
      simp [circuitNext, hr, hcandidate, htrying, hverdict]
    rw [hcircuit]
    refine .left (RouteCandidate.circuitKey candidate) hkey (key?_eq_none (.inl ?_)) hverdict
    rw [hstate]
    exact Option.isSome_iff_ne_none.mp (returned_of_verdict hverdict candidate)
  | some outcome =>
    obtain ⟨success, transientFailure⟩ := outcome
    have hcircuit : circuitNext json c.route c.audit c.state input =
        (input.circuit.record input.now (RouteCandidate.circuitKey candidate) success transientFailure).2 := by
      simp [circuitNext, hr, hcandidate, htrying, hverdict]
    rw [hcircuit]
    refine .reported (RouteCandidate.circuitKey candidate) success transientFailure hkey ?_ ?_ hverdict
    · intro key' hkey'
      obtain ⟨hr', htrying', candidate', hcandidate', rfl⟩ := key?_of_trying hkey'
      have hstays : StaysWith c.state.candidate
          (attempt json c.route c.audit input candidate c.state) := staysWith_attempt candidate
      rw [hstate] at hr' htrying' hcandidate'
      rw [hstays hr' htrying'] at hcandidate'
      exact congrArg _ (Option.some.inj (hcandidate'.symm.trans hcandidate))
    · simp [Caller.next, hr, htrying]

theorem Caller.steps (json : Serde Value) (c : Caller Value) (input : RequestInput) :
    c.Steps json input (c.next json input) (circuitNext json c.route c.audit c.state input) := by
  by_cases hr : c.state.result = none
  · cases hcandidate : c.route.candidate? c.state.candidate with
    | none =>
      have hcircuit : circuitNext json c.route c.audit c.state input = input.circuit := by
        simp [circuitNext, hr, hcandidate]
      rw [hcircuit]
      refine .idle ?_ ?_
      · simp [Caller.key?, hcandidate]
      · cases htrying : c.state.trying with
        | false =>
          refine key?_eq_none (.inl ?_)
          simp [Caller.next, requestNext, hr, htrying, enter, hcandidate, RequestState.conclude]
        | true =>
          have hsame : (c.next json input).state = c.state := by
            simp [Caller.next, requestNext, hr, htrying, hcandidate]
          have hroute : (c.next json input).route = c.route := rfl
          simp [Caller.key?, hsame, hroute, hcandidate]
    | some candidate =>
      cases htrying : c.state.trying with
      | false => exact c.steps_enter input hr htrying hcandidate
      | true => exact c.steps_attempt input hr htrying hcandidate
  · have hsome : c.state.result.isSome = true := Option.isSome_iff_ne_none.mpr hr
    have hcircuit : circuitNext json c.route c.audit c.state input = input.circuit := by
      simp [circuitNext, hsome]
    have hsame : (c.next json input).state = c.state := by simp [Caller.next, requestNext, hsome]
    rw [hcircuit]
    exact .idle (key?_eq_none (.inl hr)) (key?_eq_none (.inl (by rwa [hsame])))

end Steps

/-! ## The entries of the breaker -/

section Entries

variable (b : CircuitBreaker) (now : Nat) (key : String)

theorem record_entries_self (success transientFailure : Bool) :
    ((b.record now key success transientFailure).2.entries key).probeActive = false := by
  unfold CircuitBreaker.record
  dsimp only
  split
  · simp [CircuitBreaker.set]
  · split
    · split <;> simp [CircuitBreaker.set]
    · split <;> simp [CircuitBreaker.set]

theorem record_entries_ne {other : String} (hne : other ≠ key) (success transientFailure : Bool) :
    (b.record now key success transientFailure).2.entries other = b.entries other := by
  unfold CircuitBreaker.record
  dsimp only
  split
  · exact if_neg hne
  · split
    · split <;> exact if_neg hne
    · split <;> exact if_neg hne

theorem acquire_entries_ne {other : String} (hne : other ≠ key) :
    (b.acquire now key).2.entries other = b.entries other := by
  rcases acquire_cases b now key with ⟨h, -⟩ | h | ⟨h, -⟩
  · rw [h]
  · rw [h]
  · rw [h]
    exact if_neg hne

/-- Only an open circuit is probed. -/
def CircuitBreaker.Opened (b : CircuitBreaker) : Prop := ∀ key,
  (b.entries key).probeActive = true → (b.entries key).openedAt.isSome = true

theorem Caller.Steps.opened {json : Serde Value} {input : RequestInput} {c c' : Caller Value}
    {b : CircuitBreaker} (h : c.Steps json input c' b)
    (hopened : CircuitBreaker.Opened input.circuit) : CircuitBreaker.Opened b := by
  cases h with
  | idle => exact hopened
  | left => exact hopened
  | reported key success transientFailure =>
    intro other hactive
    by_cases hother : other = key
    · subst hother
      rw [record_entries_self] at hactive
      cases hactive
    · rw [record_entries_ne _ _ _ hother] at hactive ⊢
      exact hopened other hactive
  | admitted key =>
    intro other hactive
    by_cases hother : other = key
    · subst hother
      rcases acquire_cases input.circuit input.now other with ⟨h, -⟩ | h | ⟨h, -, hsome⟩
      · rw [h] at hactive ⊢
        exact hopened other hactive
      · rw [h] at hactive ⊢
        exact hopened other hactive
      · rw [h]
        simpa [CircuitBreaker.set] using hsome
    · rw [acquire_entries_ne _ _ _ hother] at hactive ⊢
      exact hopened other hactive

end Entries

namespace SharedCircuit

variable {json : Serde Value} {s : SharedCircuit Value} {key : String} {i j : Nat}

/-! ## A step of one of the requests -/

section Moves

variable {c : Caller Value}

/-- Only the request that steps changes, and the breaker with it. -/
theorem next_step (json : Serde Value) (hc : s.callers[i]? = some c) (input : RequestInput) :
    ∃ c' circuit, s.next json (.step i input) = ⟨circuit, s.callers.set i c'⟩ ∧
      c.Steps json { input with circuit := s.circuit } c' circuit := by
  refine ⟨c.next json { input with circuit := s.circuit },
    circuitNext json c.route c.audit c.state { input with circuit := s.circuit }, ?_,
    c.steps json { input with circuit := s.circuit }⟩
  simp only [next, hc]

theorem next_step_none {input : RequestInput} (hc : s.callers[i]? = none) : s.next json (.step i input) = s := by
  simp only [next, hc]

/-- A call that begins is in progress for no key. -/
theorem key?_call (route : FrozenRoute) (audit : Option Audit) (cancelled : Bool) :
    ({ route, audit, state := requestModel json audit (some route) cancelled [] :
      Caller Value }).key? = none := by
  apply key?_eq_none
  unfold requestModel
  cases cancelled with
  | false => exact .inr rfl
  | true => exact .inl nofun

theorem callers_call (route : FrozenRoute) (audit : Option Audit) (cancelled : Bool)
    {c : Caller Value} {key : String} (hkey : c.key? = some key) :
    (s.next json (.call route audit cancelled)).callers[j]? = some c ↔
      s.callers[j]? = some c := by
  constructor
  · intro h
    rcases Slots.of_concat h with h | ⟨-, rfl⟩
    · exact h
    · rw [key?_call] at hkey
      cases hkey
  · intro h
    rw [next]
    exact Slots.append_of_some h _

theorem inProgress_call (route : FrozenRoute) (audit : Option Audit) (cancelled : Bool) :
    (s.next json (.call route audit cancelled)).InProgress key j ↔ s.InProgress key j :=
  exists_congr fun _ => and_congr_left fun hkey => callers_call route audit cancelled hkey

theorem probes_call (route : FrozenRoute) (audit : Option Audit) (cancelled : Bool) :
    (s.next json (.call route audit cancelled)).Probes key j ↔ s.Probes key j :=
  exists_congr fun _ => and_congr_left fun h => callers_call route audit cancelled h.1

@[simp] theorem circuit_call (route : FrozenRoute) (audit : Option Audit) (cancelled : Bool) :
    (s.next json (.call route audit cancelled)).circuit = s.circuit := rfl

/-- The caller at an index after a step of caller `i`. -/
theorem getElem?_update (hc : s.callers[i]? = some c) (c' : Caller Value) :
    (s.callers.set i c')[j]? = if j = i then some c' else s.callers[j]? := by
  rw [List.getElem?_set]
  by_cases hji : j = i
  · rw [if_pos hji.symm, if_pos hji, if_pos (Slots.lt_of_some hc)]
  · rw [if_neg (Ne.symm hji), if_neg hji]

theorem probes_update {circuit : CircuitBreaker} {c' : Caller Value}
    (hc : s.callers[i]? = some c) :
    (SharedCircuit.mk circuit (s.callers.set i c')).Probes key j ↔
      if j = i then c'.key? = some key ∧ c'.probing = true else s.Probes key j := by
  simp only [Probes, getElem?_update hc]
  split
  · simp
  · rfl

theorem inProgress_update {circuit : CircuitBreaker} {c' : Caller Value}
    (hc : s.callers[i]? = some c) :
    (SharedCircuit.mk circuit (s.callers.set i c')).InProgress key j ↔
      if j = i then c'.key? = some key else s.InProgress key j := by
  simp only [InProgress, getElem?_update hc]
  split
  · simp
  · rfl

end Moves

/-! ## Probes -/

/-- An attempt that is no probe reports only while no probe for its key is in flight. -/
def ProbeReports (json : Serde Value) (s : SharedCircuit Value) : CircuitEvent → Prop
  | .call .. => True
  | .step i input => ∀ c ∈ s.callers[i]?, ∀ key ∈ c.key?,
    (verdict json c.audit input).isSome = true → c.probing = false →
      ∀ probe ∈ s.callers, ¬ (probe.key? = some key ∧ probe.probing = true)

instance (json : Serde Value) (s : SharedCircuit Value) :
    ∀ event, Decidable (ProbeReports json s event)
  | .call .. => isTrue trivial
  | .step i input => inferInstanceAs (Decidable (∀ c ∈ s.callers[i]?, ∀ key ∈ c.key?,
    (verdict json c.audit input).isSome = true → c.probing = false →
      ∀ probe ∈ s.callers, ¬ (probe.key? = some key ∧ probe.probing = true)))

/-- The breaker knows of the probe in flight, and there is one only. -/
def Guarded (s : SharedCircuit Value) : Prop := ∀ key i, s.Probes key i →
  (s.circuit.entries key).probeActive = true ∧ ∀ j, s.Probes key j → j = i

theorem Guarded.exclusive (h : s.Guarded) : s.Exclusive :=
  fun key i j hi hj => (h key j hj).2 i hi

theorem Guarded.next (h : s.Guarded) {event : CircuitEvent} (hev : ProbeReports json s event) :
    (s.next json event).Guarded := by
  cases event with
  | call route audit cancelled =>
    intro key j hj
    rw [circuit_call]
    obtain ⟨hactive, hone⟩ := h key j ((probes_call route audit cancelled).mp hj)
    exact ⟨hactive, fun k hk => hone k ((probes_call route audit cancelled).mp hk)⟩
  | step i input =>
    cases hc : s.callers[i]? with
    | none => rwa [next_step_none hc]
    | some c =>
      obtain ⟨c', circuit, hnext, hsteps⟩ := next_step json hc input
      rw [hnext]
      -- A probe of another request is as it was, and so is the entry of its key.
      have hothers : ∀ c' circuit, (∀ key, ¬ (c'.key? = some key ∧ c'.probing = true)) →
          (∀ key, (∃ j, j ≠ i ∧ s.Probes key j) → circuit.entries key = s.circuit.entries key) →
          Guarded ⟨circuit, s.callers.set i c'⟩ := by
        intro c' circuit hfree hsame key j hj
        rw [probes_update hc] at hj
        split at hj
        · exact absurd hj (hfree key)
        · rename_i hji
          obtain ⟨hactive, hone⟩ := h key j hj
          refine ⟨?_, fun k hk => ?_⟩
          · rw [hsame key ⟨j, hji, hj⟩]
            exact hactive
          · rw [probes_update hc] at hk
            split at hk
            · exact absurd hk (hfree key)
            · exact hone k hk
      cases hsteps with
      | idle hkey hkey' => exact hothers c' _ (by simp [hkey']) fun _ _ => rfl
      | left key hkey hkey' hverdict => exact hothers c' _ (by simp [hkey']) fun _ _ => rfl
      | reported key success transientFailure hkey hkey' hprobing hverdict =>
        refine hothers c' _ (by simp [hprobing]) fun other hother => ?_
        refine record_entries_ne _ _ _ ?_ _ _
        rintro rfl
        obtain ⟨j, hji, hj⟩ := hother
        cases hwas : c.probing with
        | true => exact hji ((h other i ⟨c, hc, hkey, hwas⟩).2 j hj)
        | false =>
          have hv : verdict json c.audit input = some (success, transientFailure) := hverdict
          obtain ⟨probe, hprobe, hj⟩ := hj
          exact hev c hc other hkey (by rw [hv]; rfl) hwas probe (List.mem_of_getElem? hprobe) hj
      | admitted key hkey hkey' hstate hprobing =>
        rcases acquire_cases s.circuit input.now key with ⟨he, -⟩ | he | ⟨he, hfree, -⟩
        · rw [he] at hprobing ⊢
          exact hothers c' _ (by simp [hprobing]) fun _ _ => rfl
        · rw [he] at hstate
          exact absurd rfl hstate
        · -- The breaker knows of no probe for the key, so that none is in flight.
          rw [he] at hprobing ⊢
          have hnone : ∀ j, ¬ s.Probes key j := by
            intro j hj
            rw [(h key j hj).1] at hfree
            cases hfree
          intro other j hj
          rw [probes_update hc] at hj
          by_cases hother : other = key
          · subst hother
            have hji : j = i := by
              by_contra hji
              rw [if_neg hji] at hj
              exact hnone j hj
            refine ⟨by simp [CircuitBreaker.set], fun k hk => ?_⟩
            rw [probes_update hc] at hk
            by_contra hki
            rw [if_neg (hji ▸ hki)] at hk
            exact hnone k hk
          · have hfresh : ¬ (c'.key? = some other ∧ c'.probing = true) := by
              rintro ⟨hkey'', -⟩
              exact hother (Option.some.inj (hkey''.symm.trans hkey'))
            split at hj
            · exact absurd hj hfresh
            · obtain ⟨hactive, hone⟩ := h other j hj
              refine ⟨by simpa [CircuitBreaker.set, hother] using hactive, fun k hk => ?_⟩
              rw [probes_update hc] at hk
              split at hk
              · exact absurd hk hfresh
              · exact hone k hk

/-- **Probes.** While only probes report on a key that is being probed, at most one probe for it is
in flight. -/
theorem exclusive_after (json : Serde Value) (events : List CircuitEvent)
    (h : Along (SharedCircuit.next json) (ProbeReports json) {} events) :
    ∀ pre, pre <+: events → (after (SharedCircuit.next json) {} pre).Exclusive := by
  rintro pre ⟨post, rfl⟩
  have hstart : Guarded ({} : SharedCircuit Value) := by
    rintro key i ⟨c, hc, -⟩
    cases hc
  exact (after_induct (I := Guarded) (fun _ _ hs hg => hs.next hg) hstart
    (along_append.mp h).1).exclusive

/-- One candidate, with retries after server errors. -/
def retryingRoute : FrozenRoute where
  snapshot := ⟨[⟨"p", .openaiChat, "m", ""⟩], ⟨0, 0, 3, 0, 0, 1000⟩, ⟨0, 0, 0, 0⟩, ⟨0⟩, 0⟩
  providers := 1

def serverError : StreamScript := ⟨[], .failed (.provider (.new .server "down")), []⟩

def emptyValue : Serde Unit := ⟨fun _ => .ok (), ()⟩

/-- Three attempts of request `i` fail, and the circuit opens. -/
def opening (i : Nat) : List CircuitEvent :=
  [.call retryingRoute none false, .step i {}, .step i { stream := serverError },
    .step i { stream := serverError }, .step i { stream := serverError }]

/-- A request that reports after it has made a probe. -/
def probeRun : List CircuitEvent :=
  opening 0 ++ [.call retryingRoute none false, .step 1 { now := 30000 },
    .step 1 { now := 30001, stream := serverError }]

/-- A request that was admitted before the circuit opened reports while a probe is in flight. -/
def lateReport : List CircuitEvent :=
  [.call retryingRoute none false, .step 0 {}] ++ opening 1 ++
    [.call retryingRoute none false, .step 2 { now := 30000 },
      .step 0 { now := 30001, stream := serverError },
      .call retryingRoute none false, .step 3 { now := 60001 }]

theorem probes_of_any (h : s.callers[i]?.any
    (fun c => c.key? = some key && c.probing) = true) : s.Probes key i := by
  simp only [Option.any_eq_true, Bool.and_eq_true, decide_eq_true_eq] at h
  obtain ⟨c, hc, h⟩ := h
  exact ⟨c, hc, h⟩

theorem exclusive_probeRun :
    (after (SharedCircuit.next emptyValue) {} (probeRun.take 7)).Probes "p:m" 1 ∧
      ∀ pre, pre <+: probeRun → (after (SharedCircuit.next emptyValue) {} pre).Exclusive :=
  ⟨probes_of_any (by decide +kernel), exclusive_after emptyValue probeRun (by decide +kernel)⟩

theorem not_exclusive_lateReport :
    ¬ (after (SharedCircuit.next emptyValue) {} lateReport).Exclusive := by
  intro h
  have hsame := h "p:m" 2 3 (probes_of_any (by decide +kernel)) (probes_of_any (by decide +kernel))
  cases hsame

/-! ## The places of probes -/

/-- No request holds the place of a probe once none is in progress, and after the cooldown the
breaker admits one. -/
structure Unwedged (s : SharedCircuit Value) : Prop where
  released : ∀ key, (∀ i, ¬ s.InProgress key i) → (s.circuit.entries key).probeActive = false
  admits : ∀ key now, (∀ i, ¬ s.InProgress key i) →
    (∀ openedAt, (s.circuit.entries key).openedAt = some openedAt →
      s.circuit.openDuration ≤ now - openedAt) → (s.circuit.acquire now key).1 ≠ .open

/-- The last request in progress for a key does not leave without a report while the place of the
probe is taken. -/
def PlaceReturned (json : Serde Value) (s : SharedCircuit Value) (event : CircuitEvent) : Prop :=
  ∀ i input c key, event = .step i input → s.callers[i]? = some c → c.key? = some key →
    verdict json c.audit input = none → (s.circuit.entries key).probeActive = true →
    ∃ j, j ≠ i ∧ s.InProgress key j

/-- The place is free when nothing is in progress, and it is taken on open circuits only. -/
def Placed (s : SharedCircuit Value) : Prop :=
  (∀ key, (∀ i, ¬ s.InProgress key i) → (s.circuit.entries key).probeActive = false) ∧
    CircuitBreaker.Opened s.circuit

/-- A place that nobody holds is taken. -/
def Wedged (s : SharedCircuit Value) : Prop := ∃ key, (∀ i, ¬ s.InProgress key i) ∧
  (s.circuit.entries key).probeActive = true ∧ (s.circuit.entries key).openedAt.isSome = true

theorem Placed.unwedged (h : s.Placed) : s.Unwedged := by
  refine ⟨h.1, fun key now hnone hcool hopen => ?_⟩
  have hfree := h.1 key hnone
  unfold CircuitBreaker.acquire at hopen
  dsimp only at hopen
  split at hopen
  · cases hopen
  · rename_i openedAt hopened
    have hlate := hcool openedAt hopened
    split at hopen
    · rename_i hwait
      simp only [hfree, Bool.or_false, decide_eq_true_eq] at hwait
      omega
    · cases hopen

theorem opened_next (h : CircuitBreaker.Opened s.circuit) (event : CircuitEvent) :
    CircuitBreaker.Opened (s.next json event).circuit := by
  cases event with
  | call route audit cancelled => rwa [circuit_call]
  | step i input =>
    cases hc : s.callers[i]? with
    | none => rwa [next_step_none hc]
    | some c =>
      obtain ⟨c', circuit, hnext, hsteps⟩ := next_step json hc input
      rw [hnext]
      exact hsteps.opened h

/-- A request that is in progress for another key does not count. -/
theorem idle_of_update {circuit : CircuitBreaker} {c c' : Caller Value} (hc : s.callers[i]? = some c)
    (hkey : c.key? ≠ some key)
    (h : ∀ j, ¬ (SharedCircuit.mk circuit (s.callers.set i c')).InProgress key j) :
    ∀ j, ¬ s.InProgress key j := by
  intro j hj
  by_cases hji : j = i
  · subst hji
    obtain ⟨c₁, hc₁, hkey₁⟩ := hj
    cases hc.symm.trans hc₁
    exact hkey hkey₁
  · refine h j ?_
    rw [inProgress_update hc, if_neg hji]
    exact hj

theorem Placed.next (h : s.Placed) {event : CircuitEvent} (hev : PlaceReturned json s event) :
    (s.next json event).Placed := by
  cases event with
  | call route audit cancelled =>
    rw [Placed, circuit_call]
    exact ⟨fun key hnone => h.1 key fun i hi => hnone i ((inProgress_call ..).mpr hi), h.2⟩
  | step i input =>
    cases hc : s.callers[i]? with
    | none => rwa [next_step_none hc]
    | some c =>
      obtain ⟨c', circuit, hnext, hsteps⟩ := next_step json hc input
      rw [hnext]
      refine ⟨?_, hsteps.opened h.2⟩
      intro key hnone
      cases hsteps with
      | idle hkey hkey' => exact h.1 key (idle_of_update hc (by simp [hkey]) hnone)
      | left key' hkey hkey' hverdict =>
        by_cases hsame : key = key'
        · subst hsame
          by_contra hactive
          obtain ⟨j, hji, hj⟩ := hev i input c key rfl hc hkey hverdict (by simpa using hactive)
          refine hnone j ?_
          rw [inProgress_update hc, if_neg hji]
          exact hj
        · have hne : c.key? ≠ some key := by
            rw [hkey]
            exact fun e => hsame (Option.some.inj e).symm
          exact h.1 key (idle_of_update hc hne hnone)
      | reported key' success transientFailure hkey hkey' hprobing hverdict =>
        by_cases hsame : key = key'
        · subst hsame
          exact record_entries_self _ _ _ _ _
        · have hne : c.key? ≠ some key := by
            rw [hkey]
            exact fun e => hsame (Option.some.inj e).symm
          have hentry := record_entries_ne s.circuit input.now key' hsame success transientFailure
          dsimp only at hentry ⊢
          rw [hentry]
          exact h.1 key (idle_of_update hc hne hnone)
      | admitted key' hkey hkey' hstate hprobing =>
        have hsame : key ≠ key' := by
          rintro rfl
          refine hnone i ?_
          rw [inProgress_update hc, if_pos rfl]
          exact hkey'
        have hentry := acquire_entries_ne s.circuit input.now key' hsame
        dsimp only at hentry ⊢
        rw [hentry]
        exact h.1 key (idle_of_update hc (by simp [hkey]) hnone)

theorem Placed.wedged (h : s.Placed) {event : CircuitEvent} (hev : ¬ PlaceReturned json s event) :
    (s.next json event).Wedged := by
  simp only [PlaceReturned, not_forall, not_exists, not_and] at hev
  obtain ⟨i, input, c, key, rfl, hc, hkey, hverdict, hactive, hlast⟩ := hev
  obtain ⟨c', circuit, hnext, hsteps⟩ := next_step json hc input
  rw [hnext]
  cases hsteps with
  | idle hkey' => cases hkey'.symm.trans hkey
  | admitted key' hkey' => cases hkey'.symm.trans hkey
  | reported key' success transientFailure _ _ _ hsome => cases hverdict.symm.trans hsome
  | left key' hkey' hgone =>
    refine ⟨key, fun j hj => ?_, hactive, h.2 key hactive⟩
    rw [inProgress_update hc] at hj
    split at hj
    · cases hgone.symm.trans hj
    · rename_i hji
      exact hlast j hji hj

theorem Wedged.next (h : s.Wedged) (event : CircuitEvent) : (s.next json event).Wedged := by
  obtain ⟨key, hnone, hactive, hopened⟩ := h
  cases event with
  | call route audit cancelled =>
    refine ⟨key, fun j hj => hnone j ((inProgress_call ..).mp hj), ?_⟩
    rw [circuit_call]
    exact ⟨hactive, hopened⟩
  | step i input =>
    cases hc : s.callers[i]? with
    | none =>
      rw [next_step_none hc]
      exact ⟨key, hnone, hactive, hopened⟩
    | some c =>
      obtain ⟨c', circuit, hnext, hsteps⟩ := next_step json hc input
      rw [hnext]
      have hwas : c.key? ≠ some key := fun hkey => hnone i ⟨c, hc, hkey⟩
      -- Where the entry is as it was and the request has not come in, the place stays taken.
      have hstuck : c'.key? ≠ some key → circuit.entries key = s.circuit.entries key →
          Wedged ⟨circuit, s.callers.set i c'⟩ := by
        intro hout hentry
        refine ⟨key, fun j hj => ?_, by rw [hentry]; exact hactive, by rw [hentry]; exact hopened⟩
        rw [inProgress_update hc] at hj
        split at hj
        · exact hout hj
        · exact hnone j hj
      cases hsteps with
      | idle hkey hkey' => exact hstuck (by simp [hkey']) rfl
      | left key' hkey hkey' hverdict => exact hstuck (by simp [hkey']) rfl
      | reported key' success transientFailure hkey hkey' hprobing hverdict =>
        have hne : key ≠ key' := by
          rintro rfl
          exact hwas hkey
        exact hstuck (fun e => hne (hkey' key e)) (record_entries_ne _ _ _ hne _ _)
      | admitted key' hkey hkey' hstate hprobing =>
        have hne : key ≠ key' := by
          rintro rfl
          rcases acquire_cases s.circuit input.now key with ⟨-, he⟩ | he | ⟨-, he, -⟩
          · rw [he] at hopened
            cases hopened
          · rw [he] at hstate
            exact hstate rfl
          · rw [he] at hactive
            cases hactive
        refine hstuck ?_ (acquire_entries_ne _ _ _ hne)
        rw [hkey']
        exact fun e => hne (Option.some.inj e).symm

/-- **Places.** The breaker is not wedged in the states of a run exactly if no request leaves the
place of a probe behind. -/
theorem unwedged_iff (json : Serde Value) (events : List CircuitEvent) :
    (∀ pre, pre <+: events → (after (SharedCircuit.next json) {} pre).Unwedged) ↔
      Along (SharedCircuit.next json) (PlaceReturned json) {} events := by
  have hstart : Placed ({} : SharedCircuit Value) := ⟨fun _ _ => rfl, fun _ h => by cases h⟩
  have hexact : ∀ events, Placed (after (SharedCircuit.next json) {} events) ↔
      Along (SharedCircuit.next json) (PlaceReturned json) {} events := by
    refine after_iff_along (B := Wedged) (fun _ _ h hg => h.next hg) (fun _ _ h hg => h.wedged hg)
      (fun _ event h => h.next event) ?_ hstart
    rintro s ⟨key, hnone, hactive, -⟩ hp
    rw [hp.1 key hnone] at hactive
    cases hactive
  constructor
  · intro h
    refine (hexact events).mp ⟨(h events (List.prefix_refl _)).released, ?_⟩
    exact after_induct (I := fun s : SharedCircuit Value => CircuitBreaker.Opened s.circuit)
      (fun s event h _ => opened_next h event) hstart.2 (along_true _ events)
  · rintro h pre ⟨post, rfl⟩
    exact ((hexact pre).mpr (along_append.mp h).1).unwedged

/-- A probe that is cancelled before its attempt. -/
def cancelledProbe : List CircuitEvent :=
  opening 0 ++ [.call retryingRoute none false, .step 1 { now := 30000 },
    .step 1 { now := 30001, cancelled := true }]

theorem not_unwedged_cancelledProbe : ¬ ∀ pre, pre <+: cancelledProbe →
    (after (SharedCircuit.next emptyValue) {} pre).Unwedged := by
  intro h
  have hidle : ∀ c ∈ (after (SharedCircuit.next emptyValue) {} cancelledProbe).callers,
      c.key? = none := by decide +kernel
  have htaken : ((after (SharedCircuit.next emptyValue) {} cancelledProbe).circuit.entries
      "p:m").probeActive = true := by decide +kernel
  have hfree := (h cancelledProbe (List.prefix_refl _)).released "p:m" (by
    rintro i ⟨c, hc, hkey⟩
    rw [hidle c (List.mem_of_getElem? hc)] at hkey
    cases hkey)
  rw [htaken] at hfree
  cases hfree

/-! ## Cancelled attempts -/

/-- The failures that the breaker counts for the key, and when it opened, are as they were. -/
def Neutral (key : String) (b b' : CircuitBreaker) : Prop :=
  (b'.entries key).failures = (b.entries key).failures ∧
    (b'.entries key).openedAt = (b.entries key).openedAt

/-- The request leaves before the attempt is recorded: it is cancelled already, or a receipt of the
attempt cannot be written. -/
def Unrecorded (audit : Option Audit) (input : RequestInput) : Prop :=
  input.cancelled = true ∨
    audit.isSome = true ∧ (input.startFails.isSome = true ∨ input.finishFails.isSome = true)

theorem verdict_eq_none_iff {audit : Option Audit} {input : RequestInput} :
    verdict json audit input = none ↔ Unrecorded audit input := by
  unfold verdict Unrecorded
  split
  · rename_i hcancelled
    simp [hcancelled]
  · rename_i hgoing
    split
    · rename_i hfails
      simp only [Bool.and_eq_true, Bool.or_eq_true] at hfails
      simp [hfails]
    · rename_i hwritten
      simp only [Bool.and_eq_true, Bool.or_eq_true] at hwritten
      dsimp only
      constructor
      · intro h
        split at h <;> cases h
      · rintro (h | h)
        · exact absurd h hgoing
        · exact absurd h hwritten

/-- A cancelled stream is recorded as a failure that is not transient. -/
theorem verdict_of_cancelled {audit : Option Audit} {input : RequestInput} {outcome : Bool × Bool}
    (hending : input.stream.ending = .cancelled)
    (h : verdict json audit input = some outcome) : outcome = (false, false) := by
  have hfailure : failureOf (requestModelOnce json input.stream).1
      (requestModelOnce json input.stream).2.observation = .error (.new .cancelled "请求已取消") := by
    unfold requestModelOnce
    rw [hending]
    rfl
  unfold verdict at h
  split at h
  · cases h
  · split at h
    · cases h
    · dsimp only at h
      rw [hfailure] at h
      exact (Option.some.inj h).symm

/-- Such a failure clears the entry. -/
theorem record_cleared (b : CircuitBreaker) (now : Nat) (key : String) :
    (b.record now key false false).2.entries key = {} := by
  simp [CircuitBreaker.record, CircuitBreaker.set]

theorem neutral_cleared (b : CircuitBreaker) (now : Nat) (key : String) :
    Neutral key b (b.record now key false false).2 ↔
      (b.entries key).failures = 0 ∧ (b.entries key).openedAt = none := by
  rw [Neutral, record_cleared]
  constructor
  · rintro ⟨hfailures, hopened⟩
    exact ⟨hfailures.symm, hopened.symm⟩
  · rintro ⟨hfailures, hopened⟩
    exact ⟨hfailures.symm, hopened.symm⟩

/-- **Cancellation.** An attempt that ends because its stream is cancelled leaves the failures and
the opening time of its key as they are exactly if it is not recorded or there are none. -/
theorem neutral_iff (json : Serde Value) (s : SharedCircuit Value) (i : Nat) (c : Caller Value)
    (key : String) (input : RequestInput) (hc : s.callers[i]? = some c) (hkey : c.key? = some key)
    (hending : input.stream.ending = .cancelled) :
    Neutral key s.circuit (s.next json (.step i input)).circuit ↔
      Unrecorded c.audit input ∨
        (s.circuit.entries key).failures = 0 ∧ (s.circuit.entries key).openedAt = none := by
  obtain ⟨c', circuit, hnext, hsteps⟩ := next_step json hc input
  rw [hnext]
  cases hsteps with
  | idle hkey' => cases hkey'.symm.trans hkey
  | admitted key' hkey' => cases hkey'.symm.trans hkey
  | left key' hkey' hgone hverdict =>
    have hunrecorded : Unrecorded c.audit input := verdict_eq_none_iff.mp hverdict
    exact iff_of_true ⟨rfl, rfl⟩ (.inl hunrecorded)
  | reported key' success transientFailure hkey' _ _ hverdict =>
    cases hkey'.symm.trans hkey
    have hrecorded : ¬ Unrecorded c.audit input := by
      intro h
      have hnone : verdict json c.audit { input with circuit := s.circuit } = none :=
        verdict_eq_none_iff.mpr h
      cases hnone.symm.trans hverdict
    cases verdict_of_cancelled (by exact hending) hverdict
    have hcleared := neutral_cleared s.circuit input.now key
    constructor
    · intro h
      exact .inr (hcleared.mp h)
    · rintro (h | h)
      · exact absurd h hrecorded
      · exact hcleared.mpr h

/-- The user cancels an attempt. -/
def cancelledAttempt : RequestInput := { now := 30001, stream := ⟨[], .cancelled, []⟩ }

/-- The first request of a daemon has been admitted. -/
def admitted : SharedCircuit Unit :=
  after (SharedCircuit.next emptyValue) {} [.call retryingRoute none false, .step 0 {}]

theorem neutral_iff_admitted :
    Neutral "p:m" admitted.circuit (admitted.next emptyValue (.step 0 cancelledAttempt)).circuit ↔
      Unrecorded none cancelledAttempt ∨ (admitted.circuit.entries "p:m").failures = 0 ∧
        (admitted.circuit.entries "p:m").openedAt = none :=
  neutral_iff emptyValue admitted 0 ⟨retryingRoute, none, { trying := true }, false⟩ "p:m"
    cancelledAttempt rfl rfl rfl

/-- The circuit is open, and a probe is in flight. -/
def probed : SharedCircuit Unit :=
  after (SharedCircuit.next emptyValue) {}
    (opening 0 ++ [.call retryingRoute none false, .step 1 { now := 30000 }])

/-- A probe that is cancelled closes the circuit. -/
theorem not_neutral_probed : probed.callers[1]?.any (fun c => c.key? = some "p:m") = true ∧
    cancelledAttempt.stream.ending = .cancelled ∧
    ¬ Neutral "p:m" probed.circuit (probed.next emptyValue (.step 1 cancelledAttempt)).circuit :=
  ⟨by decide +kernel, rfl, fun h => absurd h.1 (by decide +kernel)⟩

end SharedCircuit

end AgentDaemon.Engine
