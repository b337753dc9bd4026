import AgentDaemon.Engine.Request

/-!
How often `request_model` tries. `Spent` bounds the attempts and the steps of a request by the
candidates it is done with, the retries on the one at hand and the one compaction; every
pass of the loops adds to one of the three.
-/

namespace AgentDaemon.Engine

open Provider Transition

/-- The largest of the retry budgets. -/
def RetryPolicy.largestBudget (p : RetryPolicy) : Nat :=
  max p.rateLimitRetries (max p.transportRetries (max p.serverRetries
    (max p.timeoutRetries p.protocolRetries)))

theorem budget_le_largestBudget (p : RetryPolicy) (kind : ProviderErrorKind) :
    p.budget kind ≤ RetryPolicy.largestBudget p := by
  unfold RetryPolicy.budget RetryPolicy.largestBudget
  split <;> omega

variable {Value : Type} {json : Serde Value} {route : FrozenRoute} {audit : Option Audit}
  {s : RequestState Value} {input : RequestInput} {steps extra : Nat}

/-- What a request has used up after some steps. `extra` is 1 for an attempt of the candidate at
hand that is not yet answered by a retry, another candidate or a compaction. -/
structure Spent (route : FrozenRoute) (s : RequestState Value) (steps extra : Nat) : Prop where
  candidate : s.candidate + s.trying.toNat ≤ route.snapshot.candidates.length
  found : s.trying = true → (route.candidate? s.candidate).isSome
  retries : s.priorRetries ≤ RetryPolicy.largestBudget route.snapshot.retryPolicy
  extra_le : extra ≤ s.trying.toNat
  attempts : s.attempts.length ≤
    s.candidate * (1 + RetryPolicy.largestBudget route.snapshot.retryPolicy) +
      s.trying.toNat * s.priorRetries + s.compacted.toNat + extra
  steps_le : steps ≤ s.candidate * (2 + RetryPolicy.largestBudget route.snapshot.retryPolicy) +
    s.trying.toNat * (1 + s.priorRetries) + s.compacted.toNat + extra

/-- The attempts that a route allows. -/
def FrozenRoute.attemptBound (route : FrozenRoute) : Nat :=
  (route.snapshot.candidates.map fun _ =>
    1 + RetryPolicy.largestBudget route.snapshot.retryPolicy).sum + 1

/-- A candidate takes one step more than attempts. -/
def FrozenRoute.stepBound (route : FrozenRoute) : Nat :=
  (route.snapshot.candidates.map fun _ =>
    2 + RetryPolicy.largestBudget route.snapshot.retryPolicy).sum + 1

theorem sum_map_const {α : Type} (l : List α) (n : Nat) : (l.map fun _ => n).sum = l.length * n := by
  simp

theorem lt_of_candidate {i : Nat} {candidate : RouteCandidate}
    (h : route.candidate? i = some candidate) : i < route.snapshot.candidates.length := by
  obtain ⟨hlt, -⟩ := List.getElem?_eq_some_iff.mp h
  have hlen := List.length_take_le route.providers route.snapshot.candidates
  have hlen' := List.length_take_le' route.providers route.snapshot.candidates
  omega

/-- What the candidates up to the one at hand allow, the route allows. -/
theorem Spent.le_bound (h : Spent route s steps extra) {m n : Nat} (hm : m ≤ n) :
    s.candidate * n + s.trying.toNat * m ≤ (route.snapshot.candidates.map fun _ => n).sum := by
  rw [sum_map_const]
  have hcandidate := Nat.mul_le_mul_right n h.candidate
  cases htrying : s.trying with
  | false =>
    simp only [htrying, Bool.toNat_false, Nat.add_zero] at hcandidate
    simpa using hcandidate
  | true =>
    simp only [htrying, Bool.toNat_true, Nat.add_mul, Nat.one_mul] at hcandidate ⊢
    omega

theorem Spent.attempts_le (h : Spent route s steps extra) :
    s.attempts.length ≤ route.attemptBound := by
  have hattempts := h.attempts
  have hretries := h.retries
  have hextra := h.extra_le
  have hcompacted := s.compacted.toNat_le
  have hone := s.trying.toNat_le
  have hbound := h.le_bound (m := s.priorRetries + extra)
    (n := 1 + RetryPolicy.largestBudget route.snapshot.retryPolicy) (by omega)
  unfold FrozenRoute.attemptBound
  cases htrying : s.trying <;>
    simp only [htrying, Bool.toNat_false, Bool.toNat_true, Nat.one_mul, Nat.zero_mul] at * <;> omega

theorem Spent.steps_le_bound (h : Spent route s steps extra) : steps ≤ route.stepBound := by
  have hsteps := h.steps_le
  have hretries := h.retries
  have hextra := h.extra_le
  have hcompacted := s.compacted.toNat_le
  have hone := s.trying.toNat_le
  have hbound := h.le_bound (m := s.priorRetries + 1 + extra)
    (n := 2 + RetryPolicy.largestBudget route.snapshot.retryPolicy) (by omega)
  unfold FrozenRoute.stepBound
  cases htrying : s.trying <;>
    simp only [htrying, Bool.toNat_false, Bool.toNat_true, Nat.one_mul, Nat.zero_mul] at * <;> omega

theorem Spent.writes (h : Spent route s steps extra) (writes : List Storage.Op) :
    Spent route { s with writes } steps extra :=
  ⟨h.candidate, h.found, h.retries, h.extra_le, h.attempts, h.steps_le⟩

theorem Spent.lastError (h : Spent route s steps extra) (lastError : ProviderError) :
    Spent route { s with lastError } steps extra :=
  ⟨h.candidate, h.found, h.retries, h.extra_le, h.attempts, h.steps_le⟩

/-- The request keeps to the bound, and as long as it goes on, its use is accounted for. -/
structure Bounded (route : FrozenRoute) (steps : Nat) (s : RequestState Value) : Prop where
  attempts : s.attempts.length ≤ route.attemptBound
  spent : s.result = none → Spent route s steps 0

theorem Spent.conclude (h : Spent route s steps extra)
    (result : Except EngineError (ModelOutput Value)) (n : Nat) :
    Bounded route n (s.conclude result) :=
  ⟨h.attempts_le, by simp [RequestState.conclude]⟩

theorem Spent.bounded (h : Spent route s steps 0) : Bounded route steps s :=
  ⟨h.attempts_le, fun _ => h⟩

/-! ## What answers an attempt -/

/-- A retry. -/
theorem Spent.retry (h : Spent route s steps 1)
    (hr : s.priorRetries < RetryPolicy.largestBudget route.snapshot.retryPolicy) :
    Spent route { s with priorRetries := s.priorRetries + 1 } steps 0 := by
  obtain ⟨hcandidate, hfound, hretries, hextra, hattempts, hsteps⟩ := h
  cases htrying : s.trying with
  | false => simp [htrying] at hextra
  | true =>
    simp only [htrying, Bool.toNat_true, Nat.one_mul] at hcandidate hattempts hsteps
    refine ⟨?_, fun _ => hfound htrying, ?_, ?_, ?_, ?_⟩ <;>
      simp only [Bool.toNat_true, Nat.one_mul] <;> omega

/-- The candidate at hand is tried. -/
theorem Spent.tried (h : Spent route s steps 0) (htrying : s.trying = false)
    (hc : s.candidate < route.snapshot.candidates.length)
    (hfound : (route.candidate? s.candidate).isSome) :
    Spent route { s with trying := true, priorRetries := 0 } (steps + 1) 0 := by
  obtain ⟨-, -, -, -, hattempts, hsteps⟩ := h
  simp only [htrying, Bool.toNat_false, Nat.zero_mul] at hattempts hsteps
  refine ⟨?_, fun _ => hfound, ?_, ?_, ?_, ?_⟩ <;> simp only [Bool.toNat_true, Nat.one_mul] <;> omega

/-- The candidate at hand is passed over. -/
theorem Spent.skip (h : Spent route s steps 0) (htrying : s.trying = false)
    (hc : s.candidate < route.snapshot.candidates.length) :
    Spent route { s with candidate := s.candidate + 1 } (steps + 1) 0 := by
  obtain ⟨-, -, hretries, -, hattempts, hsteps⟩ := h
  simp only [htrying, Bool.toNat_false, Nat.zero_mul] at hattempts hsteps
  refine ⟨?_, by simp [htrying], hretries, Nat.zero_le _, ?_, ?_⟩ <;>
    simp only [htrying, Bool.toNat_false, Nat.add_mul, Nat.one_mul, Nat.zero_mul] <;> omega

/-- The next candidate. -/
theorem Spent.fallback (h : Spent route s steps 1)
    (hc : s.candidate < route.snapshot.candidates.length) :
    Spent route { s with candidate := s.candidate + 1, trying := false } steps 0 := by
  obtain ⟨-, -, hretries, hextra, hattempts, hsteps⟩ := h
  have hmul : s.trying.toNat * s.priorRetries ≤ s.priorRetries :=
    Nat.le_trans (Nat.mul_le_mul_right _ s.trying.toNat_le) (by simp)
  have hmul' : s.trying.toNat * (1 + s.priorRetries) ≤ 1 + s.priorRetries :=
    Nat.le_trans (Nat.mul_le_mul_right _ s.trying.toNat_le) (by simp)
  refine ⟨?_, by simp, hretries, Nat.zero_le _, ?_, ?_⟩ <;>
    simp only [Bool.toNat_false, Nat.add_mul, Nat.one_mul, Nat.zero_mul] at * <;> omega

/-- The compaction, once. -/
theorem Spent.compact (h : Spent route s steps 1) (hc : s.compacted = false) :
    Spent route { s with compacted := true } steps 0 := by
  obtain ⟨hcandidate, hfound, hretries, -, hattempts, hsteps⟩ := h
  simp only [hc, Bool.toNat_false] at hattempts hsteps
  refine ⟨hcandidate, hfound, hretries, Nat.zero_le _, ?_, ?_⟩ <;> simp only [Bool.toNat_true] <;> omega

/-- A compaction that does not help. -/
theorem Spent.compacted (h : Spent route s steps extra) :
    Spent route { s with compacted := true } steps extra := by
  obtain ⟨hcandidate, hfound, hretries, hextra, hattempts, hsteps⟩ := h
  have hle := s.compacted.toNat_le
  refine ⟨hcandidate, hfound, hretries, hextra, ?_, ?_⟩ <;> simp only [Bool.toNat_true] <;> omega

/-- One attempt more. -/
theorem Spent.attempted (h : Spent route s steps 0) (htrying : s.trying = true) (log : AttemptLog)
    (emitted : List AgentEvent) :
    Spent route { s with attempts := s.attempts ++ [log], emitted } (steps + 1) 1 := by
  obtain ⟨hcandidate, hfound, hretries, -, hattempts, hsteps⟩ := h
  refine ⟨hcandidate, hfound, hretries, ?_, ?_, ?_⟩
  · simp [htrying]
  · simp only [List.length_append, List.length_singleton]
    omega
  · dsimp only
    omega

/-! ## From step to step -/

theorem lt_of_decide_retry {p : RetryPolicy} {kind : ProviderErrorKind} {prior delay : Nat}
    {retryAfterMs : Option Nat} {safe more : Bool}
    (h : p.decide kind prior retryAfterMs safe more = .retry delay) :
    prior < RetryPolicy.largestBudget p := by
  have hle := budget_le_largestBudget p kind
  unfold RetryPolicy.decide at h
  split at h
  · cases h
  · split at h
    · omega
    · split at h <;> cases h

theorem lt_of_decision_retry {index prior delay : Nat} {error : ProviderError} {safe : Bool}
    {state : CircuitState} (h : decision route index prior error safe state = .retry delay) :
    prior < RetryPolicy.largestBudget route.snapshot.retryPolicy := by
  unfold decision at h
  dsimp only at h
  split at h
  · rename_i hdecide
    exact lt_of_decide_retry hdecide
  · exact lt_of_decide_retry h

theorem Spent.recover (h : Spent route s steps 1)
    (hc : s.candidate < route.snapshot.candidates.length) (error : ProviderError) (safe : Bool) (state : CircuitState) :
    Bounded route steps (recover route audit input error safe state s) := by
  unfold Engine.recover
  dsimp only
  split
  · rename_i hretry
    refine write_induct (fun _ => (h.lastError error).conclude _ _) fun writes => ?_
    have hspent := ((h.lastError error).writes writes).retry (lt_of_decision_retry hretry)
    split
    · exact hspent.conclude _ _
    · exact hspent.bounded
  · refine write_induct (fun _ => (h.lastError error).conclude _ _) fun writes => ?_
    exact (((h.lastError error).writes writes).fallback hc).bounded
  · exact (h.lastError error).conclude _ _

theorem Spent.failAttempt (h : Spent route s steps 1)
    (hc : s.candidate < route.snapshot.candidates.length) (candidate : RouteCandidate)
    (o : AttemptObservation) (error : ProviderError) :
    Bounded route steps (failAttempt route audit input candidate o error s) := by
  unfold Engine.failAttempt
  refine write_induct (fun _ => h.conclude _ _) fun writes => ?_
  refine write_induct (fun _ => (h.writes writes).conclude _ _) fun writes' => ?_
  have hw := h.writes writes'
  split
  · rename_i hoverflow
    dsimp only
    split
    · exact (hw.compact hoverflow.2.1).bounded
    · exact hw.compacted.recover hc error _ _
  · exact hw.recover hc error _ _

theorem Spent.succeed (h : Spent route s steps extra) (candidate : RouteCandidate)
    (o : AttemptObservation) (output : ModelOutput Value) :
    Bounded route steps (succeed audit input candidate o output s) := by
  have hkeep : ∀ (b : Bool) (e : ProviderError),
      Spent route (if b then { s with lastError := e } else s) steps extra := by
    intro b e
    split
    · exact h.lastError e
    · exact h
  unfold Engine.succeed
  dsimp only
  refine write_induct (fun _ => (hkeep _ _).conclude _ _) fun writes => ?_
  refine write_induct (fun _ => ((hkeep _ _).writes writes).conclude _ _) fun writes' => ?_
  exact ((hkeep _ _).writes writes').conclude _ _

theorem Spent.attempt (h : Spent route s steps 0)
    (hc : s.candidate < route.snapshot.candidates.length) (htrying : s.trying = true)
    (candidate : RouteCandidate) :
    Bounded route (steps + 1) (attempt json route audit input candidate s) := by
  unfold Engine.attempt
  split
  · exact h.conclude _ _
  · refine write_induct (fun _ => h.conclude _ _) fun writes => ?_
    have hspent := (h.writes writes).attempted htrying ⟨s.candidate, input.stream.all⟩
      (s.emitted ++ (requestModelOnce json input.stream).2.emitted)
    dsimp only
    split
    · exact hspent.succeed candidate _ _
    · exact hspent.failAttempt hc candidate _ _

theorem Spent.enter (h : Spent route s steps 0) (htrying : s.trying = false) :
    Bounded route (steps + 1) (enter route audit input s) := by
  unfold Engine.enter
  split
  · exact h.conclude _ _
  · rename_i candidate hcandidate
    have hc := lt_of_candidate hcandidate
    split
    · refine write_induct (fun _ => h.conclude _ _) fun writes => ?_
      exact ((h.writes writes).skip htrying hc).bounded
    · exact (h.tried htrying hc (by simp [hcandidate])).bounded

theorem Bounded.next (h : Bounded route steps s) (json : Serde Value) (audit : Option Audit)
    (input : RequestInput) : Bounded route (steps + 1) (requestNext json route audit s input) := by
  unfold requestNext
  split
  · rename_i hdone
    refine ⟨h.attempts, fun hr => ?_⟩
    simp [hr] at hdone
  · rename_i hfree
    have hspent := h.spent (by simpa [Option.isSome_iff_ne_none] using hfree)
    split
    · rename_i htrying
      split
      · rename_i hnone
        have hfound := hspent.found htrying
        simp [hnone] at hfound
      · rename_i candidate hcandidate
        exact hspent.attempt (lt_of_candidate hcandidate) htrying candidate
    · rename_i htrying
      exact hspent.enter (by simpa using htrying)

theorem Bounded.after (h : Bounded route steps s) (json : Serde Value) (audit : Option Audit)
    (inputs : List RequestInput) : Bounded route (steps + inputs.length) (after (requestNext json route audit) s inputs) := by
  induction inputs generalizing s steps with
  | nil => exact h
  | cons input inputs ih =>
    have hrest := ih (h.next json audit input)
    rw [List.length_cons, Nat.add_comm inputs.length, ← Nat.add_assoc]
    exact hrest

theorem spent_start (route : FrozenRoute) : Spent route ({} : RequestState Value) 0 0 := by
  refine ⟨?_, ?_, ?_, ?_, ?_, ?_⟩ <;> simp

/-- A request that has taken more steps than that has returned. -/
theorem Bounded.isSome_of_lt (h : Bounded route steps s) (hlt : route.stepBound < steps) :
    s.result.isSome := by
  by_contra hnone
  have hspent := h.spent (by simpa using hnone)
  have hle := hspent.steps_le_bound
  omega

/-- **Bounded attempts.** However the attempts go, a request over a route makes at most as many as
its candidates and their retries allow, and one after the compaction; and it returns. -/
theorem attempts_bounded (json : Serde Value) (audit : Option Audit) (route : FrozenRoute)
    (cancelled : Bool) (script : Nat → RequestInput) :
    (∀ k, (requestModel json audit (some route) cancelled ((List.range k).map script)
        ).attempts.length ≤
      (route.snapshot.candidates.map fun _ =>
        1 + RetryPolicy.largestBudget route.snapshot.retryPolicy).sum + 1) ∧
    ∃ k, (requestModel json audit (some route) cancelled ((List.range k).map script)
      ).result.isSome := by
  cases cancelled with
  | true => exact ⟨fun _ => Nat.zero_le _, 0, rfl⟩
  | false =>
    have hrun := fun k => (spent_start route).bounded.after json audit ((List.range k).map script)
    refine ⟨fun k => (hrun k).attempts, route.stepBound + 1, ?_⟩
    refine (hrun (route.stepBound + 1)).isSome_of_lt ?_
    simp

end AgentDaemon.Engine
