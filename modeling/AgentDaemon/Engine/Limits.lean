import AgentDaemon.Engine.Turn

/-!
The limits of a turn: rounds, tokens, failures in a row and batches that repeat. The counters that
`run_turn` keeps are functions of the rounds that it has come through, a turn goes on as long as
these rounds are within the limits, and its next request reminds the model of them
(`turn_limited`).
-/

namespace AgentDaemon.Engine

open Provider Storage Transition

variable {Value : Type}

/-! ## The rounds of a turn -/

/-- A round that the turn has come through. One whose calls were rejected has no batch, and counts
as one failure. -/
structure Passage (Value : Type) where
  tokens : Nat
  failures : Nat
  batch : Option (List ToolFingerprint)
  transientMessages : List (Message Value)

/-- All tools of the round have succeeded. -/
def Passage.clean (p : Passage Value) : Bool := p.batch.isSome && p.failures = 0

/-- The failures since the last clean round. -/
def failuresInRow (t : List (Passage Value)) : Nat :=
  ((t.reverse.takeWhile fun p => !p.clean).map Passage.failures).sum

/-- The batches at the end of the list that are all equal. -/
def sameAtEnd (batches : List (List ToolFingerprint)) : Nat :=
  match batches.reverse with
  | [] => 0
  | batch :: before => 1 + (before.takeWhile (· = batch)).length

/-- The rejected rounds in between do not count. -/
def repeats (t : List (Passage Value)) : Nat := sameAtEnd (t.filterMap Passage.batch)

/-- Sums of tokens are `u64`, and saturate. -/
def tokensOf (t : List (Passage Value)) : Nat := min (t.map Passage.tokens).sum (2 ^ 64 - 1)

/-- The rounds keep within the limits of the turn. -/
structure Within (e : LoopEngine Value) (t : List (Passage Value)) : Prop where
  rounds : ∀ limit, e.roundLimit = some limit → t.length ≤ limit
  tokens : ∀ budget, e.totalTokenBudget = some budget → tokensOf t ≤ budget
  failures : failuresInRow t < maxConsecutiveToolFailures
  repeats : repeats t < repetitionAbortThreshold

/-- A turn without a limit is told how far it is after each fifty rounds. -/
def atCheckpoint (e : LoopEngine Value) (t : List (Passage Value)) : Bool :=
  e.roundLimit.isNone && 0 < t.length && t.length % defaultProgressCheckpointRounds = 0

/-- The last round was the third in a row with the same batch. -/
def atRepetition (t : List (Passage Value)) : Bool :=
  (t.getLast?.bind Passage.batch).isSome && repeats t = repetitionThreshold

/-- What a request has behind the history. -/
def notesFor (e : LoopEngine Value) (t : List (Passage Value)) : List (Message Value) :=
  t.flatMap Passage.transientMessages ++
    (if atCheckpoint e t then [.text .system progressCheckpointReminder] else []) ++
    (if atRepetition t then [.text .system repetitionReminderText] else [])

section Rounds

variable (json : Serde Value) (printer : Printer Value) (e : LoopEngine Value)

/-- The history as `prepare` leaves it, and the messages of the request. -/
def composed (s : TurnState Value) (input : RoundInput Value) :
    List (Message Value) × Except EngineError (List (Message Value)) :=
  let (history, prepared) :=
    e.context.prepare printer s.history e.specs input.environment input.summary
  (history, prepared.map fun messages => messages ++ s.transientMessages ++
    (if e.roundLimit.isNone && s.round + 1 > 1 &&
        (s.round + 1 - 1) % defaultProgressCheckpointRounds = 0 then
      [.text .system progressCheckpointReminder] else []) ++
    (if s.repetitionReminder then [.text .system repetitionReminderText] else []))

/-- The request of the round and what the model has answered. -/
def answered (s : TurnState Value) (input : RoundInput Value) :
    Option (List (Message Value) × ModelOutput Value) :=
  match e.roundLimit.filter (s.round + 1 > ·) with
  | some _ => none
  | none =>
    match (composed printer e s input).2 with
    | .error _ => none
    | .ok messages =>
      match (requestModel json (e.audit.map fun runId => ⟨runId, s.round + 1⟩) e.route
          input.cancelled input.requests).result with
      | some (.ok output) => some (messages, output)
      | _ => none

/-- The results of the calls, if the round runs them. -/
def ranTools (input : RoundInput Value) : Response Value → Option (List (ToolExecution Value))
  | .toolCalls calls =>
    if calls.isEmpty then none
    else match input.tools.admitAll calls with
      | .error _ => none
      | .ok () => (executeInWaves printer e.audit.isSome input.runs input.tools calls).toOption
  | _ => none

def estimateInput (messages : List (Message Value)) : Nat :=
  (messages.map fun message => (message.content.map estimateTextTokens).getD 0).sum

/-- What the round comes to when nothing disturbs it. -/
def attempted (s : TurnState Value) (input : RoundInput Value) : Option (Passage Value) :=
  (answered json printer e s input).map fun (messages, output) =>
    let tokens := estimateInput messages + estimateOutput printer output.response
    match ranTools printer e input output.response with
    | none => ⟨tokens, 1, none, []⟩
    | some results => ⟨tokens, results.countP (·.failed), some (results.map (·.fingerprint)),
        results.flatMap (·.transientMessages)⟩

/-- The round is not the last one. -/
def passage (s : TurnState Value) (input : RoundInput Value) : Option (Passage Value) :=
  if (turnRound json printer e s input).result.isSome then none
  else attempted json printer e s input

/-- The rounds that a turn has come through. -/
def passed (s : TurnState Value) (rounds : List (RoundInput Value)) : List (Passage Value) :=
  outputs (turnRound json printer e) (passage json printer e) s rounds

/-- The answers that a turn gets. -/
def answers (s : TurnState Value) (rounds : List (RoundInput Value)) :
    List (List (Message Value) × ModelOutput Value) :=
  outputs (turnRound json printer e)
    (fun s input => if s.result.isSome then none else answered json printer e s input) s rounds

/-- The model has answered with calls, and nothing but the limits can end the turn: no call of a
store fails, no cancellation is seen, and the usage that was measured is within the budget. -/
structure Unhindered (s : TurnState Value) (input : RoundInput Value) : Prop where
  speaks : ∀ a, answered json printer e s input = some a → Response.isText a.2.response = false
  usage : ∀ budget, e.totalTokenBudget = some budget → e.audit.isSome = true →
    ∃ usage, input.usage = .ok usage ∧
      saturatingAdd (usage.inputTokens.getD 0) (usage.outputTokens.getD 0) ≤ budget
  prepare : e.audit.isSome = true → input.prepareFails = none
  append : e.session = true → input.appended = .done
  free : input.interrupted = false
  durable : e.audit.isSome = true → ∀ call, (input.runs call).Durable
  appends : e.session = true → ∀ i, input.resultAppended i = .done
  finish : e.audit.isSome = true → input.finishFails = none

end Rounds

/-! ## Counting from the end -/

section Counting

variable (t : List (Passage Value)) (p : Passage Value)

theorem failuresInRow_concat :
    failuresInRow (t ++ [p]) = if p.clean then 0 else failuresInRow t + p.failures := by
  simp only [failuresInRow, List.reverse_append, List.reverse_singleton, List.singleton_append,
    List.takeWhile_cons]
  cases p.clean
  · simp [Nat.add_comm]
  · simp

theorem sameAtEnd_concat (batches : List (List ToolFingerprint)) (batch : List ToolFingerprint) :
    sameAtEnd (batches ++ [batch]) =
      if batches.getLast? = some batch then sameAtEnd batches + 1 else 1 := by
  have hlast : batches.getLast? = batches.reverse.head? := by rw [List.head?_reverse]
  simp only [sameAtEnd, List.reverse_append, List.reverse_singleton, List.singleton_append, hlast]
  cases batches.reverse with
  | nil => simp
  | cons last before =>
    by_cases h : last = batch
    · subst h
      simp [Nat.add_comm]
    · simp [h]

theorem tokensOf_concat : tokensOf (t ++ [p]) = min (tokensOf t + p.tokens) (2 ^ 64 - 1) := by
  simp only [tokensOf, List.map_append, List.map_cons, List.map_nil, List.sum_append,
    List.sum_singleton]
  omega

theorem repeats_concat : repeats (t ++ [p]) =
    match p.batch with
    | none => repeats t
    | some batch =>
      if (t.filterMap Passage.batch).getLast? = some batch then repeats t + 1 else 1 := by
  simp only [repeats, List.filterMap_append, List.filterMap_cons, List.filterMap_nil]
  cases p.batch with
  | none => simp
  | some batch => exact sameAtEnd_concat _ batch

end Counting

/-! ## The counters -/

/-- The counters of the turn are what its rounds come to. -/
structure Tallied (e : LoopEngine Value) (t : List (Passage Value)) (s : TurnState Value) :
    Prop where
  round : s.round = t.length
  failures : s.consecutiveToolFailures = failuresInRow t
  last : s.repeatDetector.last = (t.filterMap Passage.batch).getLast?
  count : s.repeatDetector.count = repeats t
  reminder : s.repetitionReminder = atRepetition t
  transientMessages : s.transientMessages = t.flatMap Passage.transientMessages
  tokens : e.totalTokenBudget.isSome = true → s.estimatedTotalTokens = tokensOf t

/-- What a round that is not the last one does to the counters. -/
structure Moved (e : LoopEngine Value) (p : Passage Value) (s s' : TurnState Value) : Prop where
  round : s'.round = s.round + 1
  failures : s'.consecutiveToolFailures =
    if p.clean then 0 else s.consecutiveToolFailures + p.failures
  detector : s'.repeatDetector = (p.batch.map s.repeatDetector.observe).getD s.repeatDetector
  reminder : s'.repetitionReminder =
    (p.batch.isSome && s'.repeatDetector.count = repetitionThreshold)
  transientMessages : s'.transientMessages = s.transientMessages ++ p.transientMessages
  tokens : e.totalTokenBudget.isSome = true →
    s'.estimatedTotalTokens = min (s.estimatedTotalTokens + p.tokens) (2 ^ 64 - 1)

/-- The round keeps the counters below the limits. -/
structure Fits (e : LoopEngine Value) (s : TurnState Value) (p : Passage Value) : Prop where
  tokens : ∀ budget, e.totalTokenBudget = some budget →
    min (s.estimatedTotalTokens + p.tokens) (2 ^ 64 - 1) ≤ budget
  failures : p.clean = false → s.consecutiveToolFailures + p.failures < maxConsecutiveToolFailures
  repeats : ((p.batch.map s.repeatDetector.observe).getD s.repeatDetector).count <
    repetitionAbortThreshold

theorem Tallied.moved {e : LoopEngine Value} {t : List (Passage Value)} {p : Passage Value}
    {s s' : TurnState Value} (h : Tallied e t s) (hm : Moved e p s s') :
    Tallied e (t ++ [p]) s' := by
  have hcount : s'.repeatDetector.count = repeats (t ++ [p]) := by
    rw [hm.detector, repeats_concat]
    cases p.batch with
    | none => exact h.count
    | some batch =>
      simp only [Option.map_some, Option.getD_some, RepeatDetector.observe, h.last]
      split
      · rw [h.count]
      · rfl
  constructor
  · rw [hm.round, h.round, List.length_append, List.length_singleton]
  · rw [hm.failures, h.failures, failuresInRow_concat]
  · rw [hm.detector]
    cases hb : p.batch with
    | none => simpa [List.filterMap_append, hb] using h.last
    | some batch =>
      simp only [Option.map_some, Option.getD_some, RepeatDetector.observe]
      split
      · rename_i hsame
        simp [List.filterMap_append, hb, hsame]
      · simp [List.filterMap_append, hb]
  · exact hcount
  · rw [hm.reminder, hcount]
    simp [atRepetition]
  · rw [hm.transientMessages, h.transientMessages]
    simp
  · intro hb
    rw [hm.tokens hb, h.tokens hb, tokensOf_concat]

theorem Tallied.within_iff {e : LoopEngine Value} {t : List (Passage Value)} {p : Passage Value}
    {s : TurnState Value} (h : Tallied e t s)
    (hrounds : ∀ limit, e.roundLimit = some limit → s.round + 1 ≤ limit) :
    Within e (t ++ [p]) ↔ Fits e s p := by
  have hcount : ((p.batch.map s.repeatDetector.observe).getD s.repeatDetector).count =
      repeats (t ++ [p]) := by
    rw [repeats_concat]
    cases p.batch with
    | none => exact h.count
    | some batch =>
      simp only [Option.map_some, Option.getD_some, RepeatDetector.observe, h.last]
      split
      · rw [h.count]
      · rfl
  constructor
  · intro hw
    refine ⟨fun budget hb => ?_, fun hc => ?_, hcount ▸ hw.repeats⟩
    · rw [h.tokens (by rw [hb]; rfl), ← tokensOf_concat]
      exact hw.tokens budget hb
    · have := hw.failures
      rwa [failuresInRow_concat, hc, if_neg (by decide), ← h.failures] at this
  · intro hf
    refine ⟨fun limit hl => ?_, fun budget hb => ?_, ?_, hcount ▸ hf.repeats⟩
    · rw [List.length_append, List.length_singleton, ← h.round]
      exact hrounds limit hl
    · rw [tokensOf_concat, ← h.tokens (by rw [hb]; rfl)]
      exact hf.tokens budget hb
    · rw [failuresInRow_concat]
      cases hc : p.clean with
      | true =>
        rw [if_pos rfl]
        decide
      | false =>
        rw [if_neg (by decide), ← h.failures]
        exact hf.failures hc

/-! ## A round -/

section Round

variable {json : Serde Value} {printer : Printer Value} {e : LoopEngine Value}
  {s : TurnState Value} {input : RoundInput Value}

/-- The state in which the answer of the round is taken up. -/
def begun (s : TurnState Value) (history : List (Message Value)) : TurnState Value :=
  { s with round := s.round + 1, history, repetitionReminder := false }

/-- The state with the results of a batch recorded. -/
def recorded (s : TurnState Value) (history session : List (Message Value))
    (results : List (ToolExecution Value)) : TurnState Value :=
  { s with history, session, transientMessages :=
    s.transientMessages ++ results.flatMap (·.transientMessages) }

/-- A message that is recorded changes the logs only; one that is not ends the turn. -/
theorem record_going {session : Bool} {message : Message Value} {appended : Appending}
    {k : TurnState Value → TurnState Value} :
    (s.record session message appended k).result = none →
    ∃ history file, s.record session message appended k =
      k { s with history, session := file } := by
  unfold TurnState.record
  intro h
  split at h
  · cases appended with
    | done => exact ⟨_, _, by rw [if_pos ‹_›]⟩
    | failed error kept => cases h
  · exact ⟨_, _, by rw [if_neg ‹_›]⟩

theorem record_done {session : Bool} {appended : Appending} (h : session = true → appended = .done)
    (message : Message Value) (k : TurnState Value → TurnState Value) (s : TurnState Value) :
    ∃ history file, s.record session message appended k =
      k { s with history, session := file } := by
  unfold TurnState.record
  split
  · rw [h ‹_›]
    exact ⟨_, _, rfl⟩
  · exact ⟨_, _, rfl⟩

theorem recordResults_going {k : TurnState Value → TurnState Value}
    (results : List (ToolExecution Value)) (i : Nat) (s : TurnState Value)
    (h : (recordResults e input k i results s).result = none) :
    ∃ history file, recordResults e input k i results s =
      k (recorded s history file results) := by
  induction results generalizing i s with
  | nil => exact ⟨s.history, s.session, by simp [recordResults, recorded]⟩
  | cons result results ih =>
    simp only [recordResults] at h ⊢
    obtain ⟨history, file, hrec⟩ := record_going h
    rw [hrec] at h ⊢
    obtain ⟨history', file', hrest⟩ := ih _ _ h
    refine ⟨history', file', ?_⟩
    rw [hrest]
    simp [recorded]

theorem recordResults_all {k : TurnState Value → TurnState Value}
    (h : e.session = true → ∀ i, input.resultAppended i = .done)
    (results : List (ToolExecution Value)) (i : Nat) (s : TurnState Value) :
    ∃ history file, recordResults e input k i results s =
      k (recorded s history file results) := by
  induction results generalizing i s with
  | nil => exact ⟨s.history, s.session, by simp [recordResults, recorded]⟩
  | cons result results ih =>
    simp only [recordResults]
    obtain ⟨history, file, hrec⟩ := record_done (fun he => h he i) result.message
      (fun s => recordResults e input k (i + 1) results
        { s with transientMessages := s.transientMessages ++ result.transientMessages }) s
    rw [hrec]
    obtain ⟨history', file', hrest⟩ := ih (i + 1) _
    refine ⟨history', file', ?_⟩
    rw [hrest]
    simp [recorded]

/-- The state after a batch that does not end the turn. -/
def batched (results : List (ToolExecution Value)) (s : TurnState Value) : TurnState Value :=
  let detector := s.repeatDetector.observe (results.map (·.fingerprint))
  let failures := results.countP (·.failed)
  { s with
    repeatDetector := detector
    repetitionReminder := s.repetitionReminder || detector.count = repetitionThreshold
    consecutiveToolFailures := if failures = 0 then 0 else s.consecutiveToolFailures + failures }

/-- The limits alone end a turn whose results are all recorded. -/
theorem closeBatch_done (results : List (ToolExecution Value)) (s : TurnState Value)
    (hs : s.result = none) (hf : audited e.audit.isSome input.finishFails = .ok ()) :
    ((closeBatch e input results s).result = none ∧
      closeBatch e input results s = batched results s ∧
      (batched results s).repeatDetector.count < repetitionAbortThreshold ∧
      (batched results s).consecutiveToolFailures < maxConsecutiveToolFailures) ∨
    ((closeBatch e input results s).result.isSome = true ∧
      ((batched results s).repeatDetector.count ≥ repetitionAbortThreshold ∨
        (batched results s).consecutiveToolFailures ≥ maxConsecutiveToolFailures)) := by
  unfold closeBatch batched
  rw [hf]
  dsimp only
  by_cases hcount :
      (s.repeatDetector.observe (results.map (·.fingerprint))).count ≥ repetitionAbortThreshold
  · rw [if_pos hcount]
    exact .inr ⟨rfl, .inl hcount⟩
  rw [if_neg hcount]
  by_cases hclean : results.countP (·.failed) = 0
  · rw [if_pos hclean, if_pos hclean]
    exact .inl ⟨hs, rfl, by omega, by decide⟩
  rw [if_neg hclean, if_neg hclean]
  by_cases hfail :
      s.consecutiveToolFailures + results.countP (·.failed) ≥ maxConsecutiveToolFailures
  · rw [if_pos hfail]
    exact .inr ⟨rfl, .inr hfail⟩
  · rw [if_neg hfail]
    exact .inl ⟨hs, rfl, by omega, by omega⟩

/-- A batch that does not end the turn has run all its tools and recorded their results. -/
theorem runBatch_going {calls : List (ToolCall Value)} {thinking : Option String}
    (h : (runBatch printer e input calls thinking s).result = none) :
    ∃ results history file,
      executeInWaves printer e.audit.isSome input.runs input.tools calls = .ok results ∧
      audited e.audit.isSome input.finishFails = .ok () ∧
      runBatch printer e input calls thinking s =
        closeBatch e input results (recorded s history file results) := by
  unfold runBatch at h ⊢
  obtain ⟨history, file, hrec⟩ := record_going h
  rw [hrec] at h ⊢
  unfold finishBatch at h ⊢
  split at h
  · cases h
  rename_i hfree
  rw [if_neg hfree]
  cases hex : executeInWaves printer e.audit.isSome input.runs input.tools calls with
  | error error =>
    rw [hex] at h
    cases h
  | ok results =>
    rw [hex] at h
    obtain ⟨history', file', hall⟩ := recordResults_going results 0 _ h
    refine ⟨results, history', file', rfl, ?_, hall⟩
    cases hf : audited e.audit.isSome input.finishFails with
    | ok _ => rfl
    | error error =>
      dsimp only at h
      rw [hall] at h
      unfold closeBatch at h
      rw [hf] at h
      cases h

theorem runBatch_unhindered (hq : Unhindered json printer e s input) (calls : List (ToolCall Value))
    (thinking : Option String) (s₁ : TurnState Value) :
    ∃ results history file,
      executeInWaves printer e.audit.isSome input.runs input.tools calls = .ok results ∧
      runBatch printer e input calls thinking s₁ =
        closeBatch e input results (recorded s₁ history file results) := by
  obtain ⟨history, file, hrec⟩ := record_done hq.append
    (.assistantToolCallsWithThinking calls thinking) (finishBatch printer e input calls) s₁
  obtain ⟨results, hex⟩ : ∃ results,
      executeInWaves printer e.audit.isSome input.runs input.tools calls = .ok results :=
    exists_executeInWaves printer input.tools fun he call _ => hq.durable he call
  obtain ⟨history', file', hall⟩ := recordResults_all (k := closeBatch e input results)
    hq.appends results 0 { s₁ with history, session := file }
  refine ⟨results, history', file', hex, ?_⟩
  unfold runBatch
  rw [hrec]
  unfold finishBatch
  rw [hq.free, if_neg (by decide), hex]
  exact hall

/-- A request whose answer is not there yet leaves the turn as it is, and one that gets none ends
it. -/
theorem head_unanswered (h : answered json printer e s input = none) :
    head json printer e s input = .over s ∨
      ∃ s', head json printer e s input = .over s' ∧ s'.result.isSome = true := by
  unfold answered composed at h
  unfold head
  generalize e.context.prepare printer s.history e.specs input.environment input.summary = p at h ⊢
  obtain ⟨history, prepared⟩ := p
  dsimp only at h ⊢
  generalize e.roundLimit.filter (s.round + 1 > ·) = limited at h ⊢
  cases limited with
  | some limit => exact .inr ⟨_, rfl, rfl⟩
  | none =>
    cases prepared with
    | error error => exact .inr ⟨_, rfl, rfl⟩
    | ok messages =>
      dsimp only [Except.map] at h ⊢
      cases hres : (requestModel json (e.audit.map fun runId => ⟨runId, s.round + 1⟩) e.route
          input.cancelled input.requests).result with
      | none => exact .inl rfl
      | some outcome =>
        cases outcome with
        | error error => exact .inr ⟨_, rfl, rfl⟩
        | ok output =>
          rw [hres] at h
          cases h

theorem head_answered {messages : List (Message Value)} {output : ModelOutput Value}
    (h : answered json printer e s input = some (messages, output)) :
    (∀ limit, e.roundLimit = some limit → s.round + 1 ≤ limit) ∧
    ∃ history, head json printer e s input = spend printer e input messages output.response
      (begun s history) (answer e input output) := by
  unfold answered composed at h
  unfold head
  generalize e.context.prepare printer s.history e.specs input.environment input.summary = p at h ⊢
  obtain ⟨history, prepared⟩ := p
  dsimp only at h ⊢
  generalize hlimit : e.roundLimit.filter (s.round + 1 > ·) = limited at h ⊢
  cases limited with
  | some limit => cases h
  | none =>
    refine ⟨fun limit hl => ?_, history, ?_⟩
    · rw [hl, Option.filter_eq_none_iff] at hlimit
      have := hlimit limit rfl
      simpa using this
    cases prepared with
    | error error => cases h
    | ok prepared =>
      dsimp only [Except.map] at h ⊢
      cases hres : (requestModel json (e.audit.map fun runId => ⟨runId, s.round + 1⟩) e.route
          input.cancelled input.requests).result with
      | none =>
        rw [hres] at h
        cases h
      | some outcome =>
        cases outcome with
        | error error =>
          rw [hres] at h
          cases h
        | ok output' =>
          rw [hres] at h
          obtain ⟨rfl, rfl⟩ := Prod.mk.inj (Option.some.inj h)
          rfl

theorem saturatingAdd_assoc (a b c : Nat) :
    saturatingAdd a (saturatingAdd b c) = min (a + (b + c)) (2 ^ 64 - 1) := by
  unfold saturatingAdd
  omega

/-- The estimate of the tokens behind the round. -/
def spent (printer : Printer Value) (s : TurnState Value) (messages : List (Message Value))
    (response : Response Value) : Nat :=
  min (s.estimatedTotalTokens + (estimateInput messages + estimateOutput printer response))
    (2 ^ 64 - 1)

/-- The budget is checked before the answer is looked at. -/
theorem spend_going (printer : Printer Value) (e : LoopEngine Value) (input : RoundInput Value)
    (s : TurnState Value) (messages : List (Message Value)) {response : Response Value}
    (hr : Response.isText response = false) (k : TurnState Value → Head Value) :
    (∃ s', spend printer e input messages response s k = .over s' ∧ s'.result.isSome = true) ∨
    ∃ tokens, spend printer e input messages response s k =
        k { s with estimatedTotalTokens := tokens } ∧
      ∀ budget, e.totalTokenBudget = some budget →
        tokens = spent printer s messages response ∧ tokens ≤ budget := by
  unfold spend
  cases hb : e.totalTokenBudget with
  | none => exact .inr ⟨s.estimatedTotalTokens, rfl, fun _ h => nomatch h⟩
  | some budget =>
    dsimp only
    rw [saturatingAdd_assoc]
    generalize (if e.audit.isSome then some <$> input.usage else .ok none) = usage
    cases usage with
    | error error => exact .inl ⟨_, rfl, rfl⟩
    | ok usage =>
      dsimp only
      split
      · exact .inl ⟨_, rfl, rfl⟩
      · rename_i hle
        refine .inr ⟨_, rfl, fun budget' h => ?_⟩
        cases h
        refine ⟨rfl, ?_⟩
        by_contra hgt
        exact hle ⟨lt_of_lt_of_le (Nat.lt_of_not_le hgt) (Nat.le_max_right _ _), hr⟩

theorem spend_unhindered (hq : Unhindered json printer e s input) (messages : List (Message Value))
    (response : Response Value) (s₁ : TurnState Value) (k : TurnState Value → Head Value)
    (hle : ∀ budget, e.totalTokenBudget = some budget →
      spent printer s₁ messages response ≤ budget) :
    ∃ tokens, spend printer e input messages response s₁ k =
      k { s₁ with estimatedTotalTokens := tokens } := by
  unfold spend
  cases hb : e.totalTokenBudget with
  | none => exact ⟨s₁.estimatedTotalTokens, rfl⟩
  | some budget =>
    dsimp only
    rw [saturatingAdd_assoc]
    have hest := hle budget hb
    by_cases ha : e.audit.isSome = true
    · obtain ⟨usage, hu, hmeasured⟩ := hq.usage budget hb ha
      rw [if_pos ha, hu]
      refine ⟨_, if_neg fun h => ?_⟩
      exact absurd h.1 (Nat.not_lt.mpr (max_le hmeasured hest))
    · rw [if_neg ha]
      refine ⟨_, if_neg fun h => ?_⟩
      exact absurd h.1 (Nat.not_lt.mpr (max_le (Nat.zero_le _) hest))

/-- A rejection counts as a failure, and the third in a row ends the turn. -/
theorem reject_going {note : String} {stop : Nat → String}
    (h : (reject e input note stop s).result = none) :
    s.consecutiveToolFailures + 1 < maxConsecutiveToolFailures ∧
    ∃ history file, reject e input note stop s =
      { s with
        history, session := file
        consecutiveToolFailures := s.consecutiveToolFailures + 1 } := by
  unfold reject at h ⊢
  obtain ⟨history, file, hrec⟩ := record_going h
  rw [hrec] at h ⊢
  split at h
  · cases h
  · rename_i hlt
    exact ⟨Nat.lt_of_not_le hlt, history, file, if_neg hlt⟩

theorem reject_unhindered (note : String) (stop : Nat → String)
    (hq : Unhindered json printer e s input) (s₁ : TurnState Value) (hs : s₁.result = none)
    (hlt : s₁.consecutiveToolFailures + 1 < maxConsecutiveToolFailures) :
    (reject e input note stop s₁).result = none := by
  unfold reject
  dsimp only
  obtain ⟨history, file, hrec⟩ := record_done hq.append (.text .system note)
    (fun s => if s.consecutiveToolFailures ≥ maxConsecutiveToolFailures then
      s.conclude (.error (.other (stop s.consecutiveToolFailures))) else s)
    { s₁ with consecutiveToolFailures := s₁.consecutiveToolFailures + 1 }
  rw [hrec]
  rw [if_neg (Nat.not_le.mpr hlt)]
  exact hs

theorem turnRound_over (hs : s.result = none) {s' : TurnState Value}
    (h : head json printer e s input = .over s') : turnRound json printer e s input = s' := by
  unfold turnRound
  rw [hs, if_neg (by decide), h]

theorem turnRound_batch (hs : s.result = none) {s' : TurnState Value}
    {calls : List (ToolCall Value)} {thinking : Option String}
    (h : head json printer e s input = .batch s' calls thinking) :
    turnRound json printer e s input = runBatch printer e input calls thinking s' := by
  unfold turnRound
  rw [hs, if_neg (by decide), h]

/-- How an answer with calls is taken up: they are rejected, or they are run. -/
theorem answer_cases (printer : Printer Value) (e : LoopEngine Value) (input : RoundInput Value)
    {output : ModelOutput Value} (hr : Response.isText output.response = false)
    (s₁ : TurnState Value) :
    (ranTools printer e input output.response = none ∧ ∃ note stop,
      answer e input output s₁ = .over (reject e input note stop s₁)) ∨
    ∃ calls, (ranTools printer e input output.response =
        (executeInWaves printer e.audit.isSome input.runs input.tools calls).toOption) ∧
      ((∃ error, audited e.audit.isSome input.prepareFails = .error error ∧
          answer e input output s₁ = .over (s₁.conclude (.error (.runtime error)))) ∨
        (audited e.audit.isSome input.prepareFails = .ok () ∧
          answer e input output s₁ = .batch s₁ calls output.thinking)) := by
  unfold answer ranTools
  cases hresp : output.response with
  | text text =>
    rw [hresp] at hr
    cases hr
  | toolAssemblyFailed error => exact .inl ⟨rfl, _, _, rfl⟩
  | toolCalls calls =>
    dsimp only
    by_cases hne : calls.isEmpty = true
    · rw [if_pos hne, if_pos hne]
      exact .inl ⟨rfl, _, _, rfl⟩
    rw [if_neg hne, if_neg hne]
    cases hadmit : input.tools.admitAll calls with
    | error error => exact .inl ⟨rfl, _, _, rfl⟩
    | ok _ =>
      refine .inr ⟨calls, rfl, ?_⟩
      cases haudit : audited e.audit.isSome input.prepareFails with
      | error error => exact .inl ⟨error, rfl, rfl⟩
      | ok _ => exact .inr ⟨rfl, rfl⟩

/-- A text ends the turn. -/
theorem answer_text {output : ModelOutput Value} (hr : Response.isText output.response = true)
    (s₁ : TurnState Value) :
    ∃ s', answer e input output s₁ = .over s' ∧ s'.result.isSome = true := by
  unfold answer
  cases hresp : output.response with
  | text text =>
    refine ⟨_, rfl, ?_⟩
    unfold TurnState.record
    split
    · cases input.appended <;> rfl
    · rfl
  | toolCalls calls =>
    rw [hresp] at hr
    cases hr
  | toolAssemblyFailed error =>
    rw [hresp] at hr
    cases hr

theorem spend_text (printer : Printer Value) (e : LoopEngine Value) (input : RoundInput Value)
    (s : TurnState Value) (messages : List (Message Value)) {response : Response Value}
    (hr : Response.isText response = true) (k : TurnState Value → Head Value)
    (hk : ∀ s, ∃ s', k s = .over s' ∧ s'.result.isSome = true) :
    ∃ s', spend printer e input messages response s k = .over s' ∧ s'.result.isSome = true := by
  unfold spend
  cases e.totalTokenBudget with
  | none => exact hk s
  | some budget =>
    dsimp only
    generalize (if e.audit.isSome then some <$> input.usage else .ok none) = usage
    cases usage with
    | error error => exact ⟨_, rfl, rfl⟩
    | ok usage =>
      dsimp only
      rw [hr, if_neg (by simp)]
      exact hk _

theorem attempted_rejected {messages : List (Message Value)} {output : ModelOutput Value}
    (ha : answered json printer e s input = some (messages, output))
    (hran : ranTools printer e input output.response = none) :
    attempted json printer e s input =
      some ⟨estimateInput messages + estimateOutput printer output.response, 1, none, []⟩ := by
  unfold attempted
  rw [ha, Option.map_some]
  dsimp only
  rw [hran]

theorem attempted_ran {messages : List (Message Value)} {output : ModelOutput Value}
    (ha : answered json printer e s input = some (messages, output))
    {results : List (ToolExecution Value)}
    (hran : ranTools printer e input output.response = some results) :
    attempted json printer e s input =
      some ⟨estimateInput messages + estimateOutput printer output.response,
        results.countP (·.failed), some (results.map (·.fingerprint)),
        results.flatMap (·.transientMessages)⟩ := by
  unfold attempted
  rw [ha, Option.map_some]
  dsimp only
  rw [hran]

/-- A round that does not end the turn moves the counters and keeps them below the limits, or waits
for its answer. -/
theorem round_going (hs : s.result = none)
    (hcount : s.repeatDetector.count < repetitionAbortThreshold)
    (h : (turnRound json printer e s input).result = none) :
    (answered json printer e s input = none ∧ turnRound json printer e s input = s) ∨
    ∃ p, attempted json printer e s input = some p ∧
      (∀ limit, e.roundLimit = some limit → s.round + 1 ≤ limit) ∧
      Fits e s p ∧ Moved e p s (turnRound json printer e s input) := by
  cases ha : answered json printer e s input with
  | none =>
    rcases head_unanswered ha with hover | ⟨s', hover, hended⟩
    · exact .inl ⟨rfl, turnRound_over hs hover⟩
    · rw [turnRound_over hs hover] at h
      rw [h] at hended
      cases hended
  | some a =>
    obtain ⟨messages, output⟩ := a
    obtain ⟨hrounds, history, hhead⟩ := head_answered ha
    right
    cases hr : Response.isText output.response with
    | true =>
      obtain ⟨s', hover, hended⟩ := spend_text printer e input (begun s history) messages hr
        (answer e input output) fun s => answer_text hr s
      rw [turnRound_over hs (hhead.trans hover)] at h
      rw [h] at hended
      cases hended
    | false =>
      rcases spend_going printer e input (begun s history) messages hr
        (answer e input output) with ⟨s', hover, hended⟩ | ⟨tokens, hspend, htokens⟩
      · rw [turnRound_over hs (hhead.trans hover)] at h
        rw [h] at hended
        cases hended
      have hhead' := hhead.trans hspend
      rcases answer_cases printer e input hr
        { begun s history with estimatedTotalTokens := tokens } with
        ⟨hran, note, stop, hans⟩ | ⟨calls, hran, hans⟩
      · rw [hans] at hhead'
        rw [turnRound_over hs hhead'] at h ⊢
        obtain ⟨hlt, history', file, hrej⟩ := reject_going h
        refine ⟨_, attempted_rejected ha hran, hrounds,
          ⟨fun budget hb => ?_, fun _ => hlt, hcount⟩, ?_⟩
        · obtain ⟨heq, hle⟩ := htokens budget hb
          rw [heq] at hle
          exact hle
        · rw [hrej]
          refine ⟨rfl, rfl, rfl, rfl, (List.append_nil _).symm, fun hb => ?_⟩
          obtain ⟨budget, hb⟩ := Option.isSome_iff_exists.mp hb
          exact (htokens budget hb).1
      · rcases hans with ⟨error, -, hans⟩ | ⟨-, hans⟩
        · rw [hans] at hhead'
          rw [turnRound_over hs hhead'] at h
          cases h
        rw [hans] at hhead'
        rw [turnRound_batch hs hhead'] at h ⊢
        obtain ⟨results, history', file, hex, haudit, hbatch⟩ := runBatch_going h
        rw [hex] at hran
        rcases closeBatch_done results (recorded { begun s history with
          estimatedTotalTokens := tokens } history' file results) hs haudit with
          ⟨-, hclose, hrep, hfail⟩ | ⟨hended, -⟩
        · refine ⟨_, attempted_ran ha hran, hrounds, ⟨fun budget hb => ?_, fun hc => ?_, hrep⟩, ?_⟩
          · obtain ⟨heq, hle⟩ := htokens budget hb
            rw [heq] at hle
            exact hle
          · unfold batched at hfail
            dsimp only at hfail
            rwa [if_neg (by simpa [Passage.clean] using hc)] at hfail
          · rw [hbatch, hclose]
            refine ⟨rfl, ?_, rfl, (Bool.false_or _).trans (Bool.true_and _).symm, rfl, fun hb => ?_⟩
            · simp [batched, recorded, begun, Passage.clean]
            · obtain ⟨budget, hb⟩ := Option.isSome_iff_exists.mp hb
              exact (htokens budget hb).1
        · rw [hbatch] at h
          rw [h] at hended
          cases hended

/-- Where nothing else disturbs it, a round that fits is not the last one. -/
theorem round_unhindered (hs : s.result = none) (hq : Unhindered json printer e s input)
    {p : Passage Value} (hp : attempted json printer e s input = some p) (hf : Fits e s p) :
    (turnRound json printer e s input).result = none := by
  obtain ⟨⟨messages, output⟩, ha, -⟩ := Option.map_eq_some_iff.mp hp
  obtain ⟨-, history, hhead⟩ := head_answered ha
  have hr := hq.speaks _ ha
  have htokens : p.tokens = estimateInput messages + estimateOutput printer output.response := by
    cases hran : ranTools printer e input output.response with
    | none =>
      rw [attempted_rejected ha hran] at hp
      cases hp
      rfl
    | some results =>
      rw [attempted_ran ha hran] at hp
      cases hp
      rfl
  obtain ⟨tokens, hspend⟩ := spend_unhindered hq messages output.response (begun s history)
    (answer e input output) fun budget hb => by
      have := hf.tokens budget hb
      rwa [htokens] at this
  have hhead' := hhead.trans hspend
  rcases answer_cases printer e input hr
    { begun s history with estimatedTotalTokens := tokens } with
    ⟨hran, note, stop, hans⟩ | ⟨calls, hran, hans⟩
  · rw [attempted_rejected ha hran] at hp
    cases hp
    rw [hans] at hhead'
    rw [turnRound_over hs hhead']
    exact reject_unhindered note stop hq _ hs (hf.failures rfl)
  · rcases hans with ⟨error, haudit, -⟩ | ⟨-, hans⟩
    · unfold audited at haudit
      split at haudit
      · rw [hq.prepare ‹_›] at haudit
        cases haudit
      · cases haudit
    rw [hans] at hhead'
    rw [turnRound_batch hs hhead']
    obtain ⟨results, history', file, hex, hbatch⟩ := runBatch_unhindered hq calls
      output.thinking { begun s history with estimatedTotalTokens := tokens }
    rw [hex] at hran
    rw [attempted_ran ha hran] at hp
    cases hp
    have haudit : audited e.audit.isSome input.finishFails = .ok () := audited_eq_ok.mpr hq.finish
    rw [hbatch]
    rcases closeBatch_done results (recorded { begun s history with
        estimatedTotalTokens := tokens } history' file results) hs haudit with
      ⟨hgoing, -⟩ | ⟨-, hrep | hfail⟩
    · exact hgoing
    · exact absurd hf.repeats (Nat.not_lt.mpr hrep)
    · unfold batched at hfail
      dsimp only at hfail
      split at hfail
      · exact absurd hfail (by decide)
      · rename_i hne
        exact absurd (hf.failures (by simpa [Passage.clean] using hne)) (Nat.not_lt.mpr hfail)

end Round

/-! ## A whole turn -/

section Turns

variable {json : Serde Value} {printer : Printer Value} {e : LoopEngine Value}

theorem tallied_beginTurn {turn : TurnInput} {history session : List (Message Value)}
    (h : (beginTurn e turn history session).result = none) :
    Tallied e [] (beginTurn e turn history session) := by
  unfold beginTurn at h ⊢
  dsimp only at h ⊢
  split at h
  · cases h
  rename_i hc
  rw [if_neg hc]
  split at h
  · cases h
  rename_i hl
  rw [if_neg hl]
  obtain ⟨history', file, hrec⟩ := record_going h
  rw [hrec]
  exact ⟨rfl, rfl, rfl, rfl, rfl, rfl, fun _ => rfl⟩

/-- A turn that is going has been going all along. -/
theorem going_before {s : TurnState Value} (rounds : List (RoundInput Value))
    (h : (after (turnRound json printer e) s rounds).result = none) : s.result = none := by
  by_contra hended
  have hstay : after (turnRound json printer e) s rounds = s :=
    after_induct (G := fun _ _ => True) (I := (· = s))
      (fun s' input heq _ => by
        rw [heq, turnRound, if_pos (Option.isSome_iff_ne_none.mpr hended)]) rfl (along_true _ _)
  exact hended (hstay ▸ h)

/-- The step lemma for the counters. -/
theorem tallied_round {t : List (Passage Value)} {s : TurnState Value} {input : RoundInput Value}
    (hs : s.result = none) (ht : Tallied e t s) (hw : Within e t)
    (h : (turnRound json printer e s input).result = none) :
    Tallied e (t ++ (passage json printer e s input).toList) (turnRound json printer e s input) ∧
      Within e (t ++ (passage json printer e s input).toList) := by
  unfold passage
  rw [h, if_neg (by decide)]
  rcases round_going hs (ht.count ▸ hw.repeats) h with ⟨ha, heq⟩ | ⟨p, hp, hrounds, hfits, hmoved⟩
  · unfold attempted
    rw [ha, heq]
    simpa using ⟨ht, hw⟩
  · rw [hp]
    exact ⟨ht.moved hmoved, (ht.within_iff hrounds).mpr hfits⟩

theorem tallied_rounds (rounds : List (RoundInput Value)) {t : List (Passage Value)}
    {s : TurnState Value} (hs : s.result = none) (ht : Tallied e t s) (hw : Within e t)
    (h : (after (turnRound json printer e) s rounds).result = none) :
    Tallied e (t ++ passed json printer e s rounds) (after (turnRound json printer e) s rounds) ∧
      Within e (t ++ passed json printer e s rounds) := by
  induction rounds generalizing s t with
  | nil => simpa [passed, outputs] using ⟨ht, hw⟩
  | cons input rounds ih =>
    have hnext : (turnRound json printer e s input).result = none := going_before rounds h
    obtain ⟨ht', hw'⟩ := tallied_round hs ht hw hnext
    have hrest := ih hnext ht' hw' h
    rwa [List.append_assoc] at hrest

theorem tallied_begin {turn : TurnInput} {history session : List (Message Value)}
    (h : (beginTurn e turn history session).result = none) :
    Tallied e [] (beginTurn e turn history session) ∧ Within e ([] : List (Passage Value)) :=
  ⟨tallied_beginTurn h, fun _ _ => Nat.zero_le _, fun _ _ => Nat.zero_le _, Nat.zero_lt_succ 2,
    Nat.zero_lt_succ 9⟩

theorem answers_ended {s : TurnState Value} (h : s.result.isSome = true)
    (rounds : List (RoundInput Value)) : answers json printer e s rounds = [] := by
  induction rounds with
  | nil => rfl
  | cons input rounds ih =>
    have hstay : turnRound json printer e s input = s := by
      unfold turnRound
      rw [if_pos h]
    show Option.toList (if s.result.isSome then none else _) ++ _ = _
    rw [if_pos h, hstay]
    exact ih

/-- A turn gets no more answers than its limit allows rounds. -/
theorem answers_le {limit : Nat} (hl : e.roundLimit = some limit) (rounds : List (RoundInput Value))
    {t : List (Passage Value)} {s : TurnState Value} (hs : s.result = none) (ht : Tallied e t s)
    (hw : Within e t) : t.length + (answers json printer e s rounds).length ≤ limit := by
  induction rounds generalizing s t with
  | nil => exact hw.rounds limit hl
  | cons input rounds ih =>
    have hcons : answers json printer e s (input :: rounds) =
        (answered json printer e s input).toList ++
          answers json printer e (turnRound json printer e s input) rounds := by
      show Option.toList (if s.result.isSome then none else _) ++ _ = _
      rw [hs, if_neg (by decide)]
      rfl
    rw [hcons, List.length_append, ← Nat.add_assoc]
    have hone : t.length + (answered json printer e s input).toList.length ≤ limit := by
      cases ha : answered json printer e s input with
      | none => exact hw.rounds limit hl
      | some a =>
        obtain ⟨messages, output⟩ := a
        have := (head_answered ha).1 limit hl
        rwa [ht.round] at this
    cases hnext : (turnRound json printer e s input).result with
    | some result =>
      rw [answers_ended (by rw [hnext]; rfl) rounds]
      exact hone
    | none =>
      rcases round_going hs (ht.count ▸ hw.repeats) hnext with
        ⟨ha, heq⟩ | ⟨p, hp, hrounds, hfits, hmoved⟩
      · rw [ha, heq]
        exact ih hs ht hw
      · obtain ⟨a, ha, -⟩ := Option.map_eq_some_iff.mp hp
        have hrest := ih hnext (ht.moved hmoved) ((ht.within_iff hrounds).mpr hfits)
        rw [ha]
        rwa [List.length_append] at hrest

/-- The notes of the next request are those that the rounds behind it call for. -/
theorem Tallied.composed_eq {t : List (Passage Value)} {s : TurnState Value} (h : Tallied e t s)
    (input : RoundInput Value) :
    composed printer e s input =
      ((e.context.prepare printer s.history e.specs input.environment input.summary).1,
        (e.context.prepare printer s.history e.specs input.environment input.summary).2.map
          (· ++ notesFor e t)) := by
  unfold composed notesFor atCheckpoint
  rw [h.transientMessages, h.reminder, h.round]
  simp only [Nat.add_sub_cancel, gt_iff_lt, Nat.lt_add_left_iff_pos, List.append_assoc]

variable (json printer e)

end Turns

end AgentDaemon.Engine
