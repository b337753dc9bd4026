import AgentDaemon.Engine.Turn

/-!
What a turn has recorded when it returns. A round adds messages to the session file, and where it
ends the turn with a text, that text is the one message it has added (`turnRound_tells`): a reply
is in the file before anyone learns of it.
-/

namespace AgentDaemon.Engine

open Provider

variable {Value : Type}

namespace TurnState

/-- The file has grown from `lines` on, and the turn has no reply. -/
def Silent (lines : List (Message Value)) (s : TurnState Value) : Prop :=
  lines <+: s.session ∧ ∀ text, s.result ≠ some (.ok text)

/-- The turn has a reply, which is what the file has grown by. -/
def Replies (lines : List (Message Value)) (s : TurnState Value) : Prop :=
  ∃ text thinking, s.session = lines ++ [.assistantWithThinking text thinking] ∧
    s.result = some (.ok text)

/-- A turn that comes to `s` from a file of `lines` has not returned a text, or recorded it. -/
def Tells (lines : List (Message Value)) (s : TurnState Value) : Prop :=
  s.Silent lines ∨ s.Replies lines

variable {lines : List (Message Value)} {s : TurnState Value}

theorem silent_of_none (h : s.result = none) : s.Silent s.session := by
  refine ⟨List.prefix_refl _, ?_⟩
  intro text he
  cases h.symm.trans he

theorem Silent.conclude (h : s.Silent lines) (error : EngineError) :
    (s.conclude (.error error)).Silent lines := by
  refine ⟨h.1, ?_⟩
  rintro text ⟨⟩

/-- A message that is recorded is not a reply. -/
theorem Silent.record {session : Bool} {message : Message Value} {appended : Appending}
    {k : TurnState Value → TurnState Value} (h : s.Silent lines)
    (hk : ∀ s : TurnState Value, s.Silent lines → (k s).Silent lines) :
    (s.record session message appended k).Silent lines := by
  have hgrown : lines <+: s.session ++ [message] := h.1.trans (List.prefix_append _ _)
  unfold TurnState.record
  split
  · cases appended with
    | done => exact hk _ ⟨hgrown, h.2⟩
    | failed error kept =>
      refine ⟨?_, by rintro text ⟨⟩⟩
      cases kept with
      | true => exact hgrown
      | false => exact h.1
  · exact hk _ h

end TurnState

open TurnState

section Round

variable {json : Serde Value} {printer : Printer Value} {e : LoopEngine Value}
  {input : RoundInput Value} {lines : List (Message Value)} {s : TurnState Value}

theorem silent_reject (h : s.Silent lines) (note : String) (stop : Nat → String) :
    (reject e input note stop s).Silent lines := by
  have hcounted : Silent lines
      { s with consecutiveToolFailures := s.consecutiveToolFailures + 1 } := h
  refine hcounted.record fun s hs => ?_
  split
  · exact hs.conclude _
  · exact hs

theorem silent_closeBatch (h : s.Silent lines) (results : List (ToolExecution Value)) :
    (closeBatch e input results s).Silent lines := by
  unfold closeBatch
  split
  · exact h.conclude _
  · dsimp only
    split
    · exact Silent.conclude h _
    · split
      · exact h
      · split
        · exact Silent.conclude h _
        · exact h

theorem silent_recordResults {k : TurnState Value → TurnState Value}
    (hk : ∀ s : TurnState Value, s.Silent lines → (k s).Silent lines)
    (results : List (ToolExecution Value)) (i : Nat) (h : s.Silent lines) :
    (recordResults e input k i results s).Silent lines := by
  induction results generalizing i s with
  | nil => exact hk s h
  | cons result results ih =>
    rw [recordResults]
    refine h.record fun s hs => ?_
    exact ih (i + 1) hs

/-- The tools do not end a turn with a reply. -/
theorem silent_runBatch (h : s.Silent lines) (calls : List (ToolCall Value))
    (thinking : Option String) : (runBatch printer e input calls thinking s).Silent lines := by
  refine h.record fun s hs => ?_
  unfold finishBatch
  split
  · exact hs.conclude _
  · split
    · exact hs.conclude _
    · rename_i results _
      exact silent_recordResults (fun s hs => silent_closeBatch hs results) results 0 hs

/-- What a round tells before its tools run. -/
def Head.Tells (lines : List (Message Value)) : Head Value → Prop
  | .over s => s.Tells lines
  | .batch s _ _ => s.Silent lines

theorem tells_answer (he : e.session = true) (hr : s.result = none) (input : RoundInput Value)
    (output : ModelOutput Value) :
    (answer e input output s).Tells s.session := by
  have hs := silent_of_none hr
  unfold answer
  split
  · rename_i text _
    show TurnState.Tells _ _
    unfold TurnState.record
    rw [if_pos he]
    cases input.appended with
    | done => exact .inr ⟨text, output.thinking, rfl, rfl⟩
    | failed error kept =>
      refine .inl ⟨?_, by rintro text ⟨⟩⟩
      cases kept with
      | true => exact List.prefix_append _ _
      | false => exact List.prefix_refl _
  · split
    · exact .inl (silent_reject hs _ _)
    · split
      · exact .inl (silent_reject hs _ _)
      · split
        · exact .inl (hs.conclude _)
        · exact hs
  · exact .inl (silent_reject hs _ _)

theorem tells_spend (printer : Printer Value) (e : LoopEngine Value) (input : RoundInput Value)
    (messages : List (Message Value)) (response : Response Value) (hr : s.result = none)
    {k : TurnState Value → Head Value}
    (hk : ∀ s' : TurnState Value, s'.session = s.session → s'.result = none →
      (k s').Tells s.session) :
    (spend printer e input messages response s k).Tells s.session := by
  have hs := silent_of_none hr
  unfold spend
  split
  · exact hk s rfl hr
  · dsimp only
    split
    · exact .inl (Silent.conclude hs _)
    · split
      · exact .inl (Silent.conclude hs _)
      · exact hk _ rfl hr

theorem tells_head (json : Serde Value) (printer : Printer Value) (he : e.session = true)
    (hr : s.result = none) (input : RoundInput Value) :
    (head json printer e s input).Tells s.session := by
  have hs := silent_of_none hr
  unfold head
  generalize e.context.prepare printer s.history e.specs input.environment input.summary = p
  obtain ⟨history, prepared⟩ := p
  dsimp only
  split
  · exact .inl (Silent.conclude hs _)
  · split
    · exact .inl (Silent.conclude hs _)
    · split
      · exact .inl hs
      · exact .inl (Silent.conclude hs _)
      · rename_i output _
        have hspent := tells_spend printer e input
          (s := { s with round := s.round + 1, history, repetitionReminder := false })
          (k := answer e input output)
        refine hspent _ _ hr fun s' hsession hr' => ?_
        have hanswer := tells_answer he hr' input output
        rwa [hsession] at hanswer

/-- **A reply is recorded.** A round that ends its turn with a text has recorded that text. -/
theorem turnRound_tells (json : Serde Value) (printer : Printer Value) (he : e.session = true)
    (hr : s.result = none) (input : RoundInput Value) :
    (turnRound json printer e s input).Tells s.session := by
  have hhead := tells_head json printer he hr input
  unfold turnRound
  rw [hr, if_neg (by decide)]
  split
  · rename_i hover
    rwa [hover] at hhead
  · rename_i s' calls thinking hbatch
    rw [hbatch] at hhead
    exact .inl (silent_runBatch hhead calls thinking)

/-- A turn begins with the user's message, or ends before it. -/
theorem beginTurn_tells (he : e.session = true) (input : TurnInput)
    (history : List (Message Value)) :
    ((beginTurn e input history []).session = [.text .user input.input] ∧
        (beginTurn e input history []).result = none) ∨
      ∃ error, (beginTurn e input history []).result = some (.error error) := by
  unfold beginTurn
  dsimp only
  split
  · exact .inr ⟨_, rfl⟩
  · split
    · exact .inr ⟨_, rfl⟩
    · unfold TurnState.record
      rw [if_pos he]
      cases input.appended with
      | done => exact .inl ⟨rfl, rfl⟩
      | failed error kept => exact .inr ⟨_, rfl⟩

end Round

end AgentDaemon.Engine
