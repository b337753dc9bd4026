import AgentDaemon.Engine.Turn
import AgentDaemon.Engine.Compression
import Mathlib.Logic.Relation

/-!
What a turn does to the history and to the session file, one edit after another. A message is
recorded in both, or its line stays in the file alone when the append fails after it, or a
compression puts a summary in the place of the oldest messages of the history (`runTurn_edited`).
-/

namespace AgentDaemon.Engine

open Provider Transition

inductive Edit (μ : Type) where
  | record (message : μ)
  | strand (message : μ)
  | compress (summary : μ) (split : Nat)

/-- The history and the messages of the file after the edit. -/
def Edit.apply {μ : Type} : Edit μ → List μ × List μ → List μ × List μ
  | .record message, (history, file) => (history ++ [message], file ++ [message])
  | .strand message, (history, file) => (history, file ++ [message])
  | .compress summary split, (history, file) => (summary :: history.drop split, file)

/-- A compression replaces one message at least, and not more than there are. -/
def Edit.Fits {μ : Type} (history : List μ) : Edit μ → Prop
  | .compress _ split => 0 < split ∧ split ≤ history.length
  | _ => True

instance {μ : Type} (history : List μ) : (e : Edit μ) → Decidable (e.Fits history)
  | .record _ | .strand _ => inferInstanceAs (Decidable True)
  | .compress _ split => inferInstanceAs (Decidable (0 < split ∧ split ≤ history.length))

/-- From one pair of a history and a file to another by edits that fit. -/
abbrev Edited {μ : Type} : List μ × List μ → List μ × List μ → Prop :=
  Relation.ReflTransGen fun p q => ∃ e : Edit μ, e.Fits p.1 ∧ e.apply p = q

variable {Value : Type}

namespace TurnState

/-- The history and the file. -/
def logs (s : TurnState Value) : List (Message Value) × List (Message Value) :=
  (s.history, s.session)

theorem edited_record {p : List (Message Value) × List (Message Value)} {s : TurnState Value}
    (h : Edited p s.logs) (message : Message Value) (appended : Appending)
    {k : TurnState Value → TurnState Value}
    (hk : ∀ history session, Edited p (history, session) →
      Edited p (k { s with history, session }).logs) :
    Edited p (s.record true message appended k).logs := by
  unfold TurnState.record
  rw [if_pos rfl]
  split
  · exact hk _ _ (h.tail ⟨.record message, trivial, rfl⟩)
  · rename_i kept
    cases kept with
    | true => exact h.tail ⟨.strand message, trivial, rfl⟩
    | false => exact h

end TurnState

theorem cut_le (c : ContextManager) (history : List (Message Value)) (mode : CompressionMode) :
    c.cut history mode ≤ history.length := by
  unfold ContextManager.cut
  split
  · exact Nat.zero_le _
  · refine (ContextManager.cutBefore_le history _).trans ?_
    cases mode with
    | mild =>
      unfold divCeil
      dsimp only
      omega
    | strong => exact Nat.sub_le _ _

theorem edited_compressHistory (c : ContextManager) {history history' : List (Message Value)}
    (file : List (Message Value)) {mode : CompressionMode} {summary : Except EngineError String}
    (h : c.compressHistory history mode summary = .ok history') :
    Edited (history, file) (history', file) := by
  have hle := cut_le c history mode
  unfold ContextManager.compressHistory at h
  generalize c.cut history mode = split at h hle
  cases split with
  | zero => rw [Except.ok.inj h]
  | succ split =>
    cases summary with
    | error error => cases h
    | ok summary =>
      rw [← Except.ok.inj h]
      exact .single ⟨.compress _ _, ⟨Nat.succ_pos split, hle⟩, rfl⟩

theorem edited_prepare (c : ContextManager) (printer : Printer Value)
    (history file : List (Message Value)) (tools : List (ToolSpec Value))
    (environment : String × String) (summary : Except EngineError String) :
    Edited (history, file) ((c.prepare printer history tools environment summary).1, file) := by
  unfold ContextManager.prepare
  dsimp only
  split
  · exact .refl
  · rename_i history' h
    split at h
    · exact edited_compressHistory c file h
    · split at h
      · exact edited_compressHistory c file h
      · rw [Except.ok.inj h]

section Turn

variable {json : Serde Value} {printer : Printer Value} {e : LoopEngine Value}
  {p : List (Message Value) × List (Message Value)} {s : TurnState Value} {input : RoundInput Value}

theorem edited_reject (he : e.session = true) (h : Edited p s.logs) (note : String)
    (stop : Nat → String) : Edited p (reject e input note stop s).logs := by
  unfold reject
  rw [he]
  refine TurnState.edited_record (by exact h) _ _ fun history session hp => ?_
  dsimp only
  split <;> exact hp

/-- The logs of a round up to its batch. -/
def Head.logs : Head Value → List (Message Value) × List (Message Value)
  | .over s => s.logs
  | .batch s _ _ => s.logs

theorem edited_answer (he : e.session = true) (h : Edited p s.logs) (output : ModelOutput Value) :
    Edited p (answer e input output s).logs := by
  unfold answer
  split
  · rw [he]
    exact TurnState.edited_record h _ _ fun _ _ hp => hp
  · split
    · exact edited_reject he h _ _
    · split
      · exact edited_reject he h _ _
      · split <;> exact h
  · exact edited_reject he h _ _

theorem edited_spend (h : Edited p s.logs) (messages : List (Message Value))
    (response : Response Value) {k : TurnState Value → Head Value}
    (hk : ∀ s, Edited p s.logs → Edited p (k s).logs) :
    Edited p (spend printer e input messages response s k).logs := by
  unfold spend
  split
  · exact hk s h
  · dsimp only
    split
    · exact h
    · split
      · exact h
      · exact hk _ h

theorem edited_head (json : Serde Value) (printer : Printer Value) (he : e.session = true)
    (h : Edited p s.logs) (input : RoundInput Value) :
    Edited p (head json printer e s input).logs := by
  have hprep := edited_prepare e.context printer s.history s.session e.specs input.environment
    input.summary
  unfold head
  generalize e.context.prepare printer s.history e.specs input.environment input.summary = q
    at hprep
  obtain ⟨history, prepared⟩ := q
  have hp : Edited p (history, s.session) := h.trans hprep
  dsimp only
  split
  · exact h
  · split
    · exact hp
    · split
      · exact h
      · exact hp
      · exact edited_spend (by exact hp) _ _ fun s hs => edited_answer he hs _

theorem edited_recordResults (he : e.session = true) {k : TurnState Value → TurnState Value}
    (hk : ∀ s, Edited p s.logs → Edited p (k s).logs) (results : List (ToolExecution Value))
    (i : Nat) (h : Edited p s.logs) : Edited p (recordResults e input k i results s).logs := by
  induction results generalizing i s with
  | nil => exact hk s h
  | cons result results ih =>
    unfold recordResults
    rw [he]
    exact TurnState.edited_record h _ _ fun history session hp => ih (i + 1) (by exact hp)

theorem edited_runBatch (he : e.session = true) (h : Edited p s.logs)
    (calls : List (ToolCall Value)) (thinking : Option String) :
    Edited p (runBatch printer e input calls thinking s).logs := by
  unfold runBatch
  rw [he]
  refine TurnState.edited_record h _ _ fun history session hp => ?_
  unfold finishBatch
  split
  · exact hp
  · split
    · exact hp
    · refine edited_recordResults he (fun s hs => ?_) _ _ (by exact hp)
      have hframe := closeBatch_frame e input ‹_› s
      unfold TurnState.logs at hs ⊢
      rwa [hframe.1, hframe.2]

theorem edited_turnRound (he : e.session = true) (h : Edited p s.logs) :
    Edited p (turnRound json printer e s input).logs := by
  have hhead := edited_head json printer he h input
  unfold turnRound
  split
  · exact h
  · split
    · rename_i heq
      rwa [heq] at hhead
    · rename_i heq
      rw [heq] at hhead
      exact edited_runBatch he hhead _ _

/-- A turn makes nothing but edits, whatever its rounds meet. -/
theorem runTurn_edited (json : Serde Value) (printer : Printer Value) {e : LoopEngine Value}
    (he : e.session = true) (input : TurnInput) (history session : List (Message Value))
    (rounds : List (RoundInput Value)) :
    Edited (history, session) (runTurn json printer e input history session rounds).logs := by
  have hbegin : Edited (history, session) (beginTurn e input history session).logs := by
    unfold beginTurn
    dsimp only
    split
    · exact .refl
    · split
      · exact .refl
      · rw [he]
        exact TurnState.edited_record (s := { history, session }) .refl _ _ fun _ _ hp => hp
  exact after_induct (G := fun _ _ => True)
    (I := fun s : TurnState Value => Edited (history, session) s.logs)
    (fun s input h _ => edited_turnRound he h) hbegin (along_true _ _)

end Turn

end AgentDaemon.Engine
