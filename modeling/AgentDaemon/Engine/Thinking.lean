import AgentDaemon.Engine.Request
import AgentDaemon.Lib.Runs

/-!
What the client is sent of the thinking of a model. A flag says that thinking is open; the client is
sent one marker behind each run of thinking deltas, however the attempt ends (`thinking_bracketed`),
and an attempt is bracketed apart from the others of its request (`request_bracketed`).
-/

namespace AgentDaemon.Engine

open Provider Transition Runs

def AgentEvent.isThinking : AgentEvent → Bool
  | .thinkingDelta _ => true
  | _ => false

/-- The delta that the client is sent of an event. -/
def deltaSent : ProviderEvent → Option AgentEvent
  | .thinkingDelta delta => if delta.isEmpty then none else some (.thinkingDelta delta)
  | .textDelta delta => some (.textDelta delta)
  | _ => none

/-- The deltas of the events, with one marker behind each maximal run of thinking. -/
def bracketed (events : List ProviderEvent) : List AgentEvent :=
  marked AgentEvent.isThinking .thinkingFinished (events.filterMap deltaSent)

/-! ## One attempt -/

theorem emitted_finishThinking (s : StreamState) :
    s.finishThinking.emitted = s.emitted ++ missing .thinkingFinished s.thinkingActive := by
  unfold StreamState.finishThinking
  cases s.thinkingActive with
  | true => rfl
  | false => exact (List.append_nil s.emitted).symm

theorem thinkingActive_finishThinking (s : StreamState) :
    s.finishThinking.thinkingActive = false := by
  unfold StreamState.finishThinking
  cases h : s.thinkingActive with
  | true => rfl
  | false => exact h

/-- Neither the updates nor the flag change where no delta is sent. -/
theorem receive_silent (s : StreamState) {e : Int × ProviderEvent} (he : deltaSent e.2 = none) :
    (s.receive e).emitted = s.emitted ∧ (s.receive e).thinkingActive = s.thinkingActive := by
  obtain ⟨now, e⟩ := e
  unfold StreamState.receive StreamState.consume
  cases e with
  | thinkingDelta delta =>
    by_cases hempty : delta.isEmpty = true
    · simp [hempty]
    · simp [deltaSent, hempty] at he
  | textDelta delta => cases he
  | _ => simp [accept_fst]

theorem receive_thinking (s : StreamState) (now : Int) {delta : String} (h : delta.isEmpty = false) :
    (s.receive (now, .thinkingDelta delta)).emitted = s.emitted ++ [.thinkingDelta delta] ∧
      (s.receive (now, .thinkingDelta delta)).thinkingActive = true := by
  unfold StreamState.receive StreamState.consume
  simp [h, StreamState.emit]

theorem receive_text (s : StreamState) (now : Int) (delta : String) :
    (s.receive (now, .textDelta delta)).emitted =
        s.emitted ++ (missing .thinkingFinished s.thinkingActive ++ [.textDelta delta]) ∧
      (s.receive (now, .textDelta delta)).thinkingActive = false := by
  unfold StreamState.receive StreamState.consume
  simp only [accept_fst]
  refine ⟨?_, thinkingActive_finishThinking _⟩
  rw [StreamState.emit, emitted_finishThinking, List.append_assoc]

/-- From any point of the stream on, the updates are as the flag says. -/
theorem emitted_received (s : StreamState) (l : List (Int × ProviderEvent)) :
    (l.foldl StreamState.receive s).finishThinking.emitted =
      s.emitted ++ brackets AgentEvent.isThinking .thinkingFinished s.thinkingActive
        ((l.map Prod.snd).filterMap deltaSent) := by
  induction l generalizing s with
  | nil => exact emitted_finishThinking s
  | cons e l ih =>
    rw [List.foldl_cons, ih, List.map_cons]
    cases he : deltaSent e.2 with
    | none =>
      obtain ⟨hemitted, hactive⟩ := receive_silent s he
      rw [List.filterMap_cons_none he, hemitted, hactive]
    | some delta =>
      rw [List.filterMap_cons_some he]
      obtain ⟨now, e⟩ := e
      cases e with
      | thinkingDelta text =>
        simp only [deltaSent] at he
        split at he
        · cases he
        · rename_i hempty
          cases he
          obtain ⟨hemitted, hactive⟩ := receive_thinking s now (Bool.not_eq_true _ ▸ hempty)
          rw [hemitted, hactive, brackets_cons rfl, List.append_assoc]
          rfl
      | textDelta text =>
        cases he
        obtain ⟨hemitted, hactive⟩ := receive_text s now text
        rw [hemitted, hactive, brackets_cons_other rfl]
        simp only [List.append_assoc, List.singleton_append]
      | _ => cases he

/-- **Thinking is bracketed.** Whatever a provider streams and however the attempt ends, the client is
sent the deltas with one marker behind each maximal run of thinking. -/
theorem thinking_bracketed {Value : Type} (json : Serde Value) (script : StreamScript) :
    (requestModelOnce json script).2.emitted = bracketed script.all := by
  have h : ((script.drained.foldl StreamState.receive
      (script.events.foldl StreamState.receive {})).finishThinking).emitted =
        bracketed script.all := by
    rw [← List.foldl_append, emitted_received, bracketed, ← brackets_eq_marked]
    rfl
  unfold requestModelOnce
  dsimp only
  split
  · exact h
  · split <;> exact h

/-! ## A request -/

section Loop

variable {Value : Type} {json : Serde Value} {route : FrozenRoute} {audit : Option Audit}
  {s s' : RequestState Value} {input : RequestInput}

/-- The attempts are bracketed one by one. -/
def Bracketed (s : RequestState Value) : Prop :=
  s.emitted = s.attempts.flatMap fun a => bracketed a.events

theorem Bracketed.goesOn {safe : Bool} (h : Bracketed s) (hg : GoesOn safe s s') : Bracketed s' := by
  unfold Bracketed
  rw [hg.emitted, hg.attempts]
  exact h

theorem Bracketed.next (h : Bracketed s) (input : RequestInput) :
    Bracketed (requestNext json route audit s input) := by
  unfold requestNext
  split
  · exact h
  · split
    · split
      · exact h
      · rename_i candidate _
        obtain hg | ⟨s₁, hattempts, hemitted, hg⟩ :=
          @attempt_cases _ json route audit s input candidate
        · exact h.goesOn hg
        · refine Bracketed.goesOn ?_ hg
          have h' : s.emitted = s.attempts.flatMap fun a => bracketed a.events := h
          unfold Bracketed
          rw [hemitted, hattempts, List.flatMap_append, List.flatMap_singleton, thinking_bracketed, h']
    · exact h.goesOn goesOn_enter

end Loop

/-- However often the request is made, the client is sent the attempts one after the other, each of
them bracketed. -/
theorem request_bracketed {Value : Type} (json : Serde Value) (audit : Option Audit)
    (route : Option FrozenRoute) (cancelled : Bool) (inputs : List RequestInput) :
    Bracketed (requestModel json audit route cancelled inputs) := by
  unfold requestModel
  split
  · unfold requestPlain
    split
    · rfl
    · exact (thinking_bracketed json _).trans (List.append_nil _).symm
  · split
    · rfl
    · have hstart : Bracketed ({} : RequestState Value) := rfl
      exact after_induct (G := fun _ _ => True) (fun s a h _ => h.next a) hstart (along_true _ inputs)

end AgentDaemon.Engine
