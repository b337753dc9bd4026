import Mathlib.Data.List.Basic

/-!
Streams that are made by a step on a state, as `stream::unfold` makes them: each poll takes one
step, and the stream is over when a step gives nothing.
-/

namespace AgentDaemon.Unfold

variable {σ ε : Type} (step : σ → Option (ε × σ))

/-- The items of the first polls, and the state behind them. -/
def polls : Nat → σ → List ε × σ
  | 0, s => ([], s)
  | n + 1, s =>
    match step s with
    | none => ([], s)
    | some (e, s') => (e :: (polls n s').1, (polls n s').2)

/-- The stream from `s` gives the items `l`, and is over in the state `t`. -/
inductive Yields : σ → List ε → σ → Prop
  | ended {s : σ} : step s = none → Yields s [] s
  | item {s s' t : σ} {e : ε} {l : List ε} : step s = some (e, s') → Yields s' l t →
      Yields s (e :: l) t

variable {step}

/-- A state that steps like another one gives what that one gives. -/
theorem Yields.of_step_eq {s s' t : σ} {l : List ε} (h : Yields step s' l t) (hl : l ≠ [])
    (hs : step s = step s') : Yields step s l t := by
  cases h with
  | ended _ => exact absurd rfl hl
  | item hstep hrest => exact .item (hs.trans hstep) hrest

/-- A consumer that polls often enough has all items, and gets nothing more. -/
theorem Yields.polls {s t : σ} {l : List ε} (h : Yields step s l t) {n : Nat} (hn : l.length < n) :
    polls step n s = (l, t) := by
  induction h generalizing n with
  | ended hnone =>
    cases n with
    | zero => exact absurd hn (Nat.not_lt_zero _)
    | succ n => rw [Unfold.polls, hnone]
  | item hstep _ ih =>
    cases n with
    | zero => exact absurd hn (Nat.not_lt_zero _)
    | succ n =>
      rw [Unfold.polls, hstep]
      dsimp only
      rw [ih (Nat.lt_of_succ_lt_succ hn)]

/-- A consumer that stops earlier has the first items. -/
theorem Yields.polls_take {s t : σ} {l : List ε} (h : Yields step s l t) (n : Nat) :
    (Unfold.polls step n s).1 = l.take n := by
  induction h generalizing n with
  | ended hnone =>
    cases n with
    | zero => rfl
    | succ n => rw [Unfold.polls, hnone, List.take_nil]
  | item hstep _ ih =>
    cases n with
    | zero => rfl
    | succ n =>
      rw [Unfold.polls, hstep]
      dsimp only
      rw [ih n, List.take_succ_cons]

end AgentDaemon.Unfold
