import Mathlib.Data.List.Induction

/-!
Partial deterministic automata, `step : σ → α → Option σ` with `none` for a refusal, and many of
them run side by side over one interleaved list of events: `own` is what one of them sees of it.
-/

namespace AgentDaemon.Automaton

variable {σ α : Type} {step : σ → α → Option σ}

/-- The state after a word, if no letter of it is refused. -/
def run (step : σ → α → Option σ) (s : σ) (word : List α) : Option σ := word.foldlM step s

@[simp] theorem run_nil (s : σ) : run step s [] = some s := rfl

@[simp] theorem run_cons (s : σ) (a : α) (word : List α) :
    run step s (a :: word) = (step s a).bind fun s' => run step s' word := rfl

@[simp] theorem run_append (s : σ) (u v : List α) :
    run step s (u ++ v) = (run step s u).bind fun s' => run step s' v := by
  simp only [run, List.foldlM_append]
  rfl

/-- A word is refused with every prefix that is. -/
theorem run_prefix {s : σ} {u v : List α} (h : run step s u = none) : run step s (u ++ v) = none := by
  rw [run_append, h]
  rfl

/-- **Reading rule.** What holds of the empty word and is kept by every letter read, holds of the
word and the state it is read to. -/
theorem run_induct {s₀ : σ} {Reads : List α → σ → Prop} (hnil : Reads [] s₀)
    (hstep : ∀ u s a s', Reads u s → step s a = some s' → Reads (u ++ [a]) s') {word : List α}
    {s : σ} (h : run step s₀ word = some s) : Reads word s := by
  induction word using List.reverseRecOn generalizing s with
  | nil =>
    cases h
    exact hnil
  | append_singleton u a ih =>
    rw [run_append, Option.bind_eq_some_iff] at h
    obtain ⟨s', hu, ha⟩ := h
    rw [run_cons, Option.bind_eq_some_iff] at ha
    obtain ⟨s'', ha, e⟩ := ha
    cases e
    exact hstep u s' a _ (ih hu) ha

/-! ## Side by side -/

variable {κ ε : Type} [DecidableEq κ] {view : ε → Option (κ × α)}

/-- The letters of `k` in an interleaving. -/
def own (view : ε → Option (κ × α)) (k : κ) (events : List ε) : List α :=
  events.filterMap fun e => (view e).bind fun p => if p.1 = k then some p.2 else none

@[simp] theorem own_nil (k : κ) : own view k [] = [] := rfl

theorem own_append (k : κ) (l m : List ε) : own view k (l ++ m) = own view k l ++ own view k m :=
  List.filterMap_append

theorem own_concat_none {e : ε} (h : view e = none) (k : κ) (l : List ε) :
    own view k (l ++ [e]) = own view k l := by
  simp [own, h]

theorem own_concat_self {e : ε} {k : κ} {a : α} (h : view e = some (k, a)) (l : List ε) :
    own view k (l ++ [e]) = own view k l ++ [a] := by
  simp [own, h]

theorem own_concat_ne {e : ε} {k k' : κ} {a : α} (h : view e = some (k', a)) (hne : k' ≠ k)
    (l : List ε) : own view k (l ++ [e]) = own view k l := by
  simp [own, h, hne]

theorem own_ne_nil {k : κ} {l : List ε} :
    own view k l ≠ [] ↔ ∃ e ∈ l, ∃ a, view e = some (k, a) := by
  simp only [ne_eq, own, List.filterMap_eq_nil_iff, not_forall, Option.bind_eq_none_iff]
  constructor
  · rintro ⟨e, he, ⟨k', a⟩, hv, hne⟩
    split at hne
    · rename_i h
      exact ⟨e, he, a, h ▸ hv⟩
    · exact absurd rfl hne
  · rintro ⟨e, he, a, hv⟩
    exact ⟨e, he, (k, a), hv, by simp⟩

/-- Each automaton has read its own letters, and `state` tells where it stands. -/
def Follows (step : σ → α → Option σ) (s₀ : σ) (view : ε → Option (κ × α)) (state : κ → σ)
    (events : List ε) : Prop := ∀ k, run step s₀ (own view k events) = some (state k)

variable {s₀ : σ} {state state' : κ → σ} {events : List ε} {e : ε}

theorem follows_nil : Follows step s₀ view (fun _ => s₀) [] := fun _ => rfl

theorem Follows.skip (h : Follows step s₀ view state events) (he : view e = none) :
    Follows step s₀ view state (events ++ [e]) := fun k => by
  rw [own_concat_none he]
  exact h k

/-- One automaton reads a letter, the others stay where they are. -/
theorem Follows.read {k : κ} {a : α} (h : Follows step s₀ view state events)
    (he : view e = some (k, a)) (hk : step (state k) a = some (state' k))
    (hother : ∀ k', k' ≠ k → state' k' = state k') :
    Follows step s₀ view state' (events ++ [e]) := fun k' => by
  by_cases hne : k = k'
  · subst hne
    rw [own_concat_self he, run_append, h k]
    simp [hk]
  · rw [own_concat_ne he hne, hother k' (fun e => hne e.symm)]
    exact h k'

/-- A letter that its automaton refuses. -/
theorem Follows.refuse {k : κ} {a : α} (h : Follows step s₀ view state events)
    (he : view e = some (k, a)) (hk : step (state k) a = none) :
    run step s₀ (own view k (events ++ [e])) = none := by
  rw [own_concat_self he, run_append, h k]
  simp [hk]

end AgentDaemon.Automaton
