import AgentDaemon.Lib.Transition

/-!
States that keep a log. Each event is about one subject, and `told` is what the events about a
subject make of what was known of it. A step that `Tells` writes an event for everything it does,
so after a run of such steps what the state shows of a subject is what its log tells
(`sourced_after`), and a reader that stopped anywhere goes on from there (`Tells.resume`).
-/

namespace AgentDaemon.Sourcing

open Transition

variable {σ α ε κ ν : Type} [DecidableEq κ]

/-- What the events about `k` make of `v`. -/
def told (key : ε → κ) (read : ν → ε → ν) (k : κ) (v : ν) (events : List ε) : ν :=
  (events.filter fun e => key e = k).foldl read v

section Told

variable {key : ε → κ} {read : ν → ε → ν} {k : κ} {v : ν}

@[simp] theorem told_nil : told key read k v [] = v := rfl

theorem told_append (l m : List ε) :
    told key read k v (l ++ m) = told key read k (told key read k v l) m := by
  simp only [told, List.filter_append, List.foldl_append]

theorem told_cons_self {e : ε} (he : key e = k) (l : List ε) :
    told key read k v (e :: l) = told key read k (read v e) l := by
  simp [told, he]

theorem told_cons_ne {e : ε} (he : key e ≠ k) (l : List ε) :
    told key read k v (e :: l) = told key read k v l := by
  simp [told, he]

/-- An event that changes nothing may be left out. -/
theorem told_cons_idle {e : ε} (he : ∀ v, read v e = v) (l : List ε) :
    told key read k v (e :: l) = told key read k v l := by
  by_cases h : key e = k
  · rw [told_cons_self h, he]
  · rw [told_cons_ne h]

end Told

variable (key : ε → κ) (read : ν → ε → ν) (log : σ → List ε) (view : σ → κ → ν)

/-- The step from `s` to `s'` logs all that it changes. -/
def Tells (s s' : σ) : Prop :=
  ∃ events, log s' = log s ++ events ∧ ∀ k, view s' k = told key read k (view s k) events

/-- What the state shows of a subject is what its log tells. -/
def Sourced (init : ν) (s : σ) : Prop := ∀ k, view s k = told key read k init (log s)

variable {key read log view}

theorem Tells.refl (s : σ) : Tells key read log view s s := ⟨[], by simp, fun _ => rfl⟩

theorem Tells.trans {s t u : σ} (h : Tells key read log view s t)
    (h' : Tells key read log view t u) : Tells key read log view s u := by
  obtain ⟨l, hl, hv⟩ := h
  obtain ⟨m, hm, hw⟩ := h'
  refine ⟨l ++ m, by rw [hm, hl, List.append_assoc], ?_⟩
  intro k
  rw [hw, hv, told_append]

/-- All events of the step are about one subject, and no other changes. -/
theorem Tells.own {s t : σ} {k : κ} {events : List ε} (hlog : log t = log s ++ events)
    (hall : ∀ e ∈ events, key e = k) (hother : ∀ j ≠ k, view t j = view s j)
    (hown : view t k = events.foldl read (view s k)) : Tells key read log view s t := by
  refine ⟨events, hlog, ?_⟩
  intro j
  by_cases hj : j = k
  · subst hj
    rw [told, List.filter_eq_self.mpr fun e he => decide_eq_true (hall e he), hown]
  · rw [told, List.filter_eq_nil_iff.mpr, hother j hj]
    · rfl
    · intro e he
      rw [hall e he, decide_eq_true_eq]
      exact fun h => hj h.symm

/-- A step that changes nothing and logs events that change nothing. -/
theorem Tells.idle {s t : σ} {events : List ε} (hlog : log t = log s ++ events)
    (hidle : ∀ e ∈ events, ∀ v, read v e = v) (hview : ∀ k, view t k = view s k) :
    Tells key read log view s t := by
  refine ⟨events, hlog, ?_⟩
  intro k
  rw [hview k]
  clear hlog
  induction events with
  | nil => rfl
  | cons e events ih =>
    rw [told_cons_idle (hidle e List.mem_cons_self)]
    exact ih fun e he => hidle e (List.mem_cons_of_mem _ he)

theorem Tells.silent {s t : σ} (hlog : log t = log s) (hview : ∀ k, view t k = view s k) :
    Tells key read log view s t :=
  .idle (by rw [hlog, List.append_nil]) (fun _ he => absurd he List.not_mem_nil) hview

theorem Tells.sourced {init : ν} {s s' : σ} (h : Tells key read log view s s')
    (hs : Sourced key read log view init s) : Sourced key read log view init s' := by
  obtain ⟨l, hl, hv⟩ := h
  intro k
  rw [hv, hl, told_append, hs k]

/-- A reader that knew all of `s` needs only the events logged since. -/
theorem Tells.resume {s s' : σ} (h : Tells key read log view s s') (k : κ) :
    view s' k = told key read k (view s k) ((log s').drop (log s).length) := by
  obtain ⟨l, hl, hv⟩ := h
  rw [hv, hl, List.drop_left]

variable {next : σ → α → σ}

/-- **Run rule.** A run of steps that tell, tells. `I` is what the steps need and keep. -/
theorem tells_after {G : σ → α → Prop} {I : σ → Prop}
    (hkeep : ∀ s a, I s → G s a → I (next s a))
    (hstep : ∀ s a, I s → G s a → Tells key read log view s (next s a)) {s : σ} {l : List α}
    (hs : I s) (hl : Along next G s l) : Tells key read log view s (after next s l) := by
  induction l generalizing s with
  | nil => exact .refl s
  | cons a l ih => exact (hstep s a hs hl.1).trans (ih (hkeep s a hs hl.1) hl.2)

end AgentDaemon.Sourcing
