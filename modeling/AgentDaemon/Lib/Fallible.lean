import Mathlib.Data.List.Forall2

/-!
Inversion rules for computations in `Except ε`: what a successful bind, map or fold must
have computed, so that a proof peels a program apart without unfolding the monad.
-/

namespace AgentDaemon.Fallible

variable {ε α β : Type}

theorem bind_eq_ok {x : Except ε α} {f : α → Except ε β} {b : β} :
    x >>= f = .ok b ↔ ∃ a, x = .ok a ∧ f a = .ok b := by
  cases x with
  | error e => simp [bind, Except.bind]
  | ok a => simp [bind, Except.bind]

/-- A check and what follows it. -/
theorem check_eq_ok {x : Except ε Unit} {f : Unit → Except ε β} {b : β} :
    x >>= f = .ok b ↔ x = .ok () ∧ f () = .ok b :=
  bind_eq_ok.trans ⟨fun ⟨_, hx, hf⟩ => ⟨hx, hf⟩, fun ⟨hx, hf⟩ => ⟨(), hx, hf⟩⟩

theorem bind_eq_error {x : Except ε α} {f : α → Except ε β} {e : ε} :
    x >>= f = .error e ↔ x = .error e ∨ ∃ a, x = .ok a ∧ f a = .error e := by
  cases x with
  | error e' => simp [bind, Except.bind]
  | ok a => simp [bind, Except.bind]

theorem map_eq_ok {x : Except ε α} {f : α → β} {b : β} :
    f <$> x = .ok b ↔ ∃ a, x = .ok a ∧ f a = b := by
  cases x with
  | error e => simp [Functor.map, Except.map]
  | ok a => simp [Functor.map, Except.map]

theorem pure_eq_ok {a b : α} : (pure a : Except ε α) = .ok b ↔ a = b := by
  simp [pure, Except.pure]

/-- What holds of the start and is kept by every step holds of the result of a fold. -/
theorem foldlM_induct {f : β → α → Except ε β} {P : β → Prop} (l : List α) {b b' : β}
    (hb : P b) (hstep : ∀ b a b', P b → a ∈ l → f b a = .ok b' → P b')
    (h : l.foldlM f b = .ok b') : P b' := by
  induction l generalizing b with
  | nil =>
    rw [List.foldlM_nil, pure_eq_ok] at h
    exact h ▸ hb
  | cons a l ih =>
    rw [List.foldlM_cons, bind_eq_ok] at h
    obtain ⟨c, hc, h⟩ := h
    exact ih (hstep b a c hb List.mem_cons_self hc)
      (fun b a b' hP ha => hstep b a b' hP (List.mem_cons_of_mem _ ha)) h

/-- A fold succeeds if no step fails in the states that it comes through. -/
theorem foldlM_total {f : β → α → Except ε β} {P : β → Prop} (l : List α) {b : β} (hb : P b)
    (hstep : ∀ b a b', P b → a ∈ l → f b a = .ok b' → P b')
    (htotal : ∀ b a e, P b → a ∈ l → f b a ≠ .error e) : ∃ b', l.foldlM f b = .ok b' := by
  induction l generalizing b with
  | nil => exact ⟨b, rfl⟩
  | cons a l ih =>
    cases hc : f b a with
    | error e => exact absurd hc (htotal b a e hb List.mem_cons_self)
    | ok c =>
      obtain ⟨b', hb'⟩ := ih (hstep b a c hb List.mem_cons_self hc)
        (fun b a b' hP ha => hstep b a b' hP (List.mem_cons_of_mem _ ha))
        (fun b a e hP ha => htotal b a e hP (List.mem_cons_of_mem _ ha))
      refine ⟨b', ?_⟩
      rw [List.foldlM_cons, bind_eq_ok]
      exact ⟨c, hc, hb'⟩

theorem mapM_eq_ok {f : α → Except ε β} {l : List α} {ys : List β}
    (h : l.mapM f = .ok ys) : List.Forall₂ (fun x y => f x = .ok y) l ys := by
  induction l generalizing ys with
  | nil =>
    cases h
    exact .nil
  | cons x l ih =>
    rw [List.mapM_cons] at h
    obtain ⟨y, hy, h⟩ := bind_eq_ok.mp h
    obtain ⟨ys', hys, h⟩ := bind_eq_ok.mp h
    cases h
    exact .cons hy (ih hys)

/-- Each element has its result, and each result its element. -/
theorem mem_of_mapM {f : α → Except ε β} {l : List α} {ys : List β} (h : l.mapM f = .ok ys) :
    (∀ x ∈ l, ∃ y ∈ ys, f x = .ok y) ∧ ∀ y ∈ ys, ∃ x ∈ l, f x = .ok y := by
  have hall := mapM_eq_ok h
  clear h
  induction hall with
  | nil => exact ⟨nofun, nofun⟩
  | cons hxy _ ih =>
    obtain ⟨hleft, hright⟩ := ih
    constructor
    · intro x hx
      rcases List.mem_cons.mp hx with rfl | hx
      · exact ⟨_, List.mem_cons_self, hxy⟩
      · obtain ⟨y, hy, hfy⟩ := hleft x hx
        exact ⟨y, List.mem_cons_of_mem _ hy, hfy⟩
    · intro y hy
      rcases List.mem_cons.mp hy with rfl | hy
      · exact ⟨_, List.mem_cons_self, hxy⟩
      · obtain ⟨x, hx, hfx⟩ := hright y hy
        exact ⟨x, List.mem_cons_of_mem _ hx, hfx⟩

theorem exists_ok_of_mapM {f : α → Except ε β} {l : List α} {ys : List β}
    (h : l.mapM f = .ok ys) {x : α} (hx : x ∈ l) : ∃ y, f x = .ok y := by
  obtain ⟨y, -, hy⟩ := (mem_of_mapM h).1 x hx
  exact ⟨y, hy⟩

theorem mapM_eq_error {f : α → Except ε β} {l : List α} {e : ε}
    (h : l.mapM f = .error e) : ∃ x ∈ l, f x = .error e := by
  induction l with
  | nil => cases h
  | cons x l ih =>
    rw [List.mapM_cons] at h
    cases hx : f x with
    | error e' =>
      rw [hx] at h
      cases h
      exact ⟨x, List.mem_cons_self, hx⟩
    | ok y =>
      cases hl : l.mapM f with
      | error e' =>
        rw [hx, hl] at h
        cases h
        obtain ⟨x', hm, hx'⟩ := ih hl
        exact ⟨x', List.mem_cons_of_mem _ hm, hx'⟩
      | ok ys =>
        rw [hx, hl] at h
        cases h

end AgentDaemon.Fallible
