import AgentDaemon.Lib.Automaton

/-!
The brackets and strings of a JSON text that is an object or an array: what every parser of the
grammar must find of it, whatever it makes of the rest. A text that is cut off is not well formed,
and neither is one with another text behind it (`glued_not_wellFormed`).
-/

namespace AgentDaemon.JsonText

open Automaton

/-- Where a reader stands. A depth of 0 is inside the outermost brackets. -/
inductive Scan where
  | start
  | outside (depth : Nat)
  | inString (depth : Nat)
  | escaped (depth : Nat)
  /-- Behind a string, where a comma, a colon or a bracket must follow. -/
  | afterString (depth : Nat)
  | done
  deriving DecidableEq, Repr

def isSpace (c : Char) : Bool := c = ' ' || c = '\t' || c = '\n' || c = '\r'

def isEscape (c : Char) : Bool :=
  c = '"' || c = '\\' || c = '/' || c = 'b' || c = 'f' || c = 'n' || c = 'r' || c = 't' || c = 'u'

def opens (c : Char) : Bool := c = '\x7b' || c = '['

def closes (c : Char) : Bool := c = '\x7d' || c = ']'

/-- A closing bracket. -/
def close : Nat → Scan
  | 0 => .done
  | depth + 1 => .outside depth

def step : Scan → Char → Option Scan
  | .start, c => if isSpace c then some .start else if opens c then some (.outside 0) else none
  | .outside depth, c =>
    if c = '"' then some (.inString depth)
    else if opens c then some (.outside (depth + 1))
    else if closes c then some (close depth)
    else some (.outside depth)
  | .inString depth, c =>
    if c = '"' then some (.afterString depth)
    else if c = '\\' then some (.escaped depth)
    else some (.inString depth)
  | .escaped depth, c => if isEscape c then some (.inString depth) else none
  | .afterString depth, c =>
    if isSpace c then some (.afterString depth)
    else if c = ',' || c = ':' then some (.outside depth)
    else if closes c then some (close depth)
    else none
  | .done, c => if isSpace c then some .done else none

/-- One object or array and nothing else. -/
def WellFormed (text : List Char) : Prop := run step .start text = some .done

instance (text : List Char) : Decidable (WellFormed text) :=
  inferInstanceAs (Decidable (_ = _))

/-! ## From state to state -/

theorem step_ne_start {s s' : Scan} {c : Char} (hs : s ≠ .start) (h : step s c = some s') :
    s' ≠ .start := by
  rintro rfl
  cases s with
  | start => exact hs rfl
  | outside depth =>
    simp only [step] at h
    repeat' split at h
    all_goals first | cases h | (cases depth <;> cases h)
  | inString depth =>
    simp only [step] at h
    repeat' split at h
    all_goals cases h
  | escaped depth =>
    simp only [step] at h
    split at h <;> cases h
  | afterString depth =>
    simp only [step] at h
    repeat' split at h
    all_goals first | cases h | (cases depth <;> cases h)
  | done =>
    simp only [step] at h
    split at h <;> cases h

theorem run_ne_start {s s' : Scan} {text : List Char} (hs : s ≠ .start)
    (h : run step s text = some s') : s' ≠ .start := by
  induction text generalizing s with
  | nil =>
    cases h
    exact hs
  | cons c text ih =>
    rw [run_cons, Option.bind_eq_some_iff] at h
    obtain ⟨s₁, hc, h⟩ := h
    exact ih (step_ne_start hs hc) h

/-- After the outermost bracket there is only space. -/
theorem run_done {s : Scan} {text : List Char} (h : run step .done text = some s) :
    s = .done ∧ ∀ c ∈ text, isSpace c = true := by
  induction text with
  | nil =>
    cases h
    exact ⟨rfl, by simp⟩
  | cons c text ih =>
    rw [run_cons, Option.bind_eq_some_iff] at h
    obtain ⟨s₁, hc, h⟩ := h
    simp only [step] at hc
    split at hc
    · rename_i hspace
      cases hc
      obtain ⟨rfl, htext⟩ := ih h
      exact ⟨rfl, List.forall_mem_cons.mpr ⟨hspace, htext⟩⟩
    · cases hc

/-- A text that does not end in space is not well formed before its end. -/
theorem not_wellFormed_of_cut {whole cut : List Char} {last : Char}
    (h : WellFormed (whole ++ cut ++ [last])) (hlast : isSpace last = false) :
    ¬ WellFormed whole := by
  intro hw
  unfold WellFormed at h hw
  rw [List.append_assoc, run_append, hw, Option.bind_some] at h
  have hspace := (run_done h).2 last (by simp)
  rw [hlast] at hspace
  cases hspace

/-! ## Another text behind -/

/-- The same place in a text that starts `k` brackets deep. -/
def Scan.shift (k : Nat) : Scan → Scan
  | .start => .start
  | .outside depth => .outside (depth + k)
  | .inString depth => .inString (depth + k)
  | .escaped depth => .escaped (depth + k)
  | .afterString depth => .afterString (depth + k)
  | .done => .outside (k - 1)

theorem shift_close {k : Nat} (hk : 0 < k) (depth : Nat) :
    (close depth).shift k = close (depth + k) := by
  obtain ⟨k, rfl⟩ : ∃ j, k = j + 1 := ⟨k - 1, by omega⟩
  cases depth with
  | zero =>
    rw [Nat.zero_add]
    rfl
  | succ depth =>
    rw [Nat.add_right_comm]
    rfl

theorem step_shift {k : Nat} (hk : 0 < k) {s s' : Scan} {c : Char} (hs : s ≠ .start)
    (h : step s c = some s') : step (s.shift k) c = some (s'.shift k) := by
  cases s with
  | start => exact absurd rfl hs
  | outside depth =>
    show step (.outside (depth + k)) c = _
    simp only [step] at h ⊢
    repeat' split at h
    · rename_i h₁
      cases h
      rw [if_pos h₁]
      rfl
    · rename_i h₁ h₂
      cases h
      rw [if_neg h₁, if_pos h₂, Nat.add_right_comm]
      rfl
    · rename_i h₁ h₂ h₃
      cases h
      rw [if_neg h₁, if_neg h₂, if_pos h₃, shift_close hk]
    · rename_i h₁ h₂ h₃
      cases h
      rw [if_neg h₁, if_neg h₂, if_neg h₃]
      rfl
  | inString depth =>
    show step (.inString (depth + k)) c = _
    simp only [step] at h ⊢
    repeat' split at h
    · rename_i h₁
      cases h
      rw [if_pos h₁]
      rfl
    · rename_i h₁ h₂
      cases h
      rw [if_neg h₁, if_pos h₂]
      rfl
    · rename_i h₁ h₂
      cases h
      rw [if_neg h₁, if_neg h₂]
      rfl
  | escaped depth =>
    show step (.escaped (depth + k)) c = _
    simp only [step] at h ⊢
    split at h
    · rename_i h₁
      cases h
      rw [if_pos h₁]
      rfl
    · cases h
  | afterString depth =>
    show step (.afterString (depth + k)) c = _
    simp only [step] at h ⊢
    repeat' split at h
    · rename_i h₁
      cases h
      rw [if_pos h₁]
      rfl
    · rename_i h₁ h₂
      cases h
      rw [if_neg h₁, if_pos h₂]
      rfl
    · rename_i h₁ h₂ h₃
      cases h
      rw [if_neg h₁, if_neg h₂, if_pos h₃, shift_close hk]
    · cases h
  | done =>
    simp only [step] at h
    split at h
    · rename_i hspace
      cases h
      have hc : (c = '"') = False ∧ opens c = false ∧ closes c = false := by
        simp only [isSpace, Bool.or_eq_true, decide_eq_true_eq] at hspace
        rcases hspace with ((rfl | rfl) | rfl) | rfl <;> exact ⟨by simp, rfl, rfl⟩
      simp only [Scan.shift, step, hc, if_false, Bool.false_eq_true]
    · cases h

theorem run_shift {k : Nat} (hk : 0 < k) {s s' : Scan} {text : List Char} (hs : s ≠ .start)
    (h : run step s text = some s') : run step (s.shift k) text = some (s'.shift k) := by
  induction text generalizing s with
  | nil =>
    cases h
    rfl
  | cons c text ih =>
    rw [run_cons, Option.bind_eq_some_iff] at h
    obtain ⟨s₁, hc, h⟩ := h
    rw [run_cons, step_shift hk hs hc, Option.bind_some]
    exact ih (step_ne_start hs hc) h

/-- A well-formed object with a key is refused wherever another text has begun before it. -/
theorem run_behind {s : Scan} (hs : s ≠ .start) {c : Char} {text : List Char}
    (hc : step (.afterString 0) c = none) (h : WellFormed ('\x7b' :: '"' :: c :: text)) :
    run step s ('\x7b' :: '"' :: c :: text) ≠ some .done := by
  intro hrun
  cases s with
  | start => exact hs rfl
  | outside depth =>
    have hbody : run step (.outside 0) ('"' :: c :: text) = some .done := h
    have hshift := run_shift (Nat.succ_pos depth) (by simp) hbody
    have hrun' : run step (.outside (depth + 1)) ('"' :: c :: text) = some .done := hrun
    simp only [Scan.shift, Nat.zero_add] at hshift
    cases hshift.symm.trans hrun'
  | inString depth =>
    have hnone : step (.afterString depth) c = none := by
      simp only [step] at hc ⊢
      repeat' split at hc
      · cases hc
      · cases hc
      · cases hc
      · rename_i h₁ h₂ h₃
        rw [if_neg h₁, if_neg h₂, if_neg h₃]
    have hrun' : run step (.afterString depth) (c :: text) = some .done := hrun
    rw [run_cons, hnone] at hrun'
    cases hrun'
  | escaped depth => cases hrun
  | afterString depth => cases hrun
  | done => cases hrun

/-- **No text behind another.** -/
theorem glued_not_wellFormed {front text : List Char} {c : Char} (hne : front ≠ [])
    (hspace : ∀ d ∈ front.head?, isSpace d = false) (hc : step (.afterString 0) c = none)
    (h : WellFormed ('\x7b' :: '"' :: c :: text)) :
    ¬ WellFormed (front ++ '\x7b' :: '"' :: c :: text) := by
  obtain ⟨d, front, rfl⟩ := List.exists_cons_of_ne_nil hne
  intro hglued
  unfold WellFormed at hglued
  rw [run_append, Option.bind_eq_some_iff] at hglued
  obtain ⟨s, hfront, hrest⟩ := hglued
  rw [run_cons, Option.bind_eq_some_iff] at hfront
  obtain ⟨s₁, hd, hfront⟩ := hfront
  have hs₁ : s₁ ≠ .start := by
    simp only [step, hspace d rfl, Bool.false_eq_true, if_false] at hd
    split at hd
    · cases hd
      simp
    · cases hd
  exact run_behind (run_ne_start hs₁ hfront) hc h hrest

/-! ## Foreign characters -/

/-- A reader learns nothing of the brackets from what is not ASCII, and refuses it outside of
strings or skips it. -/
theorem run_foreign {s s' : Scan} {text : List Char} (hs : s ≠ .done)
    (htext : ∀ c ∈ text, 127 < c.val.toNat) (h : run step s text = some s') : s' ≠ .done := by
  induction text generalizing s with
  | nil =>
    cases h
    exact hs
  | cons c text ih =>
    rw [run_cons, Option.bind_eq_some_iff] at h
    obtain ⟨s₁, hc, h⟩ := h
    refine ih ?_ (fun d hd => htext d (List.mem_cons_of_mem _ hd)) h
    have hcode := htext c List.mem_cons_self
    have hno : closes c = false := by
      unfold closes
      have h₁ : c ≠ '\x7d' := by
        rintro rfl
        exact absurd hcode (by decide)
      have h₂ : c ≠ ']' := by
        rintro rfl
        exact absurd hcode (by decide)
      simp [h₁, h₂]
    rintro rfl
    cases s with
    | done => exact hs rfl
    | _ =>
      simp only [step, hno, Bool.false_eq_true, if_false] at hc
      repeat' split at hc
      all_goals cases hc

theorem foreign_not_wellFormed {front text : List Char} (h : ¬ WellFormed front)
    (htext : ∀ c ∈ text, 127 < c.val.toNat) : ¬ WellFormed (front ++ text) := by
  intro hw
  unfold WellFormed at hw
  rw [run_append, Option.bind_eq_some_iff] at hw
  obtain ⟨s, hfront, hrest⟩ := hw
  refine run_foreign ?_ htext hrest rfl
  rintro rfl
  exact h hfront

end AgentDaemon.JsonText
