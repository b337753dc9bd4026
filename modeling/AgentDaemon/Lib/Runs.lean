import Mathlib.Data.List.SplitBy

/-!
A mark behind each maximal run of the elements that meet a predicate. `marked` cuts the list into its
runs; `brackets` reads the list once and only knows whether a run is open. They are the same
(`brackets_eq_marked`).
-/

namespace AgentDaemon.Runs

variable {α : Type} (p : α → Bool) (mark : α)

/-- The maximal runs of elements that meet `p` and of others. -/
def runs (l : List α) : List (List α) := l.splitBy fun a b => p a == p b

def closed (run : List α) : List α := if run.all p then run ++ [mark] else run

def marked (l : List α) : List α := (runs p l).flatMap (closed p mark)

/-- The mark that is missing where a run is open. -/
def missing : Bool → List α
  | true => [mark]
  | false => []

def brackets : Bool → List α → List α
  | isOpen, [] => missing mark isOpen
  | isOpen, a :: l =>
    if p a then a :: brackets true l else missing mark isOpen ++ a :: brackets false l

variable {p} {mark}

theorem brackets_cons {a : α} (h : p a = true) (isOpen : Bool) (l : List α) :
    brackets p mark isOpen (a :: l) = a :: brackets p mark true l := if_pos h

theorem brackets_cons_other {a : α} (h : p a = false) (isOpen : Bool) (l : List α) :
    brackets p mark isOpen (a :: l) = missing mark isOpen ++ a :: brackets p mark false l :=
  if_neg (Bool.eq_false_iff.mp h)

theorem brackets_run {run : List α} (hrun : ∀ a ∈ run, p a = true) (hne : run ≠ [])
    (isOpen : Bool) (l : List α) :
    brackets p mark isOpen (run ++ l) = run ++ brackets p mark true l := by
  induction run generalizing isOpen with
  | nil => exact absurd rfl hne
  | cons a run ih =>
    rw [List.cons_append, brackets_cons (hrun a List.mem_cons_self), List.cons_append]
    cases run with
    | nil => rfl
    | cons b run => rw [ih (fun c hc => hrun c (List.mem_cons_of_mem a hc)) (List.cons_ne_nil b run)]

theorem brackets_others {run : List α} (hrun : ∀ a ∈ run, p a = false) (l : List α) :
    brackets p mark false (run ++ l) = run ++ brackets p mark false l := by
  induction run with
  | nil => rfl
  | cons a run ih =>
    rw [List.cons_append, brackets_cons_other (hrun a List.mem_cons_self),
      ih fun c hc => hrun c (List.mem_cons_of_mem a hc)]
    rfl

/-- Where no element of the run follows, its mark does. -/
theorem brackets_true {l : List α} (h : ∀ a ∈ l.head?, p a = false) :
    brackets p mark true l = mark :: brackets p mark false l := by
  cases l with
  | nil => rfl
  | cons a l =>
    rw [brackets_cons_other (h a rfl), brackets_cons_other (h a rfl)]
    rfl

theorem eq_of_isChain {run : List α} (h : run.IsChain fun a b => (p a == p b) = true) :
    ∀ a ∈ run, ∀ b ∈ run.head?, p a = p b := by
  induction run with
  | nil => exact fun a ha => nomatch ha
  | cons c run ih =>
    rintro a ha b ⟨⟩
    rcases List.mem_cons.mp ha with rfl | ha
    · rfl
    · cases run with
      | nil => cases ha
      | cons d run =>
        rw [List.isChain_cons_cons] at h
        exact (ih h.2 a ha d rfl).trans (beq_iff_eq.mp h.1).symm

theorem brackets_flatten {rs : List (List α)} (hne : [] ∉ rs)
    (hsame : ∀ run ∈ rs, run.IsChain fun a b => (p a == p b) = true)
    (hnext : rs.IsChain fun run run' =>
      ∃ h h', (p (run.getLast h) == p (run'.head h')) = false) :
    brackets p mark false rs.flatten = rs.flatMap (closed p mark) := by
  induction rs with
  | nil => rfl
  | cons run rs ih =>
    rw [List.mem_cons, not_or] at hne
    have hrun := eq_of_isChain (hsame run List.mem_cons_self)
    have ih := ih hne.2 (fun r hr => hsame r (List.mem_cons_of_mem run hr)) hnext.tail
    obtain ⟨a, rest, rfl⟩ := List.exists_cons_of_ne_nil (Ne.symm hne.1)
    rw [List.flatten_cons, List.flatMap_cons, closed]
    cases ha : p a with
    | true =>
      have hall : ∀ b ∈ a :: rest, p b = true := fun b hb => (hrun b hb a rfl).trans ha
      have hhead : ∀ b ∈ rs.flatten.head?, p b = false := by
        intro b hb
        cases rs with
        | nil => cases hb
        | cons run' rs =>
          obtain ⟨h, h', hcut⟩ := (List.isChain_cons_cons.mp hnext).1
          obtain ⟨c, rest', rfl⟩ := List.exists_cons_of_ne_nil h'
          cases hb
          rw [hall _ (List.getLast_mem h), List.head_cons] at hcut
          cases hb : p b with
          | true =>
            rw [hb] at hcut
            cases hcut
          | false => rfl
      rw [brackets_run hall (List.cons_ne_nil a rest), brackets_true hhead, ih,
        if_pos (List.all_eq_true.mpr hall), List.append_assoc]
      rfl
    | false =>
      have hnone : ∀ b ∈ a :: rest, p b = false := fun b hb => (hrun b hb a rfl).trans ha
      have hall : ¬ (a :: rest).all p = true := by
        rw [List.all_cons, ha]
        exact Bool.false_ne_true
      rw [brackets_others hnone, ih, if_neg hall]

/-- **Reading once** puts the mark behind each maximal run. -/
theorem brackets_eq_marked (p : α → Bool) (mark : α) (l : List α) :
    brackets p mark false l = marked p mark l := by
  have h := @brackets_flatten _ p mark _ (List.nil_notMem_splitBy (fun a b => p a == p b) l)
    (fun _ => List.isChain_of_mem_splitBy) (List.isChain_getLast_head_splitBy (fun a b => p a == p b) l)
  rwa [List.flatten_splitBy] at h

end AgentDaemon.Runs
