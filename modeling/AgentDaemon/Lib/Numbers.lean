import Mathlib.Data.List.Basic

/-!
Lists whose elements carry strictly ascending numbers, cut at a number. What is up to a number and
what is above it make up the list (`upTo_append_above`), and the next element above it can be
handed over from the one part to the other (`hand_over`).
-/

namespace AgentDaemon.Numbers

variable {α β : Type} (number : α → Nat)

def Ascending (l : List α) : Prop := l.Pairwise fun a b => number a < number b

def upTo (c : Nat) (l : List α) : List α := l.filter fun a => number a ≤ c

def above (c : Nat) (l : List α) : List α := l.filter fun a => c < number a

variable {number} {c d : Nat} {a : α} {l m : List α}

theorem mem_above : a ∈ above number c l ↔ a ∈ l ∧ c < number a := by simp [above]

theorem mem_upTo : a ∈ upTo number c l ↔ a ∈ l ∧ number a ≤ c := by simp [upTo]

@[simp] theorem above_append : above number c (l ++ m) = above number c l ++ above number c m :=
  List.filter_append ..

@[simp] theorem upTo_append : upTo number c (l ++ m) = upTo number c l ++ upTo number c m :=
  List.filter_append ..

theorem above_eq_self (h : ∀ a ∈ l, c < number a) : above number c l = l :=
  List.filter_eq_self.mpr fun a ha => decide_eq_true (h a ha)

theorem above_eq_nil (h : ∀ a ∈ l, number a ≤ c) : above number c l = [] :=
  List.filter_eq_nil_iff.mpr fun a ha => by simpa using h a ha

theorem upTo_eq_nil (h : ∀ a ∈ l, c < number a) : upTo number c l = [] :=
  List.filter_eq_nil_iff.mpr fun a ha => by simpa using h a ha

theorem upTo_filter (p : α → Bool) : upTo number c (l.filter p) = (upTo number c l).filter p :=
  List.filter_comm ..

theorem above_filter (p : α → Bool) : above number c (l.filter p) = (above number c l).filter p :=
  List.filter_comm ..

theorem above_above (h : c ≤ d) : above number d (above number c l) = above number d l := by
  rw [above, above, List.filter_filter]
  refine List.filter_congr fun a _ => ?_
  by_cases hd : d < number a
  · simp [hd, Nat.lt_of_le_of_lt h hd]
  · simp [hd]

theorem upTo_append_above (h : Ascending number l) (c : Nat) :
    upTo number c l ++ above number c l = l := by
  induction l with
  | nil => rfl
  | cons a l ih =>
    obtain ⟨ha, hl⟩ := List.pairwise_cons.mp h
    by_cases hc : number a ≤ c
    · have hup : upTo number c (a :: l) = a :: upTo number c l := by simp [upTo, hc]
      have habove : above number c (a :: l) = above number c l := by simp [above, hc]
      rw [hup, habove, List.cons_append, ih hl]
    · have hall : ∀ b ∈ a :: l, c < number b := by
        intro b hb
        rcases List.mem_cons.mp hb with rfl | hb
        · exact Nat.lt_of_not_le hc
        · exact Nat.lt_trans (Nat.lt_of_not_le hc) (ha b hb)
      rw [above_eq_self hall, upTo_eq_nil hall, List.nil_append]

theorem Ascending.above (h : Ascending number l) (c : Nat) :
    Ascending number (above number c l) := h.filter _

theorem upTo_cons_self (h : Ascending number (a :: l)) : upTo number (number a) (a :: l) = [a] := by
  rw [upTo, List.filter_cons_of_pos (by simp)]
  exact congrArg _ (upTo_eq_nil (List.pairwise_cons.mp h).1)

/-- What lies between two numbers. -/
theorem upTo_eq_append (h : Ascending number l) (hcd : c ≤ d) :
    upTo number d l = upTo number c l ++ upTo number d (above number c l) := by
  have hsplit := upTo_append_above h c
  conv_lhs => rw [← hsplit, upTo_append]
  congr 1
  exact List.filter_eq_self.mpr fun b hb =>
    decide_eq_true (Nat.le_trans (mem_upTo.mp hb).2 hcd)

/-- The next element above a number can be handed over. -/
theorem hand_over (h : Ascending number l) (ha : above number c l = a :: m) :
    upTo number (number a) l = upTo number c l ++ [a] ∧ above number (number a) l = m := by
  have hlt : c < number a := (mem_above.mp (ha ▸ List.mem_cons_self)).2
  have hasc : Ascending number (a :: m) := ha ▸ h.above c
  constructor
  · rw [upTo_eq_append h (Nat.le_of_lt hlt), ha, upTo_cons_self hasc]
  · rw [← above_above (Nat.le_of_lt hlt), ha, above, List.filter_cons_of_neg (by simp)]
    exact above_eq_self (List.pairwise_cons.mp hasc).1

/-- A full page whose last number is at least `d` is followed by numbers above `d`. -/
theorem lt_of_mem_drop (h : Ascending number l) {k : Nat} (hk : 0 < k)
    (hpage : ¬ ((l.take k).length = k ∧ (l.take k).getLast?.any (number · < d)))
    (ha : a ∈ l.drop k) : d < number a := by
  have hfull : (l.take k).length = k := by
    rw [List.length_take]
    have hlen := List.length_pos_of_mem ha
    rw [List.length_drop] at hlen
    omega
  cases hlast : (l.take k).getLast? with
  | none =>
    rw [List.getLast?_eq_none_iff.mp hlast] at hfull
    exact absurd hfull (Nat.ne_of_lt hk)
  | some b =>
    have hd : d ≤ number b := by
      by_contra hlt
      exact hpage ⟨hfull, by simpa [hlast] using hlt⟩
    have hsplit := h
    rw [Ascending, ← List.take_append_drop k l] at hsplit
    exact Nat.lt_of_le_of_lt hd
      ((List.pairwise_append.mp hsplit).2.2 b (List.mem_of_getLast? hlast) a ha)

end AgentDaemon.Numbers
