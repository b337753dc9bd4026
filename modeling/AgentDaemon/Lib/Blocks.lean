import Mathlib.Data.List.Basic

/-!
Lists in which equal entries stand side by side: whoever writes such a list has it for himself for
as long as he writes. An entry is put at the end by the one who has written last, or by one who has
not written yet.
-/

namespace AgentDaemon.Blocks

variable {α : Type} {l : List α} {a : α}

/-- What stands between two equal entries is equal to them. -/
def Contiguous (l : List α) : Prop :=
  ∀ (i j k : Nat) (a b : α), i < j → j < k →
    l[i]? = some a → l[j]? = some b → l[k]? = some a → b = a

/-- The next entry may be `a`. -/
def Continues (l : List α) (a : α) : Prop := a ∉ l ∨ l.getLast? = some a

theorem contiguous_nil : Contiguous ([] : List α) := by
  intro i j k a b _ _ hi
  cases hi

theorem contiguous_replicate (n : Nat) (a : α) : Contiguous (List.replicate n a) := by
  intro i j k b c _ _ hi hj _
  have hb := List.eq_of_mem_replicate (List.mem_of_getElem? hi)
  have hc := List.eq_of_mem_replicate (List.mem_of_getElem? hj)
  rw [hb, hc]

theorem continues_concat (l : List α) (a : α) : Continues (l ++ [a]) a :=
  .inr List.getLast?_concat

theorem Contiguous.concat (h : Contiguous l) (ha : Continues l a) : Contiguous (l ++ [a]) := by
  intro i j k b c hij hjk hi hj hk
  have hlen : k < l.length + 1 := by
    obtain ⟨hlt, -⟩ := List.getElem?_eq_some_iff.mp hk
    simpa using hlt
  rw [List.getElem?_append_left (by omega)] at hi hj
  rcases Nat.lt_or_ge k l.length with hlt | hge
  · rw [List.getElem?_append_left hlt] at hk
    exact h i j k b c hij hjk hi hj hk
  · obtain rfl : k = l.length := by omega
    rw [List.getElem?_concat_length] at hk
    obtain rfl := Option.some.inj hk
    rcases ha with hout | hlast
    · exact absurd (List.mem_of_getElem? hi) hout
    · -- the entry is the last one of `l`
      rw [List.getLast?_eq_getElem?] at hlast
      rcases Nat.lt_or_ge j (l.length - 1) with hj' | hj'
      · exact h i j (l.length - 1) a c hij hj' hi hj hlast
      · obtain rfl : j = l.length - 1 := by omega
        exact Option.some.inj (hj.symm.trans hlast)

end AgentDaemon.Blocks
