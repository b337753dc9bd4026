/-!
A list whose places are the numbers of the parties of a system. A step changes the party at one
place, or puts one more at the end, so that every party keeps its place.
-/

namespace AgentDaemon.Slots

variable {α : Type} {l : List α} {x y : α} {f : α → α} {i k : Nat}

theorem lt_of_some (h : l[k]? = some x) : k < l.length := (List.getElem?_eq_some_iff.mp h).1

/-! ## One more party -/

theorem append_of_some (h : l[k]? = some x) (more : List α) : (l ++ more)[k]? = some x := by
  rw [List.getElem?_append_left (lt_of_some h), h]

theorem of_concat (h : (l ++ [x])[k]? = some y) : l[k]? = some y ∨ k = l.length ∧ y = x := by
  rcases Nat.lt_trichotomy k l.length with hlt | heq | hgt
  · rw [List.getElem?_append_left hlt] at h
    exact .inl h
  · subst heq
    rw [List.getElem?_concat_length] at h
    exact .inr ⟨rfl, (Option.some.inj h).symm⟩
  · have hlt := lt_of_some h
    rw [List.length_append, List.length_singleton] at hlt
    omega

/-! ## A party changes -/

theorem modify_self (h : l[i]? = some x) (f : α → α) : (l.modify i f)[i]? = some (f x) := by
  rw [List.getElem?_modify_eq, h, Option.map_eq_map, Option.map_some]

theorem modify_other (h : k ≠ i) (f : α → α) : (l.modify i f)[k]? = l[k]? :=
  List.getElem?_modify_ne f l (Ne.symm h)

theorem modify_of_some (h : l[k]? = some x) (f : α → α) :
    (l.modify i f)[k]? = some (if k = i then f x else x) := by
  split
  · rename_i heq
    subst heq
    exact modify_self h f
  · rename_i hne
    rw [modify_other hne, h]

/-- What stands at a place after the step, from what stood there before. -/
theorem of_modify (h : (l.modify i f)[k]? = some y) :
    ∃ x, l[k]? = some x ∧ y = if k = i then f x else x := by
  have hlt := lt_of_some h
  rw [List.length_modify] at hlt
  have hx : l[k]? = some l[k] := List.getElem?_eq_getElem hlt
  exact ⟨l[k], hx, Option.some.inj (h.symm.trans (modify_of_some hx f))⟩

end AgentDaemon.Slots
