import Mathlib.Data.List.Basic

/-!
Lists that are read page by page. Each request names an offset, and the next one follows what the
answer held (`requestAll`). Exact pages that are not empty give every item once and in order
(`requestAll_exact`).
-/

namespace AgentDaemon.Paging

structure Page (β : Type) where
  values : List β
  hasMore : Bool
  deriving DecidableEq

variable {α β : Type}

/-- The pages from an offset on. Each next request follows what was returned, while there is more. -/
def requestAll (page : Nat → Page β) : (fuel offset : Nat) → Option (List (Page β))
  | 0, _ => none
  | fuel + 1, offset =>
    let answer := page offset
    if answer.hasMore then
      (requestAll page fuel (offset + answer.values.length)).map (answer :: ·)
    else some [answer]

/-- The page at an offset: the next items, some of them while there are any, and whether items
remain behind. -/
structure Exact (f : α → β) (items : List α) (offset : Nat) (answer : Page β) : Prop where
  values : answer.values = ((items.drop offset).take answer.values.length).map f
  nonempty : offset < items.length → answer.values ≠ []
  hasMore : answer.hasMore = true ↔ offset + answer.values.length < items.length

variable {f : α → β} {items : List α} {offset : Nat} {answer : Page β} {page : Nat → Page β}

/-- What a page leaves is what is behind its end. -/
theorem Exact.map_drop (h : Exact f items offset answer) :
    (items.drop offset).map f =
      answer.values ++ (items.drop (offset + answer.values.length)).map f := by
  conv_lhs => rw [← List.take_append_drop answer.values.length (items.drop offset), List.map_append,
    ← h.values, List.drop_drop]

theorem Exact.map_drop_last (h : Exact f items offset answer) (hlast : answer.hasMore = false) :
    (items.drop offset).map f = answer.values := by
  have hend : items.length ≤ offset + answer.values.length := by
    by_contra hlt
    rw [h.hasMore.mpr (Nat.lt_of_not_le hlt)] at hlast
    cases hlast
  rw [h.map_drop, List.drop_eq_nil_of_le hend, List.map_nil, List.append_nil]

/-- A page with more behind it moves on. -/
theorem Exact.length_pos (h : Exact f items offset answer) (hmore : answer.hasMore = true) :
    0 < answer.values.length := by
  have hlt := h.hasMore.mp hmore
  exact List.length_pos_of_ne_nil (h.nonempty (by omega))

/-- As many requests as there are items are enough, and the pages hold each item once, in order. -/
theorem requestAll_exact (h : ∀ offset, Exact f items offset (page offset)) {fuel : Nat}
    (hfuel : items.length - offset < fuel) :
    ∃ answers, requestAll page fuel offset = some answers ∧
      answers.flatMap Page.values = (items.drop offset).map f := by
  induction fuel generalizing offset with
  | zero => exact absurd hfuel (Nat.not_lt_zero _)
  | succ fuel ih =>
    rw [requestAll]
    cases hmore : (page offset).hasMore with
    | false =>
      refine ⟨[page offset], rfl, ?_⟩
      rw [(h offset).map_drop_last hmore, List.flatMap_cons, List.flatMap_nil, List.append_nil]
    | true =>
      have hpos := (h offset).length_pos hmore
      have hlt := (h offset).hasMore.mp hmore
      obtain ⟨answers, hrest, hvalues⟩ :=
        ih (show items.length - (offset + (page offset).values.length) < fuel by omega)
      refine ⟨page offset :: answers, ?_, ?_⟩
      · simp only [hrest, if_true, Option.map_some]
      · rw [List.flatMap_cons, hvalues, ← (h offset).map_drop]

end AgentDaemon.Paging
