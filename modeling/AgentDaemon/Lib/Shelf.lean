import Mathlib.Data.Finset.Card
import Mathlib.Data.Finset.SDiff
import Mathlib.Order.Basic

/-!
A shelf has keys in an order, and under each a name and a value, if anything. Who looks through the
first `cap` of the keys is shown, for a name, the value under the first key that declares it.

`shows_put_self` and `shows_put_other` say what is shown once a key has been put on a shelf, and
`findSome?_take` that a loop over the sorted keys finds what the shelf shows.
-/

namespace AgentDaemon

variable {κ ι ν β : Type} [LinearOrder κ]

@[ext] structure Shelf (κ ι ν : Type) where
  keys : Finset κ
  decl : κ → Option (ι × ν)

namespace Shelf

/-- How many keys stand before `k`. -/
def place (s : Shelf κ ι ν) (k : κ) : Nat := (s.keys.filter (· < k)).card

/-- No key before `k` declares the name. -/
def Free (s : Shelf κ ι ν) (name : ι) (k : κ) : Prop :=
  ∀ j ∈ s.keys, j < k → ∀ v, s.decl j ≠ some (name, v)

/-- `k` is the first key that declares the name. -/
structure First (s : Shelf κ ι ν) (name : ι) (k : κ) (v : ν) : Prop where
  mem : k ∈ s.keys
  declares : s.decl k = some (name, v)
  free : s.Free name k

/-- What the first `cap` keys show for the name. -/
def Shows (s : Shelf κ ι ν) (cap : Nat) (name : ι) (v : ν) : Prop :=
  ∃ k, s.First name k v ∧ s.place k < cap

/-- The shelf without the keys that are gone. -/
def without (s : Shelf κ ι ν) (gone : Finset κ) : Shelf κ ι ν where
  keys := s.keys \ gone
  decl k := if k ∈ gone then none else s.decl k

def put (s : Shelf κ ι ν) (t : κ) (name : ι) (v : ν) : Shelf κ ι ν where
  keys := insert t s.keys
  decl := Function.update s.decl t (some (name, v))

variable {s : Shelf κ ι ν} {name other : ι} {k j t : κ} {v w : ν} {cap : Nat}

theorem First.le (h : s.First name k v) (hj : j ∈ s.keys) (hdecl : s.decl j = some (name, w)) :
    k ≤ j := by
  by_contra hlt
  exact h.free j hj (not_le.mp hlt) w hdecl

theorem First.unique (hk : s.First name k v) (hj : s.First name j w) : k = j ∧ v = w := by
  have he : k = j := le_antisymm (hk.le hj.mem hj.declares) (hj.le hk.mem hk.declares)
  subst he
  have hv := hk.declares.symm.trans hj.declares
  simp only [Option.some.injEq, Prod.mk.injEq, true_and] at hv
  exact ⟨rfl, hv⟩

/-! ## Keys that are gone -/

theorem mem_without {gone : Finset κ} : k ∈ (s.without gone).keys ↔ k ∈ s.keys ∧ k ∉ gone :=
  Finset.mem_sdiff

theorem decl_without {gone : Finset κ} (h : k ∉ gone) : (s.without gone).decl k = s.decl k :=
  if_neg h

/-- A key has fewer keys before it than there are. -/
theorem place_without_lt {gone : Finset κ} (h : k ∈ s.keys) :
    (s.without gone).place k < s.keys.card := by
  refine Finset.card_lt_card ⟨fun j hj => ?_, fun hsub => ?_⟩
  · exact (mem_without.mp (Finset.mem_filter.mp hj).1).1
  · exact lt_irrefl k (Finset.mem_filter.mp (hsub h)).2

/-- A first key that is not gone is still the first. -/
theorem First.without (h : s.First name k v) {gone : Finset κ} (hk : k ∉ gone) :
    (s.without gone).First name k v where
  mem := mem_without.mpr ⟨h.mem, hk⟩
  declares := by rw [decl_without hk, h.declares]
  free j hj hlt w := by
    obtain ⟨hj, hgone⟩ := mem_without.mp hj
    rw [decl_without hgone]
    exact h.free j hj hlt w

/-! ## One key more -/

theorem place_put (ht : t ∉ s.keys) :
    (s.put t name v).place k = s.place k + if t < k then 1 else 0 := by
  unfold place put
  rw [Finset.filter_insert]
  by_cases h : t < k
  · rw [if_pos h, if_pos h]
    exact Finset.card_insert_of_notMem fun hmem => ht (Finset.mem_filter.mp hmem).1
  · rw [if_neg h, if_neg h, Nat.add_zero]

theorem place_put_of_le (ht : t ∉ s.keys) (h : k ≤ t) : (s.put t name v).place k = s.place k := by
  rw [place_put ht, if_neg (not_lt.mpr h), Nat.add_zero]

theorem decl_put_self : (s.put t name v).decl t = some (name, v) := Function.update_self ..

theorem decl_put_of_ne (h : k ≠ t) : (s.put t name v).decl k = s.decl k := Function.update_of_ne h ..

/-- For the name that `t` declares, `t` only counts after it. -/
theorem free_put_self (ht : t ∉ s.keys) :
    (s.put t name v).Free name k ↔ k ≤ t ∧ s.Free name k := by
  constructor
  · intro h
    have hle : k ≤ t := by
      by_contra hlt
      exact h t (Finset.mem_insert_self ..) (not_le.mp hlt) v decl_put_self
    refine ⟨hle, fun j hj hlt w => ?_⟩
    have hne : j ≠ t := fun he => ht (he ▸ hj)
    have hfree := h j (Finset.mem_insert_of_mem hj) hlt w
    rwa [decl_put_of_ne hne] at hfree
  · rintro ⟨hle, h⟩ j hj hlt w
    have hne : j ≠ t := (hlt.trans_le hle).ne
    rw [decl_put_of_ne hne]
    exact h j ((Finset.mem_insert.mp hj).resolve_left hne) hlt w

/-- For another name, `t` does not count at all. -/
theorem free_put_other (ht : t ∉ s.keys) (hname : other ≠ name) :
    (s.put t name v).Free other k ↔ s.Free other k := by
  constructor
  · intro h j hj hlt w
    have hne : j ≠ t := fun he => ht (he ▸ hj)
    have hfree := h j (Finset.mem_insert_of_mem hj) hlt w
    rwa [decl_put_of_ne hne] at hfree
  · intro h j hj hlt w
    rcases Finset.mem_insert.mp hj with rfl | hj
    · rw [decl_put_self]
      intro he
      simp only [Option.some.injEq, Prod.mk.injEq] at he
      exact hname he.1.symm
    · have hne : j ≠ t := fun he => ht (he ▸ hj)
      rw [decl_put_of_ne hne]
      exact h j hj hlt w

theorem first_put_other (ht : t ∉ s.keys) (hname : other ≠ name) :
    (s.put t name v).First other k w ↔ s.First other k w := by
  constructor
  · intro h
    have hne : k ≠ t := by
      rintro rfl
      have he := decl_put_self.symm.trans h.declares
      simp only [Option.some.injEq, Prod.mk.injEq] at he
      exact hname he.1.symm
    exact {
      mem := (Finset.mem_insert.mp h.mem).resolve_left hne
      declares := by rw [← decl_put_of_ne hne, h.declares]
      free := (free_put_other ht hname).mp h.free }
  · intro h
    have hne : k ≠ t := fun he => ht (he ▸ h.mem)
    exact {
      mem := Finset.mem_insert_of_mem h.mem
      declares := by rw [decl_put_of_ne hne, h.declares]
      free := (free_put_other ht hname).mpr h.free }

/-- What is put is shown if it is the first of its name and stands among the first keys, or if the
first of its name shows the same. -/
theorem shows_put_self (ht : t ∉ s.keys) : (s.put t name v).Shows cap name v ↔
    (s.Free name t ∧ s.place t < cap) ∨ ∃ k, k < t ∧ s.First name k v ∧ s.place k < cap := by
  constructor
  · rintro ⟨k, h, hcap⟩
    obtain ⟨hle, hfree⟩ := (free_put_self ht).mp h.free
    rw [place_put_of_le ht hle] at hcap
    rcases hle.eq_or_lt with rfl | hlt
    · exact .inl ⟨hfree, hcap⟩
    · have hmem := (Finset.mem_insert.mp h.mem).resolve_left hlt.ne
      have hdecl := h.declares
      rw [decl_put_of_ne hlt.ne] at hdecl
      exact .inr ⟨k, hlt, ⟨hmem, hdecl, hfree⟩, hcap⟩
  · rintro (⟨hfree, hcap⟩ | ⟨k, hlt, h, hcap⟩)
    · refine ⟨t, ⟨Finset.mem_insert_self .., decl_put_self, ?_⟩, ?_⟩
      · exact (free_put_self ht).mpr ⟨le_rfl, hfree⟩
      · rwa [place_put_of_le ht le_rfl]
    · refine ⟨k, ⟨Finset.mem_insert_of_mem h.mem, ?_, ?_⟩, ?_⟩
      · rw [decl_put_of_ne hlt.ne, h.declares]
      · exact (free_put_self ht).mpr ⟨hlt.le, h.free⟩
      · rwa [place_put_of_le ht hlt.le]

/-- Another name is shown as before, but the keys after `t` move on by one. -/
theorem shows_put_other (ht : t ∉ s.keys) (hname : other ≠ name) :
    (s.put t name v).Shows cap other w ↔
      ∃ k, s.First other k w ∧ s.place k + (if t < k then 1 else 0) < cap := by
  unfold Shows
  simp only [first_put_other ht hname, place_put ht]

/-! ## The loop over the keys -/

/-- Before the head of a sorted list there is nothing. -/
theorem card_before_head {a : κ} {l : List κ} (ha : ∀ b ∈ l, a < b) :
    ((a :: l).toFinset.filter (· < a)).card = 0 := by
  rw [Finset.card_eq_zero, Finset.filter_eq_empty_iff]
  intro j hj hlt
  rcases List.mem_cons.mp (List.mem_toFinset.mp hj) with rfl | hj
  · exact lt_irrefl _ hlt
  · exact (ha j hj).not_gt hlt

/-- The head is before all the others. -/
theorem card_before_cons {a : κ} {l : List κ} (ha : ∀ b ∈ l, a < b) (hk : k ∈ l) :
    ((a :: l).toFinset.filter (· < k)).card = (l.toFinset.filter (· < k)).card + 1 := by
  rw [List.toFinset_cons, Finset.filter_insert, if_pos (ha k hk)]
  refine Finset.card_insert_of_notMem fun hmem => ?_
  have hmem := List.mem_toFinset.mp (Finset.mem_filter.mp hmem).1
  exact lt_irrefl a (ha a hmem)

/-- What a loop over the first `cap` keys finds stands under the first key that has anything. -/
theorem findSome?_take {l : List κ} (hl : l.Pairwise (· < ·)) {f : κ → Option β} {b : β} :
    (l.take cap).findSome? f = some b ↔
      ∃ k ∈ l, f k = some b ∧ (∀ j ∈ l, j < k → f j = none) ∧
        (l.toFinset.filter (· < k)).card < cap := by
  induction l generalizing cap with
  | nil => simp
  | cons a l ih =>
    obtain ⟨ha, hl⟩ := List.pairwise_cons.mp hl
    cases cap with
    | zero => simp
    | succ n =>
      rw [List.take_succ_cons, List.findSome?_cons]
      cases hf : f a with
      | some c =>
        constructor
        · rintro ⟨⟩
          refine ⟨a, List.mem_cons_self, hf, fun j hj hlt => ?_, ?_⟩
          · rcases List.mem_cons.mp hj with rfl | hj
            · exact absurd hlt (lt_irrefl _)
            · exact absurd hlt (ha j hj).not_gt
          · rw [card_before_head ha]
            exact Nat.succ_pos n
        · rintro ⟨k, hk, hkf, hbefore, -⟩
          rcases List.mem_cons.mp hk with rfl | hk
          · exact hf.symm.trans hkf
          · have hnone := hbefore a List.mem_cons_self (ha k hk)
            rw [hf] at hnone
            cases hnone
      | none =>
        dsimp only
        rw [ih hl]
        constructor
        · rintro ⟨k, hk, hkf, hbefore, hcap⟩
          refine ⟨k, List.mem_cons_of_mem a hk, hkf, fun j hj hlt => ?_, ?_⟩
          · rcases List.mem_cons.mp hj with rfl | hj
            · exact hf
            · exact hbefore j hj hlt
          · rw [card_before_cons ha hk]
            exact Nat.succ_lt_succ hcap
        · rintro ⟨k, hk, hkf, hbefore, hcap⟩
          rcases List.mem_cons.mp hk with rfl | hk
          · rw [hf] at hkf
            cases hkf
          · rw [card_before_cons ha hk] at hcap
            exact ⟨k, hk, hkf, fun j hj => hbefore j (List.mem_cons_of_mem a hj),
              Nat.lt_of_succ_lt_succ hcap⟩

end Shelf

end AgentDaemon
