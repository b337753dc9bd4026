import Mathlib.Data.List.Nodup

/-!
Relational tables with a unique key. A table keeps its rows in insertion order and
carries the proof that no key occurs twice, so a row is determined by its key.
`insert` refuses a taken key (a constraint violation), `update` rewrites the rows that
satisfy a predicate and may not touch the key, and `filter` removes rows.
-/

namespace AgentDaemon

/-- Rows under the unique key `key`, oldest first. -/
structure Table {κ ρ : Type} (key : ρ → κ) where
  rows : List ρ
  nodup : (rows.map key).Nodup

namespace Table

variable {κ ρ : Type} {key : ρ → κ}

def empty : Table key := ⟨[], List.nodup_nil⟩

/-- Number of rows satisfying `p`. -/
def count (t : Table key) (p : ρ → Bool) : Nat := t.rows.countP p

/-- Rewrite by `f` the rows satisfying `p`. -/
def update (t : Table key) (p : ρ → Bool) (f : ρ → ρ)
    (hf : ∀ r, key (f r) = key r := by intro _; rfl) : Table key :=
  ⟨t.rows.map (fun r => if p r then f r else r), by
    have e : (t.rows.map (fun r => if p r then f r else r)).map key = t.rows.map key := by
      rw [List.map_map]
      apply List.map_congr_left
      intro r _
      simp only [Function.comp]
      split
      · exact hf r
      · rfl
    rw [e]
    exact t.nodup⟩

/-- Keep the rows that satisfy `p`. -/
def filter (t : Table key) (p : ρ → Bool) : Table key :=
  ⟨t.rows.filter p, t.nodup.sublist (List.filter_sublist.map key)⟩

@[simp] theorem rows_empty : (empty : Table key).rows = [] := rfl

@[simp] theorem rows_update (t : Table key) (p : ρ → Bool) (f : ρ → ρ)
    (hf : ∀ r, key (f r) = key r) :
    (t.update p f hf).rows = t.rows.map (fun r => if p r then f r else r) := rfl

/-- A projection that `f` does not change is not changed by an update. -/
theorem map_update_of_eq {β : Type} (t : Table key) (p : ρ → Bool) (f : ρ → ρ)
    (hf : ∀ r, key (f r) = key r) {view : ρ → β} (h : ∀ r, view (f r) = view r) :
    (t.update p f hf).rows.map view = t.rows.map view := by
  rw [rows_update, List.map_map]
  apply List.map_congr_left
  intro r _
  simp only [Function.comp]
  split
  · exact h r
  · rfl

/-- A projection turns an update of the rows into a map over the projected rows. -/
theorem map_update {β : Type} (t : Table key) (p : ρ → Bool) (f : ρ → ρ)
    (hf : ∀ r, key (f r) = key r) {view : ρ → β} {g : β → β}
    (h : ∀ r ∈ t.rows, view (if p r then f r else r) = g (view r)) :
    (t.update p f hf).rows.map view = (t.rows.map view).map g := by
  rw [rows_update, List.map_map, List.map_map]
  exact List.map_congr_left h

theorem update_eq_self (t : Table key) (p : ρ → Bool) (f : ρ → ρ) (hf : ∀ r, key (f r) = key r)
    (h : ∀ r ∈ t.rows, p r = false) : t.update p f hf = t := by
  have e : t.rows.map (fun r => if p r then f r else r) = t.rows := by
    conv_rhs => rw [← List.map_id t.rows]
    apply List.map_congr_left
    intro r hr
    simp [h r hr]
  obtain ⟨rows, nodup⟩ := t
  simp only [update, mk.injEq]
  exact e

/-- Two rows with one key are one row. -/
theorem eq_of_key_eq (t : Table key) {r r' : ρ} (hr : r ∈ t.rows) (hr' : r' ∈ t.rows)
    (h : key r = key r') : r = r' :=
  List.inj_on_of_nodup_map t.nodup hr hr' h

variable [DecidableEq κ]

/-- Select the row with key `k`. -/
def find? (t : Table key) (k : κ) : Option ρ := t.rows.find? (fun r => key r = k)

/-- Append a row; `none` when its key is taken. -/
def insert (t : Table key) (r : ρ) : Option (Table key) :=
  if h : key r ∈ t.rows.map key then none
  else some ⟨t.rows ++ [r], by
    rw [List.map_append, List.nodup_append]
    exact ⟨t.nodup, List.nodup_singleton _, by
      intro a ha b hb e
      simp at hb
      exact h (by rw [← hb, ← e]; exact ha)⟩⟩

@[simp] theorem find?_empty (k : κ) : (empty : Table key).find? k = none := rfl

theorem key_of_find? {t : Table key} {k : κ} {r : ρ} (h : t.find? k = some r) : key r = k := by
  simpa using List.find?_some h

theorem mem_of_find? {t : Table key} {k : κ} {r : ρ} (h : t.find? k = some r) : r ∈ t.rows :=
  List.mem_of_find?_eq_some h

theorem find?_of_mem {t : Table key} {r : ρ} (h : r ∈ t.rows) : t.find? (key r) = some r := by
  cases hf : t.find? (key r) with
  | none =>
    rw [find?, List.find?_eq_none] at hf
    have := hf r h
    simp at this
  | some x => rw [t.eq_of_key_eq (mem_of_find? hf) h (key_of_find? hf)]

theorem find?_eq_some_iff {t : Table key} {k : κ} {r : ρ} :
    t.find? k = some r ↔ r ∈ t.rows ∧ key r = k := by
  constructor
  · exact fun h => ⟨mem_of_find? h, key_of_find? h⟩
  · rintro ⟨h, rfl⟩
    exact find?_of_mem h

@[simp] theorem find?_update (t : Table key) (p : ρ → Bool) (f : ρ → ρ)
    (hf : ∀ r, key (f r) = key r) (k : κ) :
    (t.update p f hf).find? k = (t.find? k).map (fun r => if p r then f r else r) := by
  have hkey : ∀ r, key (if p r then f r else r) = key r := by
    intro r
    split
    · exact hf r
    · rfl
  simp only [find?, rows_update]
  induction t.rows with
  | nil => rfl
  | cons r rows ih =>
    simp only [List.map_cons, List.find?_cons, hkey]
    by_cases e : key r = k
    · simp [e]
    · simp only [e, decide_false]
      exact ih

theorem rows_insert {t t' : Table key} {r : ρ} (h : t.insert r = some t') :
    t'.rows = t.rows ++ [r] := by
  unfold insert at h
  split at h
  · cases h
  · cases h; rfl

theorem insert_fresh {t t' : Table key} {r : ρ} (h : t.insert r = some t') :
    t.find? (key r) = none := by
  unfold insert at h
  split at h
  · cases h
  · rename_i hn
    rw [find?, List.find?_eq_none]
    intro x hx e
    exact hn (List.mem_map.mpr ⟨x, hx, by simpa using e⟩)

theorem insert_of_fresh {t : Table key} {r : ρ} (h : t.find? (key r) = none) :
    ∃ t', t.insert r = some t' := by
  unfold insert
  split
  · rename_i hm
    obtain ⟨x, hx, e⟩ := List.mem_map.mp hm
    rw [find?, List.find?_eq_none] at h
    exact absurd (by simpa using e) (h x hx)
  · exact ⟨_, rfl⟩

/-- An insert is refused only for a row that has the key already. -/
theorem find?_of_insert_none {t : Table key} {r : ρ} (h : t.insert r = none) :
    ∃ x, t.find? (key r) = some x := by
  cases hf : t.find? (key r) with
  | some x => exact ⟨x, rfl⟩
  | none =>
    obtain ⟨t', ht⟩ := insert_of_fresh hf
    rw [h] at ht
    cases ht

theorem find?_insert {t t' : Table key} {r : ρ} (h : t.insert r = some t') (k : κ) :
    t'.find? k = if key r = k then some r else t.find? k := by
  have hn := insert_fresh h
  rw [find?, rows_insert h, List.find?_append]
  by_cases e : key r = k
  · subst e
    rw [find?] at hn
    simp [hn]
  · simp only [List.find?_singleton, e, decide_false, Bool.false_eq_true, ↓reduceIte]
    cases hf : t.rows.find? (fun r => decide (key r = k)) <;> simp [find?, hf]

theorem find?_insert_of_some {t t' : Table key} {r x : ρ} {k : κ} (h : t.insert r = some t')
    (hk : t.find? k = some x) : t'.find? k = some x := by
  rw [find?_insert h]
  split
  · rename_i e
    rw [← e, insert_fresh h] at hk
    cases hk
  · exact hk

/-- Taking out the keys of rows that have been appended leaves the table as it was. -/
theorem filter_of_append {t t' : Table key} {more : List ρ}
    (h : t'.rows = t.rows ++ more) : t'.filter (fun r => !(more.map key).contains (key r)) = t := by
  have hnd := t'.nodup
  rw [h, List.map_append, List.nodup_append] at hnd
  have hkept : t.rows.filter (fun r => !(more.map key).contains (key r)) = t.rows := by
    rw [List.filter_eq_self]
    intro r hr
    rw [Bool.not_eq_true', ← Bool.not_eq_true, List.contains_iff_mem]
    intro hm
    exact hnd.2.2 _ (List.mem_map_of_mem hr) _ hm rfl
  have hgone : more.filter (fun r => !(more.map key).contains (key r)) = [] := by
    rw [List.filter_eq_nil_iff]
    intro r hr
    rw [Bool.not_eq_true', Bool.not_eq_false, List.contains_iff_mem]
    exact List.mem_map_of_mem hr
  cases t
  simp only [filter, h, List.filter_append, mk.injEq]
  rw [hkept, hgone, List.append_nil]

/-- Under its key a row is counted at most once. -/
theorem count_key (t : Table key) (k : κ) (p : ρ → Bool) :
    t.count (fun r => key r = k && p r) = if (t.find? k).any p then 1 else 0 := by
  obtain ⟨rows, hnd⟩ := t
  simp only [count, find?]
  induction rows with
  | nil => rfl
  | cons r rows ih =>
    rw [List.map_cons, List.nodup_cons] at hnd
    by_cases e : key r = k
    · have hz : rows.countP (fun r => decide (key r = k) && p r) = 0 := by
        rw [List.countP_eq_zero]
        intro x hx hk
        simp only [Bool.and_eq_true, decide_eq_true_eq] at hk
        exact hnd.1 (List.mem_map.mpr ⟨x, hx, hk.1.trans e.symm⟩)
      simp [List.countP_cons, hz, e]
    · simp only [List.countP_cons, List.find?_cons, e, decide_false, Bool.false_and,
        Bool.false_eq_true, if_false, Nat.add_zero]
      exact ih hnd.2

theorem count_key_eq_one {t : Table key} {k : κ} {p : ρ → Bool} :
    t.count (fun r => key r = k && p r) = 1 ↔ ∃ r, t.find? k = some r ∧ p r = true := by
  rw [count_key]
  cases hf : t.find? k with
  | none => simp
  | some r => simp

/-- Where the count under a key is not one, the update under it changes nothing. -/
theorem update_of_count_ne_one {t : Table key} {k : κ} {p : ρ → Bool} {f : ρ → ρ}
    {hf : ∀ r, key (f r) = key r} (h : t.count (fun r => key r = k && p r) ≠ 1) :
    t.update (fun r => key r = k && p r) f hf = t := by
  apply update_eq_self
  intro r hr
  by_contra hne
  simp only [Bool.not_eq_false, Bool.and_eq_true, decide_eq_true_eq] at hne
  obtain ⟨rfl, hp⟩ := hne
  exact h (count_key_eq_one.mpr ⟨r, find?_of_mem hr, hp⟩)

end Table

/-! ## Rows side by side -/

theorem exists_of_mem_left {α β : Type} {R : α → β → Prop} {l : List α} {m : List β}
    (h : List.Forall₂ R l m) {a : α} (ha : a ∈ l) : ∃ b ∈ m, R a b := by
  induction h with
  | nil => cases ha
  | cons hab _ ih =>
    rcases List.mem_cons.mp ha with rfl | ha
    · exact ⟨_, List.mem_cons_self, hab⟩
    · obtain ⟨b, hb, hr⟩ := ih ha
      exact ⟨b, List.mem_cons_of_mem _ hb, hr⟩

theorem exists_of_mem_right {α β : Type} {R : α → β → Prop} {l : List α} {m : List β}
    (h : List.Forall₂ R l m) {b : β} (hb : b ∈ m) : ∃ a ∈ l, R a b :=
  exists_of_mem_left h.flip hb

theorem countP_le_of_forall₂ {α β : Type} {p : α → Bool} {q : β → Bool} {l : List α} {m : List β}
    (h : List.Forall₂ (fun a b => q b = true → p a = true) l m) : m.countP q ≤ l.countP p := by
  induction h with
  | nil => exact Nat.le_refl 0
  | @cons a b l m hab _ ih =>
    rw [List.countP_cons, List.countP_cons]
    by_cases hq : q b = true
    · rw [if_pos hq, if_pos (hab hq)]
      omega
    · rw [if_neg hq]
      omega

end AgentDaemon
