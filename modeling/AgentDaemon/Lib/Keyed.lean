import AgentDaemon.Lib.Slots
import Mathlib.Logic.Function.Basic

/-!
A table from keys to values that parties of a system share. A party holds its key from its start until
it has taken the key out, and is listed while the table has its value. As long as no two parties hold
one key, a party that is listed finds its value, whatever the others do (`Inv`).
-/

namespace AgentDaemon.Keyed

variable {α κ ν : Type}

/-- What the table says of a kind of parties. -/
structure Parties (α κ ν : Type) where
  key : α → κ
  value : α → ν
  holds : α → Prop
  listed : α → Prop
  holds_of_listed : ∀ a, listed a → holds a

/-- Every party that is listed has its value in the table, and no two hold the same key. -/
structure Inv (p : Parties α κ ν) (table : κ → Option ν) (l : List α) : Prop where
  mapped : ∀ a ∈ l, p.listed a → table (p.key a) = some (p.value a)
  apart : ∀ (i j : Nat) (a b : α), l[i]? = some a → l[j]? = some b → p.holds a → p.holds b →
    p.key a = p.key b → i = j

variable {p : Parties α κ ν} {table : κ → Option ν} {l : List α} {a : α} {f : α → α} {i : Nat}

theorem inv_nil (p : Parties α κ ν) (table : κ → Option ν) : Inv p table [] where
  mapped _ h := nomatch h
  apart _ _ _ _ h := nomatch h

theorem Inv.mapped_at (h : Inv p table l) {k : Nat} (ha : l[k]? = some a) (hlisted : p.listed a) :
    table (p.key a) = some (p.value a) := h.mapped a (List.mem_of_getElem? ha) hlisted

/-! ## One more party -/

/-- A party that starts holds a key that no other one does. -/
theorem Inv.apart_concat (h : Inv p table l)
    (hfresh : p.holds a → ∀ b ∈ l, p.holds b → p.key b ≠ p.key a) (i j : Nat) (b c : α)
    (hb : (l ++ [a])[i]? = some b) (hc : (l ++ [a])[j]? = some c) (hbh : p.holds b)
    (hch : p.holds c) (he : p.key b = p.key c) : i = j := by
  rcases Slots.of_concat hb with hi | ⟨hi, rfl⟩
  · rcases Slots.of_concat hc with hj | ⟨hj, rfl⟩
    · exact h.apart i j b c hi hj hbh hch he
    · exact absurd he (hfresh hch b (List.mem_of_getElem? hi) hbh)
  · rcases Slots.of_concat hc with hj | ⟨hj, rfl⟩
    · exact absurd he.symm (hfresh hbh c (List.mem_of_getElem? hj) hch)
    · exact hi.trans hj.symm

/-- A party that is not listed yet. -/
theorem Inv.concat (h : Inv p table l) (hout : ¬ p.listed a)
    (hfresh : p.holds a → ∀ b ∈ l, p.holds b → p.key b ≠ p.key a) : Inv p table (l ++ [a]) where
  mapped b hb hlisted := by
    rcases List.mem_append.mp hb with hb | hb
    · exact h.mapped b hb hlisted
    · rw [List.mem_singleton.mp hb] at hlisted
      exact absurd hlisted hout
  apart := h.apart_concat hfresh

/-- A party that is listed at once. -/
theorem Inv.concat_insert [DecidableEq κ] (h : Inv p table l)
    (hfresh : ∀ b ∈ l, p.holds b → p.key b ≠ p.key a) :
    Inv p (Function.update table (p.key a) (some (p.value a))) (l ++ [a]) where
  mapped b hb hlisted := by
    rcases List.mem_append.mp hb with hb | hb
    · rw [Function.update_of_ne (hfresh b hb (p.holds_of_listed b hlisted))]
      exact h.mapped b hb hlisted
    · rw [List.mem_singleton.mp hb, Function.update_self]
  apart := h.apart_concat fun _ => hfresh

/-! ## A party changes -/

section Changes


/-- The parties that hold a key after the change held it before. -/
theorem Inv.apart_modify (h : Inv p table l) (hkey : ∀ a, p.key (f a) = p.key a)
    (hholds : ∀ a, l[i]? = some a → p.holds (f a) → p.holds a) (j k : Nat) (b c : α)
    (hb : (l.modify i f)[j]? = some b) (hc : (l.modify i f)[k]? = some c) (hbh : p.holds b)
    (hch : p.holds c) (he : p.key b = p.key c) : j = k := by
  have hback : ∀ (k : Nat) (c : α), (l.modify i f)[k]? = some c → p.holds c →
      ∃ a, l[k]? = some a ∧ p.holds a ∧ p.key a = p.key c := by
    intro k c hc hch
    obtain ⟨a, ha, rfl⟩ := Slots.of_modify hc
    by_cases hk : k = i
    · subst hk
      rw [if_pos rfl] at hch ⊢
      exact ⟨a, ha, hholds a ha hch, (hkey a).symm⟩
    · rw [if_neg hk] at hch ⊢
      exact ⟨a, ha, hch, rfl⟩
  obtain ⟨b', hb', hbh', hbk⟩ := hback j b hb hbh
  obtain ⟨c', hc', hch', hck⟩ := hback k c hc hch
  exact h.apart j k b' c' hb' hc' hbh' hch' (hbk.trans (he.trans hck.symm))

/-- A party goes on with its key as it was. -/
theorem Inv.modify (h : Inv p table l) (hkey : ∀ a, p.key (f a) = p.key a)
    (hvalue : ∀ a, p.value (f a) = p.value a)
    (hholds : ∀ a, l[i]? = some a → p.holds (f a) → p.holds a)
    (hlisted : ∀ a, l[i]? = some a → p.listed (f a) → p.listed a) :
    Inv p table (l.modify i f) where
  mapped b hb hbl := by
    obtain ⟨k, hk⟩ := List.mem_iff_getElem?.mp hb
    obtain ⟨a, ha, rfl⟩ := Slots.of_modify hk
    by_cases hki : k = i
    · subst hki
      rw [if_pos rfl] at hbl ⊢
      rw [hkey, hvalue]
      exact h.mapped_at ha (hlisted a ha hbl)
    · rw [if_neg hki] at hbl ⊢
      exact h.mapped_at ha hbl
  apart := h.apart_modify hkey hholds

variable [DecidableEq κ]

/-- What another party finds is not changed under the key of this one. -/
theorem Inv.update_other (h : Inv p table l) {k : Nat} {b : α} (ha : l[i]? = some a)
    (hb : l[k]? = some b) (hne : k ≠ i) (hah : p.holds a) (hbl : p.listed b) (v : Option ν) :
    Function.update table (p.key a) v (p.key b) = some (p.value b) := by
  have hother : p.key b ≠ p.key a := fun he =>
    hne (h.apart k i b a hb ha (p.holds_of_listed b hbl) hah he)
  rw [Function.update_of_ne hother]
  exact h.mapped_at hb hbl

/-- A party that holds its key puts its value into the table. -/
theorem Inv.insert (h : Inv p table l) (ha : l[i]? = some a) (hah : p.holds a)
    (hkey : ∀ a, p.key (f a) = p.key a) (hvalue : ∀ a, p.value (f a) = p.value a) :
    Inv p (Function.update table (p.key a) (some (p.value a))) (l.modify i f) where
  mapped b hb hbl := by
    obtain ⟨k, hk⟩ := List.mem_iff_getElem?.mp hb
    obtain ⟨a', ha', rfl⟩ := Slots.of_modify hk
    by_cases hki : k = i
    · subst hki
      cases ha.symm.trans ha'
      rw [if_pos rfl, hkey, hvalue, Function.update_self]
    · rw [if_neg hki] at hbl ⊢
      exact h.update_other ha ha' hki hah hbl _
  apart := h.apart_modify hkey fun a' ha' _ => by
    cases ha.symm.trans ha'
    exact hah

/-- A party that takes its key out holds it no longer. -/
theorem Inv.erase (h : Inv p table l) (ha : l[i]? = some a) (hah : p.holds a)
    (hkey : ∀ a, p.key (f a) = p.key a) (hgone : ¬ p.holds (f a)) :
    Inv p (Function.update table (p.key a) none) (l.modify i f) where
  mapped b hb hbl := by
    obtain ⟨k, hk⟩ := List.mem_iff_getElem?.mp hb
    obtain ⟨a', ha', rfl⟩ := Slots.of_modify hk
    by_cases hki : k = i
    · subst hki
      cases ha.symm.trans ha'
      rw [if_pos rfl] at hbl
      exact absurd (p.holds_of_listed _ hbl) hgone
    · rw [if_neg hki] at hbl ⊢
      exact h.update_other ha ha' hki hah hbl _
  apart := h.apart_modify hkey fun a' ha' hh => by
    cases ha.symm.trans ha'
    exact absurd hh hgone

end Changes

end AgentDaemon.Keyed
