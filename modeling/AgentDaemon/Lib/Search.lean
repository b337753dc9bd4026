import Mathlib.Data.List.Infix

/-!
Searching a text for a pattern: where it occurs, how many matches a scan from the left counts when
it goes on behind each match, and what the scan makes of the text when it replaces them. One
induction (`scan_cases`) splits a text at its first match; a scan that counts one match has found
the only occurrence unless two occurrences overlap (`only_of_matchCount`).
-/

namespace AgentDaemon.Search

variable {α : Type}

/-! ## Occurrences -/

/-- The pattern stands in the text at `i`. -/
def OccursAt (pattern text : List α) (i : Nat) : Prop := pattern <+: text.drop i

theorem occursAt_nil {pattern : List α} (hp : pattern ≠ []) (i : Nat) :
    ¬ OccursAt pattern [] i := by
  intro h
  rw [OccursAt, List.drop_nil, List.prefix_nil] at h
  exact hp h

theorem occursAt_zero {pattern text : List α} : OccursAt pattern text 0 ↔ pattern <+: text := by
  rw [OccursAt, List.drop_zero]

theorem occursAt_succ {pattern text : List α} {c : α} {i : Nat} :
    OccursAt pattern (c :: text) (i + 1) ↔ OccursAt pattern text i := by
  rw [OccursAt, List.drop_succ_cons, OccursAt]

/-- The text up to its first match and behind it. -/
structure First (pattern text before rest : List α) : Prop where
  eq : text = before ++ pattern ++ rest
  first : ∀ i, i < before.length → ¬ OccursAt pattern text i

theorem First.occurs {pattern text before rest : List α} (h : First pattern text before rest) :
    OccursAt pattern text before.length := by
  rw [OccursAt, h.eq, List.append_assoc, List.drop_left]
  exact List.prefix_append pattern rest

/-- Behind the first match the text goes on. -/
theorem First.occursAt_add {pattern text before rest : List α} (h : First pattern text before rest)
    (i : Nat) : OccursAt pattern text (before.length + pattern.length + i) ↔
      OccursAt pattern rest i := by
  rw [OccursAt, h.eq, ← List.length_append, ← List.drop_drop, List.drop_left, OccursAt]

theorem First.unique {pattern text before rest before' rest' : List α}
    (h : First pattern text before rest) (h' : First pattern text before' rest') :
    before = before' ∧ rest = rest' := by
  have hlen : before.length = before'.length := by
    rcases Nat.lt_trichotomy before.length before'.length with hlt | heq | hgt
    · exact absurd h.occurs (h'.first _ hlt)
    · exact heq
    · exact absurd h'.occurs (h.first _ hgt)
  have heq : before ++ (pattern ++ rest) = before' ++ (pattern ++ rest') := by
    rw [← List.append_assoc, ← List.append_assoc, ← h.eq, ← h'.eq]
  obtain ⟨hbefore, hafter⟩ := List.append_inj heq hlen
  exact ⟨hbefore, List.append_cancel_left hafter⟩

/-- The text with its matches replaced from left to right, each sought behind the one before. -/
inductive Replaces (pattern new : List α) : List α → List α → Prop
  | none {text : List α} (h : ∀ i, ¬ OccursAt pattern text i) : Replaces pattern new text text
  | next {text before rest rest' : List α} (hfirst : First pattern text before rest)
      (h : Replaces pattern new rest rest') : Replaces pattern new text (before ++ new ++ rest')

/-- The pattern stands in the text at `i` and nowhere else. -/
def Only (pattern text : List α) (i : Nat) : Prop := ∀ j, OccursAt pattern text j ↔ j = i

/-- No two occurrences share an element. -/
def Disjoint (pattern text : List α) : Prop :=
  ∀ i j, i < j → OccursAt pattern text i → OccursAt pattern text j → i + pattern.length ≤ j

theorem Only.disjoint {pattern text : List α} {i : Nat} (h : Only pattern text i) :
    Disjoint pattern text := by
  intro j k hjk hj hk
  have hj' := (h j).mp hj
  have hk' := (h k).mp hk
  omega

/-- Only places inside the text have to be looked at. -/
theorem disjoint_iff {pattern text : List α} : Disjoint pattern text ↔
    ∀ j, j < text.length → ∀ i, i < j → OccursAt pattern text i → OccursAt pattern text j →
      i + pattern.length ≤ j := by
  constructor
  · exact fun h j _ i hij hi hj => h i j hij hi hj
  · intro h i j hij hi hj
    by_cases hlt : j < text.length
    · exact h j hlt i hij hi hj
    · rw [OccursAt, List.drop_eq_nil_of_le (Nat.le_of_not_lt hlt), List.prefix_nil] at hj
      simp [hj]
      omega

variable [DecidableEq α]

instance (pattern text : List α) (i : Nat) : Decidable (OccursAt pattern text i) :=
  inferInstanceAs (Decidable (pattern <+: text.drop i))

instance (pattern text : List α) : Decidable (Disjoint pattern text) :=
  decidable_of_iff _ disjoint_iff.symm

/-! ## Scans -/

/-- The matches of a scan that has `skip` more elements of a match before it. -/
def matchCount (pattern : List α) : (skip : Nat) → List α → Nat
  | _, [] => 0
  | skip + 1, _ :: text => matchCount pattern skip text
  | 0, c :: text =>
    if pattern <+: c :: text then matchCount pattern (pattern.length - 1) text + 1
    else matchCount pattern 0 text

/-- What a scan makes of the text when it replaces every match. -/
def replaceAll (pattern new : List α) : (skip : Nat) → List α → List α
  | _, [] => []
  | skip + 1, _ :: text => replaceAll pattern new skip text
  | 0, c :: text =>
    if pattern <+: c :: text then new ++ replaceAll pattern new (pattern.length - 1) text
    else c :: replaceAll pattern new 0 text

/-- What it makes of the text when it replaces the first match. -/
def replaceFirst (pattern new : List α) : List α → List α
  | [] => []
  | c :: text =>
    if pattern <+: c :: text then new ++ (c :: text).drop pattern.length
    else c :: replaceFirst pattern new text

theorem matchCount_skip (pattern : List α) (skip : Nat) (text : List α) :
    matchCount pattern skip text = matchCount pattern 0 (text.drop skip) := by
  induction text generalizing skip with
  | nil => cases skip <;> simp [matchCount]
  | cons c text ih =>
    cases skip with
    | zero => rfl
    | succ skip => rw [matchCount, ih, List.drop_succ_cons]

theorem replaceAll_skip (pattern new : List α) (skip : Nat) (text : List α) :
    replaceAll pattern new skip text = replaceAll pattern new 0 (text.drop skip) := by
  induction text generalizing skip with
  | nil => cases skip <;> simp [replaceAll]
  | cons c text ih =>
    cases skip with
    | zero => rfl
    | succ skip => rw [replaceAll, ih, List.drop_succ_cons]

/-- A scan goes past everything, or it stops at the first match and starts anew behind it. -/
theorem scan_cases {pattern : List α} (hp : pattern ≠ []) (new text : List α) :
    ((∀ i, ¬ OccursAt pattern text i) ∧ matchCount pattern 0 text = 0 ∧
      replaceAll pattern new 0 text = text ∧ replaceFirst pattern new text = text) ∨
    ∃ before rest, First pattern text before rest ∧
      matchCount pattern 0 text = matchCount pattern 0 rest + 1 ∧
      replaceAll pattern new 0 text = before ++ new ++ replaceAll pattern new 0 rest ∧
      replaceFirst pattern new text = before ++ new ++ rest := by
  induction text with
  | nil => exact .inl ⟨occursAt_nil hp, rfl, rfl, rfl⟩
  | cons c text ih =>
    by_cases hhere : pattern <+: c :: text
    · obtain ⟨rest, hrest⟩ := hhere
      obtain ⟨d, pattern, rfl⟩ := List.exists_cons_of_ne_nil hp
      have htail : text = pattern ++ rest := (List.cons.inj hrest).2.symm
      have hdrop : text.drop ((d :: pattern).length - 1) = rest := by
        rw [htail, List.length_cons, Nat.add_sub_cancel, List.drop_left]
      have hdrop' : (c :: text).drop (d :: pattern).length = rest := by
        rw [← hrest, List.drop_left]
      have hmatch : d :: pattern <+: c :: text := ⟨rest, hrest⟩
      refine .inr ⟨[], rest, ⟨hrest.symm, fun i hi => absurd hi (Nat.not_lt_zero i)⟩, ?_, ?_, ?_⟩
      · rw [matchCount, if_pos hmatch, matchCount_skip, hdrop]
      · rw [replaceAll, if_pos hmatch, replaceAll_skip, hdrop, List.nil_append]
      · rw [replaceFirst, if_pos hmatch, hdrop', List.nil_append]
    · rcases ih with ⟨hnone, hcount, hall, hone⟩ | ⟨before, rest, hfirst, hcount, hall, hone⟩
      · refine .inl ⟨fun i hi => ?_, ?_, ?_, ?_⟩
        · cases i with
          | zero => exact hhere (occursAt_zero.mp hi)
          | succ i => exact hnone i (occursAt_succ.mp hi)
        · rw [matchCount, if_neg hhere, hcount]
        · rw [replaceAll, if_neg hhere, hall]
        · rw [replaceFirst, if_neg hhere, hone]
      · refine .inr ⟨c :: before, rest, ⟨?_, fun i hi => ?_⟩, ?_, ?_, ?_⟩
        · rw [hfirst.eq]
          rfl
        · cases i with
          | zero => exact fun h => hhere (occursAt_zero.mp h)
          | succ i => exact fun h => hfirst.first i (Nat.lt_of_succ_lt_succ hi) (occursAt_succ.mp h)
        · rw [matchCount, if_neg hhere, hcount]
        · rw [replaceAll, if_neg hhere, hall]
          rfl
        · rw [replaceFirst, if_neg hhere, hone]
          rfl

theorem replaces_replaceAll {pattern : List α} (hp : pattern ≠ []) (new : List α) (n : Nat)
    (text : List α) (hn : text.length ≤ n) :
    Replaces pattern new text (replaceAll pattern new 0 text) := by
  induction n generalizing text with
  | zero =>
    rw [List.eq_nil_of_length_eq_zero (Nat.le_zero.mp hn)]
    exact .none (occursAt_nil hp)
  | succ n ih =>
    rcases scan_cases hp new text with ⟨hnone, -, hall, -⟩ | ⟨before, rest, hfirst, -, hall, -⟩
    · rw [hall]
      exact .none hnone
    · rw [hall]
      refine .next hfirst (ih rest ?_)
      have hpos := List.length_pos_of_ne_nil hp
      rw [hfirst.eq, List.length_append, List.length_append] at hn
      omega

theorem replaces_iff {pattern : List α} (hp : pattern ≠ []) {new text text' : List α} :
    Replaces pattern new text text' ↔ text' = replaceAll pattern new 0 text := by
  constructor
  · intro h
    induction h with
    | @none text hnone =>
      rcases scan_cases hp new text with ⟨-, -, hall, -⟩ | ⟨before, rest, hfirst, -⟩
      · exact hall.symm
      · exact absurd hfirst.occurs (hnone _)
    | @next text before rest rest' hfirst _ ih =>
      rcases scan_cases hp new text with ⟨hnone, -⟩ | ⟨before', rest₂, hfirst', -, hall, -⟩
      · exact absurd hfirst.occurs (hnone _)
      · obtain ⟨rfl, rfl⟩ := hfirst.unique hfirst'
        rw [hall, ih]
  · rintro rfl
    exact replaces_replaceAll hp new text.length text (Nat.le_refl _)

/-- A scan that counts one match has found the only occurrence, unless two of them overlap. -/
theorem only_of_matchCount {pattern : List α} (hp : pattern ≠ []) {text : List α}
    (hcount : matchCount pattern 0 text = 1) (hdisjoint : Disjoint pattern text) (new : List α) :
    ∃ i, Only pattern text i ∧
      replaceFirst pattern new text = text.take i ++ new ++ text.drop (i + pattern.length) := by
  rcases scan_cases hp new text with ⟨-, hzero, -⟩ | ⟨before, rest, hfirst, hnext, -, hone⟩
  · rw [hzero] at hcount
    cases hcount
  refine ⟨before.length, fun j => ⟨fun hj => ?_, fun hj => hj ▸ hfirst.occurs⟩, ?_⟩
  · rcases Nat.lt_trichotomy j before.length with hlt | heq | hgt
    · exact absurd hj (hfirst.first j hlt)
    · exact heq
    · exfalso
      have hfar := hdisjoint _ j hgt hfirst.occurs hj
      obtain ⟨k, rfl⟩ := Nat.exists_eq_add_of_le hfar
      have hk := (hfirst.occursAt_add k).mp hj
      rcases scan_cases hp new rest with ⟨hnone, -⟩ | ⟨before', rest', -, hmore, -⟩
      · exact hnone k hk
      · omega
  · have htake : text.take before.length = before := by
      rw [hfirst.eq, List.append_assoc, List.take_left]
    have hdrop : text.drop (before.length + pattern.length) = rest := by
      rw [hfirst.eq, ← List.length_append, List.drop_left]
    rw [hone, htake, hdrop]

end AgentDaemon.Search
