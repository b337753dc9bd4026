import Mathlib.Logic.Relation

/-!
Transition systems given by a total function `next : σ → α → σ` on states and labels; a label
that is not enabled leaves the state as it is. `after` runs a list of labels, `Along G` says
that every step of the run meets `G` in the state it starts from, and `after_induct` is the
rule that lifts a step lemma to whole runs.
-/

namespace AgentDaemon.Transition

variable {σ α β : Type} (next : σ → α → σ)

/-- The state after a run. -/
def after (s : σ) (l : List α) : σ := l.foldl next s

/-- Every step of the run meets `G` in the state before it. -/
def Along (G : σ → α → Prop) : σ → List α → Prop
  | _, [] => True
  | s, a :: as => G s a ∧ Along G (next s a) as

instance decidableAlong (next : σ → α → σ) (G : σ → α → Prop) [∀ s a, Decidable (G s a)] :
    ∀ s l, Decidable (Along next G s l)
  | _, [] => isTrue trivial
  | s, a :: as =>
    have := decidableAlong next G (next s a) as
    inferInstanceAs (Decidable (G s a ∧ Along next G (next s a) as))

variable {next}

@[simp] theorem after_nil (s : σ) : after next s [] = s := rfl

@[simp] theorem after_cons (s : σ) (a : α) (l : List α) :
    after next s (a :: l) = after next (next s a) l := rfl

@[simp] theorem after_append (s : σ) (l m : List α) :
    after next s (l ++ m) = after next (after next s l) m := by
  simp [after]

theorem along_append {G : σ → α → Prop} {s : σ} {l m : List α} :
    Along next G s (l ++ m) ↔ Along next G s l ∧ Along next G (after next s l) m := by
  induction l generalizing s with
  | nil => simp [Along]
  | cons a l ih => simp [Along, ih, and_assoc]

theorem along_true (s : σ) (l : List α) : Along next (fun _ _ => True) s l := by
  induction l generalizing s with
  | nil => trivial
  | cons a l ih => exact ⟨trivial, ih _⟩

/-- A condition may be replaced by one that holds wherever it does. -/
theorem along_mono {G H : σ → α → Prop} {s : σ} {l : List α} (hl : Along next G s l)
    (h : ∀ s a, a ∈ l → G s a → H s a) : Along next H s l := by
  induction l generalizing s with
  | nil => trivial
  | cons a l ih =>
    exact ⟨h s a List.mem_cons_self hl.1, ih hl.2 fun s b hb => h s b (List.mem_cons_of_mem _ hb)⟩

/-- The steps of a run, each with the run before it. -/
theorem along_iff {G : σ → α → Prop} {s : σ} {l : List α} :
    Along next G s l ↔ ∀ pre a post, l = pre ++ a :: post → G (after next s pre) a := by
  constructor
  · rintro h pre a post rfl
    exact (along_append.mp h).2.1
  · intro h
    induction l generalizing s with
    | nil => trivial
    | cons a l ih =>
      refine ⟨h [] a l rfl, ih ?_⟩
      intro pre b post e
      exact h (a :: pre) b post (by rw [e]; rfl)

/-- **Run rule.** What every guarded step preserves, every guarded run preserves. -/
theorem after_induct {G : σ → α → Prop} {I : σ → Prop}
    (hstep : ∀ s a, I s → G s a → I (next s a)) {s : σ} {l : List α} (hs : I s)
    (hl : Along next G s l) : I (after next s l) := by
  induction l generalizing s with
  | nil => exact hs
  | cons a l ih => exact ih (hstep s a hs hl.1) hl.2

/-- **Step rule.** Every step of a guarded run has what the invariant gives a guarded step. -/
theorem along_induct {G H : σ → α → Prop} {I : σ → Prop}
    (hstep : ∀ s a, I s → G s a → I (next s a)) (hout : ∀ s a, I s → G s a → H s a) {s : σ}
    {l : List α} (hs : I s) (hl : Along next G s l) : Along next H s l := by
  induction l generalizing s with
  | nil => trivial
  | cons a l ih => exact ⟨hout s a hs hl.1, ih (hstep s a hs hl.1) hl.2⟩

/-- **Exactness rule.** Where a guarded step keeps `I` and an unguarded one breaks it for good, a
run keeps `I` exactly if all its steps are guarded. -/
theorem after_iff_along {G : σ → α → Prop} {I B : σ → Prop}
    (hkeep : ∀ s a, I s → G s a → I (next s a)) (hbreak : ∀ s a, I s → ¬ G s a → B (next s a))
    (hstay : ∀ s a, B s → B (next s a)) (hB : ∀ s, B s → ¬ I s) {s : σ} (hs : I s) (l : List α) :
    I (after next s l) ↔ Along next G s l := by
  have hgone : ∀ s l, B s → B (after next s l) := fun s l hb =>
    after_induct (G := fun _ _ => True) (fun s a h _ => hstay s a h) hb (along_true s l)
  induction l generalizing s with
  | nil => exact iff_of_true hs trivial
  | cons a l ih =>
    rw [after_cons, Along]
    by_cases h : G s a
    · have hrest := ih (hkeep s a hs h)
      exact ⟨fun h' => ⟨h, hrest.mp h'⟩, fun h' => hrest.mpr h'.2⟩
    · exact iff_of_false (hB _ (hgone _ l (hbreak s a hs h))) fun h' => h h'.1

/-- **Prefix rule.** Where a guarded step keeps `P` and an unguarded one breaks it at once, `P` holds
all along a run exactly if all its steps are guarded; `I` is what every step keeps. -/
theorem forall_prefix_iff_along {G : σ → α → Prop} {I P : σ → Prop}
    (hinv : ∀ s a, I s → I (next s a)) (hkeep : ∀ s a, I s → P s → G s a → P (next s a))
    (hbreak : ∀ s a, I s → P s → ¬ G s a → ¬ P (next s a)) {s : σ} (hs : I s) (hp : P s)
    (l : List α) : (∀ pre, pre <+: l → P (after next s pre)) ↔ Along next G s l := by
  induction l generalizing s with
  | nil =>
    refine iff_of_true ?_ trivial
    intro pre hpre
    rw [List.prefix_nil.mp hpre]
    exact hp
  | cons a l ih =>
    rw [Along]
    by_cases h : G s a
    · have hrest := ih (hinv s a hs) (hkeep s a hs hp h)
      constructor
      · intro hall
        refine ⟨h, hrest.mp fun pre hpre => ?_⟩
        exact hall (a :: pre) (List.cons_prefix_cons.mpr ⟨rfl, hpre⟩)
      · rintro ⟨-, hl⟩ pre hpre
        cases pre with
        | nil => exact hp
        | cons b pre =>
          obtain ⟨rfl, hpre'⟩ := List.cons_prefix_cons.mp hpre
          exact hrest.mpr hl pre hpre'
    · refine iff_of_false (fun hall => ?_) fun hl => h hl.1
      exact hbreak s a hs hp h (hall [a] (List.cons_prefix_cons.mpr ⟨rfl, List.nil_prefix⟩))

/-- **Trail rule.** What every step keeps of a state and the states that were passed on the way to
it, every run keeps. -/
theorem trail_induct {I : List σ → σ → Prop}
    (hstep : ∀ past s a, I past s → I (past ++ [s]) (next s a)) {past : List σ} {s : σ}
    (hs : I past s) (l : List α) : ∃ passed, I (past ++ passed) (after next s l) ∧
      ∀ p ∈ passed, ∃ pre, pre <+: l ∧ p = after next s pre := by
  induction l generalizing past s with
  | nil =>
    refine ⟨[], ?_, by simp⟩
    rwa [List.append_nil]
  | cons a l ih =>
    obtain ⟨passed, hI, hpassed⟩ := ih (hstep past s a hs)
    refine ⟨s :: passed, ?_, fun p hp => ?_⟩
    · rwa [List.append_assoc] at hI
    · rcases List.mem_cons.mp hp with rfl | hp
      · exact ⟨[], List.nil_prefix, rfl⟩
      · obtain ⟨pre, hpre, rfl⟩ := hpassed p hp
        exact ⟨a :: pre, List.cons_prefix_cons.mpr ⟨rfl, hpre⟩, rfl⟩

/-- What the steps of a run give out. -/
def outputs (next : σ → α → σ) (out : σ → α → Option β) : σ → List α → List β
  | _, [] => []
  | s, a :: as => (out s a).toList ++ outputs next out (next s a) as

/-- What an output inherits from the label of its step. -/
theorem outputs_forall {out : σ → α → Option β} {P : β → Prop} {l : List α}
    (h : ∀ s, ∀ a ∈ l, ∀ b, out s a = some b → P b) (s : σ) : ∀ b ∈ outputs next out s l, P b := by
  induction l generalizing s with
  | nil => simp [outputs]
  | cons a l ih =>
    intro b hb
    rcases List.mem_append.mp hb with hb | hb
    · exact h s a List.mem_cons_self b (by simpa using hb)
    · exact ih (fun s a ha => h s a (List.mem_cons_of_mem _ ha)) (next s a) b hb

/-- What all outputs have, as a condition on the steps. -/
theorem outputs_forall_iff_along {out : σ → α → Option β} {P : β → Prop} {s : σ} {l : List α} :
    (∀ b ∈ outputs next out s l, P b) ↔ Along next (fun s a => ∀ b, out s a = some b → P b) s l := by
  induction l generalizing s with
  | nil => exact iff_of_true nofun trivial
  | cons a l ih => simp [outputs, Along, ← ih, or_imp, forall_and]

/-- What two outputs inherit from the labels of their steps. -/
theorem outputs_pairwise {out : σ → α → Option β} {R : α → α → Prop} {Q : β → β → Prop}
    {l : List α} (hl : l.Pairwise R)
    (h : ∀ a a', R a a' → ∀ s b s' b', out s a = some b → out s' a' = some b' → Q b b') (s : σ) :
    (outputs next out s l).Pairwise Q := by
  induction l generalizing s with
  | nil => exact .nil
  | cons a l ih =>
    obtain ⟨ha, hl⟩ := List.pairwise_cons.mp hl
    rw [outputs]
    cases hb : out s a with
    | none => exact ih hl _
    | some b =>
      refine List.pairwise_cons.mpr ⟨?_, ih hl _⟩
      exact outputs_forall (fun s' a' ha' b' hb' => h a a' (ha a' ha') s b s' b' hb hb') _

/-- Number of steps of the run that meet `p` in the state they start from. -/
def countAlong (next : σ → α → σ) (p : σ → α → Bool) : σ → List α → Nat
  | _, [] => 0
  | s, a :: as => (if p s a then 1 else 0) + countAlong next p (next s a) as

private theorem countAlong_eq_zero {p : σ → α → Bool} {I D : σ → Prop}
    (hI : ∀ s a, I s → I (next s a)) (hD : ∀ s a, I s → D s → D (next s a))
    (hno : ∀ s a, I s → D s → p s a = false) {s : σ} (hs : I s) (hd : D s) (l : List α) :
    countAlong next p s l = 0 := by
  induction l generalizing s with
  | nil => rfl
  | cons a l ih => simp [countAlong, hno s a hs hd, ih (hI s a hs) (hD s a hs hd)]

/-- **At-most-once rule.** A step that closes the door behind it is taken at most once. -/
theorem countAlong_le_one {p : σ → α → Bool} {I D : σ → Prop} (hI : ∀ s a, I s → I (next s a))
    (hp : ∀ s a, I s → p s a = true → D (next s a)) (hD : ∀ s a, I s → D s → D (next s a))
    (hno : ∀ s a, I s → D s → p s a = false) {s : σ} (hs : I s) (l : List α) :
    countAlong next p s l ≤ 1 := by
  induction l generalizing s with
  | nil => exact Nat.zero_le _
  | cons a l ih =>
    rw [countAlong]
    by_cases h : p s a = true
    · rw [countAlong_eq_zero hI hD hno (hI s a hs) (hp s a hs h)]
      simp [h]
    · have := ih (hI s a hs)
      simp [h]
      exact this

/-- A property that no step of the run ends holds to its end, or fails first at some step. -/
theorem holds_or_first_failure {I : σ → Prop} {s : σ} {l : List α} (hs : I s) :
    I (after next s l) ∨ ∃ pre a post, l = pre ++ a :: post ∧ I (after next s pre) ∧
      ¬ I (after next s (pre ++ [a])) := by
  induction l generalizing s with
  | nil => exact .inl hs
  | cons a l ih =>
    by_cases h : I (next s a)
    · rcases ih h with h' | ⟨pre, b, post, rfl, hi, hn⟩
      · exact .inl h'
      · exact .inr ⟨a :: pre, b, post, rfl, hi, hn⟩
    · exact .inr ⟨[], a, l, rfl, hs, h⟩

/-- A relation along which a number grows has no cycle. -/
theorem acyclic_of_rank {α : Type} {R : α → α → Prop} (rank : α → Int)
    (h : ∀ a b, R a b → rank a < rank b) (a : α) : ¬ Relation.TransGen R a a := by
  intro hcycle
  have hlt := hcycle.lift (p := fun x y : Int => x < y) rank fun a b hab => h a b hab
  rw [Relation.transGen_eq_self] at hlt
  exact Int.lt_irrefl _ hlt

end AgentDaemon.Transition
