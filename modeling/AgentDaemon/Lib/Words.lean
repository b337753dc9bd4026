/-!
The words of a list: the pieces between its separators that are not empty. Where two lists are put
together, only the last piece of one and the first of the other meet (`splitOnP_append`).
-/

namespace AgentDaemon.Words

variable {α : Type} {p : α → Bool}

def words (p : α → Bool) (l : List α) : List (List α) := (l.splitOnP p).filter (!·.isEmpty)

/-! ## Pieces -/

theorem splitOnP_append (x y : List α) :
    ∃ before last first later, x.splitOnP p = before ++ [last] ∧ y.splitOnP p = first :: later ∧
      (x ++ y).splitOnP p = before ++ (last ++ first) :: later := by
  induction x with
  | nil =>
    obtain ⟨first, later, hy⟩ := List.exists_cons_of_ne_nil (List.splitOnP_ne_nil p y)
    exact ⟨[], [], first, later, rfl, hy, hy⟩
  | cons c x ih =>
    obtain ⟨before, last, first, later, hx, hy, hxy⟩ := ih
    rw [List.cons_append, List.splitOnP_cons_eq_if_modifyHead, List.splitOnP_cons_eq_if_modifyHead,
      hx, hxy]
    by_cases hc : p c = true
    · exact ⟨[] :: before, last, first, later, by simp [hc], hy, by simp [hc]⟩
    · cases before with
      | nil => exact ⟨[], c :: last, first, later, by simp [hc], hy, by simp [hc]⟩
      | cons piece before =>
        exact ⟨(c :: piece) :: before, last, first, later, by simp [hc], hy, by simp [hc]⟩

/-- What is put behind a list adds to its last piece at most. -/
theorem splitOnP_behind {x : List α} {before : List (List α)} {last : List α}
    (hx : x.splitOnP p = before ++ [last]) (c : α) (y : List α) :
    ∃ more later, (x ++ c :: y).splitOnP p = before ++ (last ++ more) :: later ∧
      (more = [] ∨ ∃ rest, more = c :: rest) := by
  obtain ⟨before', last', first, later, hx', hy, hxy⟩ := splitOnP_append (p := p) x (c :: y)
  obtain ⟨rfl, hlast⟩ := List.append_inj' (hx.symm.trans hx') rfl
  cases hlast
  refine ⟨first, later, hxy, ?_⟩
  rw [List.splitOnP_cons_eq_if_modifyHead] at hy
  split at hy
  · cases hy
    exact .inl rfl
  · obtain ⟨piece, rest, hrest⟩ := List.exists_cons_of_ne_nil (List.splitOnP_ne_nil p y)
    rw [hrest] at hy
    cases hy
    exact .inr ⟨piece, rfl⟩

/-- What is put before a list adds to its first piece at most. -/
theorem splitOnP_before {x : List α} {first : List α} {later : List (List α)}
    (hx : x.splitOnP p = first :: later) (y : List α) (c : α) :
    ∃ before more, (y ++ c :: x).splitOnP p = before ++ (more ++ first) :: later ∧
      (more = [] ∨ ∃ rest, more = rest ++ [c]) := by
  obtain ⟨before, last, first', later', hy, hx', hxy⟩ := splitOnP_append (p := p) (y ++ [c]) x
  cases hx.symm.trans hx'
  refine ⟨before, last, by simpa using hxy, ?_⟩
  by_cases hc : p c = true
  · rw [List.splitOnP_append_cons y [] hc, List.splitOnP_nil] at hy
    obtain ⟨-, hlast⟩ := List.append_inj' hy rfl
    cases hlast
    exact .inl rfl
  · obtain ⟨before', last', first', later', -, hc', hyc⟩ := splitOnP_append (p := p) y [c]
    have hsingle : [c].splitOnP p = [[c]] := List.splitOnP_eq_singleton (by simpa using hc)
    cases hc'.symm.trans hsingle
    obtain ⟨-, hlast⟩ := List.append_inj' (hy.symm.trans hyc) rfl
    cases hlast
    exact .inr ⟨last', rfl⟩

theorem not_mem_piece {l piece : List α} (h : piece ∈ l.splitOnP p) : ∀ c ∈ piece, p c = false := by
  induction l generalizing piece with
  | nil =>
    cases List.mem_singleton.mp h
    nofun
  | cons c l ih =>
    rw [List.splitOnP_cons_eq_if_modifyHead] at h
    split at h
    · rcases List.mem_cons.mp h with rfl | h
      · nofun
      · exact ih h
    · rename_i hc
      obtain ⟨first, later, hl⟩ := List.exists_cons_of_ne_nil (List.splitOnP_ne_nil p l)
      rw [hl] at h ih
      rcases List.mem_cons.mp h with rfl | h
      · intro d hd
        rcases List.mem_cons.mp hd with rfl | hd
        · exact Bool.eq_false_iff.mpr hc
        · exact ih List.mem_cons_self d hd
      · exact ih (List.mem_cons_of_mem _ h)

/-! ## Words -/

theorem mem_words {l word : List α} : word ∈ words p l ↔ word ∈ l.splitOnP p ∧ word ≠ [] := by
  simp [words, List.mem_filter]

/-- Nothing but the separators is lost. -/
theorem flatten_words (l : List α) : (words p l).flatten = l.filter (!p ·) := by
  have hpieces : ∀ l : List α, (l.splitOnP p).flatten = l.filter (!p ·) := by
    intro l
    induction l with
    | nil => rfl
    | cons c l ih =>
      rw [List.splitOnP_cons_eq_if_modifyHead]
      cases hc : p c with
      | true => simp [hc, ih]
      | false =>
        obtain ⟨first, later, hl⟩ := List.exists_cons_of_ne_nil (List.splitOnP_ne_nil p l)
        rw [hl] at ih ⊢
        simpa [hc] using ih
  rw [← hpieces l, words]
  generalize l.splitOnP p = pieces
  induction pieces with
  | nil => rfl
  | cons piece pieces ih => cases piece <;> simp [ih]

theorem splitOnP_map {q : α → Bool} {f : α → α} (hf : ∀ c, q (f c) = p c) (l : List α) :
    (l.map f).splitOnP q = (l.splitOnP p).map (List.map f) := by
  induction l with
  | nil => rfl
  | cons c l ih =>
    rw [List.map_cons, List.splitOnP_cons_eq_if_modifyHead, List.splitOnP_cons_eq_if_modifyHead, hf,
      ih]
    by_cases hc : p c = true
    · simp [hc]
    · cases l.splitOnP p <;> simp [hc]

theorem words_map {f : α → α} (hf : ∀ c, p (f c) = p c) (l : List α) :
    words p (l.map f) = (words p l).map (List.map f) := by
  rw [words, splitOnP_map hf, words, List.filter_map]
  congr 1
  refine List.filter_congr fun piece _ => ?_
  simp

/-! ## Words put together -/

theorem intercalate_cons (sep word : List α) (ws : List (List α)) :
    sep.intercalate (word :: ws) = word ++ ws.flatMap (sep ++ ·) := by
  induction ws generalizing word with
  | nil => simp
  | cons next ws ih =>
    rw [List.intercalate_cons_cons, ih, List.flatMap_cons, List.append_assoc, List.append_assoc]

theorem intercalate_append {sep : List α} {ws : List (List α)} (h : ws ≠ []) (more : List (List α)) :
    sep.intercalate (ws ++ more) = sep.intercalate ws ++ more.flatMap (sep ++ ·) := by
  obtain ⟨word, ws, rfl⟩ := List.exists_cons_of_ne_nil h
  simp [intercalate_cons]

theorem map_intercalate (f : α → α) (sep : List α) (ws : List (List α)) :
    (sep.intercalate ws).map f = (sep.map f).intercalate (ws.map (List.map f)) := by
  cases ws with
  | nil => rfl
  | cons word ws => simp [intercalate_cons, List.map_flatMap, List.flatMap_map]

/-- A word that is made longer. -/
theorem intercalate_glue (sep : List α) (before : List (List α)) (last more : List α)
    (later : List (List α)) :
    sep.intercalate (before ++ (last ++ more) :: later) =
      sep.intercalate (before ++ [last]) ++ (more ++ later.flatMap (sep ++ ·)) := by
  cases before with
  | nil => simp [intercalate_cons]
  | cons word before => simp [intercalate_cons]

theorem append_intercalate {sep : List α} {ws : List (List α)} (h : ws ≠ [])
    (less : List (List α)) :
    sep.intercalate (less ++ ws) = less.flatMap (· ++ sep) ++ sep.intercalate ws := by
  obtain ⟨word, ws, rfl⟩ := List.exists_cons_of_ne_nil h
  induction less with
  | nil => rfl
  | cons first less ih =>
    have hne : less ++ word :: ws ≠ [] := by simp
    obtain ⟨next, rest, hrest⟩ := List.exists_cons_of_ne_nil hne
    rw [List.cons_append, hrest, List.intercalate_cons_cons, ← hrest, ih, List.flatMap_cons,
      List.append_assoc, List.append_assoc, List.append_assoc]

theorem glue_intercalate (sep : List α) (before : List (List α)) (more first : List α)
    (later : List (List α)) :
    sep.intercalate (before ++ (more ++ first) :: later) =
      before.flatMap (· ++ sep) ++ more ++ sep.intercalate (first :: later) := by
  rw [append_intercalate (by simp), intercalate_cons, intercalate_cons, List.append_assoc,
    List.append_assoc]

/-- Words are found again. -/
theorem words_intercalate {s : α} (hs : p s = true) {ws : List (List α)}
    (h : ∀ word ∈ ws, word ≠ [] ∧ ∀ c ∈ word, p c = false) :
    words p ([s].intercalate ws) = ws := by
  induction ws with
  | nil => rfl
  | cons word ws ih =>
    obtain ⟨⟨hne, hword⟩, hws⟩ := List.forall_mem_cons.mp h
    have hempty : word.isEmpty = false := by simpa using hne
    cases ws with
    | nil => simp [words, List.splitOnP_eq_singleton hword, hempty]
    | cons next ws =>
      have hrest := ih hws
      rw [words] at hrest ⊢
      rw [List.intercalate_cons_cons, List.append_assoc, List.singleton_append,
        List.splitOnP_append_cons_of_forall_mem hword s hs, List.filter_cons_of_pos (by simp [hempty]),
        hrest]

/-- The separators between words are all that they lack. -/
theorem filter_intercalate {s : α} (hs : p s = true) {ws : List (List α)}
    (h : ∀ word ∈ ws, ∀ c ∈ word, p c = false) :
    ([s].intercalate ws).filter (!p ·) = ws.flatten := by
  induction ws with
  | nil => rfl
  | cons word ws ih =>
    obtain ⟨hword, hws⟩ := List.forall_mem_cons.mp h
    have hself : word.filter (!p ·) = word :=
      List.filter_eq_self.mpr fun c hc => by simp [hword c hc]
    cases ws with
    | nil => simp [hself]
    | cons next ws =>
      rw [List.intercalate_cons_cons, List.filter_append, List.filter_append, hself, ih hws]
      simp [hs]

end AgentDaemon.Words
