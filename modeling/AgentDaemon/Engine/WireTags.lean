import AgentDaemon.Engine.Assembler
import AgentDaemon.Provider.Openai

/-!
The deltas of an OpenAI stream as letters of their indices. An index is started with its first
fragment of arguments, or at the end of the stream where it has none (`startOrder_stream`), so the
starts come in the order of the indices just where no index overtakes a smaller one
(`pairwise_iff`).
-/

namespace AgentDaemon.Engine

open Provider Provider.Openai Automaton

/-! ## What the deltas say of an index -/

section Deltas

def deltaId (delta : StreamToolCall) : Option String := delta.id.filter (!·.isEmpty)

def deltaName (delta : StreamToolCall) : Option String :=
  (delta.function.getD {}).name.filter (!·.isEmpty)

def deltaArguments (delta : StreamToolCall) : Option String := (delta.function.getD {}).arguments

variable (deltas : List StreamToolCall) (i : Nat)

def ofIndex : List StreamToolCall := deltas.filter (·.index = i)

def givenId : Option String := (ofIndex deltas i).findSome? deltaId

def givenName : Option String := (ofIndex deltas i).findSome? deltaName

/-- The fragments of the arguments, in their order. -/
def fragments : List String := (ofIndex deltas i).filterMap deltaArguments

def Occurs : Prop := ∃ delta ∈ deltas, delta.index = i

end Deltas

/-- Before an index gets a fragment of its arguments, every smaller index has got one. -/
def InOrder (deltas : List StreamToolCall) : Prop :=
  ∀ pre delta post, deltas = pre ++ delta :: post → (deltaArguments delta).isSome = true →
    ∀ i, i < delta.index → Occurs deltas i → fragments pre i ≠ []

theorem inOrder_iff_take (deltas : List StreamToolCall) : InOrder deltas ↔
    ∀ (n : Nat) (h : n < deltas.length), (deltaArguments deltas[n]).isSome = true →
      ∀ i < deltas[n].index, Occurs deltas i → fragments (deltas.take n) i ≠ [] := by
  constructor
  · intro h n hn
    apply h (deltas.take n) deltas[n] (deltas.drop (n + 1))
    rw [← List.drop_eq_getElem_cons hn, List.take_append_drop]
  · rintro h pre delta post rfl
    simpa using h pre.length (by simp)

instance (deltas : List StreamToolCall) (i : Nat) : Decidable (Occurs deltas i) :=
  inferInstanceAs (Decidable (∃ delta ∈ deltas, delta.index = i))

instance (deltas : List StreamToolCall) : Decidable (InOrder deltas) :=
  decidable_of_iff' _ (inOrder_iff_take deltas)

/-! ## Events by their index -/

abbrev ownEvents (i : Nat) (tags : List (Nat × CallEvent)) : List CallEvent := own some i tags

section Tags

variable (name : Nat → String)

/-- The index is started, if it has not been. -/
def ensureTag (tags : List (Nat × CallEvent)) (i : Nat) : List (Nat × CallEvent) :=
  if ownEvents i tags = [] then tags ++ [(i, .started (name i))] else tags

def deltaTags (tags : List (Nat × CallEvent)) (delta : StreamToolCall) : List (Nat × CallEvent) :=
  match deltaArguments delta with
  | none => tags
  | some fragment => ensureTag name tags delta.index ++ [(delta.index, .append fragment)]

def completeTags (tags : List (Nat × CallEvent)) (i : Nat) : List (Nat × CallEvent) :=
  ensureTag name tags i ++ [(i, .completed)]

/-- The indices in the order in which they are started. -/
def startOrder (tags : List (Nat × CallEvent)) : List Nat :=
  tags.filterMap fun tag => match tag.2 with
    | .started _ => some tag.1
    | _ => none

variable {name} {tags : List (Nat × CallEvent)} {i k : Nat}

theorem ownEvents_ensure (i : Nat) : ownEvents i (ensureTag name tags i) =
    if ownEvents i tags = [] then [.started (name i)] else ownEvents i tags := by
  unfold ensureTag
  split
  · rename_i hnil
    rw [ownEvents, own_concat_self rfl, ← ownEvents, hnil]
    rfl
  · rfl

theorem ownEvents_ensure_ne (h : i ≠ k) : ownEvents k (ensureTag name tags i) = ownEvents k tags := by
  unfold ensureTag
  split
  · exact own_concat_ne rfl h tags
  · rfl

theorem startOrder_ensure : startOrder (ensureTag name tags i) =
    if ownEvents i tags = [] then startOrder tags ++ [i] else startOrder tags := by
  unfold ensureTag
  split
  · simp [startOrder]
  · rfl

theorem startOrder_concat {c : CallEvent} (h : ∀ name, c ≠ .started name) :
    startOrder (tags ++ [(i, c)]) = startOrder tags := by
  cases c with
  | started name => exact absurd rfl (h name)
  | _ => simp [startOrder]

end Tags

/-! ## One delta more -/

section Concat

variable {deltas : List StreamToolCall} {delta : StreamToolCall} {i : Nat}

theorem ofIndex_append (deltas post : List StreamToolCall) (i : Nat) :
    ofIndex (deltas ++ post) i = ofIndex deltas i ++ ofIndex post i := List.filter_append ..

theorem occurs_concat : Occurs (deltas ++ [delta]) i ↔ Occurs deltas i ∨ delta.index = i := by
  simp only [Occurs, List.mem_append, List.mem_singleton]
  grind

/-- The first value that the deltas of an index give stays the first. -/
theorem given_append {given : StreamToolCall → Option String} {post : List StreamToolCall}
    {value : String} (h : (ofIndex deltas i).findSome? given = some value) :
    (ofIndex (deltas ++ post) i).findSome? given = some value := by
  rw [ofIndex_append, List.findSome?_append, h]
  rfl

theorem givenId_append {post : List StreamToolCall} {id : String} (h : givenId deltas i = some id) :
    givenId (deltas ++ post) i = some id := given_append h

theorem givenName_append {post : List StreamToolCall} {name : String}
    (h : givenName deltas i = some name) : givenName (deltas ++ post) i = some name := given_append h

theorem fragments_append (deltas post : List StreamToolCall) (i : Nat) :
    fragments (deltas ++ post) i = fragments deltas i ++ fragments post i := by
  rw [fragments, ofIndex_append, List.filterMap_append]
  rfl

theorem ofIndex_concat_self : ofIndex (deltas ++ [delta]) delta.index =
    ofIndex deltas delta.index ++ [delta] := by
  simp [ofIndex]

theorem ofIndex_concat_ne (h : delta.index ≠ i) : ofIndex (deltas ++ [delta]) i = ofIndex deltas i := by
  simp [ofIndex, h]

theorem given_concat (given : StreamToolCall → Option String) :
    (ofIndex (deltas ++ [delta]) delta.index).findSome? given =
      ((ofIndex deltas delta.index).findSome? given).or (given delta) := by
  rw [ofIndex_concat_self, List.findSome?_append, List.findSome?_singleton]

theorem givenId_concat : givenId (deltas ++ [delta]) delta.index =
    (givenId deltas delta.index).or (deltaId delta) := given_concat deltaId

theorem givenName_concat : givenName (deltas ++ [delta]) delta.index =
    (givenName deltas delta.index).or (deltaName delta) := given_concat deltaName

theorem fragments_concat : fragments (deltas ++ [delta]) delta.index =
    fragments deltas delta.index ++ (deltaArguments delta).toList := by
  rw [fragments, ofIndex_concat_self, List.filterMap_append, ← fragments]
  cases e : deltaArguments delta <;> simp [e]

theorem fragments_concat_ne (h : delta.index ≠ i) :
    fragments (deltas ++ [delta]) i = fragments deltas i := by
  rw [fragments, ofIndex_concat_ne h, ← fragments]

/-- An index with arguments got a first fragment somewhere. -/
theorem exists_fragment (h : fragments deltas i ≠ []) : ∃ pre delta post,
    deltas = pre ++ delta :: post ∧ (deltaArguments delta).isSome = true ∧ delta.index = i := by
  obtain ⟨fragment, hm⟩ := List.exists_mem_of_ne_nil _ h
  obtain ⟨delta, hd, ha⟩ := List.mem_filterMap.mp hm
  obtain ⟨hd, hi⟩ := List.mem_filter.mp hd
  obtain ⟨pre, post, e⟩ := List.append_of_mem hd
  exact ⟨pre, delta, post, e, by rw [ha]; rfl, by simpa using hi⟩

theorem occurs_of_fragments (h : fragments deltas i ≠ []) : Occurs deltas i := by
  obtain ⟨pre, delta, post, rfl, -, hi⟩ := exists_fragment h
  exact ⟨delta, by simp, hi⟩

end Concat

/-! ## The events of each index -/

section Runs

variable {name : Nat → String} {k : Nat}

theorem opening_ne_nil {name : String} {fragments : List String} {snapshot : Option String} :
    opening name fragments snapshot ≠ [] := List.cons_ne_nil _ _

theorem ownEvents_deltas (deltas : List StreamToolCall) (k : Nat) :
    ownEvents k (deltas.foldl (deltaTags name) []) =
      if fragments deltas k = [] then [] else opening (name k) (fragments deltas k) none := by
  induction deltas using List.reverseRecOn with
  | nil => rfl
  | append_singleton deltas delta ih =>
    rw [List.foldl_concat, deltaTags]
    by_cases hk : delta.index = k
    · subst hk
      rw [fragments_concat]
      cases deltaArguments delta with
      | none =>
        rw [Option.toList_none, List.append_nil]
        exact ih
      | some fragment =>
        dsimp only
        rw [ownEvents, own_concat_self rfl, ← ownEvents, ownEvents_ensure, ih,
          if_neg (List.append_ne_nil_of_right_ne_nil _ (by simp))]
        by_cases hnil : fragments deltas delta.index = []
        · rw [if_pos hnil, if_pos rfl, hnil]
          rfl
        · rw [if_neg hnil, if_neg opening_ne_nil]
          exact opening_append _ _ _
    · rw [fragments_concat_ne hk, ← ih]
      cases deltaArguments delta with
      | none => rfl
      | some fragment =>
        dsimp only
        rw [ownEvents, own_concat_ne rfl hk]
        exact ownEvents_ensure_ne hk

theorem ownEvents_complete_ne {i : Nat} (tags : List (Nat × CallEvent)) (h : i ≠ k) :
    ownEvents k (completeTags name tags i) = ownEvents k tags := by
  rw [ownEvents, completeTags, own_concat_ne rfl h]
  exact ownEvents_ensure_ne h

theorem ownEvents_complete_self (tags : List (Nat × CallEvent)) :
    ownEvents k (completeTags name tags k) =
      (if ownEvents k tags = [] then [.started (name k)] else ownEvents k tags) ++ [.completed] := by
  rw [ownEvents, completeTags, own_concat_self rfl, ← ownEvents, ownEvents_ensure]

theorem ownEvents_completed_ne {indices : List Nat} (tags : List (Nat × CallEvent))
    (h : k ∉ indices) : ownEvents k (indices.foldl (completeTags name) tags) = ownEvents k tags := by
  induction indices generalizing tags with
  | nil => rfl
  | cons i indices ih =>
    rw [List.mem_cons, not_or] at h
    rw [List.foldl_cons, ih _ h.2, ownEvents_complete_ne _ (Ne.symm h.1)]

theorem ownEvents_completed {indices : List Nat} (tags : List (Nat × CallEvent))
    (hnodup : indices.Nodup) (h : k ∈ indices) :
    ownEvents k (indices.foldl (completeTags name) tags) =
      (if ownEvents k tags = [] then [.started (name k)] else ownEvents k tags) ++ [.completed] := by
  induction indices generalizing tags with
  | nil => cases h
  | cons i indices ih =>
    obtain ⟨hi, hnodup⟩ := List.nodup_cons.mp hnodup
    rw [List.foldl_cons]
    rcases List.mem_cons.mp h with rfl | hk
    · rw [ownEvents_completed_ne _ hi, ownEvents_complete_self]
    · have hne : i ≠ k := fun e => hi (e ▸ hk)
      rw [ih _ hnodup hk, ownEvents_complete_ne _ hne]

/-- All the tags of a stream: every index spells a sentence. -/
def streamTags (name : Nat → String) (deltas : List StreamToolCall) (indices : List Nat) :
    List (Nat × CallEvent) :=
  indices.foldl (completeTags name) (deltas.foldl (deltaTags name) [])

theorem ownEvents_stream {deltas : List StreamToolCall} {indices : List Nat}
    (hnodup : indices.Nodup) (h : k ∈ indices) :
    ownEvents k (streamTags name deltas indices) = sentence (name k) (fragments deltas k) none := by
  rw [streamTags, ownEvents_completed _ hnodup h, ownEvents_deltas]
  by_cases hnil : fragments deltas k = []
  · simp [hnil, sentence, opening]
  · rw [if_neg hnil, if_neg opening_ne_nil]
    rfl

/-! ## The order of the starts -/

theorem startOrder_deltas_concat (deltas : List StreamToolCall) (delta : StreamToolCall) :
    startOrder ((deltas ++ [delta]).foldl (deltaTags name) []) =
      startOrder (deltas.foldl (deltaTags name) []) ++
        if (deltaArguments delta).isSome = true ∧ fragments deltas delta.index = [] then [delta.index]
        else [] := by
  rw [List.foldl_concat, deltaTags]
  cases deltaArguments delta with
  | none => simp
  | some fragment =>
    dsimp only
    rw [startOrder_concat (by simp), startOrder_ensure, ownEvents_deltas]
    by_cases hnil : fragments deltas delta.index = []
    · simp [hnil]
    · simp [hnil, opening_ne_nil]

theorem mem_startOrder_deltas (deltas : List StreamToolCall) :
    k ∈ startOrder (deltas.foldl (deltaTags name) []) ↔ fragments deltas k ≠ [] := by
  induction deltas using List.reverseRecOn with
  | nil => simp [startOrder, fragments, ofIndex]
  | append_singleton deltas delta ih =>
    rw [startOrder_deltas_concat, List.mem_append, ih]
    by_cases hk : delta.index = k
    · subst hk
      rw [fragments_concat]
      cases deltaArguments delta <;> by_cases hnil : fragments deltas delta.index = [] <;> simp [hnil]
    · rw [fragments_concat_ne hk]
      refine or_iff_left fun hm => ?_
      split at hm
      · exact hk (List.mem_singleton.mp hm).symm
      · cases hm

theorem startOrder_completed {indices : List Nat} (tags : List (Nat × CallEvent))
    (hnodup : indices.Nodup) : startOrder (indices.foldl (completeTags name) tags) =
      startOrder tags ++ indices.filter fun i => ownEvents i tags = [] := by
  induction indices generalizing tags with
  | nil => simp
  | cons i indices ih =>
    obtain ⟨hi, hnodup⟩ := List.nodup_cons.mp hnodup
    have hrest : (indices.filter fun k => ownEvents k (completeTags name tags i) = []) =
        indices.filter fun k => ownEvents k tags = [] := by
      refine List.filter_congr fun k hk => ?_
      rw [ownEvents_complete_ne _ (show i ≠ k from fun e => hi (e.symm ▸ hk))]
    rw [List.foldl_cons, ih _ hnodup, hrest, completeTags, startOrder_concat (by simp),
      startOrder_ensure, List.filter_cons]
    by_cases hnil : ownEvents i tags = []
    · simp [hnil]
    · simp [hnil]

/-- First the indices with arguments, as they got them, then the others. -/
theorem startOrder_stream {deltas : List StreamToolCall} {indices : List Nat}
    (hnodup : indices.Nodup) : startOrder (streamTags name deltas indices) =
      startOrder (deltas.foldl (deltaTags name) []) ++
        indices.filter fun i => fragments deltas i = [] := by
  rw [streamTags, startOrder_completed _ hnodup]
  congr 1
  refine List.filter_congr fun i _ => ?_
  rw [ownEvents_deltas]
  by_cases hnil : fragments deltas i = []
  · simp [hnil]
  · simp [hnil, opening_ne_nil]

end Runs

/-! ## Deltas in order -/

section Order

variable {name : Nat → String} {deltas : List StreamToolCall} {indices : List Nat}

/-- Where some index has arguments and another has none yet, the other is the greater one. -/
theorem InOrder.below (h : InOrder deltas) {pre post : List StreamToolCall} {i j : Nat}
    (e : deltas = pre ++ post) (hj : fragments pre j ≠ []) (hi : fragments pre i = [])
    (ho : Occurs deltas i) : j < i := by
  obtain ⟨before, delta, after, hpre, hargs, rfl⟩ := exists_fragment hj
  have hne : delta.index ≠ i := by
    rintro rfl
    exact hj hi
  by_contra hle
  have hlt : i < delta.index := by omega
  have hsplit : deltas = before ++ delta :: (after ++ post) := by rw [e, hpre]; simp
  have hfirst := h before delta (after ++ post) hsplit hargs i hlt ho
  rw [hpre, fragments_append] at hi
  exact hfirst (List.append_eq_nil_iff.mp hi).1

theorem InOrder.deltas_pairwise (h : InOrder deltas) (pre post : List StreamToolCall)
    (e : deltas = pre ++ post) : (startOrder (pre.foldl (deltaTags name) [])).Pairwise (· < ·) := by
  induction pre using List.reverseRecOn generalizing post with
  | nil => exact List.Pairwise.nil
  | append_singleton pre delta ih =>
    have hpre : deltas = pre ++ (delta :: post) := by rw [e]; simp
    rw [startOrder_deltas_concat, List.pairwise_append]
    refine ⟨ih _ hpre, ?_, fun j hj i hi => ?_⟩
    · split <;> simp
    · split at hi
      · rename_i hnew
        obtain rfl := List.mem_singleton.mp hi
        have ho : Occurs deltas delta.index := ⟨delta, by simp [hpre], rfl⟩
        exact h.below hpre ((mem_startOrder_deltas pre).mp hj) hnew.2 ho
      · cases hi

theorem InOrder.pairwise (h : InOrder deltas) (hsorted : indices.Pairwise (· < ·))
    (hmem : ∀ i, i ∈ indices ↔ Occurs deltas i) :
    (startOrder (streamTags name deltas indices)).Pairwise (· < ·) := by
  have hnodup : indices.Nodup := hsorted.imp fun hlt => Nat.ne_of_lt hlt
  have e : deltas = deltas ++ [] := (List.append_nil deltas).symm
  rw [startOrder_stream hnodup, List.pairwise_append]
  refine ⟨h.deltas_pairwise deltas [] e, hsorted.filter _, fun j hj i hi => ?_⟩
  obtain ⟨hi, hnil⟩ := List.mem_filter.mp hi
  exact h.below e ((mem_startOrder_deltas deltas).mp hj) (by simpa using hnil) ((hmem i).mp hi)

theorem startOrder_deltas_append (pre post : List StreamToolCall) :
    startOrder (pre.foldl (deltaTags name) []) <+:
      startOrder ((pre ++ post).foldl (deltaTags name) []) := by
  induction post using List.reverseRecOn with
  | nil => rw [List.append_nil]
  | append_singleton post delta ih =>
    rw [← List.append_assoc, startOrder_deltas_concat]
    exact ih.trans (List.prefix_append _ _)

theorem mem_startOrder_stream (hnodup : indices.Nodup) (hmem : ∀ i, i ∈ indices ↔ Occurs deltas i)
    (i : Nat) : i ∈ startOrder (streamTags name deltas indices) ↔ Occurs deltas i := by
  rw [startOrder_stream hnodup, List.mem_append, mem_startOrder_deltas, List.mem_filter, hmem]
  constructor
  · rintro (hne | ⟨ho, -⟩)
    · exact occurs_of_fragments hne
    · exact ho
  · intro ho
    by_cases hnil : fragments deltas i = []
    · exact .inr ⟨ho, by simpa using hnil⟩
    · exact .inl hnil

theorem occurs_of_mem_stream {tag : Nat × CallEvent} (hmem : ∀ i, i ∈ indices ↔ Occurs deltas i)
    (ht : tag ∈ streamTags name deltas indices) : Occurs deltas tag.1 := by
  by_cases hi : tag.1 ∈ indices
  · exact (hmem tag.1).mp hi
  · have hown : ownEvents tag.1 (streamTags name deltas indices) ≠ [] :=
      own_ne_nil.mpr ⟨tag, ht, tag.2, rfl⟩
    rw [streamTags, ownEvents_completed_ne _ hi, ownEvents_deltas] at hown
    refine occurs_of_fragments fun hnil => ?_
    rw [if_pos hnil] at hown
    exact hown rfl

theorem inOrder_of_pairwise (hnodup : indices.Nodup) (hmem : ∀ i, i ∈ indices ↔ Occurs deltas i)
    (h : (startOrder (streamTags name deltas indices)).Pairwise (· < ·)) : InOrder deltas := by
  intro pre delta post e hargs i hlt ho hnil
  have hsplit : deltas = (pre ++ [delta]) ++ post := by rw [e]; simp
  -- At this delta its own index is among the starts, and the smaller one is not.
  have hstarted : delta.index ∈ startOrder ((pre ++ [delta]).foldl (deltaTags name) []) := by
    rw [mem_startOrder_deltas, fragments_concat]
    obtain ⟨fragment, hargs⟩ := Option.isSome_iff_exists.mp hargs
    simp [hargs]
  have hlate : i ∉ startOrder ((pre ++ [delta]).foldl (deltaTags name) []) := by
    rw [mem_startOrder_deltas, fragments_concat_ne (by omega), hnil]
    simp
  have hprefix : startOrder ((pre ++ [delta]).foldl (deltaTags name) []) <+:
      startOrder (streamTags name deltas indices) := by
    rw [startOrder_stream hnodup, hsplit]
    exact (startOrder_deltas_append _ _).trans (List.prefix_append _ _)
  obtain ⟨rest, hrest⟩ := hprefix
  have hi : i ∈ rest := by
    have hm : i ∈ startOrder (streamTags name deltas indices) :=
      (mem_startOrder_stream hnodup hmem i).mpr ho
    rw [← hrest, List.mem_append] at hm
    exact hm.resolve_left hlate
  rw [← hrest, List.pairwise_append] at h
  have hgt := h.2.2 delta.index hstarted i hi
  omega

theorem pairwise_iff (hsorted : indices.Pairwise (· < ·)) (hmem : ∀ i, i ∈ indices ↔ Occurs deltas i) :
    (startOrder (streamTags name deltas indices)).Pairwise (· < ·) ↔ InOrder deltas :=
  ⟨inOrder_of_pairwise (hsorted.imp fun hlt => Nat.ne_of_lt hlt) hmem,
    fun h => h.pairwise hsorted hmem⟩

end Order

end AgentDaemon.Engine
