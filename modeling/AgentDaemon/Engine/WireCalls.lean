import AgentDaemon.Engine.WireTags

/-!
The tool calls of an OpenAI stream from its deltas to the assembled calls. Each call is that of its
index (`calls_carry`), and `ordered_iff` says for which deltas the calls come out in the order of
their indices.
-/

namespace AgentDaemon.Engine

open Provider Provider.Openai Automaton

/-! ## What is to come out -/

/-- The call that an index is to give. -/
structure Carries {Value : Type} (json : Serde Value) (deltas : List StreamToolCall) (i : Nat)
    (call : ToolCall Value) : Prop where
  id : ∃ id, givenId deltas i = some id ∧ call.id = (ExecutionIdentity.wire .openaiChat id).encode
  name : givenName deltas i = some call.name
  arguments : readArguments json (String.join (fragments deltas i)) = some call.arguments

/-- One call for each index, in the order of the indices. -/
def Ordered {Value : Type} (json : Serde Value) (deltas : List StreamToolCall)
    (calls : List (ToolCall Value)) : Prop :=
  ∃ indices : List Nat, indices.Pairwise (· < ·) ∧ (∀ i, i ∈ indices ↔ Occurs deltas i) ∧
    List.Forall₂ (Carries json deltas) indices calls

/-- The deltas of a stream, and its end. -/
def wireState (deltas : List StreamToolCall) : Openai.State :=
  let s : Openai.State := deltas.foldl consumeToolDelta {}
  completeCalls s.calls.toList s

/-! ## The adapter -/

/-- The event of an index whose call has this identity. -/
def wireEvent (ident : Nat → ExecutionIdentity) : Nat × CallEvent → ProviderEvent
  | (i, .started name) => .toolCallStarted (ident i) name
  | (i, .append fragment) => .toolCallDelta (ident i) (.append fragment)
  | (i, .snapshot snapshot) => .toolCallDelta (ident i) (.authoritativeSnapshot snapshot)
  | (i, .completed) => .toolCallCompleted (ident i)

section Adapter

variable {deltas pre post : List StreamToolCall} {delta : StreamToolCall} {s : Openai.State}
  {call : WireCall}

def Failed (s : Openai.State) : Prop := ∃ error, .toolCallFailed error ∈ s.events

theorem failed_streamFailure (s : Openai.State) (code message : String) :
    Failed (s.streamFailure code message) := ⟨⟨code, message⟩, by
  simp [State.streamFailure, State.send]⟩

theorem Failed.grow {s' : Openai.State} (h : Failed s) (hp : s.events <+: s'.events) :
    Failed s' := by
  obtain ⟨error, he⟩ := h
  exact ⟨error, hp.mem he⟩

theorem grows_send (s : Openai.State) (event : ProviderEvent) : s.events <+: (s.send event).events :=
  List.prefix_append _ _

theorem grows_ensureStarted (index : Nat) (call : WireCall) (s : Openai.State) :
    s.events <+: (ensureStarted index call s).2.events := by
  unfold ensureStarted startCall
  split
  · split
    · exact grows_send s _
    · exact grows_send s _
  · exact List.prefix_refl _

theorem grows_consumeArguments (index : Nat) (call : WireCall) (arguments : String)
    (s : Openai.State) : s.events <+: (consumeArguments index call arguments s).events := by
  refine (grows_ensureStarted index call s).trans ?_
  unfold consumeArguments
  dsimp only
  split
  · exact grows_send _ _
  · exact grows_send _ _

theorem grows_consumeToolDelta (s : Openai.State) (delta : StreamToolCall) :
    s.events <+: (consumeToolDelta s delta).events := by
  unfold consumeToolDelta
  dsimp only
  split
  · exact grows_send _ _
  · split
    · exact grows_send _ _
    · split
      · exact List.prefix_refl _
      · exact grows_consumeArguments _ _ _ _

theorem grows_completeCalls (calls : List (Nat × WireCall)) (s : Openai.State) :
    s.events <+: (completeCalls calls s).events := by
  induction calls generalizing s with
  | nil => exact List.prefix_refl _
  | cons entry calls ih =>
    obtain ⟨index, call⟩ := entry
    refine (grows_ensureStarted index call s).trans ?_
    rw [completeCalls]
    dsimp only
    split
    · exact grows_send _ _
    · exact (grows_send _ _).trans (ih _)

/-- Where it is accepted, a field that is set keeps its value. -/
theorem setOnce_ok {field update result : Option String} (h : setOnce field update = .ok result) :
    result = field.or (update.filter (!·.isEmpty)) := by
  unfold setOnce at h
  split at h
  · rename_i hvalue
    split at h
    · cases h
    · cases h
      rfl
  · rename_i hvalue
    cases h
    rw [hvalue]
    rfl
  · rename_i hvalue
    cases h
    rw [hvalue, Option.or_none]

/-- A call that has no identity yet is started with its id and its name, or the stream fails. -/
theorem startCall_cases (index : Nat) (call : WireCall) (s : Openai.State) :
    (∃ id name, call.id = some id ∧ call.name = some name ∧
      startCall index call s = ({ call with identity := some (.wire .openaiChat id) },
        s.send (.toolCallStarted (.wire .openaiChat id) name))) ∨
    Failed (startCall index call s).2 := by
  unfold startCall
  split
  · rename_i id name hid hname
    exact .inl ⟨id, name, hid, hname, rfl⟩
  · exact .inr (failed_streamFailure _ _ _)

def identOf (deltas : List StreamToolCall) (i : Nat) : ExecutionIdentity :=
  .wire .openaiChat ((givenId deltas i).getD "")

def nameOf (deltas : List StreamToolCall) (i : Nat) : String := (givenName deltas i).getD ""

/-- The id and the name of an index are known. -/
def Named (deltas : List StreamToolCall) (i : Nat) : Prop :=
  (givenId deltas i).isSome = true ∧ (givenName deltas i).isSome = true

/-- The entry of an index after these deltas. -/
def callOf (deltas : List StreamToolCall) (i : Nat) : WireCall where
  id := givenId deltas i
  name := givenName deltas i
  identity := if fragments deltas i = [] then none else some (identOf deltas i)
  sawArguments := !(fragments deltas i).isEmpty

/-- The adapter has read the deltas of `pre`, the first ones of `deltas`. -/
structure Consumed (deltas pre : List StreamToolCall) (s : Openai.State) : Prop where
  calls : ∀ i, s.calls.getD i {} = callOf pre i
  keys : ∀ i, i ∈ s.calls ↔ Occurs pre i
  named : ∀ i, fragments pre i ≠ [] → Named pre i
  events : s.events = (pre.foldl (deltaTags (nameOf deltas)) []).map (wireEvent (identOf deltas))

theorem Named.append {i : Nat} (h : Named pre i) (post : List StreamToolCall) :
    Named (pre ++ post) i ∧ identOf (pre ++ post) i = identOf pre i ∧
      nameOf (pre ++ post) i = nameOf pre i := by
  obtain ⟨id, hid⟩ := Option.isSome_iff_exists.mp h.1
  obtain ⟨name, hname⟩ := Option.isSome_iff_exists.mp h.2
  simp [Named, identOf, nameOf, givenId_append hid, givenName_append hname, hid, hname]

theorem callOf_concat_ne {i : Nat} (h : delta.index ≠ i) : callOf (pre ++ [delta]) i = callOf pre i := by
  simp [callOf, identOf, givenId, givenName, fragments_concat_ne h, ofIndex_concat_ne h]

/-- The other entries stay. -/
theorem Consumed.put (h : Consumed deltas pre s) (i : Nat) :
    (s.calls.insert delta.index (callOf (pre ++ [delta]) delta.index)).getD i {} =
        callOf (pre ++ [delta]) i ∧
      (i ∈ s.calls.insert delta.index (callOf (pre ++ [delta]) delta.index) ↔
        Occurs (pre ++ [delta]) i) := by
  constructor
  · rw [Std.TreeMap.getD_insert]
    split
    · rename_i hi
      rw [compare_eq_iff_eq.mp hi]
    · rename_i hi
      rw [h.calls, callOf_concat_ne fun e => hi (compare_eq_iff_eq.mpr e)]
  · rw [Std.TreeMap.mem_insert, h.keys, occurs_concat, compare_eq_iff_eq, or_comm]

/-- Without arguments only the id and the name of the index may become known. -/
theorem Consumed.skip (h : Consumed deltas pre s) (hargs : deltaArguments delta = none) :
    { callOf pre delta.index with
        id := givenId (pre ++ [delta]) delta.index
        name := givenName (pre ++ [delta]) delta.index } = callOf (pre ++ [delta]) delta.index ∧
      Consumed deltas (pre ++ [delta])
        (s.put delta.index (callOf (pre ++ [delta]) delta.index)) := by
  have hfrag : ∀ i, fragments (pre ++ [delta]) i = fragments pre i := by
    intro i
    by_cases hi : delta.index = i
    · subst hi
      rw [fragments_concat, hargs, Option.toList_none, List.append_nil]
    · exact fragments_concat_ne hi
  refine ⟨?_, fun i => (h.put i).1, fun i => (h.put i).2, fun i hi => ?_, ?_⟩
  · by_cases hnil : fragments pre delta.index = []
    · simp [callOf, hfrag, hnil]
    · simp [callOf, hfrag, hnil, ((h.named _ hnil).append [delta]).2.1]
  · exact ((h.named i (hfrag i ▸ hi)).append [delta]).1
  · rw [List.foldl_concat, deltaTags, hargs]
    exact h.events

/-- An entry that is started has the identity of its index, and its start is sent at most once. -/
theorem ensureStarted_cases {tags : List (Nat × CallEvent)} {i : Nat} (e : deltas = pre ++ post)
    (hid : call.id = givenId pre i) (hname : call.name = givenName pre i)
    (hident : call.identity = if ownEvents i tags = [] then none else some (identOf pre i))
    (hnamed : ownEvents i tags ≠ [] → Named pre i)
    (hevents : s.events = tags.map (wireEvent (identOf deltas))) :
    Failed (ensureStarted i call s).2 ∨ Named pre i ∧ ∃ s' : Openai.State,
      ensureStarted i call s = ({ call with identity := some (identOf pre i) }, s') ∧
        s'.calls = s.calls ∧
          s'.events = (ensureTag (nameOf deltas) tags i).map (wireEvent (identOf deltas)) := by
  unfold ensureStarted ensureTag
  by_cases hnil : ownEvents i tags = []
  · rw [if_pos hnil] at hident
    rw [hident, if_pos hnil]
    rcases startCall_cases i call s with ⟨id, name, hid', hname', hstart⟩ | hfail
    · rw [hid] at hid'
      rw [hname] at hname'
      have hgiven : Named pre i := ⟨by rw [hid']; rfl, by rw [hname']; rfl⟩
      have hident : identOf pre i = .wire .openaiChat id := by rw [identOf, hid']; rfl
      have hname : nameOf pre i = name := by rw [nameOf, hname']; rfl
      rw [← hident, ← hname] at hstart
      refine .inr ⟨hgiven, s.send (.toolCallStarted (identOf pre i) (nameOf pre i)), hstart, rfl, ?_⟩
      obtain ⟨-, hi, hn⟩ := hgiven.append post
      rw [← e] at hi hn
      rw [List.map_append, ← hevents, ← hi, ← hn]
      rfl
    · exact .inl hfail
  · rw [if_neg hnil] at hident
    refine .inr ⟨hnamed hnil, s, ?_, rfl, ?_⟩
    · rw [hident]
      cases call
      cases hident
      rfl
    · rw [if_neg hnil, hevents]

/-- A fragment of the arguments starts its index if it is the first, and is sent. -/
theorem Consumed.arguments (h : Consumed deltas pre s) (e : deltas = pre ++ delta :: post)
    {fragment : String} (hargs : deltaArguments delta = some fragment)
    (hid : call.id = givenId (pre ++ [delta]) delta.index)
    (hname : call.name = givenName (pre ++ [delta]) delta.index)
    (hident : call.identity = (callOf pre delta.index).identity) :
    Failed (consumeArguments delta.index call fragment s) ∨
      Consumed deltas (pre ++ [delta]) (consumeArguments delta.index call fragment s) := by
  have hsplit : deltas = (pre ++ [delta]) ++ post := by rw [e]; simp
  have hfrag : fragments (pre ++ [delta]) delta.index ≠ [] := by
    rw [fragments_concat, hargs]
    simp
  have hnil : ownEvents delta.index (pre.foldl (deltaTags (nameOf deltas)) []) = [] ↔
      fragments pre delta.index = [] := by
    rw [ownEvents_deltas]
    split <;> simp [*, opening_ne_nil]
  have hident' : call.identity =
      if ownEvents delta.index (pre.foldl (deltaTags (nameOf deltas)) []) = [] then none
      else some (identOf (pre ++ [delta]) delta.index) := by
    rw [hident, callOf]
    by_cases hf : fragments pre delta.index = []
    · simp only [hnil, hf, if_true]
    · simp only [hnil, hf, if_false]
      rw [((h.named _ hf).append [delta]).2.1]
  rcases ensureStarted_cases hsplit hid hname hident'
    (fun hne => ((h.named _ fun hf => hne (hnil.mpr hf)).append [delta]).1) h.events with
    hfail | ⟨hnamed, s', hstart, hcalls, hevents⟩
  · refine .inl (hfail.grow ?_)
    unfold consumeArguments
    dsimp only
    split
    · exact grows_send _ _
    · exact grows_send _ _
  · right
    have hentry : ({ call with
        identity := some (identOf (pre ++ [delta]) delta.index), sawArguments := true } : WireCall) =
          callOf (pre ++ [delta]) delta.index := by
      simp [callOf, hfrag, hid, hname]
    simp only [consumeArguments, hstart, hentry]
    refine ⟨fun i => ?_, fun i => ?_, fun i hi => ?_, ?_⟩
    · change (s'.calls.insert _ _).getD i {} = _
      rw [hcalls]
      exact (h.put i).1
    · change i ∈ s'.calls.insert _ _ ↔ _
      rw [hcalls]
      exact (h.put i).2
    · by_cases hne : delta.index = i
      · exact hne ▸ hnamed
      · rw [fragments_concat_ne hne] at hi
        exact ((h.named i hi).append [delta]).1
    · change s'.events ++ [_] = _
      rw [hevents, List.foldl_concat, deltaTags, hargs, List.map_append, ← (hnamed.append post).2.1,
        ← hsplit]
      rfl

theorem Consumed.consume (h : Consumed deltas pre s) (e : deltas = pre ++ delta :: post) :
    Failed (consumeToolDelta s delta) ∨ Consumed deltas (pre ++ [delta]) (consumeToolDelta s delta) := by
  unfold consumeToolDelta
  dsimp only
  rw [h.calls]
  split
  · exact .inl (failed_streamFailure _ _ _)
  · rename_i id hid
    split
    · exact .inl (failed_streamFailure _ _ _)
    · rename_i name hname
      have hid : id = givenId (pre ++ [delta]) delta.index := by
        rw [setOnce_ok hid, givenId_concat]
        rfl
      have hname : name = givenName (pre ++ [delta]) delta.index := by
        rw [setOnce_ok hname, givenName_concat]
        rfl
      split
      · rename_i hargs
        obtain ⟨hentry, hskip⟩ := h.skip hargs
        rw [← hentry, ← hid, ← hname] at hskip
        exact .inr hskip
      · rename_i fragment hargs
        exact h.arguments e hargs hid hname rfl

theorem consumed_deltas (e : deltas = pre ++ post) :
    Failed (pre.foldl consumeToolDelta {}) ∨ Consumed deltas pre (pre.foldl consumeToolDelta {}) := by
  induction pre using List.reverseRecOn generalizing post with
  | nil =>
    refine .inr ⟨fun i => ?_, fun i => ?_, fun i hi => absurd rfl hi, rfl⟩
    · simp [callOf, givenId, givenName, fragments, ofIndex]
    · simp [Occurs]
  | append_singleton pre delta ih =>
    have hpre : deltas = pre ++ delta :: post := by rw [e]; simp
    rw [List.foldl_concat]
    rcases ih hpre with hfail | hread
    · exact .inl (hfail.grow (grows_consumeToolDelta _ _))
    · exact hread.consume hpre

/-- The end of the stream, over the entries of `indices`. -/
theorem completeCalls_cases {indices : List Nat} (hnodup : indices.Nodup)
    {tags : List (Nat × CallEvent)}
    (hown : ∀ i ∈ indices, ownEvents i tags = [] ↔ fragments deltas i = [])
    (hnamed : ∀ i, fragments deltas i ≠ [] → Named deltas i)
    (hevents : s.events = tags.map (wireEvent (identOf deltas))) :
    Failed (completeCalls (indices.map fun i => (i, callOf deltas i)) s) ∨
    (∀ i ∈ indices, Named deltas i) ∧
      (completeCalls (indices.map fun i => (i, callOf deltas i)) s).events =
        (indices.foldl (completeTags (nameOf deltas)) tags).map (wireEvent (identOf deltas)) := by
  induction indices generalizing tags s with
  | nil => exact .inr ⟨by simp, hevents⟩
  | cons i indices ih =>
    obtain ⟨hi, hnodup⟩ := List.nodup_cons.mp hnodup
    have hopen := hown i List.mem_cons_self
    have hident : (callOf deltas i).identity =
        if ownEvents i tags = [] then none else some (identOf deltas i) := by
      rw [callOf]
      simp only [hopen]
    rw [List.map_cons, completeCalls]
    rcases ensureStarted_cases (List.append_nil deltas).symm rfl rfl hident
      (fun hne => hnamed i fun hf => hne (hopen.mpr hf)) hevents with hfail | ⟨hgiven, s', hstart, -, hs'⟩
    · refine .inl (hfail.grow ?_)
      dsimp only
      split
      · exact grows_send _ _
      · exact (grows_send _ _).trans (grows_completeCalls _ _)
    · simp only [hstart]
      have hnext : (s'.send (.toolCallCompleted (identOf deltas i))).events =
          (completeTags (nameOf deltas) tags i).map (wireEvent (identOf deltas)) := by
        rw [completeTags, List.map_append, ← hs']
        rfl
      have hrest : ∀ k ∈ indices, ownEvents k (completeTags (nameOf deltas) tags i) = [] ↔
          fragments deltas k = [] := by
        intro k hk
        rw [ownEvents_complete_ne tags (show i ≠ k from fun e => hi (e.symm ▸ hk))]
        exact hown k (List.mem_cons_of_mem i hk)
      rcases ih hnodup hrest hnext with hfail | ⟨hall, hdone⟩
      · exact .inl hfail
      · refine .inr ⟨fun k hk => ?_, hdone⟩
        rcases List.mem_cons.mp hk with rfl | hk
        · exact hgiven
        · exact hall k hk

theorem Consumed.toList (h : Consumed deltas pre s) :
    s.calls.toList = s.calls.keys.map fun i => (i, callOf pre i) := by
  rw [← Std.TreeMap.map_fst_toList_eq_keys, List.map_map]
  refine (List.map_id _).symm.trans (List.map_congr_left fun entry he => ?_)
  obtain ⟨i, call⟩ := entry
  have hi := Std.TreeMap.mem_toList_iff_getElem?_eq_some.mp he
  have hcall := h.calls i
  rw [Std.TreeMap.getD_eq_getD_getElem?, hi] at hcall
  exact Prod.ext rfl hcall

/-- Where the stream does not fail, its events are those of its tags. -/
theorem wireState_cases (deltas : List StreamToolCall) :
    Failed (wireState deltas) ∨ ∃ indices : List Nat, indices.Pairwise (· < ·) ∧
      (∀ i, i ∈ indices ↔ Occurs deltas i) ∧ (∀ i ∈ indices, Named deltas i) ∧
        (wireState deltas).events =
          (streamTags (nameOf deltas) deltas indices).map (wireEvent (identOf deltas)) := by
  unfold wireState
  rcases consumed_deltas (List.append_nil deltas).symm with hfail | hread
  · exact .inl (hfail.grow (grows_completeCalls _ _))
  · dsimp only
    rw [hread.toList]
    generalize deltas.foldl consumeToolDelta {} = s at hread
    have hsorted : s.calls.keys.Pairwise (· < ·) :=
      Std.TreeMap.ordered_keys.imp fun hlt => compare_lt_iff_lt.mp hlt
    have hown : ∀ i ∈ s.calls.keys, ownEvents i (deltas.foldl (deltaTags (nameOf deltas)) []) = [] ↔
        fragments deltas i = [] := by
      intro i _
      rw [ownEvents_deltas]
      split <;> simp [*, opening_ne_nil]
    rcases completeCalls_cases (hsorted.imp fun hlt => Nat.ne_of_lt hlt) hown hread.named hread.events with
      hfail | ⟨hnamed, hevents⟩
    · exact .inl hfail
    · exact .inr ⟨s.calls.keys, hsorted, fun i => Std.TreeMap.mem_keys.trans (hread.keys i), hnamed,
        hevents⟩

end Adapter

/-! ## The calls -/

section Calls

variable {Value : Type} {json : Serde Value} {deltas : List StreamToolCall}
  {calls : List (ToolCall Value)}

theorem starts_wire (ident : Nat → ExecutionIdentity) (tags : List (Nat × CallEvent)) :
    starts (tags.map (wireEvent ident)) = (startOrder tags).map ident := by
  induction tags with
  | nil => rfl
  | cons tag tags ih =>
    obtain ⟨i, c⟩ := tag
    cases c with
    | started name => exact congrArg (ident i :: ·) ih
    | _ => exact ih

theorem callEvent_wire (ident : Nat → ExecutionIdentity) (i : Nat) (c : CallEvent) :
    callEvent (wireEvent ident (i, c)) = some (ident i, c) := by
  cases c <;> rfl

/-- Distinct identities keep the events of the indices apart. -/
theorem callEvents_wire {ident : Nat → ExecutionIdentity} {tags : List (Nat × CallEvent)} {i : Nat}
    (hinj : ∀ tag ∈ tags, ident tag.1 = ident i → tag.1 = i) :
    callEvents (ident i) (tags.map (wireEvent ident)) = ownEvents i tags := by
  induction tags with
  | nil => rfl
  | cons tag tags ih =>
    obtain ⟨k, c⟩ := tag
    have hrest := ih fun tag ht => hinj tag (List.mem_cons_of_mem _ ht)
    have hk : ident k = ident i → k = i := hinj (k, c) List.mem_cons_self
    simp only [callEvents, ownEvents, own, List.map_cons, List.filterMap_cons] at hrest ⊢
    rw [callEvent_wire, hrest]
    by_cases e : k = i
    · simp [e]
    · simp [e, mt hk e]

theorem sentence_inj {name name' : String} {fragments fragments' : List String}
    {snapshot snapshot' : Option String}
    (h : sentence name fragments snapshot = sentence name' fragments' snapshot') :
    name = name' ∧ argumentsOf fragments snapshot = argumentsOf fragments' snapshot' := by
  have hopening : opening name fragments snapshot = opening name' fragments' snapshot' :=
    List.append_cancel_right h
  obtain ⟨hname, hletters⟩ := List.cons.inj hopening
  have hfragments : fragments = fragments' := by
    have e := congrArg (List.filterMap fun c => match c with
      | CallEvent.append fragment => some fragment
      | _ => none) hletters
    cases snapshot <;> cases snapshot' <;> simpa [List.filterMap_map] using e
  subst hfragments
  have hsnapshots := List.append_cancel_left hletters
  have hsame : snapshot = snapshot' := by
    cases snapshot <;> cases snapshot' <;> simp at hsnapshots ⊢
    exact hsnapshots
  exact ⟨CallEvent.started.inj hname, by rw [hsame]⟩

/-- Whatever the order, each call is that of its index. -/
theorem calls_carry (h : (assemble (wireState deltas).events).finish json = .toolCalls calls) :
    ∃ indices : List Nat, indices.Pairwise (· < ·) ∧ (∀ i, i ∈ indices ↔ Occurs deltas i) ∧
      (∀ i k, Occurs deltas i → Occurs deltas k → identOf deltas i = identOf deltas k → i = k) ∧
        List.Forall₂ (Carries json deltas) (startOrder (streamTags (nameOf deltas) deltas indices))
          calls := by
  rcases finish_cases json (wireState deltas).events with
    ⟨calls', hfin, hacc, -, hlist⟩ | ⟨hfin, -⟩ | ⟨⟨error, hfin⟩, -⟩
  · obtain rfl : calls' = calls := by
      rw [hfin] at h
      cases h
      rfl
    rcases wireState_cases deltas with ⟨error, hfail⟩ | ⟨indices, hsorted, hmem, hnamed, hevents⟩
    · exact absurd hfail (hacc.unfailed error)
    · have hnodup : indices.Nodup := hsorted.imp fun hlt => Nat.ne_of_lt hlt
      have hstarted : ∀ i, i ∈ startOrder (streamTags (nameOf deltas) deltas indices) ↔
          Occurs deltas i := mem_startOrder_stream hnodup hmem
      rw [hevents] at hlist
      have hdistinct := hlist.nodup_starts
      rw [starts_wire] at hdistinct
      have hinj : ∀ i k, Occurs deltas i → Occurs deltas k → identOf deltas i = identOf deltas k →
          i = k := fun i k hi hk e =>
        List.inj_on_of_nodup_map hdistinct ((hstarted i).mpr hi) ((hstarted k).mpr hk) e
      refine ⟨indices, hsorted, hmem, hinj, ?_⟩
      rw [Listed, starts_wire, List.forall₂_map_left_iff] at hlist
      refine List.Forall₂.imp ?_ ((List.forall₂_and_left (p := (· ∈ startOrder
        (streamTags (nameOf deltas) deltas indices))) _ _).mpr ⟨fun _ => id, hlist⟩)
      rintro i call ⟨hi, name, parts, snapshot, hword, hid, hname, hargs⟩
      have ho := (hstarted i).mp hi
      obtain ⟨id, hgiven⟩ := Option.isSome_iff_exists.mp (hnamed i ((hmem i).mpr ho)).1
      obtain ⟨given, hgivenName⟩ := Option.isSome_iff_exists.mp (hnamed i ((hmem i).mpr ho)).2
      have hinjTags : ∀ tag ∈ streamTags (nameOf deltas) deltas indices,
          identOf deltas tag.1 = identOf deltas i → tag.1 = i := by
        intro tag ht e
        exact hinj _ _ (occurs_of_mem_stream hmem ht) ho e
      rw [callEvents_wire hinjTags, ownEvents_stream hnodup ((hmem i).mpr ho)] at hword
      obtain ⟨rfl, hparts⟩ := sentence_inj hword
      refine ⟨⟨id, hgiven, ?_⟩, ?_, ?_⟩
      · rw [hid, identOf, hgiven]
        rfl
      · rw [hname, nameOf, hgivenName]
        rfl
      · rw [← hargs, ← hparts]
        rfl
  · rw [hfin] at h
    cases h
  · rw [hfin] at h
    cases h

/-- A call tells its index. -/
theorem Carries.identOf {i : Nat} {call : ToolCall Value} (h : Carries json deltas i call) :
    call.id = (identOf deltas i).encode := by
  obtain ⟨id, hgiven, hid⟩ := h.id
  rw [hid, Engine.identOf, hgiven]
  rfl

/-- **The order of the calls.** Every call has the id, the name and the arguments of its index; the
calls stand in the order of the indices just where no index gets arguments before a smaller one. -/
theorem ordered_iff (h : (assemble (wireState deltas).events).finish json = .toolCalls calls) :
    Ordered json deltas calls ↔ InOrder deltas := by
  obtain ⟨indices, hsorted, hmem, hinj, hcarry⟩ := calls_carry h
  have hnodup : indices.Nodup := hsorted.imp fun hlt => Nat.ne_of_lt hlt
  have hstarted : ∀ i, i ∈ startOrder (streamTags (nameOf deltas) deltas indices) ↔
      Occurs deltas i := mem_startOrder_stream hnodup hmem
  have hsame : (startOrder (streamTags (nameOf deltas) deltas indices)).Pairwise (· < ·) ↔
      InOrder deltas := pairwise_iff hsorted hmem
  rw [← hsame]
  constructor
  · rintro ⟨order, horder, hoccurs, hcalls⟩
    have horders : order = startOrder (streamTags (nameOf deltas) deltas indices) := by
      have hlength := hcalls.length_eq.trans hcarry.length_eq.symm
      refine List.ext_getElem hlength fun n hn hn' => ?_
      have hone := (List.forall₂_iff_get.mp hcalls).2 n hn (hcalls.length_eq ▸ hn)
      have htwo := (List.forall₂_iff_get.mp hcarry).2 n hn' (hcarry.length_eq ▸ hn')
      refine hinj _ _ ((hoccurs _).mp (List.getElem_mem hn)) ((hstarted _).mp (List.getElem_mem hn')) ?_
      exact ExecutionIdentity.encode_injective (hone.identOf.symm.trans htwo.identOf)
    exact horders ▸ horder
  · intro hpairwise
    exact ⟨_, hpairwise, hstarted, hcarry⟩

/-- A JSON value that is its text. -/
def rawJson : Serde String := ⟨.ok, "{}"⟩

/-- Two calls whose deltas alternate; the second one has no arguments. -/
def alternating : List StreamToolCall :=
  [⟨0, some "a", none⟩, ⟨1, some "b", some ⟨some "g", none⟩⟩, ⟨0, none, some ⟨some "f", some "nu"⟩⟩,
    ⟨0, none, some ⟨none, some "ll"⟩⟩]

theorem ordered_alternating : Ordered rawJson alternating
    [⟨(ExecutionIdentity.wire .openaiChat "a").encode, "f", "null"⟩,
      ⟨(ExecutionIdentity.wire .openaiChat "b").encode, "g", "{}"⟩] :=
  (ordered_iff (by decide +kernel)).mpr (by decide)

/-- The first call gets no arguments before the second does. -/
def overtaken : List StreamToolCall :=
  [⟨0, some "a", some ⟨some "f", none⟩⟩, ⟨1, some "b", some ⟨some "g", some "{}"⟩⟩]

theorem not_ordered_overtaken :
    (assemble (wireState overtaken).events).finish rawJson = .toolCalls
      [⟨(ExecutionIdentity.wire .openaiChat "b").encode, "g", "{}"⟩,
        ⟨(ExecutionIdentity.wire .openaiChat "a").encode, "f", "{}"⟩] ∧
    ¬ Ordered rawJson overtaken
      [⟨(ExecutionIdentity.wire .openaiChat "b").encode, "g", "{}"⟩,
        ⟨(ExecutionIdentity.wire .openaiChat "a").encode, "f", "{}"⟩] := by
  refine ⟨by decide +kernel, ?_⟩
  rintro ⟨indices, hsorted, hmem, hcalls⟩
  obtain ⟨i, _, hfirst, hrest, rfl⟩ := List.forall₂_cons_right_iff.mp hcalls
  obtain ⟨j, _, -, hnil, rfl⟩ := List.forall₂_cons_right_iff.mp hrest
  obtain rfl := List.forall₂_nil_right_iff.mp hnil
  -- The smaller index is 0, and its id is not that of the first call.
  have hlt : i < j := by simpa using hsorted
  have hj : Occurs overtaken j := (hmem j).mp (by simp)
  have hi : i = 0 := by
    simp [Occurs, overtaken] at hj
    omega
  subst hi
  obtain ⟨id, hgiven, hid⟩ := hfirst.id
  cases hgiven
  have hsame : ExecutionIdentity.wire .openaiChat "b" = .wire .openaiChat "a" :=
    ExecutionIdentity.encode_injective hid
  simp [ExecutionIdentity.wire] at hsame

end Calls

end AgentDaemon.Engine
