import AgentDaemon.Lib.Automaton
import AgentDaemon.Lib.Fallible
import AgentDaemon.Lib.Table
import AgentDaemon.Lib.Text
import AgentDaemon.Provider.Events

/-!
`ToolCallAssembler`: from the events of one response to its text or its tool calls. Each
identity is read by a small automaton of its own (`track`), whatever the interleaving, and the
words it reads to the end are the sentences of a grammar. `assembled_spec` says that the
assembler accepts exactly what meets the grammar, and lists the values the grammar gives.
-/

namespace AgentDaemon.Engine

open Provider Automaton

/-! ## The assembler -/

structure PendingCall where
  name : String
  arguments : String
  snapshotSeen : Bool
  completed : Bool
  deriving DecidableEq, Repr

/-- `calls` is the map from an identity to its call. -/
structure ToolCallAssembler where
  text : String := ""
  calls : Table (Prod.fst : ExecutionIdentity × PendingCall → ExecutionIdentity) := .empty
  order : List ExecutionIdentity := []
  failure : Option ToolCallStreamError := none
  outputTruncated : Bool := false

namespace ToolCallAssembler

variable (a : ToolCallAssembler)

def call? (execId : ExecutionIdentity) : Option PendingCall :=
  (a.calls.find? execId).map Prod.snd

/-- The first failure stays. -/
def fail (code message : String) : ToolCallAssembler :=
  if a.failure.isNone then { a with failure := some ⟨code, message⟩ } else a

def modify (execId : ExecutionIdentity) (f : PendingCall → PendingCall) : ToolCallAssembler :=
  { a with calls := a.calls.update (fun r => r.1 = execId) fun r => (r.1, f r.2) }

def start (execId : ExecutionIdentity) (name : String) : ToolCallAssembler :=
  if blank name then a.fail "missing_name" "工具调用名称为空"
  else match a.calls.insert (execId, ⟨name, "", false, false⟩) with
    | none => a.fail "identity_conflict" ("execution identity 重复开始：" ++ execId.encode)
    | some calls => { a with order := a.order ++ [execId], calls }

def extend (execId : ExecutionIdentity) (fragment : ToolArgumentsFragment) : ToolCallAssembler :=
  match a.call? execId with
  | none => a.fail "anonymous_delta" ("arguments 分片没有已开始的调用：" ++ execId.encode)
  | some call =>
    if call.completed then
      a.fail "delta_after_complete" ("已完成调用收到迟到分片：" ++ execId.encode)
    else match fragment with
      | .append fragment =>
        if call.snapshotSeen then
          a.fail "delta_after_snapshot" ("权威快照后收到增量分片：" ++ execId.encode)
        else a.modify execId fun call => { call with arguments := call.arguments ++ fragment }
      | .authoritativeSnapshot snapshot =>
        if call.snapshotSeen then
          a.fail "duplicate_snapshot" ("调用收到重复权威快照：" ++ execId.encode)
        else a.modify execId fun call =>
          { call with arguments := snapshot, snapshotSeen := true }

def complete (execId : ExecutionIdentity) : ToolCallAssembler :=
  match a.call? execId with
  | none => a.fail "complete_without_start" ("工具完成事件没有对应开始：" ++ execId.encode)
  | some call =>
    if call.completed then a.fail "duplicate_complete" ("工具调用重复完成：" ++ execId.encode)
    else a.modify execId ({ · with completed := true })

/-- One event, and the text that is passed on to the client. -/
def accept (event : ProviderEvent) : Option String × ToolCallAssembler :=
  if a.failure.isSome then
    match event with
    | .textDelta delta => (some delta, a)
    | _ => (none, a)
  else match event with
    | .responseStarted | .protocolDone | .usage _ | .thinkingDelta _ => (none, a)
    | .textDelta delta => (some delta, { a with text := a.text ++ delta })
    | .outputTruncated => (none, { a with outputTruncated := true })
    | .toolCallStarted execId name => (none, a.start execId name)
    | .toolCallDelta execId fragment => (none, a.extend execId fragment)
    | .toolCallCompleted execId => (none, a.complete execId)
    | .toolCallFailed error => (none, { a with failure := some error })

variable {Value : Type} (json : Serde Value)

/-- The call of one identity of `order`. -/
def output (execId : ExecutionIdentity) : Except ToolCallStreamError (ToolCall Value) :=
  match a.call? execId with
  | none => .error ⟨"identity_conflict", "工具调用顺序索引与状态表不一致"⟩
  | some call =>
    if blank call.arguments then .ok ⟨execId.encode, call.name, json.emptyObject⟩
    else match json.fromStr call.arguments with
      | .ok arguments => .ok ⟨execId.encode, call.name, arguments⟩
      | .error error =>
        .error ⟨"invalid_json", "工具 " ++ call.name ++ " 的 arguments 不是合法 JSON：" ++ error⟩

def finish : Response Value :=
  match a.failure with
  | some error => .toolAssemblyFailed error
  | none =>
    if a.outputTruncated && !a.calls.rows.isEmpty then
      .toolAssemblyFailed ⟨"output_truncated",
        "模型响应达到输出 token 上限，工具参数可能被截断；本轮工具调用已全部拒绝"⟩
    else match a.order.find? fun execId => (a.call? execId).any fun call => !call.completed with
      | some execId =>
        .toolAssemblyFailed ⟨"incomplete_call", "流结束时工具调用未完成：" ++ execId.encode⟩
      | none =>
        if a.calls.rows.isEmpty then .text a.text
        else match a.order.mapM (a.output json) with
          | .error error => .toolAssemblyFailed error
          | .ok calls => .toolCalls calls

end ToolCallAssembler

/-- The assembler after a sequence of events. -/
def assemble (events : List ProviderEvent) : ToolCallAssembler :=
  events.foldl (fun a event => (a.accept event).2) {}

/-! ## The grammar of one call -/

/-- What the assembler reads about one identity. -/
inductive CallEvent where
  | started (name : String)
  | append (fragment : String)
  | snapshot (snapshot : String)
  | completed
  deriving DecidableEq, Repr

def callEvent : ProviderEvent → Option (ExecutionIdentity × CallEvent)
  | .toolCallStarted execId name => some (execId, .started name)
  | .toolCallDelta execId (.append fragment) => some (execId, .append fragment)
  | .toolCallDelta execId (.authoritativeSnapshot snapshot) => some (execId, .snapshot snapshot)
  | .toolCallCompleted execId => some (execId, .completed)
  | _ => none

/-- The subsequence of one identity. -/
abbrev callEvents (execId : ExecutionIdentity) (events : List ProviderEvent) : List CallEvent :=
  own callEvent execId events

/-- A call that is not completed yet. -/
def opening (name : String) (fragments : List String) (snapshot : Option String) :
    List CallEvent :=
  .started name :: (fragments.map .append ++ snapshot.toList.map .snapshot)

/-- Started, appended to, replaced at most once by a snapshot, and completed. -/
def sentence (name : String) (fragments : List String) (snapshot : Option String) :
    List CallEvent := opening name fragments snapshot ++ [.completed]

/-- The snapshot if there is one, else the fragments in their order. -/
def argumentsOf (fragments : List String) (snapshot : Option String) : String :=
  snapshot.getD (String.join fragments)

/-- Blank arguments mean the empty object. -/
def readArguments {Value : Type} (json : Serde Value) (arguments : String) : Option Value :=
  if blank arguments then some json.emptyObject else (json.fromStr arguments).toOption

/-- The identities in the order of their start events. -/
def starts (events : List ProviderEvent) : List ExecutionIdentity :=
  events.filterMap fun
    | .toolCallStarted execId _ => some execId
    | _ => none

/-- The text deltas, one after the other. -/
def textOf (events : List ProviderEvent) : String :=
  String.join (events.filterMap fun
    | .textDelta delta => some delta
    | _ => none)

/-- No event is about a tool call. -/
def ToolFree (events : List ProviderEvent) : Prop :=
  (∀ event ∈ events, callEvent event = none) ∧ ∀ error, .toolCallFailed error ∉ events

/-- What the assembler is to accept as tool calls. -/
structure Accepted {Value : Type} (json : Serde Value) (events : List ProviderEvent) : Prop where
  called : ∃ execId, callEvents execId events ≠ []
  unfailed : ∀ error, .toolCallFailed error ∉ events
  untruncated : .outputTruncated ∉ events
  sentences : ∀ execId, callEvents execId events ≠ [] → ∃ name fragments snapshot,
    callEvents execId events = sentence name fragments snapshot ∧ blank name = false ∧
      (readArguments json (argumentsOf fragments snapshot)).isSome = true

/-- The calls that the events spell out, in the order of their starts. -/
def Listed {Value : Type} (json : Serde Value) (events : List ProviderEvent)
    (calls : List (ToolCall Value)) : Prop :=
  List.Forall₂ (fun execId call => ∃ name fragments snapshot,
    callEvents execId events = sentence name fragments snapshot ∧ call.id = execId.encode ∧
      call.name = name ∧
        readArguments json (argumentsOf fragments snapshot) = some call.arguments)
    (starts events) calls

/-! ## The automaton of one call -/

/-- What the assembler does with the call of one identity; `none` where it fails. -/
def track : Option PendingCall → CallEvent → Option (Option PendingCall)
  | none, .started name => if blank name then none else some (some ⟨name, "", false, false⟩)
  | none, _ | some _, .started _ => none
  | some call, .append fragment =>
    if call.completed || call.snapshotSeen then none
    else some (some { call with arguments := call.arguments ++ fragment })
  | some call, .snapshot snapshot =>
    if call.completed || call.snapshotSeen then none
    else some (some { call with arguments := snapshot, snapshotSeen := true })
  | some call, .completed =>
    if call.completed then none else some (some { call with completed := true })

theorem argumentsOf_concat (fragments : List String) (fragment : String) :
    argumentsOf (fragments ++ [fragment]) none = argumentsOf fragments none ++ fragment := by
  simp [argumentsOf, String.join_append, String.join_cons]

theorem opening_append (name : String) (fragments : List String) (fragment : String) :
    opening name fragments none ++ [.append fragment] = opening name (fragments ++ [fragment]) none := by
  simp [opening]

theorem opening_snapshot (name : String) (fragments : List String) (snapshot : String) :
    opening name fragments none ++ [.snapshot snapshot] = opening name fragments (some snapshot) := by
  simp [opening]

/-- The words that lead to a state. -/
def Spells (word : List CallEvent) : Option PendingCall → Prop
  | none => word = []
  | some call => ∃ fragments snapshot,
    word = (if call.completed then sentence else opening) call.name fragments snapshot ∧
      blank call.name = false ∧ call.arguments = argumentsOf fragments snapshot ∧
        call.snapshotSeen = snapshot.isSome

theorem Spells.step {word : List CallEvent} {st st' : Option PendingCall} {e : CallEvent}
    (h : Spells word st) (ht : track st e = some st') : Spells (word ++ [e]) st' := by
  cases st with
  | none =>
    cases h
    cases e with
    | started name =>
      simp only [track] at ht
      split at ht
      · cases ht
      · rename_i hname
        cases ht
        exact ⟨[], none, rfl, by simpa using hname, rfl, rfl⟩
    | _ => cases ht
  | some call =>
    obtain ⟨fragments, snapshot, rfl, hname, hargs, hseen⟩ := h
    cases e with
    | started name => cases ht
    | append fragment =>
      simp only [track, Bool.or_eq_true] at ht
      split at ht
      · cases ht
      · rename_i hfree
        obtain ⟨hc, hs⟩ := not_or.mp hfree
        cases ht
        cases snapshot with
        | some snapshot => exact absurd hseen hs
        | none =>
          refine ⟨fragments ++ [fragment], none, ?_, hname, ?_, hseen⟩
          · rw [if_neg hc, opening_append]
          · rw [argumentsOf_concat, ← hargs]
    | snapshot text =>
      simp only [track, Bool.or_eq_true] at ht
      split at ht
      · cases ht
      · rename_i hfree
        obtain ⟨hc, hs⟩ := not_or.mp hfree
        cases ht
        cases snapshot with
        | some snapshot => exact absurd hseen hs
        | none =>
          refine ⟨fragments, some text, ?_, hname, rfl, rfl⟩
          rw [if_neg hc, opening_snapshot]
    | completed =>
      simp only [track] at ht
      split at ht
      · cases ht
      · rename_i hc
        cases ht
        refine ⟨fragments, snapshot, ?_, hname, hargs, hseen⟩
        rw [if_neg hc, if_pos rfl]
        rfl

theorem spells_of_run {word : List CallEvent} {st : Option PendingCall}
    (h : run track none word = some st) : Spells word st :=
  run_induct (show Spells [] none from rfl) (fun _ _ _ _ => Spells.step) h

theorem run_appends {call : PendingCall} (hc : call.completed = false)
    (hs : call.snapshotSeen = false) (fragments : List String) :
    run track (some call) (fragments.map .append) =
      some (some { call with arguments := call.arguments ++ String.join fragments }) := by
  induction fragments generalizing call with
  | nil => simp
  | cons fragment fragments ih =>
    rw [List.map_cons, run_cons]
    simp only [track, hc, hs, Bool.or_false, Bool.false_eq_true, if_false, Option.bind_some]
    rw [ih rfl rfl]
    simp [String.join_cons, String.append_assoc]

theorem run_opening {name : String} (hname : blank name = false) (fragments : List String)
    (snapshot : Option String) : run track none (opening name fragments snapshot) =
      some (some ⟨name, argumentsOf fragments snapshot, snapshot.isSome, false⟩) := by
  rw [opening, run_cons]
  simp only [track, hname, Bool.false_eq_true, if_false, Option.bind_some, run_append]
  rw [run_appends rfl rfl]
  cases snapshot <;> simp [track, argumentsOf]

/-- The automaton ends in a completed call just on the sentences. -/
theorem run_sentence {name : String} (hname : blank name = false) (fragments : List String)
    (snapshot : Option String) : run track none (sentence name fragments snapshot) =
      some (some ⟨name, argumentsOf fragments snapshot, snapshot.isSome, true⟩) := by
  rw [sentence, run_append, run_opening hname]
  rfl

/-! ## The assembler runs one automaton for each identity -/

section Tracks

variable {events : List ProviderEvent} {a a' : ToolCallAssembler} {event : ProviderEvent}

theorem call?_modify (a : ToolCallAssembler) (execId : ExecutionIdentity)
    (f : PendingCall → PendingCall) (k : ExecutionIdentity) :
    (a.modify execId f).call? k = if k = execId then (a.call? k).map f else a.call? k := by
  simp only [ToolCallAssembler.call?, ToolCallAssembler.modify, Table.find?_update]
  cases hk : a.calls.find? k with
  | none => simp
  | some r =>
    have hkey : r.1 = k := Table.key_of_find? hk
    by_cases e : k = execId
    · simp [hkey, e]
    · simp [hkey, e]

/-- What the assembler has read as long as it has not failed. -/
structure Reading (events : List ProviderEvent) (a : ToolCallAssembler) : Prop where
  unfailed : ∀ error, .toolCallFailed error ∉ events
  follows : Follows track none callEvent a.call? events
  order : a.order = starts events
  text : a.text = textOf events
  truncated : a.outputTruncated = true ↔ .outputTruncated ∈ events

/-- Why the assembler has failed. -/
def Refused (events : List ProviderEvent) : Prop :=
  (∃ error, .toolCallFailed error ∈ events) ∨
    ∃ execId, run track none (callEvents execId events) = none

/-- The assembler has read all events, or has failed on one that is to be refused. -/
structure Tracks (events : List ProviderEvent) (a : ToolCallAssembler) : Prop where
  reading : a.failure = none → Reading events a
  refused : a.failure.isSome = true → Refused events

theorem Refused.concat (h : Refused events) (event : ProviderEvent) :
    Refused (events ++ [event]) := by
  rcases h with ⟨error, he⟩ | ⟨execId, he⟩
  · exact .inl ⟨error, List.mem_append_left _ he⟩
  · refine .inr ⟨execId, ?_⟩
    rw [callEvents, own_append]
    exact run_prefix he

/-- A letter that is refused makes the assembler fail. -/
theorem Reading.fail {execId : ExecutionIdentity} {c : CallEvent} (h : Reading events a)
    (he : callEvent event = some (execId, c)) (ht : track (a.call? execId) c = none)
    (hfail : a'.failure.isSome = true) : Tracks (events ++ [event]) a' where
  reading hnone := by
    rw [hnone] at hfail
    cases hfail
  refused _ := .inr ⟨execId, h.follows.refuse he ht⟩

theorem isSome_fail (a : ToolCallAssembler) (code message : String) :
    (a.fail code message).failure.isSome = true := by
  unfold ToolCallAssembler.fail
  split
  · rfl
  · rename_i h
    simpa [Option.isSome_iff_ne_none] using h

theorem not_mem_concat {α : Type} {x y : α} {l : List α} (h : x ∉ l) (hne : x ≠ y) :
    x ∉ l ++ [y] := by
  simp [h, hne]

/-- A letter that is read. -/
theorem Reading.read {execId : ExecutionIdentity} {c : CallEvent} (h : Reading events a)
    (he : callEvent event = some (execId, c))
    (ht : track (a.call? execId) c = some (a'.call? execId))
    (hother : ∀ k, k ≠ execId → a'.call? k = a.call? k)
    (horder : a'.order = a.order ++ starts [event]) (htext : a'.text = a.text)
    (htrunc : a'.outputTruncated = a.outputTruncated) (hfailure : a'.failure = none) :
    Tracks (events ++ [event]) a' where
  reading _ := {
    unfailed := fun error => not_mem_concat (h.unfailed error) (by rintro rfl; cases he)
    follows := h.follows.read he ht hother
    order := by rw [horder, h.order, starts, starts, starts, List.filterMap_append]
    text := by
      rw [htext, h.text, textOf, textOf, List.filterMap_append]
      cases event <;> first | (cases he; done) | simp
    truncated := by
      rw [htrunc, h.truncated]
      cases event <;> first | (cases he; done) | simp }
  refused hsome := by
    rw [hfailure] at hsome
    cases hsome

/-- An event that is about no call and fails nothing. -/
theorem Reading.skip (h : Reading events a) (he : callEvent event = none)
    (hno : ∀ error, event ≠ .toolCallFailed error) (hcalls : a'.calls = a.calls)
    (horder : a'.order = a.order) (htext : a'.text = a.text ++ textOf [event])
    (htrunc : a'.outputTruncated = (a.outputTruncated || event = .outputTruncated))
    (hfailure : a'.failure = none) : Tracks (events ++ [event]) a' where
  reading _ := {
    unfailed := fun error => not_mem_concat (h.unfailed error) (hno error).symm
    follows := by
      have e : a'.call? = a.call? := by
        funext k
        rw [ToolCallAssembler.call?, hcalls]
        rfl
      exact e ▸ h.follows.skip he
    order := by
      rw [horder, h.order, starts, starts, List.filterMap_append]
      cases event <;> first | (cases he; done) | simp
    text := by
      rw [htext, h.text, textOf, textOf, textOf, List.filterMap_append, String.join_append]
    truncated := by
      rw [htrunc, Bool.or_eq_true, h.truncated, List.mem_append, List.mem_singleton,
        decide_eq_true_eq, eq_comm] }
  refused hsome := by
    rw [hfailure] at hsome
    cases hsome

theorem call?_eq_none {execId : ExecutionIdentity} :
    a.call? execId = none ↔ a.calls.find? execId = none := Option.map_eq_none_iff

/-- A new call, or a failure. -/
theorem Reading.start (h : Reading events a) (hnone : a.failure = none)
    (execId : ExecutionIdentity) (name : String) :
    Tracks (events ++ [.toolCallStarted execId name]) (a.start execId name) := by
  unfold ToolCallAssembler.start
  split
  · rename_i hname
    refine h.fail rfl ?_ (isSome_fail a _ _)
    cases hcall : a.call? execId with
    | none => simp [track, hname]
    | some call => rfl
  · rename_i hname
    split
    · rename_i htaken
      obtain ⟨r, hr⟩ := Table.find?_of_insert_none htaken
      refine h.fail rfl ?_ (isSome_fail a _ _)
      rw [ToolCallAssembler.call?, hr]
      rfl
    · rename_i calls hinsert
      have hfresh : a.call? execId = none := call?_eq_none.mpr (Table.insert_fresh hinsert)
      refine h.read rfl ?_ (fun k hk => ?_) rfl rfl rfl hnone
      · rw [hfresh]
        simp [track, hname, ToolCallAssembler.call?, Table.find?_insert hinsert]
      · simp [ToolCallAssembler.call?, Table.find?_insert hinsert, hk.symm]

/-- A call that goes on by a letter its automaton reads. -/
theorem Reading.modify {execId : ExecutionIdentity} {c : CallEvent} {call : PendingCall}
    {f : PendingCall → PendingCall} (h : Reading events a) (hnone : a.failure = none)
    (he : callEvent event = some (execId, c)) (hstart : starts [event] = [])
    (hcall : a.call? execId = some call) (ht : track (some call) c = some (some (f call))) :
    Tracks (events ++ [event]) (a.modify execId f) := by
  refine h.read he ?_ (fun k hk => ?_) ?_ rfl rfl hnone
  · rw [call?_modify, if_pos rfl, hcall, ht]
    rfl
  · rw [call?_modify, if_neg hk]
  · rw [hstart, List.append_nil]
    rfl

theorem Reading.extend (h : Reading events a) (hnone : a.failure = none)
    (execId : ExecutionIdentity) (fragment : ToolArgumentsFragment) :
    Tracks (events ++ [.toolCallDelta execId fragment]) (a.extend execId fragment) := by
  unfold ToolCallAssembler.extend
  split
  · rename_i hcall
    cases fragment with
    | append fragment => exact h.fail rfl (by rw [hcall]; rfl) (isSome_fail a _ _)
    | authoritativeSnapshot text => exact h.fail rfl (by rw [hcall]; rfl) (isSome_fail a _ _)
  · rename_i call hcall
    split
    · rename_i hc
      cases fragment with
      | append fragment => exact h.fail rfl (by simp [hcall, track, hc]) (isSome_fail a _ _)
      | authoritativeSnapshot text =>
        exact h.fail rfl (by simp [hcall, track, hc]) (isSome_fail a _ _)
    · rename_i hc
      cases fragment with
      | append fragment =>
        dsimp only
        split
        · rename_i hs
          exact h.fail rfl (by simp [hcall, track, hs]) (isSome_fail a _ _)
        · rename_i hs
          exact h.modify hnone rfl rfl hcall (by simp [track, hc, hs])
      | authoritativeSnapshot text =>
        dsimp only
        split
        · rename_i hs
          exact h.fail rfl (by simp [hcall, track, hs]) (isSome_fail a _ _)
        · rename_i hs
          exact h.modify hnone rfl rfl hcall (by simp [track, hc, hs])

theorem Reading.complete (h : Reading events a) (hnone : a.failure = none)
    (execId : ExecutionIdentity) :
    Tracks (events ++ [.toolCallCompleted execId]) (a.complete execId) := by
  unfold ToolCallAssembler.complete
  split
  · rename_i hcall
    exact h.fail rfl (by rw [hcall]; rfl) (isSome_fail a _ _)
  · rename_i call hcall
    split
    · rename_i hc
      exact h.fail rfl (by simp [hcall, track, hc]) (isSome_fail a _ _)
    · rename_i hc
      exact h.modify hnone rfl rfl hcall (by simp [track, hc])

/-- One event is read, or makes the assembler fail for good. -/
theorem Tracks.accept (h : Tracks events a) (event : ProviderEvent) :
    Tracks (events ++ [event]) (a.accept event).2 := by
  unfold ToolCallAssembler.accept
  split
  · rename_i hsome
    have hsame : Tracks (events ++ [event]) a := by
      refine ⟨fun hnone => ?_, fun _ => (h.refused hsome).concat event⟩
      rw [hnone] at hsome
      cases hsome
    cases event <;> exact hsame
  · rename_i hfree
    have hnone : a.failure = none := by simpa [Option.isSome_iff_ne_none] using hfree
    have hr := h.reading hnone
    cases event with
    | responseStarted | protocolDone | usage _ | thinkingDelta _ =>
      exact hr.skip rfl (fun _ e => by cases e) rfl rfl (by simp [textOf]) (by simp) hnone
    | textDelta delta =>
      exact hr.skip rfl (fun _ e => by cases e) rfl rfl (by simp [textOf, String.join_cons])
        (by simp) hnone
    | outputTruncated =>
      exact hr.skip rfl (fun _ e => by cases e) rfl rfl (by simp [textOf]) (by simp) hnone
    | toolCallStarted execId name => exact hr.start hnone execId name
    | toolCallDelta execId fragment => exact hr.extend hnone execId fragment
    | toolCallCompleted execId => exact hr.complete hnone execId
    | toolCallFailed error =>
      refine ⟨fun hnone => ?_, fun _ => .inl ⟨error, by simp⟩⟩
      cases hnone

theorem tracks_assemble (events : List ProviderEvent) : Tracks events (assemble events) := by
  induction events using List.reverseRecOn with
  | nil =>
    refine ⟨fun _ => ⟨by simp, follows_nil, rfl, rfl, by simp [assemble]⟩, fun hsome => ?_⟩
    cases hsome
  | append_singleton events event ih =>
    have e : assemble (events ++ [event]) = ((assemble events).accept event).2 := by
      simp [assemble]
    exact e ▸ ih.accept event

end Tracks

/-! ## What comes out -/

section Finish

variable {Value : Type} {json : Serde Value} {events : List ProviderEvent}
  {a : ToolCallAssembler} {execId : ExecutionIdentity}

theorem Reading.run (h : Reading events a) (execId : ExecutionIdentity) :
    run track none (callEvents execId events) = some (a.call? execId) := h.follows execId

theorem Reading.call?_none_iff (h : Reading events a) :
    a.call? execId = none ↔ callEvents execId events = [] := by
  have hrun := h.run execId
  constructor
  · intro hcall
    rw [hcall] at hrun
    exact spells_of_run hrun
  · intro hnil
    rw [hnil] at hrun
    exact (Option.some.inj hrun).symm

/-- The identities with a call are those that were started. -/
theorem Reading.mem_order_iff (h : Reading events a) :
    execId ∈ a.order ↔ callEvents execId events ≠ [] := by
  rw [h.order, starts, List.mem_filterMap]
  constructor
  · rintro ⟨event, hm, he⟩
    cases event with
    | toolCallStarted k name =>
      cases he
      exact own_ne_nil.mpr ⟨_, hm, _, rfl⟩
    | _ => cases he
  · intro hne
    have hcall : a.call? execId ≠ none := fun e => hne (h.call?_none_iff.mp e)
    obtain ⟨call, hcall⟩ := Option.ne_none_iff_exists'.mp hcall
    have hrun := h.run execId
    rw [hcall] at hrun
    obtain ⟨fragments, snapshot, hword, -⟩ := spells_of_run hrun
    have hm : CallEvent.started call.name ∈ callEvents execId events := by
      rw [hword]
      split <;> simp [sentence, opening]
    obtain ⟨event, hm, he⟩ := List.mem_filterMap.mp hm
    obtain ⟨⟨k, c⟩, hv, he⟩ := Option.bind_eq_some_iff.mp he
    refine ⟨event, hm, ?_⟩
    split at he
    · rename_i hk
      cases event with
      | toolCallStarted k' name =>
        cases hv
        exact congrArg some hk
      | toolCallDelta k' fragment => cases fragment <;> cases hv <;> cases he
      | toolCallCompleted k' =>
        cases hv
        cases he
      | _ => cases hv
    · cases he

theorem Reading.empty_iff (h : Reading events a) :
    a.calls.rows.isEmpty = true ↔ ∀ execId, callEvents execId events = [] := by
  rw [List.isEmpty_iff]
  constructor
  · intro he execId
    refine h.call?_none_iff.mp (call?_eq_none.mpr ?_)
    rw [Table.find?, he]
    rfl
  · intro hall
    by_contra hne
    obtain ⟨r, hr⟩ := List.exists_mem_of_ne_nil _ hne
    have hcall := h.call?_none_iff.mpr (hall r.1)
    rw [call?_eq_none, Table.find?_of_mem hr] at hcall
    cases hcall

theorem toolFree_iff : ToolFree events ↔
    (∀ execId, callEvents execId events = []) ∧ ∀ error, .toolCallFailed error ∉ events := by
  refine and_congr_left fun _ => ⟨fun h execId => ?_, fun h event hm => ?_⟩
  · by_contra hne
    obtain ⟨event, hm, c, hv⟩ := own_ne_nil.mp hne
    cases (h event hm).symm.trans hv
  · cases hv : callEvent event with
    | none => rfl
    | some p =>
      obtain ⟨k, c⟩ := p
      exact absurd (h k) (own_ne_nil.mpr ⟨event, hm, c, hv⟩)

theorem output_eq_ok {call : ToolCall Value} :
    a.output json execId = .ok call ↔ ∃ pending, a.call? execId = some pending ∧
      call.id = execId.encode ∧ call.name = pending.name ∧
        readArguments json pending.arguments = some call.arguments := by
  obtain ⟨id, name, arguments⟩ := call
  unfold ToolCallAssembler.output readArguments
  cases a.call? execId with
  | none => simp
  | some pending =>
    have hsome : (∃ p, some pending = some p ∧ id = execId.encode ∧ name = p.name ∧
        (if blank p.arguments then some json.emptyObject
          else (json.fromStr p.arguments).toOption) = some arguments) ↔
        id = execId.encode ∧ name = pending.name ∧
          (if blank pending.arguments then some json.emptyObject
            else (json.fromStr pending.arguments).toOption) = some arguments := by simp
    rw [hsome]
    dsimp only
    split
    · grind
    · cases json.fromStr pending.arguments with
      | error e => simp [Except.toOption]
      | ok value => simp only [Except.toOption]; grind

/-- A completed call was spelt by a sentence. -/
theorem Reading.sentence (h : Reading events a) {pending : PendingCall}
    (hcall : a.call? execId = some pending) (hdone : pending.completed = true) :
    ∃ fragments snapshot, callEvents execId events = sentence pending.name fragments snapshot ∧
      blank pending.name = false ∧ pending.arguments = argumentsOf fragments snapshot := by
  have hrun := h.run execId
  rw [hcall] at hrun
  obtain ⟨fragments, snapshot, hword, hname, hargs, -⟩ := spells_of_run hrun
  rw [if_pos hdone] at hword
  exact ⟨fragments, snapshot, hword, hname, hargs⟩

/-- Where the grammar is met, every identity has a completed call with readable arguments. -/
theorem Accepted.call? (h : Accepted json events) (hr : Reading events a)
    (hm : execId ∈ a.order) : ∃ pending, a.call? execId = some pending ∧
      pending.completed = true ∧ (readArguments json pending.arguments).isSome = true := by
  obtain ⟨name, fragments, snapshot, hword, hname, hargs⟩ :=
    h.sentences execId (hr.mem_order_iff.mp hm)
  have hrun := hr.run execId
  rw [hword, run_sentence hname] at hrun
  exact ⟨_, (Option.some.inj hrun).symm, rfl, hargs⟩

theorem Refused.not_accepted (h : Refused events) : ¬ Accepted json events := by
  intro hacc
  rcases h with ⟨error, he⟩ | ⟨execId, he⟩
  · exact hacc.unfailed error he
  · by_cases hnil : callEvents execId events = []
    · rw [hnil] at he
      cases he
    · obtain ⟨name, fragments, snapshot, hword, hname, -⟩ := hacc.sentences execId hnil
      rw [hword, run_sentence hname] at he
      cases he

theorem Refused.not_toolFree (h : Refused events) : ¬ ToolFree events := by
  intro hfree
  rcases h with ⟨error, he⟩ | ⟨execId, he⟩
  · exact hfree.2 error he
  · rw [(toolFree_iff.mp hfree).1 execId] at he
    cases he

/-- The three outcomes of the assembler and what they say of its events. -/
theorem finish_cases (json : Serde Value) (events : List ProviderEvent) :
    (∃ calls, (assemble events).finish json = .toolCalls calls ∧ Accepted json events ∧
      ¬ ToolFree events ∧ Listed json events calls) ∨
    ((assemble events).finish json = .text (textOf events) ∧ ToolFree events ∧
      ¬ Accepted json events) ∨
    (∃ error, (assemble events).finish json = .toolAssemblyFailed error) ∧
      ¬ Accepted json events ∧ ¬ ToolFree events := by
  have ht := tracks_assemble events
  generalize assemble events = a at ht
  unfold ToolCallAssembler.finish
  split
  · rename_i error hfail
    have href := ht.refused (by rw [hfail]; rfl)
    exact .inr (.inr ⟨⟨error, rfl⟩, href.not_accepted, href.not_toolFree⟩)
  · rename_i hnone
    have hr := ht.reading hnone
    have hfree : a.calls.rows.isEmpty = false → ¬ ToolFree events := by
      intro hne hfree
      rw [hr.empty_iff.mpr (toolFree_iff.mp hfree).1] at hne
      cases hne
    split
    · rename_i htrunc
      simp only [Bool.and_eq_true, Bool.not_eq_true'] at htrunc
      exact .inr (.inr ⟨⟨_, rfl⟩, fun h => h.untruncated (hr.truncated.mp htrunc.1),
        hfree htrunc.2⟩)
    · rename_i htrunc
      split
      · rename_i execId hfind
        refine .inr (.inr ⟨⟨_, rfl⟩, fun h => ?_, fun h => ?_⟩)
        · obtain ⟨pending, hcall, hdone, -⟩ := h.call? hr (List.mem_of_find?_eq_some hfind)
          have hopen := List.find?_some hfind
          simp [hcall, hdone] at hopen
        · exact hr.mem_order_iff.mp (List.mem_of_find?_eq_some hfind)
            ((toolFree_iff.mp h).1 execId)
      · rename_i hfind
        split
        · rename_i hempty
          refine .inr (.inl ⟨by rw [hr.text], toolFree_iff.mpr ⟨hr.empty_iff.mp hempty, hr.unfailed⟩,
            fun h => ?_⟩)
          obtain ⟨execId, hne⟩ := h.called
          exact hne (hr.empty_iff.mp hempty execId)
        · rename_i hne
          have hne' : a.calls.rows.isEmpty = false := by simpa using hne
          split
          · rename_i error hmap
            refine .inr (.inr ⟨⟨error, rfl⟩, fun h => ?_, hfree hne'⟩)
            obtain ⟨execId, hm, herr⟩ := Fallible.mapM_eq_error hmap
            obtain ⟨pending, hcall, -, hargs⟩ := h.call? hr hm
            obtain ⟨arguments, hargs⟩ := Option.isSome_iff_exists.mp hargs
            have hok : a.output json execId = .ok ⟨execId.encode, pending.name, arguments⟩ :=
              output_eq_ok.mpr ⟨pending, hcall, rfl, rfl, hargs⟩
            cases herr.symm.trans hok
          · rename_i calls hmap
            have hout := Fallible.mapM_eq_ok hmap
            have hdone : ∀ execId ∈ a.order, ∀ pending, a.call? execId = some pending →
                pending.completed = true := by
              intro execId hm pending hcall
              have hopen := List.find?_eq_none.mp hfind execId hm
              simpa [hcall] using hopen
            refine .inl ⟨calls, rfl, ⟨?_, hr.unfailed, ?_, fun execId hne => ?_⟩, hfree hne', ?_⟩
            · by_contra hno
              simp only [not_exists, not_not] at hno
              exact hne (hr.empty_iff.mpr hno)
            · intro hm
              exact htrunc (by rw [hr.truncated.mpr hm, hne']; rfl)
            · have hm := hr.mem_order_iff.mpr hne
              obtain ⟨call, hok⟩ := Fallible.exists_ok_of_mapM hmap hm
              obtain ⟨pending, hcall, -, -, hargs⟩ := output_eq_ok.mp hok
              obtain ⟨fragments, snapshot, hword, hname, e⟩ :=
                hr.sentence hcall (hdone execId hm pending hcall)
              exact ⟨pending.name, fragments, snapshot, hword, hname, by rw [← e, hargs]; rfl⟩
            · rw [Listed, ← hr.order]
              refine List.Forall₂.imp ?_
                ((List.forall₂_and_left (p := (· ∈ a.order)) _ _).mpr ⟨fun _ => id, hout⟩)
              rintro execId call ⟨hm, hok⟩
              obtain ⟨pending, hcall, hid, hname, hargs⟩ := output_eq_ok.mp hok
              obtain ⟨fragments, snapshot, hword, -, e⟩ :=
                hr.sentence hcall (hdone execId hm pending hcall)
              exact ⟨pending.name, fragments, snapshot, hword, hid, hname, by rw [← e, hargs]⟩

/-- **The assembler is its grammar.** It yields tool calls exactly where every identity spells a
sentence and nothing failed or was cut off, and the calls are those the sentences give, in the
order of their starts; without a tool event it yields the text, and else it fails. -/
theorem assembled_spec (json : Serde Value) (events : List ProviderEvent) :
    ((∃ calls, (assemble events).finish json = .toolCalls calls) ↔ Accepted json events) ∧
    (∀ calls, (assemble events).finish json = .toolCalls calls → Listed json events calls) ∧
    (ToolFree events → (assemble events).finish json = .text (textOf events)) ∧
    (¬ Accepted json events → ¬ ToolFree events →
      ∃ error, (assemble events).finish json = .toolAssemblyFailed error) := by
  rcases finish_cases json events with ⟨calls, hfin, hacc, hfree, hlist⟩ | ⟨hfin, hfree, hacc⟩ |
    ⟨⟨error, hfin⟩, hacc, hfree⟩ <;> rw [hfin]
  · refine ⟨iff_of_true ⟨calls, rfl⟩ hacc, ?_, fun h => absurd h hfree, fun h => absurd hacc h⟩
    rintro _ ⟨⟩
    exact hlist
  · exact ⟨iff_of_false (fun ⟨_, e⟩ => nomatch e) hacc, (fun _ e => nomatch e), fun _ => rfl,
      fun _ h => absurd hfree h⟩
  · exact ⟨iff_of_false (fun ⟨_, e⟩ => nomatch e) hacc, (fun _ e => nomatch e),
      fun h => absurd h hfree, fun _ _ => ⟨error, rfl⟩⟩

end Finish

/-! ## The ids of the calls -/

section Ids

variable {Value : Type} {json : Serde Value} {events : List ProviderEvent}
  {calls : List (ToolCall Value)}

/-- One start event for each start that an identity reads. -/
theorem count_starts (events : List ProviderEvent) (execId : ExecutionIdentity) :
    (starts events).count execId =
      (callEvents execId events).countP fun c => match c with | .started _ => true | _ => false := by
  induction events with
  | nil => rfl
  | cons event events ih =>
    have happ : callEvents execId (event :: events) =
        callEvents execId [event] ++ callEvents execId events := own_append execId [event] events
    rw [happ, List.countP_append, ← ih]
    cases event with
    | toolCallStarted id name =>
      by_cases e : id = execId
      · simp [starts, own, callEvent, e]; omega
      · simp [starts, own, callEvent, e]
    | toolCallDelta id fragment =>
      cases fragment <;> by_cases e : id = execId <;> simp [starts, own, callEvent, e]
    | toolCallCompleted id =>
      by_cases e : id = execId <;> simp [starts, own, callEvent, e]
    | _ => simp [starts, own, callEvent]

/-- A sentence has one start. -/
theorem countP_sentence (name : String) (fragments : List String) (snapshot : Option String) :
    (sentence name fragments snapshot).countP
      (fun c => match c with | .started _ => true | _ => false) = 1 := by
  cases snapshot <;> simp [sentence, opening, List.countP_map, Function.comp_def]

theorem Listed.nodup_starts (h : Listed json events calls) : (starts events).Nodup := by
  rw [List.nodup_iff_count_le_one]
  intro execId
  by_cases hm : execId ∈ starts events
  · obtain ⟨i, hi, rfl⟩ := List.getElem_of_mem hm
    obtain ⟨name, fragments, snapshot, hword, -⟩ := (List.forall₂_iff_get.mp h).2 i hi
      ((List.Forall₂.length_eq h) ▸ hi)
    have hone : (starts events).count (starts events)[i] = 1 := by
      rw [List.get_eq_getElem] at hword
      rw [count_starts, hword, countP_sentence]
    exact Nat.le_of_eq hone
  · rw [List.count_eq_zero.mpr hm]
    exact Nat.zero_le 1

theorem Listed.ids (h : Listed json events calls) :
    calls.map (·.id) = (starts events).map ExecutionIdentity.encode := by
  unfold Listed at h
  generalize starts events = order at h
  induction h with
  | nil => rfl
  | cons hab _ ih =>
    obtain ⟨-, -, -, -, hid, -⟩ := hab
    rw [List.map_cons, List.map_cons, ih, hid]

theorem Listed.nodup_ids (h : Listed json events calls) :
    (calls.map (·.id)).Nodup := by
  rw [h.ids]
  exact h.nodup_starts.map fun _ _ => ExecutionIdentity.encode_injective

end Ids

end AgentDaemon.Engine
