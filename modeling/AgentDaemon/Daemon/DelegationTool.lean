import AgentDaemon.Engine.Identities
import AgentDaemon.Provider.Identity
import AgentDaemon.Storage.Lineage

/-!
`DelegationTool`: a call of `spawn_subagent` asks the store for one child for each of its tasks,
under a spawn key made of the id of the call and the place of the task. Within a run the keys, and
with them the children, are as distinct as the ids of the calls.
-/

namespace AgentDaemon.Daemon

open Provider Storage Engine Transition

/-! ## What a call asks for -/

/-- The tasks of the arguments. -/
def tasksOf (name : String) (args : Json) : Except String (List String) :=
  let refused := "需要非空 task；兼容 sub_agent 可传 1 到 4 个 tasks"
  match (args.get? "task").bind Json.asStr?, (args.get? "tasks").bind Json.asArray? with
  | some task, none => if blank task then .error refused else .ok [task]
  | none, some tasks =>
    if name = "sub_agent" ∧ tasks ≠ [] ∧ tasks.length ≤ 4 then
      tasks.mapM fun task => match task.asStr? with
        | some task => .ok task
        | none => .error "tasks 中只能包含字符串"
    else .error refused
  | _, _ => .error refused

/-- `from_value::<Vec<String>>`, where there is a value. -/
def toolsOf (args : Json) : Except String (Option (List String)) :=
  match args.get? "tools" with
  | none => .ok none
  | some tools => match tools.asArray?.bind (·.mapM Json.asStr?) with
    | some names => .ok (some names)
    | none => .error "tools 必须是字符串数组"

/-- `format!("{call_id}:{index}")`. -/
def spawnKey (callId : String) (index : Nat) : String := callId ++ ":" ++ toString index

/-- The spawns that a call makes one after the other, as long as none fails. -/
structure Spawn where
  spawnKey : String
  task : String
  tools : Option (List String)
  deriving DecidableEq, Repr

/-- The part of `DelegationTool::run` that spawns; the other tools of this type only look at
children. -/
def spawns (call : ToolCall Json) : Except String (List Spawn) := do
  if call.name ≠ "spawn_subagent" ∧ call.name ≠ "sub_agent" then return []
  let tasks ← tasksOf call.name call.arguments
  if tasks.any blank then throw "子任务不能为空"
  let tools ← toolsOf call.arguments
  return tasks.zipIdx.map fun (task, index) => ⟨spawnKey call.id index, task, tools⟩

def spawnKeys (call : ToolCall Json) : List String :=
  match spawns call with
  | .ok spawns => spawns.map (·.spawnKey)
  | .error _ => []

/-! ## The keys -/

theorem spawnKey_inj {a b : String} {m n : Nat} (h : spawnKey a m = spawnKey b n) :
    a = b ∧ m = n := by
  have hlist := congrArg String.toList h
  have e : (":" : String).toList = [':'] := by decide
  simp only [spawnKey, String.toList_append, e, List.append_assoc, List.singleton_append] at hlist
  obtain ⟨hab, hmn⟩ := append_number_inj (by decide) hlist
  exact ⟨String.toList_inj.mp hab, hmn⟩

/-- The keys of a call count its tasks. -/
theorem spawnKeys_eq (call : ToolCall Json) :
    ∃ n, spawnKeys call = (List.range n).map (spawnKey call.id) := by
  unfold spawnKeys
  split
  · rename_i l h
    unfold spawns at h
    split at h
    · cases h
      exact ⟨0, rfl⟩
    · obtain ⟨tasks, -, h⟩ := Fallible.bind_eq_ok.mp h
      split at h
      · cases h
      · obtain ⟨tools, -, h⟩ := Fallible.bind_eq_ok.mp h
        cases h
        refine ⟨tasks.length, ?_⟩
        rw [List.map_map, List.range_eq_range', ← List.zipIdx_map_snd 0 tasks, List.map_map]
        rfl
  · exact ⟨0, rfl⟩

theorem nodup_spawnKeys (call : ToolCall Json) : (spawnKeys call).Nodup := by
  obtain ⟨n, e⟩ := spawnKeys_eq call
  rw [e]
  exact List.nodup_range.map fun _ _ h => (spawnKey_inj h).2

/-- Calls with distinct ids have distinct keys. -/
theorem nodup_flatMap_spawnKeys {calls : List (ToolCall Json)} (h : (calls.map (·.id)).Nodup) :
    (calls.flatMap spawnKeys).Nodup := by
  refine List.nodup_flatMap.mpr ⟨fun call _ => nodup_spawnKeys call, ?_⟩
  refine (List.pairwise_map.mp h).imp fun {a b} hne key ha hb => ?_
  obtain ⟨m, em⟩ := spawnKeys_eq a
  obtain ⟨n, en⟩ := spawnKeys_eq b
  rw [em] at ha
  rw [en] at hb
  obtain ⟨i, -, rfl⟩ := List.mem_map.mp ha
  obtain ⟨j, -, hkey⟩ := List.mem_map.mp hb
  exact hne (spawnKey_inj hkey).1.symm

/-! ## Keys of identities -/

/-- Two identities share no key under which something is stored: no tool receipt, in whatever runs and
rounds, and no child. -/
structure KeyedApart (a b : ExecutionIdentity) : Prop where
  encoded : a.encode ≠ b.encode
  receipts : ∀ runId runId' round round' (c c' : PreparedCall), c.call.id = a.encode →
    c'.call.id = b.encode →
      (RunStore.preparedRow runId round c).key ≠ (RunStore.preparedRow runId' round' c').key
  children : ∀ index index', spawnKey a.encode index ≠ spawnKey b.encode index'

theorem keyedApart_of_ne {a b : ExecutionIdentity} (h : a ≠ b) : KeyedApart a b where
  encoded := fun he => h (ExecutionIdentity.encode_injective he)
  receipts := by
    intro runId runId' round round' c c' hc hc' hkey
    have hid : c.call.id = c'.call.id := congrArg (fun key => key.2.2) hkey
    rw [hc, hc'] at hid
    exact h (ExecutionIdentity.encode_injective hid)
  children := by
    intro index index' hkey
    exact h (ExecutionIdentity.encode_injective (spawnKey_inj hkey).1)

/-- **Identities.** What an identity is encoded to is read back as that identity, and another identity
shares no key with it. -/
theorem identity_coding (a b : ExecutionIdentity) (h : a.Fits) :
    ExecutionIdentity.decode a.encode = some a ∧ (a ≠ b → KeyedApart a b) :=
  ⟨ExecutionIdentity.decode_encode h, keyedApart_of_ne⟩

/-- The id on the wire is the encoding of the other identity. -/
theorem identity_coding_nested :
    ExecutionIdentity.decode (ExecutionIdentity.wire .ollama "tc1:ollama:pos:7").encode =
      some (.wire .ollama "tc1:ollama:pos:7") ∧
    KeyedApart (.wire .ollama "tc1:ollama:pos:7") (.position .ollama 7) := by
  have hcoded := identity_coding (.wire .ollama "tc1:ollama:pos:7") (.position .ollama 7) trivial
  exact ⟨hcoded.1, hcoded.2 (by decide)⟩

/-! ## Distinct identities -/

/-- The calls of a run are told apart: by their ids, by the spawn keys that are derived from them,
and in the store, where after the spawn of one key no other key finds its child. -/
structure DistinctIdentities (runId : RunId) (calls : List (ToolCall Json)) : Prop where
  ids : (calls.map (·.id)).Nodup
  spawnKeys : (calls.flatMap spawnKeys).Nodup
  children : ∀ (s s' : RunStore) request clock rec, request.parentRunId = runId →
    s.exec (.admitDelegation request clock) = .ok (.delegation rec, s') →
    ∀ (ops : List Op) (i j : Fin (calls.flatMap Daemon.spawnKeys).length), i ≠ j →
      request.spawnKey = (calls.flatMap Daemon.spawnKeys).get i →
      (after RunStore.next s' ops).childOf runId ((calls.flatMap Daemon.spawnKeys).get j) ≠
        some rec.childRunId

theorem distinctIdentities_iff {runId : RunId} {calls : List (ToolCall Json)} :
    DistinctIdentities runId calls ↔ (calls.map (·.id)).Nodup := by
  refine ⟨fun h => h.ids, fun h => ⟨h, nodup_flatMap_spawnKeys h, ?_⟩⟩
  rintro s s' request clock rec rfl hexec ops i j hne hkey hchild
  have e := (RunStore.childOf_after_iff hexec ops _).mp hchild
  rw [hkey] at e
  exact hne (List.nodup_iff_injective_get.mp (nodup_flatMap_spawnKeys h) e.symm)

/-- **Distinct identities.** In a turn over streams of the adapters, whose ids on the wire do not
come again, the calls are told apart exactly if at most one of the batches handed to the tools is
known by the positions of its calls. -/
theorem distinct_identities_iff (json : Serde Json) (printer : Printer Json) (e : LoopEngine Json)
    (input : TurnInput) (history session : List (Message Json)) (codecs : Codecs Json)
    (rounds : List (RoundInput Json)) (runId : RunId)
    (hstreamed : ∀ round ∈ rounds, ∀ r ∈ round.requests, Streamed codecs r.stream.all)
    (hwire : WireDistinct rounds) :
    DistinctIdentities runId (executed json printer e input history session rounds) ↔
      (batches json printer e input history session rounds).countP
        (fun b => positional b.events) ≤ 1 :=
  distinctIdentities_iff.trans
    (nodup_ids_iff json printer e input history session codecs hstreamed hwire)

/-! ## Two rounds that spawn -/

def spawnArguments : String := "\x7b\"task\":\"read\"\x7d"

def spawnSerde : Serde Json where
  fromStr text := if text = spawnArguments then .ok (.obj [("task", .str "read")])
    else .error "expected value"
  emptyObject := .obj []

/-- A line of Ollama with one call. -/
def countedLine : List UInt8 :=
  ("\x7b\"message\":\x7b\"tool_calls\":[\x7b\"function\":\x7b\"name\":\"spawn_subagent\"," ++
    "\"arguments\":\x7b\"task\":\"read\"\x7d\x7d\x7d]\x7d,\"done\":true\x7d").toUTF8.toList

/-- A chunk of the OpenAI protocol with one call. -/
def wiredChunk : String :=
  "\x7b\"choices\":[\x7b\"delta\":\x7b\"tool_calls\":[\x7b\"index\":0,\"id\":\"call-1\",\"function\":" ++
    "\x7b\"name\":\"spawn_subagent\",\"arguments\":\"\x7b\\\"task\\\":\\\"read\\\"\x7d\"\x7d\x7d]\x7d\x7d]\x7d"

def spawnCodecs : Codecs Json where
  ollama := {
    fromSlice line := if line = countedLine then
        some {
          message := some { toolCalls := [⟨⟨"spawn_subagent", .obj [("task", .str "read")]⟩⟩] }
          done := true }
      else none
    print _ := spawnArguments }
  openai text := if text = wiredChunk then
      some { choices := [{ delta := {
        toolCalls := [⟨0, some "call-1", some ⟨some "spawn_subagent", some spawnArguments⟩⟩] } }] }
    else none
  anthropic _ := none

def countedEvents : List ProviderEvent :=
  (ByteLines.last (Ollama.parseNdjson spawnCodecs.ollama [.ok countedLine])).events

def wiredEvents : List ProviderEvent :=
  (ByteLines.last (Openai.parseSse spawnCodecs.openai
    [.ok ("data: " ++ wiredChunk ++ "\n\ndata: [DONE]\n").toUTF8.toList])).events

def roundOver (events : List ProviderEvent) : RoundInput Json where
  requests := [{ stream := ⟨events.map ((0, ·)), .finished, []⟩ }]

def spawningEngine : LoopEngine Json := { sessionEngine with audit := some (runIdOf 1) }

def spawningInput : TurnInput := ⟨"read", false, false, .done⟩

theorem all_of_map (events : List ProviderEvent) :
    (⟨events.map ((0, ·)), .finished, []⟩ : StreamScript).all = events := by
  simp [StreamScript.all, Function.comp_def]

theorem countedEvents_eq : countedEvents = [.responseStarted,
    .toolCallStarted (.position .ollama 0) "spawn_subagent",
    .toolCallDelta (.position .ollama 0) (.authoritativeSnapshot spawnArguments),
    .toolCallCompleted (.position .ollama 0), .usage ⟨none, none, none, none⟩, .protocolDone] := by
  decide +kernel

theorem wiredEvents_eq : wiredEvents = [.responseStarted,
    .toolCallStarted (.wire .openaiChat "call-1") "spawn_subagent",
    .toolCallDelta (.wire .openaiChat "call-1") (.append spawnArguments),
    .toolCallCompleted (.wire .openaiChat "call-1"), .protocolDone] := by
  decide +kernel

theorem streamed_counted : Streamed spawnCodecs countedEvents := by
  unfold countedEvents
  exact .ollama _ (List.prefix_refl _)

theorem streamed_wired : Streamed spawnCodecs wiredEvents := by
  unfold wiredEvents
  exact .openai _ (List.prefix_refl _)

/-- Rounds over streams of the adapters. -/
theorem streamed_rounds {events events' : List ProviderEvent} (h : Streamed spawnCodecs events)
    (h' : Streamed spawnCodecs events') :
    ∀ round ∈ [roundOver events, roundOver events'], ∀ r ∈ round.requests,
      Streamed spawnCodecs r.stream.all := by
  simp only [List.forall_mem_cons, roundOver, all_of_map]
  exact ⟨⟨h, by simp⟩, ⟨h', by simp⟩, by simp⟩

/-- A response that counts its calls has no id on the wire. -/
theorem wireDistinct_counted (events : List ProviderEvent) :
    WireDistinct [roundOver countedEvents, roundOver events] := by
  have hcounted : ∀ execId ∈ starts countedEvents, execId = .position .ollama 0 := by
    rw [countedEvents_eq]
    decide +kernel
  refine List.pairwise_pair.mpr ?_
  simp only [roundOver, List.mem_singleton]
  rintro r rfl r' rfl domain id hm
  rw [all_of_map] at hm
  cases hcounted _ hm

/-- One batch that counts its calls, and one with an id. -/
theorem distinct_counted_wired :
    (executed spawnSerde emptyPrinter spawningEngine spawningInput [] []
      [roundOver countedEvents, roundOver wiredEvents]).length = 2 ∧
    DistinctIdentities (runIdOf 1) (executed spawnSerde emptyPrinter spawningEngine spawningInput
      [] [] [roundOver countedEvents, roundOver wiredEvents]) := by
  have hbatches : (executed spawnSerde emptyPrinter spawningEngine spawningInput [] []
        [roundOver countedEvents, roundOver wiredEvents]).length = 2 ∧
      (batches spawnSerde emptyPrinter spawningEngine spawningInput [] []
        [roundOver countedEvents, roundOver wiredEvents]).countP
          (fun b => positional b.events) ≤ 1 := by
    rw [countedEvents_eq, wiredEvents_eq]
    decide +kernel
  refine ⟨hbatches.1, (distinct_identities_iff spawnSerde emptyPrinter spawningEngine
    spawningInput [] [] spawnCodecs [roundOver countedEvents, roundOver wiredEvents] (runIdOf 1)
    ?_ ?_).mpr hbatches.2⟩
  · exact streamed_rounds streamed_counted streamed_wired
  · exact wireDistinct_counted wiredEvents

/-- Two batches that count their calls: both calls are the one at position zero, and the second
finds the child of the first. -/
theorem not_distinct_counted :
    ¬ ∀ (input : TurnInput) (codecs : Codecs Json) (rounds : List (RoundInput Json)),
      (∀ round ∈ rounds, ∀ r ∈ round.requests, Streamed codecs r.stream.all) →
      WireDistinct rounds →
      DistinctIdentities (runIdOf 1)
        (executed spawnSerde emptyPrinter spawningEngine input [] [] rounds) := by
  intro h
  have hids := (h spawningInput spawnCodecs _ (streamed_rounds streamed_counted streamed_counted)
    (wireDistinct_counted countedEvents)).ids
  rw [countedEvents_eq] at hids
  exact absurd hids (by decide +kernel)

end AgentDaemon.Daemon
