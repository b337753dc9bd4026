import AgentDaemon.Provider.Stream
import Std.Data.TreeMap.Lemmas

/-!
The adapter of the OpenAI chat protocol: a response is a stream of `data:` lines, in which the
fragments of a tool call carry its position, and one of them its id.
-/

namespace AgentDaemon.Provider.Openai

structure StreamFunction where
  name : Option String := none
  arguments : Option String := none

structure StreamToolCall where
  index : Nat
  id : Option String := none
  function : Option StreamFunction := none

structure StreamDelta where
  content : Option String := none
  thinking : Option String := none
  toolCalls : List StreamToolCall := []

structure StreamChoice where
  delta : StreamDelta
  finishReason : Option String := none

structure PromptTokenDetails where
  cachedTokens : Option Nat

structure StreamUsage where
  promptTokens : Option Nat
  completionTokens : Option Nat
  promptTokensDetails : Option PromptTokenDetails
  promptCacheHitTokens : Option Nat
  promptCacheMissTokens : Option Nat

structure StreamChunk where
  choices : List StreamChoice := []
  usage : Option StreamUsage := none

structure WireCall where
  id : Option String := none
  name : Option String := none
  identity : Option ExecutionIdentity := none
  sawArguments : Bool := false

structure State extends Sender where
  calls : Std.TreeMap Nat WireCall := {}
  done : Bool := false

namespace State

variable (s : State)

def send (event : ProviderEvent) : State := { s with events := s.events ++ [event] }

/-- `stream_failure`. -/
def streamFailure (code message : String) : State := s.send (.toolCallFailed ⟨code, message⟩)

def put (index : Nat) (call : WireCall) : State := { s with calls := s.calls.insert index call }

end State

/-- A field of a call that may come again, but not with another value. The empty text is none. -/
def setOnce (field update : Option String) : Except (String × String) (Option String) :=
  match field, update.filter (!·.isEmpty) with
  | some existing, some value => if existing ≠ value then .error (existing, value) else .ok field
  | none, some value => .ok (some value)
  | _, none => .ok field

def startCall (index : Nat) (call : WireCall) (s : State) : WireCall × State :=
  match call.id, call.name with
  | some id, some name =>
    let identity := ExecutionIdentity.wire .openaiChat id
    ({ call with identity := some identity }, s.send (.toolCallStarted identity name))
  | _, _ => (call, s.streamFailure "anonymous_delta"
      ("OpenAI 工具位置 " ++ toString index ++ " 在 id/name 完整前出现 arguments"))

/-- Start the call if it has not been started. -/
def ensureStarted (index : Nat) (call : WireCall) (s : State) : WireCall × State :=
  if call.identity.isNone then startCall index call s else (call, s)

/-- A fragment of the arguments belongs to the identity of the call. -/
def consumeArguments (index : Nat) (call : WireCall) (arguments : String) (s : State) : State :=
  let (call, s) := ensureStarted index call s
  let s := s.put index { call with sawArguments := true }
  match call.identity with
  | none => s.streamFailure "anonymous_delta"
      ("OpenAI 工具位置 " ++ toString index ++ " 的 arguments 无法归属")
  | some identity => s.send (.toolCallDelta identity (.append arguments))

def consumeToolDelta (s : State) (delta : StreamToolCall) : State :=
  let index := delta.index
  let call := s.calls.getD index {}
  match setOnce call.id delta.id with
  | .error (existing, id) => (s.put index call).streamFailure "identity_conflict"
      ("OpenAI 工具位置 " ++ toString index ++ " 出现冲突 id：" ++ existing ++ " / " ++ id)
  | .ok id =>
    let call := { call with id }
    let function := delta.function.getD {}
    match setOnce call.name function.name with
    | .error (existing, name) => (s.put index call).streamFailure "name_conflict"
        ("OpenAI 工具位置 " ++ toString index ++ " 出现冲突名称：" ++ existing ++ " / " ++ name)
    | .ok name =>
      let call := { call with name }
      match function.arguments with
      | none => s.put index call
      | some arguments => consumeArguments index call arguments s

/-- The calls in the order of their positions, up to one that never got an id and a name. -/
def completeCalls : List (Nat × WireCall) → State → State
  | [], s => s
  | (index, call) :: calls, s =>
    let (call, s) := ensureStarted index call s
    match call.identity with
    | none => s.streamFailure "incomplete_call" "OpenAI 工具调用缺少 identity"
    | some identity => completeCalls calls (s.send (.toolCallCompleted identity))

def sendUsage (usage : StreamUsage) (s : State) : State :=
  s.send (.usage ⟨usage.promptTokens, usage.completionTokens,
    usage.promptCacheHitTokens.or (usage.promptTokensDetails.bind (·.cachedTokens)),
    usage.promptCacheMissTokens⟩)

def consumeChoice (s : State) (choice : StreamChoice) : State :=
  let s := match choice.delta.thinking with
    | some thinking => if thinking.isEmpty then s else s.send (.thinkingDelta thinking)
    | none => s
  let s := match choice.delta.content with
    | some content => s.send (.textDelta content)
    | none => s
  let s := choice.delta.toolCalls.foldl consumeToolDelta s
  if choice.finishReason = some "length" then s.send .outputTruncated else s

def consumeChunk (chunk : StreamChunk) (s : State) : State :=
  let s := match chunk.usage with
    | some usage => sendUsage usage s
    | none => s
  chunk.choices.foldl consumeChoice s

/-- The line that says that the response is over. -/
def isDone (line : List UInt8) : Bool :=
  (line.dropPrefix? "data:".toByteArray.toList).any
    fun data => ByteLines.trimAscii data = "[DONE]".toByteArray.toList

variable (fromStr : String → Option StreamChunk)

def consumeSseLine (line : List UInt8) (s : State) : Except (AdapterError × State) State :=
  match dataOf line with
  | none => .ok s
  | some data =>
    if data = [] ∨ data = "[DONE]".toList then .ok s
    else match fromStr (String.ofList data) with
      | none => .error (.sanitized, s)
      | some chunk => .ok (consumeChunk chunk s)

/-- `parse_sse`, after `ResponseStarted`. -/
def parseSse (chunks : List (Except AdapterError (List UInt8))) :
    Except (AdapterError × State) State := do
  let s ← ByteLines.read
    (fun line s => consumeSseLine fromStr line { s with done := s.done || isDone line }) [] chunks
    { events := [.responseStarted] }
  let s ← expectDone s.done "OpenAI 流缺少结束标记" s
  return (completeCalls s.calls.toList s).send .protocolDone

/-! ## The ids -/

/-- The identity of a call, where it has one, is on the wire. -/
def WireCall.Named (call : WireCall) : Prop :=
  ∀ identity, call.identity = some identity → ∃ id, identity = .wire .openaiChat id

structure Naming (s : State) : Prop where
  wired : Wired s.events
  named : ∀ (index : Nat) (call : WireCall), s.calls[index]? = some call → call.Named

variable {fromStr} {s : State} {call : WireCall}

theorem Naming.send (h : Naming s) {event : ProviderEvent}
    (he : ∀ execId, event.startedId = some execId → ∃ domain id, execId = .wire domain id) :
    Naming (s.send event) :=
  ⟨h.wired.concat he, h.named⟩

theorem Naming.put (h : Naming s) (hc : call.Named) (index : Nat) : Naming (s.put index call) := by
  refine ⟨h.wired, fun i c hi => ?_⟩
  change (s.calls.insert index call)[i]? = some c at hi
  rw [Std.TreeMap.getElem?_insert] at hi
  split at hi
  · cases hi
    exact hc
  · exact h.named i c hi

theorem Naming.getD (h : Naming s) (index : Nat) : (s.calls.getD index {}).Named := by
  rw [Std.TreeMap.getD_eq_getD_getElem?]
  cases hi : s.calls[index]? with
  | none => exact fun _ e => nomatch e
  | some call => exact h.named index call hi

theorem Naming.start (h : Naming s) (hc : call.Named) (index : Nat) :
    (startCall index call s).1.Named ∧ Naming (startCall index call s).2 := by
  unfold startCall
  split
  · rename_i id name _ _
    refine ⟨?_, h.send ?_⟩
    · rintro identity ⟨⟩
      exact ⟨id, rfl⟩
    · rintro execId ⟨⟩
      exact ⟨_, _, rfl⟩
  · exact ⟨hc, h.send fun _ e => nomatch e⟩

theorem Naming.ensure (h : Naming s) (hc : call.Named) (index : Nat) :
    (ensureStarted index call s).1.Named ∧ Naming (ensureStarted index call s).2 := by
  unfold ensureStarted
  split
  · exact h.start hc index
  · exact ⟨hc, h⟩

theorem Naming.failed (h : Naming s) (code message : String) : Naming (s.streamFailure code message) :=
  h.send fun _ e => nomatch e

theorem Naming.arguments (h : Naming s) (hc : call.Named) (index : Nat) (arguments : String) :
    Naming (consumeArguments index call arguments s) := by
  have hstarted := h.ensure hc index
  have hput : Naming ((ensureStarted index call s).2.put index
      { (ensureStarted index call s).1 with sawArguments := true }) := by
    apply hstarted.2.put
    exact hstarted.1
  unfold consumeArguments
  dsimp only
  split
  · exact hput.failed _ _
  · exact hput.send fun _ e => nomatch e

theorem Naming.delta (h : Naming s) (delta : StreamToolCall) : Naming (consumeToolDelta s delta) := by
  have hc := h.getD delta.index
  unfold consumeToolDelta
  dsimp only
  split
  · exact (h.put hc _).failed _ _
  · split
    · exact (h.put (by exact hc) _).failed _ _
    · split
      · exact h.put (by exact hc) _
      · exact h.arguments (by exact hc) _ _

theorem Naming.complete (calls : List (Nat × WireCall)) (h : Naming s)
    (hc : ∀ entry ∈ calls, entry.2.Named) : Naming (completeCalls calls s) := by
  induction calls generalizing s with
  | nil => exact h
  | cons entry calls ih =>
    obtain ⟨index, call⟩ := entry
    have hcall : call.Named := hc _ List.mem_cons_self
    have hrest : ∀ entry ∈ calls, entry.2.Named := fun e he => hc e (List.mem_cons_of_mem _ he)
    have hstarted := h.ensure hcall index
    rw [completeCalls]
    dsimp only
    split
    · exact hstarted.2.failed _ _
    · exact ih (hstarted.2.send fun _ e => nomatch e) hrest

theorem Naming.deltas (deltas : List StreamToolCall) (h : Naming s) :
    Naming (deltas.foldl consumeToolDelta s) := by
  induction deltas generalizing s with
  | nil => exact h
  | cons delta deltas ih => exact ih (h.delta delta)

theorem Naming.choice (h : Naming s) (choice : StreamChoice) : Naming (consumeChoice s choice) := by
  have hthinking : ∀ text : Option String, Naming (match text with
      | some thinking => if thinking.isEmpty then s else s.send (.thinkingDelta thinking)
      | none => s) := by
    rintro (_ | text)
    · exact h
    · dsimp only
      split
      · exact h
      · exact h.send fun _ e => nomatch e
  have hcontent : ∀ (s : State) (text : Option String), Naming s → Naming (match text with
      | some content => s.send (.textDelta content)
      | none => s) := by
    rintro s (_ | text) hs
    · exact hs
    · exact hs.send fun _ e => nomatch e
  have hdeltas := Naming.deltas choice.delta.toolCalls
    (hcontent _ choice.delta.content (hthinking choice.delta.thinking))
  unfold consumeChoice
  dsimp only
  split
  · exact hdeltas.send fun _ e => nomatch e
  · exact hdeltas

theorem Naming.choices (choices : List StreamChoice) (h : Naming s) :
    Naming (choices.foldl consumeChoice s) := by
  induction choices generalizing s with
  | nil => exact h
  | cons choice choices ih => exact ih (h.choice choice)

theorem Naming.chunk (h : Naming s) (chunk : StreamChunk) : Naming (consumeChunk chunk s) := by
  unfold consumeChunk
  refine Naming.choices _ ?_
  split
  · exact h.send fun _ e => nomatch e
  · exact h

theorem Naming.line (line : List UInt8) (s : State) (h : Naming s) :
    Naming (ByteLines.last (consumeSseLine fromStr line s)) := by
  unfold consumeSseLine
  split
  · exact h
  · split
    · exact h
    · split
      · exact h
      · exact h.chunk _

/-- Every call has the id of its deltas. -/
theorem wired_parseSse (fromStr : String → Option StreamChunk)
    (chunks : List (Except AdapterError (List UInt8))) :
    Wired (ByteLines.last (parseSse fromStr chunks)).events := by
  have hstart : Naming ({ events := [.responseStarted] } : State) :=
    ⟨by simp [Wired, ProviderEvent.startedId], by simp⟩
  have hnaming : Naming (ByteLines.last (parseSse fromStr chunks)) := by
    refine ByteLines.last_bind (ByteLines.read_induct ?_ chunks [] _ hstart) fun s hs => ?_
    · exact fun line s h => Naming.line line _ ⟨h.wired, h.named⟩
    · refine ByteLines.last_bind (by rwa [last_expectDone]) fun s hs => ?_
      refine (Naming.complete _ hs ?_).send fun _ e => nomatch e
      exact fun entry he => hs.named entry.1 entry.2
        (Std.TreeMap.mem_toList_iff_getElem?_eq_some.mp he)
  exact hnaming.wired

end AgentDaemon.Provider.Openai
