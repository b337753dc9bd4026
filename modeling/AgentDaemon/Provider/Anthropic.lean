import AgentDaemon.Provider.Stream
import Std.Data.TreeMap.Lemmas

/-!
The adapter of the Anthropic messages protocol: a response is a stream of `data:` lines that open,
extend and close content blocks. A block of a tool call carries the id of the call.
-/

namespace AgentDaemon.Provider.Anthropic

/-- `Value::as_u64`. -/
def asU64? : Json → Option Nat
  | .num n => if 0 ≤ n ∧ n < 2 ^ 64 then some n.toNat else none
  | _ => none

structure StreamState extends Sender where
  tools : Std.TreeMap Nat ExecutionIdentity := {}
  done : Bool := false

namespace StreamState

variable (s : StreamState)

def send (event : ProviderEvent) : StreamState := { s with events := s.events ++ [event] }

def emitFailure (code message : String) : StreamState := s.send (.toolCallFailed ⟨code, message⟩)

/-- Text that is there and not empty. -/
def sendText (event : String → ProviderEvent) (text : Option String) : StreamState :=
  match text with
  | some text => if text.isEmpty then s else s.send (event text)
  | none => s

end StreamState

/-- The block that an event is about. -/
def blockIndex (value : Json) : Nat := ((value.get? "index").bind asU64?).getD 0

def startContentBlock (value : Json) (s : StreamState) : StreamState :=
  let index := blockIndex value
  let block := value.index "content_block"
  match (block.get? "type").bind Json.asStr? with
  | some "text" => s.sendText .textDelta ((block.get? "text").bind Json.asStr?)
  | some "thinking" => s.sendText .thinkingDelta ((block.get? "thinking").bind Json.asStr?)
  | some "tool_use" =>
    match (block.get? "id").bind Json.asStr? with
    | none => s.emitFailure "missing_id" "Anthropic tool_use 缺少 id"
    | some id =>
      match (block.get? "name").bind Json.asStr? with
      | none => s.emitFailure "missing_name" "Anthropic tool_use 缺少 name"
      | some name =>
        let identity := ExecutionIdentity.wire .anthropicMessages id
        let started := s.tools.contains index
        let s := { s with tools := s.tools.insert index identity }
        if started then s.emitFailure "identity_conflict"
          ("Anthropic content block " ++ toString index ++ " 被重复开始")
        else s.send (.toolCallStarted identity name)
  | _ => s

def consumeContentDelta (value : Json) (s : StreamState) : StreamState :=
  let delta := value.index "delta"
  match (delta.get? "type").bind Json.asStr? with
  | some "text_delta" =>
    match (delta.get? "text").bind Json.asStr? with
    | some text => s.send (.textDelta text)
    | none => s
  | some "thinking_delta" => s.sendText .thinkingDelta ((delta.get? "thinking").bind Json.asStr?)
  | some "input_json_delta" =>
    let index := blockIndex value
    match s.tools[index]? with
    | none => s.emitFailure "anonymous_delta"
        ("Anthropic content block " ++ toString index ++ " 的 JSON 分片没有 tool_use")
    | some identity =>
      s.send (.toolCallDelta identity
        (.append (((delta.get? "partial_json").bind Json.asStr?).getD "")))
  | _ => s

def stopContentBlock (value : Json) (s : StreamState) : StreamState :=
  let index := blockIndex value
  match s.tools[index]? with
  | some identity => { s with tools := s.tools.erase index }.send (.toolCallCompleted identity)
  | none => s

def emitUsage (usage : Option Json) (s : StreamState) : StreamState :=
  match usage with
  | none => s
  | some usage =>
    s.send (.usage ⟨asU64? (usage.index "input_tokens"), asU64? (usage.index "output_tokens"),
      asU64? (usage.index "cache_read_input_tokens"),
      asU64? (usage.index "cache_creation_input_tokens")⟩)

def consumeValue (value : Json) (s : StreamState) :
    Except (AdapterError × StreamState) StreamState :=
  match ((value.get? "type").bind Json.asStr?).getD "" with
  | "message_start" => .ok (emitUsage ((value.get? "message").bind (·.get? "usage")) s)
  | "content_block_start" => .ok (startContentBlock value s)
  | "content_block_delta" => .ok (consumeContentDelta value s)
  | "content_block_stop" => .ok (stopContentBlock value s)
  | "message_delta" =>
    let s := emitUsage (value.get? "usage") s
    if ((value.get? "delta").bind (·.get? "stop_reason")).bind Json.asStr? = some "max_tokens" then
      .ok (s.send .outputTruncated)
    else .ok s
  | "error" => .error (⟨.server, "Anthropic 流报告错误"⟩, s)
  | "message_stop" => .ok ({ s with done := true }.send .protocolDone)
  | _ => .ok s

variable (fromStr : String → Option Json)

def consumeSseLine (line : List UInt8) (s : StreamState) :
    Except (AdapterError × StreamState) StreamState :=
  match dataOf line with
  | none => .ok s
  | some data =>
    if data = [] ∨ data = "[DONE]".toList then .ok s
    else match fromStr (String.ofList data) with
      | none => .error (.sanitized, s)
      | some value => consumeValue value s

/-- `parse_sse`, after `ResponseStarted`. -/
def parseSse (chunks : List (Except AdapterError (List UInt8))) :
    Except (AdapterError × StreamState) StreamState := do
  let s ← ByteLines.read (consumeSseLine fromStr) [] chunks { events := [.responseStarted] }
  let s := if s.tools.isEmpty then s
    else s.emitFailure "incomplete_call" "Anthropic 流结束时仍有未完成的 tool_use content block"
  expectDone s.done "Anthropic 流缺少 message_stop" s

/-! ## The ids -/

variable {fromStr} {s : StreamState}

/-- An event that starts no call. -/
theorem wired_send (h : Wired s.events) {event : ProviderEvent} (he : event.startedId = none) :
    Wired (s.send event).events :=
  h.concat fun execId e => by rw [he] at e; cases e

theorem wired_sendText (h : Wired s.events) {event : String → ProviderEvent} (text : Option String)
    (he : ∀ text, (event text).startedId = none) : Wired (s.sendText event text).events := by
  unfold StreamState.sendText
  split
  · split
    · exact h
    · exact wired_send h (he _)
  · exact h

theorem wired_startContentBlock (h : Wired s.events) (value : Json) :
    Wired (startContentBlock value s).events := by
  unfold startContentBlock
  dsimp only
  split
  · exact wired_sendText h _ fun _ => rfl
  · exact wired_sendText h _ fun _ => rfl
  · split
    · exact wired_send h rfl
    · split
      · exact wired_send h rfl
      · split
        · exact h.concat fun _ e => nomatch e
        · refine h.concat ?_
          rintro execId ⟨⟩
          exact ⟨_, _, rfl⟩
  · exact h

theorem wired_consumeContentDelta (h : Wired s.events) (value : Json) :
    Wired (consumeContentDelta value s).events := by
  unfold consumeContentDelta
  dsimp only
  split
  · split
    · exact wired_send h rfl
    · exact h
  · exact wired_sendText h _ fun _ => rfl
  · split
    · exact wired_send h rfl
    · exact wired_send h rfl
  · exact h

theorem wired_stopContentBlock (h : Wired s.events) (value : Json) :
    Wired (stopContentBlock value s).events := by
  unfold stopContentBlock
  dsimp only
  split
  · exact h.concat fun _ e => nomatch e
  · exact h

theorem wired_emitUsage (h : Wired s.events) (usage : Option Json) :
    Wired (emitUsage usage s).events := by
  unfold emitUsage
  split
  · exact h
  · exact wired_send h rfl

theorem wired_consumeValue (h : Wired s.events) (value : Json) :
    Wired (ByteLines.last (consumeValue value s)).events := by
  unfold consumeValue
  split
  · exact wired_emitUsage h _
  · exact wired_startContentBlock h _
  · exact wired_consumeContentDelta h _
  · exact wired_stopContentBlock h _
  · dsimp only
    split
    · exact wired_send (wired_emitUsage h _) rfl
    · exact wired_emitUsage h _
  · exact h
  · exact h.concat fun _ e => nomatch e
  · exact h

theorem wired_consumeSseLine (line : List UInt8) (s : StreamState) (h : Wired s.events) :
    Wired (ByteLines.last (consumeSseLine fromStr line s)).events := by
  unfold consumeSseLine
  split
  · exact h
  · split
    · exact h
    · split
      · exact h
      · exact wired_consumeValue h _

/-- Every call has the id of its block. -/
theorem wired_parseSse (fromStr : String → Option Json)
    (chunks : List (Except AdapterError (List UInt8))) :
    Wired (ByteLines.last (parseSse fromStr chunks)).events := by
  have hstart : Wired ({ events := [.responseStarted] } : StreamState).events := by
    simp [Wired, ProviderEvent.startedId]
  refine ByteLines.last_bind (I := fun s : StreamState => Wired s.events)
    (ByteLines.read_induct (I := fun s : StreamState => Wired s.events) wired_consumeSseLine chunks
      [] _ hstart) fun s hs => ?_
  rw [last_expectDone]
  split
  · exact hs
  · exact wired_send hs rfl

end AgentDaemon.Provider.Anthropic
