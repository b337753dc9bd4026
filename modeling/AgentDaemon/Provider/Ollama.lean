import AgentDaemon.Provider.Stream

/-!
The Ollama adapter: a response is a stream of JSON lines. Its tool calls come without ids, so
each takes the next position of the response. The counter starts at zero with every response.
-/

namespace AgentDaemon.Provider.Ollama

structure OllamaFunction (Value : Type) where
  name : String
  arguments : Value

structure OllamaToolCall (Value : Type) where
  function : OllamaFunction Value

structure OllamaMessage (Value : Type) where
  content : String := ""
  thinking : Option String := none
  reasoning : Option String := none
  toolCalls : List (OllamaToolCall Value) := []

structure OllamaChunk (Value : Type) where
  message : Option (OllamaMessage Value) := none
  done : Bool := false
  doneReason : Option String := none
  promptEvalCount : Option Nat := none
  evalCount : Option Nat := none
  error : Option String := none

/-- What the adapter uses of `serde_json`. -/
structure Codec (Value : Type) where
  /-- `from_slice::<OllamaChunk>`. -/
  fromSlice : List UInt8 → Option (OllamaChunk Value)
  /-- `Value::to_string`. -/
  print : Value → String

structure State extends Sender where
  position : Nat := 0
  done : Bool := false

namespace State

variable (s : State)

def send (event : ProviderEvent) : State := { s with events := s.events ++ [event] }

/-- Text that is not empty. -/
def sendText (event : String → ProviderEvent) (text : String) : State :=
  if text.isEmpty then s else s.send (event text)

/-- `u64::saturating_add(1)`. -/
def nextPosition : State := { s with position := min (s.position + 1) (2 ^ 64 - 1) }

end State

variable {Value : Type} (codec : Codec Value)

def sendCall (s : State) (call : OllamaToolCall Value) : State :=
  let identity := ExecutionIdentity.position .ollama s.position
  ((s.nextPosition.send (.toolCallStarted identity call.function.name)).send
    (.toolCallDelta identity (.authoritativeSnapshot (codec.print call.function.arguments)))).send
      (.toolCallCompleted identity)

def sendMessage (message : OllamaMessage Value) (s : State) : State :=
  let s := match message.thinking.or message.reasoning with
    | some thinking => s.sendText .thinkingDelta thinking
    | none => s
  let s := s.sendText .textDelta message.content
  message.toolCalls.foldl (sendCall codec) s

def sendDone (chunk : OllamaChunk Value) (s : State) : State :=
  let s := if chunk.doneReason = some "length" then s.send .outputTruncated else s
  (s.send (.usage ⟨chunk.promptEvalCount, chunk.evalCount, none, none⟩)).send .protocolDone

def consumeNdjsonLine (line : List UInt8) (s : State) : Except (AdapterError × State) State :=
  if line.all ByteLines.isAsciiWhitespace then .ok s
  else match codec.fromSlice line with
    | none => .error (.sanitized, s)
    | some chunk =>
      if chunk.error.isSome then .error (⟨.server, "Ollama 流报告错误"⟩, s)
      else
        let s := match chunk.message with
          | some message => sendMessage codec message s
          | none => s
        let s := if chunk.done then sendDone chunk s else s
        .ok { s with done := s.done || chunk.done }

/-- `parse_ndjson`, after `ResponseStarted`. -/
def parseNdjson (chunks : List (Except AdapterError (List UInt8))) :
    Except (AdapterError × State) State := do
  let s ← ByteLines.read (consumeNdjsonLine codec) [] chunks { events := [.responseStarted] }
  expectDone s.done "Ollama 流缺少 done 事件" s

/-! ## The positions -/

/-- The calls so far are counted, and the counter has not moved without a call. -/
structure Counting (s : State) : Prop where
  counted : Counted s.events
  fresh : s.events.filterMap ProviderEvent.startedId = [] → s.position = 0

variable {codec} {s : State}

theorem Counting.send (h : Counting s) {event : ProviderEvent} (he : event.startedId = none) :
    Counting (s.send event) := by
  refine ⟨h.counted.concat he, fun hnil => h.fresh ?_⟩
  simpa [State.send, List.filterMap_append, he] using hnil

theorem Counting.sendText (h : Counting s) {event : String → ProviderEvent} (text : String)
    (he : (event text).startedId = none) : Counting (s.sendText event text) := by
  unfold State.sendText
  split
  · exact h
  · exact h.send he

theorem Counting.start (h : Counting s) (name : String) :
    Counting (s.nextPosition.send (.toolCallStarted (.position .ollama s.position) name)) := by
  have hstarts : (s.events ++ [ProviderEvent.toolCallStarted (.position .ollama s.position) name]).filterMap
      ProviderEvent.startedId =
        s.events.filterMap ProviderEvent.startedId ++ [.position .ollama s.position] := by
    simp [ProviderEvent.startedId]
  refine ⟨⟨fun execId hhead => ?_, fun execId hm => ?_⟩, fun hnil => ?_⟩
  · change ((s.events ++ _).filterMap _).head? = _ at hhead
    rw [hstarts] at hhead
    cases hs : s.events.filterMap ProviderEvent.startedId with
    | nil =>
      rw [hs, List.nil_append, h.fresh hs] at hhead
      exact (Option.some.inj hhead).symm
    | cons first rest =>
      refine h.counted.first execId ?_
      rw [hs] at hhead ⊢
      exact hhead
  · change execId ∈ (s.events ++ _).filterMap _ at hm
    rw [hstarts] at hm
    rcases List.mem_append.mp hm with hm | hm
    · exact h.counted.all execId hm
    · exact ⟨s.position, List.mem_singleton.mp hm⟩
  · change (s.events ++ _).filterMap _ = [] at hnil
    rw [hstarts] at hnil
    simp at hnil

theorem Counting.call (h : Counting s) (call : OllamaToolCall Value) :
    Counting (sendCall codec s call) :=
  ((h.start _).send rfl).send rfl

theorem Counting.calls (calls : List (OllamaToolCall Value)) (h : Counting s) :
    Counting (calls.foldl (sendCall codec) s) := by
  induction calls generalizing s with
  | nil => exact h
  | cons call calls ih => exact ih (h.call call)

theorem Counting.message (h : Counting s) (message : OllamaMessage Value) :
    Counting (sendMessage codec message s) := by
  unfold sendMessage
  refine Counting.calls _ ?_
  split
  · exact (h.sendText _ rfl).sendText _ rfl
  · exact h.sendText _ rfl

theorem Counting.finish (h : Counting s) (chunk : OllamaChunk Value) :
    Counting (sendDone chunk s) := by
  unfold sendDone
  split
  · exact ((h.send rfl).send rfl).send rfl
  · exact (h.send rfl).send rfl

theorem Counting.line (line : List UInt8) (s : State) (h : Counting s) :
    Counting (ByteLines.last (consumeNdjsonLine codec line s)) := by
  unfold consumeNdjsonLine
  split
  · exact h
  · split
    · exact h
    · split
      · exact h
      · dsimp only
        have hmessage : ∀ m : Option (OllamaMessage Value), Counting (match m with
            | some message => sendMessage codec message s
            | none => s) := by
          rintro (_ | message)
          · exact h
          · exact h.message message
        split
        · exact ⟨((hmessage _).finish _).counted, ((hmessage _).finish _).fresh⟩
        · exact ⟨(hmessage _).counted, (hmessage _).fresh⟩

/-- Every response counts its calls from zero. -/
theorem counted_parseNdjson (codec : Codec Value)
    (chunks : List (Except AdapterError (List UInt8))) :
    Counted (ByteLines.last (parseNdjson codec chunks)).events := by
  have hstart : Counting ({ events := [.responseStarted] } : State) :=
    ⟨⟨by simp [ProviderEvent.startedId], by simp [ProviderEvent.startedId]⟩, fun _ => rfl⟩
  have hcounting : Counting (ByteLines.last (parseNdjson codec chunks)) := by
    refine ByteLines.last_bind (ByteLines.read_induct Counting.line chunks [] _ hstart) fun s hs => ?_
    rwa [last_expectDone]
  exact hcounting.counted

end AgentDaemon.Provider.Ollama
