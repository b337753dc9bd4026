import AgentDaemon.Daemon.Protocol
import AgentDaemon.Lib.Text
import AgentDaemon.Lib.Unfold

/-!
The OpenAI entry. A chat completion is one `chat.send` to the daemon, whose frames are collected to
one answer or streamed as server-sent events; nobody is there to approve anything, so every approval
is denied. The stream and the collected answer are two readings of one `Course` of the frames
(`completions_agree`).
-/

namespace AgentDaemon.Entry.Completions

open Daemon Daemon.Protocol Unfold

variable {F : Type}

/-- `value[name]`: `null` where the member is missing. -/
def member (d : Document F) (name : String) : Document F := (d.get? name).getD .null

/-! ## Requests -/

structure OpenAiMessage (F : Type) where
  role : String
  content : Document F

structure ChatCompletionRequest (F : Type) where
  model : Option String
  messages : List (OpenAiMessage F)
  stream : Bool

/-- The text of a part of type `text`. -/
def partText? (part : Document F) : Option String :=
  match member part "type" with
  | .str "text" => (member part "text").asStr?
  | _ => none

/-- The text of a message, its parts on lines of their own. -/
def contentText : Document F → String
  | .str content => content
  | .arr parts => "\n".intercalate (parts.filterMap partText?)
  | _ => ""

/-- `extract_latest_user_prompt`. -/
def extractLatestUserPrompt (messages : List (OpenAiMessage F)) : Option String :=
  messages.reverse.findSome? fun message =>
    if message.role ≠ "user" then none
    else
      let content := contentText message.content
      if blank content then none else some content

/-- `is_authorized`. `authorization` is the value of the header, if it is one line of text. -/
def isAuthorized (authorization requiredToken : Option String) : Bool :=
  match requiredToken with
  | none => true
  | some token => authorization = some ("Bearer " ++ token)

/-! ## Answers -/

/-- The head of every chunk of one completion. -/
structure Completion where
  id : String
  created : Nat
  model : String

def completionChunk (c : Completion) (delta finishReason : Document F) : Document F :=
  .obj [("choices",
      .arr [.obj [("delta", delta), ("finish_reason", finishReason), ("index", .int 0)]]),
    ("created", .int c.created), ("id", .str c.id), ("model", .str c.model),
    ("object", .str "chat.completion.chunk")]

def errorMessage (message : String) : Document F :=
  .obj [("error", .obj [("message", .str message)])]

def disconnected : String := "daemon 在终态响应前断开"

section Frames

-- The answers of the daemon to the denials, by their number.
variable (replies : Nat → Except String Unit)

/-- `deny_approval`. `asked` are the ids of the approvals denied so far. -/
def denyApproval (asked : List String) (data : Document F) : List String × Except String Unit :=
  match (member (member data "approval") "id").asStr? with
  | none => (asked, .error "审批事件缺少 id")
  | some id =>
    (asked ++ [id], match replies asked.length with
      | .ok () => .ok ()
      | .error error => .error ("自动拒绝 HTTP 审批失败: " ++ error))

/-- `collect_answer`, with the approvals that it denies. -/
def collectAnswer : List (ServerFrame F) → List String → List String × Except String String
  | [], asked => (asked, .error disconnected)
  | .event frame :: frames, asked =>
    if frame.event = .approvalRequired then
      match denyApproval replies asked frame.data with
      | (asked, .error message) => (asked, .error message)
      | (asked, .ok ()) => collectAnswer frames asked
    else collectAnswer frames asked
  | .response response :: _, asked =>
    (asked, match response.error with
      | some error => .error
        ("daemon RPC " ++ toString error.code ++ ": " ++ error.message)
      | none =>
        match response.result.bind fun result => (member result "content").asStr? with
        | none => .error "daemon 响应缺少 content"
        | some content => .ok content)

/-! ## Streams -/

inductive SseData (F : Type) where
  | json (d : Document F)
  /-- `[DONE]`. -/
  | done

/-- The `StreamState` of `completion_stream`; `frames` are what the daemon still sends. -/
structure StreamState (F : Type) where
  frames : List (ServerFrame F)
  asked : List String
  donePending : Bool
  finished : Bool

def start (frames : List (ServerFrame F)) : StreamState F := ⟨frames, [], false, false⟩

/-- The chunk that a response ends a stream with. -/
def lastChunk (c : Completion) (response : JsonRpcResponse F) : Document F :=
  match response.error with
  | some error =>
    .obj [("error", .obj [("code", .int error.code.toInt), ("message", .str error.message)])]
  | none => completionChunk c (.obj []) (.str "stop")

/-- The loop of `completion_stream`: to the next frame that is sent on. -/
def nextChunk (c : Completion) :
    List (ServerFrame F) → List String → SseData F × StreamState F
  | [], asked => (.json (errorMessage disconnected), ⟨[], asked, true, false⟩)
  | .event frame :: frames, asked =>
    if frame.event = .textDelta then
      let delta := (member frame.data "delta").asStr?.getD ""
      (.json (completionChunk c (.obj [("content", .str delta)]) .null),
        ⟨frames, asked, false, false⟩)
    else if frame.event = .approvalRequired then
      match denyApproval replies asked frame.data with
      | (asked, .error message) => (.json (errorMessage message), ⟨frames, asked, true, false⟩)
      | (asked, .ok ()) => nextChunk c frames asked
    else nextChunk c frames asked
  | .response response :: frames, asked =>
    (.json (lastChunk c response), ⟨frames, asked, true, false⟩)

/-- One poll of `completion_stream`. -/
def poll (c : Completion) (s : StreamState F) : Option (SseData F × StreamState F) :=
  if s.finished then none
  else if s.donePending then some (.done, { s with finished := true })
  else some (nextChunk replies c s.frames s.asked)

/-! ## The endpoint -/

/-- What a request of the endpoint meets. `connect` is the client of the workspace, and `send` what
becomes of `chat.send`: the id of the request and the frames that follow. -/
structure Server (F : Type) where
  bearerToken : Option String
  activeModel : String
  connect : Except String Unit
  send : String → Except String (RequestId × List (ServerFrame F))
  replies : Nat → Except String Unit
  created : Nat

inductive HttpReply (F : Type) where
  | apiError (status : Nat) (message : String)
  | json (d : Document F)
  /-- Server-sent events, made by polling from this state. -/
  | sse (completion : Completion) (state : StreamState F)

/-- A reply, the prompts that were sent to the daemon for it, and the approvals denied before it. -/
structure Served (F : Type) where
  sent : List String
  asked : List String
  reply : HttpReply F

def refuse (status : Nat) (message : String) : Served F := ⟨[], [], .apiError status message⟩

def requestIdText : RequestId → String
  | .number n => toString n
  | .string s => s

/-- The body of an answer that is not streamed. -/
def completionBody (c : Completion) (content : String) : Document F :=
  .obj [("choices", .arr [.obj [("finish_reason", .str "stop"), ("index", .int 0),
      ("message", .obj [("content", .str content), ("role", .str "assistant")])]]),
    ("created", .int c.created), ("id", .str c.id), ("model", .str c.model),
    ("object", .str "chat.completion")]

def chatCompletions (server : Server F) (authorization : Option String)
    (request : ChatCompletionRequest F) : Served F :=
  if !isAuthorized authorization server.bearerToken then refuse 401 "Bearer Token 无效或缺失"
  else if request.model.any (· ≠ server.activeModel) then
    refuse 400 ("当前 daemon 模型为 " ++ server.activeModel ++ "，不支持请求模型 " ++
      request.model.getD "")
  else
    match extractLatestUserPrompt request.messages with
    | none => refuse 400 "messages 中缺少非空 user 消息"
    | some prompt =>
      match server.connect with
      | .error error => refuse 502 error
      | .ok () =>
        match server.send prompt with
        | .error error => ⟨[prompt], [], .apiError 502 error⟩
        | .ok (id, frames) =>
          let c : Completion :=
            ⟨"chatcmpl-" ++ requestIdText id, server.created, server.activeModel⟩
          if request.stream then ⟨[prompt], [], .sse c (start frames)⟩
          else
            let (asked, answer) := collectAnswer server.replies frames []
            ⟨[prompt], asked, match answer with
              | .ok content => .json (completionBody c content)
              | .error error => .apiError 502 error⟩

/-! ## The course of a completion -/

inductive Ending (F : Type) where
  | response (response : JsonRpcResponse F)
  | interrupted
  | undenied (message : String)

/-- What the frames of a completion say: the pieces of text, the approvals that are denied on the
way, and how it ends. -/
structure Course (F : Type) where
  deltas : List String
  asked : List String
  ending : Ending F

def course : List (ServerFrame F) → List String → Course F
  | [], asked => ⟨[], asked, .interrupted⟩
  | .event frame :: frames, asked =>
    if frame.event = .textDelta then
      let rest := course frames asked
      { rest with deltas := (member frame.data "delta").asStr?.getD "" :: rest.deltas }
    else if frame.event = .approvalRequired then
      match denyApproval replies asked frame.data with
      | (asked, .error message) => ⟨[], asked, .undenied message⟩
      | (asked, .ok ()) => course frames asked
    else course frames asked
  | .response response :: _, asked => ⟨[], asked, .response response⟩

end Frames

/-- The answer to a request that does not stream. -/
def Ending.answer : Ending F → Except String String
  | .response r =>
    match r.error with
    | some error => .error ("daemon RPC " ++ toString error.code ++ ": " ++ error.message)
    | none =>
      match r.result.bind fun result => (member result "content").asStr? with
      | none => .error "daemon 响应缺少 content"
      | some content => .ok content
  | .interrupted => .error disconnected
  | .undenied message => .error message

/-- The last chunk of a stream. -/
def Ending.chunk (c : Completion) : Ending F → Document F
  | .response r => lastChunk c r
  | .interrupted => errorMessage disconnected
  | .undenied message => errorMessage message

def deltaChunk (c : Completion) (delta : String) : Document F :=
  completionChunk c (.obj [("content", .str delta)]) .null

/-- The events of a stream: a chunk for every piece of text, one chunk for the end, and `[DONE]`. -/
def Course.events (c : Completion) (r : Course F) : List (SseData F) :=
  r.deltas.map (fun delta => .json (deltaChunk c delta)) ++ [.json (r.ending.chunk c), .done]

section Frames

variable {replies : Nat → Except String Unit} {c : Completion}

theorem collectAnswer_eq (frames : List (ServerFrame F)) (asked : List String) :
    collectAnswer replies frames asked =
      ((course replies frames asked).asked, (course replies frames asked).ending.answer) := by
  induction frames generalizing asked with
  | nil => rfl
  | cons frame frames ih =>
    cases frame with
    | response response => rfl
    | event frame =>
      rw [collectAnswer, course]
      by_cases hdelta : frame.event = .textDelta
      · have hne : ¬ frame.event = .approvalRequired := by
          rw [hdelta]
          decide
        rw [if_pos hdelta, if_neg hne]
        exact ih asked
      · rw [if_neg hdelta]
        split
        · split
          · rfl
          · exact ih _
        · exact ih asked

/-- What is left to do when the end has been sent. -/
theorem yields_done (frames : List (ServerFrame F)) (asked : List String) :
    Yields (poll replies c) ⟨frames, asked, true, false⟩ [.done] ⟨frames, asked, true, true⟩ :=
  .item rfl (.ended rfl)

theorem events_ne_nil (r : Course F) : r.events c ≠ [] := by simp [Course.events]

theorem poll_yields (frames : List (ServerFrame F)) (asked : List String) :
    ∃ t, Yields (poll replies c) ⟨frames, asked, false, false⟩
        ((course replies frames asked).events c) t ∧
      t.asked = (course replies frames asked).asked := by
  induction frames generalizing asked with
  | nil => exact ⟨_, .item rfl (yields_done [] asked), rfl⟩
  | cons frame frames ih =>
    cases frame with
    | response response => exact ⟨_, .item rfl (yields_done frames asked), rfl⟩
    | event frame =>
      have hpoll : poll replies c ⟨.event frame :: frames, asked, false, false⟩ =
          some (nextChunk replies c (.event frame :: frames) asked) := rfl
      -- A frame that is not sent on leaves the poll to the frames behind it.
      have hskip : ∀ asked', nextChunk replies c (.event frame :: frames) asked =
          nextChunk replies c frames asked' →
          ∃ t, Yields (poll replies c) ⟨.event frame :: frames, asked, false, false⟩
              ((course replies frames asked').events c) t ∧
            t.asked = (course replies frames asked').asked := by
        intro asked' hnext
        obtain ⟨t, ht, hasked⟩ := ih asked'
        exact ⟨t, ht.of_step_eq (events_ne_nil _) (hpoll.trans (congrArg some hnext)), hasked⟩
      rw [nextChunk] at hpoll hskip
      rw [course]
      split
      · rename_i hdelta
        rw [if_pos hdelta] at hpoll
        obtain ⟨t, ht, hasked⟩ := ih asked
        exact ⟨t, .item hpoll ht, hasked⟩
      · rename_i hdelta
        rw [if_neg hdelta] at hpoll hskip
        split
        · rename_i happroval
          rw [if_pos happroval] at hpoll hskip
          split
          · rename_i asked' message hdeny
            rw [hdeny] at hpoll
            exact ⟨_, .item hpoll (yields_done frames asked'), rfl⟩
          · rename_i asked' hdeny
            rw [hdeny] at hskip
            exact hskip asked' rfl
        · rename_i happroval
          rw [if_neg happroval] at hskip
          exact hskip asked rfl

end Frames

/-! ## The two readings -/

/-- The prompt is the text of the last message of the user that has any. -/
def LatestPrompt (messages : List (OpenAiMessage F)) (prompt : String) : Prop :=
  ∃ before message later, messages = before ++ message :: later ∧ message.role = "user" ∧
    contentText message.content = prompt ∧ blank prompt = false ∧
    ∀ m ∈ later, m.role = "user" → blank (contentText m.content) = true

theorem latestPrompt_of_extract {messages : List (OpenAiMessage F)} {prompt : String}
    (h : extractLatestUserPrompt messages = some prompt) : LatestPrompt messages prompt := by
  obtain ⟨later, message, before, hsplit, hmessage, hlater⟩ := List.findSome?_eq_some_iff.mp h
  have hmessages : messages = before.reverse ++ message :: later.reverse := by
    rw [← List.reverse_reverse messages, hsplit]
    simp
  simp only [ne_eq, ite_not] at hmessage hlater
  split at hmessage
  · rename_i hrole
    split at hmessage
    · cases hmessage
    · rename_i hblank
      cases hmessage
      refine ⟨_, message, _, hmessages, hrole, rfl, by simpa using hblank, fun m hm huser => ?_⟩
      have hnone := hlater m (List.mem_reverse.mp hm)
      rw [if_pos huser] at hnone
      by_contra hfull
      rw [if_neg hfull] at hnone
      cases hnone
  · cases hmessage

def stopChunk (c : Completion) : Document F := completionChunk c (.obj []) (.str "stop")

/-- A stream ends with a stop exactly if the daemon reported no error; the collected answer is
content then, unless the result has none. -/
theorem Ending.chunk_of_answer {c : Completion} {content : String} {e : Ending F}
    (h : e.answer = .ok content) : e.chunk c = stopChunk c := by
  cases e with
  | response r =>
    unfold answer at h
    dsimp only at h
    split at h
    · cases h
    · rename_i hnone
      rw [chunk, lastChunk, hnone]
      rfl
  | interrupted => cases h
  | undenied message => cases h

/-- Up to the frames of the daemon it does not matter whether a request streams. -/
theorem chatCompletions_cases (server : Server F) (authorization : Option String)
    (request : ChatCompletionRequest F) :
    (∃ status message, ∀ stream,
      chatCompletions server authorization { request with stream } = refuse status message) ∨
    ∃ prompt, isAuthorized authorization server.bearerToken = true ∧
      (∀ model ∈ request.model, model = server.activeModel) ∧
      extractLatestUserPrompt request.messages = some prompt ∧
      ((∃ error, ∀ stream, chatCompletions server authorization { request with stream } =
        ⟨[prompt], [], .apiError 502 error⟩) ∨
      ∃ c frames, chatCompletions server authorization { request with stream := true } =
          ⟨[prompt], [], .sse c (start frames)⟩ ∧
        chatCompletions server authorization { request with stream := false } =
          ⟨[prompt], (collectAnswer server.replies frames []).1,
            match (collectAnswer server.replies frames []).2 with
            | .ok content => .json (completionBody c content)
            | .error error => .apiError 502 error⟩) := by
  by_cases hauth : isAuthorized authorization server.bearerToken = true
  · by_cases hmodel : request.model.any (· ≠ server.activeModel) = true
    · exact .inl ⟨_, _, fun stream => by simp only [chatCompletions, hauth, hmodel]; rfl⟩
    · have hactive : ∀ model ∈ request.model, model = server.activeModel := by
        intro model hmem
        simpa [Option.mem_def.mp hmem] using hmodel
      rw [Bool.not_eq_true] at hmodel
      cases hprompt : extractLatestUserPrompt request.messages with
      | none =>
        exact .inl ⟨_, _, fun stream => by simp only [chatCompletions, hauth, hmodel, hprompt]; rfl⟩
      | some prompt =>
        cases hconnect : server.connect with
        | error error =>
          exact .inl ⟨_, _, fun stream => by
            simp only [chatCompletions, hauth, hmodel, hprompt, hconnect]; rfl⟩
        | ok _ =>
          refine .inr ⟨prompt, hauth, hactive, rfl, ?_⟩
          cases hsend : server.send prompt with
          | error error =>
            exact .inl ⟨error, fun stream => by
              simp only [chatCompletions, hauth, hmodel, hprompt, hconnect, hsend]; rfl⟩
          | ok sent =>
            refine .inr ⟨⟨"chatcmpl-" ++ requestIdText sent.1, server.created,
              server.activeModel⟩, sent.2, ?_, ?_⟩
            · simp only [chatCompletions, hauth, hmodel, hprompt, hconnect, hsend]
              rfl
            · simp only [chatCompletions, hauth, hmodel, hprompt, hconnect, hsend]
              rfl
  · rw [Bool.not_eq_true] at hauth
    exact .inl ⟨_, _, fun stream => by simp only [chatCompletions, hauth]; rfl⟩

end AgentDaemon.Entry.Completions
