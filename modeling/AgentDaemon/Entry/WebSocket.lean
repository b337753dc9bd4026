import AgentDaemon.Daemon.Protocol
import AgentDaemon.Lib.Keyed
import AgentDaemon.Lib.Transition

/-!
A WebSocket connection in front of the daemon. Its requests bear ids that the client has chosen; the
daemon knows them under others, and `active_ids` leads from the one to the other, for chats and for
the active requests that are recovered first. Of what is sent over the socket only the frames of the
protocol are here. A cancel finds a chat that runs, as long as no chat starts under an id while
another one under it has not been taken out (`correct_after`).
-/

namespace AgentDaemon.Entry.WebSocket

open Daemon.Protocol Transition Keyed

variable {F : Type}

/-! ## State -/

inductive StreamPhase where
  | running
  /-- The last frame was handed on, and the id is about to be taken out. -/
  | ended
  | gone
  deriving DecidableEq, Repr

/-- A task of `spawn_websocket_stream`. `internal` is the id of its request for the daemon. -/
@[ext] structure StreamTask where
  external : RequestId
  externalFits : IdFits external
  internal : RequestId
  isChat : Bool
  phase : StreamPhase

instance : DecidableEq StreamTask := fun _ _ => decidable_of_iff _ StreamTask.ext_iff.symm

/-- A chat of this id that is not over. -/
def StreamTask.Unfinished (t : StreamTask) (id : RequestId) : Prop :=
  t.isChat = true ∧ t.phase = .running ∧ t.external = id

/-- A chat whose id may be in the table. -/
def StreamTask.Listed (t : StreamTask) : Prop := t.isChat = true ∧ t.phase ≠ .gone

instance (t : StreamTask) : Decidable t.Listed := inferInstanceAs (Decidable (_ ∧ _))

/-- `recovering` are the active requests of the snapshot that are not subscribed to yet; the socket
is read when there are none. `forwarded` is what the daemon was asked. -/
structure Connection (F : Type) where
  recovering : List {id // IdFits id}
  activeIds : RequestId → Option RequestId := fun _ => none
  streams : List StreamTask := []
  forwarded : List (String × Document F) := []
  outgoing : List (ServerFrame F) := []

inductive Event (F : Type) where
  /-- The next active request is subscribed to, or that fails. -/
  | recovered (subscribed : Bool)
  /-- A text message, and what `client.request` makes of it: the id of the stream, or an error. -/
  | text (bytes : List UInt8) (stream : Except String RequestId)
  /-- Stream `i` has a frame. -/
  | frame (i : Nat) (frame : ServerFrame F)
  /-- Stream `i` has no more frames. -/
  | closed (i : Nat)
  /-- Stream `i` takes its id out of the table. -/
  | remove (i : Nat)

/-! ## Operations -/

/-- The id that a cancel names. -/
def cancelTarget (request : JsonRpcRequest F) : Option RequestId :=
  if request.method = "agent.cancel" then (request.params.get? "request_id").bind idOf? else none

theorem frameIdFits : (frame : ServerFrame F) → IdFits (serverFrameRequestId frame)
  | .event frame => frame.idFits
  | .response frame => frame.idFits

def remapFrameId (frame : ServerFrame F) (external : RequestId) (h : IdFits external) :
    ServerFrame F :=
  match frame with
  | .event frame => .event { frame with requestId := external, idFits := h }
  | .response frame => .response { frame with id := external, idFits := h }

namespace Connection

variable (codec : SerdeJson F) (s : Connection F)

def sendWsServerFrame (frame : ServerFrame F) : Connection F :=
  { s with
    outgoing := s.outgoing ++
      [if (codec.toVec frame.document).length ≤ maxFrameBytes then frame
      else .response (.failure (serverFrameRequestId frame) (frameIdFits frame) (-32002)
        "WebSocket 响应超过帧大小限制")] }

/-- A cancel with the id that the daemon knows, where there is one. -/
def redirect (request : JsonRpcRequest F) : JsonRpcRequest F :=
  match (cancelTarget request).bind s.activeIds with
  | some internal =>
    { request with params := request.params.set "request_id" (idDocument internal) }
  | none => request

/-- The insertion into `active_ids` and `spawn_websocket_stream`. -/
def spawn (t : StreamTask) : Connection F :=
  { s with
    activeIds :=
      if t.isChat then Function.update s.activeIds t.external (some t.internal) else s.activeIds
    streams := s.streams ++ [t] }

def startWebsocketRequest (request : JsonRpcRequest F) (stream : Except String RequestId) :
    Connection F :=
  let redirected := s.redirect request
  let s := { s with forwarded := s.forwarded ++ [(redirected.method, redirected.params)] }
  match stream with
  | .error message =>
    s.sendWsServerFrame codec (.response (.failure request.id request.idFits (-32000) message))
  | .ok internal =>
    s.spawn ⟨request.id, request.idFits, internal, request.method = "chat.send", .running⟩

def handleText (bytes : List UInt8) (stream : Except String RequestId) : Connection F :=
  match decodeRequest codec bytes with
  | .error error => s.sendWsServerFrame codec (.response (.failure (.string "protocol") trivial
      (if bytes.length > maxFrameBytes then -32002 else -32700) error.message))
  | .ok request => s.startWebsocketRequest codec request stream

def setPhase (i : Nat) (phase : StreamPhase) : Connection F :=
  { s with streams := s.streams.modify i fun t => { t with phase } }

/-- What the task does after its loop. -/
def removeId (i : Nat) : Connection F :=
  match s.streams[i]? with
  | some t =>
    if t.phase = .ended then
      { s.setPhase i .gone with
        activeIds :=
          if t.isChat then Function.update s.activeIds t.external none else s.activeIds }
    else s
  | none => s

/-- A frame that a stream hands on; a response is its last. -/
def handOn (i : Nat) (frame : ServerFrame F) : Connection F :=
  match s.streams[i]? with
  | some t =>
    if t.phase = .running then
      let s := s.sendWsServerFrame codec (remapFrameId frame t.external t.externalFits)
      match frame with
      | .response _ => s.setPhase i .ended
      | .event _ => s
    else s
  | none => s

def close (i : Nat) : Connection F :=
  match s.streams[i]? with
  | some t => if t.phase = .running then s.setPhase i .ended else s
  | none => s

end Connection

/-- One step of the connection. -/
def next (codec : SerdeJson F) (s : Connection F) : Event F → Connection F
  | .recovered subscribed =>
    match s.recovering with
    | [] => s
    | id :: rest =>
      if subscribed then
        { s.spawn ⟨id.val, id.property, id.val, true, .running⟩ with recovering := rest }
      else { s with recovering := [] }
  | .text bytes stream => if s.recovering.isEmpty then s.handleText codec bytes stream else s
  | .frame i frame => s.handOn codec i frame
  | .closed i => s.close i
  | .remove i => s.removeId i

/-- The connection when the snapshot has been loaded. -/
def start (activeRequests : List {id // IdFits id}) : Connection F := { recovering := activeRequests }

/-! ## What is promised -/

/-- A cancel is forwarded with the id of an unfinished chat under the id it names, if there is one,
and no stream that ends takes out the id of another unfinished chat. -/
structure Correct (s : Connection F) : Prop where
  cancel : ∀ request target, cancelTarget request = some target →
    (∃ t ∈ s.streams, t.Unfinished target) → ∃ t ∈ s.streams, t.Unfinished target ∧
      (s.redirect request).method = "agent.cancel" ∧
      (s.redirect request).params.get? "request_id" = some (idDocument t.internal)
  remove : ∀ i, ∀ t ∈ s.streams, t.Unfinished t.external →
    s.activeIds t.external = some t.internal →
      (s.removeId i).activeIds t.external = some t.internal

/-- The id under which a step starts or recovers a chat. -/
def startsChat (codec : SerdeJson F) (s : Connection F) : Event F → Option RequestId
  | .recovered true => s.recovering.head?.map Subtype.val
  | .text bytes (.ok _) =>
    match decodeRequest codec bytes with
    | .ok request =>
      if s.recovering.isEmpty ∧ request.method = "chat.send" then some request.id else none
    | .error _ => none
  | _ => none

/-- No chat starts under the id of one that has not been taken out. -/
def Fresh (codec : SerdeJson F) (s : Connection F) (e : Event F) : Prop :=
  ∀ id ∈ startsChat codec s e, ∀ t ∈ s.streams, t.Listed → t.external ≠ id

instance (codec : SerdeJson F) (s : Connection F) (e : Event F) : Decidable (Fresh codec s e) :=
  inferInstanceAs (Decidable (∀ _ ∈ _, ∀ _ ∈ _, _ → _))

/-! ## The table -/

/-- A chat holds its id, and is listed, until its task takes it out. -/
def chats : Parties StreamTask RequestId RequestId where
  key := StreamTask.external
  value := StreamTask.internal
  holds := StreamTask.Listed
  listed := StreamTask.Listed
  holds_of_listed _ h := h

def Mapped (s : Connection F) : Prop := Inv chats s.activeIds s.streams

section Steps

variable {codec : SerdeJson F} {s : Connection F}

theorem Mapped.spawn (h : Mapped s) {t : StreamTask}
    (hfresh : t.isChat = true → ∀ u ∈ s.streams, u.Listed → u.external ≠ t.external) :
    Mapped (s.spawn t) := by
  unfold Mapped Connection.spawn
  by_cases hchat : t.isChat = true
  · rw [if_pos hchat]
    exact h.concat_insert (hfresh hchat)
  · rw [if_neg hchat]
    exact h.concat (fun hl => hchat hl.1) fun hl => absurd hl.1 hchat

/-- Where the loop of a stream ends, its id stays in the table. -/
theorem Mapped.setEnded (h : Mapped s) {i : Nat} {t : StreamTask} (ht : s.streams[i]? = some t)
    (hrunning : t.phase = .running) : Mapped (s.setPhase i .ended) := by
  have hback : ∀ u, s.streams[i]? = some u → StreamTask.Listed { u with phase := .ended } →
      u.Listed := by
    intro u hu hlisted
    cases ht.symm.trans hu
    exact ⟨hlisted.1, by rw [hrunning]; decide⟩
  exact h.modify (fun _ => rfl) (fun _ => rfl) hback hback

theorem Mapped.removeId (h : Mapped s) (i : Nat) : Mapped (s.removeId i) := by
  unfold Connection.removeId
  split
  · rename_i t ht
    split
    · rename_i hended
      unfold Mapped
      dsimp only
      have hgone : ∀ u : StreamTask, ¬ StreamTask.Listed { u with phase := .gone } :=
        fun u hl => hl.2 rfl
      split
      · rename_i hchat
        exact h.erase ht ⟨hchat, by rw [hended]; decide⟩ (fun _ => rfl) (hgone t)
      · exact h.modify (fun _ => rfl) (fun _ => rfl) (fun u _ hl => absurd hl (hgone u))
          fun u _ hl => absurd hl (hgone u)
    · exact h
  · exact h

theorem Mapped.handOn (h : Mapped s) (i : Nat) (frame : ServerFrame F) :
    Mapped (s.handOn codec i frame) := by
  unfold Connection.handOn
  split
  · rename_i t ht
    split
    · rename_i hrunning
      cases frame with
      | response _ => exact Mapped.setEnded h ht hrunning
      | event _ => exact h
    · exact h
  · exact h

theorem Mapped.close (h : Mapped s) (i : Nat) : Mapped (s.close i) := by
  unfold Connection.close
  split
  · rename_i t ht
    split
    · rename_i hrunning
      exact h.setEnded ht hrunning
    · exact h
  · exact h

theorem Mapped.handleText (h : Mapped s) {bytes : List UInt8} {stream : Except String RequestId}
    (hempty : s.recovering.isEmpty = true) (hfresh : Fresh codec s (.text bytes stream)) :
    Mapped (s.handleText codec bytes stream) := by
  unfold Connection.handleText
  cases hdecode : decodeRequest codec bytes with
  | error error => exact h
  | ok request =>
    unfold Connection.startWebsocketRequest
    cases stream with
    | error message => exact h
    | ok internal =>
      refine Mapped.spawn ?_ ?_
      · exact h
      · intro hchat u hu hlisted
        refine hfresh request.id ?_ u hu hlisted
        rw [startsChat, hdecode]
        exact if_pos ⟨hempty, of_decide_eq_true hchat⟩

theorem Mapped.next (h : Mapped s) {e : Event F} (hfresh : Fresh codec s e) :
    Mapped (next codec s e) := by
  cases e with
  | recovered subscribed =>
    unfold WebSocket.next
    cases hrec : s.recovering with
    | nil => exact h
    | cons id rest =>
      cases subscribed with
      | true =>
        have hspawn : Mapped (s.spawn ⟨id.val, id.property, id.val, true, .running⟩) := by
          refine h.spawn fun _ u hu hlisted => ?_
          refine hfresh id.val ?_ u hu hlisted
          rw [startsChat, hrec]
          rfl
        exact hspawn
      | false => exact h
  | text bytes stream =>
    unfold WebSocket.next
    dsimp only
    split
    · rename_i hempty
      exact h.handleText hempty hfresh
    · exact h
  | frame i frame => exact h.handOn i frame
  | closed i => exact h.close i
  | remove i => exact h.removeId i

/-! ## Cancels -/

theorem StreamTask.Unfinished.listed {t : StreamTask} {id : RequestId} (h : t.Unfinished id) :
    t.Listed := ⟨h.1, by rw [h.2.1]; decide⟩

theorem redirect_of_mapped {request : JsonRpcRequest F} {target internal : RequestId}
    (htarget : cancelTarget request = some target) (hmapped : s.activeIds target = some internal) :
    (s.redirect request).method = "agent.cancel" ∧
      (s.redirect request).params.get? "request_id" = some (idDocument internal) := by
  have hfound : (cancelTarget request).bind s.activeIds = some internal := by
    rw [htarget]
    exact hmapped
  unfold cancelTarget at htarget
  split at htarget
  · rename_i hmethod
    rw [Connection.redirect, hfound]
    refine ⟨hmethod, Document.get?_set ?_ _⟩
    cases hname : request.params.get? "request_id" with
    | none =>
      rw [hname] at htarget
      cases htarget
    | some d => rfl
  · cases htarget

theorem Mapped.correct (h : Mapped s) : Correct s := by
  constructor
  · rintro request target htarget ⟨t, ht, hunfinished⟩
    have hmapped : s.activeIds t.external = some t.internal := h.mapped t ht hunfinished.listed
    rw [hunfinished.2.2] at hmapped
    exact ⟨t, ht, hunfinished, redirect_of_mapped htarget hmapped⟩
  · intro i t ht hunfinished hmapped
    unfold Connection.removeId
    split
    · rename_i u hu
      split
      · rename_i hended
        dsimp only
        split
        · rename_i hchat
          obtain ⟨k, hk⟩ := List.mem_iff_getElem?.mp ht
          have hki : k ≠ i := by
            rintro rfl
            cases hk.symm.trans hu
            cases hunfinished.2.1.symm.trans hended
          exact h.update_other hu hk hki ⟨hchat, by rw [hended]; decide⟩ hunfinished.listed none
        · exact hmapped
      · exact hmapped
    · exact hmapped

end Steps

theorem mapped_start (activeRequests : List {id // IdFits id}) :
    Mapped (start activeRequests : Connection F) := inv_nil chats _

/-- **Cancels reach their chat.** In a run in which no chat starts under the id of one that has not been
taken out of the table, every state is correct. -/
theorem correct_after (codec : SerdeJson F) (activeRequests : List {id // IdFits id})
    (l : List (Event F)) (h : Along (next codec) (Fresh codec) (start activeRequests) l) :
    Correct (after (next codec) (start activeRequests) l) :=
  (after_induct (I := Mapped) (fun _ _ hmapped hfresh => hmapped.next hfresh)
    (mapped_start activeRequests) h).correct

/-! ## A repeated id -/

def chatText : List Char :=
  ("\x7b\"jsonrpc\":\"2.0\",\"id\":1,\"method\":\"chat.send\"," ++
    "\"params\":\x7b\"message\":\"hi\"\x7d\x7d").toList

def chatDocument : Document Empty :=
  .obj [("jsonrpc", .str "2.0"), ("id", .int 1), ("method", .str "chat.send"),
    ("params", .obj [("message", .str "hi")])]

/-- `serde_json`, as far as it goes with this request. -/
def chatCodec : SerdeJson Empty :=
  { plainCodec with
    fromSlice := fun bytes =>
      if bytes = utf8 chatText then .ok chatDocument
      else .error "expected value at line 1 column 1" }

def chat (internal : Nat) : Event Empty := .text (utf8 chatText) (.ok (.number internal))

/-- An id that is used again after its chat is over. -/
theorem correct_reused : Correct
    (after (next chatCodec) (start []) [chat 7, .closed 0, .remove 0, chat 8]) :=
  correct_after chatCodec [] _ (by decide +kernel)

/-- The cancel of the chat. -/
def cancelRequest : JsonRpcRequest Empty where
  jsonrpc := "2.0"
  id := .number 2
  method := "agent.cancel"
  params := .obj [("request_id", .int 1)]
  idFits := by decide

/-- Two chats at a time under one id, the first of which ends first. -/
theorem not_correct_repeated : ¬ ∀ activeRequests (l : List (Event Empty)),
    Correct (after (next chatCodec) (start activeRequests) l) := by
  intro h
  have hcorrect := h [] [chat 7, chat 8, .closed 0, .remove 0]
  generalize hs : after (next chatCodec) (start []) [chat 7, chat 8, .closed 0, .remove 0] = s
    at hcorrect
  have hrunning : ∃ t ∈ s.streams, t.Unfinished (.number 1) := by
    rw [← hs]
    exact ⟨⟨.number 1, by decide, .number 8, true, .running⟩, by decide +kernel, rfl, rfl, rfl⟩
  have hids : s.activeIds (.number 1) = none := by
    rw [← hs]
    decide +kernel
  have hother : ∀ t ∈ s.streams, t.internal ≠ .number 1 := by
    rw [← hs]
    decide +kernel
  obtain ⟨t, ht, -, -, hparams⟩ := hcorrect.cancel cancelRequest (.number 1) rfl hrunning
  have hkept : s.redirect cancelRequest = cancelRequest := by
    rw [Connection.redirect, show cancelTarget cancelRequest = some (.number 1) from rfl,
      Option.bind_some, hids]
  rw [hkept] at hparams
  have hdocument : (idDocument (.number 1) : Document Empty) = idDocument t.internal :=
    Option.some.inj hparams
  refine hother t ht ?_
  cases hinternal : t.internal with
  | number n =>
    rw [hinternal] at hdocument
    have hn : (1 : Int) = n := Document.int.inj hdocument
    rw [show n = 1 by omega]
  | string text =>
    rw [hinternal] at hdocument
    cases hdocument

end AgentDaemon.Entry.WebSocket
