import AgentDaemon.Daemon.Protocol
import AgentDaemon.Lib.Slots
import AgentDaemon.Lib.Transition

/-!
The client's side of a connection: the calls of `request_with_id`, the task that writes their
requests and the task that reads the frames. A call that registers its id while the reader runs is
answered or refused (`settled_after`); one that registers later waits for a reader that is gone.
-/

namespace AgentDaemon.Daemon.Protocol

open Document ByteLines Transition

variable {F : Type}

/-! ## State -/

/-- Where a call of `request_with_id` is. -/
inductive CallPhase where
  /-- The id is in the pending table, and the request is about to be sent to the writer. -/
  | registered
  /-- The writer is gone, and the id is about to be taken out of the table. -/
  | sendFailed
  /-- The call has returned the stream of its frames. -/
  | streaming
  | rejected (message : String)
  /-- The caller has dropped the call. -/
  | dropped
  deriving DecidableEq, Repr

/-- `request` is what the writer is sent. -/
structure ClientCall (F : Type) where
  id : RequestId
  request : JsonRpcRequest F
  phase : CallPhase

inductive WriterState (F : Type) where
  | waiting
  | holding (request : JsonRpcRequest F)
  | ended

inductive ReaderState where
  | reading
  /-- A response was handed on, and its id is about to be taken out of the table. -/
  | closing (id : RequestId)
  | ended
  deriving DecidableEq, Repr

/-- An entry of the pending table: the call whose frames go under the id. -/
structure Waiter where
  id : RequestId
  idFits : IdFits id
  call : Nat

/-- `client` says that a `DaemonClient` is left, and `delivered` is what the calls were sent. -/
structure ClientTransport (F : Type) where
  client : Bool := true
  calls : List (ClientCall F) := []
  pending : List Waiter := []
  channel : List (JsonRpcRequest F) := []
  writer : WriterState F := .waiting
  reader : ReaderState := .reading
  delivered : List (Nat × ServerFrame F) := []

namespace ClientTransport

/-! ## Operations -/

/-- `mpsc::channel(64)`. -/
def capacity : Nat := 64

/-- How writing a request ends. -/
inductive WriteOutcome where
  | written
  | writeFails (error : String)
  | flushFails (error : String)

inductive Event (F : Type) where
  /-- `request_with_id`, until the id is in the table. -/
  | call (id : RequestId) (idFits : IdFits id) (method : String) (params : Document F)
  /-- Call `i` sends its request to the writer. -/
  | send (i : Nat)
  /-- Call `i` takes its id out of the table after its request was refused. -/
  | unregister (i : Nat)
  | dropCall (i : Nat)
  /-- The last `DaemonClient` is dropped; a call under way holds one. -/
  | dropClient
  | receive
  | write (outcome : WriteOutcome)
  | readLine (line : List UInt8)
  | readEnd
  | readFails (error : String)
  | closeRequest

section Operations

variable (codec : SerdeJson F) (s : ClientTransport F)

def remove (id : RequestId) : ClientTransport F :=
  { s with pending := s.pending.filter fun waiter => waiter.id ≠ id }

def setPhase (i : Nat) (phase : CallPhase) : ClientTransport F :=
  { s with calls := s.calls.modify i fun c => { c with phase } }

def failPending (id : RequestId) (code : Int64) (message : String) : ClientTransport F :=
  match s.pending.find? fun waiter => waiter.id = id with
  | none => s
  | some waiter =>
    { s.remove id with
      delivered := s.delivered ++
        [(waiter.call, .response (.failure waiter.id waiter.idFits code message))] }

def failAllPending (message : String) : ClientTransport F :=
  { s with
    pending := []
    delivered := s.delivered ++ s.pending.map fun waiter =>
      (waiter.call, .response (.failure waiter.id waiter.idFits (-32000) message)) }

/-- The request as `request_with_id` encodes it and reads it back. -/
def checked (request : JsonRpcRequest F) : Except String (JsonRpcRequest F) :=
  match encodeFrame codec request.document with
  | .error _ => .error "编码 daemon 请求失败"
  | .ok bytes =>
    match decodeRequest codec bytes with
    | .error _ => .error "校验 daemon 请求失败"
    | .ok request => .ok request

/-- `contains_key`. -/
def waits (id : RequestId) : Bool := s.pending.any fun waiter => waiter.id = id

def callRequest (id : RequestId) (idFits : IdFits id) (method : String) (params : Document F) :
    ClientTransport F :=
  let request : JsonRpcRequest F := ⟨jsonrpcVersion, id, method, params, idFits⟩
  if s.client = false then s else
  match checked codec request with
  | .error message => { s with calls := s.calls ++ [⟨id, request, .rejected message⟩] }
  | .ok request =>
    if s.waits id then
      { s with calls := s.calls ++ [⟨id, request, .rejected "请求 id 已在等待响应"⟩] }
    else
      { s with
        calls := s.calls ++ [⟨id, request, .registered⟩]
        pending := s.pending ++ [⟨id, idFits, s.calls.length⟩] }

/-- The send waits while the channel is full, and fails once the receiver is gone. -/
def sendRequest (i : Nat) : ClientTransport F :=
  match s.calls[i]? with
  | some ⟨_, request, .registered⟩ =>
    match s.writer with
    | .ended => s.setPhase i .sendFailed
    | _ =>
      if s.channel.length < capacity then
        { s.setPhase i .streaming with channel := s.channel ++ [request] }
      else s
  | _ => s

def unregister (i : Nat) : ClientTransport F :=
  match s.calls[i]? with
  | some ⟨id, _, .sendFailed⟩ =>
    (s.remove id).setPhase i (.rejected "daemon Unix 传输已关闭")
  | _ => s

def dropCall (i : Nat) : ClientTransport F :=
  match s.calls[i]? with
  | some ⟨_, _, .registered⟩ => s.setPhase i .dropped
  | some ⟨_, _, .sendFailed⟩ => s.setPhase i .dropped
  | _ => s

def dropClient : ClientTransport F :=
  if s.calls.any fun c => c.phase = .registered ∨ c.phase = .sendFailed then s
  else { s with client := false }

/-- The writer takes the next request, and returns once no client can send one. -/
def receiveRequest : ClientTransport F :=
  match s.writer, s.channel with
  | .waiting, request :: channel => { s with writer := .holding request, channel }
  | .waiting, [] => if s.client then s else { s with writer := .ended }
  | _, _ => s

/-- The writer returns, and the requests that it has not taken go with its receiver. -/
def endWriter (message : String) : ClientTransport F :=
  { s.failAllPending message with writer := .ended, channel := [] }

def writeRequest (outcome : WriteOutcome) : ClientTransport F :=
  match s.writer with
  | .holding request =>
    match encodeFrame codec request.document with
    | .error error => { s.failPending request.id (-32002) error.message with writer := .waiting }
    | .ok _ =>
      match outcome with
      | .written => { s with writer := .waiting }
      | .writeFails error => s.endWriter ("写入 daemon 请求失败: " ++ error)
      | .flushFails error => s.endWriter ("刷新 daemon 请求失败: " ++ error)
  | _ => s

def endReader (message : String) : ClientTransport F :=
  { s.failAllPending message with reader := .ended }

/-- The reader hands a frame to the call under its id. -/
def hand (frame : ServerFrame F) : ClientTransport F :=
  match s.pending.find? fun waiter => waiter.id = serverFrameRequestId frame with
  | none => s
  | some waiter => { s with delivered := s.delivered ++ [(waiter.call, frame)] }

/-- After a response the reader closes the request. -/
def deliver (frame : ServerFrame F) : ClientTransport F :=
  match frame with
  | .event _ => s.hand frame
  | .response _ => { s.hand frame with reader := .closing (serverFrameRequestId frame) }

def next (s : ClientTransport F) : Event F → ClientTransport F
  | .call id idFits method params => s.callRequest codec id idFits method params
  | .send i => s.sendRequest i
  | .unregister i => s.unregister i
  | .dropCall i => s.dropCall i
  | .dropClient => s.dropClient
  | .receive => s.receiveRequest
  | .write outcome => s.writeRequest codec outcome
  | .readLine line =>
    match s.reader with
    | .reading =>
      match decodeServerFrame codec line with
      | .error error => s.endReader error.message
      | .ok frame => s.deliver frame
    | _ => s
  | .readEnd =>
    match s.reader with
    | .reading => s.endReader "daemon 连接已关闭"
    | _ => s
  | .readFails error =>
    match s.reader with
    | .reading => s.endReader ("读取 daemon 响应失败: " ++ error)
    | _ => s
  | .closeRequest =>
    match s.reader with
    | .closing id => { s.remove id with reader := .reading }
    | _ => s

end Operations

/-- Call `i` was sent a response. -/
def Answered (s : ClientTransport F) (i : Nat) : Prop :=
  ∃ r, (i, ServerFrame.response r) ∈ s.delivered

/-- No call waits for a reader that is gone. -/
structure Settled (s : ClientTransport F) : Prop where
  pending : s.reader = .ended → s.channel = [] → s.pending = []
  answered : s.reader = .ended → s.channel = [] → ∀ (i : Nat) (c : ClientCall F),
    s.calls[i]? = some c → c.phase = .streaming → s.Answered i

/-- A call puts its id in the table while the reader runs, and not while the reader is about to
take out this id. -/
def RegistersInTime (codec : SerdeJson F) (s : ClientTransport F) : Event F → Prop
  | .call id idFits method params =>
    s.client = true → (checked codec ⟨jsonrpcVersion, id, method, params, idFits⟩).isOk = true →
      s.waits id = false → s.reader ≠ .ended ∧ s.reader ≠ .closing id
  | _ => True

/-! ## What every step keeps -/

/-- A call that waits for frames is in the table or was answered. -/
structure Inv (s : ClientTransport F) : Prop where
  drained : s.reader = .ended → s.pending = []
  closing : ∀ id, s.reader = .closing id → ∀ w ∈ s.pending, w.id = id → s.Answered w.call
  unique : ∀ w ∈ s.pending, ∀ w' ∈ s.pending, w.id = w'.id → w = w'
  kept : ∀ (i : Nat) (c : ClientCall F), s.calls[i]? = some c →
    c.phase = .streaming ∨ c.phase = .registered ∧ s.writer ≠ .ended →
    (∃ w ∈ s.pending, w.id = c.id ∧ w.call = i) ∨ s.Answered i
  borrowed : ∀ (i : Nat) (c : ClientCall F), s.calls[i]? = some c →
    c.phase = .registered ∨ c.phase = .sendFailed → s.client = true
  failed : ∀ (i : Nat) (c : ClientCall F), s.calls[i]? = some c → c.phase = .sendFailed →
    s.writer = .ended
  ended : s.writer = .ended → s.client = true → ∀ (i : Nat) (c : ClientCall F),
    s.calls[i]? = some c → c.phase = .streaming → s.Answered i

theorem inv_empty : ({} : ClientTransport F).Inv where
  drained := nofun
  closing := nofun
  unique := nofun
  kept := nofun
  borrowed := nofun
  failed := nofun
  ended := nofun

section Keeps

variable {codec : SerdeJson F} {s s' : ClientTransport F}

theorem Answered.mono {i : Nat} (h : s.Answered i) (hsub : s.delivered ⊆ s'.delivered) :
    s'.Answered i := by
  obtain ⟨r, hr⟩ := h
  exact ⟨r, hsub hr⟩

theorem Inv.settled (h : s.Inv) : s.Settled := by
  refine ⟨fun hr _ => h.drained hr, fun hr _ i c hc hst => ?_⟩
  rcases h.kept i c hc (.inl hst) with ⟨w, hw, -⟩ | hanswered
  · rw [h.drained hr] at hw
    cases hw
  · exact hanswered

/-! ### Answers -/

/-- After the table was drained, what was in it is answered. -/
theorem answered_failAll (message : String) {w : Waiter} (hw : w ∈ s.pending) :
    (s.failAllPending message).Answered w.call :=
  ⟨.failure w.id w.idFits (-32000) message, List.mem_append_right _ (List.mem_map_of_mem hw)⟩

theorem delivered_failAll (message : String) :
    s.delivered ⊆ (s.failAllPending message).delivered := List.subset_append_left _ _

theorem Inv.answered_failAll (h : s.Inv) (message : String) {i : Nat} {c : ClientCall F}
    (hc : s.calls[i]? = some c)
    (hphase : c.phase = .streaming ∨ c.phase = .registered ∧ s.writer ≠ .ended) :
    (s.failAllPending message).Answered i := by
  rcases h.kept i c hc hphase with ⟨w, hw, -, rfl⟩ | hanswered
  · exact ClientTransport.answered_failAll message hw
  · exact hanswered.mono (delivered_failAll message)

theorem Inv.endReader (h : s.Inv) (message : String) : (s.endReader message).Inv where
  drained _ := rfl
  closing _ hr := by cases hr
  unique := nofun
  kept _ _ hc hphase := .inr (h.answered_failAll message hc hphase)
  borrowed := h.borrowed
  failed := h.failed
  ended hw hclient i c hc hst :=
    (h.ended hw hclient i c hc hst).mono (delivered_failAll message)

theorem Inv.endWriter (h : s.Inv) (message : String) : (s.endWriter message).Inv where
  drained _ := rfl
  closing _ _ := nofun
  unique := nofun
  kept _ _ hc hphase := by
    rcases hphase with hst | ⟨-, hw⟩
    · exact .inr (h.answered_failAll message hc (.inl hst))
    · exact absurd rfl hw
  borrowed := h.borrowed
  failed _ _ _ _ := rfl
  ended _ _ _ _ hc hst := h.answered_failAll message hc (.inl hst)

/-- An id is taken out of the table once every stream under it is answered. -/
theorem Inv.remove (h : s.Inv) {id : RequestId}
    (hid : ∀ w ∈ s.pending, w.id = id → s.Answered w.call) : (s.remove id).Inv where
  drained hr := by
    rw [ClientTransport.remove, h.drained hr]
    rfl
  closing id' hr w hw hid' := h.closing id' hr w (List.mem_filter.mp hw).1 hid'
  unique w hw w' hw' := h.unique w (List.mem_filter.mp hw).1 w' (List.mem_filter.mp hw').1
  kept i c hc hphase := by
    rcases h.kept i c hc hphase with ⟨w, hw, hwid, hwi⟩ | hanswered
    · by_cases he : w.id = id
      · exact .inr (hwi ▸ hid w hw he)
      · exact .inl ⟨w, List.mem_filter.mpr ⟨hw, by simpa using he⟩, hwid, hwi⟩
    · exact .inr hanswered
  borrowed := h.borrowed
  failed := h.failed
  ended := h.ended

/-- A frame more. -/
theorem Inv.deliver (h : s.Inv) (frames : List (Nat × ServerFrame F)) :
    Inv { s with delivered := s.delivered ++ frames } := by
  have hmono : ∀ {i}, s.Answered i →
      Answered { s with delivered := s.delivered ++ frames } i :=
    fun ha => ha.mono (List.subset_append_left _ _)
  exact {
    drained := h.drained
    closing := fun id hr w hw hid => hmono (h.closing id hr w hw hid)
    unique := h.unique
    kept := fun i c hc hphase => (h.kept i c hc hphase).imp_right hmono
    borrowed := h.borrowed
    failed := h.failed
    ended := fun hw hclient i c hc hst => hmono (h.ended hw hclient i c hc hst) }

theorem Inv.failPending (h : s.Inv) (id : RequestId) (code : Int64) (message : String) :
    (s.failPending id code message).Inv := by
  unfold ClientTransport.failPending
  split
  · exact h
  · rename_i w hw
    have hmem := List.mem_of_find?_eq_some hw
    have hid : w.id = id := by simpa using List.find?_some hw
    refine (h.deliver [(w.call, .response (.failure w.id w.idFits code message))]).remove ?_
    intro w' hw' hid'
    have hsame : w' = w := h.unique w' hw' w hmem (hid'.trans hid.symm)
    rw [hsame]
    exact ⟨_, List.mem_append_right _ (List.mem_singleton.mpr rfl)⟩

theorem Inv.hand (h : s.Inv) (frame : ServerFrame F) : (s.hand frame).Inv := by
  unfold ClientTransport.hand
  split
  · exact h
  · exact h.deliver _

/-- A response answers the call under its id. -/
theorem Inv.answered_hand (h : s.Inv) {r : JsonRpcResponse F} {w : Waiter}
    (hw : w ∈ s.pending) (hid : w.id = r.id) : (s.hand (.response r)).Answered w.call := by
  rw [ClientTransport.hand]
  split
  · rename_i hnone
    rw [List.find?_eq_none] at hnone
    exact absurd (decide_eq_true hid) (hnone w hw)
  · rename_i w' hw'
    have hfound := List.find?_some hw'
    have hid' : w'.id = r.id := of_decide_eq_true hfound
    have hsame : w = w' := h.unique w hw w' (List.mem_of_find?_eq_some hw') (hid.trans hid'.symm)
    rw [hsame]
    exact ⟨r, List.mem_append_right _ (List.mem_singleton.mpr rfl)⟩

theorem pending_hand (frame : ServerFrame F) : (s.hand frame).pending = s.pending := by
  rw [ClientTransport.hand]
  split <;> rfl

theorem Inv.handOn (h : s.Inv) (frame : ServerFrame F) : (s.deliver frame).Inv := by
  cases frame with
  | event e => exact h.hand (.event e)
  | response r =>
    have hhand := h.hand (.response r)
    exact {
      drained := nofun
      closing := by
        intro id hid w hw hwid
        cases hid
        exact h.answered_hand (pending_hand (.response r) ▸ hw) hwid
      unique := hhand.unique
      kept := hhand.kept
      borrowed := hhand.borrowed
      failed := hhand.failed
      ended := hhand.ended }

/-! ### Calls -/

theorem getElem?_setPhase {i j : Nat} {phase : CallPhase} {c' : ClientCall F}
    (h : (s.setPhase i phase).calls[j]? = some c') :
    ∃ c, s.calls[j]? = some c ∧ c'.id = c.id ∧
      c'.phase = if j = i then phase else c.phase := by
  obtain ⟨c, hc, rfl⟩ := Slots.of_modify h
  refine ⟨c, hc, ?_, ?_⟩
  · split <;> rfl
  · split <;> rfl

/-- A phase may change to one that asks for no more of the state. -/
theorem Inv.setPhase (h : s.Inv) {i : Nat} {c : ClientCall F} (hc : s.calls[i]? = some c)
    {phase : CallPhase}
    (hkept : phase = .streaming ∨ phase = .registered →
      c.phase = .registered ∧ s.writer ≠ .ended)
    (hfailed : phase = .sendFailed → c.phase = .registered ∧ s.writer = .ended) :
    (s.setPhase i phase).Inv where
  drained := h.drained
  closing := h.closing
  unique := h.unique
  kept j c' hc' hphase := by
    obtain ⟨c₁, hc₁, hid, hp⟩ := getElem?_setPhase hc'
    rw [hid]
    refine h.kept j c₁ hc₁ ?_
    split at hp
    · rename_i hji
      subst hji
      cases hc.symm.trans hc₁
      exact .inr (hkept (by rw [← hp]; exact hphase.imp_right And.left))
    · rw [← hp]
      exact hphase
  borrowed j c' hc' hphase := by
    obtain ⟨c₁, hc₁, -, hp⟩ := getElem?_setPhase hc'
    split at hp
    · rw [hp] at hphase
      rcases hphase with hphase | hphase
      · exact h.borrowed i c hc (.inl (hkept (.inr hphase)).1)
      · exact h.borrowed i c hc (.inl (hfailed hphase).1)
    · exact h.borrowed j c₁ hc₁ (hp ▸ hphase)
  failed j c' hc' hphase := by
    obtain ⟨c₁, hc₁, -, hp⟩ := getElem?_setPhase hc'
    split at hp
    · exact (hfailed (hp.symm.trans hphase)).2
    · exact h.failed j c₁ hc₁ (hp.symm.trans hphase)
  ended hw hclient j c' hc' hphase := by
    obtain ⟨c₁, hc₁, -, hp⟩ := getElem?_setPhase hc'
    split at hp
    · exact absurd hw (hkept (.inl (hp.symm.trans hphase))).2
    · exact h.ended hw hclient j c₁ hc₁ (hp.symm.trans hphase)

theorem Inv.sendRequest (h : s.Inv) (i : Nat) : (s.sendRequest i).Inv := by
  unfold ClientTransport.sendRequest
  split
  · rename_i id request hc
    split
    · rename_i hw
      exact h.setPhase hc (by simp) fun _ => ⟨rfl, hw⟩
    · rename_i hw
      split
      · have hstreaming : (s.setPhase i .streaming).Inv :=
          h.setPhase hc (fun _ => ⟨rfl, hw⟩) nofun
        exact ⟨hstreaming.drained, hstreaming.closing, hstreaming.unique, hstreaming.kept,
          hstreaming.borrowed, hstreaming.failed, hstreaming.ended⟩
      · exact h
  · exact h

theorem Inv.unregister (h : s.Inv) (i : Nat) : (s.unregister i).Inv := by
  unfold ClientTransport.unregister
  split
  · rename_i id request hc
    -- Once the writer has failed, every call that has returned its stream is answered.
    have hw := h.failed i _ hc rfl
    have hclient := h.borrowed i _ hc (.inr rfl)
    have hremoved : (s.remove id).Inv := {
      drained := by
        intro hr
        rw [ClientTransport.remove, h.drained hr]
        rfl
      closing := fun id' hr w hmem => h.closing id' hr w (List.mem_filter.mp hmem).1
      unique := fun w hmem w' hmem' =>
        h.unique w (List.mem_filter.mp hmem).1 w' (List.mem_filter.mp hmem').1
      kept := by
        intro j c hc' hphase
        rcases hphase with hst | ⟨-, hne⟩
        · exact .inr (h.ended hw hclient j c hc' hst)
        · exact absurd hw hne
      borrowed := h.borrowed
      failed := h.failed
      ended := h.ended }
    exact hremoved.setPhase hc (by simp) nofun
  · exact h

theorem Inv.dropCall (h : s.Inv) (i : Nat) : (s.dropCall i).Inv := by
  unfold ClientTransport.dropCall
  split
  · rename_i hc
    exact h.setPhase hc (by simp) nofun
  · rename_i hc
    exact h.setPhase hc (by simp) nofun
  · exact h

theorem Inv.dropClient (h : s.Inv) : s.dropClient.Inv := by
  unfold ClientTransport.dropClient
  split
  · exact h
  · rename_i hnone
    exact {
      drained := h.drained
      closing := h.closing
      unique := h.unique
      kept := h.kept
      borrowed := by
        intro i c hc hphase
        exact absurd (List.any_eq_true.mpr ⟨c, List.mem_of_getElem? hc, by simpa using hphase⟩)
          hnone
      failed := h.failed
      ended := nofun }

/-- One more call that waits for nothing. -/
theorem Inv.reject (h : s.Inv) (c : ClientCall F) {message : String}
    (hc : c.phase = .rejected message) : Inv { s with calls := s.calls ++ [c] } := by
  have hold : ∀ {i : Nat} {c' : ClientCall F}, (s.calls ++ [c])[i]? = some c' →
      (∀ message, c'.phase ≠ .rejected message) → s.calls[i]? = some c' := by
    intro i c' hc' hne
    rcases Slots.of_concat hc' with hc' | ⟨-, rfl⟩
    · exact hc'
    · exact absurd hc (hne message)
  exact {
    drained := h.drained
    closing := h.closing
    unique := h.unique
    kept := fun i c' hc' hphase => h.kept i c' (hold hc' (by rintro m hm; simp [hm] at hphase)) hphase
    borrowed := fun i c' hc' hphase =>
      h.borrowed i c' (hold hc' (by rintro m hm; simp [hm] at hphase)) hphase
    failed := fun i c' hc' hphase => h.failed i c' (hold hc' (by simp [hphase])) hphase
    ended := fun hw hclient i c' hc' hphase =>
      h.ended hw hclient i c' (hold hc' (by simp [hphase])) hphase }

/-- One more call under an id that no call waits for. -/
theorem Inv.register (h : s.Inv) (c : ClientCall F) (hc : c.phase = .registered)
    (hclient : s.client = true) (idFits : IdFits c.id) (hfree : s.waits c.id = false)
    (hended : s.reader ≠ .ended) (hclosing : s.reader ≠ .closing c.id) :
    Inv { s with
      calls := s.calls ++ [c]
      pending := s.pending ++ [⟨c.id, idFits, s.calls.length⟩] } := by
  have hnew : ∀ w ∈ s.pending, w.id ≠ c.id := by
    intro w hw hid
    rw [waits, List.any_eq_false] at hfree
    exact hfree w hw (decide_eq_true hid)
  have hcall : ∀ {i : Nat} {c' : ClientCall F}, (s.calls ++ [c])[i]? = some c' →
      s.calls[i]? = some c' ∨ i = s.calls.length ∧ c' = c := Slots.of_concat
  exact {
    drained := fun hr => absurd hr hended
    closing := by
      intro id hr w hw hid
      rcases List.mem_append.mp hw with hw | hw
      · exact h.closing id hr w hw hid
      · cases List.mem_singleton.mp hw
        exact absurd (hr.trans (congrArg ReaderState.closing hid.symm)) hclosing
    unique := by
      intro w hw w' hw' hid
      rcases List.mem_append.mp hw with hw | hw <;> rcases List.mem_append.mp hw' with hw' | hw'
      · exact h.unique w hw w' hw' hid
      · cases List.mem_singleton.mp hw'
        exact absurd hid (hnew w hw)
      · cases List.mem_singleton.mp hw
        exact absurd hid.symm (hnew w' hw')
      · exact (List.mem_singleton.mp hw).trans (List.mem_singleton.mp hw').symm
    kept := by
      intro i c' hc' hphase
      rcases hcall hc' with hc' | ⟨rfl, rfl⟩
      · refine (h.kept i c' hc' hphase).imp_left ?_
        rintro ⟨w, hw, hid, hwi⟩
        exact ⟨w, List.mem_append_left _ hw, hid, hwi⟩
      · exact .inl ⟨_, List.mem_append_right _ (List.mem_singleton.mpr rfl), rfl, rfl⟩
    borrowed := fun _ _ _ _ => hclient
    failed := by
      intro i c' hc' hphase
      rcases hcall hc' with hc' | ⟨rfl, rfl⟩
      · exact h.failed i c' hc' hphase
      · cases hc.symm.trans hphase
    ended := by
      intro hw _ i c' hc' hphase
      rcases hcall hc' with hc' | ⟨rfl, rfl⟩
      · exact h.ended hw hclient i c' hc' hphase
      · cases hc.symm.trans hphase }

theorem Inv.callRequest (h : s.Inv) (id : RequestId) (idFits : IdFits id) (method : String)
    (params : Document F) (hin : RegistersInTime codec s (.call id idFits method params)) :
    (s.callRequest codec id idFits method params).Inv := by
  rw [ClientTransport.callRequest]
  by_cases hclient : s.client = false
  · rw [if_pos hclient]
    exact h
  rw [if_neg hclient]
  have hclient : s.client = true := by simpa using hclient
  rcases hchecked : checked codec ⟨jsonrpcVersion, id, method, params, idFits⟩ with message | request
  · exact h.reject ⟨id, _, .rejected message⟩ rfl
  dsimp only
  by_cases hfree : s.waits id = true
  · rw [if_pos hfree]
    exact h.reject ⟨id, request, .rejected "请求 id 已在等待响应"⟩ rfl
  rw [if_neg hfree]
  have hfree : s.waits id = false := by simpa using hfree
  obtain ⟨hended, hclosing⟩ := hin hclient (by rw [hchecked]; rfl) hfree
  exact h.register ⟨id, request, .registered⟩ rfl hclient idFits hfree hended hclosing

/-! ### Tasks -/

/-- The writer takes a request or waits for the next one. -/
theorem Inv.writerGoesOn (h : s.Inv) {writer : WriterState F} (hw : s.writer ≠ .ended)
    (hw' : writer ≠ .ended) (channel : List (JsonRpcRequest F)) :
    Inv { s with writer, channel } where
  drained := h.drained
  closing := h.closing
  unique := h.unique
  kept i c hc hphase := h.kept i c hc (hphase.imp_right fun hp => ⟨hp.1, hw⟩)
  borrowed := h.borrowed
  failed i c hc hphase := absurd (h.failed i c hc hphase) hw
  ended hw'' := absurd hw'' hw'

theorem Inv.receiveRequest (h : s.Inv) : s.receiveRequest.Inv := by
  unfold ClientTransport.receiveRequest
  split
  · rename_i hw _
    exact h.writerGoesOn (by simp [hw]) (by simp) _
  · rename_i hw hchannel
    split
    · exact h
    · rename_i hclient
      exact {
        drained := h.drained
        closing := h.closing
        unique := h.unique
        kept := fun i c hc hphase =>
          h.kept i c hc (hphase.imp_right fun hp => absurd rfl hp.2)
        borrowed := h.borrowed
        failed := fun _ _ _ _ => rfl
        ended := fun _ hclient' => absurd hclient' hclient }
  · exact h

theorem Inv.writeRequest (h : s.Inv) (outcome : WriteOutcome) :
    (s.writeRequest codec outcome).Inv := by
  unfold ClientTransport.writeRequest
  split
  · rename_i request hw
    have hgoing : s.writer ≠ .ended := by simp [hw]
    split
    · rename_i error _
      have hfail := h.failPending request.id (-32002) error.message
      have hkept : (s.failPending request.id (-32002) error.message).writer ≠ .ended := by
        rw [ClientTransport.failPending]
        split <;> exact hgoing
      exact hfail.writerGoesOn hkept (by simp) _
    · cases outcome with
      | written => exact h.writerGoesOn hgoing (by simp) _
      | writeFails error => exact h.endWriter _
      | flushFails error => exact h.endWriter _
  · exact h

theorem Inv.closeRequest (h : s.Inv) {id : RequestId} (hr : s.reader = .closing id) :
    Inv { s.remove id with reader := .reading } :=
  have hremoved := h.remove (h.closing id hr)
  { drained := nofun
    closing := nofun
    unique := hremoved.unique
    kept := hremoved.kept
    borrowed := hremoved.borrowed
    failed := hremoved.failed
    ended := hremoved.ended }

/-- What one step keeps. -/
theorem Inv.next (h : s.Inv) {event : Event F} (hin : RegistersInTime codec s event) :
    (s.next codec event).Inv := by
  cases event with
  | call id idFits method params => exact h.callRequest id idFits method params hin
  | send i => exact h.sendRequest i
  | unregister i => exact h.unregister i
  | dropCall i => exact h.dropCall i
  | dropClient => exact h.dropClient
  | receive => exact h.receiveRequest
  | write outcome => exact h.writeRequest outcome
  | readLine line =>
    simp only [ClientTransport.next]
    split
    · split
      · exact h.endReader _
      · exact h.handOn _
    · exact h
  | readEnd =>
    simp only [ClientTransport.next]
    split
    · exact h.endReader _
    · exact h
  | readFails error =>
    simp only [ClientTransport.next]
    split
    · exact h.endReader _
    · exact h
  | closeRequest =>
    simp only [ClientTransport.next]
    split
    · rename_i id hr
      exact h.closeRequest hr
    · exact h

end Keeps

/-! ## Runs -/

instance (codec : SerdeJson F) (s : ClientTransport F) :
    (event : Event F) → Decidable (RegistersInTime codec s event)
  | .call id idFits method params => inferInstanceAs (Decidable (s.client = true →
      (checked codec ⟨jsonrpcVersion, id, method, params, idFits⟩).isOk = true →
        s.waits id = false → s.reader ≠ .ended ∧ s.reader ≠ .closing id))
  | .send _ | .unregister _ | .dropCall _ | .dropClient | .receive | .write _ | .readLine _
  | .readEnd | .readFails _ | .closeRequest => isTrue trivial

/-- As long as every call registers in time, no call is left waiting for a reader that is gone. -/
theorem settled_after (codec : SerdeJson F) (events : List (Event F))
    (h : Along (next codec) (RegistersInTime codec) {} events) :
    ∀ pre, pre <+: events → (after (next codec) {} pre).Settled := by
  rintro pre ⟨post, rfl⟩
  have hinv : (after (next codec) {} pre).Inv :=
    after_induct (fun _ _ hs hin => hs.next hin) inv_empty (along_append.mp h).1
  exact hinv.settled

def pingCall : Event Empty := .call (.number 1) idFits_one "ping" .null

/-- A call that registers before the daemon hangs up. -/
def timelyCall : List (Event Empty) := [pingCall, .send 0, .receive, .write .written, .readEnd]

theorem settled_ping : (after (next plainCodec) {} timelyCall).Settled :=
  settled_after plainCodec timelyCall (by decide +kernel) timelyCall List.prefix_rfl

/-- The reader stops at a frame it cannot decode, and the call comes afterwards. -/
def lateCall : List (Event Empty) :=
  [.readLine [lineFeed], pingCall, .send 0, .receive, .write .written]

/-- The call returns a stream on which no frame arrives. -/
theorem not_settled_lateCall : ¬ (after (next plainCodec) {} lateCall).Settled := by
  intro h
  have hempty := h.pending (by decide +kernel) (by decide +kernel)
  revert hempty
  decide +kernel

end ClientTransport

end AgentDaemon.Daemon.Protocol
