import AgentDaemon.Daemon.Protocol
import AgentDaemon.Lib.DocumentText
import AgentDaemon.Lib.Slots
import AgentDaemon.Lib.Transition

/-!
One Unix connection: the reader that starts a handler for each request, the frames that the handlers
and the notifications of delegations send, and the writer. Where every event fits a frame, every
request has its own id and no notification meets a run that has answered, a request gets one
response at most, and nothing behind it (`one_response`).
-/

namespace AgentDaemon.Daemon.Protocol

open Transition

variable {F : Type}

/-! ## Frames -/

def JsonRpcResponse.success (id : RequestId) (h : IdFits id) (result : Document F) :
    JsonRpcResponse F where
  jsonrpc := jsonrpcVersion
  id := id
  result := some result
  error := none
  idFits := h

def ServerFrame.isResponse : ServerFrame F → Bool
  | event _ => false
  | response _ => true

theorem ServerFrame.idFits : (frame : ServerFrame F) → IdFits (serverFrameRequestId frame)
  | event frame => frame.idFits
  | response frame => frame.idFits

/-- What is left of a frame that can not be encoded. -/
def fallback (frame : ServerFrame F) (error : ProtocolError) : ServerFrame F :=
  .response (.failure (serverFrameRequestId frame) frame.idFits (-32002) error.message)

/-! ## Handlers -/

/-- The id of the answers to lines that are no requests. -/
def protocolId : RequestId := .string "protocol"

inductive Handler where
  /-- One response. -/
  | respond
  /-- `handle_subscribe`. -/
  | subscribe
  /-- `handle_chat_send`. -/
  | chatSend
  deriving DecidableEq

inductive Stage where
  /-- Before the response, and before `active.insert`. -/
  | working
  /-- In the map of the active requests, up to the final commit. -/
  | active
  /-- Out of the map, with an error to send. -/
  | leaving
  /-- The final commit has failed and that was sent. -/
  | unsaved
  | committed
  /-- The terminal response was published. -/
  | answered
  | returned
  deriving DecidableEq

/-- The request has its response, or gets none. -/
def Stage.ended : Stage → Bool
  | unsaved | answered | returned => true
  | _ => false

/-- `active` holds the sender of the frames. -/
def Stage.registered : Stage → Bool
  | active | unsaved | committed | answered => true
  | _ => false

/-- A stretch of a handler between two awaits. -/
inductive Stretch (F : Type) where
  | event (kind : EventKind) (data : Document F) (runId : Option RunId) (seq : Option UInt64)
  | respond (result : Except (Int64 × String) (Document F))
  | register
  /-- `active.remove` before a response. -/
  | leave
  /-- The handler returns without a response. -/
  | giveUp
  | commitFails (code : Int64) (message : String)
  | commit
  | terminal (result : Except (Int64 × String) (Document F))
  | remove

structure RequestTask where
  id : RequestId
  idFits : IdFits id
  handler : Handler
  stage : Stage
  deriving DecidableEq

namespace RequestTask

/-- `to_frame`. -/
def eventFrame (t : RequestTask) (kind : EventKind) (data : Document F) (runId : Option RunId)
    (seq : Option UInt64) : ServerFrame F :=
  .event ⟨jsonrpcVersion, t.id, kind, data, runId, seq, t.idFits⟩

/-- `send_result`. -/
def responseFrame (t : RequestTask) : Except (Int64 × String) (Document F) → ServerFrame F
  | .ok result => .response (.success t.id t.idFits result)
  | .error (code, message) => .response (.failure t.id t.idFits code message)

/-- Where a stretch ends and what it sends. -/
def advance (t : RequestTask) (stretch : Stretch F) : Option (Stage × Option (ServerFrame F)) :=
  match t.handler, t.stage, stretch with
  | _, .working, .respond result => some (.returned, some (t.responseFrame result))
  | .subscribe, .working, .event kind data runId seq =>
    some (.working, some (t.eventFrame kind data runId seq))
  | .subscribe, .working, .giveUp => some (.returned, none)
  | .chatSend, .working, .register => some (.active, none)
  | .chatSend, .active, .event kind data runId seq =>
    some (.active, some (t.eventFrame kind data runId seq))
  | .chatSend, .active, .leave => some (.leaving, none)
  | .chatSend, .active, .giveUp => some (.returned, none)
  | .chatSend, .leaving, .respond result => some (.returned, some (t.responseFrame result))
  | .chatSend, .active, .commitFails code message =>
    some (.unsaved, some (t.responseFrame (.error (code, message))))
  | .chatSend, .active, .commit => some (.committed, none)
  -- `publish_committed_completion`
  | .chatSend, .committed, .event kind data runId seq =>
    some (.committed, some (t.eventFrame kind data runId seq))
  | .chatSend, .committed, .terminal result => some (.answered, some (t.responseFrame result))
  | .chatSend, .unsaved, .remove => some (.returned, none)
  | .chatSend, .answered, .remove => some (.returned, none)
  | _, _, _ => none

end RequestTask

/-! ## The connection -/

structure Connection (F : Type) where
  tasks : List RequestTask
  /-- The channel to the writer. -/
  frames : List (ServerFrame F)
  /-- The writer has not failed. -/
  writing : Bool
  written : List (ServerFrame F)

inductive ConnectionEvent (F : Type) where
  | request (id : RequestId) (idFits : IdFits id) (handler : Handler)
  /-- A request while the daemon shuts down. -/
  | refused (id : RequestId) (idFits : IdFits id)
  /-- A line that is too long or no request. -/
  | malformed (code : Int64) (message : String)
  | advance (i : Nat) (stretch : Stretch F)
  /-- `publish_external`, for a child of the run. -/
  | external (i : Nat) (kind : EventKind) (data : Document F) (runId : Option RunId)
  | write
  | writeFails

namespace Connection

def start : Connection F := ⟨[], [], true, []⟩

variable (codec : SerdeJson F) (c : Connection F)

/-- `frames.send`: nothing arrives once the writer is gone. -/
def send (frame : ServerFrame F) : Connection F :=
  if c.writing then { c with frames := c.frames ++ [frame] } else c

def setStage (i : Nat) (stage : Stage) : Connection F :=
  { c with tasks := c.tasks.modify i ({ · with stage }) }

def accept (task : RequestTask) : Connection F := { c with tasks := c.tasks ++ [task] }

def close : Connection F := { c with frames := [], writing := false }

/-- One round of the writer. -/
def write : Connection F :=
  match c.frames with
  | [] => c
  | frame :: frames =>
    match encodeFrame codec frame.document with
    | .ok _ => { c with frames, written := c.written ++ [frame] }
    | .error error =>
      match encodeFrame codec (fallback frame error).document with
      | .ok _ => { c with frames, written := c.written ++ [fallback frame error] }
      | .error _ => c.close

def next (c : Connection F) : ConnectionEvent F → Connection F
  | .request id idFits handler => c.accept ⟨id, idFits, handler, .working⟩
  | .refused id idFits =>
    (c.accept ⟨id, idFits, .respond, .returned⟩).send
      (.response (.failure id idFits (-32001) "daemon 正在关闭"))
  | .malformed code message => c.send (.response (.failure protocolId trivial code message))
  | .advance i stretch =>
    match c.tasks[i]? with
    | none => c
    | some task =>
      match task.advance stretch with
      | none => c
      | some (stage, none) => c.setStage i stage
      | some (stage, some frame) => (c.setStage i stage).send frame
  | .external i kind data runId =>
    match c.tasks[i]? with
    | none => c
    | some task =>
      if task.stage.registered then c.send (task.eventFrame kind data runId none) else c
  | .write => c.write codec
  | .writeFails => c.close

/-! ## The statement -/

/-- The frames with the id of a task: nothing stands behind a response, and none is written before
the handler has come to its end. -/
structure OneResponse (c : Connection F) (task : RequestTask) : Prop where
  last : c.written.Pairwise fun frame later => frame.isResponse = true →
    serverFrameRequestId frame = task.id → serverFrameRequestId later ≠ task.id
  ended : ∀ frame ∈ c.written, frame.isResponse = true → serverFrameRequestId frame = task.id →
    task.stage.ended = true

/-- The writer makes no response of an event. -/
def Faithful (frame : ServerFrame F) : Prop :=
  match encodeFrame codec frame.document with
  | .ok _ => True
  | .error error => frame.isResponse = true ∨
    (encodeFrame codec (fallback frame error).document).isOk = false

instance (frame : ServerFrame F) : Decidable (Faithful codec frame) :=
  match h : encodeFrame codec frame.document with
  | .ok _ => isTrue (by simp only [Faithful, h])
  | .error error =>
    decidable_of_iff (frame.isResponse = true ∨
      (encodeFrame codec (fallback frame error).document).isOk = false) (by simp only [Faithful, h])

/-- A request has an id of its own, a notification meets no run that has answered, and the writer
makes no response of an event. -/
def Orderly (c : Connection F) : ConnectionEvent F → Prop
  | .request id _ _ | .refused id _ => id ≠ protocolId ∧ ∀ task ∈ c.tasks, task.id ≠ id
  | .external i _ _ _ => ∀ task ∈ c.tasks[i]?, c.writing = true →
    task.stage.registered = true → task.stage.ended = false
  | .write => ∀ frame ∈ c.frames.head?, Faithful codec frame
  | _ => True

instance (c : Connection F) : (event : ConnectionEvent F) → Decidable (Orderly codec c event)
  | .request id _ _ | .refused id _ =>
    inferInstanceAs (Decidable (id ≠ protocolId ∧ ∀ task ∈ c.tasks, task.id ≠ id))
  | .external i _ _ _ => inferInstanceAs (Decidable (∀ task ∈ c.tasks[i]?, c.writing = true →
    task.stage.registered = true → task.stage.ended = false))
  | .write => inferInstanceAs (Decidable (∀ frame ∈ c.frames.head?, Faithful codec frame))
  | .malformed .. | .advance .. | .writeFails => isTrue trivial

/-! ## What every orderly step keeps -/

section Steps

variable {codec : SerdeJson F} {c : Connection F}

/-- What the client sees of a frame: whether it is a response, and the id. -/
def sign (frame : ServerFrame F) : Bool × RequestId :=
  (frame.isResponse, serverFrameRequestId frame)

/-- Behind a response no frame has its id. -/
def Closed (a b : Bool × RequestId) : Prop := a.1 = true → a.2 ≠ protocolId → b.2 ≠ a.2

/-- `signs` are those of the frames that were written or wait for the writer. -/
structure Inv (tasks : List RequestTask) (signs : List (Bool × RequestId)) : Prop where
  distinct : tasks.Pairwise (·.id ≠ ·.id)
  apart : ∀ task ∈ tasks, task.id ≠ protocolId
  known : ∀ a ∈ signs, a.2 = protocolId ∨ ∃ task ∈ tasks, task.id = a.2
  closed : signs.Pairwise Closed
  ended : ∀ a ∈ signs, a.1 = true → ∀ task ∈ tasks, task.id = a.2 → task.stage.ended = true

/-- What the client was sent and what is on its way. -/
def signs (c : Connection F) : List (Bool × RequestId) := (c.written ++ c.frames).map sign

theorem Inv.sublist {tasks : List RequestTask} {signs signs' : List (Bool × RequestId)}
    (h : Inv tasks signs) (hs : signs'.Sublist signs) : Inv tasks signs' where
  distinct := h.distinct
  apart := h.apart
  known := fun a ha => h.known a (hs.subset ha)
  closed := h.closed.sublist hs
  ended := fun a ha => h.ended a (hs.subset ha)

/-- A task with an id of its own. -/
theorem Inv.accept {tasks : List RequestTask} {signs : List (Bool × RequestId)}
    (h : Inv tasks signs) {task : RequestTask} (hid : task.id ≠ protocolId)
    (hnew : ∀ other ∈ tasks, other.id ≠ task.id) : Inv (tasks ++ [task]) signs where
  distinct := by
    refine List.pairwise_append.mpr ⟨h.distinct, List.pairwise_singleton _ _, ?_⟩
    intro other hother x hx
    rw [List.mem_singleton.mp hx]
    exact hnew other hother
  apart := by
    intro x hx
    rcases List.mem_append.mp hx with hx | hx
    · exact h.apart x hx
    · rw [List.mem_singleton.mp hx]
      exact hid
  known := fun a ha => (h.known a ha).imp_right fun ⟨x, hx, hxa⟩ =>
    ⟨x, List.mem_append_left _ hx, hxa⟩
  closed := h.closed
  ended := by
    intro a ha hresponse x hx hxa
    rcases List.mem_append.mp hx with hx | hx
    · exact h.ended a ha hresponse x hx hxa
    · -- No frame has the id of a task that is new.
      rw [List.mem_singleton.mp hx] at hxa
      rcases h.known a ha with hprotocol | ⟨other, hother, hoa⟩
      · exact absurd (hxa.trans hprotocol) hid
      · exact absurd (hoa.trans hxa.symm) (hnew other hother)

theorem eq_of_id {tasks : List RequestTask} (h : tasks.Pairwise (·.id ≠ ·.id)) {i j : Nat}
    {x y : RequestTask} (hi : tasks[i]? = some x) (hj : tasks[j]? = some y) (hid : x.id = y.id) :
    i = j := by
  obtain ⟨hi', rfl⟩ := List.getElem?_eq_some_iff.mp hi
  obtain ⟨hj', rfl⟩ := List.getElem?_eq_some_iff.mp hj
  rw [List.pairwise_iff_getElem] at h
  rcases Nat.lt_trichotomy i j with hlt | heq | hgt
  · exact absurd hid (h i j hi' hj' hlt)
  · exact heq
  · exact absurd hid.symm (h j i hj' hi' hgt)

/-- A task goes on, and does not come back once it has ended. -/
theorem Inv.setStage {tasks : List RequestTask} {signs : List (Bool × RequestId)}
    (h : Inv tasks signs) {i : Nat} {task : RequestTask} (hi : tasks[i]? = some task)
    {stage : Stage}
    (hstage : task.stage.ended = true → stage.ended = true) :
    Inv (tasks.modify i ({ · with stage })) signs := by
  have hids : (tasks.modify i ({ · with stage })).map RequestTask.id =
      tasks.map RequestTask.id := by
    refine List.ext_getElem? fun k => ?_
    rw [List.getElem?_map, List.getElem?_map, List.getElem?_modify]
    cases tasks[k]? with
    | none => rfl
    | some x => by_cases hk : i = k <;> simp [hk]
  have hmem : ∀ {x}, x ∈ tasks.modify i ({ · with stage }) → ∃ y ∈ tasks, y.id = x.id ∧
      (y.stage.ended = true → x.stage.ended = true) := by
    intro x hx
    obtain ⟨k, hk⟩ := List.mem_iff_getElem?.mp hx
    obtain ⟨y, hy, rfl⟩ := Slots.of_modify hk
    refine ⟨y, List.mem_of_getElem? hy, ?_⟩
    split
    · rename_i hki
      subst hki
      cases hi.symm.trans hy
      exact ⟨rfl, hstage⟩
    · exact ⟨rfl, id⟩
  constructor
  case distinct =>
    have hpair := List.pairwise_map.mpr h.distinct
    rw [← hids] at hpair
    exact List.pairwise_map.mp hpair
  case apart =>
    intro x hx
    obtain ⟨y, hy, hid, -⟩ := hmem hx
    exact hid ▸ h.apart y hy
  case known =>
    intro a ha
    refine (h.known a ha).imp_right ?_
    rintro ⟨y, hy, hya⟩
    have hya' : a.2 ∈ (tasks.modify i ({ · with stage })).map RequestTask.id := by
      rw [hids, ← hya]
      exact List.mem_map_of_mem hy
    obtain ⟨x, hx, hxa⟩ := List.mem_map.mp hya'
    exact ⟨x, hx, hxa⟩
  case closed => exact h.closed
  case ended =>
    intro a ha hresponse x hx hxa
    obtain ⟨y, hy, hid, hended⟩ := hmem hx
    exact hended (h.ended a ha hresponse y hy (hid.trans hxa))

/-- A frame of a task that has not come to its end before it, and has if that is a response. -/
theorem Inv.emit {tasks : List RequestTask} {signs : List (Bool × RequestId)} (h : Inv tasks signs)
    {task : RequestTask} (htask : task ∈ tasks) {a : Bool × RequestId} (ha : a.2 = task.id)
    (hfree : ∀ b ∈ signs, b.1 = true → b.2 ≠ task.id)
    (hended : a.1 = true → task.stage.ended = true) :
    Inv tasks (signs ++ [a]) where
  distinct := h.distinct
  apart := h.apart
  known := by
    intro b hb
    rcases List.mem_append.mp hb with hb | hb
    · exact h.known b hb
    · rw [List.mem_singleton.mp hb]
      exact .inr ⟨task, htask, ha.symm⟩
  closed := by
    refine List.pairwise_append.mpr ⟨h.closed, List.pairwise_singleton _ _, ?_⟩
    intro b hb x hx hresponse _
    rw [List.mem_singleton.mp hx, ha]
    exact (hfree b hb hresponse).symm
  ended := by
    intro b hb hresponse x hx hxb
    rcases List.mem_append.mp hb with hb | hb
    · exact h.ended b hb hresponse x hx hxb
    · rw [List.mem_singleton.mp hb] at hresponse hxb
      obtain ⟨i, hi⟩ := List.mem_iff_getElem?.mp hx
      obtain ⟨j, hj⟩ := List.mem_iff_getElem?.mp htask
      cases eq_of_id h.distinct hi hj (hxb.trans ha)
      cases hi.symm.trans hj
      exact hended hresponse

/-- What a stretch sends has the id of its request, comes before the end and is a response only at
the end. -/
theorem advance_spec {task : RequestTask} {stretch : Stretch F} {stage : Stage}
    {out : Option (ServerFrame F)} (h : task.advance stretch = some (stage, out)) :
    (task.stage.ended = true → stage.ended = true) ∧ ∀ frame ∈ out,
      serverFrameRequestId frame = task.id ∧ task.stage.ended = false ∧
        (frame.isResponse = true → stage.ended = true) := by
  have hresponse : ∀ result : Except (Int64 × String) (Document F),
      serverFrameRequestId (task.responseFrame result) = task.id := by
    intro result
    cases result <;> rfl
  unfold RequestTask.advance at h
  split at h <;> cases h <;> rename_i hstage <;> rw [hstage] <;> refine ⟨by decide, ?_⟩ <;>
    rintro frame ⟨⟩
  all_goals first
    | exact ⟨hresponse _, rfl, fun _ => rfl⟩
    | exact ⟨rfl, rfl, nofun⟩

theorem signs_send (c : Connection F) (frame : ServerFrame F) :
    (c.send frame).tasks = c.tasks ∧
      (signs (c.send frame) = signs c ∨ signs (c.send frame) = signs c ++ [sign frame]) := by
  unfold send
  split
  · refine ⟨rfl, .inr ?_⟩
    simp [signs]
  · exact ⟨rfl, .inl rfl⟩

theorem Inv.send (h : Inv c.tasks (signs c)) {frame : ServerFrame F}
    (hframe : Inv c.tasks (signs c ++ [sign frame])) :
    Inv (c.send frame).tasks (signs (c.send frame)) := by
  obtain ⟨htasks, hsigns | hsigns⟩ := signs_send c frame
  · rw [htasks, hsigns]
    exact h
  · rw [htasks, hsigns]
    exact hframe

/-- A frame of a task before its end. -/
theorem Inv.free {tasks : List RequestTask} {signs : List (Bool × RequestId)} (h : Inv tasks signs)
    {task : RequestTask} (htask : task ∈ tasks) (hended : task.stage.ended = false) :
    ∀ b ∈ signs, b.1 = true → b.2 ≠ task.id := by
  intro b hb hresponse hid
  have hend := h.ended b hb hresponse task htask hid.symm
  rw [hended] at hend
  cases hend

theorem inv_malformed (h : Inv c.tasks (signs c)) (code : Int64) (message : String) :
    Inv (c.next codec (.malformed code message)).tasks
      (signs (c.next codec (.malformed code message))) := by
  refine h.send ⟨h.distinct, h.apart, ?_, ?_, ?_⟩
  · intro a ha
    rcases List.mem_append.mp ha with ha | ha
    · exact h.known a ha
    · rw [List.mem_singleton.mp ha]
      exact .inl rfl
  · refine List.pairwise_append.mpr ⟨h.closed, List.pairwise_singleton _ _, ?_⟩
    intro a _ b hb _ hid
    rw [List.mem_singleton.mp hb]
    exact hid.symm
  · intro a ha hresponse task htask hid
    rcases List.mem_append.mp ha with ha | ha
    · exact h.ended a ha hresponse task htask hid
    · rw [List.mem_singleton.mp ha] at hid
      exact absurd hid (h.apart task htask)

theorem inv_advance (h : Inv c.tasks (signs c)) (i : Nat) (stretch : Stretch F) :
    Inv (c.next codec (.advance i stretch)).tasks (signs (c.next codec (.advance i stretch))) := by
  simp only [Connection.next]
  cases hi : c.tasks[i]? with
  | none => exact h
  | some task =>
    dsimp only
    cases hadvance : task.advance stretch with
    | none => exact h
    | some outcome =>
      obtain ⟨stage, out⟩ := outcome
      obtain ⟨hstage, hout⟩ := advance_spec hadvance
      have hmoved : Inv (c.setStage i stage).tasks (signs (c.setStage i stage)) :=
        h.setStage hi hstage
      cases out with
      | none => exact hmoved
      | some frame =>
        obtain ⟨hid, hbefore, hafter⟩ := hout frame rfl
        have hself : (c.setStage i stage).tasks[i]? = some { task with stage } :=
          Slots.modify_self hi _
        have hfree := h.free (List.mem_of_getElem? hi) hbefore
        exact hmoved.send (hmoved.emit (List.mem_of_getElem? hself) hid hfree hafter)

theorem write_fallback {frame : ServerFrame F} {frames : List (ServerFrame F)}
    {error : ProtocolError} (hframes : c.frames = frame :: frames)
    (herror : encodeFrame codec frame.document = .error error)
    (hok : (encodeFrame codec (fallback frame error).document).isOk = true) :
    c.write codec = { c with frames, written := c.written ++ [fallback frame error] } := by
  unfold write
  rw [hframes]
  simp only [herror]
  cases hencoded : encodeFrame codec (fallback frame error).document with
  | ok bytes => rfl
  | error error =>
    rw [hencoded] at hok
    cases hok

/-- The writer turns no event into a response. -/
theorem inv_write (h : Inv c.tasks (signs c)) (hin : Orderly codec c .write) :
    Inv (c.write codec).tasks (signs (c.write codec)) := by
  have hclose : Inv c.close.tasks (signs c.close) := by
    refine h.sublist ?_
    simp [signs, close]
  unfold write
  split
  · exact h
  · rename_i frame frames hframes
    have hsame : ∀ sent : ServerFrame F, sign sent = sign frame →
        ((c.written ++ [sent]) ++ frames).map sign = signs c := by
      intro sent hsent
      simp [signs, hframes, hsent]
    split
    · rw [signs]
      dsimp only
      rw [hsame frame rfl]
      exact h
    · rename_i error herror
      split
      · -- Only a response is replaced, by another response with its id.
        rename_i hok
        have hresponse : frame.isResponse = true := by
          have hfaithful : Faithful codec frame := hin frame (by rw [hframes]; rfl)
          simp only [Faithful, herror, hok] at hfaithful
          exact hfaithful.resolve_right nofun
        rw [signs]
        dsimp only
        rw [hsame (fallback frame error) (Prod.ext hresponse.symm rfl)]
        exact h
      · exact hclose

theorem inv_next (h : Inv c.tasks (signs c)) {event : ConnectionEvent F}
    (hin : Orderly codec c event) :
    Inv (c.next codec event).tasks (signs (c.next codec event)) := by
  cases event with
  | request id idFits handler => exact h.accept hin.1 hin.2
  | refused id idFits =>
    have haccepted : Inv (c.accept ⟨id, idFits, .respond, .returned⟩).tasks
        (signs (c.accept ⟨id, idFits, .respond, .returned⟩)) := h.accept hin.1 hin.2
    refine haccepted.send (haccepted.emit (List.mem_append_right _ List.mem_cons_self) rfl ?_
      fun _ => rfl)
    intro b hb _ hid
    rcases h.known b hb with hprotocol | ⟨other, hother, hob⟩
    · exact hin.1 (hid.symm.trans hprotocol)
    · exact hin.2 other hother (hob.trans hid)
  | malformed code message => exact inv_malformed h code message
  | advance i stretch => exact inv_advance h i stretch
  | external i kind data runId =>
    simp only [Connection.next]
    cases hi : c.tasks[i]? with
    | none => exact h
    | some task =>
      dsimp only
      split
      · rename_i hregistered
        have htask := List.mem_of_getElem? hi
        unfold send
        split
        · rename_i hwriting
          have hsigns :
              signs { c with frames := c.frames ++ [task.eventFrame kind data runId none] } =
                signs c ++ [(false, task.id)] := by
            simp [signs, sign, RequestTask.eventFrame, ServerFrame.isResponse,
              serverFrameRequestId]
          rw [hsigns]
          exact h.emit htask rfl (h.free htask (hin task hi hwriting hregistered)) nofun
        · exact h
      · exact h
  | write => exact inv_write h hin
  | writeFails =>
    refine h.sublist ?_
    simp [Connection.next, signs, close]

theorem inv_start : Inv (start : Connection F).tasks (signs (start : Connection F)) where
  distinct := .nil
  apart := fun _ h => absurd h List.not_mem_nil
  known := fun _ h => absurd h List.not_mem_nil
  closed := .nil
  ended := fun _ h => absurd h List.not_mem_nil

end Steps

/-! ## Every run -/

/-- In every run of orderly steps each request gets one response at most, when its handler has come
to its end, and nothing behind it. -/
theorem one_response (codec : SerdeJson F) (events : List (ConnectionEvent F))
    (h : Along (next codec) (Orderly codec) start events) :
    ∀ task ∈ (after (next codec) start events).tasks,
      OneResponse (after (next codec) start events) task := by
  intro task htask
  have hinv := after_induct (I := fun c : Connection F => Inv c.tasks (signs c))
    (fun c event hc hin => inv_next hc hin) inv_start h
  have hwritten : ∀ frame ∈ (after (next codec) start events).written,
      sign frame ∈ signs (after (next codec) start events) := by
    intro frame hframe
    exact List.mem_map_of_mem (List.mem_append_left _ hframe)
  constructor
  · have hclosed := List.pairwise_map.mp hinv.closed
    refine (List.pairwise_append.mp hclosed).1.imp ?_
    intro frame later hpair hresponse hid
    rw [← hid]
    exact hpair hresponse fun hprotocol => hinv.apart task htask (hid.symm.trans hprotocol)
  · intro frame hframe hresponse hid
    exact hinv.ended _ (hwritten frame hframe) hresponse task htask hid.symm

/-- The texts that `serde_json` writes. Nothing is read here. -/
def textCodec : SerdeJson Empty := ⟨Document.toVec nofun, fun _ => .error "", fun _ => "", id⟩

def chat : ConnectionEvent Empty := .request (.number 1) idFits_one .chatSend

/-- One turn with one delta. -/
def oneTurn : List (ConnectionEvent Empty) :=
  [chat, .advance 0 .register,
    .advance 0 (.event .textDelta (.obj [("delta", .str "hi")]) none none), .write,
    .advance 0 .commit, .advance 0 (.terminal (.ok .null)), .advance 0 .remove, .write]

theorem tasks_oneTurn : (after (next textCodec) start oneTurn).tasks =
    [⟨.number 1, by decide, .chatSend, .returned⟩] := by
  decide +kernel

theorem one_response_oneTurn : OneResponse (after (next textCodec) start oneTurn)
    ⟨.number 1, by decide, .chatSend, .returned⟩ :=
  one_response textCodec oneTurn (by decide +kernel) _ (tasks_oneTurn ▸ List.mem_cons_self)

/-- A delta as long as a frame may be. -/
def longText : String := .ofList (List.replicate maxFrameBytes 'x')

def longTurn : List (ConnectionEvent Empty) :=
  [chat, .advance 0 .register, .advance 0 (.event .textDelta (.str longText) none none), .write]

theorem text_event (s : String) :
    (ServerFrame.event ⟨jsonrpcVersion, .number 1, .textDelta, .str s, none, none, by decide⟩ :
      ServerFrame Empty).document.text nofun =
        ("\x7b\"frame\":\"event\",\"jsonrpc\":\"2.0\",\"request_id\":1," ++
          "\"event\":\"text_delta\",\"data\":").toList ++ quoted s ++ ['\x7d'] := by
  have hdocument : (ServerFrame.event ⟨jsonrpcVersion, .number 1, .textDelta, .str s, none, none,
      by decide⟩ : ServerFrame Empty).document = .obj [("frame", .str "event"),
        ("jsonrpc", .str "2.0"), ("request_id", .int 1), ("event", .str "text_delta"),
        ("data", .str s)] := rfl
  rw [hdocument]
  simp only [Document.text, Document.fieldTexts, List.intercalate_cons_cons,
    List.intercalate_singleton]
  generalize quoted s = body
  rfl

theorem length_quoted_longText : (utf8 (quoted longText)).length = maxFrameBytes + 2 := by
  have hescape : ∀ n, (List.replicate n 'x').flatMap escape = List.replicate n 'x' := by
    intro n
    induction n with
    | zero => rfl
    | succ n ih =>
      rw [List.replicate_succ, List.flatMap_cons, ih]
      rfl
  have hquote : (utf8 ['\x22']).length = 1 := by decide
  rw [quoted, longText, String.toList_ofList, hescape, length_utf8_append, ← List.singleton_append,
    length_utf8_append, hquote, length_utf8_replicate]
  omega

/-- The event of the long turn, and what the writer makes of it. -/
def longEvent : ServerFrame Empty :=
  .event ⟨jsonrpcVersion, .number 1, .textDelta, .str longText, none, none, idFits_one⟩

theorem encodeFrame_longEvent : encodeFrame textCodec longEvent.document =
    .error (.frameTooLarge 4194383 maxFrameBytes) := by
  have hlength : (textCodec.toVec longEvent.document).length = 4194383 := by
    have hfront : (utf8 ("\x7b\"frame\":\"event\",\"jsonrpc\":\"2.0\",\"request_id\":1," ++
        "\"event\":\"text_delta\",\"data\":").toList).length = 76 := by decide +kernel
    have hback : (utf8 ['\x7d']).length = 1 := by decide
    have htext : textCodec.toVec longEvent.document = utf8 (longEvent.document.text nofun) := rfl
    rw [htext, longEvent, text_event, length_utf8_append, length_utf8_append, hfront, hback,
      length_quoted_longText, maxFrameBytes]
  have hlarge : (textCodec.toVec longEvent.document).length > maxFrameBytes := by
    rw [hlength]
    decide
  unfold encodeFrame
  dsimp only
  rw [if_pos hlarge, hlength]

/-- The client is told that its request has failed while the run goes on. -/
theorem not_one_response_longTurn :
    (after (next textCodec) start longTurn).tasks.map (·.stage) = [.active] ∧
      ¬ ∀ task ∈ (after (next textCodec) start longTurn).tasks,
        OneResponse (after (next textCodec) start longTurn) task := by
  have hstate : after (next textCodec) start longTurn =
      ⟨[⟨.number 1, by decide, .chatSend, .active⟩], [], true,
        [fallback longEvent (.frameTooLarge 4194383 maxFrameBytes)]⟩ := by
    have hfallback : (encodeFrame textCodec (fallback longEvent
        (.frameTooLarge 4194383 maxFrameBytes)).document).isOk = true := by decide +kernel
    have hqueued : after (next textCodec) start (longTurn.take 3) =
        ⟨[⟨.number 1, by decide, .chatSend, .active⟩], [longEvent], true, []⟩ := rfl
    have hwrite : longTurn.drop 3 = [.write] := rfl
    rw [← List.take_append_drop 3 longTurn, after_append, hqueued, hwrite, after_cons, after_nil]
    have hround := @write_fallback Empty textCodec
      ⟨[⟨.number 1, by decide, .chatSend, .active⟩], [longEvent], true, []⟩ longEvent []
      (.frameTooLarge 4194383 maxFrameBytes) rfl encodeFrame_longEvent hfallback
    have hnext : ∀ c : Connection Empty, next textCodec c .write = c.write textCodec := fun _ => rfl
    rw [hnext, hround]
    rfl
  rw [hstate]
  refine ⟨rfl, fun h => ?_⟩
  have hended := (h _ List.mem_cons_self).ended _ List.mem_cons_self rfl rfl
  cases hended

end Connection

end AgentDaemon.Daemon.Protocol
