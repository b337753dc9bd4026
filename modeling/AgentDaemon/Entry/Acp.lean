import AgentDaemon.Ids
import AgentDaemon.Lib.Keyed
import AgentDaemon.Lib.Text
import AgentDaemon.Lib.Transition
import Mathlib.Algebra.Ring.Int.Defs

/-!
The entry for editors: prompts, loads and cancels of the sessions that one agent process serves. A
prompt is a task of its own, and `active_requests` has the request of one prompt for each session; the
streams that a load subscribes to are not in it. A cancel reaches every prompt of its session where it
comes neither before the prompt is in the table nor while a recovered stream runs, and no prompt starts
beside another one (`cancels_all`).
-/

namespace AgentDaemon.Entry.Acp

open Transition Keyed

/-! ## Prompts -/

inductive ContentBlock where
  | text (text : String)
  | resourceLink (name uri : String)
  | other
  deriving DecidableEq, Repr

inductive AcpError where
  | new (code : Int) (message : String)
  | invalidParams (data : String)
  | internalError (data : String)
  deriving DecidableEq, Repr

def blockText : ContentBlock → Except AcpError String
  | .text text => .ok text
  | .resourceLink name uri => .ok ("[资源：" ++ name ++ "](" ++ uri ++ ")")
  | .other => .error (.invalidParams "当前 ACP 入口仅支持 text 与 resource_link 内容块")

def promptToText (blocks : List ContentBlock) : Except AcpError String :=
  match blocks.mapM blockText with
  | .error error => .error error
  | .ok parts =>
    let message := "\n".intercalate parts
    if blank message then .error (.invalidParams "prompt 不能为空") else .ok message

/-- `message.trim_start().starts_with('/')`. -/
def isSlash (message : String) : Bool :=
  (message.toList.dropWhile isWhiteSpace).head? = some '/'

inductive StopReason where
  | endTurn
  | cancelled
  deriving DecidableEq, Repr

/-- How `forward_prompt_stream` ends. -/
inductive StreamOver where
  /-- A response, and its error. -/
  | response (error : Option (Int × String))
  | disconnected
  /-- The editor did not take an update, or a permission failed. -/
  | failed (error : AcpError)

def forwardPromptStream : StreamOver → Except AcpError StopReason
  | .response none => .ok .endTurn
  | .response (some (code, message)) =>
    if code = -32800 then .ok .cancelled
    else .error (.new (if -2 ^ 31 ≤ code ∧ code < 2 ^ 31 then code else -32603) message)
  | .disconnected => .error (.internalError "daemon 在终态响应前断开")
  | .failed error => .error error

/-! ## State -/

inductive TaskPhase where
  /-- The daemon has taken the prompt, and it is about to be put into the table. -/
  | started
  | running
  /-- A stream that a load has subscribed to. -/
  | recovered
  /-- The stream is over, and the session is about to be taken out of the table. -/
  | ended (result : Except AcpError StopReason)
  | gone

/-- A task that forwards the stream of a request. -/
structure PromptTask where
  session : String
  requestId : RequestId
  phase : TaskPhase

/-- The stream of the request has not ended. -/
def PromptTask.Unfinished (t : PromptTask) : Prop :=
  match t.phase with
  | .started | .running | .recovered => True
  | .ended _ | .gone => False

/-- A prompt whose session may be in the table. -/
def PromptTask.Listed (t : PromptTask) : Prop :=
  match t.phase with
  | .running | .ended _ => True
  | .started | .recovered | .gone => False

/-- A prompt that is not done with the table. -/
def PromptTask.Holds (t : PromptTask) : Prop :=
  match t.phase with
  | .started | .running | .ended _ => True
  | .recovered | .gone => False

instance : (t : PromptTask) → Decidable t.Unfinished
  | ⟨_, _, .started⟩ | ⟨_, _, .running⟩ | ⟨_, _, .recovered⟩ => isTrue trivial
  | ⟨_, _, .ended _⟩ | ⟨_, _, .gone⟩ => isFalse id

instance : (t : PromptTask) → Decidable t.Listed
  | ⟨_, _, .running⟩ | ⟨_, _, .ended _⟩ => isTrue trivial
  | ⟨_, _, .started⟩ | ⟨_, _, .recovered⟩ | ⟨_, _, .gone⟩ => isFalse id

instance : (t : PromptTask) → Decidable t.Holds
  | ⟨_, _, .started⟩ | ⟨_, _, .running⟩ | ⟨_, _, .ended _⟩ => isTrue trivial
  | ⟨_, _, .recovered⟩ | ⟨_, _, .gone⟩ => isFalse id

/-- A load that has its snapshot, and the active requests it has not subscribed to yet. -/
structure LoadTask where
  session : String
  remaining : List RequestId

/-- `cancels` are the requests and sessions of the `agent.cancel` that were sent. -/
structure AcpAgent where
  activeRequests : String → Option RequestId := fun _ => none
  tasks : List PromptTask := []
  loads : List LoadTask := []
  cancels : List (RequestId × String) := []
  responses : List (Except AcpError StopReason) := []

inductive Event where
  /-- A prompt, and what the daemon makes of `chat.send`: the id of the stream, or an error. -/
  | prompt (session : String) (blocks : List ContentBlock) (stream : Except String RequestId)
  /-- Task `i` puts its request into the table. -/
  | insert (i : Nat)
  | streamOver (i : Nat) (ending : StreamOver)
  /-- Task `i` takes its session out of the table, and responds. -/
  | remove (i : Nat)
  /-- A load has resumed the session and replayed its history. -/
  | load (session : String) (activeRequests : List RequestId)
  /-- Load `j` subscribes to its next active request, or that fails. -/
  | subscribe (j : Nat) (subscribed : Bool)
  | cancel (session : String)

/-! ## Operations -/

namespace AcpAgent

variable (s : AcpAgent)

def respond (result : Except AcpError StopReason) : AcpAgent :=
  { s with responses := s.responses ++ [result] }

/-- A slash command is answered without the table. -/
def prompt (session : String) (blocks : List ContentBlock) (stream : Except String RequestId) :
    AcpAgent :=
  match promptToText blocks with
  | .error error => s.respond (.error error)
  | .ok message =>
    if isSlash message then s
    else match stream with
      | .error error => s.respond (.error (.internalError error))
      | .ok requestId => { s with tasks := s.tasks ++ [⟨session, requestId, .started⟩] }

def setPhase (i : Nat) (phase : TaskPhase) : AcpAgent :=
  { s with tasks := s.tasks.modify i fun t => { t with phase } }

def insert (i : Nat) : AcpAgent :=
  match s.tasks[i]? with
  | none => s
  | some t =>
    match t.phase with
    | .started =>
      { s.setPhase i .running with
        activeRequests := Function.update s.activeRequests t.session (some t.requestId) }
    | _ => s

def streamOver (i : Nat) (ending : StreamOver) : AcpAgent :=
  match s.tasks[i]? with
  | none => s
  | some t =>
    match t.phase with
    | .running => s.setPhase i (.ended (forwardPromptStream ending))
    | .recovered => s.setPhase i .gone
    | _ => s

def remove (i : Nat) : AcpAgent :=
  match s.tasks[i]? with
  | none => s
  | some t =>
    match t.phase with
    | .ended result =>
      { (s.setPhase i .gone).respond result with
        activeRequests := Function.update s.activeRequests t.session none }
    | _ => s

/-- One pass of the loop of `start_active_subscriptions`. -/
def subscribe (j : Nat) (subscribed : Bool) : AcpAgent :=
  match s.loads[j]? with
  | none => s
  | some load =>
    match load.remaining with
    | [] => s
    | requestId :: rest =>
      if subscribed then
        { s with
          loads := s.loads.set j ⟨load.session, rest⟩
          tasks := s.tasks ++ [⟨load.session, requestId, .recovered⟩] }
      else { s with loads := s.loads.set j ⟨load.session, []⟩ }

def cancel (session : String) : AcpAgent :=
  match s.activeRequests session with
  | none => s
  | some requestId => { s with cancels := s.cancels ++ [(requestId, session)] }

end AcpAgent

def next (s : AcpAgent) : Event → AcpAgent
  | .prompt session blocks stream => s.prompt session blocks stream
  | .insert i => s.insert i
  | .streamOver i ending => s.streamOver i ending
  | .remove i => s.remove i
  | .load session activeRequests => { s with loads := s.loads ++ [⟨session, activeRequests⟩] }
  | .subscribe j subscribed => s.subscribe j subscribed
  | .cancel session => s.cancel session

/-! ## What is promised -/

def cancelled : Event → Option String
  | .cancel session => some session
  | _ => none

/-- A cancel sends `agent.cancel` for every stream of its session that has not ended. -/
def CancelsAll (s : AcpAgent) (e : Event) : Prop :=
  ∀ session ∈ cancelled e, ∃ sent, (next s e).cancels = s.cancels ++ sent ∧
    ∀ t ∈ s.tasks, t.session = session → t.Unfinished → (t.requestId, session) ∈ sent

/-- The session in which a step starts a prompt. -/
def startsPrompt : Event → Option String
  | .prompt session blocks (.ok _) =>
    match promptToText blocks with
    | .error _ => none
    | .ok message => if isSlash message then none else some session
  | _ => none

/-- The step starts no prompt beside another one of its session, and cancels no session in which a prompt
is not in the table yet or a recovered stream runs. -/
structure Apart (s : AcpAgent) (e : Event) : Prop where
  prompt : ∀ session ∈ startsPrompt e, ∀ t ∈ s.tasks, t.Holds → t.session ≠ session
  cancel : ∀ session ∈ cancelled e, ∀ t ∈ s.tasks, t.session = session → t.Unfinished → t.Listed

instance (s : AcpAgent) (e : Event) : Decidable (Apart s e) :=
  decidable_of_iff
    ((∀ session ∈ startsPrompt e, ∀ t ∈ s.tasks, t.Holds → t.session ≠ session) ∧
      ∀ session ∈ cancelled e, ∀ t ∈ s.tasks, t.session = session → t.Unfinished → t.Listed)
    ⟨fun h => ⟨h.1, h.2⟩, fun h => ⟨h.prompt, h.cancel⟩⟩

/-! ## The table -/

def prompts : Parties PromptTask String RequestId where
  key := PromptTask.session
  value := PromptTask.requestId
  holds := PromptTask.Holds
  listed := PromptTask.Listed
  holds_of_listed t h := by
    unfold PromptTask.Listed at h
    unfold PromptTask.Holds
    split at h <;> simp_all

def Mapped (s : AcpAgent) : Prop := Inv prompts s.activeRequests s.tasks

section Steps

variable {s : AcpAgent}

theorem Mapped.prompt (h : Mapped s) {session : String} {blocks : List ContentBlock}
    {stream : Except String RequestId}
    (hfresh : ∀ session' ∈ startsPrompt (.prompt session blocks stream), ∀ t ∈ s.tasks, t.Holds →
      t.session ≠ session') : Mapped (s.prompt session blocks stream) := by
  unfold AcpAgent.prompt
  cases hmessage : promptToText blocks with
  | error error => exact h
  | ok message =>
    dsimp only
    split
    · exact h
    · rename_i hslash
      cases stream with
      | error error => exact h
      | ok requestId =>
        refine h.concat id fun _ => hfresh session ?_
        rw [startsPrompt, hmessage]
        exact if_neg hslash

theorem Mapped.insert (h : Mapped s) (i : Nat) : Mapped (s.insert i) := by
  unfold AcpAgent.insert
  split
  · exact h
  · rename_i t ht
    split
    · rename_i hphase
      refine Keyed.Inv.insert h ht ?_ (fun _ => rfl) (fun _ => rfl)
      show t.Holds
      simp [PromptTask.Holds, hphase]
    · exact h

theorem Mapped.streamOver (h : Mapped s) (i : Nat) (ending : StreamOver) :
    Mapped (s.streamOver i ending) := by
  unfold AcpAgent.streamOver
  split
  · exact h
  · rename_i t ht
    split
    · rename_i hphase
      refine h.modify (fun _ => rfl) (fun _ => rfl) ?_ ?_
      · intro u hu _
        cases ht.symm.trans hu
        show t.Holds
        simp [PromptTask.Holds, hphase]
      · intro u hu _
        cases ht.symm.trans hu
        show t.Listed
        simp [PromptTask.Listed, hphase]
    · exact h.modify (fun _ => rfl) (fun _ => rfl) (fun _ _ hf => False.elim hf) fun _ _ hf =>
        False.elim hf
    · exact h

theorem Mapped.remove (h : Mapped s) (i : Nat) : Mapped (s.remove i) := by
  unfold AcpAgent.remove
  split
  · exact h
  · rename_i t ht
    split
    · rename_i hphase
      refine Keyed.Inv.erase h ht ?_ (fun _ => rfl) id
      show t.Holds
      simp [PromptTask.Holds, hphase]
    · exact h

theorem Mapped.subscribe (h : Mapped s) (j : Nat) (subscribed : Bool) :
    Mapped (s.subscribe j subscribed) := by
  unfold AcpAgent.subscribe
  split
  · exact h
  · split
    · exact h
    · split
      · exact h.concat id fun hf => False.elim hf
      · exact h

theorem Mapped.next (h : Mapped s) {e : Event} (hapart : Apart s e) : Mapped (next s e) := by
  cases e with
  | prompt session blocks stream => exact h.prompt hapart.prompt
  | insert i => exact h.insert i
  | streamOver i ending => exact h.streamOver i ending
  | remove i => exact h.remove i
  | load session activeRequests => exact h
  | subscribe j subscribed => exact h.subscribe j subscribed
  | cancel session =>
    unfold Acp.next AcpAgent.cancel
    dsimp only
    split <;> exact h

/-! ## Cancels -/

theorem Mapped.cancelsAll (h : Mapped s) {e : Event} (hapart : Apart s e) : CancelsAll s e := by
  intro session hsession
  have hmapped : ∀ t ∈ s.tasks, t.session = session → t.Unfinished →
      s.activeRequests session = some t.requestId := by
    rintro t ht rfl hunfinished
    exact h.mapped t ht (hapart.cancel t.session hsession t ht rfl hunfinished)
  have he : e = .cancel session := by
    cases e <;> cases hsession
    rfl
  subst he
  unfold Acp.next AcpAgent.cancel
  dsimp only
  cases hfound : s.activeRequests session with
  | none =>
    refine ⟨[], (List.append_nil _).symm, fun t ht hsession hunfinished => ?_⟩
    cases hfound.symm.trans (hmapped t ht hsession hunfinished)
  | some requestId =>
    refine ⟨[(requestId, session)], rfl, fun t ht hsession hunfinished => ?_⟩
    cases hfound.symm.trans (hmapped t ht hsession hunfinished)
    exact List.mem_singleton_self _

end Steps

/-- **Cancels reach every prompt**, in a run whose steps keep the prompts of a session apart and its
cancels out of the gaps. -/
theorem cancels_all (l : List Event) (h : Along next Apart {} l) : Along next CancelsAll {} l :=
  along_induct (I := Mapped) (fun _ _ hmapped hapart => hmapped.next hapart)
    (fun _ _ hmapped hapart => hmapped.cancelsAll hapart) (inv_nil prompts _) h

/-! ## A load -/

def hello : Event := .prompt "s" [.text "hello"] (.ok (.number 1))

/-- Two prompts one after the other, and a load whose stream ends before the second cancel. -/
def serialRun : List Event :=
  [hello, .insert 0, .cancel "s", .load "s" [.number 1], .subscribe 0 true,
    .streamOver 0 (.response (some (-32800, "cancelled"))), .streamOver 1 (.response none), .remove 0,
    .prompt "s" [.text "again"] (.ok (.number 2)), .insert 2, .cancel "s"]

theorem cancels_all_serial : Along next CancelsAll {} serialRun :=
  cancels_all serialRun (by decide +kernel)

/-- A cancel after a load that has recovered an active request. -/
theorem not_cancels_all_recovered : ¬ ∀ l : List Event, Along next CancelsAll {} l := by
  intro h
  have hrun := h [.load "s" [.number 7], .subscribe 0 true, .cancel "s"]
  obtain ⟨sent, hsent, hall⟩ := hrun.2.2.1 "s" rfl
  have hnone : sent = [] := hsent.symm
  have hmem := hall ⟨"s", .number 7, .recovered⟩ (List.mem_singleton_self _) rfl trivial
  rw [hnone] at hmem
  cases hmem

end AgentDaemon.Entry.Acp
