import AgentDaemon.Lib.Document
import AgentDaemon.Lib.Slots
import AgentDaemon.Lib.Transition
import Mathlib.Data.List.Nodup
import Mathlib.Algebra.Ring.Int.Defs
import Mathlib.Algebra.Ring.Nat

/-!
The client's side of a connection to an MCP server: requests that are answered under their number,
and the task that reads what the server writes. A request is resolved by its own response and
leaves the pending table when it ends, as long as the server's own messages bear no number that
waits and no request ends with its number in the table (`correlated_iff`).
-/

namespace AgentDaemon

/-! ## Messages -/

namespace Document

variable {F : Type}

def asU64? : Document F → Option UInt64
  | .int n => if 0 ≤ n ∧ n < 2 ^ 64 then some (UInt64.ofNat n.toNat) else none
  | _ => none

end Document

namespace Mcp

open Document Transition

variable {F : Type}

def messageId? (message : Document F) : Option UInt64 := (message.get? "id").bind asU64?

/-- A response to the request of this number. -/
def IsResponse (message : Document F) (id : UInt64) : Prop :=
  messageId? message = some id ∧ (message.get? "method").isNone ∧
    ((message.get? "result").isSome ∨ (message.get? "error").isSome)

instance (message : Document F) (id : UInt64) : Decidable (IsResponse message id) :=
  inferInstanceAs (Decidable (_ ∧ _ ∧ _))

/-! ## State -/

/-- Where a call of `request` is. -/
inductive RequestPhase (F : Type) where
  /-- It has its number, which is not in the table yet. -/
  | numbered
  | writing
  /-- The number is about to be taken out of the table. -/
  | writeFailed (error : String)
  | waiting
  | returned (result : Except String (Document F))
  | dropped

def RequestPhase.ended : RequestPhase F → Bool
  | .returned _ | .dropped => true
  | _ => false

def RequestPhase.isNumbered : RequestPhase F → Bool
  | .numbered => true
  | _ => false

def RequestPhase.isWaiting : RequestPhase F → Bool
  | .waiting => true
  | _ => false

structure McpRequest (F : Type) where
  id : UInt64
  method : String
  phase : RequestPhase F

/-- An entry of the pending table: the request whose sender it holds. -/
structure Waiter where
  id : UInt64
  call : Nat

/-- What the sender of a request is taken out of the table for. -/
inductive Resolution (F : Type) where
  | message (message : Document F)
  | closed (message : String)

inductive ReaderState where
  | reading
  /-- The sender of this request is in the hands of `dispatch`. -/
  | dispatching (call : Nat)
  | ended
  deriving DecidableEq

/-- `failing` are the requests whose senders are in the hands of `fail_pending`, and `sent` those
whose sender was used. -/
structure McpClient (F : Type) where
  nextId : UInt64 := 1
  requests : List (McpRequest F) := []
  pending : List Waiter := []
  resolved : List (Nat × Resolution F) := []
  failing : List Nat := []
  sent : List Nat := []
  reader : ReaderState := .reading
  shut : Bool := false

namespace McpClient

/-! ## Operations -/

inductive Event (F : Type) where
  /-- `request`, until it has its number. -/
  | request (method : String)
  | insert (i : Nat)
  | write (i : Nat) (outcome : Except String Unit)
  | unregister (i : Nat)
  | resume (i : Nat)
  | timeout (i : Nat)
  | drop (i : Nat)
  | receive (message : Document F)
  | handOn
  | readEnds
  | readFails (error : String)
  | shutdown
  /-- The reader's task is aborted after a shutdown. -/
  | abort
  | failNext (i : Nat)

section Operations

variable (text : Document F → String) (s : McpClient F)

def setPhase (i : Nat) (phase : RequestPhase F) : McpClient F :=
  { s with requests := s.requests.modify i fun r => { r with phase } }

def remove (id : UInt64) : McpClient F :=
  { s with pending := s.pending.filter fun w => w.id ≠ id }

def request (method : String) : McpClient F :=
  { s with
    nextId := s.nextId + 1
    requests := s.requests ++ [⟨s.nextId, method, .numbered⟩] }

/-- `HashMap::insert`. -/
def insert (i : Nat) : McpClient F :=
  match s.requests[i]? with
  | some ⟨id, _, .numbered⟩ =>
    { s.setPhase i .writing with pending := (s.remove id).pending ++ [⟨id, i⟩] }
  | _ => s

def write (i : Nat) (outcome : Except String Unit) : McpClient F :=
  match s.requests[i]? with
  | some ⟨_, _, .writing⟩ =>
    match outcome with
    | .ok () => s.setPhase i .waiting
    | .error error => s.setPhase i (.writeFailed error)
  | _ => s

def unregister (i : Nat) : McpClient F :=
  match s.requests[i]? with
  | some ⟨id, _, .writeFailed error⟩ => (s.remove id).setPhase i (.returned (.error error))
  | _ => s

/-- What `dispatch` makes of a message; `text` is `Value::to_string`. -/
def dispatchResult (message : Document F) : Except String (Document F) :=
  match message.get? "result" with
  | some result => .ok result
  | none =>
    let error := (message.get? "error").getD (.obj [("message", .str "缺少 result/error")])
    .error (text error)

def Resolution.result : Resolution F → Except String (Document F)
  | .message message => dispatchResult text message
  | .closed message => .error message

/-- The sender of the request is still there. -/
def senderLives (i : Nat) : Bool :=
  s.pending.any (fun w => w.call = i) ∨ s.reader = .dispatching i ∨ i ∈ s.failing

/-- What the receiver of the request has, if it is ready. -/
def received (i : Nat) : Option (Except String (Document F)) :=
  if i ∈ s.sent then (s.resolved.lookup i).map (Resolution.result text)
  else if s.senderLives i then none
  else some (.error "MCP 响应通道提前关闭")

def resume (i : Nat) : McpClient F :=
  match s.requests[i]? with
  | some ⟨_, _, .waiting⟩ =>
    match s.received text i with
    | some result => s.setPhase i (.returned result)
    | none => s
  | _ => s

/-- `timeout` looks at the receiver first. -/
def timeout (i : Nat) : McpClient F :=
  match s.requests[i]? with
  | some ⟨_, method, .waiting⟩ =>
    match s.received text i with
    | some result => s.setPhase i (.returned result)
    | none => s.setPhase i (.returned (.error ("MCP 请求超时：" ++ method)))
  | _ => s

def drop (i : Nat) : McpClient F :=
  match s.requests[i]? with
  | some r => if r.phase.ended then s else s.setPhase i .dropped
  | none => s

/-- `dispatch`, until the sender is out of the table. -/
def dispatch (message : Document F) : McpClient F :=
  match messageId? message with
  | none => s
  | some id =>
    match s.pending.find? fun w => w.id = id with
    | none => s
    | some w =>
      { s.remove id with
        resolved := s.resolved ++ [(w.call, .message message)]
        reader := .dispatching w.call }

def failPending (message : String) : McpClient F :=
  { s with
    pending := []
    resolved := s.resolved ++ s.pending.map fun w => (w.call, .closed message)
    failing := s.failing ++ s.pending.map Waiter.call }

def next (s : McpClient F) : Event F → McpClient F
  | .request method => s.request method
  | .insert i => s.insert i
  | .write i outcome => s.write i outcome
  | .unregister i => s.unregister i
  | .resume i => s.resume text i
  | .timeout i => s.timeout text i
  | .drop i => s.drop i
  | .receive message =>
    match s.reader with
    | .reading => s.dispatch message
    | _ => s
  | .handOn =>
    match s.reader with
    | .dispatching i => { s with sent := i :: s.sent, reader := .reading }
    | _ => s
  | .readEnds =>
    match s.reader with
    | .reading => { s.failPending "MCP server stdout 已关闭" with reader := .ended }
    | _ => s
  | .readFails error =>
    match s.reader with
    | .reading => { s.failPending ("MCP stdio 读取失败：" ++ error) with reader := .ended }
    | _ => s
  | .shutdown => { s.failPending "MCP client 已关闭" with shut := true }
  | .abort => if s.shut ∧ s.reader = .reading then { s with reader := .ended } else s
  | .failNext i =>
    if i ∈ s.failing then { s with failing := s.failing.erase i, sent := i :: s.sent } else s

end Operations

/-! ## Correlation -/

/-- The table has no entry under this number. -/
def Free (s : McpClient F) (id : UInt64) : Prop := ∀ w ∈ s.pending, w.id ≠ id

structure Correlated (s : McpClient F) : Prop where
  /-- A message that resolves a request is its response. -/
  responses : ∀ i message, (i, Resolution.message message) ∈ s.resolved →
    ∃ r, s.requests[i]? = some r ∧ IsResponse message r.id
  once : (s.resolved.map Prod.fst).Nodup
  /-- A request that has ended has left the table. -/
  removed : ∀ (i : Nat) (r : McpRequest F), s.requests[i]? = some r → r.phase.ended = true →
    s.Free r.id

/-- The step lets no message but a response resolve a request, and no request end with its number
in the table. A number comes again after `2 ^ 64` requests. -/
def Orderly (text : Document F → String) (s : McpClient F) : Event F → Prop
  | .insert i => ∀ r ∈ s.requests[i]?, r.phase.isNumbered = true →
    ∀ r' ∈ s.requests, r'.phase.ended = true → r'.id ≠ r.id
  | .resume i => ∀ r ∈ s.requests[i]?, r.phase.isWaiting = true →
    (s.received text i).isSome = true → s.Free r.id
  | .timeout i => ∀ r ∈ s.requests[i]?, r.phase.isWaiting = true → s.Free r.id
  | .drop i => ∀ r ∈ s.requests[i]?, r.phase.ended = false → s.Free r.id
  | .receive message => s.reader = .reading → ∀ w ∈ s.pending,
    messageId? message = some w.id → IsResponse message w.id
  | _ => True

instance (s : McpClient F) (id : UInt64) : Decidable (s.Free id) :=
  inferInstanceAs (Decidable (∀ w ∈ s.pending, w.id ≠ id))

instance (text : Document F → String) (s : McpClient F) :
    (event : Event F) → Decidable (Orderly text s event)
  | .insert i => inferInstanceAs (Decidable (∀ r ∈ s.requests[i]?, r.phase.isNumbered = true →
      ∀ r' ∈ s.requests, r'.phase.ended = true → r'.id ≠ r.id))
  | .resume i => inferInstanceAs (Decidable (∀ r ∈ s.requests[i]?, r.phase.isWaiting = true →
      (s.received text i).isSome = true → s.Free r.id))
  | .timeout i => inferInstanceAs (Decidable (∀ r ∈ s.requests[i]?, r.phase.isWaiting = true →
      s.Free r.id))
  | .drop i => inferInstanceAs (Decidable (∀ r ∈ s.requests[i]?, r.phase.ended = false →
      s.Free r.id))
  | .receive message => inferInstanceAs (Decidable (s.reader = .reading → ∀ w ∈ s.pending,
      messageId? message = some w.id → IsResponse message w.id))
  | .request _ | .write _ _ | .unregister _ | .handOn | .readEnds | .readFails _ | .shutdown
  | .abort | .failNext _ => isTrue trivial

/-! ## What every step keeps -/

/-- A sender is in the table once at most, and not after it was taken out. -/
structure Inv (s : McpClient F) : Prop where
  waiters : ∀ w ∈ s.pending, ∃ r, s.requests[w.call]? = some r ∧ r.id = w.id
  inserted : ∀ i ∈ s.resolved.map Prod.fst ++ s.pending.map Waiter.call,
    ∃ r, s.requests[i]? = some r ∧ r.phase.isNumbered = false
  once : (s.resolved.map Prod.fst ++ s.pending.map Waiter.call).Nodup

section Keeps

variable {text : Document F → String} {s : McpClient F}

theorem getElem?_setPhase {i j : Nat} {phase : RequestPhase F} {r : McpRequest F}
    (h : s.requests[j]? = some r) :
    (s.setPhase i phase).requests[j]? = some (if j = i then { r with phase } else r) :=
  Slots.modify_of_some h _

theorem getElem?_of_setPhase {i j : Nat} {phase : RequestPhase F} {r' : McpRequest F}
    (h : (s.setPhase i phase).requests[j]? = some r') :
    ∃ r, s.requests[j]? = some r ∧ r' = if j = i then { r with phase } else r :=
  Slots.of_modify h

theorem id_setPhase (i j : Nat) (phase : RequestPhase F) (r : McpRequest F) :
    (if j = i then { r with phase } else r).id = r.id := by
  split <;> rfl

theorem Inv.setPhase (h : s.Inv) (i : Nat) {phase : RequestPhase F}
    (hphase : phase.isNumbered = false) : (s.setPhase i phase).Inv where
  waiters w hw := by
    obtain ⟨r, hr, hid⟩ := h.waiters w hw
    exact ⟨_, getElem?_setPhase hr, (id_setPhase i w.call phase r).trans hid⟩
  inserted j hj := by
    obtain ⟨r, hr, hnumbered⟩ := h.inserted j hj
    refine ⟨_, getElem?_setPhase hr, ?_⟩
    split
    · exact hphase
    · exact hnumbered
  once := h.once

/-- The table may lose entries. -/
theorem Inv.shrink (h : s.Inv) {pending : List Waiter} (hsub : List.Sublist pending s.pending) :
    Inv { s with pending } where
  waiters w hw := h.waiters w (hsub.subset hw)
  inserted i hi := by
    refine h.inserted i ?_
    rcases List.mem_append.mp hi with hi | hi
    · exact List.mem_append_left _ hi
    · exact List.mem_append_right _ ((hsub.map Waiter.call).subset hi)
  once := h.once.sublist ((List.Sublist.refl _).append (hsub.map Waiter.call))

theorem Inv.remove (h : s.Inv) (id : UInt64) : (s.remove id).Inv := h.shrink List.filter_sublist

theorem Inv.request (h : s.Inv) (method : String) : (s.request method).Inv where
  waiters w hw := by
    obtain ⟨r, hr, hid⟩ := h.waiters w hw
    exact ⟨r, Slots.append_of_some hr _, hid⟩
  inserted i hi := by
    obtain ⟨r, hr, hnumbered⟩ := h.inserted i hi
    exact ⟨r, Slots.append_of_some hr _, hnumbered⟩
  once := h.once

/-- A sender goes into the table once. -/
theorem Inv.enter (h : s.Inv) {i : Nat} {r : McpRequest F} (hr : s.requests[i]? = some r)
    (hinserted : r.phase.isNumbered = false)
    (hnew : i ∉ s.resolved.map Prod.fst ++ s.pending.map Waiter.call) :
    Inv { s with pending := s.pending ++ [⟨r.id, i⟩] } where
  waiters w hw := by
    rcases List.mem_append.mp hw with hw | hw
    · exact h.waiters w hw
    · cases List.mem_singleton.mp hw
      exact ⟨r, hr, rfl⟩
  inserted j hj := by
    rw [List.map_append, ← List.append_assoc] at hj
    rcases List.mem_append.mp hj with hj | hj
    · exact h.inserted j hj
    · cases List.mem_singleton.mp hj
      exact ⟨r, hr, hinserted⟩
  once := by
    rw [List.map_append, ← List.append_assoc]
    refine List.nodup_append'.mpr ⟨h.once, List.nodup_singleton i, ?_⟩
    exact List.disjoint_singleton.mpr hnew

theorem Inv.insert (h : s.Inv) (i : Nat) : (s.insert i).Inv := by
  unfold McpClient.insert
  split
  · rename_i id method hr
    have hnew : i ∉ s.resolved.map Prod.fst ++ s.pending.map Waiter.call := by
      intro hi
      obtain ⟨r, hr', hnumbered⟩ := h.inserted i hi
      cases hr.symm.trans hr'
      cases hnumbered
    have hphase : ((s.remove id).setPhase i .writing).Inv := (h.remove id).setPhase i rfl
    refine hphase.enter (r := ⟨id, method, .writing⟩) ?_ rfl ?_
    · rw [getElem?_setPhase (s := s.remove id) hr, if_pos rfl]
    · intro hi
      refine hnew ?_
      rcases List.mem_append.mp hi with hi | hi
      · exact List.mem_append_left _ hi
      · exact List.mem_append_right _ ((List.filter_sublist.map Waiter.call).subset hi)
  · exact h

theorem Inv.dispatch (h : s.Inv) (message : Document F) : (s.dispatch message).Inv := by
  unfold McpClient.dispatch
  split
  · exact h
  rename_i id hid
  split
  · exact h
  rename_i w hw
  have hmem := List.mem_of_find?_eq_some hw
  have hwid : w.id = id := by simpa using List.find?_some hw
  have hremoved := h.remove id
  have hcall : w.call ∈ s.resolved.map Prod.fst ++ s.pending.map Waiter.call :=
    List.mem_append_right _ (List.mem_map_of_mem hmem)
  have hgone : w.call ∉ s.resolved.map Prod.fst ++ (s.remove id).pending.map Waiter.call := by
    obtain ⟨-, hpending, hdisjoint⟩ := List.nodup_append'.mp h.once
    intro hin
    rcases List.mem_append.mp hin with hin | hin
    · exact hdisjoint hin (List.mem_map_of_mem hmem)
    · obtain ⟨w', hw', hcall'⟩ := List.mem_map.mp hin
      obtain ⟨hw', hne⟩ := List.mem_filter.mp hw'
      have hsame := List.inj_on_of_nodup_map hpending hw' hmem hcall'
      rw [hsame, hwid] at hne
      simp at hne
  exact {
    waiters := hremoved.waiters
    inserted := by
      intro i hi
      simp only [List.map_append, List.map_cons, List.map_nil, List.mem_append,
        List.mem_singleton] at hi
      rcases hi with (hi | rfl) | hi
      · exact hremoved.inserted i (List.mem_append_left _ hi)
      · exact h.inserted w.call hcall
      · exact hremoved.inserted i (List.mem_append_right _ hi)
    once := by
      rw [List.map_append, List.append_assoc]
      exact (List.perm_middle.nodup_iff).mpr (List.nodup_cons.mpr ⟨hgone, hremoved.once⟩) }

theorem Inv.failPending (h : s.Inv) (message : String) : (s.failPending message).Inv := by
  have hcalls : (s.failPending message).resolved.map Prod.fst ++
      (s.failPending message).pending.map Waiter.call =
        s.resolved.map Prod.fst ++ s.pending.map Waiter.call := by
    simp [McpClient.failPending]
  exact {
    waiters := nofun
    inserted := by
      rw [hcalls]
      exact h.inserted
    once := by
      rw [hcalls]
      exact h.once }

theorem Inv.ofEq {s' : McpClient F} (h : s.Inv) (hr : s'.requests = s.requests)
    (hp : s'.pending = s.pending) (hres : s'.resolved = s.resolved) : s'.Inv := by
  obtain ⟨hw, hi, ho⟩ := h
  exact ⟨by rwa [hr, hp], by rwa [hr, hp, hres], by rwa [hp, hres]⟩

theorem Inv.next (h : s.Inv) (event : Event F) : (s.next text event).Inv := by
  cases event with
  | request method => exact h.request method
  | insert i => exact h.insert i
  | write i outcome =>
    simp only [McpClient.next, McpClient.write]
    split
    · cases outcome with
      | ok _ => exact h.setPhase i rfl
      | error error => exact h.setPhase i rfl
    · exact h
  | unregister i =>
    simp only [McpClient.next, McpClient.unregister]
    split
    · rename_i id _ _ _
      exact (h.remove id).setPhase i rfl
    · exact h
  | resume i =>
    simp only [McpClient.next, McpClient.resume]
    split
    · split
      · exact h.setPhase i rfl
      · exact h
    · exact h
  | timeout i =>
    simp only [McpClient.next, McpClient.timeout]
    split
    · split
      · exact h.setPhase i rfl
      · exact h.setPhase i rfl
    · exact h
  | drop i =>
    simp only [McpClient.next, McpClient.drop]
    split
    · split
      · exact h
      · exact h.setPhase i rfl
    · exact h
  | receive message =>
    simp only [McpClient.next]
    split
    · exact h.dispatch message
    · exact h
  | handOn =>
    simp only [McpClient.next]
    split
    · exact h.ofEq rfl rfl rfl
    · exact h
  | readEnds =>
    simp only [McpClient.next]
    split
    · exact (h.failPending "MCP server stdout 已关闭").ofEq rfl rfl rfl
    · exact h
  | readFails error =>
    simp only [McpClient.next]
    split
    · exact (h.failPending ("MCP stdio 读取失败：" ++ error)).ofEq rfl rfl rfl
    · exact h
  | shutdown => exact (h.failPending "MCP client 已关闭").ofEq rfl rfl rfl
  | abort =>
    simp only [McpClient.next]
    split
    · exact h.ofEq rfl rfl rfl
    · exact h
  | failNext i =>
    simp only [McpClient.next]
    split
    · exact h.ofEq rfl rfl rfl
    · exact h

/-! ## What an orderly step keeps -/

/-- A request may end once its number is out of the table. -/
theorem Correlated.setPhase (h : s.Correlated) {i : Nat} {phase : RequestPhase F}
    (hfree : phase.ended = true → ∀ r, s.requests[i]? = some r → s.Free r.id) :
    (s.setPhase i phase).Correlated where
  responses j message hj := by
    obtain ⟨r, hr, hresponse⟩ := h.responses j message hj
    exact ⟨_, getElem?_setPhase hr, (id_setPhase i j phase r).symm ▸ hresponse⟩
  once := h.once
  removed j r' hr' hended := by
    obtain ⟨r, hr, rfl⟩ := getElem?_of_setPhase hr'
    rw [id_setPhase]
    split at hended
    · rename_i hji
      exact hfree hended r (hji ▸ hr)
    · exact h.removed j r hr hended

/-- A request that ends with its number in the table breaks the correlation. -/
theorem not_correlated_setPhase {i : Nat} {phase : RequestPhase F} {r : McpRequest F}
    (hr : s.requests[i]? = some r) (hended : phase.ended = true) (hbusy : ¬ s.Free r.id) :
    ¬ (s.setPhase i phase).Correlated := by
  intro h
  have hremoved := h.removed i _ (getElem?_setPhase hr)
  rw [if_pos rfl] at hremoved
  exact hbusy (hremoved hended)

theorem Correlated.shrink (h : s.Correlated) {pending : List Waiter}
    (hsub : List.Sublist pending s.pending) : Correlated { s with pending } where
  responses := h.responses
  once := h.once
  removed i r hr hended w hw := h.removed i r hr hended w (hsub.subset hw)

theorem Correlated.remove (h : s.Correlated) (id : UInt64) : (s.remove id).Correlated :=
  h.shrink List.filter_sublist

theorem Correlated.request (h : s.Correlated) (method : String) :
    (s.request method).Correlated where
  responses i message hi := by
    obtain ⟨r, hr, hresponse⟩ := h.responses i message hi
    exact ⟨r, Slots.append_of_some hr _, hresponse⟩
  once := h.once
  removed i r hr hended := by
    rcases Slots.of_concat hr with hr | ⟨-, rfl⟩
    · exact h.removed i r hr hended
    · cases hended

theorem Correlated.insert (h : s.Correlated) {i : Nat} (hin : s.Orderly text (.insert i)) :
    (s.insert i).Correlated := by
  unfold McpClient.insert
  split
  · rename_i id method hr
    have hphase : ((s.remove id).setPhase i .writing).Correlated :=
      (h.remove id).setPhase nofun
    exact {
      responses := hphase.responses
      once := hphase.once
      removed := by
        intro j r' hr' hended w hw
        rcases List.mem_append.mp hw with hw | hw
        · exact hphase.removed j r' hr' hended w hw
        · cases List.mem_singleton.mp hw
          obtain ⟨r, hr₀, rfl⟩ := getElem?_of_setPhase hr'
          rw [id_setPhase]
          split at hended
          · cases hended
          · exact (hin _ hr rfl r (List.mem_of_getElem? hr₀) hended).symm }
  · exact h

/-- The number of a request that has ended goes into the table again. -/
theorem not_correlated_insert {i : Nat} (hin : ¬ s.Orderly text (.insert i)) :
    ¬ (s.insert i).Correlated := by
  intro h
  refine hin ?_
  intro r hr hnumbered r' hr' hended hid
  obtain ⟨j, hj⟩ := List.mem_iff_getElem?.mp hr'
  have hji : j ≠ i := by
    rintro rfl
    cases hr.symm.trans hj
    cases hphase : r.phase <;> rw [hphase] at hnumbered hended <;> trivial
  obtain ⟨id, method, phase⟩ := r
  cases phase <;> try cases hnumbered
  rw [McpClient.insert, hr] at h
  have hkept : (s.setPhase i .writing).requests[j]? = _ := getElem?_setPhase hj
  rw [if_neg hji] at hkept
  have hremoved := h.removed j r' hkept hended
  exact hremoved ⟨id, i⟩ (List.mem_append_right _ (List.mem_singleton.mpr rfl)) hid.symm

theorem Correlated.dispatch (h : s.Correlated) (hinv : s.Inv) {message : Document F}
    (hin : ∀ w ∈ s.pending, messageId? message = some w.id → IsResponse message w.id) :
    (s.dispatch message).Correlated := by
  have hdispatch := hinv.dispatch message
  have honce := (List.nodup_append.mp hdispatch.once).1
  revert honce
  unfold McpClient.dispatch
  split
  · exact fun _ => h
  rename_i id hid
  split
  · exact fun _ => h
  rename_i w hw
  intro honce
  have hmem := List.mem_of_find?_eq_some hw
  have hwid : w.id = id := by simpa using List.find?_some hw
  exact {
    responses := by
      intro i message' hi
      rcases List.mem_append.mp hi with hi | hi
      · exact h.responses i message' hi
      · cases List.mem_singleton.mp hi
        obtain ⟨r, hr, hrid⟩ := hinv.waiters w hmem
        exact ⟨r, hr, hrid ▸ hin w hmem (hwid ▸ hid)⟩
    once := honce
    removed := (h.remove id).removed }

/-- A message that is no response resolves a request. -/
theorem not_correlated_dispatch {message : Document F} {w : Waiter} (hw : w ∈ s.pending)
    (hid : messageId? message = some w.id) (hno : ¬ IsResponse message w.id) :
    ¬ (s.dispatch message).Correlated := by
  intro h
  rcases hfind : s.pending.find? (fun w' => w'.id = w.id) with _ | w'
  · have hnone := List.find?_eq_none.mp hfind w hw
    simp at hnone
  · rw [McpClient.dispatch, hid] at h
    simp only [hfind] at h
    obtain ⟨r, -, hresponse⟩ :=
      h.responses w'.call message (List.mem_append_right _ (List.mem_singleton.mpr rfl))
    have hrid : some w.id = some r.id := hid.symm.trans hresponse.1
    exact hno (Option.some.inj hrid ▸ hresponse)

theorem Correlated.failPending (h : s.Correlated) (hinv : s.Inv) (message : String) :
    (s.failPending message).Correlated where
  responses i message' hi := by
    rcases List.mem_append.mp hi with hi | hi
    · exact h.responses i message' hi
    · obtain ⟨w, -, hw⟩ := List.mem_map.mp hi
      cases hw
  once := (List.nodup_append.mp (hinv.failPending message).once).1
  removed _ _ _ _ := nofun

theorem Correlated.ofEq {s' : McpClient F} (h : s.Correlated) (hr : s'.requests = s.requests)
    (hp : s'.pending = s.pending) (hres : s'.resolved = s.resolved) : s'.Correlated := by
  obtain ⟨hresponses, honce, hremoved⟩ := h
  exact ⟨by rwa [hr, hres], by rwa [hres], by simpa only [Free, hr, hp] using hremoved⟩

theorem Correlated.next (h : s.Correlated) (hinv : s.Inv) {event : Event F}
    (hin : s.Orderly text event) : (s.next text event).Correlated := by
  cases event with
  | request method => exact h.request method
  | insert i => exact h.insert hin
  | write i outcome =>
    simp only [McpClient.next, McpClient.write]
    split
    · cases outcome with
      | ok _ => exact h.setPhase nofun
      | error error => exact h.setPhase nofun
    · exact h
  | unregister i =>
    simp only [McpClient.next, McpClient.unregister]
    split
    · rename_i id _ error hr
      refine (h.remove id).setPhase ?_
      intro _ r hr' w hw
      cases hr.symm.trans hr'
      simpa using (List.mem_filter.mp hw).2
    · exact h
  | resume i =>
    simp only [McpClient.next, McpClient.resume]
    split
    · rename_i hr
      split
      · rename_i result hreceived
        refine h.setPhase ?_
        intro _ r hr'
        cases hr.symm.trans hr'
        exact hin _ hr rfl (by rw [hreceived]; rfl)
      · exact h
    · exact h
  | timeout i =>
    simp only [McpClient.next, McpClient.timeout]
    split
    · rename_i hr
      have hfree : ∀ r, s.requests[i]? = some r → s.Free r.id := by
        intro r hr'
        cases hr.symm.trans hr'
        exact hin _ hr rfl
      split
      · exact h.setPhase fun _ => hfree
      · exact h.setPhase fun _ => hfree
    · exact h
  | drop i =>
    simp only [McpClient.next, McpClient.drop]
    split
    · rename_i r hr
      split
      · exact h
      · rename_i hended
        refine h.setPhase ?_
        intro _ r' hr'
        cases hr.symm.trans hr'
        exact hin r hr (by simpa using hended)
    · exact h
  | receive message =>
    simp only [McpClient.next]
    split
    · rename_i hreader
      exact h.dispatch hinv (hin hreader)
    · exact h
  | handOn =>
    simp only [McpClient.next]
    split
    · exact h.ofEq rfl rfl rfl
    · exact h
  | readEnds =>
    simp only [McpClient.next]
    split
    · exact (h.failPending hinv "MCP server stdout 已关闭").ofEq rfl rfl rfl
    · exact h
  | readFails error =>
    simp only [McpClient.next]
    split
    · exact (h.failPending hinv ("MCP stdio 读取失败：" ++ error)).ofEq rfl rfl rfl
    · exact h
  | shutdown => exact (h.failPending hinv "MCP client 已关闭").ofEq rfl rfl rfl
  | abort =>
    simp only [McpClient.next]
    split
    · exact h.ofEq rfl rfl rfl
    · exact h
  | failNext i =>
    simp only [McpClient.next]
    split
    · exact h.ofEq rfl rfl rfl
    · exact h

/-- A step that is not orderly breaks the correlation at once. -/
theorem not_correlated_next {event : Event F} (hin : ¬ s.Orderly text event) :
    ¬ (s.next text event).Correlated := by
  cases event with
  | insert i => exact not_correlated_insert hin
  | resume i =>
    simp only [Orderly, not_forall] at hin
    obtain ⟨⟨id, method, phase⟩, hr, hwaiting, hreceived, hbusy⟩ := hin
    cases phase <;> try cases hwaiting
    obtain ⟨result, hresult⟩ := Option.isSome_iff_exists.mp hreceived
    have hnext : s.next text (.resume i) = s.setPhase i (.returned result) := by
      simp only [McpClient.next, McpClient.resume]
      rw [hr]
      simp only [hresult]
    rw [hnext]
    exact not_correlated_setPhase hr rfl hbusy
  | timeout i =>
    simp only [Orderly, not_forall] at hin
    obtain ⟨⟨id, method, phase⟩, hr, hwaiting, hbusy⟩ := hin
    cases phase <;> try cases hwaiting
    have hnext : ∃ result, s.next text (.timeout i) = s.setPhase i (.returned result) := by
      simp only [McpClient.next, McpClient.timeout]
      rw [hr]
      dsimp only
      split
      · exact ⟨_, rfl⟩
      · exact ⟨_, rfl⟩
    obtain ⟨result, hnext⟩ := hnext
    rw [hnext]
    exact not_correlated_setPhase hr rfl hbusy
  | drop i =>
    simp only [Orderly, not_forall] at hin
    obtain ⟨r, hr, hended, hbusy⟩ := hin
    have hnext : s.next text (.drop i) = s.setPhase i .dropped := by
      simp only [McpClient.next, McpClient.drop]
      rw [hr]
      simp [hended]
    rw [hnext]
    exact not_correlated_setPhase hr rfl hbusy
  | receive message =>
    simp only [Orderly, not_forall] at hin
    obtain ⟨hreader, w, hw, hid, hno⟩ := hin
    simp only [McpClient.next, hreader]
    exact not_correlated_dispatch hw hid hno
  | _ => exact absurd trivial hin

end Keeps

/-! ## Runs -/

theorem inv_empty : ({} : McpClient F).Inv where
  waiters := nofun
  inserted := nofun
  once := List.nodup_nil

theorem correlated_empty : ({} : McpClient F).Correlated where
  responses := nofun
  once := List.nodup_nil
  removed := nofun

/-- The requests of a run stay correlated exactly as long as its steps are orderly. -/
theorem correlated_iff (text : Document F → String) (events : List (Event F)) :
    (∀ pre, pre <+: events → (after (next text) {} pre).Correlated) ↔
      Along (next text) (Orderly text) {} events :=
  forall_prefix_iff_along (fun _ event hinv => hinv.next event)
    (fun _ _ hinv h hin => h.next hinv hin) (fun _ _ _ _ hin => not_correlated_next hin)
    inv_empty correlated_empty events

/-! ### A request of the server -/

def serverPing : Document Empty :=
  .obj [("jsonrpc", .str "2.0"), ("id", .int 1), ("method", .str "ping")]

/-- The server numbers its first request as the client does. -/
def pingedWhileWaiting : List (Event Empty) :=
  [.request "tools/list", .insert 0, .write 0 (.ok ()), .receive serverPing]

/-- The ping is taken for the response to `tools/list`. -/
theorem not_correlated_pinged :
    ¬ (after (next fun _ => "") {} pingedWhileWaiting).Correlated := by
  intro h
  have hresolved : (after (next fun _ => "") {} pingedWhileWaiting).resolved =
      [(0, .message serverPing)] := rfl
  obtain ⟨r, -, -, hmethod, -⟩ :=
    h.responses 0 serverPing (hresolved ▸ List.mem_singleton.mpr rfl)
  revert hmethod
  decide +kernel

end McpClient

end Mcp

end AgentDaemon
