import AgentDaemon.Lib.Slots
import AgentDaemon.Storage.Journal

/-!
The approval broker. `ApprovalBroker` holds one pending entry for each question that waits for
an answer; the entry owns the sending half of a one-shot channel whose receiving half the asking
task polls. A step of `Broker` is one stretch of a task between two awaits, so a run is any
interleaving of requests, answers, cancellations and dropped requesters with arbitrary store
operations. In every run the map and the requests agree (`linked_after`).
-/

namespace AgentDaemon.Daemon

open Storage Transition

structure PendingApprovalInfo where
  id : InteractionId
  requestId : RequestId
  prompt : String
  deriving DecidableEq, Repr

/-- An entry of the pending map. `request` is the task whose receiver the sender feeds. -/
structure PendingApproval where
  info : PendingApprovalInfo
  sessionId : Option SessionId
  request : Nat
  deriving DecidableEq, Repr

/-- The one-shot channel of a request, `closed` once its sender is gone without a value. -/
inductive Channel where
  | unresolved | sent (approved : Bool) | closed
  deriving DecidableEq, Repr

inductive ApprovalError where
  | eventsClosed | cancelled (id : InteractionId)
  deriving DecidableEq, Repr

/-- Where `ApprovalBroker::request` stands. -/
inductive Stage where
  /-- The id is chosen; the entry is not in the map yet. -/
  | created
  /-- The entry is in the map; the frame is not sent yet. -/
  | registered
  /-- The frame could not be sent; the entry is to be removed. -/
  | unsent
  /-- At `receiver.await`. -/
  | waiting
  /-- The sender is gone; the entry is to be removed. -/
  | orphaned
  | returned (result : Except ApprovalError Bool)
  /-- The task was dropped, and its receiver with it. -/
  | dropped

/-- The receiver still exists. -/
def Stage.receiving : Stage → Bool
  | returned _ | dropped => false
  | _ => true

/-- The entry has been in the map, unless the task was dropped before. -/
def Stage.entered : Stage → Bool
  | created => false
  | _ => true

structure Request where
  info : PendingApprovalInfo
  sessionId : Option SessionId
  stage : Stage
  channel : Channel

/-- `response.send`: the value is lost where the receiver is gone. -/
def Request.send (approved : Bool) (r : Request) : Request :=
  if r.stage.receiving then { r with channel := .sent approved } else r

/-- The sender is dropped without a value. -/
def Request.close (r : Request) : Request := { r with channel := .closed }

/-- The broker with the store and every call of `request` so far. -/
structure Broker where
  store : RunStore
  nextId : Nat
  pending : List PendingApproval
  requests : List Request

/-- `format!("approval-{pid}-{nonce}-{sequence}")`. -/
def approvalId (pid nonce sequence : Nat) : InteractionId :=
  ⟨"approval-" ++ toString pid ++ "-" ++ toString nonce ++ "-" ++ toString sequence⟩

/-- The id determines the sequence number: no digit is a `-`. -/
theorem approvalId_sequence {pid nonce sequence pid' nonce' sequence' : Nat}
    (h : approvalId pid nonce sequence = approvalId pid' nonce' sequence') :
    sequence = sequence' := by
  have hlist := congrArg (fun i : InteractionId => i.val.toList) h
  have e : ("-" : String).toList = ['-'] := by decide
  simp only [approvalId, String.toList_append, e, List.append_assoc, List.singleton_append] at hlist
  simp only [← List.append_assoc] at hlist
  exact (append_number_inj (by decide) hlist).2

inductive RespondError where
  | noExecutor | claim (error : RuntimeError) | executorGone
  deriving DecidableEq, Repr

inductive Action where
  | request (requestId : RequestId) (sessionId : Option SessionId) (prompt : String)
      (pid nonce : Nat)
  | register (k : Nat)
  | sendFrame (k : Nat) (ok : Bool)
  | unregister (k : Nat)
  | poll (k : Nat)
  | drop (k : Nat)
  /-- `respond_claimed` with a claim on the given owner and revision; `fails` is a claim that
  the storage fails to write. -/
  | respond (id : InteractionId) (sessionId : SessionId) (runId : RunId) (revision : Int)
      (approved fails : Bool)
  /-- `cancel_request_in_session`. -/
  | cancel (sessionId : SessionId) (requestId : RequestId)
  | storage (op : Op)

namespace Broker

def init (store : RunStore) : Broker := ⟨store, 0, [], []⟩

def lookup (b : Broker) (id : InteractionId) : Option PendingApproval :=
  b.pending.find? fun e => e.info.id = id

def edit (b : Broker) (k : Nat) (f : Request → Request) : Broker :=
  { b with requests := b.requests.modify k f }

def setStage (b : Broker) (k : Nat) (stage : Stage) : Broker := b.edit k ({ · with stage })

/-- Remove an entry from the map and use its sender. -/
def release (b : Broker) (id : InteractionId) (use : Request → Request) : Broker :=
  match b.lookup id with
  | none => b
  | some e => { b with pending := b.pending.filter (·.info.id ≠ id) }.edit e.request use

/-- `respond_claimed`: the pending map is locked from the lookup to the answer. -/
def respondClaimed (b : Broker) (id : InteractionId) (approved : Bool)
    (claim : RunStore → Except RuntimeError (InteractionRecord × RunStore)) :
    Except RespondError InteractionRecord × Broker :=
  match b.lookup id with
  | none => (.error .noExecutor, b)
  | some waiter =>
    match claim b.store with
    | .error e => (.error (.claim e), b)
    | .ok (record, store) =>
      let delivered := b.requests[waiter.request]?.any (·.stage.receiving)
      (if delivered then .ok record else .error .executorGone,
        { b with store }.release id (Request.send approved))

/-- The entries that `cancel_matching` removes. -/
def matching (b : Broker) (sessionId : SessionId) (requestId : RequestId) :
    List PendingApproval :=
  b.pending.filter fun e => e.info.requestId = requestId ∧ e.sessionId = some sessionId

/-- `cancel_matching`: every matching entry is removed and answered `false`. -/
def cancelMatching (b : Broker) (sessionId : SessionId) (requestId : RequestId) : Broker :=
  ((b.matching sessionId requestId).map (·.info.id)).foldl
    (fun b id => b.release id (Request.send false)) b

/-- The claim that `resolve_interaction` hands to the broker. -/
def claim (id : InteractionId) (sessionId : SessionId) (runId : RunId) (revision : Int)
    (approved fails : Bool) (s : RunStore) :
    Except RuntimeError (InteractionRecord × RunStore) :=
  if fails then .error (.persistence .ioFailure)
  else s.claimInteraction id sessionId runId revision approved

/-- `request` up to its first await: the id is chosen and the channel made. -/
def request (b : Broker) (requestId : RequestId) (sessionId : Option SessionId) (prompt : String)
    (pid nonce : Nat) : Broker :=
  { b with
    nextId := b.nextId + 1
    requests := b.requests ++
      [⟨⟨approvalId pid nonce b.nextId, requestId, prompt⟩, sessionId, .created, .unresolved⟩] }

/-- The entry is put into the map; one under the same id is dropped. -/
def register (b : Broker) (k : Nat) : Broker :=
  match b.requests[k]? with
  | some ⟨info, sessionId, .created, _⟩ =>
    let b := (b.release info.id Request.close).setStage k .registered
    { b with pending := b.pending ++ [⟨info, sessionId, k⟩] }
  | _ => b

def sendFrame (b : Broker) (k : Nat) (ok : Bool) : Broker :=
  match b.requests[k]? with
  | some ⟨_, _, .registered, _⟩ => b.setStage k (if ok then .waiting else .unsent)
  | _ => b

/-- The request removes its own entry and fails. -/
def unregister (b : Broker) (k : Nat) : Broker :=
  match b.requests[k]? with
  | some ⟨info, _, .unsent, _⟩ =>
    (b.release info.id Request.close).setStage k (.returned (.error .eventsClosed))
  | some ⟨info, _, .orphaned, _⟩ =>
    (b.release info.id Request.close).setStage k (.returned (.error (.cancelled info.id)))
  | _ => b

def poll (b : Broker) (k : Nat) : Broker :=
  match b.requests[k]? with
  | some ⟨_, _, .waiting, .sent approved⟩ => b.setStage k (.returned (.ok approved))
  | some ⟨_, _, .waiting, .closed⟩ => b.setStage k .orphaned
  | _ => b

/-- The task of a request that has not returned is dropped. -/
def drop (b : Broker) (k : Nat) : Broker :=
  match b.requests[k]? with
  | some r => if r.stage.receiving then b.setStage k .dropped else b
  | none => b

/-- One step; a step that the task is not ready for changes nothing. -/
def next (b : Broker) : Action → Broker
  | .request requestId sessionId prompt pid nonce => b.request requestId sessionId prompt pid nonce
  | .register k => b.register k
  | .sendFrame k ok => b.sendFrame k ok
  | .unregister k => b.unregister k
  | .poll k => b.poll k
  | .drop k => b.drop k
  | .respond id sessionId runId revision approved fails =>
    (b.respondClaimed id approved (claim id sessionId runId revision approved fails)).2
  | .cancel sessionId requestId => b.cancelMatching sessionId requestId
  | .storage op => { b with store := b.store.next op }

/-! ## The map and the requests agree -/

section Linked

variable {b : Broker} {k : Nat} {r : Request} {id : InteractionId} {e : PendingApproval}

@[simp] theorem pending_edit (b : Broker) (k : Nat) (f : Request → Request) :
    (b.edit k f).pending = b.pending := rfl

@[simp] theorem store_edit (b : Broker) (k : Nat) (f : Request → Request) :
    (b.edit k f).store = b.store := rfl

theorem requests_edit (b : Broker) (k j : Nat) (f : Request → Request) :
    (b.edit k f).requests[j]? = if k = j then b.requests[j]?.map f else b.requests[j]? := by
  rw [edit, List.getElem?_modify]
  split <;> simp

theorem lookup_eq_some (h : b.lookup id = some e) : e ∈ b.pending ∧ e.info.id = id :=
  ⟨List.mem_of_find?_eq_some h, by simpa using List.find?_some h⟩

/-- Every entry belongs to one request, which is past its registration and whose channel is
still unresolved. -/
structure Linked (b : Broker) : Prop where
  nodup : (b.pending.map (·.info.id)).Nodup
  owner : ∀ e ∈ b.pending, ∃ r, b.requests[e.request]? = some r ∧ r.info = e.info ∧
    r.channel = .unresolved ∧ r.stage ≠ .created
  fresh : ∀ (k : Nat) (r : Request), b.requests[k]? = some r → r.stage = .created →
    r.channel = .unresolved

theorem Linked.eq_of_request (hb : Linked b) {e e' : PendingApproval} (he : e ∈ b.pending)
    (he' : e' ∈ b.pending) (h : e.request = e'.request) : e = e' := by
  obtain ⟨r, hr, hi, -⟩ := hb.owner e he
  obtain ⟨r', hr', hi', -⟩ := hb.owner e' he'
  rw [h, hr'] at hr
  cases hr
  exact List.inj_on_of_nodup_map hb.nodup he he' (by rw [← hi, hi'])

theorem linked_init (store : RunStore) : Linked (init store) :=
  ⟨List.nodup_nil, nofun, fun _ _ h => by simp [init] at h⟩

theorem Linked.withStore (hb : Linked b) (store : RunStore) : Linked { b with store } :=
  ⟨hb.nodup, hb.owner, hb.fresh⟩

/-- A request may move to any stage but the first. -/
theorem Linked.setStage (hb : Linked b) (k : Nat) {stage : Stage} (hs : stage ≠ .created) :
    Linked (b.setStage k stage) where
  nodup := hb.nodup
  owner := by
    intro e he
    obtain ⟨r, hr, hi, hc, hst⟩ := hb.owner e he
    rw [Broker.setStage, requests_edit, hr]
    split
    · exact ⟨_, rfl, hi, hc, hs⟩
    · exact ⟨r, rfl, hi, hc, hst⟩
  fresh := by
    intro j r hr hst
    rw [Broker.setStage, requests_edit] at hr
    split at hr
    · obtain ⟨r', -, rfl⟩ := Option.map_eq_some_iff.mp hr
      exact absurd hst hs
    · exact hb.fresh j r hr hst

/-- How the sender of an entry is used. -/
structure Uses (use : Request → Request) : Prop where
  info : ∀ r, (use r).info = r.info
  stage : ∀ r, (use r).stage = r.stage

theorem uses_send (approved : Bool) : Uses (Request.send approved) where
  info r := by unfold Request.send; split <;> rfl
  stage r := by unfold Request.send; split <;> rfl

theorem uses_close : Uses Request.close := ⟨fun _ => rfl, fun _ => rfl⟩

theorem Linked.release (hb : Linked b) (id : InteractionId) {use : Request → Request}
    (hu : Uses use) : Linked (b.release id use) := by
  unfold Broker.release
  split
  · exact hb
  rename_i e hlook
  obtain ⟨he, rfl⟩ := lookup_eq_some hlook
  refine ⟨hb.nodup.sublist (List.Sublist.map _ List.filter_sublist), ?_, ?_⟩
  · intro e' he'
    obtain ⟨he', hne⟩ := List.mem_filter.mp he'
    obtain ⟨r, hr, hi, hc, hst⟩ := hb.owner e' he'
    -- the entry that is released is the only one of its request
    have hk : e.request ≠ e'.request := by
      intro h
      rw [hb.eq_of_request he he' h] at hne
      simp at hne
    rw [requests_edit, if_neg hk]
    exact ⟨r, hr, hi, hc, hst⟩
  · intro j r hr hst
    rw [requests_edit] at hr
    split at hr
    · rename_i hj
      obtain ⟨r', hr', rfl⟩ := Option.map_eq_some_iff.mp hr
      obtain ⟨r'', hr'', -, -, hne⟩ := hb.owner e he
      rw [hj] at hr''
      rw [hr'] at hr''
      cases hr''
      exact absurd ((hu.stage r').symm.trans hst) hne
    · exact hb.fresh j r hr hst

theorem mem_release {use : Request → Request} (h : e ∈ (b.release id use).pending) :
    e ∈ b.pending ∧ e.info.id ≠ id := by
  unfold Broker.release at h
  split at h
  · rename_i hnone
    refine ⟨h, fun he => ?_⟩
    exact absurd he (by simpa using List.find?_eq_none.mp hnone e h)
  · obtain ⟨he, hne⟩ := List.mem_filter.mp h
    exact ⟨he, by simpa using hne⟩

@[simp] theorem store_release (b : Broker) (id : InteractionId) (use : Request → Request) :
    (b.release id use).store = b.store := by
  unfold Broker.release
  split <;> rfl

theorem Linked.releaseAll (hb : Linked b) (ids : List InteractionId) {use : Request → Request}
    (hu : Uses use) : Linked (ids.foldl (fun b id => b.release id use) b) := by
  induction ids generalizing b with
  | nil => exact hb
  | cons id ids ih => exact ih (hb.release id hu)

theorem Linked.respondClaimed (hb : Linked b) (id : InteractionId) (approved : Bool)
    (claim : RunStore → Except RuntimeError (InteractionRecord × RunStore)) :
    Linked (b.respondClaimed id approved claim).2 := by
  unfold Broker.respondClaimed
  split
  · exact hb
  · split
    · exact hb
    · exact (hb.withStore _).release id (uses_send approved)

theorem Linked.request (hb : Linked b) (requestId : RequestId) (sessionId : Option SessionId)
    (prompt : String) (pid nonce : Nat) :
    Linked (b.request requestId sessionId prompt pid nonce) where
  nodup := hb.nodup
  owner := by
    intro e he
    obtain ⟨r, hr, h⟩ := hb.owner e he
    refine ⟨r, ?_, h⟩
    rw [Broker.request, Slots.append_of_some hr]
  fresh := by
    intro k r hr hst
    rcases List.mem_append.mp (List.mem_of_getElem? hr) with h | h
    · obtain ⟨j, hj⟩ := List.mem_iff_getElem?.mp h
      exact hb.fresh j r hj hst
    · simp only [List.mem_singleton] at h
      rw [h]

/-- A request in its first stage has no entry. -/
theorem Linked.ne_of_created (hb : Linked b) (hr : b.requests[k]? = some r)
    (hst : r.stage = .created) (he : e ∈ b.pending) : e.request ≠ k := by
  rintro rfl
  obtain ⟨r', hr', -, -, hne⟩ := hb.owner e he
  rw [hr] at hr'
  cases hr'
  exact hne hst

theorem requests_release_of_ne {use : Request → Request}
    (h : ∀ e, b.lookup id = some e → e.request ≠ k) :
    (b.release id use).requests[k]? = b.requests[k]? := by
  unfold Broker.release
  split
  · rfl
  · rename_i e hlook
    rw [requests_edit, if_neg (h e hlook)]

theorem Linked.register (hb : Linked b) (k : Nat) : Linked (b.register k) := by
  unfold Broker.register
  split
  swap
  · exact hb
  rename_i info sessionId channel hr
  have hset : Linked ((b.release info.id Request.close).setStage k .registered) :=
    (hb.release info.id uses_close).setStage k nofun
  have hk : (b.release info.id Request.close).requests[k]? =
      some ⟨info, sessionId, .created, channel⟩ := by
    rw [requests_release_of_ne fun e he => hb.ne_of_created hr rfl (lookup_eq_some he).1, hr]
  refine ⟨?_, ?_, hset.fresh⟩
  · rw [List.map_append, List.nodup_append]
    refine ⟨hset.nodup, List.nodup_singleton _, ?_⟩
    intro i hi j hj e
    obtain ⟨e', he', rfl⟩ := List.mem_map.mp hi
    simp only [List.map_cons, List.map_nil, List.mem_singleton] at hj
    exact (mem_release he').2 (e.trans hj)
  · have hfresh := hb.fresh k _ hr rfl
    intro e he
    rcases List.mem_append.mp he with he | he
    · exact hset.owner e he
    · simp only [List.mem_singleton] at he
      subst he
      dsimp only
      rw [Broker.setStage, requests_edit, if_pos rfl, hk]
      exact ⟨_, rfl, rfl, hfresh, nofun⟩

theorem Linked.sendFrame (hb : Linked b) (k : Nat) (ok : Bool) : Linked (b.sendFrame k ok) := by
  unfold Broker.sendFrame
  split
  · exact hb.setStage k (by cases ok <;> simp)
  · exact hb

theorem Linked.unregister (hb : Linked b) (k : Nat) : Linked (b.unregister k) := by
  unfold Broker.unregister
  split
  · exact (hb.release _ uses_close).setStage k nofun
  · exact (hb.release _ uses_close).setStage k nofun
  · exact hb

theorem Linked.poll (hb : Linked b) (k : Nat) : Linked (b.poll k) := by
  unfold Broker.poll
  split
  · exact hb.setStage k nofun
  · exact hb.setStage k nofun
  · exact hb

theorem Linked.drop (hb : Linked b) (k : Nat) : Linked (b.drop k) := by
  unfold Broker.drop
  split
  · split
    · exact hb.setStage k nofun
    · exact hb
  · exact hb

theorem Linked.next (hb : Linked b) (a : Action) : Linked (b.next a) := by
  cases a with
  | request requestId sessionId prompt pid nonce => exact hb.request _ _ _ _ _
  | register k => exact hb.register k
  | sendFrame k ok => exact hb.sendFrame k ok
  | unregister k => exact hb.unregister k
  | poll k => exact hb.poll k
  | drop k => exact hb.drop k
  | respond id sessionId runId revision approved fails => exact hb.respondClaimed _ _ _
  | cancel sessionId requestId => exact hb.releaseAll _ (uses_send false)
  | storage op => exact hb.withStore _

theorem linked_after (store : RunStore) (run : List Action) :
    Linked (after next (init store) run) :=
  after_induct (G := fun _ _ => True) (fun _ a hb _ => hb.next a) (linked_init store)
    (along_true _ _)

end Linked

/-! ## The ids of the requests -/

section Ids

variable {b : Broker}

theorem infos_edit (b : Broker) (k : Nat) {f : Request → Request} (hf : ∀ r, (f r).info = r.info) :
    (b.edit k f).requests.map (·.info) = b.requests.map (·.info) := by
  apply List.ext_getElem?
  intro j
  rw [List.getElem?_map, requests_edit, List.getElem?_map]
  split
  · cases b.requests[j]? <;> simp [hf]
  · rfl

@[simp] theorem infos_setStage (b : Broker) (k : Nat) (stage : Stage) :
    (b.setStage k stage).requests.map (·.info) = b.requests.map (·.info) :=
  infos_edit b k fun _ => rfl

theorem infos_release (b : Broker) (id : InteractionId) {use : Request → Request}
    (hu : Uses use) : (b.release id use).requests.map (·.info) = b.requests.map (·.info) := by
  unfold release
  split
  · rfl
  · exact infos_edit _ _ hu.info

theorem infos_releaseAll (ids : List InteractionId) {use : Request → Request} (hu : Uses use) :
    (ids.foldl (fun b id => b.release id use) b).requests.map (·.info) =
      b.requests.map (·.info) := by
  induction ids generalizing b with
  | nil => rfl
  | cons id ids ih => rw [List.foldl_cons, ih, infos_release b id hu]

@[simp] theorem nextId_release (b : Broker) (id : InteractionId) (use : Request → Request) :
    (b.release id use).nextId = b.nextId := by
  unfold release
  split <;> rfl

theorem nextId_releaseAll (ids : List InteractionId) (use : Request → Request) :
    (ids.foldl (fun b id => b.release id use) b).nextId = b.nextId := by
  induction ids generalizing b with
  | nil => rfl
  | cons id ids ih => rw [List.foldl_cons, ih, nextId_release]

@[simp] theorem nextId_setStage (b : Broker) (k : Nat) (stage : Stage) :
    (b.setStage k stage).nextId = b.nextId := rfl

/-- Only a call of `request` makes a new request, and takes the next number. -/
theorem next_infos (b : Broker) (a : Action) :
    ((b.next a).nextId = b.nextId ∧
      (b.next a).requests.map (·.info) = b.requests.map (·.info)) ∨
    ∃ requestId sessionId prompt pid nonce, a = .request requestId sessionId prompt pid nonce := by
  have hclose := fun id => infos_release b id uses_close
  cases a with
  | request requestId sessionId prompt pid nonce => exact .inr ⟨_, _, _, _, _, rfl⟩
  | register j => refine .inl ?_; simp only [next, register]; split <;> simp [hclose]
  | sendFrame j ok => refine .inl ?_; simp only [next, sendFrame]; split <;> simp
  | unregister j => refine .inl ?_; simp only [next, unregister]; split <;> simp [hclose]
  | poll j => refine .inl ?_; simp only [next, poll]; split <;> simp
  | drop j =>
    refine .inl ?_
    simp only [next, drop]
    split
    · split <;> simp
    · exact ⟨rfl, rfl⟩
  | respond id sessionId runId revision approved fails =>
    refine .inl ?_
    simp only [next, respondClaimed]
    split
    · exact ⟨rfl, rfl⟩
    · split
      · exact ⟨rfl, rfl⟩
      · exact ⟨nextId_release _ _ _, infos_release _ _ (uses_send approved)⟩
  | cancel sessionId requestId =>
    exact .inl ⟨nextId_releaseAll _ _, infos_releaseAll _ (uses_send false)⟩
  | storage op => exact .inl ⟨rfl, rfl⟩

/-- The id of a request carries its number. -/
structure Numbered (b : Broker) : Prop where
  nextId : b.nextId = b.requests.length
  ids : ∀ (k : Nat) (info : PendingApprovalInfo), (b.requests.map (·.info))[k]? = some info →
    ∃ pid nonce, info.id = approvalId pid nonce k

theorem Numbered.next (hb : Numbered b) (a : Action) : Numbered (b.next a) := by
  rcases next_infos b a with ⟨hn, hi⟩ | ⟨requestId, sessionId, prompt, pid, nonce, rfl⟩
  · refine ⟨?_, by rw [hi]; exact hb.ids⟩
    have hlen := congrArg List.length hi
    simp only [List.length_map] at hlen
    rw [hn, hlen, hb.nextId]
  · refine ⟨by simp [Broker.next, request, hb.nextId], ?_⟩
    intro k info hk
    simp only [Broker.next, request, List.map_append] at hk
    rcases Slots.of_concat hk with hk | ⟨hlen, rfl⟩
    · exact hb.ids k info hk
    · rw [List.length_map, ← hb.nextId] at hlen
      subst hlen
      exact ⟨pid, nonce, rfl⟩

theorem numbered_init (store : RunStore) : Numbered (init store) :=
  ⟨rfl, fun _ _ h => by simp [init] at h⟩

/-- Different requests have different ids. -/
theorem Numbered.eq_of_id (hb : Numbered b) {j k : Nat} {r r' : Request}
    (hr : b.requests[j]? = some r) (hr' : b.requests[k]? = some r') (h : r.info.id = r'.info.id) :
    j = k := by
  obtain ⟨pid, nonce, e⟩ := hb.ids j r.info (by rw [List.getElem?_map, hr]; rfl)
  obtain ⟨pid', nonce', e'⟩ := hb.ids k r'.info (by rw [List.getElem?_map, hr']; rfl)
  exact approvalId_sequence (e.symm.trans (h.trans e'))

end Ids

end Broker

end AgentDaemon.Daemon
