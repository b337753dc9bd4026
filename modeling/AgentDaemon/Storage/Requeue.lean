import AgentDaemon.Storage.Intake
import AgentDaemon.Storage.Repeats

/-!
The queue as it is shown and as it is taken up again at a start. A queue item keeps its place and
the text of the run it stands for (`RunStore.inStep_after`), and the items before it only become
fewer (`movesOn_after`). So every run that `recoverable_queued` finds has an item with which its
request is admitted as the run it was (`queue_requeued`).
-/

namespace AgentDaemon.Storage

open Transition Fallible

/-! ## Views of the queue -/

/-- What `queue.list` and `queue.read` show of an item. -/
structure QueueItem where
  id : Nat
  position : Nat
  sessionId : SessionId
  runId : RunId
  message : String
  status : RunStatus
  deriving DecidableEq, Repr

def QueuedMessage.item (q : QueuedMessage) (id position : Nat) : QueueItem :=
  ⟨id, position, q.sessionId, q.runId, q.message, q.status⟩

/-- The item waits in the session. -/
def QueuedMessage.waits (sessionId : SessionId) (q : QueuedMessage) : Bool :=
  q.sessionId = sessionId && q.status = .queued

/-- The rows of `queued_messages` from the row `id` on, the first of them at `position`. -/
def listFrom (sessionId : SessionId) : Nat → Nat → List QueuedMessage → List QueueItem
  | _, _, [] => []
  | id, position, q :: rows =>
    if q.waits sessionId then q.item id position :: listFrom sessionId (id + 1) (position + 1) rows
    else listFrom sessionId (id + 1) position rows

namespace RunStore

variable (s : RunStore)

/-- `queued_messages`. Row ids are handed out from 1, and no row is deleted. -/
def queuedMessagesOf (sessionId : SessionId) : List QueueItem :=
  listFrom sessionId 1 1 s.queuedMessages.rows

/-- How many items of the session are queued up to row `id`. -/
def queuedUpTo (sessionId : SessionId) (id : Nat) : Nat :=
  (s.queuedMessages.rows.take id).countP (QueuedMessage.waits sessionId)

/-- `queued_message`. -/
def queuedMessageOf (sessionId : SessionId) (runId : RunId) : Option QueueItem := do
  let i ← s.queuedMessages.rows.findIdx? fun q => q.sessionId = sessionId && q.runId = runId
  let q ← s.queuedMessages.rows[i]?
  return q.item (i + 1) (if q.status = .queued then s.queuedUpTo sessionId (i + 1) else 0)

/-! ## The views agree -/

variable {s s' : RunStore} {sid : SessionId} {run : RunId} {item : QueueItem}

theorem map_position_listFrom (sid : SessionId) (rows : List QueuedMessage) (id position : Nat) :
    (listFrom sid id position rows).map QueueItem.position =
      List.range' position (listFrom sid id position rows).length := by
  induction rows generalizing id position with
  | nil => rfl
  | cons q rows ih =>
    unfold listFrom
    split
    · rw [List.map_cons, List.length_cons, List.range'_succ, ih]
      rfl
    · exact ih _ _

theorem mem_listFrom {rows : List QueuedMessage} {id position : Nat} :
    item ∈ listFrom sid id position rows ↔
    ∃ (i : Nat) (q : QueuedMessage), rows[i]? = some q ∧ q.waits sid = true ∧
      item = q.item (id + i) (position + (rows.take i).countP (QueuedMessage.waits sid)) := by
  induction rows generalizing id position with
  | nil => simp [listFrom]
  | cons q rows ih =>
    have hrest : ∀ (i : Nat) (x : QueuedMessage), (q :: rows)[i]? = some x ↔
        i = 0 ∧ x = q ∨ ∃ j, i = j + 1 ∧ rows[j]? = some x := by
      intro i x
      cases i with
      | zero => simp [eq_comm]
      | succ i => simp
    constructor
    · intro h
      unfold listFrom at h
      split at h
      · rename_i hq
        rcases List.mem_cons.mp h with rfl | h
        · exact ⟨0, q, rfl, hq, rfl⟩
        · obtain ⟨i, x, hx, hw, rfl⟩ := ih.mp h
          refine ⟨i + 1, x, hx, hw, ?_⟩
          rw [List.take_succ_cons, List.countP_cons_of_pos hq]
          congr 1 <;> omega
      · rename_i hq
        obtain ⟨i, x, hx, hw, rfl⟩ := ih.mp h
        refine ⟨i + 1, x, hx, hw, ?_⟩
        rw [List.take_succ_cons, List.countP_cons_of_neg hq]
        congr 1
        omega
    · rintro ⟨i, x, hx, hw, rfl⟩
      unfold listFrom
      rcases (hrest i x).mp hx with ⟨rfl, rfl⟩ | ⟨j, rfl, hj⟩
      · rw [if_pos hw]
        exact List.mem_cons_self
      · split
        · rename_i hq
          refine List.mem_cons_of_mem _ (ih.mpr ⟨j, x, hj, hw, ?_⟩)
          rw [List.take_succ_cons, List.countP_cons_of_pos hq]
          congr 1 <;> omega
        · rename_i hq
          refine ih.mpr ⟨j, x, hj, hw, ?_⟩
          rw [List.take_succ_cons, List.countP_cons_of_neg hq]
          congr 1
          omega

/-- A queued item counts itself. -/
theorem queuedUpTo_succ {i : Nat} {q : QueuedMessage} (hq : s.queuedMessages.rows[i]? = some q) :
    s.queuedUpTo sid (i + 1) = s.queuedUpTo sid i + if q.waits sid then 1 else 0 := by
  unfold queuedUpTo
  rw [List.take_add_one, hq, List.countP_append]
  simp [List.countP_singleton]

theorem mem_queuedMessagesOf : item ∈ s.queuedMessagesOf sid ↔
    ∃ (i : Nat) (q : QueuedMessage), s.queuedMessages.rows[i]? = some q ∧ q.waits sid = true ∧
      item = q.item (i + 1) (s.queuedUpTo sid (i + 1)) := by
  unfold queuedMessagesOf
  rw [mem_listFrom]
  constructor
  · rintro ⟨i, q, hq, hw, rfl⟩
    refine ⟨i, q, hq, hw, ?_⟩
    rw [queuedUpTo_succ hq, if_pos hw]
    unfold queuedUpTo
    congr 1 <;> omega
  · rintro ⟨i, q, hq, hw, rfl⟩
    refine ⟨i, q, hq, hw, ?_⟩
    rw [queuedUpTo_succ hq, if_pos hw]
    unfold queuedUpTo
    congr 1 <;> omega

theorem queue_unique {i j : Nat} {q q' : QueuedMessage} (hi : s.queuedMessages.rows[i]? = some q)
    (hj : s.queuedMessages.rows[j]? = some q') (h : q.runId = q'.runId) : i = j := by
  have hlt := (List.getElem?_eq_some_iff.mp hi).1
  have hsame : (s.queuedMessages.rows.map QueuedMessage.runId)[i]? =
      (s.queuedMessages.rows.map QueuedMessage.runId)[j]? := by
    rw [List.getElem?_map, List.getElem?_map, hi, hj, Option.map_some, Option.map_some, h]
  exact (List.getElem?_inj (by rwa [List.length_map]) s.queuedMessages.nodup).mp hsame

theorem queuedMessageOf_eq_some : s.queuedMessageOf sid run = some item ↔
    ∃ (i : Nat) (q : QueuedMessage), s.queuedMessages.rows[i]? = some q ∧ q.sessionId = sid ∧
      q.runId = run ∧
      item = q.item (i + 1) (if q.status = .queued then s.queuedUpTo sid (i + 1) else 0) := by
  unfold queuedMessageOf
  constructor
  · intro h
    obtain ⟨i, hi, h⟩ := Option.bind_eq_some_iff.mp h
    obtain ⟨q, hq, h⟩ := Option.bind_eq_some_iff.mp h
    obtain ⟨hlt, hp, -⟩ := List.findIdx?_eq_some_iff_getElem.mp hi
    rw [List.getElem?_eq_getElem hlt, Option.some.injEq] at hq
    rw [hq, Bool.and_eq_true, decide_eq_true_eq, decide_eq_true_eq] at hp
    exact ⟨i, q, by rw [List.getElem?_eq_getElem hlt, hq], hp.1, hp.2, (Option.some.inj h).symm⟩
  · rintro ⟨i, q, hq, hsid, hrun, rfl⟩
    obtain ⟨hlt, hget⟩ := List.getElem?_eq_some_iff.mp hq
    have hi : (s.queuedMessages.rows.findIdx? fun q => q.sessionId = sid && q.runId = run) =
        some i := by
      rw [List.findIdx?_eq_some_iff_getElem]
      refine ⟨hlt, by rw [hget]; simp [hsid, hrun], fun j hj hp => ?_⟩
      rw [Bool.and_eq_true, decide_eq_true_eq, decide_eq_true_eq] at hp
      have hjq := List.getElem?_eq_getElem (Nat.lt_trans hj hlt)
      have heq := queue_unique hjq hq (hp.2.trans hrun.symm)
      omega
    rw [hi, Option.bind_eq_bind, Option.bind_some, hq]
    rfl

/-- The two views of an item are one. -/
theorem mem_queuedMessagesOf_iff : item ∈ s.queuedMessagesOf sid ↔
    s.queuedMessageOf sid item.runId = some item ∧ item.position ≠ 0 := by
  rw [mem_queuedMessagesOf, queuedMessageOf_eq_some]
  constructor
  · rintro ⟨i, q, hq, hw, rfl⟩
    have hwaits := hw
    unfold QueuedMessage.waits at hw
    rw [Bool.and_eq_true, decide_eq_true_eq, decide_eq_true_eq] at hw
    refine ⟨⟨i, q, hq, hw.1, rfl, by rw [if_pos hw.2]⟩, ?_⟩
    show s.queuedUpTo sid (i + 1) ≠ 0
    rw [queuedUpTo_succ hq, if_pos hwaits]
    exact Nat.succ_ne_zero _
  · rintro ⟨⟨i, q, hq, hsid, -, hitem⟩, hpos⟩
    have hst : q.status = .queued := by
      by_contra hst
      rw [hitem, if_neg hst] at hpos
      exact hpos rfl
    rw [if_pos hst] at hitem
    exact ⟨i, q, hq, by simp [QueuedMessage.waits, hsid, hst], hitem⟩

end RunStore

/-! ## The queue moves forward -/

/-- Items keep their place and none is queued again; new ones come behind. -/
def MovesOn (l m : List QueueView) : Prop :=
  l.length ≤ m.length ∧
    List.Forall₂ (fun (q q' : QueueView) => q'.runId = q.runId ∧ q'.sessionId = q.sessionId ∧
      (q'.status = .queued → q.status = .queued)) l (m.take l.length)

theorem MovesOn.of_map {l : List QueueView} {g : QueueView → QueueView}
    (hid : ∀ q, (g q).runId = q.runId) (hsid : ∀ q, (g q).sessionId = q.sessionId)
    (hst : ∀ q, (g q).status = .queued → q.status = .queued) : MovesOn l (l.map g) := by
  refine ⟨Nat.le_of_eq (List.length_map g).symm, ?_⟩
  rw [List.take_of_length_le (Nat.le_of_eq (List.length_map g)), List.forall₂_map_right_iff]
  exact List.forall₂_same.mpr fun q _ => ⟨hid q, hsid q, hst q⟩

theorem MovesOn.refl (l : List QueueView) : MovesOn l l := by
  have h := MovesOn.of_map (l := l) (g := id) (fun _ => rfl) (fun _ => rfl) fun _ => id
  rwa [List.map_id] at h

theorem MovesOn.trans {l m n : List QueueView} (h : MovesOn l m) (h' : MovesOn m n) :
    MovesOn l n := by
  refine ⟨Nat.le_trans h.1 h'.1, ?_⟩
  have hm := List.forall₂_take l.length h'.2
  rw [List.take_take, Nat.min_eq_left h.1] at hm
  rw [List.forall₂_iff_get] at hm ⊢
  have hl := List.forall₂_iff_get.mp h.2
  refine ⟨hl.1.trans hm.1, fun i hi hi' => ?_⟩
  have hi₂ : i < (m.take l.length).length := hl.1 ▸ hi
  obtain ⟨hid, hsid, hst⟩ := hl.2 i hi hi₂
  obtain ⟨hid', hsid', hst'⟩ := hm.2 i hi₂ hi'
  exact ⟨hid'.trans hid, hsid'.trans hsid, fun hq => hst (hst' hq)⟩

theorem MovesOn.append (l m : List QueueView) : MovesOn l (l ++ m) := by
  refine ⟨by rw [List.length_append]; omega, ?_⟩
  rw [List.take_left]
  exact List.forall₂_same.mpr fun q _ => ⟨rfl, rfl, id⟩

theorem MovesOn.apply {c : Control} {ch : Change} (hen : ch.Enabled c) :
    MovesOn c.queue (ch.apply c).queue := by
  have hset : ∀ (run : RunId) (status : RunStatus), status ≠ .queued →
      MovesOn c.queue (c.queue.map fun q =>
        if q.runId = run then { q with status := status } else q) := by
    intro run status hstatus
    refine .of_map (fun q => ?_) (fun q => ?_) fun q hq => ?_
    · split <;> rfl
    · split <;> rfl
    · split at hq
      · exact absurd hq hstatus
      · exact hq
  cases ch with
  | admitted run session child => exact .append _ _
  | started run => exact hset run .running (by decide)
  | removed run =>
    refine .of_map (fun q => ?_) (fun q => ?_) fun q hq => ?_
    · split <;> rfl
    · split <;> rfl
    · split at hq
      · cases hq
      · exact hq
  | awaiting run => exact .refl _
  | resumed run => exact .refl _
  | finished run v =>
    refine hset run v.status fun hq => ?_
    have hterm := hen.1
    rw [hq] at hterm
    cases hterm
  | reconciled run v =>
    refine hset run v.status fun hq => ?_
    rcases hen.1 with hs | hs | hs <;> cases hq.symm.trans hs
  | lost run => exact hset run .unknownAfterRestart (by decide)
  | prepared run tools => exact .refl _
  | toolMoved key source target => exact .refl _
  | leased child lease => exact .refl _

theorem movesOn_after (s : RunStore) (ops : List Op) :
    MovesOn s.control.queue (after RunStore.next s ops).control.queue := by
  refine control_induct (P := fun _ => true) (I := fun c => MovesOn s.control.queue c.queue)
    (fun c ch h hen => h.trans (.apply hen.1)) (.refl _) ?_
  exact along_mono (along_true _ _) fun s op _ _ => approvalsOn_any s op

namespace RunStore

variable {s s' : RunStore} {sid : SessionId} {run : RunId} {item : QueueItem}

theorem queuedUpTo_view (s : RunStore) (sid : SessionId) (n : Nat) : s.queuedUpTo sid n =
    (s.control.queue.take n).countP fun v => v.sessionId = sid && v.status = .queued := by
  rw [queuedUpTo, control, ← List.map_take, List.countP_map]
  rfl

theorem queuedUpTo_le (h : MovesOn s.control.queue s'.control.queue) {n : Nat}
    (hn : n ≤ s.queuedMessages.rows.length) : s'.queuedUpTo sid n ≤ s.queuedUpTo sid n := by
  have hn' : n ≤ s.control.queue.length := by rwa [control, List.length_map]
  have htake := List.forall₂_take n h.2
  rw [List.take_take, Nat.min_eq_left hn'] at htake
  rw [queuedUpTo_view, queuedUpTo_view]
  refine countP_le_of_forall₂ (List.Forall₂.imp (fun q q' hq hp => ?_) htake)
  rw [Bool.and_eq_true, decide_eq_true_eq, decide_eq_true_eq] at hp ⊢
  exact ⟨hq.2.1.symm.trans hp.1, hq.2.2 hp.2⟩

theorem session_of_item (ha : Aligned s.control) {i : Nat} {q : QueuedMessage}
    (hq : s.queuedMessages.rows[i]? = some q) :
    (s.runs.find? q.runId).map Run.sessionId = some q.sessionId := by
  have hget := List.forall₂_iff_get.mp ha
  obtain ⟨hlt', hqi⟩ := List.getElem?_eq_some_iff.mp hq
  have hlt : i < s.runs.rows.length := by
    have hlen := hget.1
    rw [control, List.length_map, List.length_map] at hlen
    omega
  have hi := hget.2 i (by simpa [control] using hlt) (by simpa [control] using hlt')
  simp only [control, List.get_eq_getElem, List.getElem_map, hqi] at hi
  rw [show q.runId = s.runs.rows[i].id from hi.1, Table.find?_of_mem (List.getElem_mem hlt)]
  exact congrArg some hi.2.1.symm

/-- The item that is started is the first of its session. -/
theorem position_of_head (ha : Aligned s.control) (hi : item ∈ s.queuedMessagesOf sid)
    (hhead : s.queueHead item.runId = some item.runId) : item.position = 1 := by
  obtain ⟨i, q, hq, hw, rfl⟩ := mem_queuedMessagesOf.mp hi
  have hsid : q.sessionId = sid := by
    unfold QueuedMessage.waits at hw
    simp only [Bool.and_eq_true, decide_eq_true_eq] at hw
    exact hw.1
  unfold queueHead at hhead
  rw [show (s.runs.find? (q.item (i + 1) _).runId).map Run.sessionId = some sid from
    (session_of_item ha hq).trans (congrArg some hsid)] at hhead
  obtain ⟨x, hx, hid⟩ := Option.map_eq_some_iff.mp hhead
  obtain ⟨-, front, back, hrows, hfront⟩ := List.find?_eq_some_iff_append.mp hx
  have hxi : s.queuedMessages.rows[front.length]? = some x := by
    rw [hrows, List.getElem?_append_right (Nat.le_refl _), Nat.sub_self]
    rfl
  obtain rfl := queue_unique hxi hq hid
  show s.queuedUpTo sid (front.length + 1) = 1
  rw [queuedUpTo_succ hq, if_pos hw, queuedUpTo, hrows, List.take_left]
  rw [List.countP_eq_zero.mpr]
  intro p hp hwp
  have hno := hfront p hp
  unfold QueuedMessage.waits at hwp
  simp only [Bool.and_eq_true, decide_eq_true_eq] at hwp
  simp [hwp.1, hwp.2] at hno

end RunStore

/-! ## Taking the queue up again -/

/-- The queue of one store. -/
structure Lists (s : RunStore) (sid : SessionId) : Prop where
  /-- The items are shown at the places 1, 2, … -/
  positions : (s.queuedMessagesOf sid).map QueueItem.position =
    List.range' 1 (s.queuedMessagesOf sid).length
  /-- The list and the single item are read alike. -/
  read : ∀ item : QueueItem, item ∈ s.queuedMessagesOf sid ↔
    s.queuedMessageOf sid item.runId = some item ∧ item.position ≠ 0
  /-- A run is started from the first place only. -/
  first : ∀ (item : QueueItem) (clock : Clock) (s' : RunStore), item ∈ s.queuedMessagesOf sid →
    s.tryStartQueued item.runId clock = .ok (true, s') → item.position = 1

/-- A run keeps its row and what it was admitted with. -/
theorem row_after {s : RunStore} {i : Nat} {r : Run} (hi : s.runs.rows[i]? = some r)
    (ops : List Op) :
    ∃ r' : Run, (after RunStore.next s ops).runs.rows[i]? = some r' ∧ r'.head = r.head := by
  obtain ⟨later, hlater⟩ := after_heads s ops
  have hget : s.archive.heads[i]? = some r.head := by
    rw [RunStore.archive, List.getElem?_map, hi]
    rfl
  have hget' : (after RunStore.next s ops).archive.heads[i]? = some r.head := by
    rw [← hlater, List.getElem?_append_left (List.getElem?_eq_some_iff.mp hget).1, hget]
  rw [RunStore.archive, List.getElem?_map] at hget'
  exact Option.map_eq_some_iff.mp hget'

/-- A `chat.send` that a start makes for a queued run. -/
structure QueuedRequest where
  sessionId : SessionId
  requestId : RequestId
  message : String
  deriving DecidableEq, Repr

/-- The loop of the start over `recoverable_queued`: the request of each queued run, with the
message of its item. -/
def RunStore.requeue (s : RunStore) : Except String (List QueuedRequest) :=
  s.recoverableQueued.mapM fun queued =>
    match s.queuedMessageOf queued.sessionId queued.runId with
    | none => .error ("queued run " ++ queued.runId.val ++ " 缺少队列项")
    | some item => .ok ⟨queued.sessionId, queued.requestId, item.message⟩

/-- A run that was queued in `s` is taken up in `t` by the request. -/
structure TakesUp (s t : RunStore) (queued : RunRecord) (request : QueuedRequest) : Prop where
  /-- The item has stayed what it was, and nothing went before it. -/
  keeps : ∃ item ∈ s.queuedMessagesOf queued.sessionId, ∃ item' : QueueItem,
    t.queuedMessageOf queued.sessionId queued.runId = some item' ∧ item'.id = item.id ∧
      item'.message = item.message ∧ item'.position ≤ item.position
  /-- The request is admitted as the run it was made for, and changes nothing. -/
  admitted : ∀ (mode : AdmissionMode) (route : Option Provider.RouteSnapshot) (now : Int),
    ∃ rec : RunRecord, rec.runId = queued.runId ∧
      t.admitWithRoute request.sessionId request.requestId request.message mode route now =
        .ok (.existing rec, t)

theorem takesUp_after {ops : List Op} {queued : RunRecord}
    (hm : queued ∈ (storeAfter ops).recoverableQueued) : ∃ item : QueueItem,
      (storeAfter ops).queuedMessageOf queued.sessionId queued.runId = some item ∧
      ∀ ops' : List Op, TakesUp (storeAfter ops) (storeAfter (ops ++ ops')) queued
        ⟨queued.sessionId, queued.requestId, item.message⟩ := by
  obtain ⟨r, hr, rfl⟩ := List.mem_map.mp hm
  rw [List.mem_mergeSort, List.mem_filter, decide_eq_true_eq] at hr
  obtain ⟨i, hi⟩ := List.mem_iff_getElem?.mp hr.1
  obtain ⟨q, hq, hrun, hsid, hmessage, hst⟩ :=
    (RunStore.inStep_after ops).item_of_run (aligned_after ops) hi
  have hwaits : q.waits r.sessionId = true := by
    simp [QueuedMessage.waits, hsid, hst hr.2]
  refine ⟨_, RunStore.queuedMessageOf_eq_some.mpr ⟨i, q, hq, hsid, hrun, rfl⟩, fun ops' => ?_⟩
  -- the row of the run, and so its item, is at the same place later
  obtain ⟨r', hi', hhead⟩ := row_after hi ops'
  have hmoves := movesOn_after (storeAfter ops) ops'
  rw [← storeAfter_append] at hi' hmoves
  simp only [Run.head, Head.mk.injEq] at hhead
  obtain ⟨hid, hsession, hrequest, hinput⟩ := hhead
  obtain ⟨q', hq', hrun', hsid', hmessage', -⟩ :=
    (RunStore.inStep_after (ops ++ ops')).item_of_run (aligned_after _) hi'
  constructor
  · refine ⟨_, RunStore.mem_queuedMessagesOf.mpr ⟨i, q, hq, hwaits, rfl⟩, _,
      RunStore.queuedMessageOf_eq_some.mpr
        ⟨i, q', hq', hsid'.trans hsession, hrun'.trans hid, rfl⟩, rfl,
      hmessage'.trans (hinput.trans hmessage.symm), ?_⟩
    show (if q'.status = .queued then _ else 0) ≤ _
    split
    · exact RunStore.queuedUpTo_le hmoves (List.getElem?_eq_some_iff.mp hq).1
    · exact Nat.zero_le _
  · intro mode route now
    refine ⟨r'.record, hid, ?_⟩
    have hknown := admitWithRoute_known (journal_sound (ops ++ ops')) (List.mem_of_getElem? hi')
      q.message mode route now
    rw [if_neg (not_not_intro (hinput.trans hmessage.symm)), hsession, hrequest] at hknown
    exact hknown

/-- The queue of a session is listed from its head without a gap, and every start takes up all it
finds queued: no run lacks its item, which is at no later place than ever before, and the request
that is made of it is answered with the run it was. -/
theorem queue_requeued (ops : List Op) :
    (∀ sid, Lists (storeAfter ops) sid) ∧
    ∃ requests, (storeAfter ops).requeue = .ok requests ∧
      List.Forall₂ (fun queued request => ∀ ops' : List Op,
        TakesUp (storeAfter ops) (storeAfter (ops ++ ops')) queued request)
        (storeAfter ops).recoverableQueued requests := by
  constructor
  · intro sid
    refine ⟨RunStore.map_position_listFrom _ _ _ _,
      fun item => RunStore.mem_queuedMessagesOf_iff, ?_⟩
    intro item clock s' hi h
    rcases RunStore.tryStartQueued_cases h with ⟨hb, -⟩ | ⟨n, data, s₁, -, hhead, -⟩
    · cases hb
    · exact RunStore.position_of_head (aligned_after ops) hi hhead
  · cases h : (storeAfter ops).requeue with
    | error e =>
      obtain ⟨queued, hm, he⟩ := mapM_eq_error h
      obtain ⟨item, hitem, -⟩ := takesUp_after hm
      rw [hitem] at he
      cases he
    | ok requests =>
      refine ⟨requests, rfl, ?_⟩
      have hall := List.forall₂_iff_get.mp (mapM_eq_ok h)
      refine List.forall₂_iff_get.mpr ⟨hall.1, fun i hi hi' => ?_⟩
      obtain ⟨item, hitem, htakes⟩ := takesUp_after (List.get_mem _ ⟨i, hi⟩)
      have hrequest := hall.2 i hi hi'
      rw [hitem] at hrequest
      rw [← Except.ok.inj hrequest]
      exact htakes

end AgentDaemon.Storage
