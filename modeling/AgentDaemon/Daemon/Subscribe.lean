import AgentDaemon.Daemon.Feed
import AgentDaemon.Storage.Events

/-!
What a subscriber gets to see. An approval that enters the broker after the subscriber has read
the pending ids and is stored before it reads the events is skipped as resolved, and its live
update is skipped as already replayed (`not_shown_lateApproval`). Where no such approval is
still unanswered when the replay reaches it, every request for an approval is sent, was
answered when it was skipped, or is still on its way, and only then (`shown_iff`).
-/

namespace AgentDaemon.Daemon

open Storage Transition Journal

/-! ## Approvals known to the subscriber -/

namespace Broker

variable {b : Broker}

/-- The approval has been in the map. -/
def Entered (b : Broker) (id : InteractionId) : Prop :=
  ∃ (k : Nat) (r : Request), b.requests[k]? = some r ∧ r.info.id = id ∧ r.stage ≠ .created

theorem Entered.next {id : InteractionId} (h : Entered b id) (hb : Linked b) (a : Action) :
    Entered (b.next a) id := by
  obtain ⟨k, r, hr, rfl, hst⟩ := h
  obtain ⟨r', hr', hmove⟩ := next_moves hb hr a
  exact ⟨k, r', hr', by rw [hmove.info], hmove.past hst⟩

/-- What was in the map when the snapshot was taken is in it, unless it was resolved since. -/
structure Lists (b : Broker) (ids : Snapshot) : Prop where
  known : ∀ id ∈ ids.pending, id ∈ ids.known
  entered : ∀ id ∈ ids.known, Entered b id
  pending : ∀ e ∈ b.pending, e.info.id ∈ ids.known → e.info.id ∈ ids.pending

theorem Lists.next {ids : Snapshot} (h : Lists b ids) (hb : Linked b) (hn : Numbered b)
    (a : Action) : Lists (b.next a) ids := by
  refine ⟨h.known, fun id hid => (h.entered id hid).next hb a, ?_⟩
  intro e he hk
  rcases next_pending he with he | ⟨r, hr, hi, hst⟩
  · exact h.pending e he hk
  · -- a new entry belongs to a request that had not entered the map
    obtain ⟨k, r', hr', hid, hst'⟩ := h.entered _ hk
    obtain rfl := hn.eq_of_id hr hr' (by rw [hid, hi])
    rw [hr] at hr'
    cases hr'
    exact absurd hst hst'

theorem lists_snapshot (hb : Linked b) : Lists b ⟨b.pending.map (·.info.id),
    (b.requests.filter (·.stage.entered)).map (·.info.id)⟩ := by
  refine ⟨?_, ?_, fun e he _ => List.mem_map_of_mem he⟩
  · intro id hid
    obtain ⟨e, he, rfl⟩ := List.mem_map.mp hid
    obtain ⟨r, hr, hi, -, hst⟩ := hb.owner e he
    refine List.mem_map.mpr ⟨r, List.mem_filter.mpr ⟨List.mem_of_getElem? hr, ?_⟩, by rw [hi]⟩
    cases hs : r.stage <;> simp_all [Stage.entered]
  intro id hid
  obtain ⟨r, hr, rfl⟩ := List.mem_map.mp hid
  obtain ⟨hr, hst⟩ := List.mem_filter.mp hr
  obtain ⟨k, hk⟩ := List.mem_iff_getElem?.mp hr
  exact ⟨k, r, hk, rfl, fun h => by simp [h, Stage.entered] at hst⟩

theorem Lists.withStore {ids : Snapshot} (h : Lists b ids) (store : RunStore) :
    Lists { b with store } ids := ⟨h.known, h.entered, h.pending⟩

theorem Numbered.withStore (h : Numbered b) (store : RunStore) : Numbered { b with store } :=
  ⟨h.nextId, h.ids⟩

end Broker

namespace Feed

open Broker

variable {key : ActiveKey} {runId : RunId} {f f' : Feed} {e : StoredEvent}

/-! ## The statement -/

/-- The event asks for an approval in the run. -/
def isRequest (runId : RunId) (e : StoredEvent) : Bool :=
  e.runId = runId && e.event = "approval_required"

/-- The requests for an approval in the log of the run. -/
def requests (runId : RunId) (f : Feed) : List StoredEvent :=
  f.broker.store.events.rows.filter (isRequest runId)

/-- The update that shows a request to a subscriber. -/
def shownAs (e : StoredEvent) : Update :=
  .event .approvalRequired e.data (some e.runId) (some e.seq)

/-- The request was sent, or its approval was not pending when it was skipped. -/
def Handled (f : Feed) (e : StoredEvent) : Prop :=
  shownAs e ∈ f.viewer.sent ∨ (e, false) ∈ f.viewer.skipped

/-- The request is in the channel, or the driver is about to broadcast it. -/
def Ahead (f : Feed) (position : Nat) (e : StoredEvent) : Prop :=
  shownAs e ∈ f.published.drop position ∨ f.driver = .persisted (shownAs e)

/-- Every request above `after` is handled once the cursor has passed it, and before that it is
on its way to a subscriber that stays connected. -/
structure Shown (runId : RunId) (f : Feed) : Prop where
  skipped : ∀ p ∈ f.viewer.skipped, p.2 = false
  passed : f.viewer.stage ≠ .ended → ∀ e ∈ requests runId f, f.viewer.after < e.seq →
    e.seq ≤ f.viewer.cursor → Handled f e
  replay : ∀ position run ids rest, f.viewer.stage = .replaying (some position) run ids rest →
    ∀ e ∈ requests runId f, f.viewer.after < e.seq → f.viewer.cursor < e.seq →
    e ∈ rest ∨ Ahead f position e
  live : ∀ position, f.viewer.stage = .live position →
    ∀ e ∈ requests runId f, f.viewer.after < e.seq → f.viewer.cursor < e.seq → Ahead f position e

/-- The next event of the replay does not ask for an approval that entered the broker after
the pending ids were read and is still unanswered. -/
def Timely (f : Feed) (a : FeedAction) : Prop :=
  ∀ fails receiver run ids e rest id, a = .view fails →
    f.viewer.stage = .replaying receiver run ids (e :: rest) → e.event = "approval_required" →
    approvalOf e.data = some id → id ∉ ids.known → f.unanswered id = false

/-! ## What holds at each stage -/

/-- The sequence number is not above the counter of the run. -/
def Reached (runId : RunId) (f : Feed) (n : Nat) : Prop := f.broker.store.journal.Below runId n

/-- Requests stored after the run was read are ahead of the receiver. -/
def Caught (runId : RunId) (f : Feed) (receiver : Option Nat) (run : RunRecord) : Prop :=
  ∀ position, receiver = some position → position ≤ f.published.length ∧
    ∀ e ∈ requests runId f, run.lastSeq < e.seq → Ahead f position e

/-- The replay has handled the requests up to the cursor; the others are in the rest of the
page, or come after it and are ahead of the receiver. -/
structure Replaying (runId : RunId) (f : Feed) (receiver : Option Nat) (ids : Snapshot)
    (rest : List StoredEvent) : Prop where
  lists : Lists f.broker ids
  sorted : rest.Pairwise (·.seq < ·.seq)
  above : ∀ x ∈ rest, f.viewer.cursor < x.seq ∧ Reached runId f x.seq
  passed : ∀ e ∈ requests runId f, f.viewer.after < e.seq → e.seq ≤ f.viewer.cursor → Handled f e
  bound : ∀ position, receiver = some position → position ≤ f.published.length
  cover : ∀ e ∈ requests runId f, f.viewer.after < e.seq → f.viewer.cursor < e.seq →
    e ∈ rest ∨ (∀ x ∈ rest, x.seq < e.seq) ∧
      ∀ position, receiver = some position → Ahead f position e

structure Following (runId : RunId) (f : Feed) (position : Nat) : Prop where
  bound : position ≤ f.published.length
  passed : ∀ e ∈ requests runId f, f.viewer.after < e.seq → e.seq ≤ f.viewer.cursor → Handled f e
  ahead : ∀ e ∈ requests runId f, f.viewer.after < e.seq → f.viewer.cursor < e.seq →
    Ahead f position e

def Staged (runId : RunId) (f : Feed) : Prop :=
  match f.viewer.stage with
  | .start => f.viewer.cursor = f.viewer.after
  | .opened receiver => f.viewer.cursor = f.viewer.after ∧
    ∀ position, receiver = some position → position ≤ f.published.length
  | .found receiver run => f.viewer.cursor = f.viewer.after ∧ Caught runId f receiver run
  | .listed receiver run ids => f.viewer.cursor = f.viewer.after ∧ Caught runId f receiver run ∧
    Lists f.broker ids
  | .replaying receiver _ ids rest => Replaying runId f receiver ids rest
  | .live position => Following runId f position
  | .ended => True

/-- The broadcast requests come after everything broadcast before them. -/
structure Published (runId : RunId) (f : Feed) : Prop where
  reached : ∀ u ∈ f.published, ∀ n, u.seq? = some n → Reached runId f n
  ordered : f.published.Pairwise fun u v => ∀ e, v = shownAs e → ∀ n, u.seq? = some n → n < e.seq
  persisted : ∀ u, f.driver = .persisted u → (∀ n, u.seq? = some n → Reached runId f n) ∧
    ∀ e, u = shownAs e → ∀ v ∈ f.published, ∀ n, v.seq? = some n → n < e.seq

structure Inv (runId : RunId) (f : Feed) : Prop where
  sound : f.broker.store.journal.Sound
  linked : Linked f.broker
  numbered : Numbered f.broker
  published : Published runId f
  cursor : f.viewer.cursor = f.viewer.after ∨ Reached runId f f.viewer.cursor
  monotone : f.viewer.after ≤ f.viewer.cursor
  skipped : ∀ p ∈ f.viewer.skipped, p.2 = false
  staged : Staged runId f

/-- What a step of the others does for the subscriber: a request that is new comes after
everything before it and is ahead of every receiver. -/
structure Extends (runId : RunId) (f f' : Feed) : Prop where
  viewer : f'.viewer = f.viewer
  length : f.published.length ≤ f'.published.length
  ahead : ∀ position e, position ≤ f.published.length → Ahead f position e → Ahead f' position e
  requests : ∀ e ∈ requests runId f', e ∈ requests runId f ∨
    (∀ n, Reached runId f n → n < e.seq) ∧ ∀ position ≤ f.published.length, Ahead f' position e
  reached : ∀ n, Reached runId f n → Reached runId f' n
  lists : ∀ ids, Lists f.broker ids → Lists f'.broker ids

section Extends

variable (hx : Extends runId f f')

include hx

theorem Handled.extends (h : Handled f e) : Handled f' e := by
  rw [Handled, hx.viewer]
  exact h

theorem Caught.extends {receiver : Option Nat} {run : RunRecord}
    (h : Caught runId f receiver run) : Caught runId f' receiver run := by
  intro position hp
  obtain ⟨hlen, hahead⟩ := h position hp
  refine ⟨Nat.le_trans hlen hx.length, fun e he hlast => ?_⟩
  rcases hx.requests e he with he | ⟨-, hnew⟩
  · exact hx.ahead position e hlen (hahead e he hlast)
  · exact hnew position hlen

/-- A new request is above the cursor. -/
theorem passed_extends (hc : f.viewer.cursor = f.viewer.after ∨ Reached runId f f.viewer.cursor)
    (h : ∀ e ∈ Feed.requests runId f, f.viewer.after < e.seq → e.seq ≤ f.viewer.cursor →
      Handled f e) :
    ∀ e ∈ Feed.requests runId f', f'.viewer.after < e.seq → e.seq ≤ f'.viewer.cursor →
      Handled f' e := by
  intro e he ha hle
  rw [hx.viewer] at ha hle
  rcases hx.requests e he with he | ⟨hnew, -⟩
  · exact (h e he ha hle).extends hx
  · rcases hc with hc | hc
    · omega
    · have := hnew _ hc
      omega

theorem Replaying.extends (hc : f.viewer.cursor = f.viewer.after ∨ Reached runId f f.viewer.cursor)
    {receiver : Option Nat} {ids : Snapshot} {rest : List StoredEvent}
    (h : Replaying runId f receiver ids rest) : Replaying runId f' receiver ids rest where
  lists := hx.lists ids h.lists
  sorted := h.sorted
  above := by
    intro x hxr
    rw [hx.viewer]
    exact ⟨(h.above x hxr).1, hx.reached _ (h.above x hxr).2⟩
  passed := passed_extends hx hc h.passed
  bound := fun position hp => Nat.le_trans (h.bound position hp) hx.length
  cover := by
    intro e he ha hlt
    rw [hx.viewer] at ha hlt
    rcases hx.requests e he with he | ⟨hnew, hahead⟩
    · rcases h.cover e he ha hlt with hr | ⟨hr, hp⟩
      · exact .inl hr
      · exact .inr ⟨hr, fun position e' => hx.ahead position e (h.bound position e') (hp position e')⟩
    · exact .inr ⟨fun x hxr => hnew _ (h.above x hxr).2,
        fun position e' => hahead position (h.bound position e')⟩

theorem Following.extends (hc : f.viewer.cursor = f.viewer.after ∨ Reached runId f f.viewer.cursor)
    {position : Nat} (h : Following runId f position) : Following runId f' position where
  bound := Nat.le_trans h.bound hx.length
  passed := passed_extends hx hc h.passed
  ahead := by
    intro e he ha hlt
    rw [hx.viewer] at ha hlt
    rcases hx.requests e he with he | ⟨-, hahead⟩
    · exact hx.ahead position e h.bound (h.ahead e he ha hlt)
    · exact hahead position h.bound

theorem Staged.extends (hc : f.viewer.cursor = f.viewer.after ∨ Reached runId f f.viewer.cursor)
    (h : Staged runId f) : Staged runId f' := by
  unfold Staged at h ⊢
  rw [hx.viewer]
  split at h
  · exact h
  · exact ⟨h.1, fun position hp => Nat.le_trans (h.2 position hp) hx.length⟩
  · exact ⟨h.1, h.2.extends hx⟩
  · exact ⟨h.1, h.2.1.extends hx, hx.lists _ h.2.2⟩
  · exact Replaying.extends hx hc h
  · exact Following.extends hx hc h
  · trivial

end Extends

/-! ## The steps of the others -/

theorem name_inj {kind : EventKind} (h : kind.name = "approval_required") :
    kind = .approvalRequired := by
  cases kind <;> simp_all [EventKind.name]

theorem quiet_isRequest (runId : RunId) : RunStore.Quiet fun e => isRequest runId e = false := by
  intro e he
  simp [isRequest, he]

/-- The broker leaves the requests in the log and the channel as they are. -/
theorem inv_broker (h : Inv runId f) {a : Action} (ha : foreign runId a = true)
    (queue : List PendingApprovalInfo) :
    Inv runId { f with broker := f.broker.next a, queue } := by
  have hg := next_store (quiet_isRequest runId) f.broker a (by
    intro op hop id hid n data
    subst hop
    have hne : id ≠ runId := by
      rintro rfl
      simp [foreign, hid] at ha
    simp [isRequest, hne])
  have hreq : requests runId { f with broker := f.broker.next a, queue } = requests runId f :=
    hg.filter_events fun _ he => he
  have hreach : ∀ n, Reached runId f n →
      Reached runId { f with broker := f.broker.next a, queue } n := fun n hn => hn.grows h.sound hg
  have hx : Extends runId f { f with broker := f.broker.next a, queue } := by
    refine ⟨rfl, Nat.le_refl _, fun _ _ _ ha => ha, ?_, hreach,
      fun ids hl => hl.next h.linked h.numbered a⟩
    intro e he
    rw [hreq] at he
    exact .inl he
  refine ⟨h.sound.grows hg, h.linked.next a, h.numbered.next a, ?_, h.cursor.imp_right (hreach _),
    h.monotone, h.skipped, h.staged.extends hx h.cursor⟩
  refine ⟨fun u hu n hn => hreach n (h.published.reached u hu n hn), h.published.ordered, ?_⟩
  intro u hu
  obtain ⟨hr, ho⟩ := h.published.persisted u hu
  exact ⟨fun n hn => hreach n (hr n hn), ho⟩

theorem persist_cases (runId : RunId) (f : Feed) (kind : EventKind) (data : Json) (fails : Bool) :
    f.persist runId kind data fails = f ∨ ∃ seq store,
      f.broker.store.appendEvent runId kind.name data = .ok (seq, store) ∧
      f.persist runId kind data fails = { f with
        broker := { f.broker with store }
        driver := .persisted (.event kind data (some runId) (some seq)) } := by
  unfold persist
  split
  · exact .inl rfl
  · cases fails with
    | true => exact .inl rfl
    | false =>
      simp only [Bool.false_eq_true, if_false]
      split
      · exact .inl rfl
      · rename_i seq store hok
        exact .inr ⟨seq, store, hok, rfl⟩

theorem Inv.withQueue (h : Inv runId f) (queue : List PendingApprovalInfo) :
    Inv runId { f with queue } :=
  have hx : Extends runId f { f with queue } :=
    ⟨rfl, Nat.le_refl _, fun _ _ _ ha => ha, fun _ he => .inl he, fun _ hn => hn, fun _ hl => hl⟩
  ⟨h.sound, h.linked, h.numbered, ⟨h.published.reached, h.published.ordered, h.published.persisted⟩,
    h.cursor, h.monotone, h.skipped, h.staged.extends hx h.cursor⟩

/-- A stored event comes after everything before it; a request is about to be broadcast. -/
theorem inv_persist (h : Inv runId f) (hidle : f.driver = .idle) (kind : EventKind) (data : Json)
    (fails : Bool) : Inv runId (f.persist runId kind data fails) := by
  rcases persist_cases runId f kind data fails with hsame | ⟨seq, store, hok, hstep⟩
  · rw [hsame]
    exact h
  rw [hstep]
  obtain ⟨m, rfl, hm, hruns, hevents⟩ := RunStore.appendEvent_journal hok
  have hsound : store.journal.Sound :=
    h.sound.grows (q := fun _ => True) (RunStore.appendEvent_grows hok .refl fun _ => trivial)
  have hlt : ∀ n, Reached runId f n → n < m + 1 := fun n hn =>
    Nat.lt_succ_of_le (hn.le h.sound hm)
  have hnew : store.journal.Below runId (m + 1) := by
    have he : (⟨runId, m + 1, kind.name, data⟩ : StoredEvent) ∈ store.journal.events := by
      rw [hevents]
      exact List.mem_append_right _ (List.mem_singleton.mpr rfl)
    exact hsound.below_event he
  have hreach : ∀ n, Reached runId f n → store.journal.Below runId n := by
    intro n hn
    obtain ⟨p, hp, hle⟩ := hnew
    have := hlt n hn
    exact ⟨p, hp, by omega⟩
  have hx : Extends runId f { f with
      broker := { f.broker with store }
      driver := .persisted (.event kind data (some runId) (some (m + 1))) } := by
    refine ⟨rfl, Nat.le_refl _, ?_, ?_, hreach, fun ids hl => hl.withStore store⟩
    · rintro position e - (ha | ha)
      · exact .inl ha
      · rw [hidle] at ha
        cases ha
    · intro e he
      obtain ⟨he, hreq⟩ := List.mem_filter.mp he
      rw [show store.events.rows = _ from hevents] at he
      rcases List.mem_append.mp he with he | he
      · exact .inl (List.mem_filter.mpr ⟨he, hreq⟩)
      · rw [List.mem_singleton.mp he] at hreq ⊢
        simp only [isRequest, Bool.and_eq_true, decide_eq_true_eq] at hreq
        refine .inr ⟨hlt, fun position _ => .inr ?_⟩
        rw [name_inj hreq.2]
        rfl
  refine ⟨hsound, ⟨h.linked.nodup, h.linked.owner, h.linked.fresh⟩, h.numbered.withStore store,
    ⟨?_, h.published.ordered, ?_⟩, h.cursor.imp_right (hreach _), h.monotone,
    h.skipped, h.staged.extends hx h.cursor⟩
  · exact fun u hu n hn => hreach n (h.published.reached u hu n hn)
  · rintro u hu
    cases hu
    refine ⟨fun n hn => ?_, fun e he v hv n hn => ?_⟩
    · cases hn
      exact hnew
    · simp only [shownAs, Update.event.injEq, Option.some.injEq] at he
      rw [← he.2.2.2]
      exact hlt n (h.published.reached v hv n hn)

theorem mem_drop_append {α : Type} {l : List α} {a x : α} {n : Nat} (hn : n ≤ l.length) :
    x ∈ (l ++ [a]).drop n ↔ x ∈ l.drop n ∨ x = a := by
  rw [List.drop_append_of_le_length hn, List.mem_append, List.mem_singleton]

/-- Broadcasting an update: the stored one, or one that is no request and has no later number
than the stored one. -/
theorem inv_broadcast (h : Inv runId f) {u : Update} {driver : Driver}
    (hd : f.driver = .persisted u ∧ driver = .idle ∨ driver = f.driver)
    (hu : ∀ n, u.seq? = some n → Reached runId f n)
    (hreq : ∀ e, u = shownAs e → ∀ v ∈ f.published, ∀ n, v.seq? = some n → n < e.seq)
    (hp : ∀ w, driver = .persisted w → u.seq? = none) :
    Inv runId { f.broadcast u with driver } := by
  have hx : Extends runId f { f.broadcast u with driver } := by
    refine ⟨rfl, ?_, ?_, fun e he => .inl he, fun _ hn => hn, fun _ hl => hl⟩
    · simp [broadcast]
    · rintro position e hle (ha | ha)
      · exact .inl ((mem_drop_append hle).mpr (.inl ha))
      · rcases hd with ⟨hw, rfl⟩ | rfl
        · rw [hw] at ha
          cases ha
          exact .inl ((mem_drop_append hle).mpr (.inr rfl))
        · exact .inr ha
  refine ⟨h.sound, h.linked, h.numbered, ⟨?_, ?_, ?_⟩, h.cursor, h.monotone,
    h.skipped, h.staged.extends hx h.cursor⟩
  · intro v hv n hn
    rcases List.mem_append.mp hv with hv | hv
    · exact h.published.reached v hv n hn
    · rw [List.mem_singleton.mp hv] at hn
      exact hu n hn
  · refine List.pairwise_append.mpr ⟨h.published.ordered, List.pairwise_singleton _ _, ?_⟩
    intro v hv w hw e he n hn
    rw [List.mem_singleton.mp hw] at he
    exact hreq e he v hv n hn
  · intro w hw
    have hsame : f.driver = .persisted w := by
      rcases hd with ⟨-, rfl⟩ | rfl
      · cases hw
      · exact hw
    obtain ⟨hr, ho⟩ := h.published.persisted w hsame
    refine ⟨hr, fun e he v hv n hn => ?_⟩
    rcases List.mem_append.mp hv with hv | hv
    · exact ho e he v hv n hn
    · rw [List.mem_singleton.mp hv, hp w hw] at hn
      cases hn

/-! ## The steps of the subscriber -/

theorem Inv.atStage (h : Inv runId f) {stage : ViewStage} (hs : Staged runId (f.atStage stage)) :
    Inv runId (f.atStage stage) :=
  ⟨h.sound, h.linked, h.numbered, ⟨h.published.reached, h.published.ordered, h.published.persisted⟩,
    h.cursor, h.monotone, h.skipped, hs⟩

theorem Inv.ended (h : Inv runId f) : Inv runId (f.atStage .ended) := h.atStage trivial

theorem reached_request (h : f.broker.store.journal.Sound) (he : e ∈ requests runId f) :
    Reached runId f e.seq := by
  obtain ⟨he, hreq⟩ := List.mem_filter.mp he
  simp only [isRequest, Bool.and_eq_true, decide_eq_true_eq] at hreq
  rw [← hreq.1]
  exact h.below_event he

theorem caught_readRun (h : f.broker.store.journal.Sound) {receiver : Option Nat}
    {run : RunRecord} (hrun : f.broker.store.readRun runId = some run)
    (hr : ∀ position, receiver = some position → position ≤ f.published.length) :
    Caught runId f receiver run := by
  intro position hp
  refine ⟨hr position hp, fun e he hlt => ?_⟩
  obtain ⟨r, hfind, rfl⟩ := RunStore.readRun_eq_some hrun
  have hle := (reached_request h he).le h (RunStore.mem_journal hfind)
  exact absurd hlt (Nat.not_lt_of_le hle)

/-- The page holds every request above the cursor, up to those that come after it and were
stored after the run was read. -/
theorem replaying_page (h : f.broker.store.journal.Sound)
    (hc : f.viewer.cursor = f.viewer.after) {receiver : Option Nat} {run : RunRecord}
    {ids : Snapshot} (hcaught : Caught runId f receiver run) (hl : Lists f.broker ids)
    (hpage : ¬ ((f.broker.store.eventsAfter runId f.viewer.cursor 1000).length = 1000 ∧
      (f.broker.store.eventsAfter runId f.viewer.cursor 1000).getLast?.any (·.seq < run.lastSeq))) :
    Replaying runId f receiver ids (f.broker.store.eventsAfter runId f.viewer.cursor 1000) where
  lists := hl
  sorted := RunStore.eventsAfter_sorted _ _ _ _
  above := by
    intro x hx
    obtain ⟨hx, hid, hlt⟩ := RunStore.mem_of_mem_eventsAfter hx
    exact ⟨hlt, hid ▸ h.below_event hx⟩
  passed := by
    intro e _ ha hle
    omega
  bound := fun position hp => (hcaught position hp).1
  cover := by
    intro e he _ hlt
    have hreq := List.mem_filter.mp he
    simp only [isRequest, Bool.and_eq_true, decide_eq_true_eq] at hreq
    rcases RunStore.eventsAfter_complete 1000 hreq.1 hreq.2.1 hlt with hin | ⟨hfull, hall⟩
    · exact .inl hin
    · refine .inr ⟨hall, fun position hp => (hcaught position hp).2 e he ?_⟩
      -- the page is full, so its last event is not below the counter that was read
      cases hlast : (f.broker.store.eventsAfter runId f.viewer.cursor 1000).getLast? with
      | none =>
        rw [List.getLast?_eq_none_iff] at hlast
        rw [hlast] at hfull
        cases hfull
      | some x =>
        have hx := hall x (List.mem_of_getLast? hlast)
        have hge : ¬ x.seq < run.lastSeq := fun hlt => hpage ⟨hfull, by simp [hlast, hlt]⟩
        omega

theorem storedEventUpdate_request (he : e.event = "approval_required") :
    storedEventUpdate e = some (shownAs e) := by
  simp only [storedEventUpdate, he]
  rfl

theorem event_of_resolved {u : Update} {ids : List InteractionId}
    (hu : storedEventUpdate e = some u) (hres : isResolvedApproval ids u = true) :
    e.event = "approval_required" ∧ ∃ id, approvalOf e.data = some id ∧ id ∉ ids := by
  simp only [storedEventUpdate, Option.map_eq_some_iff] at hu
  obtain ⟨kind, hkind, rfl⟩ := hu
  have hk : kind = .approvalRequired := by
    cases kind <;> simp_all [isResolvedApproval]
  subst hk
  split at hkind
  · cases hkind
  · refine ⟨(EventKind.name_of_ofName? hkind).symm, ?_⟩
    obtain ⟨id, hid, hp⟩ := (Option.any_eq_true ..).mp hres
    exact ⟨id, hid, by simpa using hp⟩

theorem unanswered_eq_true {id : InteractionId} :
    f.unanswered id = true ↔ ∃ e ∈ f.broker.pending, e.info.id = id := by
  rw [unanswered, lookup, List.find?_isSome]
  simp

/-- What a timely replay skips is not pending. -/
theorem skipped_resolved {fails : Bool} {receiver : Option Nat} {run : RunRecord} {ids : Snapshot}
    {rest : List StoredEvent} (hl : Lists f.broker ids) (ht : Timely f (.view fails))
    (hst : f.viewer.stage = .replaying receiver run ids (e :: rest)) {u : Update}
    (hu : storedEventUpdate e = some u) (hres : isResolvedApproval ids.pending u = true) :
    (approvalOf e.data).any f.unanswered = false := by
  obtain ⟨hev, id, hid, hnot⟩ := event_of_resolved hu hres
  rw [hid, Option.any_some]
  by_cases hk : id ∈ ids.known
  · by_contra hp
    obtain ⟨x, hx, rfl⟩ := unanswered_eq_true.mp (by simpa using hp)
    exact hnot (hl.pending x hx hk)
  · exact ht fails receiver run ids e rest id rfl hst hev hid hk

/-- What the cursor has passed after the next event of the replay, when that event is handled. -/
theorem Replaying.passed_cons {receiver : Option Nat} {ids : Snapshot} {rest : List StoredEvent}
    (h : Replaying runId f receiver ids (e :: rest)) (hreq : requests runId f' = requests runId f)
    (hafter : f'.viewer.after = f.viewer.after) (hcursor : f'.viewer.cursor = e.seq)
    (hgrow : ∀ x, Handled f x → Handled f' x) (hnew : e ∈ requests runId f → Handled f' e) :
    ∀ x ∈ requests runId f', f'.viewer.after < x.seq → x.seq ≤ f'.viewer.cursor →
      Handled f' x := by
  intro x hx ha hle
  rw [hreq] at hx
  rw [hafter] at ha
  rw [hcursor] at hle
  by_cases hold : x.seq ≤ f.viewer.cursor
  · exact hgrow x (h.passed x hx ha hold)
  · rcases h.cover x hx ha (by omega) with hmem | ⟨hall, -⟩
    · rcases List.mem_cons.mp hmem with rfl | hmem
      · exact hnew hx
      · have := (List.pairwise_cons.mp h.sorted).1 x hmem
        omega
    · have := hall e List.mem_cons_self
      omega

/-- The replay after its next event. -/
theorem Replaying.tail {receiver : Option Nat} {ids : Snapshot} {rest : List StoredEvent}
    (h : Replaying runId f receiver ids (e :: rest)) (hbroker : f'.broker = f.broker)
    (hpub : f'.published = f.published) (hdriver : f'.driver = f.driver)
    (hafter : f'.viewer.after = f.viewer.after) (hcursor : f'.viewer.cursor = e.seq)
    (hgrow : ∀ x, Handled f x → Handled f' x) (hnew : e ∈ requests runId f → Handled f' e) :
    Replaying runId f' receiver ids rest where
  lists := hbroker ▸ h.lists
  sorted := (List.pairwise_cons.mp h.sorted).2
  above := by
    intro x hx
    rw [hcursor, Reached, hbroker]
    exact ⟨(List.pairwise_cons.mp h.sorted).1 x hx, (h.above x (List.mem_cons_of_mem _ hx)).2⟩
  passed := h.passed_cons (by rw [requests, requests, hbroker]) hafter hcursor hgrow hnew
  bound := hpub ▸ h.bound
  cover := by
    intro x hx ha hlt
    rw [requests, hbroker] at hx
    rw [hafter] at ha
    rw [hcursor] at hlt
    have hbefore := (h.above e List.mem_cons_self).1
    rcases h.cover x hx ha (by omega) with hmem | ⟨hall, hahead⟩
    · rcases List.mem_cons.mp hmem with rfl | hmem
      · omega
      · exact .inl hmem
    · refine .inr ⟨fun y hy => hall y (List.mem_cons_of_mem _ hy), fun position hp => ?_⟩
      rw [Ahead, hpub, hdriver]
      exact hahead position hp

theorem inv_replay (h : Inv runId f) {fails : Bool} {receiver : Option Nat} {run : RunRecord}
    {ids : Snapshot} {rest : List StoredEvent} (ht : Timely f (.view fails))
    (hst : f.viewer.stage = .replaying receiver run ids (e :: rest)) :
    Inv runId (f.replay receiver run ids e rest fails) := by
  have hr : Replaying runId f receiver ids (e :: rest) := by
    have := h.staged
    simpa only [Staged, hst] using this
  obtain ⟨hlt, hreach⟩ := hr.above e List.mem_cons_self
  have hmono : f.viewer.after ≤ e.seq := Nat.le_trans h.monotone (Nat.le_of_lt hlt)
  have hpub : Published runId f := h.published
  have hrequest : ∀ u, storedEventUpdate e = some u → e ∈ requests runId f → u = shownAs e := by
    intro u hu he
    have hev := (List.mem_filter.mp he).2
    simp only [isRequest, Bool.and_eq_true, decide_eq_true_eq] at hev
    rw [storedEventUpdate_request hev.2] at hu
    exact (Option.some.inj hu).symm
  unfold replay
  dsimp only
  split
  · rename_i hnone
    refine ⟨h.sound, h.linked, h.numbered, ⟨hpub.reached, hpub.ordered, hpub.persisted⟩,
      .inr hreach, hmono, h.skipped, hr.tail rfl rfl rfl rfl rfl (fun _ hx => hx) fun he => ?_⟩
    have hev := (List.mem_filter.mp he).2
    simp only [isRequest, Bool.and_eq_true, decide_eq_true_eq] at hev
    rw [storedEventUpdate_request hev.2] at hnone
    cases hnone
  · rename_i u hu
    split
    · rename_i hres
      have hnot := skipped_resolved hr.lists ht hst hu hres
      refine ⟨h.sound, h.linked, h.numbered, ⟨hpub.reached, hpub.ordered, hpub.persisted⟩,
        .inr hreach, hmono, ?_, hr.tail rfl rfl rfl rfl rfl ?_ ?_⟩
      · intro p hp
        rcases List.mem_append.mp hp with hp | hp
        · exact h.skipped p hp
        · rw [List.mem_singleton.mp hp]
          exact hnot
      · exact fun x hx => hx.imp_right (List.mem_append_left _)
      · intro _
        refine .inr (List.mem_append_right _ ?_)
        rw [List.mem_singleton, Prod.mk.injEq]
        exact ⟨rfl, hnot.symm⟩
    · split
      · exact ⟨h.sound, h.linked, h.numbered, ⟨hpub.reached, hpub.ordered, hpub.persisted⟩,
          .inr hreach, hmono, h.skipped, trivial⟩
      · refine ⟨h.sound, h.linked, h.numbered, ⟨hpub.reached, hpub.ordered, hpub.persisted⟩,
          .inr hreach, hmono, h.skipped, hr.tail rfl rfl rfl rfl rfl ?_ ?_⟩
        · exact fun x hx => hx.imp_left (List.mem_append_left _)
        · intro he
          refine .inl (List.mem_append_right _ ?_)
          rw [List.mem_singleton, hrequest u hu he]

theorem drop_cons_of_getElem? {position : Nat} {u v : Update} (hu : f.published[position]? = some u) :
    v ∈ f.published.drop position ↔ v = u ∨ v ∈ f.published.drop (position + 1) := by
  obtain ⟨hlt, rfl⟩ := List.getElem?_eq_some_iff.mp hu
  rw [List.drop_eq_getElem_cons hlt, List.mem_cons]

/-- Whatever is ahead of the receiver comes after the update it takes. -/
theorem Published.after_taken (h : Published runId f) {position n : Nat} {u : Update}
    (hu : f.published[position]? = some u) (hn : u.seq? = some n) (ha : Ahead f position e) :
    u = shownAs e ∨ n < e.seq ∧ Ahead f (position + 1) e := by
  rcases ha with ha | ha
  · rcases (drop_cons_of_getElem? hu).mp ha with ha | ha
    · exact .inl ha.symm
    · refine .inr ⟨?_, .inl ha⟩
      have hord := h.ordered.sublist (List.drop_sublist position f.published)
      obtain ⟨hlt, rfl⟩ := List.getElem?_eq_some_iff.mp hu
      rw [List.drop_eq_getElem_cons hlt] at hord
      exact (List.pairwise_cons.mp hord).1 _ ha e rfl n hn
  · exact .inr ⟨(h.persisted _ ha).2 e rfl u (List.mem_of_getElem? hu) n hn, .inr ha⟩

theorem Ahead.of_no_seq {position : Nat} {u : Update} (hu : f.published[position]? = some u)
    (hn : u.seq? = none) (ha : Ahead f position e) : Ahead f (position + 1) e := by
  refine ha.imp_left fun ha => ?_
  rcases (drop_cons_of_getElem? hu).mp ha with ha | ha
  · rw [← ha] at hn
    cases hn
  · exact ha

/-- The subscriber after an update it had already replayed. -/
theorem Following.skip (h : Following runId f position) (hp : Published runId f) {n : Nat}
    {u : Update} (hu : f.published[position]? = some u) (hn : u.seq? = some n)
    (hle : n ≤ f.viewer.cursor) : Following runId (f.atStage (.live (position + 1))) (position + 1) where
  bound := Slots.lt_of_some hu
  passed := h.passed
  ahead := by
    intro e he ha hlt
    rcases hp.after_taken hu hn (h.ahead e he ha hlt) with rfl | ⟨-, hahead⟩
    · cases hn
      exact absurd hlt (Nat.not_lt_of_le hle)
    · exact hahead

/-- The subscriber after an update that it passes on. -/
theorem Following.take {position : Nat} (h : Following runId f position) (hp : Published runId f)
    {u : Update} (hu : f.published[position]? = some u)
    (hnew : ¬ u.seq?.any (· ≤ f.viewer.cursor) = true) :
    Following runId (((f.moveCursor (u.seq?.getD f.viewer.cursor)).send u).atStage
      (.live (position + 1))) (position + 1) := by
  have hold : ∀ x, Handled f x → Handled ((f.moveCursor (u.seq?.getD f.viewer.cursor)).send u) x :=
    fun x hx => hx.imp_left (List.mem_append_left _)
  refine ⟨Slots.lt_of_some hu, ?_, ?_⟩
  · intro x hx ha hle
    by_cases hc : x.seq ≤ f.viewer.cursor
    · exact hold x (h.passed x hx ha hc)
    · have hahead := h.ahead x hx ha (by omega)
      cases hn : u.seq? with
      | none =>
        rw [hn] at hle
        exact absurd hle hc
      | some n =>
        rw [hn] at hle
        rcases hp.after_taken hu hn hahead with rfl | ⟨hlt, -⟩
        · exact .inl (List.mem_append_right _ (List.mem_singleton.mpr rfl))
        · exact absurd hle (Nat.not_le_of_lt hlt)
  · intro x hx ha hlt
    cases hn : u.seq? with
    | none =>
      rw [hn] at hlt
      exact (h.ahead x hx ha hlt).of_no_seq hu hn
    | some n =>
      rw [hn] at hlt hnew
      simp only [Option.any_some, decide_eq_true_eq] at hnew
      have hlt' : n < x.seq := hlt
      rcases hp.after_taken hu hn (h.ahead x hx ha (by omega)) with rfl | ⟨-, hahead⟩
      · cases hn
        exact absurd hlt' (Nat.lt_irrefl _)
      · exact hahead

theorem inv_receive (h : Inv runId f) {position : Nat} (hst : f.viewer.stage = .live position)
    (fails : Bool) : Inv runId (f.receive position fails) := by
  have hf : Following runId f position := by
    have := h.staged
    simpa only [Staged, hst] using this
  unfold receive
  split
  · exact h.ended
  split
  · split
    · exact h.ended
    · exact h
  · rename_i u hu
    split
    · rename_i hany
      obtain ⟨n, hn, hle⟩ := (Option.any_eq_true ..).mp hany
      exact h.atStage (hf.skip h.published hu hn (of_decide_eq_true hle))
    · rename_i hnew
      have hcursor : u.seq?.getD f.viewer.cursor = f.viewer.after ∨
          Reached runId f (u.seq?.getD f.viewer.cursor) := by
        cases hn : u.seq? with
        | none => exact h.cursor
        | some n => exact .inr (h.published.reached u (List.mem_of_getElem? hu) n hn)
      have hmono : f.viewer.after ≤ u.seq?.getD f.viewer.cursor := by
        have := h.monotone
        cases hn : u.seq? with
        | none => exact this
        | some n =>
          rw [hn] at hnew
          simp only [Option.any_some, decide_eq_true_eq] at hnew
          show f.viewer.after ≤ n
          omega
      have hmoved : ∀ g : Feed, g.broker = f.broker → g.published = f.published →
          g.driver = f.driver → g.viewer.after = f.viewer.after →
          g.viewer.cursor = u.seq?.getD f.viewer.cursor → g.viewer.skipped = f.viewer.skipped →
          Staged runId g → Inv runId g := by
        intro g hb hp hd ha hc hs hstaged
        refine ⟨hb ▸ h.sound, hb ▸ h.linked, hb ▸ h.numbered, ?_, ?_, ?_, hs ▸ h.skipped, hstaged⟩
        · refine ⟨?_, hp ▸ h.published.ordered, ?_⟩
          · simp only [Reached, hb, hp]
            exact h.published.reached
          · simp only [Reached, hb, hp, hd]
            exact h.published.persisted
        · rw [hc, ha, Reached, hb]
          exact hcursor
        · rw [hc, ha]
          exact hmono
      dsimp only
      split
      · exact hmoved _ rfl rfl rfl rfl rfl rfl trivial
      · split
        · exact hmoved _ rfl rfl rfl rfl rfl rfl trivial
        · exact hmoved _ rfl rfl rfl rfl rfl rfl (hf.take h.published hu hnew)

theorem inv_view (h : Inv runId f) {fails : Bool} (ht : Timely f (.view fails)) :
    Inv runId (f.view runId fails) := by
  have hs := h.staged
  unfold Staged at hs
  unfold view
  cases hst : f.viewer.stage with
  | start =>
    rw [hst] at hs
    refine h.atStage ⟨hs, fun position hp => ?_⟩
    cases hd : f.driver with
    | closed => rw [hd] at hp; cases hp
    | idle => rw [hd] at hp; cases hp; exact Nat.le_refl _
    | persisted u => rw [hd] at hp; cases hp; exact Nat.le_refl _
  | opened receiver =>
    rw [hst] at hs
    dsimp only
    split
    · exact h.ended
    · rename_i run hrun
      refine h.atStage ⟨hs.1, caught_readRun h.sound ?_ hs.2⟩
      cases fails with
      | true => cases hrun
      | false => exact hrun
  | found receiver run =>
    rw [hst] at hs
    exact h.atStage ⟨hs.1, hs.2, lists_snapshot h.linked⟩
  | listed receiver run ids =>
    rw [hst] at hs
    dsimp only
    split
    · exact h.ended
    · split
      · exact h.ended
      · rename_i hpage
        have hr := replaying_page h.sound hs.1 hs.2.1 hs.2.2 hpage
        exact h.atStage ⟨hr.lists, hr.sorted, hr.above, hr.passed, hr.bound, hr.cover⟩
  | replaying receiver run ids rest =>
    cases rest with
    | cons e rest => exact inv_replay h ht hst
    | nil =>
      rw [hst] at hs
      dsimp only at hs ⊢
      cases receiver with
      | none => exact h.ended
      | some position =>
        dsimp only
        split
        · exact h.ended
        · refine h.atStage ⟨hs.bound position rfl, hs.passed, fun e he ha hlt => ?_⟩
          rcases hs.cover e he ha hlt with hmem | ⟨-, hahead⟩
          · exact absurd hmem List.not_mem_nil
          · exact hahead position rfl
  | live position => exact inv_receive h hst fails
  | ended => exact h

/-! ## Every run -/

theorem inv_next (h : Inv runId f) {a : FeedAction} (ht : Timely f a) :
    Inv runId (f.next key runId a) := by
  cases a with
  | broker a =>
    rw [next, stepBroker]
    split
    · rename_i ha
      exact inv_broker h ha _
    · exact h
  | takeApproval fails =>
    rw [next]
    split
    · rename_i info queue hidle hqueue
      exact inv_persist (h.withQueue queue) hidle _ _ _
    · exact h
  | takeEvent kind data fails =>
    rw [next]
    split
    · rename_i hidle
      split
      · exact h
      · exact inv_persist h hidle _ _ _
    · exact h
  | publish =>
    rw [next]
    split
    · rename_i u hu
      obtain ⟨hr, ho⟩ := h.published.persisted u hu
      exact inv_broadcast h (.inl ⟨hu, rfl⟩) hr ho nofun
    · exact h
  | external kind data =>
    rw [next]
    split
    · exact h
    · split
      · exact h
      · refine inv_broadcast h (.inr rfl) nofun ?_ fun _ _ => rfl
        intro e he
        cases he
  | complete content =>
    rw [next]
    split
    · rename_i hidle
      refine inv_broadcast h (.inr rfl) ?_ nofun fun w hw => ?_
      · intro n hn
        obtain ⟨run, hrun, rfl⟩ := Option.map_eq_some_iff.mp hn
        obtain ⟨r, hfind, rfl⟩ := RunStore.readRun_eq_some hrun
        exact ⟨r.lastSeq, RunStore.mem_journal hfind, Nat.sub_le _ _⟩
      · rw [hidle] at hw
        cases hw
    · exact h
  | terminal result =>
    rw [next]
    split
    · exact h
    · exact inv_broadcast h (.inr rfl) nofun nofun fun _ _ => rfl
  | close =>
    rw [next]
    split
    · rename_i hidle
      have hx : Extends runId f { f with driver := .closed } := by
        refine ⟨rfl, Nat.le_refl _, ?_, fun _ he => .inl he, fun _ hn => hn, fun _ hl => hl⟩
        rintro position e - (ha | ha)
        · exact .inl ha
        · rw [hidle] at ha
          cases ha
      exact ⟨h.sound, h.linked, h.numbered, ⟨h.published.reached, h.published.ordered, nofun⟩,
        h.cursor, h.monotone, h.skipped, h.staged.extends hx h.cursor⟩
    · exact h
  | view fails => exact inv_view h ht

theorem inv_init {store : RunStore} (hs : store.journal.Sound) (after : Nat) :
    Inv runId (init store after) where
  sound := hs
  linked := linked_init store
  numbered := numbered_init store
  published := ⟨nofun, List.Pairwise.nil, nofun⟩
  cursor := .inl rfl
  monotone := Nat.le_refl _
  skipped := nofun
  staged := rfl

theorem Inv.shown (h : Inv runId f) : Shown runId f := by
  have hs := h.staged
  have hc := h.monotone
  unfold Staged at hs
  refine ⟨h.skipped, ?_, ?_, ?_⟩
  · intro hne e he ha hle
    cases hst : f.viewer.stage with
    | ended => exact absurd hst hne
    | replaying receiver run ids rest =>
      rw [hst] at hs
      exact hs.passed e he ha hle
    | live position =>
      rw [hst] at hs
      exact hs.passed e he ha hle
    | start => rw [hst] at hs; dsimp only at hs; omega
    | opened receiver => rw [hst] at hs; dsimp only at hs; omega
    | found receiver run => rw [hst] at hs; dsimp only at hs; omega
    | listed receiver run ids => rw [hst] at hs; dsimp only at hs; omega
  · intro position run ids rest hst e he ha hlt
    rw [hst] at hs
    exact (hs.cover e he ha hlt).imp_right fun h => h.2 position rfl
  · intro position hst e he ha hlt
    rw [hst] at hs
    exact hs.ahead e he ha hlt

/-- A replay that is not timely hides an unanswered approval. -/
theorem not_shown_of_late (h : Inv runId f) {a : FeedAction} (ht : ¬ Timely f a) :
    ¬ Shown runId (f.next key runId a) := by
  simp only [Timely, not_forall] at ht
  obtain ⟨fails, receiver, run, ids, e, rest, id, rfl, hst, hev, hid, hk, hp⟩ := ht
  rw [Bool.not_eq_false] at hp
  have hr : Replaying runId f receiver ids (e :: rest) := by
    have := h.staged
    simpa only [Staged, hst] using this
  have hres : isResolvedApproval ids.pending (shownAs e) = true := by
    simp only [isResolvedApproval, shownAs, hid, Option.any_some, decide_eq_true_eq]
    exact fun hmem => hk (hr.lists.known id hmem)
  intro hshown
  have hmem : (e, true) ∈ (f.next key runId (.view fails)).viewer.skipped := by
    simp only [next, view, hst, replay, storedEventUpdate_request hev, hres, if_true]
    refine List.mem_append_right _ (List.mem_singleton.mpr ?_)
    rw [hid, Option.any_some]
    exact congrArg (e, ·) hp.symm
  cases hshown.skipped _ hmem

/-- **Subscription.** In every state of a run the subscriber gets every request for an approval,
just when every step of the replay is timely. -/
theorem shown_iff (key : ActiveKey) (runId : RunId) (ops : List Op) (after : Nat)
    (run : List FeedAction) :
    (∀ pre post, run = pre ++ post →
      Shown runId (Transition.after (Feed.next key runId) (init (storeAfter ops) after) pre)) ↔
    Along (Feed.next key runId) Timely (init (storeAfter ops) after) run := by
  have hinit : Inv runId _ := inv_init (journal_sound ops) after
  constructor
  · generalize init (storeAfter ops) after = f at hinit
    intro hall
    induction run generalizing f with
    | nil => trivial
    | cons a run ih =>
      have ht : Timely f a := by
        by_contra ht
        exact not_shown_of_late hinit ht (hall [a] run rfl)
      refine ⟨ht, ih _ (inv_next hinit ht) fun pre post e => ?_⟩
      exact hall (a :: pre) post (by rw [e]; rfl)
  · rintro ht pre post rfl
    exact Inv.shown (after_induct (I := Inv runId) (fun _ _ h ht => inv_next h ht) hinit
      (along_append.mp ht).1)

/-! ## An approval between the pending ids and the page -/

def lateKey : ActiveKey := ⟨⟨"s"⟩, .number 1⟩

/-- A chat request that was admitted and started: events 1 and 2 of `run-1`. -/
def lateOps : List Op :=
  [.admitWithRoute lateKey.sessionId lateKey.requestId "hi" .queue none 0,
    .tryStartQueued (runIdOf 1) fun _ => 0]

/-- The subscriber has read the pending ids when the run asks for an approval, and reads the
events once the request is stored and broadcast; then it follows the channel to its end. -/
def lateRun : List FeedAction :=
  [.view false, .view false, .view false,
    .broker (.request lateKey.requestId (some lateKey.sessionId) "rm -rf build" 7 9),
    .broker (.register 0), .broker (.sendFrame 0 true), .takeApproval false, .publish,
    .view false, .view false, .view false, .view false]

def lateFeed : Feed := after (Feed.next lateKey (runIdOf 1)) (init (storeAfter lateOps) 2) lateRun

/-- The subscriber was sent nothing, while the approval waits for an answer. -/
theorem not_shown_lateApproval :
    lateFeed.viewer.sent.isEmpty ∧ lateFeed.unanswered (approvalId 7 9 0) ∧
      ¬ Shown (runIdOf 1) lateFeed := by
  refine ⟨by decide +kernel, by decide +kernel, fun h => ?_⟩
  have hskipped : lateFeed.viewer.skipped.map Prod.snd = [true] := by decide +kernel
  obtain ⟨p, hp, hpt⟩ := List.mem_map.mp (hskipped ▸ List.mem_singleton.mpr rfl)
  rw [h.skipped p hp] at hpt
  cases hpt

end Feed

end AgentDaemon.Daemon
