import AgentDaemon.Daemon.Course
import AgentDaemon.Lib.Numbers

/-!
The handover from the replay to the channel. Every event of the log is either up to the cursor of
the subscriber, and then it was sent if clients are to see it, or in the rest of the page, or the
channel still carries it (`Follows`).
-/

namespace AgentDaemon.Daemon

open Storage Transition Numbers

namespace Feed

variable {runId : RunId} {f : Feed} {e : StoredEvent} {n : Nat}

/-- The subscriber is to see the event: it asked for it, and the replay did not withhold it. -/
def visible (f : Feed) (e : StoredEvent) : Bool :=
  shown e && f.viewer.after < e.seq && (e.seq ∉ f.viewer.skipped.map fun p => p.1.seq)

/-- What the subscriber is to see of the log up to a number. -/
def due (runId : RunId) (f : Feed) (n : Nat) : List StoredEvent :=
  (upTo StoredEvent.seq n (log runId f)).filter (visible f)

/-- The numbered updates that were sent show just the events that are due. -/
def SentUpTo (runId : RunId) (f : Feed) (n : Nat) : Prop :=
  f.viewer.sent.filter (·.seq?.isSome) = updates (due runId f n)

/-- The cursor of a `resync_required` answer. -/
def resync? (runId : RunId) (f : Feed) (fails : Bool) : Option Nat :=
  match f.viewer.stage with
  | .listed _ run _ =>
    let events := f.broker.store.eventsAfter runId f.viewer.cursor 1000
    if ¬ fails ∧ events.length = 1000 ∧ events.getLast?.any (·.seq < run.lastSeq) then
      some ((events.getLast?.map StoredEvent.seq).getD f.viewer.cursor)
    else none
  | .live position =>
    if position + channelCapacity < f.published.length then some f.viewer.cursor else none
  | _ => none

/-- Nothing is due of what the subscriber did not ask for. -/
theorem due_after (runId : RunId) (f : Feed) : due runId f f.viewer.after = [] := by
  refine List.filter_eq_nil_iff.mpr fun e he hv => ?_
  simp [visible, Nat.not_lt_of_le (mem_upTo.mp he).2] at hv

/-- Above the cursor nothing was withheld. -/
theorem visible_of_lt (hshown : shown e = true)
    (hskipped : ∀ p ∈ f.viewer.skipped, p.1.seq ≤ f.viewer.cursor)
    (hmono : f.viewer.after ≤ f.viewer.cursor) (hlt : f.viewer.cursor < e.seq) :
    visible f e = true := by
  have hnot : e.seq ∉ f.viewer.skipped.map fun p => p.1.seq := by
    intro hmem
    obtain ⟨p, hp, hseq⟩ := List.mem_map.mp hmem
    exact Nat.not_lt_of_le (hseq ▸ hskipped p hp) hlt
  rw [visible, hshown, decide_eq_true (Nat.lt_of_le_of_lt hmono hlt), decide_eq_true hnot]
  rfl

/-- Such an answer ends the subscription. -/
theorem view_of_resync {fails : Bool} {cursor : Nat} (h : f.resync? runId fails = some cursor) :
    f.view runId fails = f.atStage .ended := by
  rw [view]
  cases hst : f.viewer.stage with
  | listed receiver run ids =>
    rw [resync?, hst] at h
    obtain ⟨⟨-, hpage⟩, -⟩ := Option.ite_none_right_eq_some.mp h
    simp only [hpage, and_self, if_true, ite_self]
  | live position =>
    rw [resync?, hst] at h
    obtain ⟨hlag, -⟩ := Option.ite_none_right_eq_some.mp h
    dsimp only
    rw [receive, if_pos hlag]
  | _ =>
    rw [resync?, hst] at h
    cases h

/-- The replay reaches a request that entered the broker after the pending ids were read and is
still unanswered. -/
def late (f : Feed) : FeedAction → Bool
  | .view _ =>
    match f.viewer.stage with
    | .replaying _ _ ids (e :: _) => e.event = "approval_required" &&
      (approvalOf e.data).any fun id => id ∉ ids.known && f.unanswered id
    | _ => false
  | _ => false

theorem timely_iff {a : FeedAction} : Timely f a ↔ f.late a = false := by
  constructor
  · intro h
    cases a with
    | view fails =>
      rw [late]
      split
      · rename_i receiver run ids e rest hst
        by_contra hlate
        simp only [Bool.not_eq_false, Bool.and_eq_true, decide_eq_true_eq] at hlate
        obtain ⟨hev, hany⟩ := hlate
        obtain ⟨id, hid, hpending⟩ := (Option.any_eq_true ..).mp hany
        simp only [Bool.and_eq_true, decide_eq_true_eq] at hpending
        have hanswered := h fails receiver run ids e rest id rfl hst hev hid hpending.1
        cases hanswered.symm.trans hpending.2
      · rfl
    | _ => rfl
  · rintro h fails receiver run ids e rest id rfl hst hev hid hk
    simpa [late, hst, hev, hid, hk] using h

/-! ## The log in order -/

theorem seq_le_of_readRun (hs : f.broker.store.journal.Sound) {run : RunRecord}
    (hrun : f.broker.store.readRun runId = some run) (he : e ∈ log runId f) :
    e.seq ≤ run.lastSeq := by
  obtain ⟨he, hid⟩ := mem_log.mp he
  obtain ⟨r, hfind, rfl⟩ := RunStore.readRun_eq_some hrun
  exact (hid ▸ hs.below_event he : Reached runId f e.seq).le hs (RunStore.mem_journal hfind)

theorem eventsAbove_eq (h : f.broker.store.journal.Ordered runId) (after : Nat) :
    f.broker.store.eventsAbove runId after = above StoredEvent.seq after (log runId f) := by
  have hfilter : (f.broker.store.events.rows.filter fun e => e.runId = runId && e.seq > after) =
      above StoredEvent.seq after (log runId f) := by
    rw [above, log, List.filter_filter]
    refine List.filter_congr fun e _ => ?_
    rw [Bool.and_comm]
  rw [RunStore.eventsAbove, hfilter]
  have hasc : Ascending StoredEvent.seq (log runId f) := h
  refine List.mergeSort_of_pairwise ((hasc.above after).imp fun hlt => ?_)
  exact decide_eq_true (Nat.le_of_lt hlt)

end Feed

namespace Course

open Feed

variable {key : ActiveKey} {runId : RunId} {c c' : Course}

/-- The channel from the position on carries the events of the driver, but for some first ones that
have all passed. -/
def Tracks (runId : RunId) (c : Course) (position : Nat) (passed : StoredEvent → Prop) : Prop :=
  ∃ old new, (log runId c.feed).filter own = old ++ new ∧
    c.stream runId position = updates new ∧ ∀ e ∈ old, passed e

variable {position : Nat} {passed : StoredEvent → Prop}

theorem Tracks.imp {passed' : StoredEvent → Prop} (h : Tracks runId c position passed)
    (himp : ∀ e ∈ log runId c.feed, passed e → passed' e) : Tracks runId c position passed' := by
  obtain ⟨old, new, hlog, hstream, hold⟩ := h
  refine ⟨old, new, hlog, hstream, fun e he => himp e ?_ (hold e he)⟩
  have hmem : e ∈ (log runId c.feed).filter own := hlog ▸ List.mem_append_left _ he
  exact (List.mem_filter.mp hmem).1

theorem Tracks.advance {new : List StoredEvent} (h : Tracks runId c position passed)
    (hp : position ≤ c.feed.published.length) (hx : Advance runId c c' new) :
    Tracks runId c' position passed := by
  obtain ⟨old, fresh, hlog, hstream, hold⟩ := h
  refine ⟨old, fresh ++ new.filter own, ?_, ?_, hold⟩
  · rw [hx.log, List.filter_append, hlog, List.append_assoc]
  · rw [hx.stream position hp, hstream, updates_append]

theorem stream_drop (c : Course) (position : Nat) :
    c.stream runId 0 = (c.feed.published.take position).filter (·.seq?.isSome) ++
      c.stream runId position := by
  have hsplit := List.take_append_drop position c.feed.published
  rw [stream, stream, List.drop_zero, ← List.filter_append, ← List.append_assoc, hsplit]

/-- A later receiver gets the later events. -/
theorem Tracks.later (h : Tracks runId c 0 passed) (position : Nat) :
    Tracks runId c position fun _ => True := by
  obtain ⟨old, new, hlog, hstream, -⟩ := h
  rw [stream_drop c position] at hstream
  obtain ⟨front, back, rfl, -, hback⟩ := List.filterMap_eq_append_iff.mp hstream.symm
  exact ⟨old ++ front, back, by rw [hlog, List.append_assoc], hback.symm, fun _ _ => trivial⟩

/-! ## What holds at each stage -/

/-- The receiver gets every event of the driver above the counter that was read with the run. -/
def Receives (runId : RunId) (c : Course) (receiver : Option Nat) (run : RunRecord) : Prop :=
  Reached runId c.feed run.lastSeq ∧ ∀ position, receiver = some position →
    position ≤ c.feed.published.length ∧ Tracks runId c position (·.seq ≤ run.lastSeq)

/-- What the log has above the cursor is the rest of the page, and then events of the driver that
the receiver gets. -/
def Reads (runId : RunId) (c : Course) (run : RunRecord) (rest : List StoredEvent) : Prop :=
  ∃ later, above StoredEvent.seq c.feed.viewer.cursor (log runId c.feed) = rest ++ later ∧
    ∀ e ∈ later, run.lastSeq < e.seq ∧ delegated e = false

def Handing (runId : RunId) (c : Course) : Prop :=
  match c.feed.viewer.stage with
  | .start | .ended => True
  | .opened receiver => ∀ position, receiver = some position →
    position ≤ c.feed.published.length ∧ Tracks runId c position fun _ => True
  | .found receiver run | .listed receiver run _ => Receives runId c receiver run
  | .replaying receiver run _ rest => Receives runId c receiver run ∧ Reads runId c run rest
  | .live position => position ≤ c.feed.published.length ∧
    Tracks runId c position (·.seq ≤ c.feed.viewer.cursor) ∧
    ∀ e ∈ log runId c.feed, c.feed.viewer.cursor < e.seq → delegated e = false

structure Follows (runId : RunId) (c : Course) : Prop where
  ordered : c.feed.broker.store.journal.Ordered runId
  phased : c.Phased runId
  tracks : Tracks runId c 0 fun _ => True
  response : ∀ position u, c.feed.published[position]? = some u → u.isTerminal = true →
    c.phase = .finished ∧ c.stream runId position = []
  skipped : ∀ p ∈ c.feed.viewer.skipped, p.1.seq ≤ c.feed.viewer.cursor
  sent : ∃ n, (n = c.feed.viewer.after ∨ Reached runId c.feed n) ∧
    (c.feed.viewer.stage ≠ .ended → n = c.feed.viewer.cursor) ∧ SentUpTo runId c.feed n
  handing : Handing runId c

/-! ## Steps of others -/

theorem Advance.length {new : List StoredEvent} (hx : Advance runId c c' new) :
    c.feed.published.length ≤ c'.feed.published.length := by
  rcases hx.published with hp | ⟨u, hp, -⟩
  · exact Nat.le_of_eq (congrArg List.length hp.symm)
  · rw [hp, List.length_append]
    exact Nat.le_add_right _ _

theorem Receives.advance {receiver : Option Nat} {run : RunRecord} {new : List StoredEvent}
    (h : Receives runId c receiver run) (hs : c.feed.broker.store.journal.Sound)
    (hx : Advance runId c c' new) : Receives runId c' receiver run := by
  refine ⟨h.1.grows hs hx.grows, fun position hp => ?_⟩
  obtain ⟨hlen, htracks⟩ := h.2 position hp
  exact ⟨Nat.le_trans hlen hx.length, htracks.advance hlen hx⟩

/-- New events come behind the page. -/
theorem Reads.advance {receiver : Option Nat} {run : RunRecord} {rest new : List StoredEvent}
    (h : Reads runId c run rest) (hr : Receives runId c receiver run) (hx : Advance runId c c' new)
    (hnew : ∀ e ∈ new, delegated e = false) : Reads runId c' run rest := by
  obtain ⟨later, hlog, hlater⟩ := h
  refine ⟨later ++ above StoredEvent.seq c.feed.viewer.cursor new, ?_, ?_⟩
  · rw [hx.viewer, hx.log, above_append, hlog, List.append_assoc]
  · intro e he
    rcases List.mem_append.mp he with he | he
    · exact hlater e he
    · have hmem := (mem_above.mp he).1
      exact ⟨hx.later e hmem _ hr.1, hnew e hmem⟩

/-- The subscriber has read its page. -/
def reading (stage : ViewStage) : Bool :=
  match stage with
  | .replaying .. | .live _ => true
  | _ => false

theorem Handing.advance {new : List StoredEvent} (h : Handing runId c)
    (hs : c.feed.broker.store.journal.Sound) (hx : Advance runId c c' new)
    (hnew : reading c.feed.viewer.stage = true → ∀ e ∈ new, delegated e = false) :
    Handing runId c' := by
  unfold Handing at h ⊢
  rw [hx.viewer]
  cases hst : c.feed.viewer.stage with
  | start => trivial
  | ended => trivial
  | opened receiver =>
    rw [hst] at h
    intro position hp
    obtain ⟨hlen, htracks⟩ := h position hp
    exact ⟨Nat.le_trans hlen hx.length, htracks.advance hlen hx⟩
  | found receiver run =>
    rw [hst] at h
    exact h.advance hs hx
  | listed receiver run ids =>
    rw [hst] at h
    exact h.advance hs hx
  | replaying receiver run ids rest =>
    rw [hst] at h hnew
    exact ⟨h.1.advance hs hx, h.2.advance h.1 hx (hnew rfl)⟩
  | live position =>
    rw [hst] at h hnew
    obtain ⟨hlen, htracks, hfree⟩ := h
    refine ⟨Nat.le_trans hlen hx.length, htracks.advance hlen hx, fun e he hlt => ?_⟩
    rw [hx.log] at he
    rcases List.mem_append.mp he with he | he
    · exact hfree e he hlt
    · exact hnew rfl e he

/-- What is new is not due up to a number that was reached before. -/
theorem due_advance {new : List StoredEvent} (hx : Advance runId c c' new) {n : Nat}
    (hn : n = c.feed.viewer.after ∨ Reached runId c.feed n) :
    due runId c'.feed n = due runId c.feed n := by
  have hvisible : visible c'.feed = visible c.feed := by
    funext e
    rw [visible, visible, hx.viewer]
  have hnone : (upTo StoredEvent.seq n new).filter (visible c.feed) = [] := by
    refine List.filter_eq_nil_iff.mpr fun e he hv => ?_
    obtain ⟨he, hle⟩ := mem_upTo.mp he
    rcases hn with rfl | hn
    · simp [visible, Nat.not_lt_of_le hle] at hv
    · exact Nat.not_lt_of_le hle (hx.later e he n hn)
  rw [due, due, hx.log, hvisible, upTo_append, List.filter_append, hnone, List.append_nil]

theorem response_advance {new : List StoredEvent} (hx : Advance runId c c' new)
    (h : ∀ position u, c.feed.published[position]? = some u → u.isTerminal = true →
      c.phase = .finished ∧ c.stream runId position = []) (position : Nat) (u : Update)
    (hu : c'.feed.published[position]? = some u) (hterm : u.isTerminal = true) :
    c'.phase = .finished ∧ c'.stream runId position = [] := by
  have hold : c.feed.published[position]? = some u →
      c'.phase = .finished ∧ c'.stream runId position = [] := by
    intro hu
    obtain ⟨hover, hnone⟩ := h position u hu hterm
    obtain ⟨hover, hnew⟩ := hx.finished hover
    rw [hx.stream position (Nat.le_of_lt (List.getElem?_eq_some_iff.mp hu).1), hnone, hnew]
    exact ⟨hover, rfl⟩
  rcases hx.published with hp | ⟨v, hp, hlast⟩
  · exact hold (hp ▸ hu)
  · rw [hp] at hu
    by_cases hlt : position < c.feed.published.length
    · rw [List.getElem?_append_left hlt] at hu
      exact hold hu
    · rw [List.getElem?_append_right (Nat.le_of_not_lt hlt)] at hu
      rw [List.getElem?_singleton] at hu
      split at hu
      · rename_i hzero
        cases hu
        obtain ⟨hover, hnone⟩ := hlast hterm
        have hfirst : position = c.feed.published.length :=
          Nat.le_antisymm (Nat.sub_eq_zero_iff_le.mp hzero) (Nat.le_of_not_lt hlt)
        refine ⟨hover, ?_⟩
        rw [stream, hp, hnone, hfirst, List.drop_left]
        cases u with
        | event => cases hterm
        | terminal => rfl
      · cases hu

theorem Follows.advance {new : List StoredEvent} (h : Follows runId c)
    (hs : c.feed.broker.store.journal.Sound) (hx : Advance runId c c' new)
    (hphased : c'.Phased runId)
    (hnew : reading c.feed.viewer.stage = true → ∀ e ∈ new, delegated e = false) :
    Follows runId c' where
  ordered := h.ordered.grows hs hx.grows
  phased := hphased
  tracks := h.tracks.advance (Nat.zero_le _) hx
  response := response_advance hx h.response
  skipped := by
    rw [hx.viewer]
    exact h.skipped
  sent := by
    obtain ⟨n, hn, hcursor, hsent⟩ := h.sent
    rw [hx.viewer]
    refine ⟨n, hn.imp_right fun hr => hr.grows hs hx.grows, hcursor, ?_⟩
    rw [SentUpTo, due_advance hx hn, hx.viewer]
    exact hsent
  handing := h.handing.advance hs hx hnew

/-! ## Steps of the subscriber -/

theorem Follows.view (h : Follows runId c) {f : Feed} (hbroker : f.broker = c.feed.broker)
    (hpublished : f.published = c.feed.published) (hdriver : f.driver = c.feed.driver)
    (hskipped : ∀ p ∈ f.viewer.skipped, p.1.seq ≤ f.viewer.cursor)
    (hsent : ∃ n, (n = f.viewer.after ∨ Reached runId f n) ∧
      (f.viewer.stage ≠ .ended → n = f.viewer.cursor) ∧ SentUpTo runId f n)
    (hhanding : Handing runId ⟨f, c.phase⟩) : Follows runId ⟨f, c.phase⟩ := by
  obtain ⟨broker, queue, driver, published, viewer⟩ := f
  dsimp only at hbroker hpublished hdriver
  subst hbroker hpublished hdriver
  exact ⟨h.ordered, ⟨h.phased.busy, h.phased.idle, h.phased.ended, h.phased.ongoing⟩, h.tracks,
    h.response, hskipped, hsent, hhanding⟩

theorem Follows.atStage (h : Follows runId c) (hconnected : c.feed.viewer.stage ≠ .ended)
    {stage : ViewStage} (hhanding : Handing runId ⟨c.feed.atStage stage, c.phase⟩) :
    Follows runId ⟨c.feed.atStage stage, c.phase⟩ := by
  obtain ⟨n, hn, hcursor, hsent⟩ := h.sent
  exact h.view rfl rfl rfl h.skipped ⟨n, hn, fun _ => hcursor hconnected, hsent⟩ hhanding

theorem Follows.ended (h : Follows runId c) (hconnected : c.feed.viewer.stage ≠ .ended) :
    Follows runId ⟨c.feed.atStage .ended, c.phase⟩ := h.atStage hconnected trivial

theorem Follows.ascending (h : Follows runId c) : Ascending StoredEvent.seq (log runId c.feed) :=
  h.ordered

/-- Behind a page that ends the replay the receiver gets everything. -/
theorem reads_page (h : Follows runId c) {run : RunRecord}
    (hpage : ¬ ((c.feed.broker.store.eventsAfter runId c.feed.viewer.cursor 1000).length = 1000 ∧
      (c.feed.broker.store.eventsAfter runId c.feed.viewer.cursor 1000).getLast?.any
        (·.seq < run.lastSeq)))
    (hbehind : ∀ e ∈ (above StoredEvent.seq c.feed.viewer.cursor (log runId c.feed)).drop 1000,
      delegated e = false) :
    Reads runId c run (c.feed.broker.store.eventsAfter runId c.feed.viewer.cursor 1000) := by
  have hevents : c.feed.broker.store.eventsAfter runId c.feed.viewer.cursor 1000 =
      (above StoredEvent.seq c.feed.viewer.cursor (log runId c.feed)).take 1000 := by
    rw [RunStore.eventsAfter_eq, eventsAbove_eq h.ordered, Nat.min_self]
  rw [hevents] at hpage ⊢
  refine ⟨_, (List.take_append_drop 1000 _).symm, fun e he => ⟨?_, hbehind e he⟩⟩
  exact lt_of_mem_drop (h.ascending.above _) (by decide) hpage he

/-- The receiver gets what is behind the page. -/
theorem live_handing {run : RunRecord} {receiver : Option Nat}
    (hr : Receives runId c receiver run) (hreads : Reads runId c run []) {position : Nat}
    (hp : receiver = some position) :
    Handing runId ⟨c.feed.atStage (.live position), c.phase⟩ := by
  obtain ⟨hlen, htracks⟩ := hr.2 position hp
  obtain ⟨later, hlog, hlater⟩ := hreads
  have hbehind : ∀ e ∈ log runId c.feed, c.feed.viewer.cursor < e.seq →
      run.lastSeq < e.seq ∧ delegated e = false := by
    intro e he hlt
    have hmem := mem_above.mpr ⟨he, hlt⟩
    rw [hlog] at hmem
    exact hlater e hmem
  refine ⟨hlen, htracks.imp fun e he hle => ?_, fun e he hlt => (hbehind e he hlt).2⟩
  by_contra hlt
  exact Nat.not_lt_of_le hle (hbehind e he (Nat.lt_of_not_le hlt)).1

/-! ## The replay -/

/-- An event that is handed over is due if clients are to see it. -/
theorem due_next (h : Follows runId c) {e : StoredEvent} {rest : List StoredEvent}
    (habove : above StoredEvent.seq c.feed.viewer.cursor (log runId c.feed) = e :: rest) :
    due runId c.feed e.seq =
      due runId c.feed c.feed.viewer.cursor ++ [e].filter (visible c.feed) := by
  rw [due, (hand_over h.ascending habove).1, List.filter_append]
  rfl

/-- What the replay withholds is not due. -/
theorem due_withheld {f : Feed} {e : StoredEvent} {pending : Bool} {stage : ViewStage}
    (hasc : Ascending StoredEvent.seq (log runId f)) {rest : List StoredEvent}
    (habove : above StoredEvent.seq f.viewer.cursor (log runId f) = e :: rest) :
    due runId { f with viewer := { f.viewer with
      cursor := e.seq, stage, skipped := f.viewer.skipped ++ [(e, pending)] } } e.seq =
    due runId f f.viewer.cursor := by
  have hlt : f.viewer.cursor < e.seq := (mem_above.mp (habove ▸ List.mem_cons_self)).2
  have hlog : upTo StoredEvent.seq e.seq (log runId f) =
      upTo StoredEvent.seq f.viewer.cursor (log runId f) ++ [e] := (hand_over hasc habove).1
  refine (congrArg (List.filter _) hlog).trans ?_
  rw [List.filter_append, due]
  refine (congrArg₂ (· ++ ·) (List.filter_congr fun x hx => ?_) ?_).trans (List.append_nil _)
  · have hne : x.seq ≠ e.seq := Nat.ne_of_lt (Nat.lt_of_le_of_lt (mem_upTo.mp hx).2 hlt)
    have hskipped : x.seq ∈ (f.viewer.skipped ++ [(e, pending)]).map (fun p => p.1.seq) ↔
        x.seq ∈ f.viewer.skipped.map fun p => p.1.seq := by simp [hne]
    simp only [visible, hskipped]
  · simp [visible]

theorem follows_replay (h : Follows runId c) (hs : c.feed.broker.store.journal.Sound)
    (hmono : c.feed.viewer.after ≤ c.feed.viewer.cursor) {fails : Bool} {receiver : Option Nat}
    {run : RunRecord} {ids : Snapshot} {e : StoredEvent} {rest : List StoredEvent}
    (hst : c.feed.viewer.stage = .replaying receiver run ids (e :: rest)) :
    Follows runId ⟨c.feed.replay receiver run ids e rest fails, c.phase⟩ := by
  have hhand := h.handing
  rw [Handing, hst] at hhand
  obtain ⟨hr, later, hlog, hlater⟩ := hhand
  obtain ⟨hmem, hlt⟩ := mem_above.mp (hlog ▸ List.mem_append_left _ List.mem_cons_self)
  have hreach : Reached runId c.feed e.seq := by
    obtain ⟨hrow, hid⟩ := mem_log.mp hmem
    exact hid ▸ hs.below_event hrow
  obtain ⟨n, hn, hcursor, hsent⟩ := h.sent
  obtain rfl := hcursor (by simp [hst])
  have hskipped : ∀ p ∈ c.feed.viewer.skipped, p.1.seq ≤ e.seq := fun p hp =>
    Nat.le_trans (h.skipped p hp) (Nat.le_of_lt hlt)
  have hreads : above StoredEvent.seq e.seq (log runId c.feed) = rest ++ later :=
    (hand_over h.ascending hlog).2
  have hdue := due_next h hlog
  unfold replay
  dsimp only
  split
  · rename_i hnone
    refine h.view rfl rfl rfl hskipped ⟨e.seq, .inr hreach, fun _ => rfl, ?_⟩
      ⟨hr, later, hreads, hlater⟩
    have hinvisible : [e].filter (visible c.feed) = [] := by simp [visible, shown, hnone]
    rw [hinvisible, List.append_nil] at hdue
    exact hsent.trans (congrArg updates hdue.symm)
  · rename_i u hu
    split
    · refine h.view rfl rfl rfl ?_ ⟨e.seq, .inr hreach, fun _ => rfl, ?_⟩
        ⟨hr, later, hreads, hlater⟩
      · intro p hp
        rcases List.mem_append.mp hp with hp | hp
        · exact hskipped p hp
        · rw [List.mem_singleton.mp hp]
          exact Nat.le_refl _
      · exact hsent.trans (congrArg updates (due_withheld h.ascending hlog).symm)
    · split
      · exact h.view rfl rfl rfl hskipped
          ⟨c.feed.viewer.cursor, hn, fun hne => absurd rfl hne, hsent⟩ trivial
      · refine h.view rfl rfl rfl hskipped ⟨e.seq, .inr hreach, fun _ => rfl, ?_⟩
          ⟨hr, later, hreads, hlater⟩
        have hvisible : visible c.feed e = true :=
          visible_of_lt (by rw [shown, hu]; rfl) h.skipped hmono hlt
        rw [List.filter_singleton, hvisible] at hdue
        show (c.feed.viewer.sent ++ [u]).filter (·.seq?.isSome) = updates (due runId c.feed e.seq)
        rw [hdue, List.filter_append, hsent, updates_append, List.filter_singleton,
          seq_of_update hu]
        exact congrArg _ (updates_singleton hu).symm

/-! ## The channel -/

theorem stream_taken {u : Update} (hu : c.feed.published[position]? = some u) :
    c.stream runId position =
      [u].filter (·.seq?.isSome) ++ c.stream runId (position + 1) := by
  obtain ⟨hlt, rfl⟩ := List.getElem?_eq_some_iff.mp hu
  rw [stream, stream, List.drop_eq_getElem_cons hlt, ← List.filter_append]
  rfl

/-- The next numbered update shows the next event of the driver. -/
theorem Tracks.head {u : Update} {n : Nat} (h : Tracks runId c position passed)
    (hu : c.feed.published[position]? = some u) (hn : u.seq? = some n) :
    ∃ old e new, (log runId c.feed).filter own = old ++ e :: new ∧
      storedEventUpdate e = some u ∧ e.seq = n ∧ c.stream runId (position + 1) = updates new ∧
      ∀ x ∈ old, passed x := by
  obtain ⟨old, new, hlog, hstream, hold⟩ := h
  rw [stream_taken hu, List.filter_singleton, hn] at hstream
  obtain ⟨front, e, back, rfl, hfront, he, hback⟩ := List.filterMap_eq_cons_iff.mp hstream.symm
  obtain rfl : front = [] := by
    refine List.eq_nil_iff_forall_not_mem.mpr fun x hx => ?_
    have hmem : x ∈ (log runId c.feed).filter own := by
      rw [hlog]
      exact List.mem_append_right _ (List.mem_append_left _ hx)
    have hshown := (Bool.and_eq_true_iff.mp (List.mem_filter.mp hmem).2).1
    rw [shown, hfront x hx] at hshown
    cases hshown
  have hseq : e.seq = n := Option.some.inj ((seq_of_update he).symm.trans hn)
  exact ⟨old, e, back, hlog, he, hseq, hback.symm, hold⟩

theorem Tracks.unnumbered {u : Update} (h : Tracks runId c position passed)
    (hu : c.feed.published[position]? = some u) (hn : u.seq? = none) :
    Tracks runId c (position + 1) passed := by
  obtain ⟨old, new, hlog, hstream, hold⟩ := h
  rw [stream_taken hu, List.filter_singleton, hn] at hstream
  exact ⟨old, new, hlog, hstream, hold⟩

/-- An update that the subscriber has had is passed. -/
theorem Tracks.skip {u : Update} {n m : Nat} (h : Tracks runId c position (·.seq ≤ m))
    (hu : c.feed.published[position]? = some u) (hn : u.seq? = some n) (hle : n ≤ m) :
    Tracks runId c (position + 1) (·.seq ≤ m) := by
  obtain ⟨old, e, new, hlog, -, rfl, hstream, hold⟩ := h.head hu hn
  refine ⟨old ++ [e], new, by rw [hlog, List.append_assoc]; rfl, hstream, fun x hx => ?_⟩
  rcases List.mem_append.mp hx with hx | hx
  · exact hold x hx
  · rw [List.mem_singleton.mp hx]
    exact hle

/-- An update that the subscriber takes shows the only event that is due between. -/
theorem due_taken (h : Follows runId c) (hmono : c.feed.viewer.after ≤ c.feed.viewer.cursor)
    (hfree : ∀ x ∈ log runId c.feed, c.feed.viewer.cursor < x.seq → delegated x = false)
    {old new : List StoredEvent} {e : StoredEvent}
    (hlog : (log runId c.feed).filter own = old ++ e :: new)
    (hold : ∀ x ∈ old, x.seq ≤ c.feed.viewer.cursor) (hlt : c.feed.viewer.cursor < e.seq) :
    due runId c.feed e.seq = due runId c.feed c.feed.viewer.cursor ++ [e] := by
  have hasc : Ascending StoredEvent.seq (old ++ e :: new) := hlog ▸ h.ascending.filter own
  have hafter := (List.pairwise_append.mp hasc).2.1
  have hsame : (above StoredEvent.seq c.feed.viewer.cursor (log runId c.feed)).filter
      (visible c.feed) = e :: new := by
    have hown : (above StoredEvent.seq c.feed.viewer.cursor (log runId c.feed)).filter
        (visible c.feed) =
        (above StoredEvent.seq c.feed.viewer.cursor (log runId c.feed)).filter own := by
      refine List.filter_congr fun x hx => ?_
      obtain ⟨hx, hxlt⟩ := mem_above.mp hx
      rw [own, hfree x hx hxlt]
      cases hshown : shown x with
      | false => simp [visible, hshown]
      | true =>
        rw [visible_of_lt hshown h.skipped hmono hxlt]
        rfl
    have hnew : ∀ x ∈ e :: new, c.feed.viewer.cursor < x.seq := by
      intro x hx
      rcases List.mem_cons.mp hx with rfl | hx
      · exact hlt
      · exact Nat.lt_trans hlt ((List.pairwise_cons.mp hafter).1 x hx)
    rw [hown, ← above_filter, hlog, above_append, above_eq_nil hold, above_eq_self hnew,
      List.nil_append]
  rw [due, upTo_eq_append h.ascending (Nat.le_of_lt hlt), List.filter_append]
  refine congrArg (due runId c.feed c.feed.viewer.cursor ++ ·) ?_
  rw [← upTo_filter, hsame, upTo_cons_self hafter]

/-- The subscriber takes an update from the channel. -/
theorem Follows.take (h : Follows runId c) {u : Update} {seq : Nat}
    (hle : c.feed.viewer.cursor ≤ seq)
    (hreach : seq = c.feed.viewer.after ∨ Reached runId c.feed seq)
    (hsent : (c.feed.viewer.sent ++ [u]).filter (·.seq?.isSome) = updates (due runId c.feed seq))
    (hlen : position + 1 ≤ c.feed.published.length)
    (htracks : Tracks runId c (position + 1) (·.seq ≤ seq))
    (hfree : ∀ x ∈ log runId c.feed, c.feed.viewer.cursor < x.seq → delegated x = false)
    (fails : Bool) :
    Follows runId ⟨if fails then (c.feed.moveCursor seq).atStage .ended
      else ((c.feed.moveCursor seq).send u).atStage
        (if u.isTerminal then .ended else .live (position + 1)), c.phase⟩ := by
  have hskipped : ∀ p ∈ c.feed.viewer.skipped, p.1.seq ≤ seq := fun p hp =>
    Nat.le_trans (h.skipped p hp) hle
  split
  · obtain ⟨n, hn, -, hold⟩ := h.sent
    exact h.view rfl rfl rfl hskipped ⟨n, hn, nofun, hold⟩ trivial
  · refine h.view rfl rfl rfl hskipped ⟨seq, hreach, fun _ => rfl, hsent⟩ ?_
    split
    · trivial
    · exact ⟨hlen, htracks, fun x hx hlt => hfree x hx (Nat.lt_of_le_of_lt hle hlt)⟩

theorem follows_receive (h : Follows runId c) (hs : c.feed.broker.store.journal.Sound)
    (hmono : c.feed.viewer.after ≤ c.feed.viewer.cursor)
    (hst : c.feed.viewer.stage = .live position) (fails : Bool) :
    Follows runId ⟨c.feed.receive position fails, c.phase⟩ := by
  have hconnected : c.feed.viewer.stage ≠ .ended := by
    rw [hst]
    nofun
  have hhand := h.handing
  rw [Handing, hst] at hhand
  obtain ⟨hlen, htracks, hfree⟩ := hhand
  unfold receive
  split
  · exact h.ended hconnected
  split
  · split
    · exact h.ended hconnected
    · exact h
  · rename_i u hu
    have hlen : position + 1 ≤ c.feed.published.length := (List.getElem?_eq_some_iff.mp hu).1
    split
    · rename_i hany
      obtain ⟨n, hn, hle⟩ := (Option.any_eq_true ..).mp hany
      exact h.atStage hconnected ⟨hlen, htracks.skip hu hn (of_decide_eq_true hle), hfree⟩
    · rename_i hnew
      obtain ⟨n, hn, hcursor, hsent⟩ := h.sent
      obtain rfl := hcursor hconnected
      cases hseq : u.seq? with
      | none =>
        refine h.take (Nat.le_refl _) hn ?_ hlen (htracks.unnumbered hu hseq) hfree fails
        rw [List.filter_append, hsent, List.filter_singleton, hseq]
        exact List.append_nil _
      | some n =>
        rw [hseq] at hnew
        have hlt : c.feed.viewer.cursor < n := by simpa using hnew
        obtain ⟨old, e, new, hlog, he, rfl, hstream, hold⟩ := htracks.head hu hseq
        have hmem : e ∈ (log runId c.feed).filter own := by
          rw [hlog]
          exact List.mem_append_right _ List.mem_cons_self
        obtain ⟨hrow, hid⟩ := mem_log.mp (List.mem_filter.mp hmem).1
        refine h.take (Nat.le_of_lt hlt) (.inr (hid ▸ hs.below_event hrow)) ?_ hlen ?_
          hfree fails
        · rw [due_taken h hmono hfree hlog hold hlt, List.filter_append, hsent, updates_append,
            List.filter_singleton, hseq]
          exact congrArg _ (updates_singleton he).symm
        · refine ⟨old ++ [e], new, by rw [hlog, List.append_assoc]; rfl, hstream, fun x hx => ?_⟩
          rcases List.mem_append.mp hx with hx | hx
          · exact Nat.le_trans (hold x hx) (Nat.le_of_lt hlt)
          · exact Nat.le_of_eq (congrArg StoredEvent.seq (List.mem_singleton.mp hx))

/-! ## Every step -/

/-- The replay reaches a request that entered the broker after the pending ids were read. -/
def late (c : Course) : CourseAction → Bool
  | .step a => c.feed.late a
  | _ => false

/-- The events that the page leaves out, where the subscriber is to read it. -/
def behind (runId : RunId) (c : Course) : CourseAction → List StoredEvent
  | .step (.view false) =>
    match c.feed.viewer.stage with
    | .listed .. =>
      if (c.feed.resync? runId false).isSome then []
      else (above StoredEvent.seq c.feed.viewer.cursor (log runId c.feed)).drop 1000
    | _ => []
  | _ => []

/-- The events that are stored while the subscriber replays its page or follows the channel. -/
def arriving (key : ActiveKey) (runId : RunId) (c : Course) (a : CourseAction) : List StoredEvent :=
  if reading c.feed.viewer.stage then
    (log runId (c.next key runId a).feed).drop (log runId c.feed).length
  else []

/-- The run is not resolved by hand, no approval is hidden by a late replay, and no event of a
delegation is behind the page. -/
structure Kept (key : ActiveKey) (runId : RunId) (c : Course) (a : CourseAction) : Prop where
  manual : c.byHand runId a = false
  late : c.late a = false
  behind : (c.behind runId a).any delegated = false
  arriving : (c.arriving key runId a).any delegated = false

instance decidableKept (key : ActiveKey) (runId : RunId) (c : Course) (a : CourseAction) :
    Decidable (Kept key runId c a) :=
  decidable_of_iff (c.byHand runId a = false ∧ c.late a = false ∧
      (c.behind runId a).any delegated = false ∧ (c.arriving key runId a).any delegated = false)
    ⟨fun h => ⟨h.1, h.2.1, h.2.2.1, h.2.2.2⟩, fun h => ⟨h.manual, h.late, h.behind, h.arriving⟩⟩

theorem follows_view (h : Follows runId c) (hf : Feed.Inv runId c.feed) {fails : Bool}
    (hbehind : (c.behind runId (.step (.view fails))).any delegated = false) :
    Follows runId ⟨c.feed.view runId fails, c.phase⟩ := by
  have hhand := h.handing
  unfold Handing at hhand
  unfold view
  cases hst : c.feed.viewer.stage with
  | start =>
    refine h.atStage (by rw [hst]; nofun) fun position hp => ?_
    have hlen : position = c.feed.published.length := by
      cases hd : c.feed.driver <;> rw [hd] at hp <;> cases hp <;> rfl
    exact ⟨Nat.le_of_eq hlen, h.tracks.later position⟩
  | opened receiver =>
    rw [hst] at hhand
    have hconnected : c.feed.viewer.stage ≠ .ended := by rw [hst]; nofun
    dsimp only
    split
    · exact h.ended hconnected
    · rename_i run hrun
      have hread : c.feed.broker.store.readRun runId = some run := by
        cases fails with
        | true => cases hrun
        | false => exact hrun
      obtain ⟨r, hfind, rfl⟩ := RunStore.readRun_eq_some hread
      refine h.atStage hconnected ⟨⟨_, RunStore.mem_journal hfind, Nat.le_refl _⟩, ?_⟩
      intro position hp
      obtain ⟨hlen, htracks⟩ := hhand position hp
      exact ⟨hlen, htracks.imp fun e he _ => seq_le_of_readRun hf.sound hread he⟩
  | found receiver run =>
    rw [hst] at hhand
    exact h.atStage (by rw [hst]; nofun) hhand
  | listed receiver run ids =>
    rw [hst] at hhand
    have hconnected : c.feed.viewer.stage ≠ .ended := by rw [hst]; nofun
    dsimp only
    split
    · exact h.ended hconnected
    · rename_i hfails
      split
      · exact h.ended hconnected
      · rename_i hpage
        obtain rfl : fails = false := by simpa using hfails
        have hnone : c.feed.resync? runId false = none := by
          rw [resync?, hst]
          exact if_neg fun hc => hpage hc.2
        simp only [behind, hst, hnone] at hbehind
        exact h.atStage hconnected ⟨hhand, reads_page h hpage fun e he => by
          simpa using List.any_eq_false.mp hbehind e he⟩
  | replaying receiver run ids rest =>
    cases rest with
    | cons e rest => exact follows_replay h hf.sound hf.monotone hst
    | nil =>
      rw [hst] at hhand
      have hconnected : c.feed.viewer.stage ≠ .ended := by rw [hst]; nofun
      cases receiver with
      | none => exact h.ended hconnected
      | some position =>
        dsimp only
        split
        · exact h.ended hconnected
        · exact h.atStage hconnected (live_handing hhand.1 hhand.2 rfl)
  | live position => exact follows_receive h hf.sound hf.monotone hst fails
  | ended => exact h

/-- Where the course of the run goes on, the feed takes a step, and only the subscriber's own is one
of the subscriber. -/
theorem feed_next (key : ActiveKey) (runId : RunId) (c : Course) (a : CourseAction) :
    (c.next key runId a).feed = c.feed ∨
    ∃ b, (c.next key runId a).feed = c.feed.next key runId b ∧
      (a = .step b ∨ ∀ fails, b ≠ .view fails) := by
  cases a with
  | step b =>
    unfold Course.next
    dsimp only
    split
    · exact .inr ⟨b, rfl, .inl rfl⟩
    · exact .inl rfl
  | start clock =>
    rcases start_cases key runId c clock with hsame | ⟨-, hnext⟩
    · exact .inl (congrArg Course.feed hsame)
    · exact .inr ⟨.broker (.storage (.tryStartQueued runId clock)), congrArg Course.feed hnext,
        .inr nofun⟩
  | commit outcome now =>
    rcases commit_cases key runId c outcome now with
      hsame | ⟨-, hidle, ⟨rec, s', -, hnext⟩ | hnext⟩
    · exact .inl (congrArg Course.feed hsame)
    · exact .inr ⟨.broker (.storage (commitOp runId outcome now)), congrArg Course.feed hnext,
        .inr nofun⟩
    · refine .inr ⟨.close, ?_, .inr nofun⟩
      rw [hnext, Feed.next, hidle]

theorem feed_inv_next (h : Feed.Inv runId c.feed) {a : CourseAction} (ht : c.late a = false) :
    Feed.Inv runId (c.next key runId a).feed := by
  rcases feed_next key runId c a with hsame | ⟨b, hnext, hb⟩
  · rw [hsame]
    exact h
  · rw [hnext]
    refine Feed.inv_next h ?_
    rcases hb with rfl | hb
    · exact timely_iff.mpr ht
    · exact fun fails _ _ _ _ _ _ he => absurd he (hb fails)

theorem follows_next (hf : Feed.Inv runId c.feed) (h : Follows runId c) {a : CourseAction}
    (hk : Kept key runId c a) : Follows runId (c.next key runId a) := by
  by_cases hview : ∃ fails, a = .step (.view fails)
  · obtain ⟨fails, rfl⟩ := hview
    exact follows_view h hf hk.behind
  · have hview : ∀ fails, a ≠ .step (.view fails) := fun fails he => hview ⟨fails, he⟩
    obtain ⟨new, hx⟩ := advance_next key hf.sound h.phased hview hk.manual
    refine h.advance hf.sound hx (phased_next hf.sound h.phased hk.manual) fun hreading e he => ?_
    have harriving := hk.arriving
    rw [arriving, if_pos hreading, hx.log, List.drop_left] at harriving
    simpa using List.any_eq_false.mp harriving e he

theorem follows_init {ops : List Op} (hopen : (storeAfter ops).status? runId ≠ some .completed)
    (after : Nat) : Follows runId (init (storeAfter ops) after) where
  ordered := ordered_after ops runId
  phased := phased_init hopen after
  tracks := ⟨_, [], (List.append_nil _).symm, rfl, fun _ _ => trivial⟩
  response := nofun
  skipped := nofun
  sent := ⟨after, .inl rfl, fun _ => rfl, (congrArg updates (due_after runId _)).symm⟩
  handing := trivial

/-- What holds in every state that a run reaches. -/
theorem follows_after {ops : List Op} (hopen : (storeAfter ops).status? runId ≠ some .completed)
    (after : Nat) {run : List CourseAction}
    (hrun : Along (Course.next key runId) (Kept key runId) (init (storeAfter ops) after) run) :
    Feed.Inv runId
        (Transition.after (Course.next key runId) (init (storeAfter ops) after) run).feed ∧
      Follows runId (Transition.after (Course.next key runId) (init (storeAfter ops) after) run) :=
  after_induct (I := fun c => Feed.Inv runId c.feed ∧ Follows runId c)
    (fun _ _ h hk => ⟨feed_inv_next h.1 hk.late, follows_next h.1 h.2 hk⟩)
    ⟨Feed.inv_init (journal_sound ops) after, follows_init hopen after⟩ hrun

end Course

end AgentDaemon.Daemon
