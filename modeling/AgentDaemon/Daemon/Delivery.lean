import AgentDaemon.Daemon.Follow

/-!
What a subscriber gets. While nobody resolves the run by hand, no approval is hidden by a late
replay and the events of delegations are all on the page, a subscriber that takes no notification
of a child is sent every event that clients see once and in order (`delivered_once`), and what it
was sent reaches up to the cursor of a `resync_required` answer, unless the answer is for a page
that was not sent (`resync_gapless`).
-/

namespace AgentDaemon.Daemon

open Storage Transition Numbers

namespace Course

open Feed

variable {key : ActiveKey} {runId : RunId} {c : Course} {position : Nat}

/-! ## The statements -/

/-- The update of the event is ahead of a receiver. -/
def Carried (runId : RunId) (c : Course) (position : Nat) (e : StoredEvent) : Prop :=
  ∃ u ∈ c.stream runId position, storedEventUpdate e = some u

/-- The subscriber is sent every event once and in order. -/
structure Delivered (runId : RunId) (c : Course) : Prop where
  sent : ∃ n, (c.feed.viewer.stage ≠ .ended → n = c.feed.viewer.cursor) ∧
    c.feed.viewer.sent.filter (!·.isTerminal) = updates (due runId c.feed n)
  ascending : (c.feed.viewer.sent.filterMap Update.seq?).Pairwise (· < ·)
  withheld : ∀ p ∈ c.feed.viewer.skipped, p.2 = false
  replay : ∀ receiver run ids rest, c.feed.viewer.stage = .replaying receiver run ids rest →
    ∀ e ∈ log runId c.feed, shown e = true → c.feed.viewer.cursor < e.seq →
      e ∈ rest ∨ run.lastSeq < e.seq ∧
        ∀ position, receiver = some position → Carried runId c position e
  live : ∀ position, c.feed.viewer.stage = .live position →
    ∀ e ∈ log runId c.feed, shown e = true → c.feed.viewer.cursor < e.seq →
      Carried runId c position e
  /-- Nothing is left to send when the response is next. -/
  response : ∀ position u, c.feed.viewer.stage = .live position →
    c.feed.published[position]? = some u → u.isTerminal = true →
    ∀ e ∈ log runId c.feed, shown e = true → e.seq ≤ c.feed.viewer.cursor

/-- The subscriber takes the notification of a child from the channel. -/
def announces (runId : RunId) (c : Course) : CourseAction → Bool
  | .step (.view false) =>
    match c.feed.viewer.stage with
    | .live position => (c.feed.resync? runId false).isNone &&
      c.feed.published[position]?.any fun u => !u.isTerminal && u.seq?.isNone
    | _ => false
  | _ => false

end Course

namespace Feed

/-- Reading the log on from the cursor completes what was sent. -/
structure Gapless (runId : RunId) (f : Feed) (cursor : Nat) : Prop where
  sent : ∀ e ∈ log runId f, shown e = true → f.viewer.after < e.seq → e.seq ≤ cursor →
    (∃ u ∈ f.viewer.sent, storedEventUpdate e = some u) ∨
      ∃ p ∈ f.viewer.skipped, p.1.seq = e.seq ∧ p.2 = false
  read : ∀ limit fuel, 1 ≤ limit → (log runId f).length < fuel →
    f.broker.store.readToEnd runId limit fuel cursor =
      some ((log runId f).filter fun e => cursor < e.seq)

end Feed

namespace Course

open Feed

variable {key : ActiveKey} {runId : RunId} {c : Course} {position : Nat}

/-- The answer is for a page with events that clients see. -/
def overruns (runId : RunId) (c : Course) : CourseAction → Bool
  | .step (.view fails) =>
    match c.feed.viewer.stage with
    | .listed .. => (c.feed.resync? runId fails).isSome &&
      (c.feed.broker.store.eventsAfter runId c.feed.viewer.cursor 1000).any shown
    | _ => false
  | _ => false

/-! ## Exactly once -/

/-- Every update that was sent has a number, or is the response. -/
def Plain (f : Feed) : Prop := ∀ u ∈ f.viewer.sent, u.isTerminal = false → u.seq?.isSome = true

theorem Plain.send {f : Feed} (h : Plain f) {u : Update}
    (hu : u.isTerminal = false → u.seq?.isSome = true) : Plain (f.send u) := by
  intro v hv
  rcases List.mem_append.mp hv with hv | hv
  · exact h v hv
  · rw [List.mem_singleton.mp hv]
    exact hu

theorem plain_replay {f : Feed} (h : Plain f) (receiver : Option Nat) (run : RunRecord)
    (ids : Snapshot) (e : StoredEvent) (rest : List StoredEvent) (fails : Bool) :
    Plain (f.replay receiver run ids e rest fails) := by
  unfold replay
  dsimp only
  split
  · exact h
  · rename_i u hu
    split
    · exact h
    · split
      · exact h
      · refine Plain.send (f := f.moveCursor e.seq) h fun _ => ?_
        rw [seq_of_update hu]
        rfl

theorem plain_receive (h : Plain c.feed) (hst : c.feed.viewer.stage = .live position) {fails : Bool}
    (ha : c.announces runId (.step (.view fails)) = false) :
    Plain (c.feed.receive position fails) := by
  unfold receive
  split
  · exact h
  · rename_i hlag
    split
    · split <;> exact h
    · rename_i u hu
      split
      · exact h
      · dsimp only
        cases fails with
        | true => exact h
        | false =>
          refine Plain.send (f := c.feed.moveCursor _) h fun hterm => ?_
          have hnone : c.feed.resync? runId false = none := by
            rw [resync?, hst]
            exact if_neg hlag
          simpa [announces, hst, hnone, hu, hterm] using ha

theorem plain_view (h : Plain c.feed) {fails : Bool}
    (ha : c.announces runId (.step (.view fails)) = false) :
    Plain (c.feed.view runId fails) := by
  unfold view
  cases hst : c.feed.viewer.stage with
  | opened receiver =>
    dsimp only
    split <;> exact h
  | listed receiver run ids =>
    dsimp only
    split
    · exact h
    · split <;> exact h
  | replaying receiver run ids rest =>
    cases rest with
    | nil => cases receiver <;> exact h
    | cons e rest => exact plain_replay h receiver run ids e rest fails
  | live position => exact plain_receive h hst ha
  | _ => exact h

theorem plain_next (hf : Feed.Inv runId c.feed) (h : Follows runId c) (hp : Plain c.feed)
    {a : CourseAction} (hk : Kept key runId c a) (ha : c.announces runId a = false) :
    Plain (c.next key runId a).feed := by
  by_cases hview : ∃ fails, a = .step (.view fails)
  · obtain ⟨fails, rfl⟩ := hview
    exact plain_view hp ha
  · obtain ⟨new, hx⟩ := advance_next key hf.sound h.phased
      (fun fails he => hview ⟨fails, he⟩) hk.manual
    rw [Plain, hx.viewer]
    exact hp

theorem Tracks.carried {passed : StoredEvent → Prop} (h : Tracks runId c position passed)
    {e : StoredEvent} (he : e ∈ log runId c.feed) (hown : own e = true) (hpassed : ¬ passed e) :
    Carried runId c position e := by
  obtain ⟨old, new, hlog, hstream, hold⟩ := h
  obtain ⟨u, hu⟩ := Option.isSome_iff_exists.mp (Bool.and_eq_true_iff.mp hown).1
  have hmem : e ∈ old ++ new := hlog ▸ List.mem_filter.mpr ⟨he, hown⟩
  rcases List.mem_append.mp hmem with hmem | hmem
  · exact absurd (hold e hmem) hpassed
  · exact ⟨u, hstream ▸ List.mem_filterMap.mpr ⟨e, hmem, hu⟩, hu⟩

theorem own_of_not_delegated {e : StoredEvent} (hshown : shown e = true)
    (hnot : delegated e = false) : own e = true := by
  rw [own, hshown, hnot]
  rfl

theorem sent_ascending (h : Follows runId c) :
    (c.feed.viewer.sent.filterMap Update.seq?).Pairwise (· < ·) := by
  obtain ⟨n, -, -, hsent⟩ := h.sent
  have hsame : c.feed.viewer.sent.filterMap Update.seq? =
      (updates (due runId c.feed n)).filterMap Update.seq? := by
    rw [← hsent, List.filterMap_filter]
    refine List.filterMap_congr fun u _ => ?_
    cases hu : u.seq? <;> rfl
  rw [hsame, updates, List.filterMap_filterMap, List.pairwise_filterMap]
  refine ((h.ascending.filter _).filter _).imp fun hlt x hx y hy => ?_
  obtain ⟨u, hu, hx⟩ := Option.bind_eq_some_iff.mp hx
  obtain ⟨v, hv, hy⟩ := Option.bind_eq_some_iff.mp hy
  cases (seq_of_update hu).symm.trans hx
  cases (seq_of_update hv).symm.trans hy
  exact hlt

theorem Follows.delivered (h : Follows runId c) (hf : Feed.Inv runId c.feed) (hp : Plain c.feed) :
    Delivered runId c := by
  have hhand := h.handing
  rw [Handing] at hhand
  have hlive : ∀ position, c.feed.viewer.stage = .live position →
      ∀ e ∈ log runId c.feed, shown e = true → c.feed.viewer.cursor < e.seq →
        Carried runId c position e := by
    intro position hst e he hshown hlt
    rw [hst] at hhand
    obtain ⟨-, htracks, hfree⟩ := hhand
    exact htracks.carried he (own_of_not_delegated hshown (hfree e he hlt)) (Nat.not_le_of_lt hlt)
  refine ⟨?_, sent_ascending h, hf.skipped, ?_, hlive, ?_⟩
  · obtain ⟨n, -, hcursor, hsent⟩ := h.sent
    refine ⟨n, hcursor, ?_⟩
    rw [← hsent]
    refine List.filter_congr fun u hu => ?_
    cases u with
    | terminal result => rfl
    | event kind data id seq => exact (hp _ hu rfl).symm
  · intro receiver run ids rest hst e he hshown hlt
    rw [hst] at hhand
    obtain ⟨hr, later, hlog, hlater⟩ := hhand
    have hmem : e ∈ rest ++ later := hlog ▸ mem_above.mpr ⟨he, hlt⟩
    rcases List.mem_append.mp hmem with hmem | hmem
    · exact .inl hmem
    · obtain ⟨hlast, hnot⟩ := hlater e hmem
      refine .inr ⟨hlast, fun position hp => ?_⟩
      exact (hr.2 position hp).2.carried he (own_of_not_delegated hshown hnot)
        (Nat.not_le_of_lt hlast)
  · intro position u hst hu hterm e he hshown
    by_contra hlt
    obtain ⟨v, hv, -⟩ := hlive position hst e he hshown (Nat.lt_of_not_le hlt)
    rw [(h.response position u hu hterm).2] at hv
    cases hv

/-- **Handover.** In a run that meets the condition the subscriber is sent every event once and in
order. -/
theorem delivered_once (key : ActiveKey) (runId : RunId) (ops : List Op) (after : Nat)
    (hopen : (storeAfter ops).status? runId ≠ some .completed) (run : List CourseAction)
    (hrun : Along (Course.next key runId)
      (fun c a => Kept key runId c a ∧ c.announces runId a = false)
      (init (storeAfter ops) after) run) :
    Delivered runId
      (Transition.after (Course.next key runId) (init (storeAfter ops) after) run) := by
  have hinv := after_induct
    (I := fun c => Feed.Inv runId c.feed ∧ Follows runId c ∧ Plain c.feed)
    (fun c a h hk => ⟨feed_inv_next h.1 hk.1.late, follows_next h.1 h.2.1 hk.1,
      plain_next h.1 h.2.1 h.2.2 hk.1 hk.2⟩)
    ⟨Feed.inv_init (journal_sound ops) after, follows_init hopen after, nofun⟩ hrun
  exact hinv.2.1.delivered hinv.1 hinv.2.2

/-- A chat request that was admitted, as event 1 of `run-1`. -/
def chatOps : List Op := [.admitWithRoute lateKey.sessionId lateKey.requestId "hi" .queue none 0]

/-- The subscriber connects while the first text of the turn is stored and not broadcast, replays
it and follows the channel up to the response. -/
def chatRun : List CourseAction :=
  [.start fun _ => 0, .step (.takeEvent .textDelta (.obj [("delta", .str "he")]) false),
    .step (.view false), .step .publish, .step (.view false), .step (.view false),
    .step (.view false), .step (.view false), .step (.view false),
    .step (.takeEvent .textDelta (.obj [("delta", .str "llo")]) false), .step .publish,
    .commit (.ok "hello") 1, .step (.complete "hello"), .step (.view false), .step (.view false),
    .step (.view false), .step (.terminal (.ok .null)), .step (.view false)]

theorem delivered_once_chatRun :
    Delivered (runIdOf 1)
      (Transition.after (Course.next lateKey (runIdOf 1)) (init (storeAfter chatOps) 2) chatRun) :=
  delivered_once lateKey (runIdOf 1) chatOps 2 (by decide +kernel) chatRun (by decide +kernel)

/-- The subscriber has its receiver when a child of the run is admitted and reported, and replays
the stored event before it takes the notification. -/
def childRun : List CourseAction :=
  [.start fun _ => 0, .step (.view false),
    .step (.broker (.storage (.admitDelegation ⟨lateKey.sessionId, runIdOf 1, ⟨"c"⟩, "k", "sub",
      ["read"], "ask", "/", 1, 1, 1, 10⟩ fun _ => 0))),
    .step (.external .delegationSpawned (.obj [("child_run_id", .str "run-2"),
      ("child_session_id", .str "c"), ("status", .str "queued"), ("summary", .str "")])),
    .step (.view false), .step (.view false), .step (.view false), .step (.view false),
    .step (.view false), .step (.view false)]

def childCourse : Course :=
  Transition.after (Course.next lateKey (runIdOf 1)) (init (storeAfter chatOps) 2) childRun

/-- The spawned child is shown twice. -/
theorem not_delivered_childRun : ¬ Delivered (runIdOf 1) childCourse := by
  intro h
  obtain ⟨n, hcursor, hsent⟩ := h.sent
  have hlive : childCourse.feed.viewer.stage ≠ .ended := by
    have hreading : reading childCourse.feed.viewer.stage = true := by decide +kernel
    intro hended
    rw [hended] at hreading
    cases hreading
  obtain rfl := hcursor hlive
  have hlen := congrArg List.length hsent
  have hshown : (childCourse.feed.viewer.sent.filter (!·.isTerminal)).length = 2 := by
    decide +kernel
  have hdue : (updates (due (runIdOf 1) childCourse.feed
      childCourse.feed.viewer.cursor)).length = 1 := by decide +kernel
  rw [hshown, hdue] at hlen
  cases hlen

/-! ## No gap -/

theorem read_on (h : Follows runId c) (cursor limit fuel : Nat) (hlimit : 1 ≤ limit)
    (hfuel : (log runId c.feed).length < fuel) :
    c.feed.broker.store.readToEnd runId limit fuel cursor =
      some ((log runId c.feed).filter fun e => cursor < e.seq) := by
  have habove := eventsAbove_eq h.ordered cursor
  have hlen := List.length_filter_le (fun e : StoredEvent => cursor < e.seq) (log runId c.feed)
  rw [RunStore.readToEnd_eq hlimit, habove]
  · rfl
  · rw [habove]
    exact Nat.lt_of_le_of_lt hlen hfuel

/-- A receiver that lagged was sent everything up to the cursor. -/
theorem gapless_lagged (h : Follows runId c) (hf : Feed.Inv runId c.feed)
    (hst : c.feed.viewer.stage = .live position) :
    Gapless runId c.feed c.feed.viewer.cursor where
  sent := by
    intro e he hshown hafter hle
    obtain ⟨n, -, hcursor, hsent⟩ := h.sent
    obtain rfl := hcursor (by rw [hst]; nofun)
    by_cases hwithheld : e.seq ∈ c.feed.viewer.skipped.map fun p => p.1.seq
    · obtain ⟨p, hp, hseq⟩ := List.mem_map.mp hwithheld
      exact .inr ⟨p, hp, hseq, hf.skipped p hp⟩
    · left
      obtain ⟨u, hu⟩ := Option.isSome_iff_exists.mp hshown
      have hvisible : visible c.feed e = true := by
        rw [visible, hshown, decide_eq_true hafter, decide_eq_true hwithheld]
        rfl
      have hdue : e ∈ due runId c.feed c.feed.viewer.cursor :=
        List.mem_filter.mpr ⟨mem_upTo.mpr ⟨he, hle⟩, hvisible⟩
      have hmem : u ∈ c.feed.viewer.sent.filter (·.seq?.isSome) :=
        hsent ▸ List.mem_filterMap.mpr ⟨e, hdue, hu⟩
      exact ⟨u, (List.mem_filter.mp hmem).1, hu⟩
  read := read_on h c.feed.viewer.cursor

/-- An answer for a page that clients see nothing of leaves out nothing. -/
theorem gapless_page (h : Follows runId c) (hstart : c.feed.viewer.cursor = c.feed.viewer.after)
    {cursor : Nat} (hlast : (c.feed.broker.store.eventsAfter runId c.feed.viewer.cursor
      1000).getLast?.map StoredEvent.seq = some cursor)
    (hnone : (c.feed.broker.store.eventsAfter runId c.feed.viewer.cursor 1000).any shown = false) :
    Gapless runId c.feed cursor where
  sent := by
    intro e he hshown hafter hle
    exfalso
    obtain ⟨last, hpage, rfl⟩ := Option.map_eq_some_iff.mp hlast
    obtain ⟨hrow, hid⟩ := mem_log.mp he
    rcases RunStore.eventsAfter_complete 1000 hrow hid (hstart ▸ hafter) with hmem | ⟨-, hall⟩
    · exact List.any_eq_false.mp hnone e hmem hshown
    · exact Nat.not_lt_of_le hle (hall last (List.mem_of_getLast? hpage))
  read := read_on h cursor

/-- **Resynchronization.** Wherever a run that meets the condition is answered `resync_required`,
reading the log on from the cursor completes what was sent. -/
theorem resync_gapless (key : ActiveKey) (runId : RunId) (ops : List Op) (after : Nat)
    (hopen : (storeAfter ops).status? runId ≠ some .completed) (run : List CourseAction)
    (fails : Bool) (cursor : Nat)
    (hrun : Along (Course.next key runId)
      (fun c a => Kept key runId c a ∧ c.overruns runId a = false)
      (init (storeAfter ops) after) (run ++ [.step (.view fails)]))
    (hresync : (Transition.after (Course.next key runId)
      (init (storeAfter ops) after) run).feed.resync? runId fails = some cursor) :
    Gapless runId (Transition.after (Course.next key runId) (init (storeAfter ops) after) run).feed
      cursor := by
  obtain ⟨hrun, ⟨-, hover⟩, -⟩ := along_append.mp hrun
  obtain ⟨hf, h⟩ := follows_after hopen after (along_mono hrun fun _ _ _ hk => hk.1)
  generalize Transition.after (Course.next key runId) (init (storeAfter ops) after) run = c at *
  cases hst : c.feed.viewer.stage with
  | listed receiver run ids =>
    have hstart : c.feed.viewer.cursor = c.feed.viewer.after := by
      have hstaged := hf.staged
      rw [Staged, hst] at hstaged
      exact hstaged.1
    simp only [overruns, hst, hresync, Option.isSome_some, Bool.true_and] at hover
    rw [resync?, hst] at hresync
    obtain ⟨⟨-, hfull, -⟩, hcursor⟩ := Option.ite_none_right_eq_some.mp hresync
    refine gapless_page h hstart ?_ hover
    cases hlast : (c.feed.broker.store.eventsAfter runId c.feed.viewer.cursor 1000).getLast? with
    | none =>
      rw [List.getLast?_eq_none_iff.mp hlast] at hfull
      cases hfull
    | some last =>
      rw [hlast] at hcursor
      exact hcursor
  | live position =>
    rw [resync?, hst] at hresync
    obtain ⟨-, hcursor⟩ := Option.ite_none_right_eq_some.mp hresync
    obtain rfl := Option.some.inj hcursor
    exact gapless_lagged h hf hst
  | _ =>
    rw [resync?, hst] at hresync
    cases hresync

/-! ## A page of a thousand events -/

/-- The log of a run is numbered from one to its counter. -/
theorem log_numbers {f : Feed} (hs : f.broker.store.journal.Sound)
    (ho : f.broker.store.journal.Ordered runId) {run : RunRecord}
    (hrun : f.broker.store.readRun runId = some run) :
    (log runId f).map StoredEvent.seq = List.range' 1 run.lastSeq := by
  obtain ⟨r, hr, rfl⟩ := RunStore.readRun_eq_some hrun
  have hasc : ((log runId f).map StoredEvent.seq).Pairwise (· < ·) := List.pairwise_map.mpr ho
  have hrange : (List.range' 1 r.lastSeq).Pairwise (· < ·) := List.pairwise_lt_range'
  exact (hs.numbers hr).eq_of_pairwise (fun a b _ _ hab hba => absurd hab (Nat.lt_asymm hba))
    hasc hrange

/-- A log of more than a thousand events is too long for a subscriber that starts from nothing. -/
theorem resync_long {f : Feed} (hs : f.broker.store.journal.Sound)
    (ho : f.broker.store.journal.Ordered runId) {receiver : Option Nat} {run : RunRecord}
    {ids : Snapshot} (hst : f.viewer.stage = .listed receiver run ids)
    (hstart : f.viewer.cursor = 0)
    (hrun : f.broker.store.readRun runId = some run) (hlong : 1000 < run.lastSeq) :
    f.resync? runId false = some 1000 := by
  have hnumbers : (f.broker.store.eventsAfter runId 0 1000).map StoredEvent.seq =
      List.range' 1 1000 := by
    have hall : above StoredEvent.seq 0 (log runId f) = log runId f := by
      refine above_eq_self fun e he => ?_
      have hmem : e.seq ∈ List.range' 1 run.lastSeq :=
        log_numbers hs ho hrun ▸ List.mem_map_of_mem he
      exact (List.mem_range'_1.mp hmem).1
    rw [RunStore.eventsAfter_eq, eventsAbove_eq ho, hall, Nat.min_self, List.map_take,
      log_numbers hs ho hrun, List.take_range'_of_length_ge (Nat.le_of_lt hlong)]
  have hlen : (f.broker.store.eventsAfter runId 0 1000).length = 1000 := by
    rw [← List.length_map (f := StoredEvent.seq), hnumbers, List.length_range']
  have hlast : (f.broker.store.eventsAfter runId 0 1000).getLast?.map StoredEvent.seq =
      some 1000 := by
    rw [← List.getLast?_map, hnumbers, List.getLast?_range']
    rfl
  obtain ⟨last, hpage, hseq⟩ := Option.map_eq_some_iff.mp hlast
  rw [resync?, hst]
  dsimp only
  rw [hstart, hpage, hlen]
  simp [hseq, hlong]

/-- The run has been admitted, and `n` events are stored behind the message of the user. -/
def floodOps (event : String) (n : Nat) : List Op :=
  chatOps ++ List.replicate n (.appendEvent (runIdOf 1) event .null)

/-- The store takes an event that is no request for an approval, and the run stays as it is. -/
theorem next_appendEvent {s : RunStore} (hs : s.journal.Sound) {n : Nat}
    (hn : (runId, n) ∈ s.journal.runs) {event : String} (hevent : event ≠ "approval_required")
    (data : Json) :
    (s.next (.appendEvent runId event data)).control = s.control ∧
      (s.next (.appendEvent runId event data)).journal = s.journal.log runId n event data := by
  obtain ⟨r, hr, hkey⟩ := List.mem_map.mp hn
  obtain ⟨rfl, rfl⟩ := Prod.mk.inj hkey
  have hfind : s.runs.find? r.id = some r := Table.find?_of_mem hr
  obtain ⟨s', hev⟩ := insertEvent_total hs hfind event data
  have hok : s.appendEvent r.id event data = .ok (r.lastSeq + 1, s') := by
    rw [RunStore.appendEvent, Fallible.bind_eq_ok]
    exact ⟨_, hev, if_neg hevent⟩
  have hexec : s.exec (.appendEvent r.id event data) = .ok (.seq (r.lastSeq + 1), s') :=
    congrArg (Prod.map Reply.seq id <$> ·) hok
  obtain ⟨m, -, hm, hlog⟩ := RunStore.insertEvent_journal hev
  obtain rfl := hs.last_unique hn hm
  rw [RunStore.next_of_ok hexec]
  exact ⟨RunStore.insertEvent_control hev, hlog⟩

theorem storeAfter_floodOps {event : String} (hevent : event ≠ "approval_required") (n : Nat) :
    (storeAfter (floodOps event n)).control = (storeAfter chatOps).control ∧
      (runIdOf 1, n + 1) ∈ (storeAfter (floodOps event n)).journal.runs ∧
      (storeAfter (floodOps event n)).journal.events = (storeAfter chatOps).journal.events ++
        (List.range n).map fun k => ⟨runIdOf 1, k + 2, event, .null⟩ := by
  induction n with
  | zero =>
    have hfirst : (runIdOf 1, 1) ∈ (storeAfter chatOps).journal.runs := by decide +kernel
    exact ⟨rfl, hfirst, (List.append_nil _).symm⟩
  | succ n ih =>
    obtain ⟨hcontrol, hn, hevents⟩ := ih
    have hstep : storeAfter (floodOps event (n + 1)) =
        (storeAfter (floodOps event n)).next (.appendEvent (runIdOf 1) event .null) := by
      rw [floodOps, List.replicate_succ', ← List.append_assoc]
      exact after_append ..
    obtain ⟨hsame, hlog⟩ := next_appendEvent (journal_sound (floodOps event n)) hn hevent .null
    rw [hstep, hlog, hsame]
    refine ⟨hcontrol, List.mem_map.mpr ⟨_, hn, if_pos rfl⟩, ?_⟩
    rw [Journal.log, hevents, List.range_succ, List.map_append, List.append_assoc]
    rfl

/-- The subscriber has read the run and the pending ids. -/
def listRun : List CourseAction := List.replicate 3 (.step (.view false))

theorem after_findRun (key : ActiveKey) {s : RunStore} {run : RunRecord}
    (hread : s.readRun runId = some run) :
    Transition.after (Course.next key runId) (init s 0)
      [.step (.view false), .step (.view false)] =
        ⟨(Feed.init s 0).atStage (.found (some 0) run), .queued⟩ := by
  simp [Course.next, allows, phaseAfter, init, Feed.init, Feed.next, Feed.view, atStage, hread,
    Broker.init]

theorem after_listRun (key : ActiveKey) {s : RunStore} {run : RunRecord}
    (hread : s.readRun runId = some run) :
    Transition.after (Course.next key runId) (init s 0) listRun =
      ⟨(Feed.init s 0).atStage (.listed (some 0) run ⟨[], []⟩), .queued⟩ := by
  have hlist : listRun = [.step (.view false), .step (.view false)] ++ [.step (.view false)] := rfl
  rw [hlist, after_append, after_findRun key hread]
  rfl

theorem readRun_floodOps {event : String} (hevent : event ≠ "approval_required") (n : Nat) :
    ∃ run, (storeAfter (floodOps event n)).readRun (runIdOf 1) = some run ∧
      run.lastSeq = n + 1 := by
  obtain ⟨-, hn, -⟩ := storeAfter_floodOps hevent n
  exact Option.map_eq_some_iff.mp (lastSeq_of_mem hn)

theorem open_floodOps {event : String} (hevent : event ≠ "approval_required") (n : Nat) :
    (storeAfter (floodOps event n)).status? (runIdOf 1) ≠ some .completed := by
  rw [status?_eq, (storeAfter_floodOps hevent n).1, ← status?_eq]
  decide +kernel

/-- The subscriber of a flooded run that has read the run and the pending ids. -/
def flooded (event : String) (n : Nat) : Course :=
  Transition.after (Course.next lateKey (runIdOf 1)) (init (storeAfter (floodOps event n)) 0)
    listRun

theorem resync_flooded {event : String} (hevent : event ≠ "approval_required") {n : Nat}
    (hn : 1000 ≤ n) : (flooded event n).feed.resync? (runIdOf 1) false = some 1000 := by
  obtain ⟨run, hread, hlast⟩ := readRun_floodOps hevent n
  have hs := journal_sound (floodOps event n)
  have ho := ordered_after (floodOps event n) (runIdOf 1)
  rw [flooded, after_listRun lateKey hread]
  exact resync_long hs ho rfl rfl hread (hlast ▸ Nat.lt_succ_of_le hn)

theorem not_gapless_text {n : Nat} (hn : 1 ≤ n) :
    ¬ Gapless (runIdOf 1) (flooded "text_delta" n).feed 1000 := by
  intro h
  have hevent : "text_delta" ≠ "approval_required" := by decide
  obtain ⟨run, hread, -⟩ := readRun_floodOps hevent n
  rw [flooded, after_listRun lateKey hread] at h
  have hmem : (⟨runIdOf 1, 2, "text_delta", .null⟩ : StoredEvent) ∈
      (storeAfter (floodOps "text_delta" n)).journal.events := by
    rw [(storeAfter_floodOps (by decide) n).2.2]
    exact List.mem_append_right _ (List.mem_map.mpr ⟨0, List.mem_range.mpr hn, rfl⟩)
  rcases h.sent _ (mem_log.mpr ⟨hmem, rfl⟩) rfl (Nat.succ_pos 1) (by decide) with
    ⟨u, hu, -⟩ | ⟨p, hp, -⟩
  · cases hu
  · cases hp

/-- The texts of the page are not sent, and reading the log on from the cursor leaves them out. -/
theorem not_gapless_flood :
    (flooded "text_delta" 1000).feed.resync? (runIdOf 1) false = some 1000 ∧
      ¬ Gapless (runIdOf 1) (flooded "text_delta" 1000).feed 1000 :=
  ⟨resync_flooded (by decide) (Nat.le_refl _), not_gapless_text (by decide)⟩

/-- A step before the page is read meets every condition. -/
theorem meets_early {c : Course} {stage : ViewStage} (hst : c.feed.viewer.stage = stage)
    (hearly : match stage with
      | .start | .opened _ | .found .. => True
      | _ => False) :
    Kept key runId c (.step (.view false)) ∧ c.overruns runId (.step (.view false)) = false := by
  have hreading : reading c.feed.viewer.stage = false := by
    rw [hst]
    cases stage <;> first | rfl | cases hearly
  cases stage with
  | start | opened _ | found _ _ =>
    refine ⟨⟨rfl, ?_, ?_, ?_⟩, ?_⟩
    · rw [late, Feed.late, hst]
    · simp [behind, hst]
    · simp [arriving, hreading]
    · simp [overruns, hst]
  | _ => cases hearly

/-- A subscriber is told to resynchronize for a page that clients see nothing of. -/
theorem meets_listRun {s : RunStore} {run : RunRecord} (hread : s.readRun runId = some run)
    (hresync : (((Feed.init s 0).atStage (.listed (some 0) run ⟨[], []⟩)).resync? runId
      false).isSome = true)
    (hpage : (s.eventsAfter runId 0 1000).any shown = false) :
    Along (Course.next key runId) (fun c a => Kept key runId c a ∧ c.overruns runId a = false)
      (init s 0) (listRun ++ [.step (.view false)]) := by
  have hfound := after_findRun key hread
  have hlisted := after_listRun key hread
  have hopened : Course.next key runId (init s 0) (.step (.view false)) =
      ⟨(Feed.init s 0).atStage (.opened (some 0)), .queued⟩ := rfl
  simp only [after_cons, after_nil] at hfound
  refine along_append.mpr ⟨⟨?_, ?_, ?_, trivial⟩, ?_, trivial⟩
  · exact meets_early rfl trivial
  · rw [hopened]
    exact meets_early rfl trivial
  · rw [hfound]
    exact meets_early rfl trivial
  · rw [hlisted]
    refine ⟨⟨rfl, rfl, ?_, rfl⟩, ?_⟩
    · have hnone : behind runId ⟨(Feed.init s 0).atStage (.listed (some 0) run ⟨[], []⟩), .queued⟩
          (.step (.view false)) = [] := if_pos hresync
      rw [hnone]
      rfl
    · exact (congrArg (_ && ·) hpage).trans (Bool.and_false _)

theorem any_shown_flooded {event : String} (hevent : event ≠ "approval_required")
    (hhidden : ∀ k, shown ⟨runIdOf 1, k, event, .null⟩ = false) (n : Nat) :
    ((storeAfter (floodOps event n)).eventsAfter (runIdOf 1) 0 1000).any shown = false := by
  refine List.any_eq_false.mpr fun e he hshown => ?_
  have hmem : e ∈ (storeAfter (floodOps event n)).journal.events :=
    (RunStore.mem_of_mem_eventsAfter he).1
  rw [(storeAfter_floodOps hevent n).2.2] at hmem
  rcases List.mem_append.mp hmem with hmem | hmem
  · have hfirst : (storeAfter chatOps).journal.events.all (!shown ·) = true := by decide +kernel
    simpa [hshown] using List.all_eq_true.mp hfirst e hmem
  · obtain ⟨k, -, rfl⟩ := List.mem_map.mp hmem
    cases (hhidden (k + 2)).symm.trans hshown

theorem meets_flooded {event : String} (hevent : event ≠ "approval_required")
    (hhidden : ∀ k, shown ⟨runIdOf 1, k, event, .null⟩ = false) {n : Nat} (hn : 1000 ≤ n) :
    Along (Course.next lateKey (runIdOf 1))
      (fun c a => Kept lateKey (runIdOf 1) c a ∧ c.overruns (runIdOf 1) a = false)
      (init (storeAfter (floodOps event n)) 0) (listRun ++ [.step (.view false)]) := by
  obtain ⟨run, hread, -⟩ := readRun_floodOps hevent n
  have hpage := any_shown_flooded hevent hhidden n
  have hresync := resync_flooded hevent hn
  rw [flooded, after_listRun lateKey hread] at hresync
  exact meets_listRun hread (by rw [hresync]; rfl) hpage

theorem resync_gapless_flood : Gapless (runIdOf 1) (flooded "note" 1000).feed 1000 :=
  resync_gapless lateKey (runIdOf 1) (floodOps "note" 1000) 0 (open_floodOps (by decide) 1000)
    listRun false 1000 (meets_flooded (by decide) (fun _ => rfl) (Nat.le_refl _))
    (resync_flooded (by decide) (Nat.le_refl _))

end Course

end AgentDaemon.Daemon
