import AgentDaemon.Daemon.Subscribe
import AgentDaemon.Daemon.Drivers
import AgentDaemon.Storage.Closing
import AgentDaemon.Storage.Completed

/-!
The course of a run that is subscribed to. `Course` adds to a `Feed` where `handle_chat_send` stands
with the run, from its entry into the active map on, and lets the driver publish only what it
publishes there: the events of the turn, and after the final commit its content and the response.
Whatever step is taken by others than the subscriber, the events that the driver has stored and
the updates that the channel still holds grow by the same (`advance_next`).
-/

namespace AgentDaemon.Daemon

open Storage Transition

/-- Where `handle_chat_send` stands, once its run is in the active map. -/
inductive Phase where
  /-- The run waits for its turn. -/
  | queued
  | running
  /-- The end of the run is stored; the content of a completed run is not published yet. -/
  | committed (content : Option String)
  /-- The response is not published yet. -/
  | completed
  /-- The response is published, or the commit has failed. -/
  | finished
  deriving DecidableEq, Repr

namespace EventKind

/-- The kinds that `agent_event_update` makes. -/
def fromAgent : EventKind → Bool
  | turnStarted | thinkingDelta | thinkingFinished | textDelta | toolStarted | toolFinished
  | turnCompleted => true
  | approvalRequired | delegationSpawned | delegationTerminal => false

/-- The kinds that `notify_delegation_parent` is called with. -/
def delegated : EventKind → Bool
  | delegationSpawned | delegationTerminal => true
  | _ => false

end EventKind

structure Course where
  feed : Feed
  phase : Phase

inductive CourseAction where
  | step (a : FeedAction)
  /-- `try_start_queued`. -/
  | start (clock : Clock)
  /-- `finish` with what the turn came to. -/
  | commit (outcome : Except (Int × String) String) (now : Int)

/-- `terminal_status`. -/
def terminalStatus : Except (Int × String) String → RunStatus
  | .ok _ => .completed
  | .error (code, _) => if code = requestCancelled then .cancelled else .failed

/-- The `finish` of the driver. -/
def commitOp (runId : RunId) (outcome : Except (Int × String) String) (now : Int) : Op :=
  match outcome with
  | .ok content => .finish runId (terminalStatus outcome) (some content) none now
  | .error error => .finish runId (terminalStatus outcome) none (some error) now

namespace Course

/-- A run that has entered the active map. -/
def init (store : RunStore) (after : Nat) : Course := ⟨Feed.init store after, .queued⟩

variable (key : ActiveKey) (runId : RunId)

/-- The calls of the store that others than the driver make, and the engine while the run is
running. Only `publish_update` appends an event that clients see, only the driver completes the
run, and a restart ends the process. -/
def permits (phase : Phase) : Op → Bool
  | .recover _ => false
  | .finish id status _ _ _ => id ≠ runId || status ≠ .completed
  | .appendEvent id event data =>
    id ≠ runId || phase = .running && (storedEventUpdate ⟨id, 0, event, data⟩).isNone
  | op => op.engineRun ≠ some runId || phase = .running

/-- The step is one that the code takes where the driver stands. -/
def allows (c : Course) : FeedAction → Bool
  | .broker (.storage op) => permits runId c.phase op
  | .broker _ => true
  | .takeApproval _ | .publish => c.phase = .running
  | .takeEvent kind _ _ => c.phase = .running && kind.fromAgent
  | .external kind _ => kind.delegated
  | .complete content => c.phase = .committed (some content)
  | .terminal _ =>
    match c.phase with
    -- `cancel` has taken the run out of the queue
    | .queued => c.feed.broker.store.status? runId = some .cancelled
    | .committed none | .completed => true
    | _ => false
  | .close =>
    match c.phase with
    | .queued | .running | .finished => true
    | _ => false
  | .view _ => true

def phaseAfter (phase : Phase) : FeedAction → Phase
  | .complete _ => .completed
  | .terminal _ => .finished
  | _ => phase

def next (c : Course) : CourseAction → Course
  | .step a =>
    if c.allows runId a then ⟨c.feed.next key runId a, phaseAfter c.phase a⟩ else c
  | .start clock =>
    match c.phase, c.feed.driver, c.feed.broker.store.tryStartQueued runId clock with
    | .queued, .idle, .ok (true, _) =>
      ⟨c.feed.next key runId (.broker (.storage (.tryStartQueued runId clock))), .running⟩
    | _, _, _ => c
  | .commit outcome now =>
    match c.phase, c.feed.driver with
    | .running, .idle =>
      match c.feed.broker.store.exec (commitOp runId outcome now) with
      | .ok (.run committed, _) =>
        ⟨c.feed.next key runId (.broker (.storage (commitOp runId outcome now))),
          .committed committed.content⟩
      | _ => ⟨c.feed.next key runId .close, .finished⟩
    | _, _ => c

end Course

/-! ## The log of the run and its channel -/

namespace Feed

/-- The events of the run. -/
def log (runId : RunId) (f : Feed) : List StoredEvent :=
  f.broker.store.events.rows.filter fun e => e.runId = runId

/-- The event has a kind that clients see. -/
def shown (e : StoredEvent) : Bool := (storedEventUpdate e).isSome

/-- A delegation stores the event in the log of the parent. -/
def delegated (e : StoredEvent) : Bool :=
  e.event = "delegation_spawned" || e.event = "delegation_terminal"

/-- An event that clients see and that the driver of the run has stored. -/
def own (e : StoredEvent) : Bool := shown e && !delegated e

/-- The updates that show the events. -/
def updates (events : List StoredEvent) : List Update := events.filterMap storedEventUpdate

variable {runId : RunId} {f : Feed} {e : StoredEvent} {kind : EventKind}

@[simp] theorem updates_append (l m : List StoredEvent) :
    updates (l ++ m) = updates l ++ updates m :=
  List.filterMap_append

theorem mem_log : e ∈ log runId f ↔ e ∈ f.broker.store.events.rows ∧ e.runId = runId := by
  rw [log, List.mem_filter, decide_eq_true_eq]

theorem storedEventUpdate_cases {u : Update} (h : storedEventUpdate e = some u) :
    ∃ kind, u = .event kind e.data (some e.runId) (some e.seq) ∧
      (e.event = "assistant_content" ∨ e.event = kind.name) := by
  obtain ⟨kind, hkind, rfl⟩ := Option.map_eq_some_iff.mp h
  refine ⟨kind, rfl, ?_⟩
  split at hkind
  · exact .inl ‹_›
  · exact .inr (EventKind.name_of_ofName? hkind).symm

theorem seq_of_update {u : Update} (h : storedEventUpdate e = some u) : u.seq? = some e.seq := by
  obtain ⟨kind, rfl, -⟩ := storedEventUpdate_cases h
  rfl

theorem updates_singleton {u : Update} (h : storedEventUpdate e = some u) : updates [e] = [u] := by
  rw [updates, List.filterMap_cons_some h]
  rfl

theorem filter_updates (l : List StoredEvent) :
    (updates l).filter (·.seq?.isSome) = updates l := by
  refine List.filter_eq_self.mpr fun u hu => ?_
  obtain ⟨e, -, he⟩ := List.mem_filterMap.mp hu
  rw [seq_of_update he]
  rfl

theorem turnEvents_of_own (h : own e = true) : e.event ∈ turnEvents := by
  obtain ⟨hshown, hdelegated⟩ := Bool.and_eq_true_iff.mp h
  obtain ⟨u, hu⟩ := Option.isSome_iff_exists.mp hshown
  obtain ⟨kind, -, hname⟩ := storedEventUpdate_cases hu
  rcases hname with hname | hname
  · rw [hname]
    decide
  · rw [delegated, hname] at hdelegated
    rw [hname]
    cases kind <;> simp_all [EventKind.name, turnEvents]

/-- The event that `publish_update` stores for an update of the driver. -/
theorem update_of_kind (runId : RunId) (n : Nat) (kind : EventKind) (data : Json) :
    storedEventUpdate ⟨runId, n, kind.name, data⟩ =
      some (.event kind data (some runId) (some n)) := by
  cases kind <;> rfl

theorem own_of_kind (hkind : kind.delegated = false) (n : Nat) (data : Json) :
    own ⟨runId, n, kind.name, data⟩ = true := by
  rw [own, shown, update_of_kind, delegated]
  cases kind <;> first | rfl | cases hkind

/-- The subscriber changes nothing but where it stands and what it was sent. -/
theorem view_eq (f : Feed) (fails : Bool) :
    f.view runId fails = { f with viewer := (f.view runId fails).viewer } := by
  unfold view
  split
  · rfl
  · split <;> rfl
  · rfl
  · split
    · rfl
    · dsimp only
      split <;> rfl
  · split <;> rfl
  · unfold replay
    dsimp only
    split
    · rfl
    · split
      · rfl
      · split <;> rfl
  · unfold receive
    split
    · rfl
    · split
      · split <;> rfl
      · split
        · rfl
        · dsimp only
          split
          · rfl
          · split <;> rfl
  · rfl

end Feed

namespace Course

open Feed

variable {key : ActiveKey} (runId : RunId) (c : Course)

/-- What `publish_committed_completion` broadcasts. -/
def completion (f : Feed) (content : String) : Update :=
  .event .turnCompleted (.obj [("content", .str content)]) (some runId)
    ((f.broker.store.readRun runId).map fun run => run.lastSeq - 1)

/-- The updates of events that are stored and that the driver is still to broadcast. -/
def upcoming : List Update :=
  (match c.feed.driver with
    | .persisted update => [update]
    | _ => []) ++
  match c.phase with
  | .committed (some content) => [completion runId c.feed content]
  | _ => []

/-- The numbered updates that a receiver has before it. -/
def stream (position : Nat) : List Update :=
  (c.feed.published.drop position ++ c.upcoming runId).filter fun u => u.seq?.isSome

/-- The driver holds an update only in the turn, and the final commit is the end of the run. -/
structure Phased : Prop where
  busy : ∀ u, c.feed.driver = .persisted u → c.phase = .running ∧ u.isTerminal = false
  idle : ∀ content, c.phase = .committed content → c.feed.driver = .idle
  ended : ∀ content, c.phase = .committed (some content) → c.feed.broker.store.Ended runId
  ongoing : c.phase = .queued ∨ c.phase = .running → ∀ v,
    c.feed.broker.store.verdict? runId = some v → v.status ≠ .completed

/-- What a step of others than the subscriber does: the events of the driver and the updates of the
channel grow by the same. -/
structure Advance (c c' : Course) (new : List StoredEvent) : Prop where
  viewer : c'.feed.viewer = c.feed.viewer
  grows : Journal.Grows (fun _ => True) c.feed.broker.store.journal c'.feed.broker.store.journal
  log : log runId c'.feed = log runId c.feed ++ new
  later : ∀ e ∈ new, ∀ n, Reached runId c.feed n → n < e.seq
  /-- Nothing comes after the response. -/
  published : c'.feed.published = c.feed.published ∨ ∃ u,
    c'.feed.published = c.feed.published ++ [u] ∧
      (u.isTerminal = true → c'.phase = .finished ∧ c'.upcoming runId = [])
  stream : ∀ position ≤ c.feed.published.length,
    c'.stream runId position = c.stream runId position ++ updates (new.filter own)
  finished : c.phase = .finished → c'.phase = .finished ∧ new.filter own = []

/-- The step resolves the run by hand. -/
def byHand : CourseAction → Bool
  | .step (.broker (.storage op)) =>
    op.reconciles = some runId && (c.feed.broker.store.exec op).isOk
  | _ => false

variable {runId} {c}

/-! ## Steps of others -/

/-- A call of the store that leaves the events of the driver alone. -/
structure Foreign (runId : RunId) (phase : Phase) (op : Op) : Prop where
  restart : ∀ clock, op ≠ .recover clock
  engine : op.engineRun = some runId → phase = .running
  manual : op.reconciles ≠ some runId
  completes : op.completes ≠ some runId
  reports : ∀ e, op.Reports e → ¬ (e.runId = runId ∧ own e = true)

theorem engine_of_permits {phase : Phase} {op : Op} (h : permits runId phase op = true)
    (hid : op.engineRun = some runId) : phase = .running := by
  cases op with
  | appendEvent id event data =>
    have hquiet : id = runId → phase = .running ∧
        storedEventUpdate ⟨id, 0, event, data⟩ = none := by
      simpa [permits, imp_iff_not_or] using h
    exact (hquiet (Option.some.inj hid)).1
  | prepareToolBatch id round calls | finishToolBatch id round
  | startTool id round callId now | finishTool id round callId outcome artifactRef receipt now
  | startProviderAttempt attempt | finishProviderAttempt attempt =>
    simpa [permits, hid] using h
  | _ => cases hid

theorem completes_of_permits {phase : Phase} {op : Op} (h : permits runId phase op = true)
    (hmanual : op.reconciles ≠ some runId) : op.completes ≠ some runId := by
  intro hcompletes
  cases op with
  | finish id status content error now =>
    have hne : id = runId → status ≠ .completed := by simpa [permits, imp_iff_not_or] using h
    cases status with
    | completed => exact hne (Option.some.inj hcompletes) rfl
    | _ => cases hcompletes
  | reconcileUnknown id sid seq status content evidence digest now => exact hmanual hcompletes
  | _ => cases hcompletes

theorem reports_of_permits {phase : Phase} {op : Op} (h : permits runId phase op = true)
    (hmanual : op.reconciles ≠ some runId) {e : StoredEvent} (he : op.Reports e) :
    ¬ (e.runId = runId ∧ own e = true) := by
  rintro ⟨hid, hown⟩
  cases op with
  | finish id status content error now =>
    have hne : id = runId → status ≠ .completed := by simpa [permits, imp_iff_not_or] using h
    exact hne (he.1.symm.trans hid) he.2.1
  | appendEvent id event data =>
    have hquiet : id = runId → phase = .running ∧
        storedEventUpdate ⟨id, 0, event, data⟩ = none := by
      simpa [permits, imp_iff_not_or] using h
    obtain ⟨k, n, event', data'⟩ := e
    obtain ⟨rfl, rfl, rfl⟩ := he
    obtain ⟨hshown, -⟩ := Bool.and_eq_true_iff.mp hown
    have hnone := (hquiet hid).2
    simp only [storedEventUpdate, Option.map_eq_none_iff] at hnone
    simp [shown, storedEventUpdate, hnone] at hshown
  | reconcileUnknown id sid seq status content evidence digest now =>
    exact hmanual (congrArg some (he.1.symm.trans hid))
  | _ => exact he.elim

theorem foreign_of_permits {phase : Phase} {op : Op} (h : permits runId phase op = true)
    (hmanual : op.reconciles ≠ some runId) : Foreign runId phase op where
  restart := by
    rintro clock rfl
    cases h
  engine := engine_of_permits h
  manual := hmanual
  completes := completes_of_permits h hmanual
  reports := fun _ he => reports_of_permits h hmanual he

theorem foreign_claim {phase : Phase} (i : InteractionId) (sessionId : SessionId) (id : RunId)
    (revision : Int) (approved : Bool) :
    Foreign runId phase (.claimInteraction i sessionId id revision approved) :=
  ⟨nofun, nofun, nofun, nofun, fun _ he => he.elim⟩

theorem foreign_start (runId : RunId) (phase : Phase) (clock : Clock) :
    Foreign runId phase (.tryStartQueued runId clock) :=
  ⟨nofun, nofun, nofun, nofun, fun _ he => he.elim⟩

/-- What an allowed step of the broker writes. -/
theorem foreign_broker {a : Action} (h : c.allows runId (.broker a) = true)
    (hmanual : c.byHand runId (.step (.broker a)) = false) :
    (c.feed.broker.next a).store = c.feed.broker.store ∨ ∃ op, Foreign runId c.phase op ∧
      (c.feed.broker.next a).store = c.feed.broker.store.next op := by
  cases a with
  | storage op =>
    by_cases hrec : op.reconciles = some runId
    · left
      cases hx : c.feed.broker.store.exec op with
      | error e => exact RunStore.next_of_error hx
      | ok p => simp [byHand, hrec, hx, Except.isOk, Except.toBool] at hmanual
    · exact .inr ⟨op, foreign_of_permits h hrec, rfl⟩
  | respond i sessionId id revision approved fails =>
    rcases Broker.respondClaimed_store (b := c.feed.broker) i approved
      (Broker.claim i sessionId id revision approved fails) with hsame | ⟨record, hclaim⟩
    · exact .inl hsame
    · cases fails with
      | true => cases hclaim
      | false => exact .inr ⟨_, foreign_claim i sessionId id revision approved,
          (next_claimInteraction hclaim).symm⟩
  | register j => exact .inl (Broker.store_register j)
  | sendFrame j ok => exact .inl (Broker.store_sendFrame j ok)
  | unregister j => exact .inl (Broker.store_unregister j)
  | poll j => exact .inl (Broker.store_poll j)
  | drop j => exact .inl (Broker.store_drop j)
  | request requestId sessionId prompt pid nonce => exact .inl rfl
  | cancel sessionId requestId =>
    left
    rw [Broker.next, Broker.cancelMatching, Broker.store_releaseAll]

/-- What a call of the store adds to the log of the run. -/
theorem log_grows (runId : RunId) {q : StoredEvent → Prop} (f f' : Feed)
    (hs : f.broker.store.journal.Sound)
    (hg : Journal.Grows q f.broker.store.journal f'.broker.store.journal) :
    ∃ new, log runId f' = log runId f ++ new ∧
      ∀ e ∈ new, q e ∧ e.runId = runId ∧ ∀ n, Reached runId f n → n < e.seq := by
  obtain ⟨added, hadded, hnew⟩ := hg.later hs
  have hrows : f'.broker.store.events.rows = f.broker.store.events.rows ++ added := hadded
  refine ⟨added.filter fun e => e.runId = runId, by rw [log, log, hrows, List.filter_append], ?_⟩
  intro e he
  obtain ⟨he, hid⟩ := List.mem_filter.mp he
  obtain ⟨hq, hlater⟩ := hnew e he
  have hid : e.runId = runId := of_decide_eq_true hid
  exact ⟨hq, hid, fun n hn => hlater n (hid ▸ hn)⟩

theorem lastSeq_of_mem {s : RunStore} {n : Nat} (h : (runId, n) ∈ s.journal.runs) :
    (s.readRun runId).map RunRecord.lastSeq = some n := by
  obtain ⟨r, hr, hkey⟩ := List.mem_map.mp h
  obtain ⟨rfl, rfl⟩ := Prod.mk.inj hkey
  have hfind : s.runs.find? r.id = some r := Table.find?_of_mem hr
  rw [RunStore.readRun, hfind]
  rfl

/-- What is to be broadcast depends on the counter of the run only. -/
theorem completion_congr {f f' : Feed} (h : (f'.broker.store.readRun runId).map RunRecord.lastSeq =
    (f.broker.store.readRun runId).map RunRecord.lastSeq) (content : String) :
    completion runId f' content = completion runId f content := by
  have hsub := congrArg (Option.map (· - 1)) h
  simp only [Option.map_map] at hsub
  exact congrArg _ hsub

theorem completion_eq {f : Feed} {n : Nat} (h : (runId, n) ∈ f.broker.store.journal.runs)
    (content : String) : completion runId f content =
      .event .turnCompleted (.obj [("content", .str content)]) (some runId) (some (n - 1)) := by
  have hseq := congrArg (Option.map (· - 1)) (lastSeq_of_mem h)
  rw [Option.map_map, Option.map_some] at hseq
  exact congrArg (Update.event _ _ _) hseq

theorem upcoming_congr {c c' : Course} (hdriver : c'.feed.driver = c.feed.driver)
    (hphase : c'.phase = c.phase)
    (hcompletion : ∀ content, c.phase = .committed (some content) →
      completion runId c'.feed content = completion runId c.feed content) :
    c'.upcoming runId = c.upcoming runId := by
  rw [upcoming, upcoming, hdriver, hphase]
  refine congrArg (_ ++ ·) ?_
  split
  · rename_i content hc
    rw [hcompletion content hc]
  · rfl

/-- Where others write, the log of the run grows without an event of the driver. -/
theorem advance_foreign {c c' : Course} (hs : c.feed.broker.store.journal.Sound)
    (hphased : c.Phased runId) {op : Op} (hop : Foreign runId c.phase op)
    (hstore : c'.feed.broker.store = c.feed.broker.store.next op)
    (hviewer : c'.feed.viewer = c.feed.viewer) (hpublished : c'.feed.published = c.feed.published)
    (hdriver : c'.feed.driver = c.feed.driver)
    (hphase : c'.phase = c.phase ∨ c.phase = .queued ∧ c'.phase = .running) :
    ∃ new, Advance runId c c' new := by
  have hgrows := RunStore.next_logs (q := fun e => ¬ (e.runId = runId ∧ own e = true))
    (fun _ e _ he hown => he (turnEvents_of_own hown.2)) c.feed.broker.store op hop.reports
  rw [← hstore] at hgrows
  obtain ⟨new, hlog, hnew⟩ := log_grows runId c.feed c'.feed hs hgrows
  have hnone : new.filter own = [] := List.filter_eq_nil_iff.mpr fun e he hown =>
    (hnew e he).1 ⟨(hnew e he).2.1, hown⟩
  have hupcoming : c'.upcoming runId = c.upcoming runId := by
    rcases hphase with hphase | ⟨hqueued, hrunning⟩
    · refine upcoming_congr hdriver hphase fun content hc => completion_congr ?_ content
      have hended := hphased.ended content hc
      have hclosed := RunStore.next_closed hended hop.restart
        (fun hengine => by rw [hop.engine hengine] at hc; cases hc) hop.manual
      obtain ⟨r, hr⟩ := hended.dequeued.exists_run
      have hmem := RunStore.mem_journal hr
      rw [lastSeq_of_mem hmem, hstore]
      exact lastSeq_of_mem (hclosed.counter hmem)
    · rw [upcoming, upcoming, hdriver, hqueued, hrunning]
  refine ⟨new, hviewer, hgrows.mono fun _ _ => trivial, hlog, fun e he => (hnew e he).2.2,
    .inl hpublished, ?_, ?_⟩
  · intro position _
    rw [hnone, stream, stream, hpublished, hupcoming]
    exact (List.append_nil _).symm
  · intro hover
    rcases hphase with hphase | ⟨hqueued, -⟩
    · exact ⟨hphase.trans hover, hnone⟩
    · cases hqueued.symm.trans hover

/-! ## Steps of the driver -/

theorem Advance.refl (c : Course) : Advance runId c c [] :=
  ⟨rfl, .refl, (List.append_nil _).symm, nofun, .inl rfl, fun _ _ => (List.append_nil _).symm,
    fun h => ⟨h, rfl⟩⟩

/-- A step that leaves the store as it is moves what was to come into the channel. -/
theorem advance_channel {c c' : Course} (hstore : c'.feed.broker.store = c.feed.broker.store)
    (hviewer : c'.feed.viewer = c.feed.viewer)
    (hpublished : c'.feed.published = c.feed.published ∨ ∃ u,
      c'.feed.published = c.feed.published ++ [u] ∧
        (u.isTerminal = true → c'.phase = .finished ∧ c'.upcoming runId = []))
    (hstream : ∀ position ≤ c.feed.published.length,
      c'.stream runId position = c.stream runId position)
    (hover : c.phase = .finished → c'.phase = .finished) : Advance runId c c' [] where
  viewer := hviewer
  grows := hstore ▸ .refl
  log := by rw [log, log, hstore, List.append_nil]
  later := nofun
  published := hpublished
  stream := fun position hp => (hstream position hp).trans (List.append_nil _).symm
  finished := fun h => ⟨hover h, rfl⟩

/-- What is broadcast was to come, or has no number. -/
theorem advance_broadcast {u : Update} {driver : Driver} {phase : Phase}
    (hcoming : (u :: upcoming runId ⟨{ c.feed with driver }, phase⟩).filter (·.seq?.isSome) =
      (c.upcoming runId).filter (·.seq?.isSome))
    (hover : c.phase = .finished → phase = .finished)
    (hlast : u.isTerminal = true →
      phase = .finished ∧ upcoming runId ⟨{ c.feed with driver }, phase⟩ = []) :
    Advance runId c ⟨{ c.feed.broadcast u with driver }, phase⟩ [] := by
  refine advance_channel rfl rfl (.inr ⟨u, rfl, hlast⟩) (fun position hp => ?_) hover
  have hdrop : (c.feed.published ++ [u]).drop position = c.feed.published.drop position ++ [u] :=
    List.drop_append_of_le_length hp
  have hsplit : stream runId ⟨{ c.feed.broadcast u with driver }, phase⟩ position =
      (c.feed.published.drop position ++
        u :: upcoming runId ⟨{ c.feed with driver }, phase⟩).filter (·.seq?.isSome) := by
    rw [List.append_cons, ← hdrop]
    rfl
  rw [hsplit, stream, List.filter_append, List.filter_append, hcoming]

/-- The driver stores an event and holds the update that shows it. -/
theorem advance_persist (hs : c.feed.broker.store.journal.Sound) (hidle : c.feed.driver = .idle)
    (hphase : c.phase = .running) (kind : EventKind) (hkind : kind.delegated = false) (data : Json)
    (fails : Bool) :
    ∃ new, Advance runId c ⟨c.feed.persist runId kind data fails, c.phase⟩ new := by
  rcases persist_cases runId c.feed kind data fails with hsame | ⟨seq, store, hok, hstep⟩
  · rw [hsame]
    exact ⟨[], .refl c⟩
  obtain ⟨m, rfl, hm, -, hevents⟩ := RunStore.appendEvent_journal hok
  have hrows : store.events.rows =
      c.feed.broker.store.events.rows ++ [⟨runId, m + 1, kind.name, data⟩] := hevents
  have hown : [(⟨runId, m + 1, kind.name, data⟩ : StoredEvent)].filter own =
      [⟨runId, m + 1, kind.name, data⟩] := by
    rw [List.filter_singleton, own_of_kind hkind]
    rfl
  rw [hstep]
  refine ⟨[⟨runId, m + 1, kind.name, data⟩], rfl,
    RunStore.appendEvent_grows hok .refl fun _ => trivial, ?_, ?_, .inl rfl, ?_, ?_⟩
  · rw [log, log, hrows, List.filter_append, List.filter_singleton]
    simp
  · intro e he n hn
    rw [List.mem_singleton.mp he]
    exact Nat.lt_succ_of_le (hn.le hs hm)
  · intro position _
    rw [hown, updates_singleton (update_of_kind runId (m + 1) kind data), stream, stream, upcoming,
      upcoming, hidle, hphase]
    simp [Update.seq?]
  · intro hover
    cases hphase.symm.trans hover

/-- Nothing is to come when the response is. -/
theorem upcoming_terminal (hphased : c.Phased runId) {result : Except (Int × String) Json}
    (ha : c.allows runId (.terminal result) = true) (phase : Phase)
    (hphase : ∀ content, phase ≠ .committed content) :
    c.upcoming runId = [] ∧ upcoming runId ⟨c.feed, phase⟩ = [] := by
  have hdriver : ∀ u, c.feed.driver ≠ .persisted u := by
    intro u hu
    rw [allows, (hphased.busy u hu).1] at ha
    cases ha
  have hcontent : ∀ content, c.phase ≠ .committed (some content) := by
    intro content hc
    rw [allows, hc] at ha
    cases ha
  constructor
  · unfold upcoming
    split
    · exact absurd ‹_› (hdriver _)
    · split
      · exact absurd ‹_› (hcontent _)
      · rfl
  · unfold upcoming
    split
    · exact absurd ‹_› (hdriver _)
    · split
      · exact absurd ‹_› (hphase _)
      · rfl

/-- The driver takes an allowed step of its own, or a child of the run is reported. -/
theorem advance_step (hs : c.feed.broker.store.journal.Sound) (hphased : c.Phased runId)
    {a : FeedAction} (ha : c.allows runId a = true) (hview : ∀ fails, a ≠ .view fails)
    (hmanual : c.byHand runId (.step a) = false) :
    ∃ new, Advance runId c ⟨c.feed.next key runId a, phaseAfter c.phase a⟩ new := by
  cases a with
  | broker a =>
    rw [Feed.next, stepBroker]
    split
    · rcases foreign_broker ha hmanual with hstore | ⟨op, hop, hstore⟩
      · refine ⟨[], advance_channel hstore rfl (.inl rfl) (fun position _ => ?_) id⟩
        refine congrArg (fun l => (c.feed.published.drop position ++ l).filter (·.seq?.isSome)) ?_
        refine upcoming_congr rfl rfl fun content _ => completion_congr ?_ content
        exact congrArg (fun s => (s.readRun runId).map RunRecord.lastSeq) hstore
      · exact advance_foreign hs hphased hop hstore rfl rfl rfl (.inl rfl)
    · exact ⟨[], .refl c⟩
  | takeApproval fails =>
    have hphase : c.phase = .running := of_decide_eq_true ha
    rw [Feed.next]
    split
    · rename_i info queue hidle hqueue
      obtain ⟨new, h⟩ := advance_persist (c := ⟨{ c.feed with queue }, c.phase⟩) hs hidle hphase
        .approvalRequired rfl (approvalData key runId info) fails
      exact ⟨new, h.viewer, h.grows, h.log, h.later, h.published, h.stream, h.finished⟩
    · exact ⟨[], .refl c⟩
  | takeEvent kind data fails =>
    obtain ⟨hphase, hkind⟩ := Bool.and_eq_true_iff.mp ha
    rw [Feed.next]
    split
    · rename_i hidle
      split
      · exact ⟨[], .refl c⟩
      · refine advance_persist hs hidle (of_decide_eq_true hphase) kind ?_ data fails
        cases kind <;> first | rfl | cases hkind
    · exact ⟨[], .refl c⟩
  | publish =>
    have hphase : c.phase = .running := of_decide_eq_true ha
    rw [Feed.next]
    split
    · rename_i u hu
      refine ⟨[], advance_broadcast ?_ id fun hlast => ?_⟩
      · rw [upcoming, upcoming, hu, hphase]
        rfl
      · rw [(hphased.busy u hu).2] at hlast
        cases hlast
    · exact ⟨[], .refl c⟩
  | external kind data =>
    rw [Feed.next]
    split
    · exact ⟨[], .refl c⟩
    · split
      · exact ⟨[], .refl c⟩
      · exact ⟨[], advance_broadcast rfl id fun hlast => by cases hlast⟩
  | complete content =>
    have hphase : c.phase = .committed (some content) := of_decide_eq_true ha
    have hidle := hphased.idle _ hphase
    rw [Feed.next, hidle]
    refine ⟨[], advance_broadcast ?_ ?_ fun hlast => by cases hlast⟩
    · rw [upcoming, upcoming, hidle, hphase]
      rfl
    · intro hover
      cases hphase.symm.trans hover
  | terminal result =>
    have hnone := upcoming_terminal hphased ha .finished fun _ hc => by cases hc
    rw [Feed.next]
    split
    · refine ⟨[], advance_channel rfl rfl (.inl rfl) (fun position _ => ?_) fun _ => rfl⟩
      rw [stream, stream, hnone.1]
      exact congrArg (fun l => (c.feed.published.drop position ++ l).filter (·.seq?.isSome)) hnone.2
    · refine ⟨[], advance_broadcast ?_ (fun _ => rfl) fun _ => ⟨rfl, hnone.2⟩⟩
      rw [hnone.1]
      exact congrArg (List.filter _ <| _ :: ·) hnone.2
  | close =>
    rw [Feed.next]
    split
    · rename_i hidle
      refine ⟨[], advance_channel rfl rfl (.inl rfl) (fun position _ => ?_) id⟩
      rw [stream, stream, upcoming, upcoming, hidle]
      rfl
    · exact ⟨[], .refl c⟩
  | view fails => exact absurd rfl (hview fails)

theorem start_cases (key : ActiveKey) (runId : RunId) (c : Course) (clock : Clock) :
    c.next key runId (.start clock) = c ∨
    (c.phase = .queued ∧ c.next key runId (.start clock) =
      ⟨c.feed.next key runId (.broker (.storage (.tryStartQueued runId clock))), .running⟩) := by
  unfold Course.next
  dsimp only
  split
  · exact .inr ⟨‹_›, rfl⟩
  · exact .inl rfl

theorem advance_start (hs : c.feed.broker.store.journal.Sound) (hphased : c.Phased runId)
    (clock : Clock) : ∃ new, Advance runId c (c.next key runId (.start clock)) new := by
  rcases start_cases key runId c clock with hsame | ⟨hqueued, hnext⟩
  · rw [hsame]
    exact ⟨[], .refl c⟩
  · rw [hnext]
    exact advance_foreign hs hphased (foreign_start runId c.phase clock) rfl rfl rfl rfl
      (.inr ⟨hqueued, rfl⟩)

/-! ## The final commit -/

/-- The commit ends the run without content, or it stores the content before the end. -/
theorem commit_grows {s s' : RunStore} (hs : s.journal.Sound)
    (hongoing : ∀ v, s.verdict? runId = some v → v.status ≠ .completed)
    {outcome : Except (Int × String) String} {now : Int} {rec : RunRecord}
    (h : s.exec (commitOp runId outcome now) = .ok (.run rec, s')) : s'.Ended runId ∧
    ((rec.content = none ∧ Journal.Grows (fun e => e.event ∉ turnEvents) s.journal s'.journal) ∨
    ∃ c n, rec.content = some c ∧ (runId, n) ∈ s.journal.runs ∧ (runId, n + 2) ∈ s'.journal.runs ∧
      Journal.Grows (fun e => e.event ∉ turnEvents)
        (s.journal.log runId n "assistant_content" (.obj [("content", .str c)])) s'.journal) := by
  cases outcome with
  | ok content =>
    obtain ⟨r, hr, hx⟩ := RunStore.of_exec h
    cases hr
    refine ⟨finish_ended hx, ?_⟩
    have hlive : s.Unended runId := by
      obtain ⟨-, ⟨-, hread, -, hverdict⟩ | ⟨current, _, _, _, _, hcur, hgoing, -⟩⟩ :=
        RunStore.finish_cases hx
      · have hv : s.verdict? runId = some rec.verdict := by
          rw [RunStore.verdict?, hread]
          rfl
        exact absurd (by rw [hverdict]; rfl) (hongoing _ hv)
      · exact ⟨_, (RunStore.readRun_view hcur).2, hgoing⟩
    rcases RunStore.finish_content hs hlive hx with hnone | ⟨hsome, n, hn⟩
    · exact .inl hnone
    · exact .inr ⟨content, n, hsome, hn⟩
  | error e =>
    obtain ⟨r, hr, hx⟩ := RunStore.of_exec h
    cases hr
    have hstatus : terminalStatus (.error e) ≠ .completed := by
      unfold terminalStatus
      dsimp only
      split <;> decide
    refine ⟨finish_ended hx, .inl ⟨?_, RunStore.finish_silent hstatus hx⟩⟩
    rcases RunStore.content_finish hx with ⟨-, hnone⟩ | hnone
    · exact hnone
    · rw [hnone, RunStore.verdictContent, ite_self]

theorem commit_cases (key : ActiveKey) (runId : RunId) (c : Course)
    (outcome : Except (Int × String) String) (now : Int) :
    c.next key runId (.commit outcome now) = c ∨
    (c.phase = .running ∧ c.feed.driver = .idle ∧
      ((∃ rec s', c.feed.broker.store.exec (commitOp runId outcome now) = .ok (.run rec, s') ∧
        c.next key runId (.commit outcome now) =
          ⟨c.feed.next key runId (.broker (.storage (commitOp runId outcome now))),
            .committed rec.content⟩) ∨
      c.next key runId (.commit outcome now) = ⟨{ c.feed with driver := .closed }, .finished⟩)) := by
  unfold Course.next
  dsimp only
  split
  · rename_i hphase hidle
    refine .inr ⟨hphase, hidle, ?_⟩
    split
    · exact .inl ⟨_, _, ‹_›, rfl⟩
    · right
      rw [Feed.next, hidle]
  · exact .inl rfl

theorem next_commit (f : Feed) (outcome : Except (Int × String) String) (now : Int) :
    f.next key runId (.broker (.storage (commitOp runId outcome now))) =
      { f with broker := f.broker.next (.storage (commitOp runId outcome now)) } := by
  cases outcome <;> rfl

/-- The commit stores the events whose updates are to come. -/
theorem advance_committed (hphase : c.phase = .running) (hidle : c.feed.driver = .idle)
    {broker : Broker} {content : Option String} {new : List StoredEvent}
    (hgrows : Journal.Grows (fun _ => True) c.feed.broker.store.journal broker.store.journal)
    (hlog : log runId { c.feed with broker } = log runId c.feed ++ new)
    (hlater : ∀ e ∈ new, ∀ n, Reached runId c.feed n → n < e.seq)
    (hcoming : updates (new.filter own) =
      upcoming runId ⟨{ c.feed with broker }, .committed content⟩) :
    Advance runId c ⟨{ c.feed with broker }, .committed content⟩ new where
  viewer := rfl
  grows := hgrows
  log := hlog
  later := hlater
  published := .inl rfl
  stream := by
    intro position _
    have hbefore : c.upcoming runId = [] := by
      rw [upcoming, hidle, hphase]
      rfl
    rw [stream, stream, hbefore, ← hcoming, List.filter_append, filter_updates, List.append_nil]
  finished := by
    intro hover
    cases hphase.symm.trans hover

/-- The content of a completed run is stored as its only event that clients see. -/
theorem log_content (f f' : Feed) (hs : f.broker.store.journal.Sound) {content : String} {n : Nat}
    (hn : (runId, n) ∈ f.broker.store.journal.runs)
    (hlast : (runId, n + 2) ∈ f'.broker.store.journal.runs)
    (hgrows : Journal.Grows (fun e => e.event ∉ turnEvents)
      (f.broker.store.journal.log runId n "assistant_content" (.obj [("content", .str content)]))
      f'.broker.store.journal) :
    ∃ new, log runId f' = log runId f ++ new ∧
      (∀ e ∈ new, ∀ m, Reached runId f m → m < e.seq) ∧
      updates (new.filter own) = [completion runId f' content] := by
  let e : StoredEvent := ⟨runId, n + 1, "assistant_content", .obj [("content", .str content)]⟩
  obtain ⟨added, hadded, hnew⟩ := hgrows.later (hs.log hn _ _)
  have hrows : f'.broker.store.events.rows = f.broker.store.events.rows ++ [e] ++ added := hadded
  have hsilent : (added.filter fun e => e.runId = runId).filter own = [] :=
    List.filter_eq_nil_iff.mpr fun x hx hown =>
      (hnew x (List.mem_filter.mp hx).1).1 (turnEvents_of_own hown)
  refine ⟨e :: added.filter fun e => e.runId = runId, ?_, ?_, ?_⟩
  · rw [log, log, hrows, List.filter_append, List.filter_append, List.append_assoc]
    simp [e]
  · intro x hx m hm
    rcases List.mem_cons.mp hx with rfl | hx
    · exact Nat.lt_succ_of_le (hm.le hs hn)
    · obtain ⟨hx, hid⟩ := List.mem_filter.mp hx
      have hlogged : Journal.Grows (fun _ => True) f.broker.store.journal
          (f.broker.store.journal.log runId n "assistant_content"
            (.obj [("content", .str content)])) := Journal.Grows.refl.log hn trivial
      refine (hnew x hx).2 m ?_
      rw [(of_decide_eq_true hid : x.runId = runId)]
      exact hm.grows hs hlogged
  · rw [completion_eq hlast, List.filter_cons_of_pos rfl, hsilent]
    rfl

theorem advance_commit (hs : c.feed.broker.store.journal.Sound) (hphased : c.Phased runId)
    (outcome : Except (Int × String) String) (now : Int) :
    ∃ new, Advance runId c (c.next key runId (.commit outcome now)) new := by
  rcases commit_cases key runId c outcome now with
    hsame | ⟨hphase, hidle, ⟨rec, s', hx, hnext⟩ | hnext⟩
  · rw [hsame]
    exact ⟨[], .refl c⟩
  · have hstore : (c.feed.broker.next (.storage (commitOp runId outcome now))).store = s' :=
      RunStore.next_of_ok hx
    rw [hnext, next_commit]
    generalize c.feed.broker.next (.storage (commitOp runId outcome now)) = broker at hstore
    have hcoming : upcoming runId ⟨{ c.feed with broker }, .committed rec.content⟩ =
        (rec.content.map (completion runId { c.feed with broker })).toList := by
      rw [upcoming]
      cases rec.content <;> simp [hidle]
    obtain ⟨-, ⟨hnone, hgrows⟩ | ⟨content, n, hsome, hn, hlast, hgrows⟩⟩ :=
      commit_grows hs (hphased.ongoing (.inr hphase)) hx
    · rw [← hstore] at hgrows
      obtain ⟨new, hlog, hnew⟩ := log_grows runId c.feed { c.feed with broker }
        hs hgrows
      refine ⟨new, advance_committed hphase hidle (hgrows.mono fun _ _ => trivial) hlog
        (fun e he => (hnew e he).2.2) ?_⟩
      have hsilent : new.filter own = [] := List.filter_eq_nil_iff.mpr fun e he hown =>
        (hnew e he).1 (turnEvents_of_own hown)
      rw [hcoming, hnone, hsilent]
      rfl
    · rw [← hstore] at hgrows hlast
      obtain ⟨new, hlog, hlater, hupdates⟩ := log_content c.feed { c.feed with broker } hs hn hlast
        hgrows
      have hwrites : Journal.Grows (fun _ => True) c.feed.broker.store.journal
          broker.store.journal :=
        (Journal.Grows.refl.log hn trivial).trans (hgrows.mono fun _ _ => trivial)
      refine ⟨new, advance_committed hphase hidle hwrites hlog hlater ?_⟩
      rw [hcoming, hsome]
      exact hupdates
  · rw [hnext]
    refine ⟨[], advance_channel rfl rfl (.inl rfl) (fun position _ => ?_) fun _ => rfl⟩
    rw [stream, stream, upcoming, upcoming, hidle, hphase]

/-- Whatever is taken by others than the subscriber, the events of the driver and the updates of
the channel grow by the same. -/
theorem advance_next (key : ActiveKey) (hs : c.feed.broker.store.journal.Sound)
    (hphased : c.Phased runId)    {a : CourseAction} (hview : ∀ fails, a ≠ .step (.view fails))
    (hmanual : c.byHand runId a = false) :
    ∃ new, Advance runId c (c.next key runId a) new := by
  cases a with
  | step a =>
    unfold Course.next
    dsimp only
    split
    · exact advance_step hs hphased ‹_› (fun fails he => hview fails (congrArg _ he)) hmanual
    · exact ⟨[], .refl c⟩
  | start clock => exact advance_start hs hphased clock
  | commit outcome now => exact advance_commit hs hphased outcome now

/-! ## The phases -/

theorem Foreign.asks {phase : Phase} {op : Op} (h : Foreign runId phase op)
    (hphase : phase ≠ .running) : op.approvalRun ≠ some runId := by
  intro hask
  obtain ⟨id, hid⟩ : ∃ id, op.engineRun = some id := by
    cases op with
    | appendEvent id event data => exact ⟨id, rfl⟩
    | _ => cases hask
  obtain rfl := Op.approvalRun_of_engineRun hid hask
  exact hphase (h.engine hid)

theorem Foreign.ongoing {phase : Phase} {op : Op} {s : RunStore} (h : Foreign runId phase op)
    (hs : ∀ v, s.verdict? runId = some v → v.status ≠ .completed) :
    ∀ v, (s.next op).verdict? runId = some v → v.status ≠ .completed := by
  intro v hv hst
  rcases completed_of_next hv hst with hold | hrec | ⟨content, error, now, rfl, -⟩
  · exact hs v hold hst
  · exact h.manual hrec
  · exact h.completes rfl

/-- A call of the store keeps to the phase. -/
theorem Phased.call (h : c.Phased runId) {broker : Broker} {queue : List PendingApprovalInfo}
    (hstore : broker.store = c.feed.broker.store ∨
      ∃ op, Foreign runId c.phase op ∧ broker.store = c.feed.broker.store.next op)
    {phase : Phase} (hphase : phase = c.phase ∨ c.phase = .queued ∧ phase = .running) :
    Phased runId ⟨{ c.feed with broker, queue }, phase⟩ where
  busy := by
    intro u hu
    obtain ⟨hrunning, hevent⟩ := h.busy u hu
    rcases hphase with rfl | ⟨hqueued, -⟩
    · exact ⟨hrunning, hevent⟩
    · cases hqueued.symm.trans hrunning
  idle := by
    intro content hc
    rcases hphase with rfl | ⟨-, rfl⟩
    · exact h.idle content hc
    · cases hc
  ended := by
    intro content hc
    have hold : c.phase = .committed (some content) := by
      rcases hphase with rfl | ⟨-, rfl⟩
      · exact hc
      · cases hc
    rcases hstore with hsame | ⟨op, hop, hnext⟩
    · show broker.store.Ended runId
      rw [hsame]
      exact h.ended content hold
    · show broker.store.Ended runId
      rw [hnext]
      exact (h.ended content hold).next hop.restart (hop.asks (by rw [hold]; nofun))
  ongoing := by
    intro hc
    have hold := h.ongoing (by rcases hphase with rfl | ⟨hq, -⟩; exacts [hc, .inl hq])
    rcases hstore with hsame | ⟨op, hop, hnext⟩
    · show ∀ v, broker.store.verdict? runId = some v → _
      rw [hsame]
      exact hold
    · show ∀ v, broker.store.verdict? runId = some v → _
      rw [hnext]
      exact hop.ongoing hold

theorem Phased.of_running (hphase : c.phase = .running)
    (hevent : ∀ u, c.feed.driver = .persisted u → u.isTerminal = false)
    (h : ∀ v, c.feed.broker.store.verdict? runId = some v → v.status ≠ .completed) :
    c.Phased runId where
  busy := fun u hu => ⟨hphase, hevent u hu⟩
  idle := fun _ hc => by cases hphase.symm.trans hc
  ended := fun _ hc => by cases hphase.symm.trans hc
  ongoing := fun _ => h

theorem Phased.settled {c : Course} (hphase : c.phase = .completed ∨ c.phase = .finished)
    (hdriver : ∀ u, c.feed.driver ≠ .persisted u) : c.Phased runId where
  busy := fun u hu => absurd hu (hdriver u)
  idle := by
    intro content hc
    rcases hphase with hphase | hphase <;> cases hphase.symm.trans hc
  ended := by
    intro content hc
    rcases hphase with hphase | hphase <;> cases hphase.symm.trans hc
  ongoing := by
    intro hc
    rcases hphase with hphase | hphase <;> rcases hc with hc | hc <;> cases hphase.symm.trans hc

theorem Phased.persist (h : c.Phased runId) (hphase : c.phase = .running) (kind : EventKind)
    (data : Json) (fails : Bool) :
    Phased runId ⟨c.feed.persist runId kind data fails, c.phase⟩ := by
  rcases persist_cases runId c.feed kind data fails with hsame | ⟨seq, store, hok, hstep⟩
  · rw [hsame]
    exact h
  · rw [hstep]
    refine Phased.of_running hphase (fun u hu => ?_) fun v hv hst => ?_
    · cases hu
      rfl
    · have hexec : c.feed.broker.store.exec (.appendEvent runId kind.name data) =
          .ok (.seq seq, store) := congrArg (Prod.map Reply.seq id <$> ·) hok
      have hv : store.verdict? runId = some v := hv
      rw [← RunStore.next_of_ok hexec] at hv
      exact h.ongoing (.inr hphase) v (completed_of_other rfl hv hst) hst

theorem phased_step (h : c.Phased runId) {a : FeedAction} (ha : c.allows runId a = true)
    (hmanual : c.byHand runId (.step a) = false) :
    Phased runId ⟨c.feed.next key runId a, phaseAfter c.phase a⟩ := by
  cases a with
  | broker a =>
    rw [Feed.next, stepBroker]
    split
    · exact h.call (foreign_broker ha hmanual) (.inl rfl)
    · exact h
  | takeApproval fails =>
    rw [Feed.next]
    split
    · rename_i info queue hidle hqueue
      have hq : Phased runId ⟨{ c.feed with queue }, c.phase⟩ :=
        ⟨h.busy, h.idle, h.ended, h.ongoing⟩
      exact hq.persist (of_decide_eq_true ha) _ _ fails
    · exact h
  | takeEvent kind data fails =>
    have hphase := of_decide_eq_true (Bool.and_eq_true_iff.mp ha).1
    rw [Feed.next]
    split
    · split
      · exact h
      · exact h.persist hphase kind data fails
    · exact h
  | publish =>
    have hphase : c.phase = .running := of_decide_eq_true ha
    rw [Feed.next]
    split
    · refine .of_running hphase (fun _ hu => ?_) (h.ongoing (.inr hphase))
      cases hu
    · exact h
  | external kind data =>
    rw [Feed.next]
    split
    · exact h
    · split
      · exact h
      · exact ⟨h.busy, h.idle, h.ended, h.ongoing⟩
  | complete content =>
    have hphase : c.phase = .committed (some content) := of_decide_eq_true ha
    have hidle := h.idle _ hphase
    rw [Feed.next, hidle]
    refine .settled (.inl rfl) fun u hu => ?_
    cases hidle.symm.trans hu
  | terminal result =>
    have hdriver : ∀ u, c.feed.driver ≠ .persisted u := by
      intro u hu
      rw [allows, (h.busy u hu).1] at ha
      cases ha
    rw [Feed.next]
    split
    · exact .settled (.inr rfl) hdriver
    · exact .settled (.inr rfl) hdriver
  | close =>
    have hphase : ∀ content, c.phase ≠ .committed content := by
      intro content hc
      rw [allows, hc] at ha
      cases ha
    rw [Feed.next]
    split
    · refine ⟨fun _ hu => ?_, fun content hc => absurd hc (hphase content),
        fun content hc => absurd hc (hphase _), h.ongoing⟩
      cases hu
    · exact h
  | view fails =>
    rw [Feed.next, view_eq]
    exact ⟨h.busy, h.idle, h.ended, h.ongoing⟩

theorem phased_next (hs : c.feed.broker.store.journal.Sound) (h : c.Phased runId) {a : CourseAction}
    (hmanual : c.byHand runId a = false) : (c.next key runId a).Phased runId := by
  cases a with
  | step a =>
    unfold Course.next
    dsimp only
    split
    · exact phased_step h ‹_› hmanual
    · exact h
  | start clock =>
    rcases start_cases key runId c clock with hsame | ⟨hqueued, hnext⟩
    · rw [hsame]
      exact h
    · rw [hnext]
      exact h.call (.inr ⟨_, foreign_start runId c.phase clock, rfl⟩) (.inr ⟨hqueued, rfl⟩)
  | commit outcome now =>
    rcases commit_cases key runId c outcome now with
      hsame | ⟨hphase, hidle, ⟨rec, s', hx, hnext⟩ | hnext⟩
    · rw [hsame]
      exact h
    · rw [hnext, next_commit]
      have hstore : c.feed.broker.store.next (commitOp runId outcome now) = s' :=
        RunStore.next_of_ok hx
      refine ⟨fun u hu => ?_, fun _ _ => hidle, fun content _ => ?_, fun hc => ?_⟩
      · cases hidle.symm.trans hu
      · show (c.feed.broker.store.next (commitOp runId outcome now)).Ended runId
        rw [hstore]
        exact (commit_grows hs (h.ongoing (.inr hphase)) hx).1
      · rcases hc with hc | hc <;> cases hc
    · rw [hnext]
      refine .settled (.inr rfl) fun u hu => ?_
      cases hu

/-- The driver enters no run that is completed. -/
theorem phased_init {store : RunStore} (hopen : store.status? runId ≠ some .completed)
    (after : Nat) : Phased runId (init store after) := by
  refine ⟨nofun, nofun, nofun, fun _ v hv hst => ?_⟩
  have hstatus : store.status? runId = some v.status := by
    have hmap := congrArg (Option.map Verdict.status) ((verdict?_eq store runId).symm.trans hv)
    rw [Option.map_map] at hmap
    exact (status?_eq store runId).trans hmap
  exact hopen (hst ▸ hstatus)

end Course

end AgentDaemon.Daemon
