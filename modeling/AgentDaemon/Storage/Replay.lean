import AgentDaemon.Lib.Sourcing
import AgentDaemon.Storage.Closing
import AgentDaemon.Storage.Waiting

/-!
The log of a run as its record. A reader that has nothing but the events of a run can tell its
status, its content, its error and its open questions (`Standing`), because every operation logs
what it does to a run (`tells_next`). So the columns of a run row are the replay of its log, page by
page and from any cursor (`replay_pages`, `replay_resumed`), as long as no caller appends an event
under a name that the store keeps for itself.
-/

namespace AgentDaemon.Storage

open Transition Fallible Sourcing

/-- `RunStatus::parse`. -/
def RunStatus.parse : String → Except RuntimeError RunStatus
  | "queued" => .ok .queued
  | "running" => .ok .running
  | "waiting_interaction" => .ok .waitingInteraction
  | "completed" => .ok .completed
  | "failed" => .ok .failed
  | "cancelled" => .ok .cancelled
  | "unknown_after_restart" => .ok .unknownAfterRestart
  | value => .error (.protocol ("未知 run 状态: " ++ value))

/-- What a reader of the log knows of a run. `draft` is content that has been logged while the
verdict it belongs to has not. -/
structure Standing where
  verdict : Verdict
  pending : List InteractionId
  draft : Option String
  deriving DecidableEq, Repr

/-! ## Reading -/

namespace Standing

def setStatus (v : Standing) (status : RunStatus) : Standing :=
  { v with verdict := { v.verdict with status } }

def asNum? : Json → Option Int
  | .num n => some n
  | _ => none

/-- The status that an event names. -/
def statusOf (data : Json) : Option RunStatus :=
  (data.index "status").asStr?.bind fun name =>
    match RunStatus.parse name with
    | .ok status => some status
    | .error _ => none

/-- A `terminal` event. Only the one that `finish` logs has an `error_code`; the others leave the
content and the error as they are. -/
def close (v : Standing) (data : Json) : Standing :=
  match statusOf data with
  | none => v
  | some status =>
    match data.get? "error_code" with
    | none => { v.setStatus status with pending := [] }
    | some code =>
      ⟨⟨status, v.draft, asNum? code, (data.index "error_message").asStr?⟩, [], none⟩

/-- A `manual_resolution` event. -/
def resolve (v : Standing) (data : Json) : Standing :=
  match statusOf data with
  | none => v
  | some status =>
    let error := RunStore.resolutionError status
    ⟨⟨status, v.draft, error.map Prod.fst, error.map Prod.snd⟩, v.pending, none⟩

/-- An `interaction_resolved` event: the run goes on when no other question is open. -/
def settle (v : Standing) (data : Json) : Standing :=
  match (data.index "interaction_id").asStr? with
  | none => v
  | some i =>
    let pending := v.pending.filter (· ≠ ⟨i⟩)
    let v := { v with pending }
    if pending = [] then v.setStatus .running else v

/-- One more event of the run. A run is first heard of by its `user_message`. -/
def read (v : Option Standing) (e : StoredEvent) : Option Standing :=
  if e.event = "user_message" then some ⟨⟨.queued, none, none, none⟩, [], none⟩
  else v.map fun v =>
    if e.event = "run_started" then v.setStatus .running
    else if e.event = "approval_required" then
      match RunStore.approvalRequested e.event e.data with
      | none => v
      | some i => { v.setStatus .waitingInteraction with pending := v.pending ++ [i] }
    else if e.event = "interaction_resolved" then v.settle e.data
    else if e.event = "assistant_content" then
      { v with draft := (e.data.index "content").asStr? }
    else if e.event = "terminal" then v.close e.data
    else if e.event = "manual_resolution" then v.resolve e.data
    else v

end Standing

/-- The standing of a run that its events tell. -/
def replay (events : List StoredEvent) : Option Standing := events.foldl Standing.read none

/-- The events of the store that change the standing of a run. -/
def ownEvents : List String :=
  ["user_message", "run_started", "interaction_resolved", "assistant_content", "terminal",
    "manual_resolution"]

/-- The caller of `append_event` leaves the names of the store alone. `publish_update` appends under
the names of `EventKind`, the engine under `provider_circuit`, `provider_retry` and
`provider_fallback`. -/
def Op.Foreign : Op → Prop
  | .appendEvent _ event _ => event ∉ ownEvents
  | _ => True

instance : DecidablePred Op.Foreign := fun op => by
  cases op <;> unfold Op.Foreign <;> infer_instance

namespace RunStore

/-- The open questions of a run, oldest first. -/
def questionsOf (s : RunStore) (id : RunId) : List InteractionId :=
  (s.interactions.rows.filter fun i => i.runId = id && i.status = .pending).map Interaction.id

/-- The standing of a run in the tables. -/
def standing (s : RunStore) (id : RunId) : Option Standing :=
  (s.runs.find? id).map fun r => ⟨r.verdict, s.questionsOf id, none⟩

/-- The stored events of a run, in the order in which they were stored. -/
def logOf (s : RunStore) (id : RunId) : List StoredEvent := s.events.rows.filter (·.runId = id)

/-- The step logs all that it does to the standing of a run. -/
abbrev Tells (s s' : RunStore) : Prop :=
  Sourcing.Tells StoredEvent.runId Standing.read (fun s : RunStore => s.events.rows) standing s s'

end RunStore

/-! ## What an event tells -/

namespace Standing

/-- An event of the callers that asks for nothing tells nothing. -/
theorem read_idle {e : StoredEvent} (he : e.event ∉ ownEvents)
    (ha : RunStore.approvalRequested e.event e.data = none) (v : Option Standing) :
    read v e = v := by
  simp only [ownEvents, List.mem_cons, List.not_mem_nil, or_false, not_or] at he
  obtain ⟨h1, h2, h3, h4, h5, h6⟩ := he
  simp only [read, h1, h2, h3, h4, h5, h6, if_false, ha]
  cases v with
  | none => rfl
  | some v => simp

theorem approvalRequested_of_ne {event : String} (data : Json) (h : event ≠ "approval_required") :
    RunStore.approvalRequested event data = none := by
  rw [RunStore.approvalRequested, if_neg h]

@[simp] theorem parse_asStr (status : RunStatus) : RunStatus.parse status.asStr = .ok status := by
  cases status <;> rfl

theorem statusOf_cons {status : RunStatus} {rest : List (String × Json)} :
    statusOf (.obj (("status", status.toJson) :: rest)) = some status := by
  simp [statusOf, Json.index, Json.get?, RunStatus.toJson, Json.asStr?]

/-- The end of a run that nobody reports on. -/
theorem close_status (v : Standing) (status : RunStatus) :
    v.close (.obj [("status", status.toJson)]) = { v.setStatus status with pending := [] } := by
  rw [close, statusOf_cons]
  rfl

/-- The end that `finish` logs. -/
theorem close_verdict (v : Standing) (status : RunStatus) (error : Option (Int × String))
    (kind : Json) :
    v.close (.obj [("status", status.toJson), ("error_code", .ofOption .num (error.map Prod.fst)),
      ("error_message", .ofOption .str (error.map Prod.snd)), ("provider_error_kind", kind)]) =
      ⟨⟨status, v.draft, error.map Prod.fst, error.map Prod.snd⟩, [], none⟩ := by
  rw [close, statusOf_cons]
  cases error <;> rfl

theorem resolve_status (v : Standing) (status : RunStatus) (digest evidence : Json) (seq : Nat) :
    v.resolve (.obj [("from", .str "unknown_after_restart"), ("status", status.toJson),
      ("evidence_sha256", digest), ("evidence_note", evidence),
      ("previous_last_seq", .num seq)]) =
      ⟨⟨status, v.draft, (RunStore.resolutionError status).map Prod.fst,
        (RunStore.resolutionError status).map Prod.snd⟩, v.pending, none⟩ := by
  have hst : statusOf (.obj [("from", .str "unknown_after_restart"), ("status", status.toJson),
      ("evidence_sha256", digest), ("evidence_note", evidence),
      ("previous_last_seq", .num seq)]) = some status := by
    cases status <;> rfl
  rw [resolve, hst]

theorem settle_answer (v : Standing) (i : InteractionId) (approved : Bool) (revision : Int) :
    v.settle (.obj [("interaction_id", .str i.val), ("approved", .bool approved),
      ("revision", .num revision)]) =
      if v.pending.filter (· ≠ i) = [] then { v.setStatus .running with pending := [] }
      else { v with pending := v.pending.filter (· ≠ i) } := by
  have hid : ((Json.obj [("interaction_id", .str i.val), ("approved", .bool approved),
      ("revision", .num revision)]).index "interaction_id").asStr? = some i.val := rfl
  rw [settle, hid]
  dsimp only
  split
  · rename_i h
    rw [h]
    rfl
  · rfl

theorem read_answer (v : Standing) (id : RunId) (n : Nat) (i : InteractionId) (approved : Bool)
    (revision : Int) :
    read (some v) ⟨id, n, "interaction_resolved", .obj [("interaction_id", .str i.val),
      ("approved", .bool approved), ("revision", .num revision)]⟩ =
      some (if v.pending.filter (· ≠ i) = [] then { v.setStatus .running with pending := [] }
        else { v with pending := v.pending.filter (· ≠ i) }) := by
  rw [← settle_answer v i approved revision]
  rfl

end Standing

namespace RunStore

variable {s s' t : RunStore} {id k : RunId} {event : String} {data : Json} {n : Nat}

/-! ## Rows and columns -/

theorem standing_eq (s : RunStore) (id : RunId) :
    s.standing id = (s.control.run? id).map fun v => ⟨v.verdict, s.questionsOf id, none⟩ := by
  rw [standing, control_run?, Option.map_map]
  rfl

theorem insertEvent_rows (h : s.insertEvent id event data = .ok (n, s')) :
    s'.events.rows = s.events.rows ++ [⟨id, n, event, data⟩] := by
  obtain ⟨run, events, -, -, hev, rfl⟩ := insertEvent_spec h
  exact Table.rows_insert hev

theorem insertEvent_interactions (h : s.insertEvent id event data = .ok (n, s')) :
    s'.interactions = s.interactions := by
  obtain ⟨run, events, -, -, -, rfl⟩ := insertEvent_spec h
  rfl

theorem questionsOf_congr (h : s'.interactions = s.interactions) (id : RunId) :
    s'.questionsOf id = s.questionsOf id := by
  rw [questionsOf, questionsOf, h]

theorem insertEvent_standing (h : s.insertEvent id event data = .ok (n, s')) (k : RunId) :
    s'.standing k = s.standing k := by
  rw [standing_eq, standing_eq, insertEvent_control h,
    questionsOf_congr (insertEvent_interactions h)]

/-- One event that tells nothing. -/
theorem insertEvent_tells (h : s.insertEvent id event data = .ok (n, s'))
    (he : event ∉ ownEvents) (ha : approvalRequested event data = none) : s.Tells s' := by
  refine .idle (insertEvent_rows h) ?_ (insertEvent_standing h)
  intro e hmem v
  rw [List.mem_singleton.mp hmem]
  exact Standing.read_idle he ha v

/-- An event of the store about a part of its state that no standing shows. -/
theorem aside_tells (h : s.insertEvent id event data = .ok (n, s'))
    (he : event ∉ "approval_required" :: ownEvents) : s.Tells s' := by
  rw [List.mem_cons, not_or] at he
  exact insertEvent_tells h he.2 (Standing.approvalRequested_of_ne _ he.1)

/-- The end of a run is told to its parent, and changes the standing of nobody. -/
theorem markTerminalIn_idle {rec : RunRecord} {now : Int}
    (h : s.markTerminalIn id rec now = .ok s') :
    ∃ events, s'.events.rows = s.events.rows ++ events ∧
      (∀ e ∈ events, ∀ v, Standing.read v e = v) ∧
      (∀ k, s'.control.run? k = s.control.run? k) ∧ s'.interactions = s.interactions := by
  have hrun : ∀ k, s'.control.run? k = s.control.run? k := by
    intro k
    rw [markTerminalIn_control h]
    rfl
  rcases markTerminalIn_cases h with ⟨-, rfl⟩ | ⟨d, -, rfl | ⟨parent, n, data, -, -, hev⟩⟩
  · exact ⟨[], by simp, by simp, hrun, rfl⟩
  · exact ⟨[], by simp [closeDelegation], by simp, hrun, rfl⟩
  · have hrows := insertEvent_rows hev
    have hint := insertEvent_interactions hev
    refine ⟨_, hrows, ?_, hrun, hint⟩
    intro e he v
    rw [List.mem_singleton.mp he]
    have hname : "delegation_terminal" ∉ ownEvents := by decide
    have hask : "delegation_terminal" ≠ "approval_required" := by decide
    exact Standing.read_idle hname (Standing.approvalRequested_of_ne _ hask) v

theorem markTerminalIn_tells {rec : RunRecord} {now : Int}
    (h : s.markTerminalIn id rec now = .ok s') : s.Tells s' := by
  obtain ⟨events, hrows, hidle, hrun, hint⟩ := markTerminalIn_idle h
  refine .idle hrows hidle fun k => ?_
  rw [standing_eq, standing_eq, hrun, questionsOf_congr hint]

theorem run?_updateRun_ne {c : Control} {f : Verdict → Verdict} (hk : k ≠ id) :
    (c.updateRun id f).run? k = c.run? k := by
  rw [Control.run?_updateRun]
  cases hv : c.run? k with
  | none => rfl
  | some v =>
    have hne : v.id ≠ id := fun h => hk ((Control.id_of_run? hv).symm.trans h)
    rw [Option.map_some, if_neg hne]

/-- A write of the verdict of one run, and of its questions. -/
theorem standing_write (id : RunId) {f : Verdict → Verdict}
    (hc : ∀ k, t.control.run? k = (s.control.updateRun id f).run? k)
    (hq : ∀ k ≠ id, t.questionsOf k = s.questionsOf k) :
    (∀ k ≠ id, t.standing k = s.standing k) ∧
      t.standing id =
        (s.control.run? id).map fun v => ⟨f v.verdict, t.questionsOf id, none⟩ := by
  constructor
  · intro k hk
    rw [standing_eq, standing_eq, hc, hq k hk, run?_updateRun_ne hk]
  · rw [standing_eq, hc, Control.run?_updateRun_self, Option.map_map]
    rfl

/-- The questions that are left when the rows in `p` are settled. -/
theorem questionsOf_settled {p : Interaction → Bool} {f : Interaction → Interaction}
    (hf : ∀ i, (f i).id = i.id) (ht : t.interactions = s.interactions.update p f hf)
    (hst : ∀ i, (f i).status ≠ .pending) (k : RunId) :
    t.questionsOf k = (s.interactions.rows.filter fun i =>
      (i.runId = k && i.status = .pending) && !p i).map Interaction.id := by
  rw [questionsOf, ht, Table.rows_update]
  induction s.interactions.rows with
  | nil => rfl
  | cons i rows ih =>
    rw [List.map_cons, List.filter_cons, List.filter_cons]
    cases hp : p i with
    | true =>
      simp only [if_true, hst i, decide_false, Bool.and_false, Bool.false_eq_true, if_false,
        Bool.not_true]
      exact ih
    | false =>
      simp only [Bool.false_eq_true, if_false, Bool.not_false, Bool.and_true]
      split
      · rw [List.map_cons, List.map_cons, ih]
      · exact ih

theorem questionsOf_orphanPending (s : RunStore) (id k : RunId) :
    (s.orphanPending id).questionsOf k = if k = id then [] else s.questionsOf k := by
  rw [questionsOf_settled (s := s) Archive.id_closed rfl (by simp)]
  split
  · rename_i hk
    subst hk
    rw [List.map_eq_nil_iff, List.filter_eq_nil_iff]
    intro i _
    simp
  · rename_i hk
    refine congrArg _ (List.filter_congr fun i _ => ?_)
    by_cases hi : i.runId = k
    · simp [hi, hk]
    · simp [hi]

theorem questionsOf_answer (s : RunStore) (i : InteractionId) (approved : Bool) (k : RunId) :
    (s.answerInteraction i approved).questionsOf k = (s.questionsOf k).filter (· ≠ i) := by
  rw [questionsOf_settled (s := s) (Archive.id_answered approved) rfl]
  · rw [questionsOf, List.filter_map, List.filter_filter]
    refine congrArg _ (List.filter_congr fun x _ => ?_)
    by_cases hx : x.status = .pending <;> simp [hx, Bool.and_comm]
  · intro x
    cases approved <;> simp [answered]

/-- A run that does not wait has no open question. -/
theorem questionsOf_eq_nil (hs : Matched s) (h : ¬ s.control.Waits id) : s.questionsOf id = [] := by
  rw [questionsOf, List.map_eq_nil_iff, List.filter_eq_nil_iff]
  intro i hi hp
  simp only [Bool.and_eq_true, decide_eq_true_eq] at hp
  exact h ((hs id).mpr ⟨i, hi, hp.1, hp.2⟩)

/-! ## The operations -/

theorem tryStartQueued_tells {clock : Clock} {b : Bool}
    (h : s.tryStartQueued id clock = .ok (b, s')) : s.Tells s' := by
  rcases tryStartQueued_cases h with ⟨-, rfl, -⟩ | ⟨n, data, s₁, -, -, -, hone, hev, rfl⟩
  · exact .refl s'
  · have hc := (insertEvent_control hev).trans (control_moveRun .running hone)
    have hrows := insertEvent_rows hev
    have hint := insertEvent_interactions hev
    have hq : ∀ k, s₁.questionsOf k = s.questionsOf k := questionsOf_congr hint
    obtain ⟨hother, hown⟩ := standing_write id (s := s) (t := s₁)
      (f := ({ · with status := .running })) (fun k => by rw [hc]) fun k _ => hq k
    have hstart : s.Tells s₁ := by
      refine .own hrows (by simp) hother ?_
      rw [hown, standing_eq, hq]
      simp [Standing.read, Standing.setStatus, Function.comp_def]
    exact hstart.trans (.silent rfl fun _ => rfl)

theorem removeQueued_tells (hs : Matched s) {now : Int} {b : Bool}
    (h : s.removeQueued id now = .ok (b, s')) : s.Tells s' := by
  rcases removeQueued_cases h with ⟨rfl, hone, n, s₁, rec, hev, -, hterm⟩ | ⟨rfl, hone, rfl⟩
  · refine Sourcing.Tells.trans ?_ (markTerminalIn_tells hterm)
    have hc := insertEvent_control hev
    rw [control_moveQueued, control_setTurn, control_moveRun .cancelled hone] at hc
    have hrows := insertEvent_rows hev
    have hint := insertEvent_interactions hev
    have hq : ∀ k, s₁.questionsOf k = s.questionsOf k := questionsOf_congr hint
    obtain ⟨hother, hown⟩ := standing_write id (s := s) (t := s₁)
      (f := ({ · with status := .cancelled })) (fun k => by rw [hc]; rfl) fun k _ => hq k
    refine .own hrows (by simp) hother ?_
    -- A queued run has no question that the end could close.
    have hquiet : s.questionsOf id = [] := by
      refine questionsOf_eq_nil hs ?_
      obtain ⟨v, hv, hst⟩ := runsIn_eq_one.mp hone
      rintro ⟨w, hw, hwait⟩
      cases hv.symm.trans hw
      cases hst.symm.trans hwait
    rw [hown, standing_eq, hq, hquiet]
    simp [Standing.read, Standing.close_status, Standing.setStatus, Function.comp_def]
  · rw [moveRun_eq_self hone]
    exact .refl s

/-- A run enters with the event that a reader first hears of it by. -/
theorem enqueueRun_tells (hs : Matched s) {sid : SessionId} {rid : RequestId} {input : String}
    {route : Option Provider.RouteSnapshot} {now : Int}
    (h : s.enqueueRun sid rid input route now = .ok (id, s')) : s.Tells s' := by
  obtain ⟨-, hfresh, -, hc⟩ := enqueueRun_spec h
  have hev : ∃ n data, s'.events.rows = s.events.rows ++ [⟨id, n, "user_message", data⟩] ∧
      s'.interactions = s.interactions := by
    simp only [enqueueRun, bind_eq_ok, constraint_eq_ok, pure_eq_ok] at h
    obtain ⟨runs, -, turns, -, routes, -, ⟨n, s₁⟩, hev, queued, -, h⟩ := h
    have hrows := insertEvent_rows hev
    have hint := insertEvent_interactions hev
    cases h
    exact ⟨n, _, hrows, hint⟩
  obtain ⟨n, data, hrows, hint⟩ := hev
  have hnone : s.control.run? id = none := by
    rw [control_run?, hfresh]
    rfl
  have hq : s.questionsOf id = [] := by
    refine questionsOf_eq_nil hs ?_
    rintro ⟨v, hv, -⟩
    cases hnone.symm.trans hv
  have hfind : ∀ k, s'.control.run? k = (s.control.run? k).or
      (if id = k then some ⟨id, sid, ⟨.queued, none, none, none⟩⟩ else none) := by
    intro k
    simp only [hc, Change.apply, Control.run?, List.find?_append, List.find?_singleton,
      decide_eq_true_eq]
  refine .own (k := id) hrows (by simp) ?_ ?_
  · intro k hk
    rw [standing_eq, standing_eq, hfind, if_neg (Ne.symm hk), Option.or_none,
      questionsOf_congr hint]
  · rw [standing_eq, hfind, hnone, if_pos rfl, questionsOf_congr hint, hq]
    rfl

theorem admitWithRoute_tells (hs : Matched s) {sid : SessionId} {rid : RequestId} {input : String}
    {mode : AdmissionMode} {route : Option Provider.RouteSnapshot} {now : Int} {a : Admission}
    (h : s.admitWithRoute sid rid input mode route now = .ok (a, s')) : s.Tells s' := by
  rcases admitWithRoute_cases h with ⟨stored, -, -, -, -, -, rfl⟩ | ⟨-, rec, -, -, henq⟩
  · exact .refl s'
  · have hs' : Matched { s with sessions := (s.sessions.insert sid).getD s.sessions } := hs
    have henter := enqueueRun_tells hs' henq
    exact henter

theorem enqueueChild_tells (hs : Matched s) {request : DelegationRequest}
    {position : TreePosition} {now : Int} {rec : DelegationRecord}
    (h : s.enqueueChild request position now = .ok (rec, s')) : s.Tells s' := by
  simp only [enqueueChild, bind_eq_ok, constraint_eq_ok] at h
  obtain ⟨sessions, -, ⟨id, s₁⟩, henq, delegations, -, ⟨n, s₂⟩, hev, h⟩ := h
  have hs' : Matched { s with sessions } := hs
  have henter := enqueueRun_tells hs' henq
  have hparent := aside_tells hev (by decide)
  dsimp only at h
  split at h
  · cases h
  · cases h
    exact Sourcing.Tells.trans (s := s) (t := s₁) henter hparent

theorem admitDelegation_tells (hs : Matched s) {request : DelegationRequest} {clock : Clock}
    {rec : DelegationRecord} (h : s.admitDelegation request clock = .ok (rec, s')) :
    s.Tells s' := by
  rcases admitDelegation_cases h with ⟨rfl, -⟩ | ⟨parent, -, hx⟩
  · exact .refl s'
  · exact enqueueChild_tells hs hx

theorem writeDelegation_tells {f : Delegation → Delegation}
    {hf : ∀ d, (f d).childRunId = d.childRunId} {rec : DelegationRecord}
    (h : s.writeDelegation id f hf = .ok (rec, s')) : s.Tells s' := by
  rw [(writeDelegation_cases h).2]
  exact .silent rfl fun _ => rfl

/-- A caller appends an event, and a question with it if the event asks one. -/
theorem appendEvent_tells (hown : event ∉ ownEvents)
    (h : s.appendEvent id event data = .ok (n, s')) : s.Tells s' := by
  obtain ⟨s₁, hev, ⟨hnone, rfl⟩ | ⟨i, prompt, payload, interactions, rfl, hasked, hins, rfl⟩⟩ :=
    appendEvent_cases h
  · exact insertEvent_tells hev hown hnone
  · have hrows := insertEvent_rows hev
    have hask : ∀ k, { s₁ with interactions }.questionsOf k =
        s.questionsOf k ++ if id = k then [i] else [] := by
      intro k
      rw [← questionsOf_congr (insertEvent_interactions hev) k]
      simp only [questionsOf, Table.rows_insert hins, List.filter_append, List.map_append]
      by_cases hk : id = k <;> simp [hk]
    have hc : { s₁ with interactions }.control = s.control := by
      rw [← insertEvent_control hev]
      rfl
    obtain ⟨hother, hst⟩ := standing_write id (s := s)
      (t := { s₁ with interactions }.setRun id .waitingInteraction)
      (f := ({ · with status := .waitingInteraction })) (fun k => by rw [control_setRun, hc])
      fun k hk => by
        have hk' := hask k
        rw [if_neg (Ne.symm hk), List.append_nil] at hk'
        exact hk'
    refine .own hrows (by simp) hother ?_
    have hq : ({ s₁ with interactions }.setRun id .waitingInteraction).questionsOf id =
        s.questionsOf id ++ [i] := by
      have hid := hask id
      rw [if_pos rfl] at hid
      exact hid
    rw [hst, standing_eq, hq]
    simp [Standing.read, Standing.setStatus, Function.comp_def, hasked]

theorem pendingInteractions_eq_zero :
    s.pendingInteractions id = 0 ↔ s.questionsOf id = [] := by
  rw [pendingInteractions, Table.count, questionsOf, List.map_eq_nil_iff,
    List.countP_eq_length_filter, List.length_eq_zero_iff]

/-- A run that is asked nothing under the name of `i` keeps its questions when `i` is answered. -/
theorem filter_questionsOf_ne {x : Interaction} (hx : s.interactions.find? x.id = some x)
    (hk : k ≠ x.runId) : (s.questionsOf k).filter (· ≠ x.id) = s.questionsOf k := by
  rw [List.filter_eq_self]
  intro j hj
  obtain ⟨y, hy, rfl⟩ := List.mem_map.mp hj
  obtain ⟨hmem, hy⟩ := List.mem_filter.mp hy
  simp only [Bool.and_eq_true, decide_eq_true_eq] at hy
  rw [decide_eq_true_eq]
  intro he
  have hfind := Table.find?_of_mem hmem
  rw [he, hx] at hfind
  cases hfind
  exact hk hy.1.symm

/-- An answer takes the question away, and the run goes on when that was the last one. -/
theorem claimInteraction_tells {i : InteractionId} {sid : SessionId} {revision : Int}
    {approved : Bool} {rec : InteractionRecord}
    (h : s.claimInteraction i sid id revision approved = .ok (rec, s')) : s.Tells s' := by
  rcases claimInteraction_cases h with
    ⟨rfl, -⟩ | ⟨x, run, m, hx, rfl, hpending, -, hrun, -, hwaiting, hev, -⟩
  · exact .refl s'
  · have hrows := insertEvent_rows hev
    have hans : (s.answering i x.runId approved).events = s.events ∧
        (s.answering i x.runId approved).interactions =
          (s.answerInteraction i approved).interactions := by
      unfold answering
      split <;> exact ⟨rfl, rfl⟩
    have hint := (insertEvent_interactions hev).trans hans.2
    have hq : ∀ k, s'.questionsOf k = (s.questionsOf k).filter (· ≠ i) := by
      intro k
      rw [← questionsOf_answer s i approved k]
      exact questionsOf_congr hint k
    rw [hans.1] at hrows
    obtain rfl : x.id = i := Table.key_of_find? hx
    have hother : ∀ k ≠ x.runId, s'.questionsOf k = s.questionsOf k := by
      intro k hk
      rw [hq, filter_questionsOf_ne hx hk]
    have hc := insertEvent_control hev
    have hcount : (s.answerInteraction x.id approved).pendingInteractions x.runId = 0 ↔
        (s.questionsOf x.runId).filter (· ≠ x.id) = [] := by
      rw [pendingInteractions_eq_zero, questionsOf_answer]
    have hv : s.control.run? x.runId = some run.view := by
      rw [control_run?, hrun]
      rfl
    by_cases hlast : (s.questionsOf x.runId).filter (· ≠ x.id) = []
    · have hone : (s.answerInteraction x.id approved).runsIn x.runId .waitingInteraction = 1 :=
        runsIn_eq_one.mpr ⟨run.view, hv, hwaiting⟩
      rw [answering, if_pos (hcount.mpr hlast), control_moveRun .running hone] at hc
      obtain ⟨hothers, hst⟩ := standing_write x.runId (s := s) (t := s')
        (f := ({ · with status := .running })) (fun k => by rw [hc]; rfl) hother
      refine .own hrows (by simp) hothers ?_
      rw [hst, standing_eq, hq, hlast, hv, List.foldl_cons, List.foldl_nil, Option.map_some,
        Option.map_some, Standing.read_answer, if_pos hlast]
      rfl
    · rw [answering, if_neg (mt hcount.mp hlast)] at hc
      have hst : ∀ k, s'.standing k =
          (s.control.run? k).map fun v => ⟨v.verdict, s'.questionsOf k, none⟩ := by
        intro k
        rw [standing_eq, hc]
        rfl
      refine .own (k := x.runId) hrows (by simp) ?_ ?_
      · intro k hk
        rw [hst, hother k hk, standing_eq]
      · rw [hst, standing_eq, hv, hq, List.foldl_cons, List.foldl_nil, Option.map_some,
          Option.map_some, Standing.read_answer, if_neg hlast]

/-! ### Verdicts -/

/-- The content of a verdict is logged ahead of it. -/
theorem insertContent_rows {content : Option String} {rest : List (String × Json)}
    (h : s.insertContent id (content.map fun c => .obj (("content", .str c) :: rest)) = .ok s') :
    ∃ events, s'.events.rows = s.events.rows ++ events ∧ (∀ e ∈ events, e.runId = id) ∧
      s'.interactions = s.interactions ∧
      ∀ v : Standing, v.draft = none →
        events.foldl Standing.read (some v) = some { v with draft := content } := by
  cases content with
  | none =>
    cases h
    refine ⟨[], by simp, by simp, rfl, ?_⟩
    intro v hv
    rw [← hv]
    rfl
  | some c =>
    obtain ⟨⟨n, s₁⟩, hev, rfl⟩ := map_eq_ok.mp h
    refine ⟨_, insertEvent_rows hev, by simp, insertEvent_interactions hev, fun v _ => ?_⟩
    have hc : ((Json.obj (("content", .str c) :: rest)).index "content").asStr? = some c := by
      simp [Json.index, Json.get?, Json.asStr?]
    simp [Standing.read, hc]

/-- A verdict on a run, after its content and with the event that announces it. -/
theorem verdict_tells {s₁ s₂ : RunStore} {status : RunStatus} {content : Option String}
    {error : Option (Int × String)} {rest : List (String × Json)}
    (left : List InteractionId → List InteractionId)
    (hcontent : s.insertContent id (content.map fun c => .obj (("content", .str c) :: rest)) =
      .ok s₁)
    (hev : s₁.insertEvent id event data = .ok (n, s₂))
    (hread : ∀ v : Standing, v.draft = content → Standing.read (some v) ⟨id, n, event, data⟩ =
      some ⟨⟨status, content, error.map Prod.fst, error.map Prod.snd⟩, left v.pending, none⟩)
    (ht : t.control = (s₂.setVerdict id status content error).control)
    (hrows : t.events.rows = s₂.events.rows)
    (hq : ∀ k, t.questionsOf k = if k = id then left (s₂.questionsOf id) else s₂.questionsOf k) :
    s.Tells t := by
  obtain ⟨events, hlog, hall, hint, hdraft⟩ := insertContent_rows hcontent
  have hc : s₂.control = s.control :=
    (insertEvent_control hev).trans (insertContent_control hcontent)
  have hq' : ∀ k, s₂.questionsOf k = s.questionsOf k :=
    questionsOf_congr ((insertEvent_interactions hev).trans hint)
  obtain ⟨hother, hown⟩ := standing_write id (s := s) (t := t)
    (f := fun _ => ⟨status, content, error.map Prod.fst, error.map Prod.snd⟩)
    (fun k => by rw [ht, control_setVerdict, hc]; rfl)
    (fun k hk => by rw [hq, if_neg hk, hq'])
  have hall' : t.events.rows = s.events.rows ++ (events ++ [⟨id, n, event, data⟩]) := by
    rw [hrows, insertEvent_rows hev, hlog, List.append_assoc]
  refine .own (k := id) hall' ?_ hother ?_
  · intro e he
    rcases List.mem_append.mp he with he | he
    · exact hall e he
    · rw [List.mem_singleton.mp he]
  · rw [hown, hq, if_pos rfl, hq', standing_eq]
    cases hv : s.control.run? id with
    | none =>
      obtain ⟨run, -, hrun, -⟩ := insertEvent_spec hev
      have hc₁ := insertContent_control hcontent
      rw [← hc₁, control_run?, hrun] at hv
      cases hv
    | some v =>
      rw [Option.map_some, Option.map_some, List.foldl_append, hdraft _ rfl, List.foldl_cons,
        List.foldl_nil, hread _ rfl]

theorem finish_tells {status : RunStatus} {content : Option String}
    {error : Option (Int × String)} {now : Int} {rec : RunRecord}
    (h : s.finish id status content error now = .ok (rec, s')) : s.Tells s' := by
  unfold finish at h
  split at h
  · cases h
  split at h
  · cases h
  split at h
  · split at h
    · cases h
      exact .refl _
    · cases h
  · obtain ⟨s₁, hcontent, h⟩ := bind_eq_ok.mp h
    obtain ⟨⟨n, s₂⟩, hev, h⟩ := bind_eq_ok.mp h
    dsimp only at h
    split at h
    · cases h
    · obtain ⟨s₃, hterm, h⟩ := bind_eq_ok.mp h
      cases h
      refine Sourcing.Tells.trans ?_ (markTerminalIn_tells hterm)
      refine verdict_tells (fun _ => []) hcontent hev ?_ (control_orphanPending _ _) rfl
        (questionsOf_orphanPending _ id)
      intro v hv
      rw [← hv]
      exact congrArg some (v.close_verdict _ _ _)

theorem reconcileUnknown_tells {sid : SessionId} {expectedLastSeq : Nat} {status : RunStatus}
    {content : Option String} {evidence digest : String} {now : Int} {rec : RunRecord}
    (h : s.reconcileUnknown id sid expectedLastSeq status content evidence digest now =
      .ok (rec, s')) : s.Tells s' := by
  unfold reconcileUnknown at h
  split at h
  · cases h
  split at h
  · cases h
  split at h
  · cases h
  split at h
  · cases h
  obtain ⟨s₁, hcontent, h⟩ := bind_eq_ok.mp h
  obtain ⟨⟨n, s₂⟩, hev, h⟩ := bind_eq_ok.mp h
  dsimp only at h
  split at h
  · cases h
  · obtain ⟨s₃, hterm, h⟩ := bind_eq_ok.mp h
    cases h
    refine Sourcing.Tells.trans ?_ (markTerminalIn_tells hterm)
    refine verdict_tells (fun pending => pending) hcontent hev ?_ rfl rfl ?_
    · intro v hv
      rw [← hv]
      exact congrArg some (v.resolve_status _ _ _ _)
    · intro k
      by_cases hk : k = id
      · rw [if_pos hk, hk]
        rfl
      · rw [if_neg hk]
        rfl

/-! ### Restart -/

/-- A run shows the questions that `q` gives it. While `recover` ends the runs, the log of a run
that it has ended shows none, and its rows are closed after the last of them. -/
def shown (p : RunStore × (RunId → List InteractionId)) (id : RunId) : Option Standing :=
  (p.1.control.run? id).map fun v => ⟨v.verdict, p.2 id, none⟩

theorem shown_mk (s : RunStore) (q : RunId → List InteractionId) (id : RunId) :
    shown (s, q) id = (s.control.run? id).map fun v => ⟨v.verdict, q id, none⟩ := rfl

abbrev Shows (p p' : RunStore × (RunId → List InteractionId)) : Prop :=
  Sourcing.Tells StoredEvent.runId Standing.read (fun p => p.1.events.rows) shown p p'

theorem recoverRun_shows {now : Int} (q : RunId → List InteractionId)
    (h : s.recoverRun id now = .ok s') : Shows (s, q) (s', Function.update q id []) := by
  obtain ⟨n, s₁, rec, hev, -, hterm⟩ := recoverRun_cases h
  have hrows := insertEvent_rows hev
  have hend : Shows (s, q) (((s₁.setRun id .unknownAfterRestart).setTurn id
      .unknownAfterRestart).setQueued id .unknownAfterRestart, Function.update q id []) := by
    have hc : ∀ k, (((s₁.setRun id .unknownAfterRestart).setTurn id
        .unknownAfterRestart).setQueued id .unknownAfterRestart).control.run? k =
        (s.control.updateRun id ({ · with status := .unknownAfterRestart })).run? k := by
      intro k
      rw [control_setQueued, control_setTurn, control_setRun, insertEvent_control hev]
      rfl
    refine .own (k := id) hrows (by simp) ?_ ?_
    · intro k hk
      rw [shown_mk, shown_mk, hc, run?_updateRun_ne hk, Function.update_of_ne hk]
    · rw [shown_mk, shown_mk, hc, Control.run?_updateRun_self, Function.update_self]
      simp [Standing.read, Standing.close_status, Standing.setStatus, Function.comp_def]
  obtain ⟨events, hrows', hidle, hrun, -⟩ := markTerminalIn_idle hterm
  refine hend.trans (.idle hrows' hidle fun k => ?_)
  rw [shown_mk, shown_mk, hrun]

theorem recoverRuns_shows {clock : Clock} (l : List (RunId × Nat)) (q : RunId → List InteractionId)
    (h : l.foldlM (fun s (p : RunId × Nat) => s.recoverRun p.1 (clock p.2)) s = .ok s') :
    ∃ q', Shows (s, q) (s', q') ∧ ∀ k, (k ∈ l.map Prod.fst ∨ q k = []) → q' k = [] := by
  induction l generalizing s q with
  | nil =>
    rw [List.foldlM_nil, pure_eq_ok] at h
    subst h
    exact ⟨q, .refl _, fun k hk => hk.resolve_left List.not_mem_nil⟩
  | cons p l ih =>
    rw [List.foldlM_cons, bind_eq_ok] at h
    obtain ⟨s₁, hs₁, h⟩ := h
    obtain ⟨q', hq', hnil⟩ := ih (Function.update q p.1 []) h
    refine ⟨q', (recoverRun_shows q hs₁).trans hq', fun k hk => hnil k ?_⟩
    by_cases hkp : k = p.1
    · exact .inr (by rw [hkp, Function.update_self])
    · rw [Function.update_of_ne hkp]
      exact hk.imp_left fun hmem => (List.mem_cons.mp hmem).resolve_left hkp

/-- After a restart nothing waits and nothing is asked, in the tables and in the log. -/
theorem recover_tells (hs : Matched s) {clock : Clock} (h : s.recover clock = .ok (n, s')) :
    s.Tells s' := by
  have hquiet : ∀ k, s'.questionsOf k = [] := by
    intro k
    refine questionsOf_eq_nil (matched_recover hs h) ?_
    rintro ⟨v, hv, hst⟩
    exact not_going_of_recover h k ⟨.waitingInteraction, by rw [status?_eq, hv, ← hst]; rfl, rfl⟩
  simp only [recover, bind_eq_ok, pure_eq_ok] at h
  obtain ⟨s₁, hs₁, h⟩ := h
  obtain ⟨q', ⟨events, hrows, htold⟩, hnil⟩ := recoverRuns_shows _ s.questionsOf hs₁
  have hq' : ∀ k, q' k = [] := by
    intro k
    refine hnil k ?_
    by_cases hw : s.control.Waits k
    · obtain ⟨v, hv, hst⟩ := hw
      rw [control_run?, Option.map_eq_some_iff] at hv
      obtain ⟨r, hr, rfl⟩ := hv
      have hstatus : r.status = .waitingInteraction := hst
      refine .inl ?_
      have hfst : (((s.runs.rows.filter fun r => r.status.active).map Run.id).zipIdx.map Prod.fst) =
          (s.runs.rows.filter fun r => r.status.active).map Run.id := by simp
      rw [hfst, ← Table.key_of_find? hr]
      refine List.mem_map.mpr ⟨r, List.mem_filter.mpr ⟨Table.mem_of_find? hr, ?_⟩, rfl⟩
      rw [hstatus]
      rfl
    · exact .inr (questionsOf_eq_nil hs hw)
  have hrows' : s'.events = s₁.events := by
    cases h
    rfl
  have hc : s'.control = s₁.control := by
    cases h
    rfl
  refine ⟨events, (congrArg Table.rows hrows').trans hrows, ?_⟩
  intro k
  have hk := htold k
  rw [shown_mk, shown_mk, hq'] at hk
  rw [standing_eq, standing_eq, hc, hquiet]
  exact hk

/-! ### What no standing shows -/

theorem transitionResult_tells {owner : String} {revision : Int} {target : ResultState}
    {clock : Clock} {rec : DelegationRecord}
    (h : s.transitionResult id owner revision target clock = .ok (rec, s')) : s.Tells s' := by
  rcases transitionResult_cases h with ⟨rfl, -⟩ | ⟨d, -, -, hwrite⟩
  · exact .refl s'
  · exact writeDelegation_tells hwrite

/-- Every operation logs what it does to the standing of a run. -/
theorem exec_tells {op : Op} {reply : Reply} (hs : Matched s) (hop : op.Foreign)
    (h : s.exec op = .ok (reply, s')) : s.Tells s' := by
  cases op <;> obtain ⟨r, -, hx⟩ := of_exec h
  case admitWithRoute => exact admitWithRoute_tells hs hx
  case tryStartQueued => exact tryStartQueued_tells hx
  case removeQueued => exact removeQueued_tells hs hx
  case prepareToolBatch =>
    obtain ⟨run, tools, n, data, -, -, -, -, hev⟩ := prepareToolBatch_cases hx
    have htell := aside_tells hev (by decide)
    exact htell
  case startTool =>
    rw [moveTool_eq hx]
    exact .silent rfl fun _ => rfl
  case finishTool =>
    rw [moveTool_eq hx]
    exact .silent rfl fun _ => rfl
  case finishToolBatch =>
    obtain ⟨n, data, hev⟩ := finishToolBatch_cases hx
    exact aside_tells hev (by decide)
  case appendEvent => exact appendEvent_tells hop hx
  case claimInteraction => exact claimInteraction_tells hx
  case finish => exact finish_tells hx
  case reconcileUnknown => exact reconcileUnknown_tells hx
  case recover => exact recover_tells hs hx
  case startProviderAttempt =>
    obtain ⟨attempts, n, data, hev⟩ := startProviderAttempt_cases hx
    have htell := aside_tells hev (by decide)
    exact htell
  case finishProviderAttempt =>
    rcases finishProviderAttempt_cases hx with rfl | ⟨attempts, n, data, hev⟩
    · exact .refl s'
    · have htell := aside_tells hev (by decide)
      exact htell
  case admitDelegation => exact admitDelegation_tells hs hx
  case reserveDelegationResult =>
    rcases reserveDelegationResult_cases hx with ⟨rfl, -⟩ | ⟨d, -, -, -, expired, hf, hwrite⟩
    · exact .refl s'
    · exact writeDelegation_tells hwrite
  case releaseDelegationResult => exact transitionResult_tells hx
  case deliverDelegationResult => exact transitionResult_tells hx

theorem next_tells (hs : Matched s) {op : Op} (hop : op.Foreign) : s.Tells (s.next op) := by
  unfold next
  split
  · rename_i reply s' h
    exact exec_tells hs hop h
  · exact .refl s

/-! ## Runs -/

theorem after_tells {ops : List Op} (hs : Matched s) (hops : ∀ op ∈ ops, op.Foreign) :
    s.Tells (after next s ops) := by
  refine tells_after (G := fun _ op => op.Foreign) (I := Matched)
    (fun s op h _ => matched_next h op) (fun s op h hop => next_tells h hop) hs ?_
  induction ops generalizing s with
  | nil => trivial
  | cons op ops ih =>
    exact ⟨hops op List.mem_cons_self,
      ih (matched_next hs op) fun o ho => hops o (List.mem_cons_of_mem _ ho)⟩

/-- The pages above a cursor hold the events of the run as they were stored. -/
theorem eventsAbove_eq (ops : List Op) (id : RunId) (cursor : Nat) :
    (storeAfter ops).eventsAbove id cursor =
      ((storeAfter ops).logOf id).filter (cursor < ·.seq) := by
  have hsorted : ((storeAfter ops).logOf id).Pairwise (·.seq < ·.seq) := ordered_after ops id
  have hfilter : ((storeAfter ops).events.rows.filter fun e => e.runId = id && e.seq > cursor) =
      ((storeAfter ops).logOf id).filter (cursor < ·.seq) := by
    rw [logOf, List.filter_filter]
    refine List.filter_congr fun e _ => ?_
    rw [Bool.and_comm]
  rw [eventsAbove, hfilter]
  refine List.mergeSort_of_pairwise ((hsorted.filter _).imp fun h => ?_)
  exact decide_eq_true (Nat.le_of_lt h)

/-- The last number of the run, which a reader that has read all of its log goes on from. -/
def cursorOf (s : RunStore) (id : RunId) : Nat := ((s.runs.find? id).map Run.lastSeq).getD 0

/-- The events above the cursor are the ones stored since. -/
theorem eventsAbove_cursor (ops ops' : List Op) (id : RunId) :
    (storeAfter (ops ++ ops')).eventsAbove id ((storeAfter ops).cursorOf id) =
      ((storeAfter (ops ++ ops')).events.rows.drop (storeAfter ops).events.rows.length).filter
        (·.runId = id) := by
  have hsound := journal_sound ops
  have hgrows := after_grows (storeAfter ops) ops'
  rw [← storeAfter_append] at hgrows
  obtain ⟨new, hnew, hlater⟩ := hgrows.later hsound
  have hrows : (storeAfter (ops ++ ops')).events.rows = (storeAfter ops).events.rows ++ new := hnew
  rw [eventsAbove_eq, logOf, hrows, List.drop_left, List.filter_append, List.filter_append]
  have hold : (((storeAfter ops).events.rows.filter (·.runId = id)).filter
      ((storeAfter ops).cursorOf id < ·.seq)) = [] := by
    rw [List.filter_eq_nil_iff]
    intro e he
    obtain ⟨hmem, hid⟩ := List.mem_filter.mp he
    obtain ⟨m, hm, hle⟩ := hsound.below_event hmem
    obtain ⟨r, hr, hrun⟩ := List.mem_map.mp hm
    obtain ⟨hkey, rfl⟩ := Prod.mk.inj hrun
    have hfind : (storeAfter ops).runs.find? id = some r := by
      rw [← of_decide_eq_true hid, ← hkey]
      exact Table.find?_of_mem hr
    rw [decide_eq_true_eq, cursorOf, hfind]
    exact Nat.not_lt.mpr hle
  have hall : (new.filter (·.runId = id)).filter ((storeAfter ops).cursorOf id < ·.seq) =
      new.filter (·.runId = id) := by
    rw [List.filter_eq_self]
    intro e he
    obtain ⟨hmem, hid⟩ := List.mem_filter.mp he
    rw [decide_eq_true_eq, cursorOf]
    cases hr : (storeAfter ops).runs.find? id with
    | none =>
      have hrow : e ∈ (storeAfter (ops ++ ops')).events.rows := by
        rw [hrows]
        exact List.mem_append_right _ hmem
      exact (((journal_sound (ops ++ ops')).gapless e.runId e.seq).mp
        (List.mem_map_of_mem hrow)).1
    | some r =>
      exact (hlater e hmem).2 _ ⟨r.lastSeq, of_decide_eq_true hid ▸ mem_journal hr, Nat.le_refl _⟩
  rw [hold, hall, List.nil_append]

/-- What a reader knew at one time and the events above its cursor later give the standing then. -/
theorem standing_append {ops ops' : List Op} (hops : ∀ op ∈ ops ++ ops', op.Foreign) (id : RunId) :
    (storeAfter (ops ++ ops')).standing id =
      ((storeAfter (ops ++ ops')).eventsAbove id ((storeAfter ops).cursorOf id)).foldl
        Standing.read ((storeAfter ops).standing id) := by
  have htells : (storeAfter ops).Tells (storeAfter (ops ++ ops')) := by
    rw [storeAfter_append]
    exact after_tells (matched_after ops) fun op h => hops op (List.mem_append_right _ h)
  rw [htells.resume id, told, eventsAbove_cursor]

end RunStore

/-- A turn that asks for an approval, loses its daemon and is settled by hand. -/
def settledRun : List Op :=
  [.appendEvent (runIdOf 1) "approval_required" (.obj [("approval", .obj [("id", .str "a")])]),
    .recover fun _ => 0,
    .reconcileUnknown (runIdOf 1) ⟨"s"⟩ 4 .failed none "checked the files by hand" "0" 0]

end AgentDaemon.Storage
