import AgentDaemon.Storage.Control

/-!
One specification lemma for each method of the store: what a successful call does to the
control state, and what its reply says. The methods are not unfolded after this module.
-/

namespace AgentDaemon.Storage

open Provider Transition Fallible

/-! ## Reading the projection -/

namespace RunStore

/-- A call of `exec` is a call of the method. -/
theorem of_exec {α : Type} {x : Except RuntimeError (α × RunStore)} {f : α → Reply}
    {reply : Reply} {s' : RunStore} (h : Prod.map f id <$> x = .ok (reply, s')) :
    ∃ r, f r = reply ∧ x = .ok (r, s') := by
  obtain ⟨⟨r, s₁⟩, hx, e⟩ := map_eq_ok.mp h
  obtain ⟨hr, rfl⟩ := Prod.mk.inj e
  exact ⟨r, hr, hx⟩

theorem control_run? (s : RunStore) (id : RunId) :
    s.control.run? id = (s.runs.find? id).map Run.view := by
  simp only [Control.run?, control, Table.find?]
  induction s.runs.rows with
  | nil => rfl
  | cons r rows ih =>
    have e : r.view.id = r.id := rfl
    simp only [List.map_cons, List.find?_cons, e]
    split
    · rfl
    · exact ih

theorem readRun_eq_some {s : RunStore} {id : RunId} {rec : RunRecord}
    (h : s.readRun id = some rec) : ∃ r, s.runs.find? id = some r ∧ r.record = rec := by
  simpa [readRun] using h

theorem readRun_view {s : RunStore} {id : RunId} {rec : RunRecord}
    (h : s.readRun id = some rec) :
    rec.runId = id ∧ s.control.run? id = some ⟨id, rec.sessionId, rec.verdict⟩ := by
  obtain ⟨r, hr, rfl⟩ := readRun_eq_some h
  have hid := Table.key_of_find? hr
  rw [control_run?, hr, ← hid]
  exact ⟨rfl, rfl⟩

/-! ## Writes that the projection does not see, or sees as one field -/

theorem insertEvent_spec {s s' : RunStore} {id : RunId} {event : String} {data : Json} {n : Nat}
    (h : s.insertEvent id event data = .ok (n, s')) :
    ∃ run events, s.runs.find? id = some run ∧ n = run.lastSeq + 1 ∧
      s.events.insert ⟨id, n, event, data⟩ = some events ∧
      s' = { s with
        events := events
        runs := s.runs.update (·.id = id) ({ · with lastSeq := n }) } := by
  unfold insertEvent at h
  split at h
  · cases h
  · rename_i run hrun
    split at h
    · cases h
    · rename_i events hevents
      cases h
      exact ⟨run, events, hrun, rfl, hevents, rfl⟩

theorem insertEvent_control {s s' : RunStore} {id : RunId} {event : String} {data : Json}
    {n : Nat} (h : s.insertEvent id event data = .ok (n, s')) : s'.control = s.control := by
  obtain ⟨run, events, -, -, -, rfl⟩ := insertEvent_spec h
  have e : (s.runs.update (·.id = id) ({ · with lastSeq := n })).rows.map Run.view =
      s.runs.rows.map Run.view := Table.map_update_of_eq _ _ _ _ fun _ => rfl
  simp only [control, e]

theorem control_updateRuns (s : RunStore) (p : Run → Bool) (f : Run → Run)
    (hf : ∀ r, (f r).id = r.id) {id : RunId} {g : Verdict → Verdict}
    (hp : ∀ r ∈ s.runs.rows, p r = decide (r.id = id))
    (hs : ∀ r, (f r).sessionId = r.sessionId) (hg : ∀ r, (f r).verdict = g r.verdict) :
    { s with runs := s.runs.update p f hf }.control = s.control.updateRun id g := by
  have e : (s.runs.update p f hf).rows.map Run.view = (s.runs.rows.map Run.view).map fun v =>
      if v.id = id then { v with verdict := g v.verdict } else v := by
    apply Table.map_update
    intro r hr
    have hid : r.view.id = r.id := rfl
    rw [hp r hr, hid]
    by_cases h : r.id = id
    · simp [h, Run.view, hf, hs, hg]
    · simp [h]
  simp only [control, Control.updateRun, e]

@[simp] theorem control_setRun (s : RunStore) (id : RunId) (status : RunStatus) :
    (s.setRun id status).control = s.control.updateRun id ({ · with status := status }) :=
  control_updateRuns s _ _ _ (fun _ _ => rfl) (fun _ => rfl) (fun _ => rfl)

@[simp] theorem control_setTurn (s : RunStore) (id : RunId) (status : RunStatus) :
    (s.setTurn id status).control = s.control.updateTurn id status := by
  have e : (s.turns.update (·.runId = id) ({ · with status := status })).rows.map Turn.view =
      (s.turns.rows.map Turn.view).map fun t => if t.1 = id then (t.1, status) else t := by
    apply Table.map_update
    intro t _
    have ht : t.view.1 = t.runId := rfl
    rw [ht]
    by_cases h : t.runId = id <;> simp [h, Turn.view]
  simp only [setTurn, control, Control.updateTurn, e]

@[simp] theorem control_setQueued (s : RunStore) (id : RunId) (status : RunStatus) :
    (s.setQueued id status).control = s.control.updateQueue id status := by
  have e : (s.queuedMessages.update (·.runId = id) ({ · with status := status })).rows.map
      QueuedMessage.view = (s.queuedMessages.rows.map QueuedMessage.view).map fun q =>
        if q.runId = id then { q with status := status } else q := by
    apply Table.map_update
    intro q _
    have hq : q.view.runId = q.runId := rfl
    rw [hq]
    by_cases h : q.runId = id <;> simp [h, QueuedMessage.view]
  simp only [setQueued, control, Control.updateQueue, e]

@[simp] theorem control_moveQueued (s : RunStore) (id : RunId) (source target : RunStatus) :
    (s.moveQueued id source target).control = s.control.moveQueue id source target := by
  have e : (s.queuedMessages.update (fun q => q.runId = id && q.status = source)
      ({ · with status := target })).rows.map QueuedMessage.view =
        (s.queuedMessages.rows.map QueuedMessage.view).map fun q =>
          if q.runId = id ∧ q.status = source then { q with status := target } else q := by
    apply Table.map_update
    intro q _
    have hq : q.view.runId = q.runId := rfl
    have hst : q.view.status = q.status := rfl
    rw [hq, hst]
    by_cases h : q.runId = id ∧ q.status = source <;> simp [h, QueuedMessage.view]
  simp only [moveQueued, control, Control.moveQueue, e]

@[simp] theorem control_setVerdict (s : RunStore) (id : RunId) (status : RunStatus)
    (content : Option String) (error : Option (Int × String)) :
    (s.setVerdict id status content error).control =
      ((s.control.updateRun id fun _ =>
        ⟨status, content, error.map Prod.fst, error.map Prod.snd⟩).updateTurn id
          status).updateQueue id status := by
  simp only [setVerdict, control_setQueued, control_setTurn]
  exact congrArg (fun c : Control => (c.updateTurn id status).updateQueue id status)
    (control_updateRuns s _ _ _ (fun _ _ => rfl) (fun _ => rfl) (fun _ => rfl))

/-- An update of the delegation of one child, seen through the projection. -/
theorem control_updateDelegation (s : RunStore) (id : RunId) (f : Delegation → Delegation)
    (hf : ∀ d, (f d).childRunId = d.childRunId) (g : ChildView → ChildView)
    (hg : ∀ d ∈ s.delegations.rows, d.childRunId = id → (f d).view = g d.view) :
    { s with delegations := s.delegations.update (·.childRunId = id) f hf }.control =
      { s.control with
        children := s.control.children.map fun d => if d.runId = id then g d else d } := by
  have e : (s.delegations.update (·.childRunId = id) f hf).rows.map Delegation.view =
      (s.delegations.rows.map Delegation.view).map fun d =>
        if d.runId = id then g d else d := by
    apply Table.map_update
    intro d hd
    have hid : d.view.runId = d.childRunId := rfl
    rw [hid]
    by_cases h : d.childRunId = id
    · simp only [h, decide_true, ↓reduceIte]
      exact hg d hd h
    · simp [h]
  simp only [control, e]

@[simp] theorem control_closeDelegation (s : RunStore) (id : RunId) (rec : RunRecord) (now : Int) :
    (s.closeDelegation id rec now).control = s.control.updateChild id rec.status :=
  control_updateDelegation s id _ _ ({ · with status := rec.status }) fun _ _ _ => rfl

/-- The end of a run closes its own delegation row, if it has one, and then tells the parent of
the row if that run is still going. -/
theorem markTerminalIn_cases {s s' : RunStore} {id : RunId} {rec : RunRecord} {now : Int}
    (h : s.markTerminalIn id rec now = .ok s') :
    (s.delegations.find? id = none ∧ s' = s) ∨
    ∃ d, s.delegations.find? id = some d ∧ (s' = s.closeDelegation id rec now ∨
      ∃ parent n data, (s.closeDelegation id rec now).readRun d.parentRunId = some parent ∧
        ¬ parent.status.terminal = true ∧
        (s.closeDelegation id rec now).insertEvent parent.runId "delegation_terminal" data =
          .ok (n, s')) := by
  unfold markTerminalIn at h
  split at h
  · rename_i hnone
    cases h
    exact .inl ⟨hnone, rfl⟩
  · rename_i d hd
    refine .inr ⟨d, hd, ?_⟩
    dsimp only at h
    split at h
    · cases h
      exact .inl rfl
    · rename_i parent hread
      split at h
      · cases h
        exact .inl rfl
      · rename_i hgoing
        obtain ⟨⟨n, s₁⟩, hev, rfl⟩ := map_eq_ok.mp h
        exact .inr ⟨parent, n, _, hread, hgoing, hev⟩

theorem markTerminalIn_control {s s' : RunStore} {id : RunId} {rec : RunRecord} {now : Int}
    (h : s.markTerminalIn id rec now = .ok s') :
    s'.control = s.control.updateChild id rec.status := by
  have e := control_closeDelegation s id rec now
  rcases markTerminalIn_cases h with ⟨hd, rfl⟩ | ⟨d, -, rfl | ⟨parent, n, data, -, -, hev⟩⟩
  · have hn : ∀ d ∈ s'.control.children, d.runId ≠ id := by
      intro d hd' e
      obtain ⟨r, hr, rfl⟩ := List.mem_map.mp hd'
      rw [Table.find?, List.find?_eq_none] at hd
      exact hd r hr (decide_eq_true e)
    have e : s'.control.children.map (fun d => if d.runId = id then
        { d with status := rec.status } else d) = s'.control.children := by
      conv_rhs => rw [← List.map_id s'.control.children]
      apply List.map_congr_left
      intro d hd'
      simp [hn d hd']
    simp only [Control.updateChild, e]
  · exact e
  · rw [insertEvent_control hev]
    exact e

/-! ## Admission and the queue -/

theorem control_eq (s : RunStore) : s.control = ⟨s.runs.rows.map Run.view,
    s.turns.rows.map Turn.view, s.queuedMessages.rows.map QueuedMessage.view,
    s.toolExecutions.rows.map ToolExecution.view, s.delegations.rows.map Delegation.view⟩ := rfl

theorem constraint_eq_ok {α : Type} {o : Option α} {a : α} :
    constraint o = .ok a ↔ o = some a := by
  cases o <;> simp [constraint]

/-- The shared inserts of an admission. -/
theorem enqueueRun_spec {s s' : RunStore} {sid : SessionId} {rid : RequestId} {input : String}
    {route : Option RouteSnapshot} {now : Int} {id : RunId}
    (h : s.enqueueRun sid rid input route now = .ok (id, s')) :
    id = runIdOf s.nextRowid ∧ (s.runs.find? id = none) ∧ s'.delegations = s.delegations ∧
      s'.control = Change.apply s.control (.admitted id sid false) := by
  simp only [enqueueRun, bind_eq_ok, constraint_eq_ok] at h
  obtain ⟨runs, hruns, turns, hturns, routes, hroutes, ⟨n, s₁⟩, hev, queue, hqueue, h⟩ := h
  rw [pure_eq_ok] at h
  cases h
  have hc := insertEvent_control hev
  obtain ⟨run, events, -, -, -, he⟩ := insertEvent_spec hev
  have hfresh := Table.insert_fresh hruns
  simp only [Run.id] at hfresh
  refine ⟨rfl, hfresh, by rw [he], ?_⟩
  rw [control_eq] at hc
  simp only [control, Control.mk.injEq] at hc
  obtain ⟨h1, h2, h3, h4, h5⟩ := hc
  simp only [control, Change.apply, h1, h2, h4, h5, Table.rows_insert hqueue,
    Table.rows_insert hruns, Table.rows_insert hturns, List.map_append, List.map_cons,
    List.map_nil, h3, Bool.false_eq_true, if_false, List.append_nil]
  rfl

/-- A call of `admit_with_route` finds the run of the request, or makes one. -/
theorem admitWithRoute_cases {s s' : RunStore} {sid : SessionId} {rid : RequestId}
    {input : String} {mode : AdmissionMode} {route : Option RouteSnapshot} {now : Int}
    {a : Admission} (h : s.admitWithRoute sid rid input mode route now = .ok (a, s')) :
    (∃ stored ∈ s.runs.rows, stored.sessionId = sid ∧ stored.requestId = rid ∧
      stored.input = input ∧ a = .existing stored.record ∧ s' = s) ∨
    (∀ r ∈ s.runs.rows, ¬ (r.sessionId = sid ∧ r.requestId = rid)) ∧
      ∃ rec, a = .new rec ∧ s'.readRun rec.runId = some rec ∧
        { s with sessions := (s.sessions.insert sid).getD s.sessions }.enqueueRun sid rid input route
          now = .ok (rec.runId, s') := by
  unfold admitWithRoute at h
  split at h
  · rename_i stored hstored
    have hm := List.mem_of_find?_eq_some hstored
    have hp := List.find?_some hstored
    simp only [decide_eq_true_eq] at hp
    split at h
    · cases h
    · rename_i hinput
      cases h
      exact .inl ⟨stored, hm, hp.1, hp.2, not_not.mp hinput, rfl, rfl⟩
  · rename_i hnone
    split at h
    · cases h
    · simp only [bind_eq_ok] at h
      obtain ⟨⟨id, s₁⟩, henq, h⟩ := h
      split at h
      · cases h
      · rename_i rec hrec
        cases h
        refine .inr ⟨fun r hr => by simpa using List.find?_eq_none.mp hnone r hr, rec, rfl, ?_⟩
        obtain rfl := (readRun_view hrec).1
        exact ⟨hrec, henq⟩

theorem admitWithRoute_spec {s s' : RunStore} {sid : SessionId} {rid : RequestId}
    {input : String} {mode : AdmissionMode} {route : Option RouteSnapshot} {now : Int}
    {a : Admission} (h : s.admitWithRoute sid rid input mode route now = .ok (a, s')) :
    (∃ r ∈ s.runs.rows, r.sessionId = sid ∧ r.requestId = rid ∧ a = .existing r.record ∧
      s' = s) ∨
    ∃ rec, a = .new rec ∧ s'.readRun rec.runId = some rec ∧ s.runs.find? rec.runId = none ∧
      s'.control = Change.apply s.control (.admitted rec.runId sid false) := by
  rcases admitWithRoute_cases h with ⟨stored, hm, hsid, hrid, -, rfl, rfl⟩ |
    ⟨-, rec, rfl, hrec, henq⟩
  · exact .inl ⟨stored, hm, hsid, hrid, rfl, rfl⟩
  · obtain ⟨-, hfresh, -, hc⟩ := enqueueRun_spec henq
    exact .inr ⟨rec, rfl, hrec, hfresh, hc⟩

theorem queueHead_eq_some {s : RunStore} {id : RunId} :
    s.queueHead id = some id ↔
      ∃ v, s.control.run? id = some v ∧ s.control.Head v.sessionId id := by
  rw [control_run?, queueHead]
  cases hr : s.runs.find? id with
  | none =>
    constructor
    · intro h
      obtain ⟨q, hq, -⟩ := Option.map_eq_some_iff.mp h
      simpa using List.find?_some hq
    · rintro ⟨v, hv, -⟩
      cases hv
  | some r =>
    simp only [Option.map_some, Option.some.injEq, Option.map_eq_some_iff, exists_eq_left']
    constructor
    · rintro ⟨q, hq, rfl⟩
      rw [List.find?_eq_some_iff_append] at hq
      obtain ⟨hp, front, back, hrows, hfront⟩ := hq
      simp only [decide_eq_true_eq] at hp
      refine ⟨front.map QueuedMessage.view, q.view, back.map QueuedMessage.view,
        by simp [control, hrows], rfl, hp.1, hp.2, ?_⟩
      intro p hp' hsid hst
      obtain ⟨x, hx, rfl⟩ := List.mem_map.mp hp'
      have hno := hfront x hx
      simp only [Bool.not_eq_true', decide_eq_false_iff_not, not_and] at hno
      exact hno hst hsid
    · rintro ⟨front, q, back, hrows, hid, hst, hsid, hfront⟩
      obtain ⟨front', rest, hrows', rfl, hrest⟩ := List.map_eq_append_iff.mp hrows
      obtain ⟨q', back', rfl, rfl, rfl⟩ := List.map_eq_cons_iff.mp hrest
      refine ⟨q', ?_, hid⟩
      rw [List.find?_eq_some_iff_append]
      refine ⟨by simpa using ⟨hst, hsid⟩, front', back', hrows', ?_⟩
      intro p hp
      simp only [Bool.not_eq_true', decide_eq_false_iff_not, not_and]
      intro hst' hsid'
      exact hfront _ (List.mem_map_of_mem hp) hsid' hst'

theorem sessionBusy_eq_false {s : RunStore} {id : RunId} {v : RunView}
    (hv : s.control.run? id = some v) :
    s.sessionBusy id = false ↔ s.control.Idle v.sessionId := by
  rw [control_run?, Option.map_eq_some_iff] at hv
  obtain ⟨r, hr, rfl⟩ := hv
  simp only [sessionBusy, hr, Option.map_some, Option.some.injEq, Control.Idle, control,
    ne_eq, decide_not, Bool.not_eq_eq_eq_not, Bool.not_false, decide_eq_true_eq, Table.count,
    List.countP_eq_zero, Bool.and_eq_true, not_and, List.mem_map, forall_exists_index, and_imp,
    forall_apply_eq_imp_iff₂, Bool.not_eq_true]
  rfl

theorem runsIn_eq_one {s : RunStore} {id : RunId} {source : RunStatus} :
    s.runsIn id source = 1 ↔ ∃ v, s.control.run? id = some v ∧ v.verdict.status = source := by
  rw [runsIn, Table.count_key_eq_one, control_run?]
  cases s.runs.find? id with
  | none => simp
  | some r => simp [Run.view, Run.verdict]

theorem control_moveRun {s : RunStore} {id : RunId} {source : RunStatus} (target : RunStatus)
    (h : s.runsIn id source = 1) :
    (s.moveRun id source target).control =
      s.control.updateRun id ({ · with status := target }) := by
  obtain ⟨r, hr, hst⟩ := Table.count_key_eq_one.mp h
  apply control_updateRuns
  · intro x hx
    by_cases e : x.id = id
    · have : x = r := s.runs.eq_of_key_eq hx (Table.mem_of_find? hr)
        (e.trans (Table.key_of_find? hr).symm)
      simpa [this, this ▸ e] using hst
    · simp [e]
  · exact fun _ => rfl
  · exact fun _ => rfl

theorem moveRun_eq_self {s : RunStore} {id : RunId} {source target : RunStatus}
    (h : s.runsIn id source ≠ 1) : s.moveRun id source target = s := by
  simp only [moveRun]
  congr 1
  exact Table.update_of_count_ne_one h

/-- A start either moves the head of an idle queue and logs it, or leaves the store alone. -/
theorem tryStartQueued_cases {s s' : RunStore} {id : RunId} {clock : Clock} {b : Bool}
    (h : s.tryStartQueued id clock = .ok (b, s')) :
    (b = false ∧ s' = s ∧ (s.queueHead id ≠ some id ∨ s.sessionBusy id = true ∨
      s.runsIn id .queued ≠ 1)) ∨
    ∃ n data s₁, b = true ∧ s.queueHead id = some id ∧ s.sessionBusy id = false ∧
      s.runsIn id .queued = 1 ∧
      (s.moveRun id .queued .running).insertEvent id "run_started" data = .ok (n, s₁) ∧
      s' = { (s₁.setTurn id .running).setQueued id .running with
        delegations := s₁.delegations.update (·.childRunId = id) fun d =>
          { d with status := .running, startedAtMs := some (clock 1) } } := by
  unfold tryStartQueued at h
  split at h
  · rename_i hhead
    cases h
    exact .inl ⟨rfl, rfl, .inl hhead⟩
  rename_i hhead
  split at h
  · rename_i hbusy
    cases h
    exact .inl ⟨rfl, rfl, .inr (.inl hbusy)⟩
  rename_i hbusy
  dsimp only at h
  split at h
  · rename_i hcount
    split at h
    · cases h
    · obtain ⟨⟨n, s₁⟩, hev, h⟩ := bind_eq_ok.mp h
      cases h
      exact .inr ⟨n, _, s₁, rfl, not_not.mp hhead, by simpa using hbusy, hcount, hev, rfl⟩
  · rename_i hcount
    cases h
    exact .inl ⟨rfl, moveRun_eq_self hcount, .inr (.inr hcount)⟩

theorem tryStartQueued_spec {s s' : RunStore} {id : RunId} {clock : Clock} {b : Bool}
    (h : s.tryStartQueued id clock = .ok (b, s')) :
    (b = true ∧ (Change.started id).Enabled s.control ∧
      s'.control = Change.apply s.control (.started id)) ∨
    (b = false ∧ ¬ (Change.started id).Enabled s.control ∧ s'.control = s.control) := by
  rcases tryStartQueued_cases h with ⟨rfl, rfl, hwhy⟩ |
    ⟨n, data, s₁, rfl, hhead, hbusy, hcount, hev, rfl⟩
  · refine .inr ⟨rfl, ?_, rfl⟩
    rintro ⟨v, hv, hst, hq, hidle⟩
    rcases hwhy with hhead | hbusy | hcount
    · exact hhead (queueHead_eq_some.mpr ⟨v, hv, hq⟩)
    · rw [(sessionBusy_eq_false hv).mpr hidle] at hbusy
      cases hbusy
    · exact hcount (runsIn_eq_one.mpr ⟨v, hv, hst⟩)
  · obtain ⟨v, hv, hq⟩ := queueHead_eq_some.mp hhead
    have hidle := (sessionBusy_eq_false hv).mp hbusy
    obtain ⟨w, hw, hst⟩ := runsIn_eq_one.mp hcount
    refine .inl ⟨rfl, ⟨v, hv, ?_, hq, hidle⟩, ?_⟩
    · rw [hv] at hw
      cases hw
      exact hst
    · refine (control_updateDelegation ((s₁.setTurn id .running).setQueued id .running) id _ _
        ({ · with status := .running }) fun _ _ _ => rfl).trans ?_
      rw [control_setQueued, control_setTurn, insertEvent_control hev,
        control_moveRun .running hcount]
      rfl

/-- The writes of a removal, up to its event. -/
theorem removeQueued_cases {s s' : RunStore} {id : RunId} {now : Int} {b : Bool}
    (h : s.removeQueued id now = .ok (b, s')) :
    (b = true ∧ s.runsIn id .queued = 1 ∧ ∃ n s₁ rec,
      (((s.moveRun id .queued .cancelled).setTurn id .cancelled).moveQueued id .queued
        .cancelled).insertEvent id "terminal" (.obj [("status", RunStatus.cancelled.toJson)]) =
          .ok (n, s₁) ∧
      s₁.readRun id = some rec ∧ s₁.markTerminalIn id rec now = .ok s') ∨
    (b = false ∧ s.runsIn id .queued ≠ 1 ∧ s' = s.moveRun id .queued .cancelled) := by
  simp only [removeQueued] at h
  split at h
  · rename_i hcount
    obtain ⟨⟨n, s₁⟩, hev, h⟩ := bind_eq_ok.mp h
    dsimp only at h
    split at h
    · cases h
    · rename_i rec hrec
      obtain ⟨s₂, hterm, h⟩ := bind_eq_ok.mp h
      cases h
      exact .inl ⟨rfl, hcount, n, s₁, rec, hev, hrec, hterm⟩
  · rename_i hcount
    cases h
    exact .inr ⟨rfl, hcount, rfl⟩

theorem removeQueued_spec {s s' : RunStore} {id : RunId} {now : Int} {b : Bool}
    (h : s.removeQueued id now = .ok (b, s')) :
    (b = true ∧ (Change.removed id).Enabled s.control ∧
      s'.control = Change.apply s.control (.removed id)) ∨
    (b = false ∧ ¬ (Change.removed id).Enabled s.control ∧ s'.control = s.control) := by
  rcases removeQueued_cases h with ⟨rfl, hcount, n, s₁, rec, hev, hrec, hterm⟩ | ⟨rfl, hcount, rfl⟩
  · have hmove := control_moveRun .cancelled hcount
    have hen := runsIn_eq_one.mp hcount
    have hc := insertEvent_control hev
    rw [control_moveQueued, control_setTurn, hmove] at hc
    refine .inl ⟨rfl, hen, ?_⟩
    have hst : rec.status = .cancelled := by
      obtain ⟨v, hv, -⟩ := hen
      have hv' := (readRun_view hrec).2
      simp only [hc, Control.run?_updateTurn, Control.run?_moveQueue,
        Control.run?_updateRun_self, hv, Option.map_some, Option.some.injEq] at hv'
      exact (congrArg (·.verdict.status) hv').symm
    rw [markTerminalIn_control hterm, hc, hst]
    rfl
  · refine .inr ⟨rfl, fun hen => hcount (runsIn_eq_one.mpr hen), ?_⟩
    rw [moveRun_eq_self hcount]

/-! ## Tool receipts -/

/-- Inserting the rows of a list one after the other appends them. -/
theorem rows_foldlM_insert {κ ρ α : Type} [DecidableEq κ] {key : ρ → κ} {t t' : Table key}
    (row : α → ρ) {l : List α} (h : l.foldlM (fun t a => constraint (t.insert (row a))) t = .ok t') :
    t'.rows = t.rows ++ l.map row := by
  induction l generalizing t with
  | nil =>
    rw [List.foldlM_nil, pure_eq_ok] at h
    simp [h]
  | cons a l ih =>
    rw [List.foldlM_cons, bind_eq_ok] at h
    obtain ⟨u, hu, h⟩ := h
    rw [ih h, Table.rows_insert (constraint_eq_ok.mp hu), List.map_cons, List.append_assoc]
    rfl

/-- A batch is accepted for a run that is running, within the budget of its delegation row; its
receipts are inserted one after the other and the batch is logged. -/
theorem prepareToolBatch_cases {s s' : RunStore} {id : RunId} {round : Nat}
    {calls : List PreparedCall} {u : Unit}
    (h : s.prepareToolBatch id round calls = .ok (u, s')) :
    ∃ run tools n data, s.runs.find? id = some run ∧ run.status = .running ∧
      (∀ d, s.delegations.find? id = some d →
        (s.toolExecutions.count (fun t => t.runId = id) : Int) + (calls.length : Int) ≤
          d.maxToolCalls) ∧
      tools.rows = s.toolExecutions.rows ++ calls.map (preparedRow id round) ∧
      { s with toolExecutions := tools }.insertEvent id "tool_batch_prepared" data =
        .ok (n, s') := by
  unfold prepareToolBatch at h
  split at h
  · cases h
  rename_i run hrun
  split at h
  · cases h
  rename_i hst
  dsimp only at h
  split at h
  · cases h
  rename_i hbudget
  obtain ⟨tools, htools, h⟩ := bind_eq_ok.mp h
  obtain ⟨⟨n, s₁⟩, hev, h⟩ := bind_eq_ok.mp h
  cases h
  refine ⟨run, tools, n, _, hrun, not_not.mp hst, ?_, rows_foldlM_insert _ htools, hev⟩
  intro d hd
  simp only [hd, Option.any_some, gt_iff_lt, decide_eq_true_eq] at hbudget
  omega

theorem prepareToolBatch_spec {s s' : RunStore} {id : RunId} {round : Nat}
    {calls : List PreparedCall} {u : Unit}
    (h : s.prepareToolBatch id round calls = .ok (u, s')) :
    ∃ tools, (Change.prepared id tools).Enabled s.control ∧
      s'.control = Change.apply s.control (.prepared id tools) := by
  obtain ⟨run, tools, n, data, hrun, hst, -, hrows, hev⟩ := prepareToolBatch_cases h
  refine ⟨calls.map fun c => (preparedRow id round c).view, ⟨⟨run.view, ?_, hst⟩, ?_⟩, ?_⟩
  · rw [control_run?, hrun, Option.map_some]
  · intro t ht
    obtain ⟨c, hc, rfl⟩ := List.mem_map.mp ht
    exact ⟨rfl, rfl⟩
  · rw [insertEvent_control hev]
    simp only [control, hrows, List.map_append, List.map_map, Change.apply]
    rfl

theorem moveTool_eq {s s' : RunStore} {id : RunId} {round : Nat} {callId : String}
    {source : ToolStatus} {f : ToolExecution → ToolExecution} {hf : ∀ t, (f t).key = t.key}
    {message : String} {u : Unit}
    (h : s.moveTool id round callId source f hf message = .ok (u, s')) :
    s' = { s with toolExecutions := s.toolExecutions.update (fun t =>
      t.key = (id, round, callId) && t.status = source) f hf } := by
  unfold moveTool at h
  dsimp only at h
  split at h
  · cases h
  · cases h
    rfl

theorem moveTool_spec {s s' : RunStore} {id : RunId} {round : Nat} {callId : String}
    {source target : ToolStatus} {f : ToolExecution → ToolExecution}
    {hf : ∀ t, (f t).key = t.key} {message : String} {u : Unit}
    (h : s.moveTool id round callId source f hf message = .ok (u, s'))
    (heffect : ∀ t, (f t).effect = t.effect) (hstatus : ∀ t, (f t).status = target) :
    s'.control = Change.apply s.control (.toolMoved (id, round, callId) source target) := by
  have e : (s.toolExecutions.update (fun t => t.key = (id, round, callId) &&
      t.status = source) f hf).rows.map ToolExecution.view =
        (s.toolExecutions.rows.map ToolExecution.view).map fun t =>
          if t.key = (id, round, callId) ∧ t.status = source then
            { t with status := target } else t := by
    apply Table.map_update
    intro t _
    have hk : t.view.key = t.key := rfl
    have hst : t.view.status = t.status := rfl
    rw [hk, hst]
    by_cases hp : t.key = (id, round, callId) ∧ t.status = source
    · simp [hp, ToolExecution.view, hf, heffect, hstatus]
    · simp [hp]
  rw [moveTool_eq h]
  simp only [control, Change.apply, e]

theorem startTool_spec {s s' : RunStore} {id : RunId} {round : Nat} {callId : String}
    {now : Int} {u : Unit} (h : s.startTool id round callId now = .ok (u, s')) :
    s'.control = Change.apply s.control (.toolMoved (id, round, callId) .prepared .running) := by
  unfold startTool at h
  exact moveTool_spec h (fun _ => rfl) (fun _ => rfl)

theorem finishTool_spec {s s' : RunStore} {id : RunId} {round : Nat} {callId outcome : String}
    {artifactRef : Option String} {receipt : Json} {now : Int} {u : Unit}
    (h : s.finishTool id round callId outcome artifactRef receipt now = .ok (u, s')) :
    s'.control = Change.apply s.control (.toolMoved (id, round, callId) .running .terminal) := by
  unfold finishTool at h
  exact moveTool_spec h (fun _ => rfl) (fun _ => rfl)

theorem finishToolBatch_cases {s s' : RunStore} {id : RunId} {round : Nat} {u : Unit}
    (h : s.finishToolBatch id round = .ok (u, s')) :
    ∃ n data, s.insertEvent id "tool_batch_completed" data = .ok (n, s') := by
  unfold finishToolBatch at h
  split at h
  · cases h
  · obtain ⟨⟨n, s₁⟩, hev, h⟩ := bind_eq_ok.mp h
    cases h
    exact ⟨n, _, hev⟩

theorem finishToolBatch_spec {s s' : RunStore} {id : RunId} {round : Nat} {u : Unit}
    (h : s.finishToolBatch id round = .ok (u, s')) : s'.control = s.control := by
  obtain ⟨n, data, hev⟩ := finishToolBatch_cases h
  exact insertEvent_control hev

/-! ## Events and interactions -/

@[simp] theorem control_answerInteraction (s : RunStore) (i : InteractionId) (approved : Bool) :
    (s.answerInteraction i approved).control = s.control := rfl

@[simp] theorem control_orphanPending (s : RunStore) (id : RunId) :
    (s.orphanPending id).control = s.control := rfl

/-- An event is stored, and a question with it if the event asks for an approval. -/
theorem appendEvent_cases {s s' : RunStore} {id : RunId} {event : String} {data : Json} {n : Nat}
    (h : s.appendEvent id event data = .ok (n, s')) :
    ∃ s₁, s.insertEvent id event data = .ok (n, s₁) ∧
      ((approvalRequested event data = none ∧ s' = s₁) ∨
      ∃ i prompt payload interactions, event = "approval_required" ∧
        approvalRequested event data = some i ∧
        s₁.interactions.insert ⟨i, id, "approval", .pending, 0, prompt, none, payload⟩ =
          some interactions ∧
        s' = { s₁ with interactions }.setRun id .waitingInteraction) := by
  unfold appendEvent at h
  obtain ⟨⟨seq, s₁⟩, hev, h⟩ := bind_eq_ok.mp h
  dsimp only at h
  split at h
  · rename_i hevent
    split at h
    · rename_i hnone
      cases h
      exact ⟨_, hev, .inl ⟨by simp [approvalRequested, hnone], rfl⟩⟩
    · rename_i approval hsome
      split at h
      · cases h
      · rename_i i hi
        obtain ⟨interactions, hins, h⟩ := bind_eq_ok.mp h
        cases h
        exact ⟨s₁, hev, .inr ⟨⟨i⟩, (approval.index "prompt").asStr?.getD "", approval, interactions,
          hevent, by simp [approvalRequested, hevent, hsome, hi], constraint_eq_ok.mp hins, rfl⟩⟩
  · rename_i hevent
    cases h
    exact ⟨_, hev, .inl ⟨by simp [approvalRequested, hevent], rfl⟩⟩

theorem appendEvent_spec {s s' : RunStore} {id : RunId} {event : String} {data : Json} {n : Nat}
    (h : s.appendEvent id event data = .ok (n, s')) :
    (approvalRequested event data = none ∧ s'.control = s.control) ∨
    ∃ i, approvalRequested event data = some i ∧ s.interactions.find? i = none ∧
      (Change.awaiting id).Enabled s.control ∧
      s'.control = Change.apply s.control (.awaiting id) := by
  obtain ⟨s₁, hev, ⟨hnone, rfl⟩ | ⟨i, prompt, payload, interactions, -, hasked, hins, rfl⟩⟩ :=
    appendEvent_cases h
  · exact .inl ⟨hnone, insertEvent_control hev⟩
  · have hc := insertEvent_control hev
    obtain ⟨run, events, hrun, -, -, he⟩ := insertEvent_spec hev
    have hfresh := Table.insert_fresh hins
    rw [he] at hfresh
    refine .inr ⟨i, hasked, hfresh, ?_, ?_⟩
    · exact ⟨run.view, by rw [control_run?, hrun]; rfl⟩
    · rw [control_setRun]
      exact congrArg (fun c : Control => c.updateRun id ({ · with status := .waitingInteraction }))
        hc

/-- The writes of a claim that answers a pending question, up to its event: the run goes on when
no other question of it is pending. -/
def answering (s : RunStore) (i : InteractionId) (id : RunId) (approved : Bool) : RunStore :=
  if (s.answerInteraction i approved).pendingInteractions id = 0 then
    (s.answerInteraction i approved).moveRun id .waitingInteraction .running
  else s.answerInteraction i approved

/-- A claim that succeeds finds its answer accepted before, or answers a pending question. -/
theorem claimInteraction_cases {s s' : RunStore} {i : InteractionId} {sid : SessionId}
    {id : RunId} {revision : Int} {approved : Bool} {rec : InteractionRecord}
    (h : s.claimInteraction i sid id revision approved = .ok (rec, s')) :
    (s' = s ∧ s.readInteraction i = some rec ∧ rec.sessionId = sid ∧ rec.ownerRunId = id ∧
      (rec.status = .answered ∨ rec.status = .rejected) ∧
      rec.response = some (answerJson approved)) ∨
    ∃ x run n, s.interactions.find? i = some x ∧ x.runId = id ∧ x.status = .pending ∧
      x.revision = revision ∧ s.runs.find? id = some run ∧ run.sessionId = sid ∧
      run.status = .waitingInteraction ∧
      (s.answering i id approved).insertEvent id "interaction_resolved"
        (.obj [("interaction_id", .str i.val), ("approved", .bool approved),
          ("revision", .num (revision + 1))]) = .ok (n, s') ∧
      s'.readInteraction i = some rec := by
  unfold claimInteraction at h
  split at h
  · cases h
  rename_i current hcur
  split at h
  · cases h
  rename_i howner
  simp only [not_or, not_not] at howner
  split at h
  · split at h
    · rename_i hans
      cases h
      exact .inl ⟨rfl, hcur, howner.1, howner.2, hans⟩
    · cases h
  rename_i hpending
  split at h
  · cases h
  rename_i hrevision
  split at h
  · cases h
  rename_i run hrun
  split at h
  · cases h
  rename_i hwaiting
  obtain ⟨⟨n, s₁⟩, hev, h⟩ := bind_eq_ok.mp h
  dsimp only at h
  split at h
  · cases h
  · rename_i result hresult
    cases h
    obtain ⟨x, hx, hcur⟩ := Option.bind_eq_some_iff.mp hcur
    obtain ⟨run', hrun', rfl⟩ := Option.map_eq_some_iff.mp hcur
    dsimp only at howner hpending hrevision
    obtain ⟨hsid, rfl⟩ := howner
    rw [hrun] at hrun'
    cases hrun'
    exact .inr ⟨x, run, n, hx, rfl, not_not.mp hpending, not_not.mp hrevision, hrun, hsid,
      not_not.mp hwaiting, hev, hresult⟩

theorem claimInteraction_spec {s s' : RunStore} {i : InteractionId} {sid : SessionId}
    {id : RunId} {revision : Int} {approved : Bool} {rec : InteractionRecord}
    (h : s.claimInteraction i sid id revision approved = .ok (rec, s')) :
    s'.control = s.control ∨ ((Change.resumed id).Enabled s.control ∧
      s'.control = Change.apply s.control (.resumed id)) := by
  rcases claimInteraction_cases h with
    ⟨rfl, -⟩ | ⟨x, run, n, -, -, -, -, hrun, -, hwaiting, hev, -⟩
  · exact .inl rfl
  · have hen : (Change.resumed id).Enabled s.control :=
      ⟨run.view, by rw [control_run?, hrun]; rfl, hwaiting⟩
    rw [insertEvent_control hev, answering]
    split
    · exact .inr ⟨hen, control_moveRun .running (runsIn_eq_one.mpr hen)⟩
    · exact .inl rfl

/-! ## Ending a run -/

theorem insertContent_control {s s' : RunStore} {id : RunId} {data : Option Json}
    (h : s.insertContent id data = .ok s') : s'.control = s.control := by
  cases data with
  | none =>
    cases h
    rfl
  | some data =>
    obtain ⟨⟨n, s₁⟩, hev, rfl⟩ := map_eq_ok.mp h
    exact insertEvent_control hev

theorem downgrade_eq (s : RunStore) (id : RunId) (status : RunStatus) :
    s.downgrade id status = status ∨ s.downgrade id status = .unknownAfterRestart := by
  unfold downgrade
  dsimp only
  split
  · exact .inr rfl
  · exact .inl rfl

theorem settled_of_downgrade {s : RunStore} {id : RunId} {status : RunStatus}
    (h : s.downgrade id status ≠ .unknownAfterRestart) : s.control.Settled id := by
  unfold downgrade at h
  dsimp only at h
  split at h
  · exact absurd rfl h
  · rename_i hn
    simp only [not_or, Nat.not_lt, Nat.le_zero, Table.count, List.countP_eq_zero] at hn
    intro t ht hid
    obtain ⟨x, hx, rfl⟩ := List.mem_map.mp ht
    have hid' : x.runId = id := hid
    have hst := hn.1 x hx
    simp only [hid', decide_true, Bool.true_and, decide_eq_true_eq, ne_eq, not_not] at hst
    exact hst

theorem noEffects_of_downgrade {s : RunStore} {id : RunId} {status : RunStatus}
    (h : s.downgrade id status = .cancelled) : s.control.NoEffects id := by
  unfold downgrade at h
  dsimp only at h
  split at h
  · cases h
  · rename_i hn
    simp only [not_or, not_and, Nat.not_lt, Nat.le_zero, Table.count, List.countP_eq_zero] at hn
    intro t ht hid heffect
    obtain ⟨x, hx, rfl⟩ := List.mem_map.mp ht
    have hid' : x.runId = id := hid
    have heffect' : x.effect ≠ "read" := heffect
    have hst := hn.2 h x hx
    simp only [hid', heffect', ne_eq, not_false_eq_true, decide_true, Bool.true_and,
      Bool.or_eq_true, decide_eq_true_eq, not_or] at hst
    show x.status = .prepared
    cases hx : x.status with
    | prepared => rfl
    | running => exact absurd hx hst.1
    | terminal => exact absurd hx hst.2

/-- The writes that end a run, once the verdict is known. -/
theorem setVerdict_markTerminalIn {s₀ s s' : RunStore} {id : RunId} {status : RunStatus}
    {content : Option String} {error : Option (Int × String)} {rec : RunRecord} {now : Int}
    (hex : ∃ v, s₀.control.run? id = some v)
    (hs : s.control = (s₀.setVerdict id status content error).control)
    (hrec : s.readRun id = some rec) (hterm : s.markTerminalIn id rec now = .ok s') :
    rec.verdict = ⟨status, content, error.map Prod.fst, error.map Prod.snd⟩ ∧
      s'.control = (s₀.control.updateRun id fun _ => rec.verdict).mirror id rec.status := by
  obtain ⟨v, hv⟩ := hex
  have hrun := (readRun_view hrec).2
  simp only [hs, control_setVerdict, Control.run?_updateQueue, Control.run?_updateTurn,
    Control.run?_updateRun_self, hv, Option.map_some, Option.some.injEq] at hrun
  have hverdict := (congrArg (·.verdict) hrun).symm
  dsimp only at hverdict
  have hstatus : rec.status = status := congrArg (·.status) hverdict
  refine ⟨hverdict, ?_⟩
  rw [markTerminalIn_control hterm, hs, control_setVerdict, hverdict, hstatus]
  rfl

/-- The content that `finish` stores: only a completed run has one. -/
def verdictContent (s : RunStore) (id : RunId) (status : RunStatus) (content : Option String) :
    Option String :=
  if s.downgrade id status = .completed then content else none

theorem completed_of_verdictContent {s : RunStore} {id : RunId} {status : RunStatus}
    {content : Option String} {c : String} (h : s.verdictContent id status content = some c) :
    status = .completed := by
  unfold verdictContent at h
  split at h
  · rename_i hst
    rcases s.downgrade_eq id status with e | e
    · exact e.symm.trans hst
    · cases e.symm.trans hst
  · cases h

/-- The error that `finish` stores: an unknown outcome has its own. -/
def verdictError (s : RunStore) (id : RunId) (status : RunStatus)
    (error : Option (Int × String)) : Option (Int × String) :=
  if s.downgrade id status = .unknownAfterRestart then
    some (-32002, "工具执行结果未知，禁止自动重放")
  else error

/-- A `finish` that succeeds finds its verdict recorded, or ends a run that has none. -/
theorem finish_cases {s s' : RunStore} {id : RunId} {status : RunStatus}
    {content : Option String} {error : Option (Int × String)} {now : Int} {rec : RunRecord}
    (h : s.finish id status content error now = .ok (rec, s')) :
    status.terminal = true ∧ ((s' = s ∧ s.readRun id = some rec ∧ rec.status.terminal = true ∧
      rec.verdict = ⟨status, content, error.map Prod.fst, error.map Prod.snd⟩) ∨
    ∃ current s₁ n s₂ data, s.readRun id = some current ∧ current.status.terminal = false ∧
      s.insertContent id ((s.verdictContent id status content).map fun c =>
        .obj [("content", .str c)]) = .ok s₁ ∧
      s₁.insertEvent id "terminal" data = .ok (n, s₂) ∧
      ((s₂.setVerdict id (s.downgrade id status) (s.verdictContent id status content)
        (s.verdictError id status error)).orphanPending id).readRun id = some rec ∧
      ((s₂.setVerdict id (s.downgrade id status) (s.verdictContent id status content)
        (s.verdictError id status error)).orphanPending id).markTerminalIn id rec now =
          .ok s') := by
  unfold finish at h
  split at h
  · cases h
  rename_i hterminal
  refine ⟨by simpa using hterminal, ?_⟩
  split at h
  · cases h
  rename_i current hcur
  split at h
  · rename_i hct
    split at h
    · rename_i hsame
      cases h
      obtain ⟨hst, hcontent, hcode, hmessage⟩ := hsame
      exact .inl ⟨rfl, hcur, hct, by rw [RunRecord.verdict, hst, hcontent, hcode, hmessage]⟩
    · cases h
  · rename_i hct
    obtain ⟨s₁, hcontent, h⟩ := bind_eq_ok.mp h
    obtain ⟨⟨n, s₂⟩, hev, h⟩ := bind_eq_ok.mp h
    dsimp only at h
    split at h
    · cases h
    · rename_i rec' hrec
      obtain ⟨s₃, hterm, h⟩ := bind_eq_ok.mp h
      cases h
      exact .inr ⟨current, s₁, n, s₂, _, hcur, by simpa using hct, hcontent, hev, hrec, hterm⟩

theorem finish_spec {s s' : RunStore} {id : RunId} {status : RunStatus}
    {content : Option String} {error : Option (Int × String)} {now : Int} {rec : RunRecord}
    (h : s.finish id status content error now = .ok (rec, s')) :
    (s' = s ∧ s.readRun id = some rec ∧ rec.status = status ∧ rec.status.terminal = true) ∨
    (rec.status = s.downgrade id status ∧
      (Change.finished id rec.verdict).Enabled s.control ∧
      s'.control = Change.apply s.control (.finished id rec.verdict)) := by
  obtain ⟨hterminal, ⟨rfl, hcur, hct, hverdict⟩ | ⟨current, s₁, n, s₂, data, hcur, hct, hcontent,
    hev, hrec, hterm⟩⟩ := finish_cases h
  · exact .inl ⟨rfl, hcur, congrArg (·.status) hverdict, hct⟩
  · have hc : s₂.control = s.control :=
      (insertEvent_control hev).trans (insertContent_control hcontent)
    have hrun := (readRun_view hcur).2
    obtain ⟨hverdict, hs'⟩ := setVerdict_markTerminalIn
      ⟨_, hc ▸ hrun⟩ (control_orphanPending _ _) hrec hterm
    have hstatus : rec.status = s.downgrade id status := congrArg (·.status) hverdict
    refine .inr ⟨hstatus, ⟨?_, ?_, ?_, ?_⟩, ?_⟩
    · show rec.status.terminal = true
      rcases s.downgrade_eq id status with e | e
      · rw [hstatus, e]
        exact hterminal
      · rw [hstatus, e]
        rfl
    · exact ⟨_, hrun, hct⟩
    · exact fun hne => settled_of_downgrade (hstatus.symm.trans_ne hne)
    · exact fun he => noEffects_of_downgrade (hstatus.symm.trans he)
    · rw [hs', hc]
      rfl

/-- A manual resolution settles a run that is unknown after a restart and whose result nobody has
leased. -/
theorem reconcileUnknown_cases {s s' : RunStore} {id : RunId} {sid : SessionId}
    {expectedLastSeq : Nat} {status : RunStatus} {content : Option String}
    {evidence digest : String} {now : Int} {rec : RunRecord}
    (h : s.reconcileUnknown id sid expectedLastSeq status content evidence digest now =
      .ok (rec, s')) :
    (status = .completed ∨ status = .failed ∨ status = .cancelled) ∧
    (∀ d, s.delegations.find? id = some d → d.resultState = .unconsumed) ∧
    ∃ current s₁ n s₂ kept payload data, s.readRun id = some current ∧
      current.status = .unknownAfterRestart ∧ s.insertContent id payload = .ok s₁ ∧
      s₁.insertEvent id "manual_resolution" data = .ok (n, s₂) ∧
      (s₂.setVerdict id status kept (resolutionError status)).readRun id = some rec ∧
      (s₂.setVerdict id status kept (resolutionError status)).markTerminalIn id rec now =
        .ok s' := by
  unfold reconcileUnknown at h
  split at h
  · cases h
  rename_i hargs
  rw [not_or, not_not] at hargs
  split at h
  · cases h
  rename_i current hcur
  split at h
  · cases h
  rename_i hguard
  simp only [not_or, not_not] at hguard
  split at h
  · cases h
  rename_i hlease
  obtain ⟨s₁, hcontent, h⟩ := bind_eq_ok.mp h
  obtain ⟨⟨n, s₂⟩, hev, h⟩ := bind_eq_ok.mp h
  dsimp only at h
  split at h
  · cases h
  rename_i rec' hrec
  obtain ⟨s₃, hterm, h⟩ := bind_eq_ok.mp h
  cases h
  refine ⟨hargs.1, ?_, current, s₁, n, s₂, _, _, _, hcur, hguard.2.1, hcontent, hev, hrec, hterm⟩
  intro d hd
  simpa [hd] using hlease

theorem reconcileUnknown_spec {s s' : RunStore} {id : RunId} {sid : SessionId}
    {expectedLastSeq : Nat} {status : RunStatus} {content : Option String}
    {evidence digest : String} {now : Int} {rec : RunRecord}
    (h : s.reconcileUnknown id sid expectedLastSeq status content evidence digest now =
      .ok (rec, s')) :
    rec.status = status ∧ (Change.reconciled id rec.verdict).Enabled s.control ∧
      s'.control = Change.apply s.control (.reconciled id rec.verdict) := by
  obtain ⟨hends, hlease, current, s₁, n, s₂, kept, payload, data, hcur, hunknown, hcontent, hev,
    hrec, hterm⟩ := reconcileUnknown_cases h
  have hc : s₂.control = s.control :=
    (insertEvent_control hev).trans (insertContent_control hcontent)
  have hrun := (readRun_view hcur).2
  obtain ⟨hverdict, hs'⟩ := setVerdict_markTerminalIn ⟨_, hc ▸ hrun⟩ rfl hrec hterm
  have hstatus : rec.status = status := congrArg (·.status) hverdict
  refine ⟨hstatus, ⟨?_, ⟨_, hrun, hunknown⟩, ?_⟩, ?_⟩
  · show rec.status = _ ∨ rec.status = _ ∨ rec.status = _
    rw [hstatus]
    exact hends
  · intro d hd hid
    obtain ⟨x, hx, rfl⟩ := List.mem_map.mp hd
    exact hlease x (Table.find?_eq_some_iff.mpr ⟨hx, hid⟩)
  · rw [hs', hc]
    rfl

/-- The writes for a run that was lost, up to its delegation. -/
theorem recoverRun_cases {s s' : RunStore} {id : RunId} {now : Int}
    (h : s.recoverRun id now = .ok s') :
    ∃ n s₁ rec, s.insertEvent id "terminal"
        (.obj [("status", RunStatus.unknownAfterRestart.toJson)]) = .ok (n, s₁) ∧
      (((s₁.setRun id .unknownAfterRestart).setTurn id .unknownAfterRestart).setQueued id
        .unknownAfterRestart).readRun id = some rec ∧
      (((s₁.setRun id .unknownAfterRestart).setTurn id .unknownAfterRestart).setQueued id
        .unknownAfterRestart).markTerminalIn id rec now = .ok s' := by
  unfold recoverRun at h
  obtain ⟨⟨n, s₁⟩, hev, h⟩ := bind_eq_ok.mp h
  dsimp only at h
  split at h
  · cases h
  · rename_i rec hrec
    exact ⟨n, s₁, rec, hev, hrec, h⟩

theorem recoverRun_spec {s s' : RunStore} {id : RunId} {now : Int}
    (h : s.recoverRun id now = .ok s') : s'.control = Change.apply s.control (.lost id) := by
  obtain ⟨n, s₁, rec, hev, hrec, hterm⟩ := recoverRun_cases h
  have hc := insertEvent_control hev
  obtain ⟨run, events, hfind, -, -, -⟩ := insertEvent_spec hev
  have hrun := (readRun_view hrec).2
  have hold : s.control.run? id = some run.view := by
    rw [control_run?, hfind]
    rfl
  simp only [control_setQueued, control_setTurn, control_setRun, hc, Control.run?_updateQueue,
    Control.run?_updateTurn, Control.run?_updateRun_self, hold, Option.map_some,
    Option.some.injEq] at hrun
  have hstatus : rec.status = .unknownAfterRestart :=
    (congrArg (·.verdict.status) hrun).symm
  rw [markTerminalIn_control hterm, hstatus, control_setQueued, control_setTurn, control_setRun, hc]
  rfl

/-- The loop of `recover`: a run is still going when its turn comes. -/
theorem recoverRuns_spec {clock : Clock} (l : List (RunId × Nat)) {s s' : RunStore}
    (hnd : (l.map Prod.fst).Nodup)
    (hl : ∀ id ∈ l.map Prod.fst, (Change.lost id).Enabled s.control)
    (h : l.foldlM (fun s (p : RunId × Nat) => s.recoverRun p.1 (clock p.2)) s = .ok s') :
    Along Change.apply Change.Enabled s.control ((l.map Prod.fst).map .lost) ∧
      s'.control = after Change.apply s.control ((l.map Prod.fst).map .lost) := by
  induction l generalizing s with
  | nil =>
    rw [List.foldlM_nil, pure_eq_ok] at h
    subst h
    exact ⟨trivial, rfl⟩
  | cons p l ih =>
    rw [List.foldlM_cons, bind_eq_ok] at h
    obtain ⟨s₁, hs₁, h⟩ := h
    rw [List.map_cons, List.nodup_cons] at hnd
    have hc := recoverRun_spec hs₁
    have htail : ∀ id ∈ l.map Prod.fst, (Change.lost id).Enabled s₁.control := by
      intro id hid
      obtain ⟨v, hv, hact⟩ := hl id (List.mem_cons_of_mem _ hid)
      have hne : v.id ≠ p.1 := by
        rw [Control.id_of_run? hv]
        exact fun e => hnd.1 (e ▸ hid)
      refine ⟨v, ?_, hact⟩
      simp only [hc, Change.apply, Control.run?_mirror, Control.run?_updateRun, hv,
        Option.map_some, hne, if_false]
    obtain ⟨ha, he⟩ := ih hnd.2 htail h
    rw [hc] at ha he
    exact ⟨⟨hl p.1 List.mem_cons_self, ha⟩, he⟩

theorem recover_spec {s s' : RunStore} {clock : Clock} {n : Nat}
    (h : s.recover clock = .ok (n, s')) :
    ∃ ids : List RunId, (∀ w ∈ s.control.runs, w.verdict.status.active = true → w.id ∈ ids) ∧
      Along Change.apply Change.Enabled s.control (ids.map .lost) ∧
      s'.control = after Change.apply s.control (ids.map .lost) := by
  simp only [recover, bind_eq_ok, pure_eq_ok] at h
  obtain ⟨s₁, hs₁, h⟩ := h
  have hc : s'.control = s₁.control := by
    cases h
    rfl
  have hfst : (((s.runs.rows.filter fun r => r.status.active).map Run.id).zipIdx.map Prod.fst) =
      (s.runs.rows.filter fun r => r.status.active).map Run.id := by simp
  have hnd : ((s.runs.rows.filter fun r => r.status.active).map Run.id).Nodup :=
    s.runs.nodup.sublist (List.filter_sublist.map _)
  refine ⟨(s.runs.rows.filter fun r => r.status.active).map Run.id, ?_, ?_⟩
  · intro w hw hact
    obtain ⟨r, hr, rfl⟩ := List.mem_map.mp hw
    exact List.mem_map.mpr ⟨r, List.mem_filter.mpr ⟨hr, hact⟩, rfl⟩
  · rw [hc, ← hfst]
    refine recoverRuns_spec _ ?_ ?_ hs₁
    · rw [hfst]
      exact hnd
    · rw [hfst]
      intro id hid
      obtain ⟨r, hr, rfl⟩ := List.mem_map.mp hid
      obtain ⟨hr, hact⟩ := List.mem_filter.mp hr
      refine ⟨r.view, ?_, hact⟩
      rw [control_run?, Table.find?_of_mem hr, Option.map_some]

/-! ## Provider attempts -/

theorem startProviderAttempt_cases {s s' : RunStore} {attempt : ProviderAttempt} {u : Unit}
    (h : s.startProviderAttempt attempt = .ok (u, s')) :
    ∃ attempts n data, { s with providerAttempts := attempts }.insertEvent attempt.runId
      "provider_attempt_started" data = .ok (n, s') := by
  unfold startProviderAttempt at h
  split at h
  · cases h
  split at h
  · cases h
  obtain ⟨attempts, -, h⟩ := bind_eq_ok.mp h
  obtain ⟨⟨n, s₁⟩, hev, h⟩ := bind_eq_ok.mp h
  cases h
  exact ⟨attempts, n, _, hev⟩

theorem startProviderAttempt_spec {s s' : RunStore} {attempt : ProviderAttempt} {u : Unit}
    (h : s.startProviderAttempt attempt = .ok (u, s')) : s'.control = s.control := by
  obtain ⟨attempts, n, data, hev⟩ := startProviderAttempt_cases h
  exact (insertEvent_control hev).trans rfl

/-- The end of an attempt is logged once; telling it again with the same row changes nothing. -/
theorem finishProviderAttempt_cases {s s' : RunStore} {attempt : ProviderAttempt} {u : Unit}
    (h : s.finishProviderAttempt attempt = .ok (u, s')) :
    s' = s ∨ ∃ attempts n data, { s with providerAttempts := attempts }.insertEvent attempt.runId
      "provider_attempt_terminal" data = .ok (n, s') := by
  unfold finishProviderAttempt at h
  split at h
  · cases h
  split at h
  · cases h
  split at h
  · split at h
    · cases h
      exact .inl rfl
    · cases h
  split at h
  · cases h
  obtain ⟨⟨n, s₁⟩, hev, h⟩ := bind_eq_ok.mp h
  cases h
  exact .inr ⟨_, n, _, hev⟩

theorem finishProviderAttempt_spec {s s' : RunStore} {attempt : ProviderAttempt} {u : Unit}
    (h : s.finishProviderAttempt attempt = .ok (u, s')) : s'.control = s.control := by
  rcases finishProviderAttempt_cases h with rfl | ⟨attempts, n, data, hev⟩
  · rfl
  · exact (insertEvent_control hev).trans rfl

/-! ## Delegations -/

theorem readDelegation_eq_some {s : RunStore} {id : RunId} {rec : DelegationRecord}
    (h : s.readDelegation id = some rec) :
    ∃ d, s.delegations.find? id = some d ∧ rec.toDelegation = d := by
  unfold readDelegation at h
  split at h
  · rename_i d r hd hr
    cases h
    exact ⟨d, hd, rfl⟩
  · cases h

theorem enqueueChild_spec {s s' : RunStore} {request : DelegationRequest}
    {position : TreePosition} {now : Int} {rec : DelegationRecord}
    (h : s.enqueueChild request position now = .ok (rec, s')) :
    ∃ id route, rec.toDelegation = newDelegation request position id route now ∧
      s'.delegations.rows =
        s.delegations.rows ++ [newDelegation request position id route now] ∧
      (Change.admitted id request.childSessionId true).Enabled s.control ∧
      s'.control = Change.apply s.control (.admitted id request.childSessionId true) := by
  simp only [enqueueChild, bind_eq_ok, constraint_eq_ok] at h
  obtain ⟨sessions, -, ⟨id, s₁⟩, henq, delegations, hins, ⟨n, s₂⟩, hev, h⟩ := h
  obtain ⟨-, hfresh, hdel, hc⟩ := enqueueRun_spec henq
  obtain ⟨run, events, -, -, -, he⟩ := insertEvent_spec hev
  have hrows := Table.rows_insert hins
  have hd₂ : s₂.delegations = delegations := by rw [he]
  split at h
  · cases h
  · rename_i rec' hrec
    cases h
    have hfind : s₂.delegations.find? id = some (newDelegation request position id
        ((s.runRoutes.find? request.parentRunId).map RunRoute.snapshot) now) := by
      rw [hd₂, Table.find?_insert hins]
      exact if_pos rfl
    have hto : rec.toDelegation = newDelegation request position id
        ((s.runRoutes.find? request.parentRunId).map RunRoute.snapshot) now := by
      obtain ⟨d, hd, hto⟩ := readDelegation_eq_some hrec
      rw [hto]
      exact Option.some.inj (hd.symm.trans hfind)
    have hno : ∀ d ∈ s.control.children, d.runId ≠ id := by
      intro d hd e
      obtain ⟨x, hx, rfl⟩ := List.mem_map.mp hd
      have hn := Table.insert_fresh hins
      rw [hdel] at hn
      have hx' : s.delegations.find? id = some x := Table.find?_eq_some_iff.mpr ⟨hx, e⟩
      exact absurd (hn.symm.trans hx') (by simp)
    refine ⟨id, _, hto, ?_, ⟨by rw [control_run?, hfresh]; rfl, fun _ => hno⟩, ?_⟩
    · rw [hd₂, hrows, hdel]
    · rw [insertEvent_control hev]
      rw [control_eq] at hc
      simp only [Change.apply, Control.mk.injEq] at hc
      obtain ⟨h1, h2, h3, h4, h5⟩ := hc
      simp only [control, Change.apply, h1, h2, h3, h4, hrows, hdel, List.map_append,
        List.map_cons, List.map_nil, if_true]
      rfl

/-- What `admit_delegation` has checked of a child that it makes. -/
structure Spawns (s : RunStore) (request : DelegationRequest) (clock : Clock)
    (parent : RunRecord) : Prop where
  task : trim request.task ≠ []
  spawnKey : trim request.spawnKey ≠ []
  tools : request.tools ≠ []
  rounds : 0 < request.maxRounds
  tokens : 0 < request.maxTokens
  toolCalls : 0 < request.maxToolCalls
  found : s.readRun request.parentRunId = some parent
  session : parent.sessionId = request.parentSessionId
  fresh : s.delegations.rows.find? (fun d =>
    d.parentRunId = request.parentRunId ∧ d.spawnKey = request.spawnKey) = none
  active : parent.status.active = true
  deadline : clock 0 < request.deadlineMs
  depth : (s.childPosition parent).depth ≤ maxDepth
  total : s.delegations.count (fun d => d.rootRunId = (s.childPosition parent).rootRunId) <
    maxRootSpawns
  running : s.delegations.count (fun d =>
    d.rootRunId = (s.childPosition parent).rootRunId && d.status.busy) < maxRootActive

/-- An admission finds the child of its spawn key, or makes one. -/
theorem admitDelegation_cases {s s' : RunStore} {request : DelegationRequest} {clock : Clock}
    {rec : DelegationRecord} (h : s.admitDelegation request clock = .ok (rec, s')) :
    (s' = s ∧ ∃ d, s.delegations.rows.find? (fun d =>
        d.parentRunId = request.parentRunId ∧ d.spawnKey = request.spawnKey) = some d ∧
      d.childRunId = rec.childRunId) ∨
    ∃ parent, s.Spawns request clock parent ∧
      s.enqueueChild request (s.childPosition parent) (clock 1) = .ok (rec, s') := by
  unfold admitDelegation at h
  split at h
  · cases h
  rename_i hargs
  split at h
  · cases h
  rename_i parent hparent
  split at h
  · cases h
  rename_i hsession
  split at h
  · rename_i duplicate hdup
    obtain ⟨record, hrecord, h⟩ := map_eq_ok.mp h
    cases h
    refine .inl ⟨rfl, duplicate, hdup, ?_⟩
    unfold existingDelegation at hrecord
    split at hrecord
    · rename_i record' child hread hchild
      split at hrecord
      · cases hrecord
      · cases hrecord
        obtain ⟨d, hd, hto⟩ := readDelegation_eq_some hread
        rw [← hto] at hd
        exact (Table.key_of_find? hd).symm
    · cases hrecord
  rename_i hfresh
  split at h
  · cases h
  rename_i hactive
  split at h
  · cases h
  rename_i hdeadline
  dsimp only at h
  split at h
  · cases h
  rename_i hdepth
  split at h
  · cases h
  rename_i hlimits
  simp only [not_or, Int.not_le] at hargs
  simp only [not_or, ge_iff_le, Nat.not_le] at hlimits
  obtain ⟨htask, hkey, htools, hrounds, htokens, hcalls⟩ := hargs
  refine .inr ⟨parent, ⟨htask, hkey, htools, hrounds, htokens, hcalls, hparent,
    not_not.mp hsession, hfresh, by simpa using hactive, Int.not_le.mp hdeadline,
    Int.not_lt.mp hdepth, hlimits.1, hlimits.2⟩, h⟩

theorem admitDelegation_spec {s s' : RunStore} {request : DelegationRequest} {clock : Clock}
    {rec : DelegationRecord} (h : s.admitDelegation request clock = .ok (rec, s')) :
    (s' = s ∧ ∃ d ∈ s.delegations.rows, d.childRunId = rec.childRunId ∧
      d.parentRunId = request.parentRunId) ∨
    ∃ parent, s.readRun request.parentRunId = some parent ∧ parent.status.active = true ∧
      s.enqueueChild request (s.childPosition parent) (clock 1) = .ok (rec, s') := by
  rcases admitDelegation_cases h with ⟨rfl, d, hd, hid⟩ | ⟨parent, hspawns, h⟩
  · have hp := List.find?_some hd
    simp only [decide_eq_true_eq] at hp
    exact .inl ⟨rfl, d, List.mem_of_find?_eq_some hd, hid, hp.1⟩
  · exact .inr ⟨parent, hspawns.found, hspawns.active, h⟩

theorem writeDelegation_cases {s s' : RunStore} {id : RunId} {f : Delegation → Delegation}
    {hf : ∀ d, (f d).childRunId = d.childRunId} {rec : DelegationRecord}
    (h : s.writeDelegation id f hf = .ok (rec, s')) :
    s'.readDelegation id = some rec ∧
      s' = { s with delegations := s.delegations.update (·.childRunId = id) f hf } := by
  unfold writeDelegation at h
  dsimp only at h
  split at h
  · cases h
  · rename_i rec' hrec
    cases h
    exact ⟨hrec, rfl⟩

theorem writeDelegation_spec {s s' : RunStore} {id : RunId} {f : Delegation → Delegation}
    {hf : ∀ d, (f d).childRunId = d.childRunId} {d : Delegation} {rec : DelegationRecord}
    (hd : s.delegations.find? id = some d) (hst : (f d).status = d.status)
    (h : s.writeDelegation id f hf = .ok (rec, s')) :
    rec.toDelegation = f d ∧ s'.control = Change.apply s.control (.leased id (f d).lease) := by
  obtain ⟨hrec, rfl⟩ := writeDelegation_cases h
  constructor
  · obtain ⟨e, he, hto⟩ := readDelegation_eq_some hrec
    rw [Table.find?_update, hd, Option.map_some, Option.some.injEq] at he
    rw [hto, ← he]
    exact if_pos (decide_eq_true (Table.key_of_find? hd))
  · apply control_updateDelegation s id f hf ({ · with lease := (f d).lease })
    intro e he hid
    have : e = d := s.delegations.eq_of_key_eq he (Table.mem_of_find? hd)
      (hid.trans (Table.key_of_find? hd).symm)
    subst this
    simp only [Delegation.view, hf, hst]

theorem enabled_leased {s : RunStore} {id : RunId} {d : Delegation} {lease : Lease}
    (hd : s.delegations.find? id = some d) (h : d.lease.Moves d.status lease) :
    (Change.leased id lease).Enabled s.control := by
  intro e he hid
  obtain ⟨x, hx, rfl⟩ := List.mem_map.mp he
  have : x = d := s.delegations.eq_of_key_eq hx (Table.mem_of_find? hd)
    (Eq.trans hid (Table.key_of_find? hd).symm)
  subst this
  exact h

/-- A reservation either finds the result in the hands of `owner` already, or leases a result that
was not delivered, after taking an expired lease back. -/
theorem reserveDelegationResult_cases {s s' : RunStore} {child : RunId} {owner : String}
    {revision : Int} {clock : Clock} {rec : DelegationRecord}
    (h : s.reserveDelegationResult child owner revision clock = .ok (rec, s')) :
    (s' = s ∧ rec.reservationOwner = some owner) ∨
    ∃ d, s.delegations.find? child = some d ∧ d.status.terminal = true ∧
      d.resultState ≠ .delivered ∧ ∃ expired : Bool, ∃ hf, s.writeDelegation child (fun d =>
        ((if expired then Delegation.releaseExpired (clock 2) else id) d).grant owner (clock 3))
        hf = .ok (rec, s') := by
  unfold reserveDelegationResult at h
  split at h
  · cases h
  rename_i record hread
  obtain ⟨d, hd, rfl⟩ := readDelegation_eq_some hread
  split at h
  · cases h
  split at h
  · rename_i hrepeat
    cases h
    exact .inl ⟨rfl, hrepeat.1⟩
  split at h
  · cases h
  rename_i hguard
  dsimp only at h
  split at h
  · cases h
  rename_i hstate
  simp only [Bool.or_eq_true, Bool.not_eq_true', decide_eq_true_eq, not_or, Bool.not_eq_false,
    ne_eq, not_not] at hguard
  refine .inr ⟨_, hd, hguard.1, ?_, _, _, h⟩
  intro hdelivered
  simp [hdelivered] at hstate

theorem reserveDelegationResult_spec {s s' : RunStore} {id : RunId} {owner : String}
    {revision : Int} {clock : Clock} {rec : DelegationRecord}
    (h : s.reserveDelegationResult id owner revision clock = .ok (rec, s')) :
    (s' = s ∧ rec.reservationOwner = some owner) ∨
    (rec.lease.state = .reserved ∧ rec.lease.owner = some owner ∧
      (Change.leased id rec.lease).Enabled s.control ∧
      s'.control = Change.apply s.control (.leased id rec.lease)) := by
  rcases reserveDelegationResult_cases h with hrepeat |
    ⟨d, hd, hterminal, hnd, expired, hf, hwrite⟩
  · exact .inl hrepeat
  obtain ⟨hrec, hc⟩ := writeDelegation_spec hd (by split <;> rfl) hwrite
  have hlease : rec.lease = ⟨.reserved, some owner, rec.revision⟩ := by
    rw [hrec]
    rfl
  refine .inr ⟨by rw [hlease], by rw [hlease], ?_, ?_⟩
  · refine enabled_leased hd ?_
    rw [hlease]
    have hrev : d.lease.revision < rec.revision := by
      rw [hrec]
      split
      · show d.revision < d.revision + 1 + 1
        omega
      · show d.revision < d.revision + 1
        omega
    exact .reserve hterminal hnd hrev
  · rw [hc, ← hrec]

/-- A release or a delivery ends the lease that `owner` holds at `revision`; a delivery that was
made already is answered with the row as it stands. -/
theorem transitionResult_cases {s s' : RunStore} {id : RunId} {owner : String} {revision : Int}
    {target : ResultState} {clock : Clock} {rec : DelegationRecord}
    (h : s.transitionResult id owner revision target clock = .ok (rec, s')) :
    (s' = s ∧ target = .delivered ∧ rec.lease.state = .delivered ∧
      rec.lease.owner = some owner ∧ s.readDelegation id = some rec) ∨
    ∃ d, s.delegations.find? id = some d ∧ d.lease = ⟨.reserved, some owner, revision⟩ ∧
      s.writeDelegation id (Delegation.settleLease target (clock 1)) (fun _ => rfl) =
        .ok (rec, s') := by
  unfold transitionResult at h
  split at h
  · cases h
  rename_i record hread
  obtain ⟨d, hd, rfl⟩ := readDelegation_eq_some hread
  split at h
  · rename_i hrepeat
    cases h
    exact .inl ⟨rfl, hrepeat.1, hrepeat.2.1, hrepeat.2.2, hread⟩
  split at h
  · cases h
  rename_i hguard
  simp only [not_or, not_not] at hguard
  obtain ⟨hstate, howner, hrev, -⟩ := hguard
  exact .inr ⟨_, hd, by rw [Delegation.lease, hstate, howner, hrev], h⟩

theorem transitionResult_spec {s s' : RunStore} {id : RunId} {owner : String} {revision : Int}
    {target : ResultState} {clock : Clock} {rec : DelegationRecord}
    (ht : target = .unconsumed ∨ target = .delivered)
    (h : s.transitionResult id owner revision target clock = .ok (rec, s')) :
    (s' = s ∧ target = .delivered ∧ rec.lease.state = .delivered ∧
      rec.lease.owner = some owner ∧ s.readDelegation id = some rec) ∨
    (∃ d, s.delegations.find? id = some d ∧ d.lease = ⟨.reserved, some owner, revision⟩ ∧
      rec.lease = ⟨target, if target = .delivered then some owner else none, revision + 1⟩ ∧
      (Change.leased id rec.lease).Enabled s.control ∧
      s'.control = Change.apply s.control (.leased id rec.lease)) := by
  rcases transitionResult_cases h with hrepeat | ⟨d, hd, hdl, hwrite⟩
  · exact .inl hrepeat
  obtain ⟨hrec, hc⟩ := writeDelegation_spec hd rfl hwrite
  have howner : d.reservationOwner = some owner := congrArg Lease.owner hdl
  have hrev : d.revision = revision := congrArg Lease.revision hdl
  have hlease : rec.lease =
      ⟨target, if target = .delivered then some owner else none, revision + 1⟩ := by
    rw [hrec, Delegation.lease, Delegation.settleLease, howner, hrev]
  refine .inr ⟨d, hd, hdl, hlease, ?_, ?_⟩
  · refine enabled_leased hd ?_
    rw [hlease, hdl]
    rcases ht with rfl | rfl
    · exact .release rfl rfl
    · exact .deliver rfl rfl
  · rw [hc, ← hrec]

end RunStore

end AgentDaemon.Storage
