import AgentDaemon.Storage.Archive
import AgentDaemon.Storage.Queue

/-!
What the store writes down of a run at its admission and nowhere else: the text of its queue item
and the route that it is to take. `RunStore.intake` projects a store to them; an operation leaves
them as they are or enrols one run (`RunStore.intake_of_exec`).
-/

namespace AgentDaemon.Storage

open Provider Transition Fallible

/-- The columns of the queue items that are set once, and the routes. -/
structure Intake where
  letters : List (RunId × SessionId × String)
  routes : Table RunRoute.runId

/-- An operation enrols the run of `head`, with a route. A child takes the route of its parent. -/
def Op.Enrols (s : RunStore) (head : Head) (route : Option RouteSnapshot) : Op → Prop
  | .admitWithRoute sid rid input _ asked _ =>
    head.sessionId = sid ∧ head.requestId = rid ∧ head.input = input ∧ route = asked
  | .admitDelegation request _ => head.sessionId = request.childSessionId ∧
    (∃ parent, s.runs.find? request.parentRunId = some parent) ∧
      route = s.routeSnapshot request.parentRunId
  | _ => False

namespace RunStore

def intake (s : RunStore) : Intake where
  letters := s.queuedMessages.rows.map fun q => (q.runId, q.sessionId, q.message)
  routes := s.runRoutes

/-- The run of `head` is new in `s'`. -/
structure Enrolled (s s' : RunStore) (head : Head) (route : Option RouteSnapshot) : Prop where
  fresh : s.runs.find? head.id = none
  letters : s'.intake.letters = s.intake.letters ++ [(head.id, head.sessionId, head.input)]
  routes : s.insertRoute head.id route = .ok s'.intake.routes
  heads : s'.archive.heads = s.archive.heads ++ [head]

variable {s s' : RunStore} {sid : SessionId}

/-! ## Writes -/

theorem intake_updateQueue (s : RunStore) (p : QueuedMessage → Bool) (status : RunStatus) :
    { s with queuedMessages := s.queuedMessages.update p ({ · with status := status }) }.intake =
      s.intake := by
  have e : (s.queuedMessages.update p ({ · with status := status })).rows.map
      (fun q => (q.runId, q.sessionId, q.message)) =
      s.queuedMessages.rows.map fun q => (q.runId, q.sessionId, q.message) :=
    Table.map_update_of_eq _ _ _ _ fun _ => rfl
  simp only [intake, e]

@[simp] theorem intake_setQueued (s : RunStore) (id : RunId) (status : RunStatus) :
    (s.setQueued id status).intake = s.intake := intake_updateQueue s _ status

@[simp] theorem intake_moveQueued (s : RunStore) (id : RunId) (source target : RunStatus) :
    (s.moveQueued id source target).intake = s.intake := intake_updateQueue s _ target

theorem insertEvent_intake {id : RunId} {event : String} {data : Json} {n : Nat}
    (h : s.insertEvent id event data = .ok (n, s')) : s'.intake = s.intake := by
  obtain ⟨run, events, -, -, -, rfl⟩ := insertEvent_spec h
  rfl

theorem insertContent_intake {id : RunId} {data : Option Json}
    (h : s.insertContent id data = .ok s') : s'.intake = s.intake := by
  unfold insertContent at h
  split at h
  · cases h
    rfl
  · obtain ⟨⟨n, s₁⟩, hev, rfl⟩ := map_eq_ok.mp h
    exact insertEvent_intake hev

theorem markTerminalIn_intake {id : RunId} {rec : RunRecord} {now : Int}
    (h : s.markTerminalIn id rec now = .ok s') : s'.intake = s.intake := by
  rcases markTerminalIn_cases h with ⟨-, rfl⟩ | ⟨d, -, rfl | ⟨parent, n, data, -, -, hev⟩⟩
  · rfl
  · rfl
  · exact (insertEvent_intake hev).trans rfl

theorem recoverRuns_intake {clock : Clock} (l : List (RunId × Nat))
    (h : l.foldlM (fun s (p : RunId × Nat) => s.recoverRun p.1 (clock p.2)) s = .ok s') :
    s'.intake = s.intake := by
  induction l generalizing s with
  | nil =>
    rw [List.foldlM_nil, pure_eq_ok] at h
    rw [h]
  | cons p l ih =>
    rw [List.foldlM_cons, bind_eq_ok] at h
    obtain ⟨s₁, hs₁, h⟩ := h
    obtain ⟨n, s₂, rec, hev, -, hterm⟩ := recoverRun_cases hs₁
    rw [ih h, markTerminalIn_intake hterm, intake_setQueued, ← insertEvent_intake hev]
    rfl

/-! ## What an operation enrols -/

theorem enqueueRun_enrolled {rid : RequestId} {input : String} {route : Option RouteSnapshot}
    {now : Int} {id : RunId} (h : s.enqueueRun sid rid input route now = .ok (id, s')) :
    Enrolled s s' ⟨id, sid, rid, input⟩ route := by
  have harchive := enqueueRun_archive h
  have hheads := congrArg Archive.heads harchive.2.2
  simp only [enqueueRun, bind_eq_ok, constraint_eq_ok, pure_eq_ok] at h
  obtain ⟨runs, -, turns, -, routes, hroutes, ⟨n, s₁⟩, hev, queued, hins, h⟩ := h
  have hintake := insertEvent_intake hev
  simp only [intake, Intake.mk.injEq] at hintake
  cases h
  refine ⟨harchive.1, ?_, ?_, hheads⟩
  · simp only [intake]
    rw [Table.rows_insert hins, List.map_append, hintake.1]
    rfl
  · simp only [intake]
    rw [hintake.2]
    exact hroutes

theorem Enrolled.of_eq {t t' : RunStore} {head : Head} {route : Option RouteSnapshot}
    (h : Enrolled t t' head route) (hruns : t.runs = s.runs) (hs : t.intake = s.intake)
    (hheads : t.archive.heads = s.archive.heads) (hs' : s'.intake = t'.intake)
    (hheads' : s'.archive.heads = t'.archive.heads) : Enrolled s s' head route where
  fresh := hruns ▸ h.fresh
  letters := by rw [hs', h.letters, hs]
  routes := by
    have hroutes : t.runRoutes = s.runRoutes := congrArg Intake.routes hs
    have hins := h.routes
    unfold insertRoute at hins ⊢
    rw [hs', ← hroutes]
    exact hins
  heads := by rw [hheads', h.heads, hheads]

/-- An operation leaves the intake as it is or enrols a run. -/
theorem intake_of_exec {op : Op} {reply : Reply} (h : s.exec op = .ok (reply, s')) :
    s'.intake = s.intake ∨
      ∃ head route, op.Enrols s head route ∧ Enrolled s s' head route := by
  cases op with
  | admitWithRoute sid rid input mode route now =>
    obtain ⟨r, -, hx⟩ := of_exec h
    rcases admitWithRoute_cases hx with ⟨stored, -, -, -, -, -, rfl⟩ | ⟨-, rec, -, -, henq⟩
    · exact .inl rfl
    · exact .inr ⟨_, route, ⟨rfl, rfl, rfl, rfl⟩,
        (enqueueRun_enrolled henq).of_eq rfl rfl rfl rfl rfl⟩
  | admitDelegation request clock =>
    obtain ⟨rec, -, hx⟩ := of_exec h
    rcases admitDelegation_cases hx with ⟨rfl, -⟩ | ⟨parent, hspawns, hx⟩
    · exact .inl rfl
    · simp only [enqueueChild, bind_eq_ok, constraint_eq_ok] at hx
      obtain ⟨sessions, -, ⟨id, s₁⟩, henq, delegations, -, ⟨n, s₂⟩, hev, hx⟩ := hx
      have hintake := insertEvent_intake hev
      have harchive := insertEvent_archive hev (by simp)
      dsimp only at hx
      split at hx
      · cases hx
      · cases hx
        obtain ⟨r, hr, -⟩ := readRun_eq_some hspawns.found
        exact .inr ⟨_, _, ⟨rfl, ⟨r, hr⟩, rfl⟩, (enqueueRun_enrolled henq).of_eq rfl rfl rfl
          hintake ((congrArg Archive.heads harchive).trans rfl)⟩
  | tryStartQueued id clock =>
    obtain ⟨r, -, hx⟩ := of_exec h
    rcases tryStartQueued_cases hx with ⟨-, rfl, -⟩ | ⟨n, data, s₁, -, -, -, -, hev, rfl⟩
    · exact .inl rfl
    · refine .inl ?_
      rw [show s.intake = s₁.intake from (insertEvent_intake hev).symm]
      exact intake_setQueued (s₁.setTurn id .running) id .running
  | removeQueued id now =>
    obtain ⟨b, -, hx⟩ := of_exec h
    rcases removeQueued_cases hx with ⟨-, -, n, s₁, rec, hev, -, hterm⟩ | ⟨-, -, rfl⟩
    · refine .inl ?_
      rw [markTerminalIn_intake hterm, insertEvent_intake hev, intake_moveQueued]
      rfl
    · exact .inl rfl
  | prepareToolBatch id round calls =>
    obtain ⟨r, -, hx⟩ := of_exec h
    obtain ⟨run, tools, n, data, -, -, -, -, hev⟩ := prepareToolBatch_cases hx
    exact .inl ((insertEvent_intake hev).trans rfl)
  | startTool id round callId now =>
    obtain ⟨r, -, hx⟩ := of_exec h
    exact .inl (by rw [moveTool_eq hx]; rfl)
  | finishTool id round callId outcome artifactRef receipt now =>
    obtain ⟨r, -, hx⟩ := of_exec h
    exact .inl (by rw [moveTool_eq hx]; rfl)
  | finishToolBatch id round =>
    obtain ⟨r, -, hx⟩ := of_exec h
    obtain ⟨n, data, hev⟩ := finishToolBatch_cases hx
    exact .inl (insertEvent_intake hev)
  | appendEvent id event data =>
    obtain ⟨r, -, hx⟩ := of_exec h
    obtain ⟨s₁, hev, ⟨-, rfl⟩ | ⟨i, prompt, payload, interactions, -, -, -, rfl⟩⟩ :=
      appendEvent_cases hx
    · exact .inl (insertEvent_intake hev)
    · exact .inl (show s₁.intake = s.intake from insertEvent_intake hev)
  | claimInteraction i sid id revision approved =>
    obtain ⟨r, -, hx⟩ := of_exec h
    rcases claimInteraction_cases hx with ⟨rfl, -⟩ | ⟨x, run, n, -, -, -, -, -, -, -, hev, -⟩
    · exact .inl rfl
    · refine .inl ((insertEvent_intake hev).trans ?_)
      unfold answering
      split <;> rfl
  | finish id status content error now =>
    obtain ⟨r, -, hx⟩ := of_exec h
    obtain ⟨-, ⟨rfl, -⟩ | ⟨current, s₁, n, s₂, data, -, -, hcontent, hev, -, hmark⟩⟩ :=
      finish_cases hx
    · exact .inl rfl
    · refine .inl ((markTerminalIn_intake hmark).trans ?_)
      refine Eq.trans (b := s₂.intake) (intake_setQueued _ id _) ?_
      rw [insertEvent_intake hev, insertContent_intake hcontent]
  | reconcileUnknown id sid seq status content evidence digest now =>
    obtain ⟨r, -, hx⟩ := of_exec h
    obtain ⟨-, -, current, s₁, n, s₂, kept, payload, data, -, -, hcontent, hev, -, hmark⟩ :=
      reconcileUnknown_cases hx
    refine .inl ((markTerminalIn_intake hmark).trans ?_)
    refine Eq.trans (b := s₂.intake) (intake_setQueued _ id _) ?_
    rw [insertEvent_intake hev, insertContent_intake hcontent]
  | recover clock =>
    obtain ⟨r, -, hx⟩ := of_exec h
    unfold recover at hx
    obtain ⟨s₁, hfold, hx⟩ := bind_eq_ok.mp hx
    cases hx
    exact .inl (show s₁.intake = s.intake from recoverRuns_intake _ hfold)
  | startProviderAttempt attempt =>
    obtain ⟨r, -, hx⟩ := of_exec h
    obtain ⟨attempts, n, data, hev⟩ := startProviderAttempt_cases hx
    exact .inl ((insertEvent_intake hev).trans rfl)
  | finishProviderAttempt attempt =>
    obtain ⟨r, -, hx⟩ := of_exec h
    rcases finishProviderAttempt_cases hx with rfl | ⟨attempts, n, data, hev⟩
    · exact .inl rfl
    · exact .inl ((insertEvent_intake hev).trans rfl)
  | reserveDelegationResult child owner revision clock =>
    obtain ⟨r, -, hx⟩ := of_exec h
    rcases reserveDelegationResult_cases hx with ⟨rfl, -⟩ | ⟨d, -, -, -, expired, hf, hwrite⟩
    · exact .inl rfl
    · exact .inl (by rw [(writeDelegation_cases hwrite).2]; rfl)
  | releaseDelegationResult child owner revision clock =>
    obtain ⟨r, -, hx⟩ := of_exec h
    rcases transitionResult_cases hx with ⟨rfl, -⟩ | ⟨d, -, -, hwrite⟩
    · exact .inl rfl
    · exact .inl (by rw [(writeDelegation_cases hwrite).2]; rfl)
  | deliverDelegationResult child owner revision clock =>
    obtain ⟨r, -, hx⟩ := of_exec h
    rcases transitionResult_cases hx with ⟨rfl, -⟩ | ⟨d, -, -, hwrite⟩
    · exact .inl rfl
    · exact .inl (by rw [(writeDelegation_cases hwrite).2]; rfl)

/-! ## Every reachable store -/

/-- Every run has its item, in the same order and with its input. -/
def InStep (s : RunStore) : Prop :=
  s.intake.letters = s.archive.heads.map fun h => (h.id, h.sessionId, h.input)

theorem length_letters (s : RunStore) : s.intake.letters.length = s.control.queue.length := by
  rw [intake, control, List.length_map, List.length_map]

theorem length_heads (s : RunStore) : s.archive.heads.length = s.control.runs.length := by
  rw [archive, control, List.length_map, List.length_map]

/-- A queue that did not grow has runs beside it that did not. -/
theorem heads_of_intake (ha : Aligned s.control) (ha' : Aligned s'.control)
    (hheads : s.archive.heads <+: s'.archive.heads) (hintake : s'.intake = s.intake) :
    s'.archive.heads = s.archive.heads := by
  refine (hheads.eq_of_length ?_).symm
  rw [length_heads, length_heads, List.Forall₂.length_eq ha, List.Forall₂.length_eq ha',
    ← length_letters, ← length_letters, hintake]

theorem aligned_next (ha : Aligned s.control) (op : Op) : Aligned (s.next op).control :=
  control_next (P := fun _ => true) (fun _ ch h _ => h.apply ch) ha (approvalsOn_any s op)

theorem intake_next (ha : Aligned s.control) (op : Op) :
    ((s.next op).intake = s.intake ∧ (s.next op).archive.heads = s.archive.heads) ∨
      ∃ head route, op.Enrols s head route ∧ Enrolled s (s.next op) head route := by
  have ha' := aligned_next ha op
  have hheads := after_heads s [op]
  rw [after_cons, after_nil] at hheads
  unfold RunStore.next at ha' hheads ⊢
  generalize hexec : s.exec op = result at ha' hheads ⊢
  rcases result with e | ⟨reply, s'⟩
  · exact .inl ⟨rfl, rfl⟩
  · dsimp only at ha' hheads ⊢
    rcases intake_of_exec hexec with hintake | hnew
    · exact .inl ⟨hintake, heads_of_intake ha ha' hheads hintake⟩
    · exact .inr hnew

theorem InStep.next (h : s.InStep) (ha : Aligned s.control) (op : Op) : (s.next op).InStep := by
  unfold InStep at h ⊢
  rcases intake_next ha op with ⟨hintake, hheads⟩ | ⟨head, route, -, hnew⟩
  · rw [hintake, hheads, h]
  · rw [hnew.letters, hnew.heads, List.map_append, h]
    rfl

theorem inStep_after (ops : List Op) : (storeAfter ops).InStep := by
  have h : Aligned (storeAfter ops).control ∧ (storeAfter ops).InStep := by
    refine after_induct (G := fun _ _ => True)
      (I := fun s : RunStore => Aligned s.control ∧ s.InStep) ?_ ⟨.nil, rfl⟩ (along_true _ _)
    exact fun s op hs _ => ⟨aligned_next hs.1 op, hs.2.next hs.1 op⟩
  exact h.2

/-- The item of a run, with the text the run was admitted with. -/
theorem InStep.item_of_run (h : s.InStep) (ha : Aligned s.control) {i : Nat} {r : Run}
    (hr : s.runs.rows[i]? = some r) : ∃ q : QueuedMessage, s.queuedMessages.rows[i]? = some q ∧
      q.runId = r.id ∧ q.sessionId = r.sessionId ∧ q.message = r.input ∧
      (r.status = .queued → q.status = .queued) := by
  have hletter : s.intake.letters[i]? = some (r.id, r.sessionId, r.input) := by
    rw [show s.intake.letters = _ from h, archive, List.map_map, List.getElem?_map, hr]
    rfl
  rw [intake, List.getElem?_map] at hletter
  obtain ⟨q, hq, hcols⟩ := Option.map_eq_some_iff.mp hletter
  simp only [Prod.mk.injEq] at hcols
  refine ⟨q, hq, hcols.1, hcols.2.1, hcols.2.2, fun hst => ?_⟩
  have hget := List.forall₂_iff_get.mp ha
  obtain ⟨hlt, hri⟩ := List.getElem?_eq_some_iff.mp hr
  obtain ⟨hlt', hqi⟩ := List.getElem?_eq_some_iff.mp hq
  have hi := (hget.2 i (by simpa [control] using hlt) (by simpa [control] using hlt')).2.2
  simp only [control, List.get_eq_getElem, List.getElem_map, hri, hqi] at hi
  exact hi hst

/-! ## Routes -/

/-- The store has the run. -/
def Has (s : RunStore) (id : RunId) : Prop := id ∈ s.archive.heads.map Head.id

/-- Only runs have routes. -/
def RoutesOwned (s : RunStore) : Prop := ∀ id, ¬ s.Has id → s.routeSnapshot id = none

/-- What one operation does to the routes: it leaves them as they are, or adds that of a new run. -/
structure Routes (s s' : RunStore) (head : Head) (route : Option RouteSnapshot) : Prop where
  fresh : ¬ s.Has head.id
  has : ∀ id, s'.Has id ↔ s.Has id ∨ id = head.id
  snapshot : ∀ id, s'.routeSnapshot id = if id = head.id then route else s.routeSnapshot id

theorem Enrolled.has {head : Head} {route : Option RouteSnapshot} (h : Enrolled s s' head route)
    (id : RunId) : s'.Has id ↔ s.Has id ∨ id = head.id := by
  rw [Has, Has, h.heads, List.map_append, List.mem_append, List.map_singleton, List.mem_singleton]

theorem Enrolled.not_has {head : Head} {route : Option RouteSnapshot}
    (h : Enrolled s s' head route) : ¬ s.Has head.id := by
  intro hmem
  obtain ⟨r, hr⟩ := mem_heads.mp hmem
  cases h.fresh.symm.trans hr

theorem Enrolled.routes_spec {head : Head} {route : Option RouteSnapshot}
    (h : Enrolled s s' head route) (howned : s.RoutesOwned) : Routes s s' head route := by
  refine ⟨h.not_has, h.has, fun id => ?_⟩
  have hnone := howned head.id h.not_has
  have hins := h.routes
  unfold insertRoute at hins
  have hroutes : s'.routeSnapshot id = (s'.intake.routes.find? id).map RunRoute.snapshot := rfl
  rw [hroutes]
  cases route with
  | none =>
    rw [← Except.ok.inj hins]
    by_cases hid : id = head.id
    · rw [if_pos hid, hid]
      exact hnone
    · rw [if_neg hid]
      rfl
  | some snapshot =>
    rw [Table.find?_insert (constraint_eq_ok.mp hins)]
    by_cases hid : id = head.id
    · rw [if_pos hid, if_pos hid.symm]
      rfl
    · rw [if_neg hid, if_neg fun h => hid h.symm]
      rfl

theorem routes_next (ha : Aligned s.control) (howned : s.RoutesOwned) (op : Op) :
    ((∀ id, (s.next op).Has id ↔ s.Has id) ∧
      ∀ id, (s.next op).routeSnapshot id = s.routeSnapshot id) ∨
    ∃ head route, op.Enrols s head route ∧ Routes s (s.next op) head route := by
  rcases intake_next ha op with ⟨hintake, hheads⟩ | ⟨head, route, henrols, hnew⟩
  · refine .inl ⟨fun id => ?_, fun id => ?_⟩
    · rw [Has, hheads, Has]
    · exact congrArg (fun i : Intake => (i.routes.find? id).map RunRoute.snapshot) hintake
  · exact .inr ⟨head, route, henrols, hnew.routes_spec howned⟩

theorem RoutesOwned.next (h : s.RoutesOwned) (ha : Aligned s.control) (op : Op) :
    (s.next op).RoutesOwned := by
  intro id hid
  rcases routes_next ha h op with ⟨hhas, hroutes⟩ | ⟨head, route, -, hnew⟩
  · rw [hroutes]
    exact h id fun hs => hid ((hhas id).mpr hs)
  · rw [hnew.snapshot, if_neg fun he => hid ((hnew.has id).mpr (.inr he))]
    exact h id fun hs => hid ((hnew.has id).mpr (.inl hs))

end RunStore

end AgentDaemon.Storage
