import AgentDaemon.Storage.Specs

/-!
What the store keeps beside its control state: the columns of a run and of a delegation that are
set when the row is inserted, the calls of the tool receipts, the interactions, and the runs whose
end is in the log. `RunStore.archive` projects a store to them, and an `Entry` is what one
operation files there (`exec_archive`): no row goes away and a column that is set once stays.
-/

namespace AgentDaemon.Storage

open Provider Transition Fallible

/-- The columns of a run that are set once. -/
structure Head where
  id : RunId
  sessionId : SessionId
  requestId : RequestId
  input : String
  deriving DecidableEq, Repr

/-- The columns of a delegation that are set once: its place in the tree and what it may use. -/
structure Terms where
  rootSessionId : SessionId
  rootRunId : RunId
  parentSessionId : SessionId
  parentRunId : RunId
  spawnKey : String
  childSessionId : SessionId
  childRunId : RunId
  depth : Int
  tools : List String
  maxRounds : Int
  maxTokens : Int
  maxToolCalls : Int
  deadlineMs : Int
  deriving DecidableEq, Repr

def Run.head (r : Run) : Head := ⟨r.id, r.sessionId, r.requestId, r.input⟩

def Delegation.terms (d : Delegation) : Terms where
  rootSessionId := d.rootSessionId
  rootRunId := d.rootRunId
  parentSessionId := d.parentSessionId
  parentRunId := d.parentRunId
  spawnKey := d.spawnKey
  childSessionId := d.childSessionId
  childRunId := d.childRunId
  depth := d.depth
  tools := d.tools
  maxRounds := d.maxRounds
  maxTokens := d.maxTokens
  maxToolCalls := d.maxToolCalls
  deadlineMs := d.deadlineMs

/-- The terms that a request asks for, at its place in the tree. -/
def DelegationRequest.terms (request : DelegationRequest) (position : RunStore.TreePosition)
    (child : RunId) : Terms where
  rootSessionId := position.rootSessionId
  rootRunId := position.rootRunId
  parentSessionId := request.parentSessionId
  parentRunId := request.parentRunId
  spawnKey := request.spawnKey
  childSessionId := request.childSessionId
  childRunId := child
  depth := position.depth
  tools := request.tools
  maxRounds := request.maxRounds
  maxTokens := request.maxTokens
  maxToolCalls := request.maxToolCalls
  deadlineMs := request.deadlineMs

structure Archive where
  heads : List Head
  terms : List Terms
  calls : List (RunId × Nat × String)
  interactions : Table Interaction.id
  endings : List RunId

def RunStore.archive (s : RunStore) : Archive where
  heads := s.runs.rows.map Run.head
  terms := s.delegations.rows.map Delegation.terms
  calls := s.toolExecutions.rows.map ToolExecution.key
  interactions := s.interactions
  endings := (s.events.rows.filter fun e => e.event = "terminal").map StoredEvent.runId

inductive Entry where
  | nothing
  | run (head : Head)
  | child (head : Head) (terms : Terms)
  | calls (keys : List (RunId × Nat × String))
  | asked (interaction : Interaction)
  | answered (id : InteractionId) (approved : Bool)
  /-- The end of a run is logged. -/
  | ended (run : RunId)
  /-- The end of a run is logged, and its questions go without an answer. -/
  | closed (run : RunId)
  /-- The ends of the runs are logged, and the questions of lost runs go without an answer. -/
  | recovered (runs : List RunId) (lost : RunId → Bool)

namespace Archive

theorem id_answered (approved : Bool) (i : Interaction) : (RunStore.answered i approved).id = i.id :=
  rfl

theorem id_closed (i : Interaction) :
    ({ i with status := .orphaned, revision := i.revision + 1 } : Interaction).id = i.id := rfl

theorem id_lost (i : Interaction) : ({ i with status := .orphaned } : Interaction).id = i.id := rfl

def file (a : Archive) : Entry → Archive
  | .nothing => a
  | .run head => { a with heads := a.heads ++ [head] }
  | .child head terms => { a with heads := a.heads ++ [head], terms := a.terms ++ [terms] }
  | .calls keys => { a with calls := a.calls ++ keys }
  | .asked i => { a with interactions := (a.interactions.insert i).getD a.interactions }
  | .answered id approved =>
    { a with
      interactions := a.interactions.update (fun i => i.id = id && i.status = .pending)
        (RunStore.answered · approved) (id_answered approved) }
  | .ended run => { a with endings := a.endings ++ [run] }
  | .closed run =>
    { a with
      endings := a.endings ++ [run]
      interactions := a.interactions.update (fun i => i.runId = run && i.status = .pending)
        (fun i => { i with status := .orphaned, revision := i.revision + 1 }) id_closed }
  | .recovered runs lost =>
    { a with
      endings := a.endings ++ runs
      interactions := a.interactions.update (fun i => i.status = .pending && lost i.runId)
        ({ · with status := .orphaned }) id_lost }

end Archive

namespace RunStore

variable {s s' : RunStore}

/-! ## Writes -/

theorem archive_updateRuns (s : RunStore) (p : Run → Bool) (f : Run → Run)
    (hf : ∀ r, (f r).id = r.id) (hhead : ∀ r, (f r).head = r.head) :
    { s with runs := s.runs.update p f hf }.archive = s.archive := by
  have e : (s.runs.update p f hf).rows.map Run.head = s.runs.rows.map Run.head :=
    Table.map_update_of_eq _ _ _ _ hhead
  simp only [archive, e]

theorem archive_updateDelegations (s : RunStore) (p : Delegation → Bool)
    (f : Delegation → Delegation) (hf : ∀ d, (f d).childRunId = d.childRunId)
    (hterms : ∀ d, (f d).terms = d.terms) :
    { s with delegations := s.delegations.update p f hf }.archive = s.archive := by
  have e : (s.delegations.update p f hf).rows.map Delegation.terms =
      s.delegations.rows.map Delegation.terms := Table.map_update_of_eq _ _ _ _ hterms
  simp only [archive, e]

@[simp] theorem archive_setRun (s : RunStore) (id : RunId) (status : RunStatus) :
    (s.setRun id status).archive = s.archive :=
  archive_updateRuns s _ _ _ fun _ => rfl

@[simp] theorem archive_moveRun (s : RunStore) (id : RunId) (source target : RunStatus) :
    (s.moveRun id source target).archive = s.archive :=
  archive_updateRuns s _ _ _ fun _ => rfl

@[simp] theorem archive_setTurn (s : RunStore) (id : RunId) (status : RunStatus) :
    (s.setTurn id status).archive = s.archive := rfl

@[simp] theorem archive_setQueued (s : RunStore) (id : RunId) (status : RunStatus) :
    (s.setQueued id status).archive = s.archive := rfl

@[simp] theorem archive_moveQueued (s : RunStore) (id : RunId) (source target : RunStatus) :
    (s.moveQueued id source target).archive = s.archive := rfl

@[simp] theorem archive_setVerdict (s : RunStore) (id : RunId) (status : RunStatus)
    (content : Option String) (error : Option (Int × String)) :
    (s.setVerdict id status content error).archive = s.archive := by
  simp only [setVerdict, archive_setQueued, archive_setTurn]
  exact archive_updateRuns s _ _ _ fun _ => rfl

@[simp] theorem archive_closeDelegation (s : RunStore) (id : RunId) (rec : RunRecord) (now : Int) :
    (s.closeDelegation id rec now).archive = s.archive :=
  archive_updateDelegations s _ _ _ fun _ => rfl

theorem insertEvent_endings {id : RunId} {event : String} {data : Json} {n : Nat}
    (h : s.insertEvent id event data = .ok (n, s')) :
    s'.archive = { s.archive with
      endings := s.archive.endings ++ if event = "terminal" then [id] else [] } := by
  obtain ⟨run, events, -, -, hev, rfl⟩ := insertEvent_spec h
  have e : (s.runs.update (·.id = id) ({ · with lastSeq := n })).rows.map Run.head =
      s.runs.rows.map Run.head := Table.map_update_of_eq _ _ _ _ fun _ => rfl
  simp only [archive, e, Table.rows_insert hev, List.filter_append, List.map_append]
  by_cases hterminal : event = "terminal" <;> simp [hterminal]

/-- Only the end of a run is filed. -/
theorem insertEvent_archive {id : RunId} {event : String} {data : Json} {n : Nat}
    (h : s.insertEvent id event data = .ok (n, s')) (he : event ≠ "terminal") :
    s'.archive = s.archive := by
  rw [insertEvent_endings h, if_neg he, List.append_nil]

theorem insertEvent_terminal {id : RunId} {data : Json} {n : Nat}
    (h : s.insertEvent id "terminal" data = .ok (n, s')) :
    s'.archive = s.archive.file (.ended id) := by
  rw [insertEvent_endings h, if_pos rfl]
  rfl

theorem insertContent_archive {id : RunId} {data : Option Json}
    (h : s.insertContent id data = .ok s') : s'.archive = s.archive := by
  unfold insertContent at h
  split at h
  · cases h
    rfl
  · obtain ⟨⟨n, s₁⟩, hev, rfl⟩ := map_eq_ok.mp h
    exact insertEvent_archive hev (by simp)

theorem markTerminalIn_archive {id : RunId} {rec : RunRecord} {now : Int}
    (h : s.markTerminalIn id rec now = .ok s') : s'.archive = s.archive := by
  have hclose := archive_closeDelegation s id rec now
  rcases markTerminalIn_cases h with ⟨-, rfl⟩ | ⟨d, -, rfl | ⟨parent, n, data, -, -, hev⟩⟩
  · rfl
  · exact hclose
  · exact (insertEvent_archive hev (by simp)).trans hclose

/-! ## What each operation files -/

theorem enqueueRun_archive {sid : SessionId} {rid : RequestId} {input : String}
    {route : Option RouteSnapshot} {now : Int} {id : RunId}
    (h : s.enqueueRun sid rid input route now = .ok (id, s')) :
    s.runs.find? id = none ∧ s'.delegations = s.delegations ∧
      s'.archive = s.archive.file (.run ⟨id, sid, rid, input⟩) := by
  have hspec := enqueueRun_spec h
  refine ⟨hspec.2.1, hspec.2.2.1, ?_⟩
  simp only [enqueueRun, bind_eq_ok, constraint_eq_ok, pure_eq_ok] at h
  obtain ⟨runs, hruns, turns, -, routes, -, ⟨n, s₁⟩, hev, queued, -, h⟩ := h
  have he := insertEvent_archive hev (by simp)
  cases h
  refine Eq.trans he ?_
  simp only [archive, Archive.file, Table.rows_insert hruns, List.map_append]
  rfl

theorem admitWithRoute_archive {sid : SessionId} {rid : RequestId} {input : String}
    {mode : AdmissionMode} {route : Option RouteSnapshot} {now : Int} {a : Admission}
    (h : s.admitWithRoute sid rid input mode route now = .ok (a, s')) :
    s' = s ∨ ∃ id, s.runs.find? id = none ∧
      (∀ r ∈ s.runs.rows, ¬ (r.sessionId = sid ∧ r.requestId = rid)) ∧
      s'.archive = s.archive.file (.run ⟨id, sid, rid, input⟩) := by
  rcases admitWithRoute_cases h with ⟨stored, -, -, -, -, -, rfl⟩ | ⟨hnew, rec, -, -, henq⟩
  · exact .inl rfl
  · obtain ⟨hfresh, -, he⟩ := enqueueRun_archive henq
    exact .inr ⟨rec.runId, hfresh, hnew, he⟩

theorem tryStartQueued_archive {id : RunId} {clock : Clock} {b : Bool}
    (h : s.tryStartQueued id clock = .ok (b, s')) : s'.archive = s.archive := by
  rcases tryStartQueued_cases h with ⟨-, rfl, -⟩ | ⟨n, data, s₁, -, -, -, -, hev, rfl⟩
  · rfl
  · refine Eq.trans (archive_updateDelegations ((s₁.setTurn id .running).setQueued id .running)
      _ _ _ fun _ => rfl) ?_
    simpa using insertEvent_archive hev (by simp)

theorem removeQueued_archive {id : RunId} {now : Int} {b : Bool}
    (h : s.removeQueued id now = .ok (b, s')) :
    s'.archive = s.archive.file (if b then .ended id else .nothing) := by
  rcases removeQueued_cases h with ⟨rfl, -, n, s₁, rec, hev, -, hterm⟩ | ⟨rfl, -, rfl⟩
  · rw [markTerminalIn_archive hterm, insertEvent_terminal hev, if_pos rfl]
    simp
  · simp [Archive.file]

theorem prepareToolBatch_archive {id : RunId} {round : Nat} {calls : List PreparedCall} {u : Unit}
    (h : s.prepareToolBatch id round calls = .ok (u, s')) :
    (∃ run, s.runs.find? id = some run) ∧
      (∀ d, s.delegations.find? id = some d →
        (s.toolExecutions.count (fun t => t.runId = id) : Int) + (calls.length : Int) ≤
          d.maxToolCalls) ∧
      s'.archive = s.archive.file (.calls (calls.map fun c => (id, round, c.call.id))) := by
  obtain ⟨run, tools, n, data, hrun, -, hbudget, hrows, hev⟩ := prepareToolBatch_cases h
  refine ⟨⟨run, hrun⟩, hbudget, (insertEvent_archive hev (by simp)).trans ?_⟩
  simp only [archive, Archive.file, hrows, List.map_append, List.map_map]
  rfl

theorem moveTool_archive {id : RunId} {round : Nat} {callId : String} {source : ToolStatus}
    {f : ToolExecution → ToolExecution} {hf : ∀ t, (f t).key = t.key} {message : String} {u : Unit}
    (h : s.moveTool id round callId source f hf message = .ok (u, s')) :
    s'.archive = s.archive := by
  rw [moveTool_eq h]
  simp only [archive, Table.map_update_of_eq _ _ _ hf hf]

theorem finishToolBatch_archive {id : RunId} {round : Nat} {u : Unit}
    (h : s.finishToolBatch id round = .ok (u, s')) : s'.archive = s.archive := by
  obtain ⟨n, data, hev⟩ := finishToolBatch_cases h
  exact insertEvent_archive hev (by simp)

theorem appendEvent_archive {id : RunId} {event : String} {data : Json} {n : Nat}
    (h : s.appendEvent id event data = .ok (n, s')) :
    (approvalRequested event data = none ∧
      s'.archive = s.archive.file (if event = "terminal" then .ended id else .nothing)) ∨
    ∃ i prompt payload, approvalRequested event data = some i ∧ event = "approval_required" ∧
      s.interactions.find? i = none ∧
      s'.archive = s.archive.file (.asked ⟨i, id, "approval", .pending, 0, prompt, none, payload⟩) := by
  obtain ⟨s₁, hev, ⟨hnone, rfl⟩ | ⟨i, prompt, payload, interactions, hevent, hasked, hins, rfl⟩⟩ :=
    appendEvent_cases h
  · refine .inl ⟨hnone, ?_⟩
    rw [insertEvent_endings hev]
    split
    · rfl
    · simp [Archive.file]
  · have he := insertEvent_archive hev (by simp [hevent])
    have hint : s₁.interactions = s.interactions := congrArg (·.interactions) he
    rw [hint] at hins
    refine .inr ⟨i, prompt, payload, hasked, hevent, Table.insert_fresh hins, ?_⟩
    rw [archive_setRun]
    simp only [Archive.file, archive, Archive.mk.injEq] at he ⊢
    obtain ⟨h1, h2, h3, -, h5⟩ := he
    exact ⟨h1, h2, h3, by rw [hins]; rfl, h5⟩

/-- A claim that answers a pending question, with what it has checked. -/
structure Claims (s : RunStore) (i : InteractionId) (sid : SessionId) (id : RunId)
    (revision : Int) (x : Interaction) : Prop where
  found : s.interactions.find? i = some x
  owner : x.runId = id
  pending : x.status = .pending
  revision : x.revision = revision
  session : ∃ run, s.runs.find? id = some run ∧ run.sessionId = sid ∧
    run.status = .waitingInteraction

theorem claimInteraction_archive {i : InteractionId} {sid : SessionId} {id : RunId}
    {revision : Int} {approved : Bool} {rec : InteractionRecord}
    (h : s.claimInteraction i sid id revision approved = .ok (rec, s')) :
    s' = s ∨ (∃ x, s.Claims i sid id revision x) ∧
      s'.archive = s.archive.file (.answered i approved) := by
  rcases claimInteraction_cases h with ⟨rfl, -⟩ |
    ⟨x, run, n, hx, howner, hpending, hrevision, hrun, hsid, hwaiting, hev, -⟩
  · exact .inl rfl
  · refine .inr ⟨⟨x, hx, howner, hpending, hrevision, run, hrun, hsid, hwaiting⟩, ?_⟩
    rw [insertEvent_archive hev (by simp), answering]
    split
    · rw [archive_moveRun]
      rfl
    · rfl

theorem finish_archive {id : RunId} {status : RunStatus} {content : Option String}
    {error : Option (Int × String)} {now : Int} {rec : RunRecord}
    (h : s.finish id status content error now = .ok (rec, s')) :
    (s' = s ∧ s.readRun id = some rec ∧ rec.status.terminal = true) ∨
      (∃ current, s.readRun id = some current ∧ current.status.terminal = false) ∧
      s'.archive = s.archive.file (.closed id) := by
  obtain ⟨-, ⟨rfl, hread, hterminal, -⟩ | ⟨current, s₁, n, s₂, data, hread, hct, hcontent, hev, -,
    hmark⟩⟩ := finish_cases h
  · exact .inl ⟨rfl, hread, hterminal⟩
  · refine .inr ⟨⟨current, hread, hct⟩, ?_⟩
    have he := insertEvent_terminal hev
    rw [insertContent_archive hcontent] at he
    have hverdict := archive_setVerdict s₂ id (s.downgrade id status)
      (s.verdictContent id status content) (s.verdictError id status error)
    rw [markTerminalIn_archive hmark]
    rw [he] at hverdict
    simp only [archive, orphanPending, Archive.file, Archive.mk.injEq] at hverdict ⊢
    obtain ⟨h1, h2, h3, h4, h5⟩ := hverdict
    exact ⟨h1, h2, h3, by rw [h4], h5⟩

theorem reconcileUnknown_archive {id : RunId} {sid : SessionId} {seq : Nat} {status : RunStatus}
    {content : Option String} {evidence digest : String} {now : Int} {rec : RunRecord}
    (h : s.reconcileUnknown id sid seq status content evidence digest now = .ok (rec, s')) :
    s'.archive = s.archive := by
  obtain ⟨-, -, current, s₁, n, s₂, kept, payload, data, -, -, hcontent, hev, -, hmark⟩ :=
    reconcileUnknown_cases h
  rw [markTerminalIn_archive hmark, archive_setVerdict, insertEvent_archive hev (by simp),
    insertContent_archive hcontent]

theorem recoverRun_archive {id : RunId} {now : Int} (h : s.recoverRun id now = .ok s') :
    s'.archive = s.archive.file (.ended id) := by
  obtain ⟨n, s₁, rec, hev, -, hterm⟩ := recoverRun_cases h
  have he := insertEvent_terminal hev
  rw [markTerminalIn_archive hterm]
  simpa using he

theorem recoverRuns_archive {clock : Clock} (l : List (RunId × Nat))
    (h : l.foldlM (fun s (p : RunId × Nat) => s.recoverRun p.1 (clock p.2)) s = .ok s') :
    s'.archive = { s.archive with endings := s.archive.endings ++ l.map Prod.fst } := by
  induction l generalizing s with
  | nil =>
    rw [List.foldlM_nil, pure_eq_ok] at h
    simp [h]
  | cons p l ih =>
    rw [List.foldlM_cons, bind_eq_ok] at h
    obtain ⟨s₁, hs₁, h⟩ := h
    rw [ih h, recoverRun_archive hs₁]
    simp [Archive.file]

/-- The runs that `recover` looks for. -/
def activeRuns (s : RunStore) : List RunId := (s.runs.rows.filter fun r => r.status.active).map Run.id

theorem recover_archive {clock : Clock} {n : Nat} (h : s.recover clock = .ok (n, s')) :
    s'.archive = s.archive.file (.recovered s.activeRuns fun id =>
      (s'.runs.find? id).any fun r => r.status = .unknownAfterRestart) := by
  unfold recover at h
  obtain ⟨s₁, hfold, h⟩ := bind_eq_ok.mp h
  have he := recoverRuns_archive _ hfold
  have hfst : (s.activeRuns.zipIdx.map Prod.fst) = s.activeRuns := by simp
  rw [activeRuns] at hfst
  rw [hfst] at he
  cases h
  simp only [archive, Archive.file, Archive.mk.injEq] at he ⊢
  obtain ⟨h1, h2, h3, h4, h5⟩ := he
  exact ⟨h1, h2, h3, by rw [h4], h5⟩

theorem startProviderAttempt_archive {attempt : ProviderAttempt} {u : Unit}
    (h : s.startProviderAttempt attempt = .ok (u, s')) : s'.archive = s.archive := by
  obtain ⟨attempts, n, data, hev⟩ := startProviderAttempt_cases h
  exact (insertEvent_archive hev (by simp)).trans rfl

theorem finishProviderAttempt_archive {attempt : ProviderAttempt} {u : Unit}
    (h : s.finishProviderAttempt attempt = .ok (u, s')) : s'.archive = s.archive := by
  rcases finishProviderAttempt_cases h with rfl | ⟨attempts, n, data, hev⟩
  · rfl
  · exact (insertEvent_archive hev (by simp)).trans rfl

/-- The request id of a child. -/
def childRequestId (child : SessionId) : RequestId := .string ("delegation:" ++ child.val)

theorem enqueueChild_archive {request : DelegationRequest} {position : TreePosition} {now : Int}
    {rec : DelegationRecord} (h : s.enqueueChild request position now = .ok (rec, s')) :
    s.runs.find? rec.childRunId = none ∧
      s'.archive = s.archive.file (.child
        ⟨rec.childRunId, request.childSessionId, childRequestId request.childSessionId, request.task⟩
        (request.terms position rec.childRunId)) := by
  simp only [enqueueChild, bind_eq_ok, constraint_eq_ok] at h
  obtain ⟨sessions, -, ⟨id, s₁⟩, henq, delegations, hins, ⟨n, s₂⟩, hev, h⟩ := h
  obtain ⟨hfresh, hdel, he⟩ := enqueueRun_archive henq
  have he' := insertEvent_archive hev (by simp)
  dsimp only at h hdel
  split at h
  · cases h
  · rename_i rec' hrec
    cases h
    obtain ⟨d, hd, hto⟩ := readDelegation_eq_some hrec
    have hid : rec.childRunId = id := by
      rw [hto]
      exact Table.key_of_find? hd
    rw [hid, he']
    refine ⟨hfresh, ?_⟩
    simp only [archive, Archive.file, Archive.mk.injEq, Table.rows_insert hins, List.map_append,
      hdel] at he ⊢
    obtain ⟨h1, h2, h3, h4, h5⟩ := he
    exact ⟨h1, rfl, h3, h4, h5⟩

theorem writeDelegation_archive {id : RunId} {f : Delegation → Delegation}
    {hf : ∀ d, (f d).childRunId = d.childRunId} {rec : DelegationRecord}
    (hterms : ∀ d, (f d).terms = d.terms) (h : s.writeDelegation id f hf = .ok (rec, s')) :
    s'.archive = s.archive := by
  rw [(writeDelegation_cases h).2]
  exact archive_updateDelegations s _ f hf hterms

theorem reserveDelegationResult_archive {id : RunId} {owner : String} {revision : Int}
    {clock : Clock} {rec : DelegationRecord}
    (h : s.reserveDelegationResult id owner revision clock = .ok (rec, s')) :
    s'.archive = s.archive := by
  rcases reserveDelegationResult_cases h with ⟨rfl, -⟩ | ⟨d, -, -, -, expired, hf, hwrite⟩
  · rfl
  · refine writeDelegation_archive (fun d => ?_) hwrite
    split <;> rfl

theorem transitionResult_archive {id : RunId} {owner : String} {revision : Int}
    {target : ResultState} {clock : Clock} {rec : DelegationRecord}
    (h : s.transitionResult id owner revision target clock = .ok (rec, s')) :
    s'.archive = s.archive := by
  rcases transitionResult_cases h with ⟨rfl, -⟩ | ⟨d, -, -, hwrite⟩
  · rfl
  · refine writeDelegation_archive ?_ hwrite
    intro _
    rfl

end RunStore

/-- The entry `e` that a successful call with this reply may have filed. -/
def Op.Files (s s' : RunStore) (reply : Reply) (e : Entry) : Op → Prop
  | .admitWithRoute sid rid input _ _ _ => s' = s ∧ e = .nothing ∨
    ∃ id, s.runs.find? id = none ∧
      (∀ r ∈ s.runs.rows, ¬ (r.sessionId = sid ∧ r.requestId = rid)) ∧
      e = .run ⟨id, sid, rid, input⟩
  | .removeQueued id _ => ∃ b, reply = .flag b ∧ e = if b then .ended id else .nothing
  | .prepareToolBatch id round calls => (∃ run, s.runs.find? id = some run) ∧
    (∀ d, s.delegations.find? id = some d →
      (s.toolExecutions.count (fun t => t.runId = id) : Int) + (calls.length : Int) ≤
        d.maxToolCalls) ∧
    e = .calls (calls.map fun c => (id, round, c.call.id))
  | .appendEvent id event data => (RunStore.approvalRequested event data = none ∧
      e = if event = "terminal" then .ended id else .nothing) ∨
    ∃ i prompt payload, RunStore.approvalRequested event data = some i ∧
      event = "approval_required" ∧ s.interactions.find? i = none ∧
      e = .asked ⟨i, id, "approval", .pending, 0, prompt, none, payload⟩
  | .claimInteraction i sid id revision approved => s' = s ∧ e = .nothing ∨
    (∃ x, s.Claims i sid id revision x) ∧ e = .answered i approved
  | .finish id _ _ _ _ => s' = s ∧ e = .nothing ∨
    (∃ current, s.readRun id = some current ∧ current.status.terminal = false) ∧ e = .closed id
  | .recover _ => e = .recovered s.activeRuns fun id =>
    (s'.runs.find? id).any fun r => r.status = .unknownAfterRestart
  | .admitDelegation request clock => s' = s ∧ e = .nothing ∨
    ∃ parent rec, reply = .delegation rec ∧ s.Spawns request clock parent ∧
      s.runs.find? rec.childRunId = none ∧
      e = .child ⟨rec.childRunId, request.childSessionId,
        RunStore.childRequestId request.childSessionId, request.task⟩
        (request.terms (s.childPosition parent) rec.childRunId)
  | _ => e = .nothing

/-- **Filing.** A successful operation makes at most one entry. -/
theorem exec_archive {s s' : RunStore} {op : Op} {reply : Reply}
    (h : s.exec op = .ok (reply, s')) :
    ∃ e, op.Files s s' reply e ∧ s'.archive = s.archive.file e := by
  cases op with
  | admitWithRoute sid rid input mode route now =>
    obtain ⟨r, -, hx⟩ := RunStore.of_exec h
    rcases RunStore.admitWithRoute_archive hx with rfl | ⟨id, hfresh, hnew, he⟩
    · exact ⟨.nothing, .inl ⟨rfl, rfl⟩, rfl⟩
    · exact ⟨_, .inr ⟨id, hfresh, hnew, rfl⟩, he⟩
  | tryStartQueued id clock =>
    obtain ⟨r, -, hx⟩ := RunStore.of_exec h
    exact ⟨.nothing, rfl, RunStore.tryStartQueued_archive hx⟩
  | removeQueued id now =>
    obtain ⟨b, rfl, hx⟩ := RunStore.of_exec h
    exact ⟨_, ⟨b, rfl, rfl⟩, RunStore.removeQueued_archive hx⟩
  | prepareToolBatch id round calls =>
    obtain ⟨r, -, hx⟩ := RunStore.of_exec h
    obtain ⟨hrun, hbudget, he⟩ := RunStore.prepareToolBatch_archive hx
    exact ⟨_, ⟨hrun, hbudget, rfl⟩, he⟩
  | startTool id round callId now =>
    obtain ⟨r, -, hx⟩ := RunStore.of_exec h
    exact ⟨.nothing, rfl, RunStore.moveTool_archive hx⟩
  | finishTool id round callId outcome artifactRef receipt now =>
    obtain ⟨r, -, hx⟩ := RunStore.of_exec h
    exact ⟨.nothing, rfl, RunStore.moveTool_archive hx⟩
  | finishToolBatch id round =>
    obtain ⟨r, -, hx⟩ := RunStore.of_exec h
    exact ⟨.nothing, rfl, RunStore.finishToolBatch_archive hx⟩
  | appendEvent id event data =>
    obtain ⟨r, -, hx⟩ := RunStore.of_exec h
    rcases RunStore.appendEvent_archive hx with ⟨hno, he⟩ |
      ⟨i, prompt, payload, hi, hevent, hfresh, he⟩
    · exact ⟨_, .inl ⟨hno, rfl⟩, he⟩
    · exact ⟨_, .inr ⟨i, prompt, payload, hi, hevent, hfresh, rfl⟩, he⟩
  | claimInteraction i sid id revision approved =>
    obtain ⟨r, -, hx⟩ := RunStore.of_exec h
    rcases RunStore.claimInteraction_archive hx with rfl | ⟨hclaims, he⟩
    · exact ⟨.nothing, .inl ⟨rfl, rfl⟩, rfl⟩
    · exact ⟨_, .inr ⟨hclaims, rfl⟩, he⟩
  | finish id status content error now =>
    obtain ⟨r, -, hx⟩ := RunStore.of_exec h
    rcases RunStore.finish_archive hx with ⟨rfl, -⟩ | ⟨hcur, he⟩
    · exact ⟨.nothing, .inl ⟨rfl, rfl⟩, rfl⟩
    · exact ⟨_, .inr ⟨hcur, rfl⟩, he⟩
  | reconcileUnknown id sid seq status content evidence digest now =>
    obtain ⟨r, -, hx⟩ := RunStore.of_exec h
    exact ⟨.nothing, rfl, RunStore.reconcileUnknown_archive hx⟩
  | recover clock =>
    obtain ⟨r, -, hx⟩ := RunStore.of_exec h
    exact ⟨_, rfl, RunStore.recover_archive hx⟩
  | startProviderAttempt attempt =>
    obtain ⟨r, -, hx⟩ := RunStore.of_exec h
    exact ⟨.nothing, rfl, RunStore.startProviderAttempt_archive hx⟩
  | finishProviderAttempt attempt =>
    obtain ⟨r, -, hx⟩ := RunStore.of_exec h
    exact ⟨.nothing, rfl, RunStore.finishProviderAttempt_archive hx⟩
  | admitDelegation request clock =>
    obtain ⟨rec, rfl, hx⟩ := RunStore.of_exec h
    rcases RunStore.admitDelegation_cases hx with ⟨rfl, -⟩ | ⟨parent, hspawns, hx⟩
    · exact ⟨.nothing, .inl ⟨rfl, rfl⟩, rfl⟩
    · obtain ⟨hfresh, he⟩ := RunStore.enqueueChild_archive hx
      exact ⟨_, .inr ⟨parent, rec, rfl, hspawns, hfresh, rfl⟩, he⟩
  | reserveDelegationResult child owner revision clock =>
    obtain ⟨r, -, hx⟩ := RunStore.of_exec h
    exact ⟨.nothing, rfl, RunStore.reserveDelegationResult_archive hx⟩
  | releaseDelegationResult child owner revision clock =>
    obtain ⟨r, -, hx⟩ := RunStore.of_exec h
    exact ⟨.nothing, rfl, RunStore.transitionResult_archive hx⟩
  | deliverDelegationResult child owner revision clock =>
    obtain ⟨r, -, hx⟩ := RunStore.of_exec h
    exact ⟨.nothing, rfl, RunStore.transitionResult_archive hx⟩

/-! ## Which operation makes an entry -/

section Files

variable {s s' : RunStore} {reply : Reply} {op : Op} {e : Entry}

theorem files_removeQueued {id : RunId} {now : Int} (h : (Op.removeQueued id now).Files s s' reply e) :
    e = .nothing ∨ e = .ended id := by
  obtain ⟨b, -, h⟩ := h
  split at h
  · exact .inr h
  · exact .inl h

theorem files_appendEvent {id : RunId} {event : String} {data : Json}
    (h : (Op.appendEvent id event data).Files s s' reply e) :
    e = .nothing ∨ e = .ended id ∨ ∃ x, e = .asked x := by
  rcases h with ⟨-, h⟩ | ⟨i, prompt, payload, -, -, -, h⟩
  · split at h
    · exact .inr (.inl h)
    · exact .inl h
  · exact .inr (.inr ⟨_, h⟩)

theorem files_child {head : Head} {terms : Terms} (h : op.Files s s' reply (.child head terms)) :
    ∃ request clock parent rec, op = .admitDelegation request clock ∧ reply = .delegation rec ∧
      s.Spawns request clock parent ∧ s.runs.find? rec.childRunId = none ∧
      head = ⟨rec.childRunId, request.childSessionId,
        RunStore.childRequestId request.childSessionId, request.task⟩ ∧
      terms = request.terms (s.childPosition parent) rec.childRunId := by
  cases op with
  | admitDelegation request clock =>
    rcases h with ⟨-, h⟩ | ⟨parent, rec, hreply, hspawns, hfresh, h⟩
    · cases h
    · cases h
      exact ⟨request, clock, parent, rec, rfl, hreply, hspawns, hfresh, rfl, rfl⟩
  | removeQueued id now => rcases files_removeQueued h with e | e <;> cases e
  | appendEvent id event data => rcases files_appendEvent h with e | e | ⟨x, e⟩ <;> cases e
  | _ => simp [Op.Files] at h

theorem files_run {head : Head} (h : op.Files s s' reply (.run head)) :
    ∃ sid rid input mode route now, op = .admitWithRoute sid rid input mode route now ∧
      head.requestId = rid ∧ head.sessionId = sid ∧ s.runs.find? head.id = none := by
  cases op with
  | admitWithRoute sid rid input mode route now =>
    rcases h with ⟨-, h⟩ | ⟨id, hfresh, -, h⟩
    · cases h
    · cases h
      exact ⟨sid, rid, input, mode, route, now, rfl, rfl, rfl, hfresh⟩
  | removeQueued id now => rcases files_removeQueued h with e | e <;> cases e
  | appendEvent id event data => rcases files_appendEvent h with e | e | ⟨x, e⟩ <;> cases e
  | _ => simp [Op.Files] at h

theorem files_calls {keys : List (RunId × Nat × String)} (h : op.Files s s' reply (.calls keys)) :
    ∃ id round calls, op = .prepareToolBatch id round calls ∧
      (∃ run, s.runs.find? id = some run) ∧
      (∀ d, s.delegations.find? id = some d →
        (s.toolExecutions.count (fun t => t.runId = id) : Int) + (calls.length : Int) ≤
          d.maxToolCalls) ∧
      keys = calls.map fun c => (id, round, c.call.id) := by
  cases op with
  | prepareToolBatch id round calls =>
    obtain ⟨hrun, hbudget, h⟩ := h
    cases h
    exact ⟨id, round, calls, rfl, hrun, hbudget, rfl⟩
  | removeQueued id now => rcases files_removeQueued h with e | e <;> cases e
  | appendEvent id event data => rcases files_appendEvent h with e | e | ⟨x, e⟩ <;> cases e
  | _ => simp [Op.Files] at h

/-- Only a spawn adds to the terms of the children. -/
theorem terms_file (a : Archive) (e : Entry) :
    (a.file e).terms = a.terms ∨ ∃ head terms, e = .child head terms := by
  cases e <;> simp [Archive.file]

/-- A run keeps its head. -/
theorem heads_file (a : Archive) (e : Entry) : a.heads <+: (a.file e).heads := by
  cases e <;> simp [Archive.file]

end Files

theorem next_archive (s : RunStore) (op : Op) : ∃ e, (s.next op).archive = s.archive.file e := by
  unfold RunStore.next
  split
  · rename_i h
    obtain ⟨e, -, he⟩ := exec_archive h
    exact ⟨e, he⟩
  · exact ⟨.nothing, rfl⟩

theorem heads_next (s : RunStore) (op : Op) : s.archive.heads <+: (s.next op).archive.heads := by
  obtain ⟨e, he⟩ := next_archive s op
  rw [he]
  exact heads_file _ e

theorem mem_heads {s : RunStore} {id : RunId} :
    id ∈ s.archive.heads.map Head.id ↔ ∃ r, s.runs.find? id = some r := by
  rw [RunStore.archive, List.map_map]
  constructor
  · intro h
    obtain ⟨r, hr, rfl⟩ := List.mem_map.mp h
    exact ⟨r, Table.find?_of_mem hr⟩
  · rintro ⟨r, hr⟩
    exact List.mem_map.mpr ⟨r, Table.mem_of_find? hr, Table.key_of_find? hr⟩

/-- Runs stay, with the columns that are set once. -/
theorem after_heads (s : RunStore) (ops : List Op) :
    s.archive.heads <+: (after RunStore.next s ops).archive.heads := by
  refine after_induct (G := fun _ _ => True)
    (I := fun s' : RunStore => s.archive.heads <+: s'.archive.heads) ?_ (List.prefix_refl _)
    (along_true _ _)
  intro s' op hs' _
  obtain ⟨e, he⟩ := next_archive s' op
  rw [he]
  exact hs'.trans (heads_file _ e)

theorem head_after {s : RunStore} {r : Run} (hr : r ∈ s.runs.rows) (ops : List Op) :
    ∃ r' ∈ (after RunStore.next s ops).runs.rows, r'.head = r.head :=
  List.mem_map.mp ((after_heads s ops).subset (List.mem_map_of_mem hr))

end AgentDaemon.Storage
