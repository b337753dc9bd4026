import AgentDaemon.Storage.Specs

/-!
The store refines the control machine: every successful operation performs a list of enabled
changes (`simulation`), so an invariant that every enabled change preserves holds after every
sequence of operations (`control_induct`).
-/

namespace AgentDaemon.Storage

open Provider Transition Fallible

/-- The changes `chs` that a successful call with this reply may have performed in `s`. -/
def Op.Performs (s s' : RunStore) (reply : Reply) (chs : List Change) : Op → Prop
  | .admitWithRoute sid rid _ _ _ _ =>
    (∃ r ∈ s.runs.rows, r.sessionId = sid ∧ r.requestId = rid ∧
      reply = .admission (.existing r.record) ∧ s' = s ∧ chs = []) ∨
    ∃ rec, reply = .admission (.new rec) ∧ s'.readRun rec.runId = some rec ∧
      chs = [.admitted rec.runId sid false]
  | .tryStartQueued id _ =>
    (reply = .flag true ∧ chs = [.started id]) ∨
    (reply = .flag false ∧ ¬ (Change.started id).Enabled s.control ∧ chs = [])
  | .removeQueued id _ =>
    (reply = .flag true ∧ chs = [.removed id]) ∨
    (reply = .flag false ∧ ¬ (Change.removed id).Enabled s.control ∧ chs = [])
  | .prepareToolBatch id _ _ => ∃ tools, chs = [.prepared id tools]
  | .startTool id round callId _ => chs = [.toolMoved (id, round, callId) .prepared .running]
  | .finishTool id round callId _ _ _ _ =>
    chs = [.toolMoved (id, round, callId) .running .terminal]
  | .appendEvent id event data =>
    (RunStore.approvalRequested event data = none ∧ chs = []) ∨
    ∃ i, RunStore.approvalRequested event data = some i ∧ s.interactions.find? i = none ∧
      chs = [.awaiting id]
  | .claimInteraction _ _ id _ _ => chs = [] ∨ chs = [.resumed id]
  | .finish id status _ _ _ => ∃ rec, reply = .run rec ∧
    ((s' = s ∧ s.readRun id = some rec ∧ rec.status = status ∧ rec.status.terminal = true ∧
      chs = []) ∨
    ((rec.status = status ∨ rec.status = .unknownAfterRestart) ∧
      chs = [.finished id rec.verdict]))
  | .reconcileUnknown id _ _ status _ _ _ _ => ∃ rec, reply = .run rec ∧ rec.status = status ∧
    chs = [.reconciled id rec.verdict]
  | .recover _ => ∃ ids : List RunId, chs = ids.map .lost ∧
    ∀ w ∈ s.control.runs, w.verdict.status.active = true → w.id ∈ ids
  | .admitDelegation request _ => chs = [] ∨
    ∃ id, chs = [.admitted id request.childSessionId true]
  | .reserveDelegationResult child owner _ _ => chs = [] ∨ ∃ lease : Lease,
    lease.state = .reserved ∧ lease.owner = some owner ∧ chs = [.leased child lease]
  | .releaseDelegationResult child owner revision _ =>
    (∃ d, s.delegations.find? child = some d ∧ d.lease = ⟨.reserved, some owner, revision⟩) ∧
    chs = [.leased child ⟨.unconsumed, none, revision + 1⟩]
  | .deliverDelegationResult child owner revision _ => ∃ d, s.delegations.find? child = some d ∧
    ((d.lease.state = .delivered ∧ d.lease.owner = some owner ∧ chs = []) ∨
    (d.lease = ⟨.reserved, some owner, revision⟩ ∧
      chs = [.leased child ⟨.delivered, some owner, revision + 1⟩]))
  | .finishToolBatch _ _ | .startProviderAttempt _ | .finishProviderAttempt _ => chs = []

private theorem performs_none {c c' : Control} (hc : c' = c) :
    Along Change.apply Change.Enabled c [] ∧ c' = after Change.apply c [] := ⟨trivial, hc⟩

private theorem performs_one {c c' : Control} {ch : Change} (hen : ch.Enabled c)
    (hc : c' = ch.apply c) :
    Along Change.apply Change.Enabled c [ch] ∧ c' = after Change.apply c [ch] :=
  ⟨⟨hen, trivial⟩, hc⟩

/-- **Simulation.** A successful operation performs enabled changes of the control state. -/
theorem simulation {s s' : RunStore} {op : Op} {reply : Reply}
    (h : s.exec op = .ok (reply, s')) :
    ∃ chs, op.Performs s s' reply chs ∧ Along Change.apply Change.Enabled s.control chs ∧
      s'.control = after Change.apply s.control chs := by
  cases op with
  | admitWithRoute sid rid input mode route now =>
    obtain ⟨r, rfl, hx⟩ := RunStore.of_exec h
    rcases RunStore.admitWithRoute_spec hx with ⟨r, hr, hsid, hrid, rfl, rfl⟩ |
      ⟨rec, rfl, hrec, hfresh, hc⟩
    · exact ⟨[], .inl ⟨r, hr, hsid, hrid, rfl, rfl, rfl⟩, performs_none rfl⟩
    · refine ⟨_, .inr ⟨rec, rfl, hrec, rfl⟩, performs_one ⟨?_, by simp⟩ hc⟩
      rw [RunStore.control_run?, hfresh, Option.map_none]
  | tryStartQueued id clock =>
    obtain ⟨r, rfl, hx⟩ := RunStore.of_exec h
    rcases RunStore.tryStartQueued_spec hx with ⟨rfl, hen, hc⟩ | ⟨rfl, hen, hc⟩
    · exact ⟨_, .inl ⟨rfl, rfl⟩, performs_one hen hc⟩
    · exact ⟨_, .inr ⟨rfl, hen, rfl⟩, performs_none hc⟩
  | removeQueued id now =>
    obtain ⟨r, rfl, hx⟩ := RunStore.of_exec h
    rcases RunStore.removeQueued_spec hx with ⟨rfl, hen, hc⟩ | ⟨rfl, hen, hc⟩
    · exact ⟨_, .inl ⟨rfl, rfl⟩, performs_one hen hc⟩
    · exact ⟨_, .inr ⟨rfl, hen, rfl⟩, performs_none hc⟩
  | prepareToolBatch id round calls =>
    obtain ⟨r, rfl, hx⟩ := RunStore.of_exec h
    obtain ⟨tools, hen, hc⟩ := RunStore.prepareToolBatch_spec hx
    exact ⟨_, ⟨tools, rfl⟩, performs_one hen hc⟩
  | startTool id round callId now =>
    obtain ⟨r, rfl, hx⟩ := RunStore.of_exec h
    exact ⟨_, rfl, performs_one (.inl ⟨rfl, rfl⟩) (RunStore.startTool_spec hx)⟩
  | finishTool id round callId outcome artifactRef receipt now =>
    obtain ⟨r, rfl, hx⟩ := RunStore.of_exec h
    exact ⟨_, rfl, performs_one (.inr ⟨rfl, rfl⟩) (RunStore.finishTool_spec hx)⟩
  | finishToolBatch id round =>
    obtain ⟨r, rfl, hx⟩ := RunStore.of_exec h
    exact ⟨[], rfl, performs_none (RunStore.finishToolBatch_spec hx)⟩
  | appendEvent id event data =>
    obtain ⟨r, rfl, hx⟩ := RunStore.of_exec h
    rcases RunStore.appendEvent_spec hx with ⟨hno, hc⟩ | ⟨i, hi, hfresh, hen, hc⟩
    · exact ⟨_, .inl ⟨hno, rfl⟩, performs_none hc⟩
    · exact ⟨_, .inr ⟨i, hi, hfresh, rfl⟩, performs_one hen hc⟩
  | claimInteraction i sid id revision approved =>
    obtain ⟨r, rfl, hx⟩ := RunStore.of_exec h
    rcases RunStore.claimInteraction_spec hx with hc | ⟨hen, hc⟩
    · exact ⟨_, .inl rfl, performs_none hc⟩
    · exact ⟨_, .inr rfl, performs_one hen hc⟩
  | finish id status content error now =>
    obtain ⟨r, rfl, hx⟩ := RunStore.of_exec h
    rcases RunStore.finish_spec hx with ⟨rfl, hrec, hst, hterm⟩ | ⟨hst, hen, hc⟩
    · exact ⟨_, ⟨r, rfl, .inl ⟨rfl, hrec, hst, hterm, rfl⟩⟩, performs_none rfl⟩
    · have hst' := hst ▸ s.downgrade_eq id status
      exact ⟨_, ⟨r, rfl, .inr ⟨hst', rfl⟩⟩, performs_one hen hc⟩
  | reconcileUnknown id sid seq status content evidence digest now =>
    obtain ⟨r, rfl, hx⟩ := RunStore.of_exec h
    obtain ⟨hst, hen, hc⟩ := RunStore.reconcileUnknown_spec hx
    exact ⟨_, ⟨r, rfl, hst, rfl⟩, performs_one hen hc⟩
  | recover clock =>
    obtain ⟨r, rfl, hx⟩ := RunStore.of_exec h
    obtain ⟨ids, hall, ha, hc⟩ := RunStore.recover_spec hx
    exact ⟨_, ⟨ids, rfl, hall⟩, ha, hc⟩
  | startProviderAttempt attempt =>
    obtain ⟨r, rfl, hx⟩ := RunStore.of_exec h
    exact ⟨[], rfl, performs_none (RunStore.startProviderAttempt_spec hx)⟩
  | finishProviderAttempt attempt =>
    obtain ⟨r, rfl, hx⟩ := RunStore.of_exec h
    exact ⟨[], rfl, performs_none (RunStore.finishProviderAttempt_spec hx)⟩
  | admitDelegation request clock =>
    obtain ⟨r, rfl, hx⟩ := RunStore.of_exec h
    rcases RunStore.admitDelegation_spec hx with ⟨rfl, -⟩ | ⟨parent, -, -, hx⟩
    · exact ⟨_, .inl rfl, performs_none rfl⟩
    · obtain ⟨id, route, -, -, hen, hc⟩ := RunStore.enqueueChild_spec hx
      exact ⟨_, .inr ⟨id, rfl⟩, performs_one hen hc⟩
  | reserveDelegationResult child owner revision clock =>
    obtain ⟨r, rfl, hx⟩ := RunStore.of_exec h
    rcases RunStore.reserveDelegationResult_spec hx with ⟨rfl, -⟩ | ⟨hstate, howner, hen, hc⟩
    · exact ⟨_, .inl rfl, performs_none rfl⟩
    · exact ⟨_, .inr ⟨_, hstate, howner, rfl⟩, performs_one hen hc⟩
  | releaseDelegationResult child owner revision clock =>
    obtain ⟨r, rfl, hx⟩ := RunStore.of_exec h
    rcases RunStore.transitionResult_spec (.inl rfl) hx with ⟨-, ht, -⟩ |
      ⟨d, hd, hdl, hlease, hen, hc⟩
    · cases ht
    · rw [hlease] at hen hc
      exact ⟨_, ⟨⟨d, hd, hdl⟩, rfl⟩, performs_one hen hc⟩
  | deliverDelegationResult child owner revision clock =>
    obtain ⟨r, rfl, hx⟩ := RunStore.of_exec h
    rcases RunStore.transitionResult_spec (.inr rfl) hx with ⟨rfl, -, hst, howner, hread⟩ |
      ⟨d, hd, hdl, hlease, hen, hc⟩
    · obtain ⟨d, hd, hto⟩ := RunStore.readDelegation_eq_some hread
      exact ⟨_, ⟨d, hd, .inl ⟨hto ▸ hst, hto ▸ howner, rfl⟩⟩, performs_none rfl⟩
    · rw [hlease] at hen hc
      exact ⟨_, ⟨d, hd, .inr ⟨hdl, rfl⟩⟩, performs_one hen hc⟩

/-! ## Which operation performs a change -/

section Performs

variable {s s' : RunStore} {op : Op} {reply : Reply} {chs : List Change} {id : RunId}

theorem performs_awaiting (h : op.Performs s s' reply chs) (hm : .awaiting id ∈ chs) :
    ∃ i, op.requestsApproval = some (id, i) ∧ s.interactions.find? i = none ∧
      chs = [.awaiting id] := by
  cases op <;> simp only [Op.Performs] at h <;> grind [Op.requestsApproval]

theorem performs_started (h : op.Performs s s' reply chs) (hm : .started id ∈ chs) :
    op.starts = some id ∧ reply = .flag true ∧ chs = [.started id] := by
  cases op <;> simp only [Op.Performs] at h <;> grind [Op.starts]

theorem performs_finished {v : Verdict} (h : op.Performs s s' reply chs)
    (hm : .finished id v ∈ chs) : op.finishes = some id ∧ chs = [.finished id v] := by
  cases op <;> simp only [Op.Performs] at h <;> grind [Op.finishes]

theorem performs_reconciled {v : Verdict} (h : op.Performs s s' reply chs)
    (hm : .reconciled id v ∈ chs) : op.reconciles = some id ∧ chs = [.reconciled id v] := by
  cases op <;> simp only [Op.Performs] at h <;> grind [Op.reconciles]

theorem performs_prepared {tools : List ToolView} (h : op.Performs s s' reply chs)
    (hm : .prepared id tools ∈ chs) : chs = [.prepared id tools] := by
  cases op <;> simp only [Op.Performs] at h <;> grind

/-- A call that ends a run either finds it ended or finishes it with what it was asked for,
or with an unknown outcome. -/
theorem performs_finishes (h : op.Performs s s' reply chs) (hop : op.finishes = some id) :
    s' = s ∧ chs = [] ∨ ∃ v, chs = [.finished id v] := by
  cases op <;> simp only [Op.Performs] at h <;> grind [Op.finishes]

/-- A start that reports success has started the run. -/
theorem performs_starts (h : op.Performs s s' reply chs) (hop : op.starts = some id)
    (hreply : reply = .flag true) : chs = [.started id] := by
  cases op <;> simp only [Op.Performs] at h <;> grind [Op.starts]

end Performs

/-! ## Lifting invariants -/

/-- A change may set a run to wait only in a status of `P`. -/
def Change.Awaits (P : RunStatus → Bool) (c : Control) (ch : Change) : Prop :=
  ∀ id v, ch = .awaiting id → c.run? id = some v → P v.verdict.status = true

/-- The simulation, with the condition on approvals carried over to the changes. -/
theorem simulation_guarded {P : RunStatus → Bool} {s s' : RunStore} {op : Op} {reply : Reply}
    (hG : ApprovalsOn P s op) (h : s.exec op = .ok (reply, s')) :
    ∃ chs, op.Performs s s' reply chs ∧
      Along Change.apply (fun c ch => ch.Enabled c ∧ ch.Awaits P c) s.control chs ∧
      s'.control = after Change.apply s.control chs := by
  obtain ⟨chs, hp, ha, hc⟩ := simulation h
  refine ⟨chs, hp, ?_, hc⟩
  by_cases hw : ∃ id, Change.awaiting id ∈ chs
  · obtain ⟨id, hm⟩ := hw
    obtain ⟨i, hop, hfresh, rfl⟩ := performs_awaiting hp hm
    refine ⟨⟨ha.1, ?_⟩, trivial⟩
    intro k v e hv
    cases e
    rw [RunStore.control_run?, Option.map_eq_some_iff] at hv
    obtain ⟨r, hr, rfl⟩ := hv
    exact hG id i r hop hfresh hr
  · refine along_mono ha ?_
    intro c ch hm hen
    refine ⟨hen, ?_⟩
    rintro k v rfl -
    exact absurd ⟨k, hm⟩ hw

/-- What every change preserves, every operation preserves. -/
theorem control_next {P : RunStatus → Bool} {I : Control → Prop}
    (hstep : ∀ (c : Control) (ch : Change), I c → ch.Enabled c ∧ ch.Awaits P c → I (ch.apply c))
    {s : RunStore} {op : Op} (hs : I s.control) (hG : ApprovalsOn P s op) :
    I (s.next op).control := by
  unfold RunStore.next
  split
  · rename_i reply s' h
    obtain ⟨chs, -, ha, hc⟩ := simulation_guarded hG h
    rw [hc]
    exact after_induct hstep hs ha
  · exact hs

/-- **Invariant rule.** What every change preserves holds after every sequence of operations. -/
theorem control_induct {P : RunStatus → Bool} {I : Control → Prop}
    (hstep : ∀ (c : Control) (ch : Change), I c → ch.Enabled c ∧ ch.Awaits P c → I (ch.apply c))
    {s : RunStore} {ops : List Op} (hs : I s.control)
    (hG : Along RunStore.next (ApprovalsOn P) s ops) : I (after RunStore.next s ops).control :=
  after_induct (I := fun s : RunStore => I s.control)
    (fun _ _ hI hg => control_next hstep hI hg) hs hG

end AgentDaemon.Storage
