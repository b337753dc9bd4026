import AgentDaemon.Daemon.Registry
import AgentDaemon.Storage.Completed

/-!
What one action of the daemon does to the chats and to the store, read off the action itself: which
chat may change its stage (`chats_next`), and who can complete a run (`store_next`).
-/

namespace AgentDaemon.Daemon

open Provider Storage Transition

/-! ## What an action does to the chats -/

section Chats

variable {d d' : DaemonState} {a : DaemonAction}

/-- A chat goes to a stage where it commits nothing, or concludes its turn. -/
def Advances (c : Chat) (env : Env) (st : ChatStage) : Prop :=
  (∀ status content error, st ≠ .committing status content error) ∨
    c.stage = .running ∧ st = conclusion c env.result

/-- The chats of `d'` are those of `d`, and only the one that advances may be in another stage. -/
def KeepsChats (a : DaemonAction) (d d' : DaemonState) : Prop :=
  ∃ g, Reshaped g d d' ∧ ∀ (k : Nat) c, d.chats[k]? = some c →
    (g k c).key = c.key ∧ (g k c).runId = c.runId ∧
      ((g k c).stage = c.stage ∨ ∃ env, a = .advance k env ∧ Advances c env (g k c).stage)

theorem KeepsChats.length_eq (h : KeepsChats a d d') : d'.chats.length = d.chats.length := by
  obtain ⟨g, hg, -⟩ := h
  have he : d'.chats = d.chats.mapIdx g := by
    apply List.ext_getElem?
    intro k
    rw [hg k, List.getElem?_mapIdx]
  rw [he, List.length_mapIdx]

theorem keepsChats_same (h : d'.chats = d.chats) : KeepsChats a d d' := by
  refine ⟨fun _ c => c, ?_, fun _ _ _ => ⟨rfl, rfl, .inl rfl⟩⟩
  intro k
  rw [h, Option.map_id']

theorem keepsChats_modify {i : Nat} {f : Chat → Chat} (h : d'.chats = d.chats.modify i f)
    (hf : ∀ c, (f c).key = c.key ∧ (f c).runId = c.runId)
    (hstage : ∀ c, d.chats[i]? = some c → (f c).stage = c.stage ∨
      ∃ env, a = .advance i env ∧ Advances c env (f c).stage) : KeepsChats a d d' := by
  refine ⟨_, reshaped_modify h, ?_⟩
  intro k c hk
  split
  · rename_i e
    subst e
    exact ⟨(hf c).1, (hf c).2, hstage c hk⟩
  · exact ⟨rfl, rfl, .inl rfl⟩

theorem keepsChats_notify (h : d'.chats = d.notifyWaiters.chats) : KeepsChats a d d' := by
  refine ⟨_, reshaped_notify h, ?_⟩
  intro k c _
  split <;> exact ⟨rfl, rfl, .inl rfl⟩

theorem keepsChats_wake {i : Nat} {st : ChatStage} {env : Env}
    (h : d'.chats = d.notifyWaiters.chats.modify i ({ · with stage := st }))
    (hst : ∀ status content error, st ≠ .committing status content error) :
    KeepsChats (.advance i env) d d' := by
  refine ⟨_, reshaped_wake h, ?_⟩
  intro k c _
  have hnotified : ∀ x : Chat,
      (if x.stage.listening then { x with notified := true } else x).key = x.key ∧
      (if x.stage.listening then { x with notified := true } else x).runId = x.runId ∧
      (if x.stage.listening then { x with notified := true } else x).stage = x.stage := by
    intro x
    split <;> exact ⟨rfl, rfl, rfl⟩
  obtain ⟨hkey, hrun, hstage⟩ := hnotified c
  split
  · rename_i e
    subst e
    exact ⟨hkey, hrun, .inr ⟨env, rfl, .inl hst⟩⟩
  · exact ⟨hkey, hrun, .inl hstage⟩

theorem keepsChats_advance {i : Nat} {c : Chat} (hi : d.chats[i]? = some c) (env : Env) :
    KeepsChats (.advance i env) d (d.advance i c env) := by
  have hself : ∀ {d' : DaemonState} {f : Chat → Chat}, d'.chats = d.chats.modify i f →
      (∀ c, (f c).key = c.key ∧ (f c).runId = c.runId) → Advances c env (f c).stage →
        KeepsChats (.advance i env) d d' := by
    intro d' f h hf hst
    refine keepsChats_modify h hf fun c' hi' => ?_
    cases hi.symm.trans hi'
    exact .inr ⟨env, rfl, hst⟩
  have hstage : ∀ {d' : DaemonState} {st : ChatStage},
      d'.chats = d.chats.modify i ({ · with stage := st }) → Advances c env st →
        KeepsChats (.advance i env) d d' := fun h hst => hself h (fun _ => ⟨rfl, rfl⟩) hst
  unfold DaemonState.advance
  split
  · exact hstage rfl (.inl (by simp))
  · unfold DaemonState.register
    split
    · exact hstage rfl (.inl (by simp))
    · exact hself rfl (fun _ => ⟨rfl, rfl⟩) (.inl (by simp))
  · exact keepsChats_wake rfl (by simp)
  · exact hself rfl (fun _ => ⟨rfl, rfl⟩) (.inl (by simp))
  · refine hstage rfl (.inl ?_)
    split <;> simp
  · unfold DaemonState.tryStart
    split
    · exact hstage rfl (.inl (by simp))
    · split <;> exact hstage rfl (.inl (by simp))
  · split
    · exact hstage rfl (.inl (by simp))
    · exact keepsChats_same rfl
  · exact hstage rfl (.inl (by simp))
  · exact hstage rfl (.inl (by simp))
  · unfold DaemonState.takeRoute
    split <;> exact hstage rfl (.inl (by simp))
  · unfold DaemonState.restoreRoute
    split
    · exact hstage rfl (.inl (by simp))
    · split
      · exact hstage rfl (.inl (by simp))
      · split <;> exact hstage rfl (.inl (by simp))
  · unfold DaemonState.restrict
    split <;> exact hstage rfl (.inl (by simp))
  · unfold DaemonState.finishIgnored
    split <;> exact hstage rfl (.inl (by simp))
  · rename_i hst
    exact hstage rfl (.inr ⟨hst, rfl⟩)
  · unfold DaemonState.commit
    split
    · exact hstage rfl (.inl (by simp))
    · split <;> exact hstage rfl (.inl (by simp))
  · exact hstage rfl (.inl (by simp))
  · exact keepsChats_wake rfl (by simp)
  · exact hstage rfl (.inl (by simp))
  · exact keepsChats_same rfl

theorem keepsChats_advanceCancel (d : DaemonState) (j : Nat) (c : Cancel) (env : Env) :
    KeepsChats a d (d.advanceCancel j c env) := by
  have hsame : ∀ {d' : DaemonState}, d'.chats = d.chats → KeepsChats a d d' := keepsChats_same
  have hsignal : ∀ {d' : DaemonState} (i : Nat),
      d'.chats = d.chats.modify i ({ · with cancelled := true }) → KeepsChats a d d' :=
    fun i h => keepsChats_modify h (fun _ => ⟨rfl, rfl⟩) fun _ _ => .inl rfl
  have hdispatch : ∀ run, (d.dispatch j run).chats = d.chats := by
    intro run
    unfold DaemonState.dispatch
    split <;> rfl
  unfold DaemonState.advanceCancel
  split
  · split <;> exact hsame rfl
  · split
    · exact hsame rfl
    · split
      · exact hsame rfl
      · split
        · exact hsame rfl
        · exact hsame (hdispatch _)
  · split
    · exact hsame rfl
    · split <;> exact hsame rfl
  · split
    · exact hsignal _ rfl
    · exact hsame rfl
  · exact keepsChats_notify rfl
  · split
    · exact hsame rfl
    · split
      · exact hsame rfl
      · exact hsame (hdispatch _)
  · split <;> exact hsame rfl
  · exact hsignal _ rfl
  · split
    · exact hsame rfl
    · split
      · exact hsame rfl
      · split <;> exact hsame rfl
  · exact hsame rfl

/-- A chat that is admitted, for a run with its message. -/
def Admits (a : DaemonAction) (d d' : DaemonState) : Prop :=
  ∃ key message mode route now c, a = .chat key message mode route now ∧
    d'.chats = d.chats ++ [c] ∧ c.key = key ∧ c.stage.driving = false ∧
      d'.store.head? c.runId = some ⟨c.runId, key.sessionId, key.requestId, message⟩

theorem chats_next (d : DaemonState) (a : DaemonAction) :
    KeepsChats a d (d.next a) ∨ Admits a d (d.next a) := by
  cases a with
  | chat key message mode route now =>
    simp only [DaemonState.next, DaemonState.newChat]
    split
    · split
      · exact .inl (keepsChats_same rfl)
      · rename_i admission store hx
        refine .inr ⟨key, message, mode, route, now, _, rfl, rfl, rfl, ?_,
          RunStore.admitWithRoute_head hx⟩
        unfold admissionStage
        split <;> split <;> rfl
    · exact .inl (keepsChats_same rfl)
  | advance i env =>
    simp only [DaemonState.next, DaemonState.withChat]
    split
    · exact .inl (keepsChats_same rfl)
    · rename_i c hi
      exact .inl (keepsChats_advance hi env)
  | engine i op =>
    simp only [DaemonState.next, DaemonState.withChat, DaemonState.engine]
    split
    · exact .inl (keepsChats_same rfl)
    · split <;> exact .inl (keepsChats_same rfl)
  | storageError i message =>
    simp only [DaemonState.next, DaemonState.withChat, DaemonState.storageError]
    split
    · exact .inl (keepsChats_same rfl)
    · split
      · exact .inl (keepsChats_modify rfl (fun _ => ⟨rfl, rfl⟩) fun _ _ => .inl rfl)
      · exact .inl (keepsChats_same rfl)
  | expire i =>
    simp only [DaemonState.next, DaemonState.withChat]
    split
    · exact .inl (keepsChats_same rfl)
    · split <;> exact .inl (keepsChats_same rfl)
  | cancel params => exact .inl (keepsChats_same rfl)
  | advanceCancel j env =>
    simp only [DaemonState.next, DaemonState.withCancel]
    split
    · exact .inl (keepsChats_same rfl)
    · exact .inl (keepsChats_advanceCancel d j _ env)
  | abortCancel j =>
    simp only [DaemonState.next, DaemonState.withCancel, DaemonState.abortCancel]
    split
    · exact .inl (keepsChats_same rfl)
    · split <;> exact .inl (keepsChats_same rfl)
  | spawnCheck request =>
    simp only [DaemonState.next, DaemonState.spawnCheck]
    split
    · exact .inl (keepsChats_same rfl)
    · split
      · exact .inl (keepsChats_same rfl)
      · split <;> exact .inl (keepsChats_same rfl)
  | spawnAdmit env =>
    simp only [DaemonState.next, DaemonState.spawnAdmit]
    split <;> exact .inl (keepsChats_same rfl)
  | answer id sessionId runId revision approved lost =>
    simp only [DaemonState.next, DaemonState.answer]
    split
    · exact .inl (keepsChats_same rfl)
    · split <;> exact .inl (keepsChats_same rfl)
  | resolveLost env =>
    simp only [DaemonState.next, DaemonState.resolveLost, DaemonState.finishIgnored]
    split
    · split <;> exact .inl (keepsChats_same rfl)
    · exact .inl (keepsChats_same rfl)
  | client op =>
    simp only [DaemonState.next]
    split <;> exact .inl (keepsChats_same rfl)

end Chats

/-! ## What an action writes to the store -/

section Calls

variable {d : DaemonState}

/-- The store call of an action. -/
inductive Calls (d : DaemonState) : DaemonAction → Op → Prop
  | send (key : ActiveKey) (message : String) (mode : AdmissionMode)
      (route : Option RouteSnapshot) (now : Int) : Calls d (.chat key message mode route now)
        (.admitWithRoute key.sessionId key.requestId message mode route now)
  | start {i : Nat} {c : Chat} {env : Env} (hi : d.chats[i]? = some c) :
      Calls d (.advance i env) (.tryStartQueued c.runId env.clock)
  | abort {i : Nat} {c : Chat} {env : Env} {code : Int} {message : String}
      (hi : d.chats[i]? = some c) (hst : c.stage = .aborting code message) :
      Calls d (.advance i env)
        (.finish c.runId .failed none (some (code, message)) (env.clock 0))
  | commit {i : Nat} {c : Chat} {env : Env} {status : RunStatus} {content : Option String}
      {error : Option (Int × String)} (hi : d.chats[i]? = some c)
      (hst : c.stage = .committing status content error) : Calls d (.advance i env)
        (.finish c.runId status content error (env.clock 0))
  | engine {i : Nat} {c : Chat} {op : Op} (hi : d.chats[i]? = some c) (hst : c.stage = .running)
      (hop : op.engineRun = some c.runId) : Calls d (.engine i op) op
  | remove {j : Nat} {c : Cancel} {env : Env} {run : RunRecord} (hj : d.cancels[j]? = some c)
      (hst : c.stage = .removing run) :
      Calls d (.advanceCancel j env) (.removeQueued run.runId (env.clock 0))
  | spawn {request : DelegationRequest} {env : Env} (hcontrol : d.control = some (.spawn request))
      (hok : env.fails = false) :
      Calls d (.spawnAdmit env) (.admitDelegation request env.clock)
  | claim {id : InteractionId} {sessionId : SessionId} {runId : RunId} {revision : Int}
      {approved lost : Bool} : Calls d (.answer id sessionId runId revision approved lost)
        (.claimInteraction id sessionId runId revision approved)
  | lose {runId : RunId} {env : Env} (hcontrol : d.control = some (.resolve runId)) :
      Calls d (.resolveLost env)
        (.finish runId .unknownAfterRestart none (some (-32002, "审批执行体已消失")) (env.clock 0))
  | client {op : Op} (hop : op.isClient = true) : Calls d (.client op) op

theorem calls_advance {i : Nat} {c : Chat} (hi : d.chats[i]? = some c) (env : Env) :
    (d.advance i c env).store = d.store ∨
      ∃ op, Calls d (.advance i env) op ∧ (d.advance i c env).store = d.store.next op := by
  unfold DaemonState.advance
  split
  case h_2 => unfold DaemonState.register; split <;> exact .inl rfl
  case h_6 =>
    unfold DaemonState.tryStart
    split
    · exact .inl rfl
    · split
      · exact .inl rfl
      · rename_i hx
        exact .inr ⟨_, .start hi, (next_tryStartQueued hx).symm⟩
      · rename_i hx
        exact .inr ⟨_, .start hi, (next_tryStartQueued hx).symm⟩
  case h_7 => split <;> exact .inl rfl
  case h_10 => unfold DaemonState.takeRoute; split <;> exact .inl rfl
  case h_11 =>
    unfold DaemonState.restoreRoute
    split
    · exact .inl rfl
    · split
      · exact .inl rfl
      · split <;> exact .inl rfl
  case h_12 => unfold DaemonState.restrict; split <;> exact .inl rfl
  case h_13 =>
    rename_i hst
    unfold DaemonState.finishIgnored
    split
    · exact .inl rfl
    · exact .inr ⟨_, .abort hi hst, rfl⟩
  case h_15 =>
    rename_i status content error hst
    unfold DaemonState.commit
    split
    · exact .inl rfl
    · split
      · exact .inl rfl
      · rename_i hx
        exact .inr ⟨_, .commit hi hst, (next_finish hx).symm⟩
  all_goals exact .inl rfl

theorem calls_advanceCancel {j : Nat} {c : Cancel} (hj : d.cancels[j]? = some c) (env : Env) :
    (d.advanceCancel j c env).store = d.store ∨
      ∃ op, Calls d (.advanceCancel j env) op ∧
        (d.advanceCancel j c env).store = d.store.next op := by
  have hdispatch : ∀ run, (d.dispatch j run).store = d.store := by
    intro run
    unfold DaemonState.dispatch
    split <;> rfl
  unfold DaemonState.advanceCancel
  split
  · split <;> exact .inl rfl
  · split
    · exact .inl rfl
    · split
      · exact .inl rfl
      · split
        · exact .inl rfl
        · exact .inl (hdispatch _)
  · rename_i run hst
    split
    · exact .inl rfl
    · split
      · exact .inl rfl
      · rename_i hx
        exact .inr ⟨_, .remove hj hst, (next_removeQueued hx).symm⟩
      · rename_i hx
        exact .inr ⟨_, .remove hj hst, (next_removeQueued hx).symm⟩
  · split <;> exact .inl rfl
  · exact .inl rfl
  · split
    · exact .inl rfl
    · split
      · exact .inl rfl
      · exact .inl (hdispatch _)
  · split <;> exact .inl rfl
  · exact .inl rfl
  · split
    · exact .inl rfl
    · split
      · exact .inl rfl
      · split <;> exact .inl rfl
  · exact .inl rfl

/-- **Calls.** An action calls the store once at most. -/
theorem calls_next (d : DaemonState) (a : DaemonAction) :
    (d.next a).store = d.store ∨ ∃ op, Calls d a op ∧ (d.next a).store = d.store.next op := by
  cases a with
  | chat key message mode route now =>
    simp only [DaemonState.next, DaemonState.newChat]
    split
    · split
      · exact .inl rfl
      · rename_i admission store hx
        refine .inr ⟨_, .send key message mode route now, ?_⟩
        rw [RunStore.next_of_ok (r := .admission admission)]
        rw [RunStore.exec, hx]
        rfl
    · exact .inl rfl
  | advance i env =>
    simp only [DaemonState.next, DaemonState.withChat]
    split
    · exact .inl rfl
    · rename_i c hi
      exact calls_advance hi env
  | engine i op =>
    simp only [DaemonState.next, DaemonState.withChat, DaemonState.engine]
    split
    · exact .inl rfl
    · rename_i c hi
      split
      · rename_i hop
        exact .inr ⟨op, .engine hi hop.1 hop.2, rfl⟩
      · exact .inl rfl
  | storageError i message =>
    simp only [DaemonState.next, DaemonState.withChat, DaemonState.storageError]
    split
    · exact .inl rfl
    · split <;> exact .inl rfl
  | expire i =>
    simp only [DaemonState.next, DaemonState.withChat]
    split
    · exact .inl rfl
    · split <;> exact .inl rfl
  | cancel params => exact .inl rfl
  | advanceCancel j env =>
    simp only [DaemonState.next, DaemonState.withCancel]
    split
    · exact .inl rfl
    · rename_i c hj
      exact calls_advanceCancel hj env
  | abortCancel j =>
    simp only [DaemonState.next, DaemonState.withCancel, DaemonState.abortCancel]
    split
    · exact .inl rfl
    · split <;> exact .inl rfl
  | spawnCheck request =>
    simp only [DaemonState.next, DaemonState.spawnCheck]
    split
    · exact .inl rfl
    · split
      · exact .inl rfl
      · split <;> exact .inl rfl
  | spawnAdmit env =>
    simp only [DaemonState.next, DaemonState.spawnAdmit]
    split
    · rename_i request hcontrol
      split
      · exact .inl rfl
      · rename_i hok
        exact .inr ⟨_, .spawn hcontrol (by simpa using hok), rfl⟩
    · exact .inl rfl
  | answer id sessionId runId revision approved lost =>
    simp only [DaemonState.next, DaemonState.answer]
    split
    · exact .inl rfl
    · split
      · exact .inl rfl
      · rename_i rec store hx
        exact .inr ⟨_, .claim, (next_claimInteraction hx).symm⟩
  | resolveLost env =>
    simp only [DaemonState.next, DaemonState.resolveLost, DaemonState.finishIgnored]
    split
    · rename_i runId hcontrol
      split
      · exact .inl rfl
      · exact .inr ⟨_, .lose hcontrol, rfl⟩
    · exact .inl rfl
  | client op =>
    simp only [DaemonState.next]
    split
    · rename_i hop
      exact .inr ⟨op, .client hop, rfl⟩
    · exact .inl rfl

/-- A call that completes no run, or none. -/
def Harmless (s s' : RunStore) : Prop :=
  s' = s ∨ ∃ op, op.completes = none ∧ s' = s.next op

/-- The store after a chat commits its outcome. -/
def Commits (d d' : DaemonState) (i : Nat) (c : Chat) : Prop :=
  ∃ status content error now, c.stage = .committing status content error ∧
    d.chats[i]? = some c ∧ d'.store = d.store.next (.finish c.runId status content error now)

/-- Only a chat that commits and a client that resolves a run complete one. -/
theorem store_next (d : DaemonState) (a : DaemonAction) :
    Harmless d.store (d.next a).store ∨ (∃ i c, Commits d (d.next a) i c) ∨
      ∃ op, a = .client op ∧ op.isClient = true ∧ (d.next a).store = d.store.next op := by
  rcases calls_next d a with e | ⟨op, hcall, e⟩
  · exact .inl (.inl e)
  · cases hcall with
    | commit hi hst => exact .inr (.inl ⟨_, _, _, _, _, _, hst, hi, e⟩)
    | client hop => exact .inr (.inr ⟨op, rfl, hop, e⟩)
    | engine hi hst hop =>
      refine .inl (.inr ⟨op, ?_, e⟩)
      cases op <;> first | rfl | cases hop
    | _ => exact .inl (.inr ⟨_, rfl, e⟩)

/-- A run that ended goes on only when the engine asks for an approval on its behalf. -/
theorem Calls.approval {a : DaemonAction} {op : Op} {id : RunId} (h : Calls d a op)
    (happ : op.approvalRun = some id) : ∃ i c, a = .engine i op ∧ d.chats[i]? = some c ∧
      c.stage = .running ∧ c.runId = id := by
  cases h with
  | engine hi hst hop => exact ⟨_, _, rfl, hi, hst, (Op.approvalRun_of_engineRun hop happ).symm⟩
  | client hop => cases op <;> first | cases happ | cases hop
  | _ => cases happ

theorem Calls.not_recover {a : DaemonAction} {op : Op} (h : Calls d a op) (clock : Clock) :
    op ≠ .recover clock := by
  rintro rfl
  cases h with
  | engine _ _ hop | client hop => cases hop

theorem Calls.admission {a : DaemonAction} {request : DelegationRequest} {clock : Clock}
    (h : Calls d a (.admitDelegation request clock)) : ∃ env, a = .spawnAdmit env ∧
      env.clock = clock ∧ env.fails = false ∧ d.control = some (.spawn request) := by
  cases h with
  | spawn hcontrol hok => exact ⟨_, rfl, rfl, hok, hcontrol⟩
  | engine _ _ hop | client hop => cases hop

end Calls

end AgentDaemon.Daemon
