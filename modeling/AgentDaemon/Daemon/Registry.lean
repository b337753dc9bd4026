import AgentDaemon.Daemon.Drivers
import AgentDaemon.Lib.Slots

/-!
What an action does to the store, the active map and the chats (`next_effect`), said once for
all the results about runs and their drivers. From it follows that the active map holds
exactly the chats between their registration and their removal, one for a run at most
(`Registry`), and what is known of the run that a `cancel` is about (`Hunted`).
-/

namespace AgentDaemon.Daemon

open Provider Storage Transition

/-! ## Stages -/

namespace ChatStage

/-- Between `active.insert` and `active.remove`. -/
def held : ChatStage → Bool
  | freezing | admitted | thawing | deregistered | returned => false
  | _ => true

/-- In the loop that waits for the run to start. -/
def queueing : ChatStage → Bool
  | registered | looping | armed | trying | waiting => true
  | _ => false

/-- The run was started by this chat and is not yet ended by it. -/
def driving : ChatStage → Bool
  | started | routing | routed | aborting _ _ | running | committing _ _ _ => true
  | _ => false

/-- About to leave the active map. -/
def parting : ChatStage → Bool
  | leaving | committed | failing => true
  | _ => false

/-- Moves of a chat that touch neither the store nor the active map. -/
inductive Turn (c : Chat) : ChatStage → ChatStage → Prop
  | freeze : Turn c freezing admitted
  | quit (h : c.cancelled = true) : Turn c armed leaving
  | try : Turn c armed trying
  | wake : Turn c waiting looping
  | thaw : Turn c thawing returned
  | take : Turn c started routed
  | ask : Turn c started routing
  | restore : Turn c routing routed
  | lose (code : Int) (message : String) : Turn c routing (aborting code message)
  | refuse (code : Int) (message : String) : Turn c routed (aborting code message)
  | run : Turn c routed running
  | conclude {status : RunStatus} (content : Option String) (error : Option (Int × String))
      (h : status.terminal = true) : Turn c running (committing status content error)

/-- The stages of a chat in which it takes itself out of the active map. -/
inductive Leaves : ChatStage → ChatStage → Prop
  | cancelled : Leaves leaving thawing
  | done : Leaves committed deregistered
  | failed : Leaves failing returned

/-- The stages of a chat in which it notifies the waiters. -/
inductive Wakes : ChatStage → ChatStage → Prop
  | registered : Wakes registered looping
  | done : Wakes deregistered returned

section

variable {c : Chat} {a b : ChatStage}

theorem Turn.held_eq (h : Turn c a b) : b.held = a.held := by cases h <;> rfl

theorem Turn.of_parting (h : Turn c a b) (hb : b.parting = true) :
    a.queueing = true ∧ c.cancelled = true := by
  cases h <;> first | exact ⟨rfl, ‹_›⟩ | cases hb

theorem Turn.of_queueing (h : Turn c a b) (hb : b.queueing = true) : a.queueing = true := by
  cases h <;> first | rfl | cases hb

theorem Turn.driving (h : Turn c a b) (ha : a.driving = true) : b.driving = true := by
  cases h <;> first | rfl | cases ha

theorem Leaves.held (h : Leaves a b) : a.held = true ∧ b.held = false := by
  cases h <;> exact ⟨rfl, rfl⟩

end

end ChatStage

/-! ## The effect of an action -/

/-- The active map holds the chats between their registration and their removal. -/
structure Registry (d : DaemonState) : Prop where
  stored : ∃ ops, d.store = storeAfter ops
  known : ∀ (i : Nat) c, d.chats[i]? = some c → d.store.key? c.runId = some c.key
  concluded : ∀ (i : Nat) c status content error, d.chats[i]? = some c →
    c.stage = .committing status content error → status.terminal = true
  nodup : (d.active.map Prod.fst).Nodup
  entry : ∀ k i, (k, i) ∈ d.active → ∃ c, d.chats[i]? = some c ∧ c.key = k ∧ c.stage.held = true
  held : ∀ (i : Nat) c, d.chats[i]? = some c → c.stage.held = true → (c.key, i) ∈ d.active

/-- The action lets chat `i` find its store call failing. -/
def DaemonAction.failsAt (a : DaemonAction) (i : Nat) : Prop :=
  ∃ env, a = .advance i env ∧ env.fails = true

/-- What the action `a` does to the store, the active map and the chats. -/
inductive Effect (d : DaemonState) (a : DaemonAction) (d' : DaemonState) : Prop
  | quiet (hs : d'.store = d.store) (ha : d'.active = d.active) (hc : d'.chats = d.chats)
  /-- A call that ends no run and asks for no approval. -/
  | call (op : Op) (hop : ∀ clock, op ≠ .recover clock) (hends : ∀ id, ¬ op.Ends id)
      (hstart : op.starts = none) (happ : op.approvalRun = none)
      (hs : d'.store = d.store.next op) (ha : d'.active = d.active) (hc : d'.chats = d.chats)
  | engine (i : Nat) (c : Chat) (op : Op) (hi : d.chats[i]? = some c) (hst : c.stage = .running)
      (hop : op.engineRun = some c.runId)
      (hs : d'.store = d.store.next op) (ha : d'.active = d.active) (hc : d'.chats = d.chats)
  | removed (j : Nat) (c : Cancel) (run : RunRecord) (now : Int) (hj : d.cancels[j]? = some c)
      (hst : c.stage = .removing run)
      (hx : ∃ b, d.store.removeQueued run.runId now = .ok (b, d'.store) ∧
        d'.cancels = d.cancels.modify j
          ({ · with stage := if b then .announcing run else .rereading run }))
      (ha : d'.active = d.active) (hc : d'.chats = d.chats)
  | lost (runId : RunId) (env : Env) (h : a = .resolveLost env)
      (hcontrol : d.control = some (.resolve runId)) (hok : env.fails = false)
      (hs : d'.store = d.store.next (.finish runId .unknownAfterRestart none
        (some (-32002, "审批执行体已消失")) (env.clock 0)))
      (ha : d'.active = d.active) (hc : d'.chats = d.chats)
  | admitted (c : Chat) (op : Op) (hop : ∀ clock, op ≠ .recover clock)
      (hends : ∀ id, ¬ op.Ends id) (hstart : op.starts = none) (happ : op.approvalRun = none)
      (hs : d'.store = d.store.next op) (hkey : d'.store.key? c.runId = some c.key)
      (hst : c.stage = .freezing ∨ c.stage = .admitted ∨
        c.stage = .returned ∧ d.store.Dequeued c.runId)
      (ha : d'.active = d.active) (hc : d'.chats = d.chats ++ [c])
  | turn (i : Nat) (c : Chat) (st : ChatStage) (hi : d.chats[i]? = some c)
      (ht : ChatStage.Turn c c.stage st) (hs : d'.store = d.store) (ha : d'.active = d.active)
      (hc : d'.chats = d.chats.modify i ({ · with stage := st }))
  | duplicate (i : Nat) (c : Chat) (hi : d.chats[i]? = some c) (hst : c.stage = .admitted)
      (hl : (d.lookup c.key).isSome = true) (hs : d'.store = d.store)
      (ha : d'.active = d.active) (hc : d'.chats = d.chats.modify i ({ · with stage := .returned }))
  | register (i : Nat) (c : Chat) (hi : d.chats[i]? = some c) (hst : c.stage = .admitted)
      (h : ∃ env, a = .advance i env)
      (hl : d.lookup c.key = none) (hs : d'.store = d.store)
      (ha : d'.active = d.active ++ [(c.key, i)])
      (hc : d'.chats = d.chats.modify i ({ · with stage := .registered, cancelled := false }))
  | arm (i : Nat) (c : Chat) (hi : d.chats[i]? = some c) (hst : c.stage = .looping)
      (hs : d'.store = d.store) (ha : d'.active = d.active)
      (hc : d'.chats = d.chats.modify i ({ · with stage := .armed, notified := false }))
  /-- A store call of the chat fails, or its run has ended under it. -/
  | failed (i : Nat) (c : Chat) (hi : d.chats[i]? = some c)
      (hst : c.stage = .trying ∨ c.stage = .routing ∨ ∃ s t e, c.stage = .committing s t e)
      (hwhy : a.failsAt i ∨ d.store.Ended c.runId)
      (hs : d'.store = d.store) (ha : d'.active = d.active)
      (hc : d'.chats = d.chats.modify i ({ · with stage := .failing }))
  | started (i : Nat) (c : Chat) (clock : Clock) (hi : d.chats[i]? = some c)
      (hst : c.stage = .trying)
      (hx : d.store.tryStartQueued c.runId clock = .ok (true, d'.store))
      (ha : d'.active = d.active) (hc : d'.chats = d.chats.modify i ({ · with stage := .started }))
  | refused (i : Nat) (c : Chat) (clock : Clock) (hi : d.chats[i]? = some c)
      (hst : c.stage = .trying)
      (hx : d.store.tryStartQueued c.runId clock = .ok (false, d'.store))
      (ha : d'.active = d.active) (hc : d'.chats = d.chats.modify i ({ · with stage := .waiting }))
  | aborted (i : Nat) (c : Chat) (code : Int) (message : String) (env : Env)
      (hi : d.chats[i]? = some c) (hst : c.stage = .aborting code message)
      (h : a = .advance i env)
      (hs : if env.fails then d'.store = d.store else d'.store = d.store.next
        (.finish c.runId .failed none (some (code, message)) (env.clock 0)))
      (ha : d'.active = d.active) (hc : d'.chats = d.chats.modify i ({ · with stage := .failing }))
  | committed (i : Nat) (c : Chat) (status : RunStatus) (content : Option String)
      (error : Option (Int × String)) (now : Int) (rec : RunRecord) (hi : d.chats[i]? = some c)
      (hst : c.stage = .committing status content error)
      (hx : d.store.finish c.runId status content error now = .ok (rec, d'.store))
      (ha : d'.active = d.active)
      (hc : d'.chats = d.chats.modify i ({ · with stage := .committed }))
  | left (i : Nat) (c : Chat) (st : ChatStage) (hi : d.chats[i]? = some c)
      (ht : ChatStage.Leaves c.stage st) (hs : d'.store = d.store)
      (ha : d'.active = d.active.filter fun e => e.1 ≠ c.key)
      (hc : d'.chats = d.chats.modify i ({ · with stage := st }))
  | woke (i : Nat) (c : Chat) (st : ChatStage) (hi : d.chats[i]? = some c)
      (ht : ChatStage.Wakes c.stage st) (hs : d'.store = d.store) (ha : d'.active = d.active)
      (hc : d'.chats = d.notifyWaiters.chats.modify i ({ · with stage := st }))
  | notified (hs : d'.store = d.store) (ha : d'.active = d.active)
      (hc : d'.chats = d.notifyWaiters.chats)
  /-- The turn is cancelled because an event of it cannot be stored. -/
  | broken (i : Nat) (c : Chat) (message : String) (hi : d.chats[i]? = some c)
      (hst : c.stage = .running) (hs : d'.store = d.store) (ha : d'.active = d.active)
      (hc : d'.chats =
        d.chats.modify i ({ · with storageError := some message, cancelled := true }))
  /-- A `cancel` cancels the token of a driver. -/
  | signalled (i j : Nat) (c : Cancel) (run : RunRecord) (hj : d.cancels[j]? = some c)
      (hst : c.stage = .announcing run ∧ d.lookup run.key = some i ∨ c.stage = .signalling run i)
      (hs : d'.store = d.store) (ha : d'.active = d.active)
      (hc : d'.chats = d.chats.modify i ({ · with cancelled := true }))

variable {d : DaemonState}

theorem Registry.sound (h : Registry d) : d.store.journal.Sound := by
  obtain ⟨ops, e⟩ := h.stored
  rw [e]
  exact journal_sound ops

theorem Registry.exists_run (h : Registry d) {i : Nat} {c : Chat} (hi : d.chats[i]? = some c) :
    ∃ r, d.store.runs.find? c.runId = some r := by
  obtain ⟨r, hr, -⟩ := Option.map_eq_some_iff.mp (h.known i c hi)
  exact ⟨r, hr⟩

theorem conclusion_turn (c : Chat) (result : EngineResult) :
    ChatStage.Turn c .running (conclusion c result) := by
  unfold conclusion
  split
  · exact .conclude _ _ rfl
  · split
    · exact .conclude _ _ rfl
    · exact .conclude _ _ rfl

/-- The effect of a chat's next stretch. -/
theorem advance_effect (h : Registry d) {i : Nat} {c : Chat} (hi : d.chats[i]? = some c)
    (env : Env) : Effect d (.advance i env) (d.advance i c env) := by
  unfold DaemonState.advance
  split
  · rename_i hst
    exact .turn i c _ hi (hst ▸ .freeze) rfl rfl rfl
  · rename_i hst
    unfold DaemonState.register
    split
    · rename_i hl
      exact .duplicate i c hi hst hl rfl rfl rfl
    · rename_i hl
      exact .register i c hi hst ⟨env, rfl⟩ (by simpa using hl) rfl rfl rfl
  · rename_i hst
    exact .woke i c _ hi (hst ▸ .registered) rfl rfl rfl
  · rename_i hst
    exact .arm i c hi hst rfl rfl rfl
  · rename_i hst
    split
    · rename_i hc
      exact .turn i c _ hi (hst ▸ .quit hc) rfl rfl rfl
    · exact .turn i c _ hi (hst ▸ .try) rfl rfl rfl
  · rename_i hst
    unfold DaemonState.tryStart
    split
    · rename_i hf
      exact .failed i c hi (.inl hst) (.inl ⟨env, rfl, hf⟩) rfl rfl rfl
    · obtain ⟨b, s', hx⟩ := tryStartQueued_total h.sound c.runId env.clock
      rw [hx]
      cases b with
      | true => exact .started i c env.clock hi hst hx rfl rfl
      | false => exact .refused i c env.clock hi hst hx rfl rfl
  · rename_i hst
    split
    · exact .turn i c _ hi (hst ▸ .wake) rfl rfl rfl
    · exact .quiet rfl rfl rfl
  · rename_i hst
    exact .left i c _ hi (hst ▸ .cancelled) rfl rfl rfl
  · rename_i hst
    exact .turn i c _ hi (hst ▸ .thaw) rfl rfl rfl
  · rename_i hst
    unfold DaemonState.takeRoute
    split
    · exact .turn i c _ hi (hst ▸ .take) rfl rfl rfl
    · exact .turn i c _ hi (hst ▸ .ask) rfl rfl rfl
  · rename_i hst
    unfold DaemonState.restoreRoute
    split
    · rename_i hf
      exact .failed i c hi (.inr (.inl hst)) (.inl ⟨env, rfl, hf⟩) rfl rfl rfl
    · split
      · exact .turn i c _ hi (hst ▸ .restore) rfl rfl rfl
      · split
        · exact .turn i c _ hi (hst ▸ .restore) rfl rfl rfl
        · exact .turn i c _ hi (hst ▸ .lose _ _) rfl rfl rfl
  · rename_i hst
    unfold DaemonState.restrict
    split
    · exact .turn i c _ hi (hst ▸ .refuse _ _) rfl rfl rfl
    · exact .turn i c _ hi (hst ▸ .run) rfl rfl rfl
  · rename_i code message hst
    refine .aborted i c code message env hi hst rfl ?_ ?_ ?_
    all_goals unfold DaemonState.finishIgnored; split <;> rfl
  · rename_i hst
    exact .turn i c _ hi (hst ▸ conclusion_turn c env.result) rfl rfl rfl
  · rename_i status content error hst
    unfold DaemonState.commit
    split
    · rename_i hf
      exact .failed i c hi (.inr (.inr ⟨_, _, _, hst⟩)) (.inl ⟨env, rfl, hf⟩) rfl rfl rfl
    · split
      · rename_i e hx
        refine .failed i c hi (.inr (.inr ⟨_, _, _, hst⟩)) (.inr ?_) rfl rfl rfl
        obtain ⟨r, hr⟩ := h.exists_run hi
        by_contra hne
        have hnt : r.status.terminal = false := by
          by_contra ht
          refine hne ⟨r.status, ?_, by simpa using ht⟩
          rw [status?_eq, RunStore.control_run?, hr]
          rfl
        obtain ⟨rec, s', hok⟩ := finish_total h.sound hr hnt
          (h.concluded i c _ _ _ hi hst) content error (env.clock 0)
        rw [hx] at hok
        cases hok
      · rename_i rec s' hx
        exact .committed i c _ _ _ _ rec hi hst hx rfl rfl
  · rename_i hst
    exact .left i c _ hi (hst ▸ .done) rfl rfl rfl
  · rename_i hst
    exact .woke i c _ hi (hst ▸ .done) rfl rfl rfl
  · rename_i hst
    exact .left i c _ hi (hst ▸ .failed) rfl rfl rfl
  · exact .quiet rfl rfl rfl

/-- Between two runs of `cancel_one`, and inside one of them, only the removal of a queued
run, the signal to a driver and the notification reach beyond the cancel itself. -/
theorem advanceCancel_effect {a : DaemonAction} {j : Nat} {c : Cancel}
    (hj : d.cancels[j]? = some c) (env : Env) : Effect d a (d.advanceCancel j c env) := by
  have hdispatch : ∀ run, Effect d a (d.dispatch j run) := by
    intro run
    unfold DaemonState.dispatch
    split <;> exact .quiet rfl rfl rfl
  unfold DaemonState.advanceCancel
  split
  · split <;> exact .quiet rfl rfl rfl
  · split
    · exact .quiet rfl rfl rfl
    · split
      · exact .quiet rfl rfl rfl
      · split
        · exact .quiet rfl rfl rfl
        · exact hdispatch _
  · rename_i run hst
    split
    · exact .quiet rfl rfl rfl
    · split
      · exact .quiet rfl rfl rfl
      · rename_i s' hx
        exact .removed j c run (env.clock 0) hj hst ⟨true, hx, rfl⟩ rfl rfl
      · rename_i s' hx
        exact .removed j c run (env.clock 0) hj hst ⟨false, hx, rfl⟩ rfl rfl
  · rename_i run hst
    split
    · rename_i i hl
      exact .signalled i j c run hj (.inl ⟨hst, hl⟩) rfl rfl rfl
    · exact .quiet rfl rfl rfl
  · exact .notified rfl rfl rfl
  · split
    · exact .quiet rfl rfl rfl
    · split
      · exact .quiet rfl rfl rfl
      · exact hdispatch _
  · split <;> exact .quiet rfl rfl rfl
  · rename_i run i hst
    exact .signalled i j c run hj (.inr hst) rfl rfl rfl
  · split
    · exact .quiet rfl rfl rfl
    · split
      · exact .quiet rfl rfl rfl
      · split <;> exact .quiet rfl rfl rfl
  · exact .quiet rfl rfl rfl

theorem newChat_effect {a : DaemonAction} (key : ActiveKey) (message : String)
    (mode : AdmissionMode) (route : Option RouteSnapshot) (now : Int) :
    Effect d a (d.newChat key message mode route now) := by
  unfold DaemonState.newChat
  split
  · split
    · exact .quiet rfl rfl rfl
    · rename_i admission store hx
      have hnext : store = d.store.next
          (.admitWithRoute key.sessionId key.requestId message mode route now) := by
        rw [RunStore.next_of_ok (r := .admission admission)]
        rw [RunStore.exec, hx]
        rfl
      refine .admitted _ (.admitWithRoute key.sessionId key.requestId message mode route now)
        (by rintro _ ⟨⟩) (fun _ e => e) rfl rfl hnext
        (RunStore.admitWithRoute_key hx) ?_ rfl rfl
      cases admission with
      | new run =>
        dsimp only [admissionStage]
        split
        · exact .inl rfl
        · exact .inr (.inl rfl)
      | existing run =>
        dsimp only [admissionStage]
        split
        · exact .inr (.inl rfl)
        · rename_i hne
          refine .inr (.inr ⟨rfl, run.status, ?_, hne⟩)
          rcases RunStore.admitWithRoute_spec hx with ⟨r, hr, -, -, e, -⟩ | ⟨_, e, -⟩
          · cases e
            have hfind : d.store.runs.find? r.id = some r := Table.find?_of_mem hr
            rw [status?_eq, RunStore.control_run?]
            exact congrArg (Option.map _ ∘ Option.map Run.view) hfind
          · cases e
  · exact .quiet rfl rfl rfl

/-- **Effects.** What each action does to the store, the active map and the chats. -/
theorem next_effect (h : Registry d) (a : DaemonAction) : Effect d a (d.next a) := by
  have hchat : ∀ i (f : Chat → DaemonState), (∀ c, d.chats[i]? = some c → Effect d a (f c)) →
      Effect d a (d.withChat i f) := by
    intro i f hf
    unfold DaemonState.withChat
    split
    · exact .quiet rfl rfl rfl
    · rename_i c hc
      exact hf c hc
  have hcancel : ∀ j (f : Cancel → DaemonState),
      (∀ c, d.cancels[j]? = some c → Effect d a (f c)) → Effect d a (d.withCancel j f) := by
    intro j f hf
    unfold DaemonState.withCancel
    split
    · exact .quiet rfl rfl rfl
    · rename_i c hc
      exact hf c hc
  cases a with
  | chat key message mode route now => exact newChat_effect key message mode route now
  | advance i env => exact hchat i _ fun c hc => advance_effect h hc env
  | engine i op =>
    refine hchat i _ fun c hc => ?_
    unfold DaemonState.engine
    split
    · rename_i hop
      exact .engine i c op hc hop.1 hop.2 rfl rfl rfl
    · exact .quiet rfl rfl rfl
  | storageError i message =>
    refine hchat i _ fun c hc => ?_
    unfold DaemonState.storageError
    split
    · rename_i hst
      exact .broken i c message hc hst rfl rfl rfl
    · exact .quiet rfl rfl rfl
  | expire i =>
    refine hchat i _ fun c hc => ?_
    split <;> exact .quiet rfl rfl rfl
  | cancel params => exact .quiet rfl rfl rfl
  | advanceCancel j env => exact hcancel j _ fun c hc => advanceCancel_effect hc env
  | abortCancel j =>
    refine hcancel j _ fun c hc => ?_
    simp only [DaemonState.abortCancel]
    split <;> exact .quiet rfl rfl rfl
  | spawnCheck request =>
    simp only [DaemonState.next, DaemonState.spawnCheck]
    split
    · exact .quiet rfl rfl rfl
    · split
      · exact .quiet rfl rfl rfl
      · split <;> exact .quiet rfl rfl rfl
  | spawnAdmit env =>
    simp only [DaemonState.next, DaemonState.spawnAdmit]
    split
    · rename_i request _
      split
      · exact .quiet rfl rfl rfl
      · exact .call (.admitDelegation request env.clock) (fun _ e => nomatch e) (fun _ e => e)
          rfl rfl rfl rfl rfl
    · exact .quiet rfl rfl rfl
  | answer id sessionId runId revision approved lost =>
    simp only [DaemonState.next, DaemonState.answer]
    split
    · exact .quiet rfl rfl rfl
    · split
      · exact .quiet rfl rfl rfl
      · rename_i rec store hx
        exact .call (.claimInteraction id sessionId runId revision approved)
          (fun _ e => nomatch e) (fun _ e => e) rfl rfl (next_claimInteraction hx).symm rfl rfl
  | resolveLost env =>
    simp only [DaemonState.next, DaemonState.resolveLost]
    split
    · rename_i runId hcontrol
      unfold DaemonState.finishIgnored
      split
      · exact .quiet rfl rfl rfl
      · rename_i hok
        exact .lost runId env rfl hcontrol (by simpa using hok) rfl rfl rfl
    · exact .quiet rfl rfl rfl
  | client op =>
    simp only [DaemonState.next]
    split
    · rename_i hop
      refine .call op ?_ ?_ ?_ ?_ rfl rfl rfl <;> cases op <;>
        simp_all [Op.isClient, Op.Ends, Op.starts, Op.approvalRun]
    · exact .quiet rfl rfl rfl

/-! ## The active map in every state -/

section Reshape

variable {d' : DaemonState} {a : DaemonAction}

/-- The chats of `d'` are those of `d`, each rewritten by `g`. -/
def Reshaped (g : Nat → Chat → Chat) (d d' : DaemonState) : Prop :=
  ∀ k, d'.chats[k]? = (d.chats[k]?).map (g k)

theorem reshaped_modify {i : Nat} {f : Chat → Chat} (h : d'.chats = d.chats.modify i f) :
    Reshaped (fun k c => if i = k then f c else c) d d' := by
  intro k
  rw [h, List.getElem?_modify]
  rfl

theorem reshaped_notify (h : d'.chats = d.notifyWaiters.chats) :
    Reshaped (fun _ c => if c.stage.listening then { c with notified := true } else c) d d' := by
  intro k
  rw [h, DaemonState.notifyWaiters, List.getElem?_map]

theorem reshaped_wake {i : Nat} {f : Chat → Chat}
    (h : d'.chats = d.notifyWaiters.chats.modify i f) :
    Reshaped (fun k c => if i = k then f (if c.stage.listening then { c with notified := true }
      else c) else if c.stage.listening then { c with notified := true } else c) d d' := by
  intro k
  rw [h, List.getElem?_modify, DaemonState.notifyWaiters, List.getElem?_map]
  cases d.chats[k]? <;> rfl

theorem Reshaped.of_some {g : Nat → Chat → Chat} (h : Reshaped g d d') {k : Nat} {c' : Chat}
    (hk : d'.chats[k]? = some c') : ∃ c, d.chats[k]? = some c ∧ g k c = c' := by
  rw [h k] at hk
  exact Option.map_eq_some_iff.mp hk

theorem Reshaped.some {g : Nat → Chat → Chat} (h : Reshaped g d d') {k : Nat} {c : Chat}
    (hk : d.chats[k]? = some c) : d'.chats[k]? = some (g k c) := by
  rw [h k, hk]
  rfl

/-- The store changes by calls that are not a restart. -/
theorem Effect.store (h : Effect d a d') : d'.store = d.store ∨
    ∃ op, (∀ clock, op ≠ .recover clock) ∧ d'.store = d.store.next op := by
  cases h with
  | quiet hs | turn _ _ _ _ _ hs | duplicate _ _ _ _ _ hs | register _ _ _ _ _ _ hs
  | arm _ _ _ _ hs | failed _ _ _ _ _ hs | left _ _ _ _ _ hs | woke _ _ _ _ _ hs
  | notified hs | broken _ _ _ _ _ hs | signalled _ _ _ _ _ _ hs => exact .inl hs
  | call op hop _ _ _ hs => exact .inr ⟨op, hop, hs⟩
  | engine _ _ op _ _ hop hs =>
    refine .inr ⟨op, ?_, hs⟩
    rintro clock rfl
    cases hop
  | removed j c run now _ _ hx =>
    obtain ⟨b, hx, -⟩ := hx
    exact .inr ⟨.removeQueued run.runId now, (fun _ e => nomatch e), (next_removeQueued hx).symm⟩
  | lost runId env _ _ _ hs =>
    refine .inr ⟨_, ?_, hs⟩
    exact fun _ e => nomatch e
  | admitted c op hop _ _ _ hs => exact .inr ⟨op, hop, hs⟩
  | started i c clock _ _ hx | refused i c clock _ _ hx =>
    exact .inr ⟨.tryStartQueued c.runId clock, (fun _ e => nomatch e),
      (next_tryStartQueued hx).symm⟩
  | aborted i c code message env _ _ _ hs =>
    split at hs
    · exact .inl hs
    · refine .inr ⟨_, ?_, hs⟩
      exact fun _ e => nomatch e
  | committed i c status content error now rec _ _ hx =>
    exact .inr ⟨.finish c.runId status content error now, (fun _ e => nomatch e),
      (next_finish hx).symm⟩

theorem Effect.key? (h : Effect d a d') {id : RunId} {k : ActiveKey}
    (hk : d.store.key? id = some k) : d'.store.key? id = some k := by
  rcases h.store with e | ⟨op, -, e⟩ <;> rw [e]
  · exact hk
  · exact RunStore.key?_next hk op

theorem Effect.dequeued (h : Effect d a d') {id : RunId} (hid : d.store.Dequeued id) :
    d'.store.Dequeued id := by
  rcases h.store with e | ⟨op, hop, e⟩ <;> rw [e]
  · exact hid
  · exact hid.next hop

theorem Effect.stored (h : Effect d a d') (hd : ∃ ops, d.store = storeAfter ops) :
    ∃ ops, d'.store = storeAfter ops := by
  obtain ⟨ops, e⟩ := hd
  rcases h.store with e' | ⟨op, -, e'⟩ <;> rw [e', e]
  · exact ⟨ops, rfl⟩
  · exact ⟨ops ++ [op], by rw [storeAfter_append]; rfl⟩

/-- A step that leaves every chat inside or outside the active map. -/
theorem Registry.reshaped {g : Nat → Chat → Chat} (h : Registry d) (he : Effect d a d')
    (hc : Reshaped g d d') (ha : d'.active = d.active)
    (hg : ∀ k c, d.chats[k]? = some c → (g k c).key = c.key ∧ (g k c).runId = c.runId ∧
      (g k c).stage.held = c.stage.held ∧ (∀ status content error,
        (g k c).stage = .committing status content error →
          c.stage = .committing status content error ∨ status.terminal = true)) :
    Registry d' where
  stored := he.stored h.stored
  known := by
    intro k c' hk
    obtain ⟨c, hc, rfl⟩ := hc.of_some hk
    obtain ⟨hkey, hrun, -⟩ := hg k c hc
    rw [hkey, hrun]
    exact he.key? (h.known k c hc)
  concluded := by
    intro k c' status content error hk hst
    obtain ⟨c, hc, rfl⟩ := hc.of_some hk
    rcases (hg k c hc).2.2.2 _ _ _ hst with hst | ht
    · exact h.concluded k c _ _ _ hc hst
    · exact ht
  nodup := ha ▸ h.nodup
  entry := by
    intro key k hm
    obtain ⟨c, hk, hkey, hheld⟩ := h.entry key k (ha ▸ hm)
    obtain ⟨hkey', -, hheld', -⟩ := hg k c hk
    exact ⟨_, hc.some hk, hkey'.trans hkey, hheld'.trans hheld⟩
  held := by
    intro k c' hk hheld
    obtain ⟨c, hc, rfl⟩ := hc.of_some hk
    obtain ⟨hkey, -, hheld', -⟩ := hg k c hc
    rw [ha, hkey]
    exact h.held k c hc (hheld' ▸ hheld)

/-- One chat that stays inside or outside the active map. -/
theorem Registry.modified {i : Nat} {c : Chat} {f : Chat → Chat} (h : Registry d)
    (he : Effect d a d') (hi : d.chats[i]? = some c) (ha : d'.active = d.active)
    (hc : d'.chats = d.chats.modify i f)
    (hf : (f c).key = c.key ∧ (f c).runId = c.runId ∧ (f c).stage.held = c.stage.held ∧
      ∀ status content error, (f c).stage = .committing status content error →
        c.stage = .committing status content error ∨ status.terminal = true) : Registry d' := by
  refine h.reshaped he (reshaped_modify hc) ha fun k c' hk => ?_
  split
  · rename_i e
    subst e
    cases hi.symm.trans hk
    exact hf
  · exact ⟨rfl, rfl, rfl, fun _ _ _ => .inl⟩

theorem Registry.unchanged (h : Registry d) (he : Effect d a d') (ha : d'.active = d.active)
    (hc : d'.chats = d.chats) : Registry d' :=
  h.reshaped (g := fun _ c => c) he (fun k => by rw [hc, Option.map_id']) ha
    fun _ _ _ => ⟨rfl, rfl, rfl, fun _ _ _ => .inl⟩

/-- Two registered chats of one request are one. -/
theorem Registry.index_unique (h : Registry d) {i j : Nat} {c c' : Chat}
    (hi : d.chats[i]? = some c) (hj : d.chats[j]? = some c') (hc : c.stage.held = true)
    (hc' : c'.stage.held = true) (hkey : c.key = c'.key) : i = j :=
  congrArg Prod.snd (List.inj_on_of_nodup_map h.nodup (h.held i c hi hc) (h.held j c' hj hc') hkey)

/-- Two registered chats of one run are one. -/
theorem Registry.run_unique (h : Registry d) {i j : Nat} {c c' : Chat}
    (hi : d.chats[i]? = some c) (hj : d.chats[j]? = some c') (hc : c.stage.held = true)
    (hc' : c'.stage.held = true) (hrun : c.runId = c'.runId) : i = j := by
  refine h.index_unique hi hj hc hc' ?_
  have hk := h.known i c hi
  rw [hrun, h.known j c' hj] at hk
  exact (Option.some.inj hk).symm

theorem Registry.lookup_eq_some (h : Registry d) {key : ActiveKey} {i : Nat}
    (hl : d.lookup key = some i) :
    ∃ c, d.chats[i]? = some c ∧ c.key = key ∧ c.stage.held = true := by
  obtain ⟨⟨k, j⟩, he, rfl⟩ := Option.map_eq_some_iff.mp hl
  have hk : k = key := by simpa using List.find?_some he
  exact hk ▸ h.entry k j (List.mem_of_find?_eq_some he)

theorem Registry.lookup_held (h : Registry d) {i : Nat} {c : Chat} (hi : d.chats[i]? = some c)
    (hc : c.stage.held = true) : d.lookup c.key = some i := by
  have hm := h.held i c hi hc
  cases hf : d.active.find? fun e => e.1 = c.key with
  | none =>
    rw [List.find?_eq_none] at hf
    exact absurd (decide_eq_true rfl) (hf _ hm)
  | some e =>
    have hk : e.1 = c.key := by simpa using List.find?_some hf
    have e' := List.inj_on_of_nodup_map h.nodup (List.mem_of_find?_eq_some hf) hm hk
    rw [DaemonState.lookup, hf, e']
    rfl

/-- A chat enters the active map under a request that is not in it. -/
theorem Registry.enter (h : Registry d) (he : Effect d a d') {i : Nat} {c : Chat}
    (hi : d.chats[i]? = some c) (hl : d.lookup c.key = none)
    (ha : d'.active = d.active ++ [(c.key, i)])
    (hc : d'.chats = d.chats.modify i ({ · with stage := .registered, cancelled := false })) :
    Registry d' where
  stored := he.stored h.stored
  known := by
    intro k c' hk
    obtain ⟨c₀, hc₀, rfl⟩ := (reshaped_modify hc).of_some hk
    have hkey := he.key? (h.known k c₀ hc₀)
    split <;> exact hkey
  concluded := by
    intro k c' status content error hk hst'
    obtain ⟨c₀, hc₀, rfl⟩ := (reshaped_modify hc).of_some hk
    split at hst'
    · cases hst'
    · exact h.concluded k c₀ _ _ _ hc₀ hst'
  nodup := by
    rw [ha, List.map_append]
    refine Journal.nodup_concat h.nodup fun hm => ?_
    obtain ⟨e, he, hk⟩ := List.mem_map.mp hm
    rw [DaemonState.lookup, Option.map_eq_none_iff, List.find?_eq_none] at hl
    exact hl e he (decide_eq_true hk)
  entry := by
    intro key k hm
    rw [ha] at hm
    rcases List.mem_append.mp hm with hm | hm
    · obtain ⟨c₀, hk, hkey, hheld⟩ := h.entry key k hm
      refine ⟨_, (reshaped_modify hc).some hk, ?_⟩
      split
      · exact ⟨hkey, rfl⟩
      · exact ⟨hkey, hheld⟩
    · cases List.mem_singleton.mp hm
      refine ⟨_, (reshaped_modify hc).some hi, ?_⟩
      rw [if_pos rfl]
      exact ⟨rfl, rfl⟩
  held := by
    intro k c' hk hheld
    obtain ⟨c₀, hc₀, rfl⟩ := (reshaped_modify hc).of_some hk
    rw [ha]
    by_cases e : i = k
    · subst e
      cases hi.symm.trans hc₀
      rw [if_pos rfl]
      exact List.mem_append_right _ (List.mem_singleton.mpr rfl)
    · rw [if_neg e] at hheld ⊢
      exact List.mem_append_left _ (h.held k c₀ hc₀ hheld)

/-- A chat takes its request out of the active map. -/
theorem Registry.leave (h : Registry d) (he : Effect d a d') {i : Nat} {c : Chat}
    {st : ChatStage} (hi : d.chats[i]? = some c) (hheld : c.stage.held = true)
    (hst : st.held = false) (ha : d'.active = d.active.filter fun e => e.1 ≠ c.key)
    (hc : d'.chats = d.chats.modify i ({ · with stage := st })) : Registry d' where
  stored := he.stored h.stored
  known := by
    intro k c' hk
    obtain ⟨c₀, hc₀, rfl⟩ := (reshaped_modify hc).of_some hk
    have hkey := he.key? (h.known k c₀ hc₀)
    split <;> exact hkey
  concluded := by
    intro k c' status content error hk hst'
    obtain ⟨c₀, hc₀, rfl⟩ := (reshaped_modify hc).of_some hk
    split at hst'
    · dsimp only at hst'
      rw [hst'] at hst
      cases hst
    · exact h.concluded k c₀ _ _ _ hc₀ hst'
  nodup := by
    rw [ha]
    exact h.nodup.sublist ((List.filter_sublist).map Prod.fst)
  entry := by
    intro key k hm
    rw [ha] at hm
    obtain ⟨hm, hne⟩ := List.mem_filter.mp hm
    obtain ⟨c₀, hk, hkey, hheld₀⟩ := h.entry key k hm
    refine ⟨_, (reshaped_modify hc).some hk, ?_⟩
    have hik : i ≠ k := by
      rintro rfl
      cases hi.symm.trans hk
      simp [hkey] at hne
    rw [if_neg hik]
    exact ⟨hkey, hheld₀⟩
  held := by
    intro k c' hk hheld'
    obtain ⟨c₀, hc₀, rfl⟩ := (reshaped_modify hc).of_some hk
    by_cases e : i = k
    · subst e
      rw [if_pos rfl] at hheld'
      cases hst.symm.trans hheld'
    · rw [if_neg e] at hheld' ⊢
      rw [ha]
      refine List.mem_filter.mpr ⟨h.held k c₀ hc₀ hheld', ?_⟩
      simp only [ne_eq, decide_not, Bool.not_eq_true', decide_eq_false_iff_not]
      exact fun hkey => e (h.index_unique hi hc₀ hheld hheld' hkey.symm)

/-- A new chat, outside the active map. -/
theorem Registry.append (h : Registry d) (he : Effect d a d') {c : Chat}
    (hkey : d'.store.key? c.runId = some c.key) (hst : c.stage.held = false)
    (ha : d'.active = d.active) (hc : d'.chats = d.chats ++ [c]) : Registry d' := by
  have hold : ∀ {k : Nat} {c₀ : Chat}, d.chats[k]? = some c₀ → d'.chats[k]? = some c₀ := by
    intro k c₀ hk
    rw [hc]
    exact Slots.append_of_some hk _
  have hcases : ∀ {k : Nat} {c' : Chat}, d'.chats[k]? = some c' →
      d.chats[k]? = some c' ∨ c' = c := by
    intro k c' hk
    rw [hc] at hk
    rcases Slots.of_concat hk with hk | ⟨-, e⟩
    · exact .inl hk
    · exact .inr e
  exact {
    stored := he.stored h.stored
    known := by
      intro k c' hk
      rcases hcases hk with hk | rfl
      · exact he.key? (h.known k c' hk)
      · exact hkey
    concluded := by
      intro k c' status content error hk hst'
      rcases hcases hk with hk | rfl
      · exact h.concluded k c' _ _ _ hk hst'
      · rw [hst'] at hst
        cases hst
    nodup := ha ▸ h.nodup
    entry := by
      intro key k hm
      obtain ⟨c₀, hk, hc₀⟩ := h.entry key k (ha ▸ hm)
      exact ⟨c₀, hold hk, hc₀⟩
    held := by
      intro k c' hk hheld
      rcases hcases hk with hk | rfl
      · exact ha ▸ h.held k c' hk hheld
      · cases hst.symm.trans hheld }

/-- Every action keeps the active map in step with the chats. -/
theorem Registry.step (h : Registry d) (he : Effect d a d') : Registry d' := by
  have he' := he
  cases he with
  | quiet hs ha hc => exact h.unchanged he' ha hc
  | call _ _ _ _ _ _ ha hc => exact h.unchanged he' ha hc
  | engine _ _ _ _ _ _ _ ha hc => exact h.unchanged he' ha hc
  | removed _ _ _ _ _ _ _ ha hc => exact h.unchanged he' ha hc
  | lost _ _ _ _ _ _ ha hc => exact h.unchanged he' ha hc
  | admitted c _ _ _ _ _ _ hkey hst ha hc =>
    refine h.append he' hkey ?_ ha hc
    rcases hst with e | e | ⟨e, -⟩ <;> rw [e] <;> rfl
  | turn i c st hi ht _ ha hc =>
    refine h.modified he' hi ha hc ⟨rfl, rfl, ht.held_eq, ?_⟩
    rintro status content error e
    dsimp only at e
    subst e
    cases hst : c.stage <;> rw [hst] at ht <;> cases ht
    exact .inr ‹_›
  | duplicate i c hi hst _ _ ha hc =>
    exact h.modified he' hi ha hc ⟨rfl, rfl, by rw [hst]; rfl, fun _ _ _ e => by cases e⟩
  | register i c hi _ _ hl _ ha hc => exact h.enter he' hi hl ha hc
  | arm i c hi hst _ ha hc =>
    exact h.modified he' hi ha hc ⟨rfl, rfl, by rw [hst]; rfl, fun _ _ _ e => by cases e⟩
  | failed i c hi hst _ _ ha hc =>
    refine h.modified he' hi ha hc ⟨rfl, rfl, ?_, fun _ _ _ e => by cases e⟩
    rcases hst with e | e | ⟨_, _, _, e⟩ <;> rw [e] <;> rfl
  | started i c _ hi hst _ ha hc =>
    exact h.modified he' hi ha hc ⟨rfl, rfl, by rw [hst]; rfl, fun _ _ _ e => by cases e⟩
  | refused i c _ hi hst _ ha hc =>
    exact h.modified he' hi ha hc ⟨rfl, rfl, by rw [hst]; rfl, fun _ _ _ e => by cases e⟩
  | aborted i c _ _ _ hi hst _ _ ha hc =>
    exact h.modified he' hi ha hc ⟨rfl, rfl, by rw [hst]; rfl, fun _ _ _ e => by cases e⟩
  | committed i c _ _ _ _ _ hi hst _ ha hc =>
    exact h.modified he' hi ha hc ⟨rfl, rfl, by rw [hst]; rfl, fun _ _ _ e => by cases e⟩
  | left i c st hi ht _ ha hc => exact h.leave he' hi ht.held.1 ht.held.2 ha hc
  | woke i c st hi ht hs ha hc =>
    refine h.reshaped he' (reshaped_wake hc) ha fun k c' hk => ?_
    have hstage : ∀ x : Chat,
        (if x.stage.listening then { x with notified := true } else x).stage = x.stage := by
      intro x
      split <;> rfl
    by_cases e : i = k
    · subst e
      cases hi.symm.trans hk
      rw [if_pos rfl]
      refine ⟨by split <;> rfl, by split <;> rfl, ?_, fun _ _ _ e => ?_⟩
      · cases hst : c.stage <;> rw [hst] at ht <;> cases ht <;> rfl
      · dsimp only at e
        subst e
        cases hst : c.stage <;> rw [hst] at ht <;> cases ht
    · rw [if_neg e]
      exact ⟨by split <;> rfl, by split <;> rfl, by rw [hstage], fun _ _ _ e => by
        rw [hstage] at e
        exact .inl e⟩
  | notified hs ha hc =>
    refine h.reshaped he' (reshaped_notify hc) ha fun k c' hk => ?_
    split <;> exact ⟨rfl, rfl, rfl, fun _ _ _ => .inl⟩
  | broken i c _ hi _ _ ha hc =>
    exact h.modified he' hi ha hc ⟨rfl, rfl, rfl, fun _ _ _ => .inl⟩
  | signalled i j c run hj hst hs ha hc =>
    refine h.reshaped he' (reshaped_modify hc) ha fun k c' hk => ?_
    split <;> exact ⟨rfl, rfl, rfl, fun _ _ _ => .inl⟩

/-- Chats stay where they are, with their run. -/
theorem Effect.chat (h : Effect d a d') {k : Nat} {c : Chat} (hk : d.chats[k]? = some c) :
    ∃ c', d'.chats[k]? = some c' ∧ c'.key = c.key ∧ c'.runId = c.runId := by
  have hmodify : ∀ {i : Nat} {f : Chat → Chat}, d'.chats = d.chats.modify i f →
      (∀ c, (f c).key = c.key ∧ (f c).runId = c.runId) →
        ∃ c', d'.chats[k]? = some c' ∧ c'.key = c.key ∧ c'.runId = c.runId := by
    intro i f hc hf
    refine ⟨_, (reshaped_modify hc).some hk, ?_⟩
    split
    · exact hf c
    · exact ⟨rfl, rfl⟩
  cases h with
  | quiet _ _ hc | call _ _ _ _ _ _ _ hc | engine _ _ _ _ _ _ _ _ hc
  | removed _ _ _ _ _ _ _ _ hc | lost _ _ _ _ _ _ _ hc => exact ⟨c, hc ▸ hk, rfl, rfl⟩
  | admitted c₀ _ _ _ _ _ _ _ _ _ hc =>
    refine ⟨c, ?_, rfl, rfl⟩
    rw [hc]
    exact Slots.append_of_some hk _
  | turn _ _ _ _ _ _ _ hc | duplicate _ _ _ _ _ _ _ hc | register _ _ _ _ _ _ _ _ hc
  | arm _ _ _ _ _ _ hc | failed _ _ _ _ _ _ _ hc | started _ _ _ _ _ _ _ hc
  | refused _ _ _ _ _ _ _ hc | aborted _ _ _ _ _ _ _ _ _ _ hc
  | committed _ _ _ _ _ _ _ _ _ _ _ hc | left _ _ _ _ _ _ _ hc
  | broken _ _ _ _ _ _ _ hc | signalled _ _ _ _ _ _ _ _ hc =>
    exact hmodify hc fun _ => ⟨rfl, rfl⟩
  | woke i c₀ st _ _ _ _ hc =>
    refine ⟨_, (reshaped_wake hc).some hk, ?_⟩
    split <;> split <;> exact ⟨rfl, rfl⟩
  | notified _ _ hc =>
    refine ⟨_, (reshaped_notify hc).some hk, ?_⟩
    split <;> exact ⟨rfl, rfl⟩

end Reshape

/-! ## What a cancel knows of its run -/

/-- The run that a `cancel_one` has read. -/
def CancelStage.run? : CancelStage → Option RunRecord
  | .removing run | .announcing run | .waking run | .rereading run | .marking run
  | .signalling run _ => some run
  | _ => none

/-- The run has been seen out of the queue. -/
def CancelStage.taken : CancelStage → Bool
  | .announcing _ | .waking _ | .marking _ | .signalling _ _ => true
  | _ => false

/-- The control lock is held. -/
def CancelStage.locks : CancelStage → Bool
  | .locking | .listing | .returned _ => false
  | _ => true

/-- What the `cancel` at `j` knows. -/
structure Hunting (d : DaemonState) (j : Nat) (c : Cancel) : Prop where
  known : ∀ run, c.stage.run? = some run → d.store.key? run.runId = some run.key
  taken : ∀ run, c.stage.run? = some run → c.stage.taken = true → d.store.Dequeued run.runId
  token : ∀ run i, c.stage = .signalling run i →
    ∃ chat, d.chats[i]? = some chat ∧ chat.runId = run.runId
  locked : c.stage.locks = true → d.control = some (.cancel j)

def Hunted (d : DaemonState) : Prop := ∀ (j : Nat) c, d.cancels[j]? = some c → Hunting d j c

section Hunt

variable {d' : DaemonState} {a : DaemonAction} {j : Nat} {c : Cancel}

theorem Hunting.step (h : Hunting d j c) (he : Effect d a d')
    (hlock : c.stage.locks = true → d.control = some (.cancel j) →
      d'.control = some (.cancel j)) : Hunting d' j c where
  known run hrun := he.key? (h.known run hrun)
  taken run hrun ht := he.dequeued (h.taken run hrun ht)
  token run i hst := by
    obtain ⟨chat, hi, hrun⟩ := h.token run i hst
    obtain ⟨chat', hi', -, hrun'⟩ := he.chat hi
    exact ⟨chat', hi', hrun'.trans hrun⟩
  locked hl := hlock hl (h.locked hl)

/-- A cancel that has read no run. -/
theorem Hunting.unread (hrun : c.stage.run? = none)
    (hlocked : c.stage.locks = true → d.control = some (.cancel j)) : Hunting d j c where
  known run h := by
    rw [hrun] at h
    cases h
  taken run h := by
    rw [hrun] at h
    cases h
  token run i h := by
    rw [h] at hrun
    cases hrun
  locked := hlocked

/-- A cancel that has read no run and holds no lock. -/
theorem Hunting.free (hrun : c.stage.run? = none) (hl : c.stage.locks = false) : Hunting d j c := by
  refine .unread hrun fun h => ?_
  rw [h] at hl
  cases hl

/-- A step that leaves the cancels and their lock alone. -/
theorem Hunted.same (h : Hunted d) (he : Effect d a d') (hc : d'.cancels = d.cancels)
    (hcontrol : ∀ j, d.control = some (.cancel j) → d'.control = some (.cancel j)) :
    Hunted d' := fun j c hj => (h j c (hc ▸ hj)).step he fun _ => hcontrol j

/-- A step of one cancel. -/
theorem Hunted.edited {f : Cancel → Cancel} (h : Hunted d) (he : Effect d a d')
    (hj : d.cancels[j]? = some c) (hc : d'.cancels = d.cancels.modify j f)
    (hcontrol : ∀ k, k ≠ j → d.control = some (.cancel k) → d'.control = some (.cancel k))
    (hf : Hunting d' j (f c)) : Hunted d' := by
  intro k c' hk
  rw [hc] at hk
  obtain ⟨c₀, hk₀, rfl⟩ := Slots.of_modify hk
  by_cases hkj : k = j
  · subst hkj
    cases hj.symm.trans hk₀
    rw [if_pos rfl]
    exact hf
  · rw [if_neg hkj]
    exact (h k c₀ hk₀).step he fun _ => hcontrol k hkj

theorem Hunted.opened (h : Hunted d) (he : Effect d a d') (params : CancelParams)
    (timer : Option Nat) (hc : d'.cancels = d.cancels ++ [⟨params, .locking, none, [], timer⟩])
    (hcontrol : d'.control = d.control) : Hunted d' := by
  intro k c' hk
  rw [hc] at hk
  rcases Slots.of_concat hk with hk | ⟨-, rfl⟩
  · exact (h k c' hk).step he fun _ => by rw [hcontrol]; exact id
  · exact .free rfl rfl

theorem Cancel.proceed_free (c : Cancel) :
    c.proceed.stage.run? = none ∧ c.proceed.stage.locks = false := by
  unfold Cancel.proceed
  split <;> exact ⟨rfl, rfl⟩

theorem Cancel.close_free (c : Cancel) (result : CancelResult) :
    (c.close result).stage.run? = none ∧ (c.close result).stage.locks = false := by
  unfold Cancel.close
  split
  · exact c.proceed_free
  · exact ⟨rfl, rfl⟩
  · exact ⟨rfl, rfl⟩

theorem CancelParams.find_spec {p : CancelParams} {s : RunStore} {run : RunRecord}
    (h : p.find s = .ok run) : ∃ r, s.runs.find? r.id = some r ∧ r.record = run := by
  have hread : ∀ {id : RunId}, s.readRun id = some run →
      ∃ r, s.runs.find? r.id = some r ∧ r.record = run := by
    intro id h
    obtain ⟨r, hr, e⟩ := RunStore.readRun_eq_some h
    have hid : r.id = id := Table.key_of_find? hr
    exact ⟨r, hid ▸ hr, e⟩
  unfold CancelParams.find at h
  split at h
  · split at h
    · cases h
    · split at h
      · cases h
      · rename_i run' hrun
        split at h
        · cases h
        · cases h
          exact hread hrun
  · split at h
    · cases h
    · cases h
    · rename_i run' hrun
      cases h
      cases hs : p.sessionId with
      | some sessionId =>
        rw [hs] at hrun
        simp only [Option.elim_some, Except.ok.injEq, RunStore.findRequest,
          Option.map_eq_some_iff] at hrun
        obtain ⟨r, hr, e⟩ := hrun
        exact ⟨r, Table.find?_of_mem (List.mem_of_find?_eq_some hr), e⟩
      | none =>
        rw [hs] at hrun
        simp only [Option.elim_none, RunStore.findRequestUnique] at hrun
        split at hrun
        · cases hrun
        · rename_i r hr
          cases hrun
          have hm : r ∈ s.runs.rows := (List.mem_filter.mp (hr ▸ List.mem_singleton.mpr rfl)).1
          exact ⟨r, Table.find?_of_mem hm, rfl⟩
        · cases hrun
  · cases h

/-- What the end of a `cancel_one` leaves. -/
theorem Hunted.closed {store : RunStore} {chats : List Chat} {result : CancelResult}
    (h : Hunted d) (hj : d.cancels[j]? = some c) (hl : c.stage.locks = true)
    (he : Effect d a ({ d with store, chats }.closeCancel j result)) :
    Hunted ({ d with store, chats }.closeCancel j result) := by
  refine h.edited he hj rfl (fun k hk hcontrol => ?_)
    (.free (c.close_free result).1 (c.close_free result).2)
  cases ((h j c hj).locked hl).symm.trans hcontrol
  exact absurd rfl hk

/-- A `cancel_one` goes on, with the lock it has. -/
theorem Hunted.proceeded {store : RunStore} {chats : List Chat} {st : CancelStage}
    (h : Hunted d) (hj : d.cancels[j]? = some c) (hl : c.stage.locks = true)
    (he : Effect d a ({ d with store, chats }.setCancel j st))
    (hknown : ∀ run, st.run? = some run → store.key? run.runId = some run.key)
    (htaken : ∀ run, st.run? = some run → st.taken = true → store.Dequeued run.runId)
    (htoken : ∀ run i, st = .signalling run i →
      ∃ chat, chats[i]? = some chat ∧ chat.runId = run.runId) :
    Hunted ({ d with store, chats }.setCancel j st) :=
  h.edited he hj rfl (fun _ _ => id) ⟨hknown, htaken, htoken, fun _ => (h j c hj).locked hl⟩

theorem key?_of_record {s : RunStore} {r : Run} (hr : s.runs.find? r.id = some r) :
    s.key? r.record.runId = some r.record.key := by
  have hid : r.record.runId = r.id := rfl
  rw [RunStore.key?, hid, hr]
  rfl

theorem status?_of_record {s : RunStore} {r : Run} (hr : s.runs.find? r.id = some r) :
    s.status? r.record.runId = some r.record.status := by
  have hid : r.record.runId = r.id := rfl
  rw [status?_eq, RunStore.control_run?, hid, hr]
  rfl

/-- `dispatch` goes on to the driver of a run that is going. -/
theorem Hunted.dispatched {r : Run} (h : Hunted d) (hj : d.cancels[j]? = some c)
    (hl : c.stage.locks = true) (hr : d.store.runs.find? r.id = some r)
    (he : Effect d a (d.dispatch j r.record)) : Hunted (d.dispatch j r.record) := by
  revert he
  unfold DaemonState.dispatch
  split
  · rename_i hactive
    intro he
    refine h.proceeded hj hl he ?_ ?_ ?_
    · rintro _ ⟨⟩
      exact key?_of_record hr
    · rintro _ ⟨⟩ -
      exact RunStore.Going.dequeued ⟨_, status?_of_record hr, hactive⟩
    · rintro _ _ ⟨⟩
  · exact fun he => h.closed hj hl he

theorem Hunted.advance (h : Hunted d) (hj : d.cancels[j]? = some c) (env : Env)
    (he : Effect d a (d.advanceCancel j c env)) : Hunted (d.advanceCancel j c env) := by
  have hc := h j c hj
  revert he
  unfold DaemonState.advanceCancel
  split
  · split
    · rename_i hnone
      intro he
      refine h.edited he hj rfl (fun k _ hcontrol => ?_) (.unread rfl fun _ => rfl)
      rw [hcontrol] at hnone
      cases hnone
    · exact fun _ => h
  · rename_i hst
    have hl : c.stage.locks = true := by rw [hst]; rfl
    split
    · exact fun he => h.closed hj hl he
    · split
      · exact fun he => h.closed hj hl he
      · rename_i run hfind
        obtain ⟨r, hr, rfl⟩ := CancelParams.find_spec hfind
        split
        · refine fun he => h.proceeded hj hl he ?_ ?_ ?_
          · rintro _ ⟨⟩
            exact key?_of_record hr
          · rintro _ ⟨⟩ ⟨⟩
          · rintro _ _ ⟨⟩
        · exact fun he => h.dispatched hj hl hr he
  · rename_i run hst
    have hl : c.stage.locks = true := by rw [hst]; rfl
    have hknown := hc.known run (by rw [hst]; rfl)
    split
    · exact fun he => h.closed hj hl he
    · split
      · exact fun he => h.closed hj hl he
      · rename_i s' hx
        intro he
        refine h.proceeded hj hl he ?_ ?_ ?_
        · rintro _ ⟨⟩
          exact he.key? hknown
        · rintro _ ⟨⟩ -
          exact (removeQueued_ended hx).dequeued
        · rintro _ _ ⟨⟩
      · intro he
        refine h.proceeded hj hl he ?_ ?_ ?_
        · rintro _ ⟨⟩
          exact he.key? hknown
        · rintro _ ⟨⟩ ⟨⟩
        · rintro _ _ ⟨⟩
  · rename_i run hst
    have hl : c.stage.locks = true := by rw [hst]; rfl
    have hknown := hc.known run (by rw [hst]; rfl)
    have htaken := hc.taken run (by rw [hst]; rfl) (by rw [hst]; rfl)
    split
    · refine fun he => h.proceeded hj hl he ?_ ?_ ?_
      · rintro _ ⟨⟩
        exact hknown
      · rintro _ ⟨⟩ -
        exact htaken
      · rintro _ _ ⟨⟩
    · refine fun he => h.proceeded hj hl he ?_ ?_ ?_
      · rintro _ ⟨⟩
        exact hknown
      · rintro _ ⟨⟩ -
        exact htaken
      · rintro _ _ ⟨⟩
  · rename_i run hst
    exact fun he => h.closed hj (by rw [hst]; rfl) he
  · rename_i run hst
    have hl : c.stage.locks = true := by rw [hst]; rfl
    split
    · exact fun he => h.closed hj hl he
    · split
      · exact fun he => h.closed hj hl he
      · rename_i run' hread
        obtain ⟨r, hr, rfl⟩ := RunStore.readRun_eq_some hread
        have hid : r.id = run.runId := Table.key_of_find? hr
        exact fun he => h.dispatched hj hl (hid ▸ hr) he
  · rename_i run hst
    have hl : c.stage.locks = true := by rw [hst]; rfl
    split
    · rename_i i htoken
      refine fun he => h.proceeded hj hl he ?_ ?_ ?_
      · rintro _ ⟨⟩
        exact hc.known run (by rw [hst]; rfl)
      · rintro _ ⟨⟩ -
        exact hc.taken run (by rw [hst]; rfl) (by rw [hst]; rfl)
      · rintro _ _ ⟨⟩
        obtain ⟨-, hany⟩ := Option.filter_eq_some_iff.mp htoken
        cases hchat : d.chats[i]? with
        | none =>
          rw [hchat] at hany
          cases hany
        | some chat => exact ⟨chat, rfl, by simpa [hchat] using hany⟩
    · exact fun he => h.closed hj hl he
  · rename_i run i hst
    exact fun he => h.closed hj (by rw [hst]; rfl) he
  · rename_i hst
    split
    · exact fun _ => h
    · split
      · exact fun he => h.edited he hj rfl (fun _ _ => id) (.free rfl rfl)
      · split
        · exact fun he => h.edited he hj rfl (fun _ _ => id) (.free rfl rfl)
        · exact fun he => h.edited he hj rfl (fun _ _ => id)
            (.free (Cancel.proceed_free _).1 (Cancel.proceed_free _).2)
  · exact fun _ => h

/-- The stretch of a chat leaves the cancels and the control lock alone. -/
theorem advance_frame (d : DaemonState) (i : Nat) (chat : Chat) (env : Env) :
    (d.advance i chat env).cancels = d.cancels ∧ (d.advance i chat env).control = d.control := by
  have hignored : ∀ id status code message,
      (d.finishIgnored id status code message env).cancels = d.cancels ∧
        (d.finishIgnored id status code message env).control = d.control := by
    intro id status code message
    unfold DaemonState.finishIgnored
    split <;> exact ⟨rfl, rfl⟩
  unfold DaemonState.advance
  split
  case h_2 => unfold DaemonState.register; split <;> exact ⟨rfl, rfl⟩
  case h_6 =>
    unfold DaemonState.tryStart
    split
    · exact ⟨rfl, rfl⟩
    · split <;> exact ⟨rfl, rfl⟩
  case h_7 => split <;> exact ⟨rfl, rfl⟩
  case h_10 => unfold DaemonState.takeRoute; split <;> exact ⟨rfl, rfl⟩
  case h_11 =>
    unfold DaemonState.restoreRoute
    split
    · exact ⟨rfl, rfl⟩
    · split
      · exact ⟨rfl, rfl⟩
      · split <;> exact ⟨rfl, rfl⟩
  case h_12 => unfold DaemonState.restrict; split <;> exact ⟨rfl, rfl⟩
  case h_13 => exact hignored _ _ _ _
  case h_15 =>
    unfold DaemonState.commit
    split
    · exact ⟨rfl, rfl⟩
    · split <;> exact ⟨rfl, rfl⟩
  all_goals exact ⟨rfl, rfl⟩

/-- Which actions touch the cancels, and how. -/
theorem next_cancels (d : DaemonState) (a : DaemonAction) :
    (d.next a).cancels = d.cancels ∨
    (∃ params timer, (d.next a).cancels = d.cancels ++ [⟨params, .locking, none, [], timer⟩]) ∨
    (∃ j env c, a = .advanceCancel j env ∧ d.cancels[j]? = some c ∧
      d.next a = d.advanceCancel j c env) ∨
    ∃ j c, a = .abortCancel j ∧ d.cancels[j]? = some c ∧ d.next a = d.abortCancel j c := by
  cases a with
  | chat key message mode route now =>
    simp only [DaemonState.next, DaemonState.newChat]
    split
    · split <;> exact .inl rfl
    · exact .inl rfl
  | advance i env =>
    simp only [DaemonState.next, DaemonState.withChat]
    split
    · exact .inl rfl
    · exact .inl (advance_frame d i _ env).1
  | engine i op =>
    simp only [DaemonState.next, DaemonState.withChat, DaemonState.engine]
    split
    · exact .inl rfl
    · split <;> exact .inl rfl
  | storageError i message =>
    simp only [DaemonState.next, DaemonState.withChat, DaemonState.storageError]
    split
    · exact .inl rfl
    · split <;> exact .inl rfl
  | expire i =>
    simp only [DaemonState.next, DaemonState.withChat]
    split
    · exact .inl rfl
    · split
      · exact .inr (.inl ⟨_, _, rfl⟩)
      · exact .inl rfl
  | cancel params => exact .inr (.inl ⟨params, none, rfl⟩)
  | advanceCancel j env =>
    cases hj : d.cancels[j]? with
    | none => exact .inl (by simp only [DaemonState.next, DaemonState.withCancel, hj])
    | some c =>
      refine .inr (.inr (.inl ⟨j, env, c, rfl, hj, ?_⟩))
      simp only [DaemonState.next, DaemonState.withCancel, hj]
  | abortCancel j =>
    cases hj : d.cancels[j]? with
    | none => exact .inl (by simp only [DaemonState.next, DaemonState.withCancel, hj])
    | some c =>
      refine .inr (.inr (.inr ⟨j, c, rfl, hj, ?_⟩))
      simp only [DaemonState.next, DaemonState.withCancel, hj]
  | spawnCheck request =>
    simp only [DaemonState.next, DaemonState.spawnCheck]
    split
    · exact .inl rfl
    · split
      · exact .inl rfl
      · split <;> exact .inl rfl
  | spawnAdmit env =>
    simp only [DaemonState.next, DaemonState.spawnAdmit]
    split <;> exact .inl rfl
  | answer id sessionId runId revision approved lost =>
    simp only [DaemonState.next, DaemonState.answer]
    split
    · exact .inl rfl
    · split <;> exact .inl rfl
  | resolveLost env =>
    simp only [DaemonState.next, DaemonState.resolveLost, DaemonState.finishIgnored]
    split
    · split <;> exact .inl rfl
    · exact .inl rfl
  | client op =>
    simp only [DaemonState.next]
    split <;> exact .inl rfl

/-- A stretch of one cancel leaves the others alone. -/
theorem advanceCancel_frame (d : DaemonState) (j : Nat) (c : Cancel) (env : Env) :
    ∃ f, (d.advanceCancel j c env).cancels = d.cancels.modify j f := by
  have hid : ∃ f, d.cancels = d.cancels.modify j f := ⟨id, (List.modify_id j d.cancels).symm⟩
  have hdispatch : ∀ run, ∃ f, (d.dispatch j run).cancels = d.cancels.modify j f := by
    intro run
    unfold DaemonState.dispatch
    split <;> exact ⟨_, rfl⟩
  unfold DaemonState.advanceCancel
  split
  · split
    · exact ⟨_, rfl⟩
    · exact hid
  · split
    · exact ⟨_, rfl⟩
    · split
      · exact ⟨_, rfl⟩
      · split
        · exact ⟨_, rfl⟩
        · exact hdispatch _
  · split
    · exact ⟨_, rfl⟩
    · split <;> exact ⟨_, rfl⟩
  · split <;> exact ⟨_, rfl⟩
  · exact ⟨_, rfl⟩
  · split
    · exact ⟨_, rfl⟩
    · split
      · exact ⟨_, rfl⟩
      · exact hdispatch _
  · split <;> exact ⟨_, rfl⟩
  · exact ⟨_, rfl⟩
  · split
    · exact hid
    · split
      · exact ⟨_, rfl⟩
      · split <;> exact ⟨_, rfl⟩
  · exact hid

/-- What an action does to one cancel. -/
theorem cancel_next {j : Nat} {c : Cancel} (hj : d.cancels[j]? = some c) (a : DaemonAction) :
    (d.next a).cancels[j]? = some c ∨
    (∃ env, a = .advanceCancel j env ∧ d.next a = d.advanceCancel j c env) ∨
    a = .abortCancel j ∧ d.next a = d.abortCancel j c := by
  have hother : ∀ {k : Nat} {f : Cancel → Cancel},
      (d.next a).cancels = d.cancels.modify k f → k ≠ j → (d.next a).cancels[j]? = some c :=
    fun e hne => by simp [e, hj, hne]
  rcases next_cancels d a with e | ⟨params, timer, e⟩ | ⟨k, env, c₀, rfl, hk, e⟩ |
    ⟨k, c₀, rfl, hk, e⟩
  · exact .inl (e ▸ hj)
  · rw [e]
    exact .inl (Slots.append_of_some hj _)
  · by_cases hkj : k = j
    · subst hkj
      cases hk.symm.trans hj
      exact .inr (.inl ⟨env, rfl, e⟩)
    · obtain ⟨f, hf⟩ := advanceCancel_frame d k c₀ env
      exact .inl (hother (e ▸ hf) hkj)
  · by_cases hkj : k = j
    · subst hkj
      cases hk.symm.trans hj
      exact .inr (.inr ⟨rfl, e⟩)
    · obtain ⟨f, hf⟩ : ∃ f, (d.abortCancel k c₀).cancels = d.cancels.modify k f := by
        simp only [DaemonState.abortCancel]
        split
        · exact ⟨_, rfl⟩
        · exact ⟨id, (List.modify_id k d.cancels).symm⟩
      exact .inl (hother (e ▸ hf) hkj)

/-- The timer `j` is aborted after it took its run out of the queue and before it says so. -/
def DaemonAction.Mutes (a : DaemonAction) (d : DaemonState) (j : Nat) : Prop :=
  a = .abortCancel j ∧ ∃ (c : Cancel) (run : RunRecord) (i : Nat) (chat : Chat),
    d.cancels[j]? = some c ∧ c.stage = .announcing run ∧ c.timer = some i ∧
      d.chats[i]? = some chat ∧ chat.stage = .returned

/-- A cancel is only stopped where its timer goes with its chat. -/
theorem abortCancel_eq {j : Nat} {c : Cancel} {run : RunRecord} (hj : d.cancels[j]? = some c)
    (hst : c.stage = .announcing run) :
    d.abortCancel j c = d ∨ (DaemonAction.abortCancel j).Mutes d j := by
  by_cases hgone : (c.timer.any fun i =>
      (d.chats[i]?).any fun chat => chat.stage = .returned) && c.stage.abortable
  · simp only [Bool.and_eq_true, Option.any_eq_true, decide_eq_true_eq] at hgone
    obtain ⟨⟨i, hi, chat, hchat, hgone⟩, -⟩ := hgone
    exact .inr ⟨rfl, c, run, i, chat, hj, hst, hi, hchat, hgone⟩
  · exact .inl (if_neg hgone)

/-- Every action keeps what the cancels know. -/
theorem Hunted.step (h : Hunted d) (hr : Registry d) (a : DaemonAction) : Hunted (d.next a) := by
  have he := next_effect hr a
  have hsame : ∀ d', Effect d a d' → d'.cancels = d.cancels ∧ d'.control = d.control →
      Hunted d' := fun d' he hf => h.same he hf.1 fun j hj => hf.2.trans hj
  cases a with
  | chat key message mode route now =>
    refine hsame _ he ?_
    simp only [DaemonState.next, DaemonState.newChat]
    split
    · split <;> exact ⟨rfl, rfl⟩
    · exact ⟨rfl, rfl⟩
  | advance i env =>
    refine hsame _ he ?_
    simp only [DaemonState.next, DaemonState.withChat]
    split
    · exact ⟨rfl, rfl⟩
    · exact advance_frame d i _ env
  | engine i op =>
    refine hsame _ he ?_
    simp only [DaemonState.next, DaemonState.withChat, DaemonState.engine]
    split
    · exact ⟨rfl, rfl⟩
    · split <;> exact ⟨rfl, rfl⟩
  | storageError i message =>
    refine hsame _ he ?_
    simp only [DaemonState.next, DaemonState.withChat, DaemonState.storageError]
    split
    · exact ⟨rfl, rfl⟩
    · split <;> exact ⟨rfl, rfl⟩
  | expire i =>
    revert he
    simp only [DaemonState.next, DaemonState.withChat]
    split
    · exact fun _ => h
    · split
      · exact fun he => h.opened he _ _ rfl rfl
      · exact fun _ => h
  | cancel params => exact h.opened he _ _ rfl rfl
  | advanceCancel j env =>
    revert he
    simp only [DaemonState.next, DaemonState.withCancel]
    split
    · exact fun _ => h
    · rename_i c hc
      exact fun he => h.advance hc env he
  | abortCancel j =>
    revert he
    simp only [DaemonState.next, DaemonState.withCancel]
    split
    · exact fun _ => h
    · rename_i c hc
      simp only [DaemonState.abortCancel]
      split
      · refine fun he => h.edited he hc rfl (fun k hk hcontrol => ?_) (.free rfl rfl)
        have hne : d.control ≠ some (Holder.cancel j) := by
          rw [hcontrol]
          rintro ⟨⟩
          exact hk rfl
        exact (if_neg hne).trans hcontrol
      · exact fun _ => h
  | spawnCheck request =>
    revert he
    simp only [DaemonState.next, DaemonState.spawnCheck]
    split
    · exact fun _ => h
    · split
      · exact fun _ => h
      · rename_i hfree
        simp only [Bool.or_eq_true, not_or, Bool.not_eq_true, Option.isSome_eq_false_iff,
          Option.isNone_iff_eq_none] at hfree
        split
        · refine fun he => h.same he rfl fun j hj => ?_
          rw [hfree.2] at hj
          cases hj
        · exact fun _ => h
  | spawnAdmit env =>
    revert he
    simp only [DaemonState.next, DaemonState.spawnAdmit]
    split
    · rename_i request hcontrol
      refine fun he => h.same he rfl fun j hj => ?_
      rw [hcontrol] at hj
      cases hj
    · exact fun _ => h
  | answer id sessionId runId revision approved lost =>
    revert he
    simp only [DaemonState.next, DaemonState.answer]
    split
    · exact fun _ => h
    · rename_i hfree
      split
      · exact fun _ => h
      · refine fun he => h.same he rfl fun j hj => ?_
        rw [hj] at hfree
        simp at hfree
  | resolveLost env =>
    revert he
    simp only [DaemonState.next, DaemonState.resolveLost]
    split
    · rename_i runId hcontrol
      have hcancels : ∀ status code message,
          (d.finishIgnored runId status code message env).cancels = d.cancels := by
        intro status code message
        unfold DaemonState.finishIgnored
        split <;> rfl
      refine fun he => h.same he (hcancels _ _ _) fun j hj => ?_
      rw [hcontrol] at hj
      cases hj
    · exact fun _ => h
  | client op =>
    refine hsame _ he ?_
    simp only [DaemonState.next]
    split <;> exact ⟨rfl, rfl⟩

end Hunt

/-! ## Every state of a run -/

/-- The daemon starts with no task and no run under way. -/
structure Booted (d : DaemonState) : Prop where
  stored : ∃ ops, d.store = storeAfter ops
  active : d.active = []
  chats : d.chats = []
  cancels : d.cancels = []
  control : d.control = none
  idle : ∀ id, ¬ d.store.Going id

theorem booted {ops : List Op} {clock : Clock} {d : DaemonState}
    (h : DaemonState.boot (storeAfter ops) clock = .ok d) : Booted d := by
  obtain ⟨⟨n, store⟩, hx, h⟩ := Fallible.bind_eq_ok.mp h
  rw [Fallible.pure_eq_ok] at h
  have hidle := not_going_of_recover hx
  subst h
  exact ⟨⟨_, storeAfter_recover hx⟩, rfl, rfl, rfl, rfl, hidle⟩

theorem Booted.registry {d : DaemonState} (h : Booted d) : Registry d where
  stored := h.stored
  known i c hi := by
    rw [h.chats] at hi
    cases hi
  concluded i c status content error hi := by
    rw [h.chats] at hi
    cases hi
  nodup := by
    rw [h.active]
    exact List.nodup_nil
  entry k i hm := by
    rw [h.active] at hm
    cases hm
  held i c hi := by
    rw [h.chats] at hi
    cases hi

theorem Booted.hunted {d : DaemonState} (h : Booted d) : Hunted d := by
  intro j c hj
  rw [h.cancels] at hj
  cases hj

end AgentDaemon.Daemon
