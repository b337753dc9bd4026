import AgentDaemon.Daemon.Requesters

/-!
What one step can do: to the drivers and their requests (`next_move`), to the broker (`next_touch`),
to the store (`next_writes`), and to the calls of `resolve_interaction` and `control_lock`
(`resolve_next`, `Held.next`).
-/

namespace AgentDaemon.Daemon.Resolving

open Storage Transition Broker

/-! ## One step -/

section Step

variable {b : Broker} {d : ResolveState} {k : Nat} {r r' : Request} {a : Action}

theorem turning_requestStep {st : Stage} (h : requestStep k st = some a) : turning a = some k := by
  cases st <;> cases h <;> rfl

/-- A request that takes a step on its own still receives afterwards, unless it has returned. -/
theorem requestStep_stage (hr : b.requests[k]? = some r) (ha : requestStep k r.stage = some a)
    (hr' : (b.next a).requests[k]? = some r') (hd : done r'.stage = false) :
    r'.stage.receiving = true ∧ (sendsFrame r.stage = true → pastSending r'.stage = true) := by
  revert hr'
  obtain ⟨info, sessionId, stage, channel⟩ := r
  cases stage with
  | created =>
    cases ha
    rw [Broker.next, Broker.register, hr]
    intro hr'
    rw [getElem?_setStage hr']
    exact ⟨rfl, by simp [sendsFrame]⟩
  | registered =>
    cases ha
    rw [Broker.next, Broker.sendFrame, hr]
    intro hr'
    rw [getElem?_setStage hr']
    exact ⟨rfl, fun _ => rfl⟩
  | waiting =>
    cases ha
    rw [Broker.next, Broker.poll, hr]
    cases channel with
    | unresolved =>
      intro hr'
      cases hr.symm.trans hr'
      exact ⟨rfl, by simp [sendsFrame]⟩
    | sent approved =>
      intro hr'
      rw [getElem?_setStage hr'] at hd
      cases hd
    | closed =>
      intro hr'
      rw [getElem?_setStage hr']
      exact ⟨rfl, by simp [sendsFrame]⟩
  | unsent =>
    cases ha
    rw [Broker.next, Broker.unregister, hr]
    intro hr'
    rw [getElem?_setStage hr'] at hd
    cases hd
  | orphaned =>
    cases ha
    rw [Broker.next, Broker.unregister, hr]
    intro hr'
    rw [getElem?_setStage hr'] at hd
    cases hd
  | returned result => cases ha
  | dropped => cases ha

/-- The frames stay in order when a request goes on. -/
theorem InOrder.step {c : Driver} (h : InOrder b c) (hb : Healthy b) (hk : c.engine = .asking k)
    (hr : b.requests[k]? = some r) (ha : requestStep k r.stage = some a)
    (hr' : (b.next a).requests[k]? = some r') :
    InOrder (b.next a)
      { c with
        engine := if done r'.stage then .working else c.engine
        frames := if sendsFrame r.stage then c.frames ++ [k] else c.frames } := by
  have ht := turns_next hb.linked a
  obtain ⟨l, hl, hframes⟩ := h.frames
  have hl' : ∀ k ∈ l, IsDone (b.next a) k := fun k hm => (hl k hm).turns ht
  have hlast : ∀ k', c.engine = .ended ∨ c.engine = .asking k' ∧ IsPast b k' →
      k' = k ∧ pastSending r.stage = true := by
    rintro k' (hended | ⟨hasking, r₀, hr₀, hpast⟩)
    · cases hk.symm.trans hended
    · cases hk.symm.trans hasking
      cases hr.symm.trans hr₀
      exact ⟨rfl, hpast⟩
  have hstage := requestStep_stage hr ha hr'
  refine ⟨?_, fun k' hk' => ?_, ?_⟩
  · by_cases hsend : sendsFrame r.stage = true
    · -- the frame of the request that is open becomes the last one
      rw [if_pos hsend]
      have hframes : c.frames = l := by
        rcases hframes with e | ⟨k', -, h'⟩
        · exact e
        · obtain ⟨-, hpast⟩ := hlast k' h'
          revert hsend hpast
          cases r.stage <;> simp [sendsFrame, pastSending]
      rw [hframes]
      cases hd : done r'.stage with
      | true =>
        refine ⟨l ++ [k], fun k' hm => ?_, .inl rfl⟩
        rcases List.mem_append.mp hm with hm | hm
        · exact hl' k' hm
        · rw [List.mem_singleton.mp hm]
          exact ⟨r', hr', hd⟩
      | false =>
        exact ⟨l, hl', .inr ⟨k, rfl, .inr ⟨hk, r', hr', (hstage hd).2 hsend⟩⟩⟩
    · rw [if_neg hsend]
      rcases hframes with e | ⟨k', e, h'⟩
      · exact ⟨l, hl', .inl e⟩
      · obtain ⟨rfl, hpast⟩ := hlast k' h'
        cases hd : done r'.stage with
        | true =>
          refine ⟨l ++ [k'], fun j hm => ?_, .inl e⟩
          rcases List.mem_append.mp hm with hm | hm
          · exact hl' j hm
          · rw [List.mem_singleton.mp hm]
            exact ⟨r', hr', hd⟩
        | false =>
          exact ⟨l, hl', .inr ⟨k', e, .inr ⟨hk, IsPast.turns ⟨r, hr, hpast⟩ ht⟩⟩⟩
  · cases hd : done r'.stage with
    | true =>
      rw [hd] at hk'
      cases hk'
    | false =>
      rw [hd] at hk'
      cases hk.symm.trans hk'
      exact ⟨r', hr', (hstage hd).1⟩
  · dsimp only
    split
    · rw [List.length_append]
      exact Nat.le_add_right_of_le h.bound
    · exact h.bound

theorem move_advanceRequest (hb : Healthy d.broker) (hd : Separate d) (i : Nat) :
    Move d (d.advanceRequest i) := by
  have hsame : Move d d := .same rfl (.of_requests rfl)
  rw [ResolveState.advanceRequest]
  split
  swap
  · exact hsame
  rename_i key runId k frames received hi
  split
  · exact hsame
  rename_i r hr
  split
  · exact hsame
  rename_i a ha
  split
  · exact hsame
  have ht := turns_next hb.linked a
  obtain ⟨r', hr', hl, -⟩ := ht k r hr
  have horder := (hd.order i _ hi).step hb rfl hr ha hr'
  have hreturned : ((d.broker.next a).requests[k]?.any fun r => done r.stage) = done r'.stage := by
    rw [hr']
    rfl
  dsimp only
  rw [hreturned]
  refine .edit hi rfl ht ⟨rfl, ?_, Nat.le_refl _, nofun⟩ horder (fun j hj => ?_) fun j hj => ?_
  · dsimp only
    split
    · exact List.prefix_append _ _
    · exact List.prefix_refl _
  · rw [turning_requestStep ha] at hj
    cases hj
    rfl
  · split at hj
    · cases hj
    · exact .inl hj

theorem move_endTurn (hb : Healthy d.broker) (hd : Separate d) (i : Nat) (aborted : Bool) :
    Move d (d.endTurn i aborted) := by
  have hbound : ∀ c : Driver, d.drivers[i]? = some c →
      (if aborted then c.frames.length else c.received) ≤ c.frames.length := by
    intro c hi
    split
    · exact Nat.le_refl _
    · exact (hd.order i c hi).bound
  have hlater : ∀ c : Driver, d.drivers[i]? = some c →
      c.Later { c with
        engine := .ended, received := if aborted then c.frames.length else c.received } := by
    intro c hi
    refine ⟨rfl, List.prefix_refl _, ?_, fun _ => ⟨rfl, rfl⟩⟩
    dsimp only
    split
    · exact (hd.order i c hi).bound
    · exact Nat.le_refl _
  rw [ResolveState.endTurn]
  split
  · rename_i key runId k frames received hi
    have ht := turns_next hb.linked (.drop k)
    refine .edit hi rfl ht (hlater _ hi) ?_ (fun j hj => ?_) fun _ => nofun
    · exact ((hd.order i _ hi).ended (hbound _ hi)).turns ht fun _ => nofun
    · cases hj
      rfl
  · cases hi : d.drivers[i]? with
    | none =>
      refine .same ?_ (.of_requests rfl)
      exact List.modify_eq_self (List.getElem?_eq_none_iff.mp hi)
    | some c =>
      refine .edit hi rfl (o := none) (.of_requests rfl) (hlater c hi) ?_ (fun _ => nofun)
        fun _ => nofun
      exact (hd.order i c hi).ended (hbound c hi)

/-- What a stretch of `resolve_interaction` can do. -/
inductive Advance (d : ResolveState) (j : Nat) (r : Resolve) : ResolveState → Prop
  | idle : Advance d j r d
  | lock (hst : r.stage = .locking) (hfree : d.control = none) :
      Advance d j r { d.setStage j .reading with control := some j }
  | stay (stage : ResolveStage) (hst : r.stage.holds = true) (hstage : stage.holds = true)
      (hrepeats : ∀ current, stage = .repeating current →
        d.store.readInteraction r.params.approvalId = some current ∧ current.status ≠ .pending) :
      Advance d j r (d.setStage j stage)
  | answer (result : ResolveResult) (hst : r.stage.holds = true) :
      Advance d j r (d.answer j result)
  | claim {current record : InteractionRecord} {store : RunStore} (hst : r.stage = .claiming current)
      (hentry : (d.broker.lookup r.params.approvalId).isSome = true)
      (hclaim : r.claim current d.store = .ok (record, store)) :
      Advance d j r ((d.withStore store).setStage j (.sending record))
  | again {current record : InteractionRecord} {store : RunStore}
      (hst : r.stage = .repeating current) (hclaim : r.claim current d.store = .ok (record, store)) :
      Advance d j r ((d.withStore store).answer j (.accepted record))
  | deliver {record : InteractionRecord} (hst : r.stage = .sending record) :
      Advance d j r (d.deliver j r record)
  | finish {runId : RunId} {error : ErrorText} (hst : r.stage = .finishing runId error) (now : Int) :
      Advance d j r ((d.withStore (d.store.next (.finish runId .unknownAfterRestart none
        (some (-32002, "审批执行体已消失")) now))).answer j (.failed requestConflict error))

theorem advanceResolve_of_none {j : Nat} (hj : d.resolves[j]? = none) (now : Int) :
    d.advanceResolve j now = d := by
  rw [ResolveState.advanceResolve, hj]

theorem advance_advanceResolve {j : Nat} {r : Resolve} (hj : d.resolves[j]? = some r) (now : Int) :
    Advance d j r (d.advanceResolve j now) := by
  rw [ResolveState.advanceResolve, hj]
  dsimp only
  cases hst : r.stage with
  | locking =>
    dsimp only
    split
    · rename_i hfree
      exact .lock hst hfree
    · exact .idle
  | reading =>
    have hholds : r.stage.holds = true := by rw [hst]; rfl
    dsimp only
    split
    · exact .answer _ hholds
    rename_i current hread
    split
    · exact .answer _ hholds
    · refine .stay _ hholds (by split <;> rfl) fun c e => ?_
      split at e
      · cases e
      · rename_i hsettled
        cases e
        exact ⟨hread, hsettled⟩
  | claiming current =>
    have hholds : r.stage.holds = true := by rw [hst]; rfl
    dsimp only
    split
    · exact .idle
    split
    · exact .stay _ hholds rfl (fun _ e => by cases e)
    rename_i hentry
    split
    · exact .stay _ hholds rfl (fun _ e => by cases e)
    · rename_i hclaim
      exact .claim hst (by simpa [Option.isSome_iff_ne_none] using hentry) hclaim
  | repeating current =>
    have hholds : r.stage.holds = true := by rw [hst]; rfl
    dsimp only
    split
    · exact .answer _ hholds
    · rename_i hclaim
      exact .again hst hclaim
  | sending record => exact .deliver hst
  | checking error =>
    have hholds : r.stage.holds = true := by rw [hst]; rfl
    dsimp only
    rw [ResolveState.recheck]
    split
    · exact .answer _ hholds
    · split
      · exact .stay _ hholds rfl (fun _ e => by cases e)
      · exact .answer _ hholds
  | finishing runId error => exact .finish hst now
  | returned result => exact .idle

theorem move_advanceResolve (hb : Healthy d.broker) (j : Nat) (now : Int) :
    Move d (d.advanceResolve j now) := by
  cases hj : d.resolves[j]? with
  | none =>
    rw [advanceResolve_of_none hj]
    exact .same rfl (.of_requests rfl)
  | some r =>
    generalize d.advanceResolve j now = d', advance_advanceResolve hj now = h
    cases h with
    | deliver hst =>
      have hrelease : Turns none d.broker
          (d.broker.release r.params.approvalId (Request.send r.approved)) :=
        turns_release hb.linked (uses_send r.approved)
      rw [ResolveState.deliver]
      split <;> exact .same rfl hrelease
    | _ => exact .same rfl (.of_requests rfl)

theorem next_move (hb : Healthy d.broker) (hd : Separate d) (a : ResolveAction) :
    Move d (d.next a) := by
  have hsame : Move d d := .same rfl (.of_requests rfl)
  cases a with
  | start key runId clock =>
    rw [ResolveState.next]
    split
    · exact hsame
    · exact .same rfl (.of_requests rfl)
    · rename_i store hstart
      refine .start rfl (.of_requests rfl) ?_ (tryStartQueued_going hstart).dequeued
        ⟨⟨[], nofun, .inl rfl⟩, nofun, Nat.le_refl _⟩ rfl
      rintro ⟨st, hst, hne⟩
      rcases RunStore.tryStartQueued_spec hstart with ⟨-, ⟨v, hv, hq, -⟩, -⟩ | ⟨hfalse, -⟩
      · rw [status?_eq, hv] at hst
        exact hne ((Option.some.inj hst).symm.trans hq)
      · cases hfalse
  | ask i prompt pid nonce =>
    rw [ResolveState.next]
    split
    · rename_i key runId frames received hi
      have ht := turns_next hb.linked
        (.request key.requestId (some key.sessionId) prompt pid nonce)
      have hold := (hd.order i _ hi).turns ht fun _ => nofun
      refine .edit hi rfl ht ⟨rfl, List.prefix_refl _, Nat.le_refl _, nofun⟩ ?_ (fun _ => nofun)
        fun j hj => ?_
      · refine ⟨?_, fun j hj => ?_, hold.bound⟩
        · obtain ⟨l, hl, e | ⟨k, -, hended | ⟨hasking, -⟩⟩⟩ := hold.frames
          · exact ⟨l, hl, .inl e⟩
          · cases hended
          · cases hasking
        · cases hj
          refine ⟨⟨⟨approvalId pid nonce d.broker.nextId, key.requestId, prompt⟩,
            some key.sessionId, .created, .unresolved⟩, ?_, rfl⟩
          refine (List.getElem?_append_right (Nat.le_refl _)).trans ?_
          rw [Nat.sub_self]
          rfl
      · cases hj
        exact .inr (List.getElem?_eq_none (Nat.le_refl _))
    · exact hsame
  | advanceRequest i => exact move_advanceRequest hb hd i
  | endTurn i => exact move_endTurn hb hd i false
  | receive i =>
    rw [ResolveState.next, ResolveState.receive]
    split
    · exact hsame
    rename_i c hi
    split
    · exact hsame
    rename_i r hr
    obtain ⟨k, hk, -⟩ := Option.bind_eq_some_iff.mp hr
    have hold := hd.order i c hi
    refine .edit hi rfl (o := none) (.of_requests rfl)
      ⟨rfl, List.prefix_refl _, Nat.le_succ _, fun h => ⟨h, rfl⟩⟩ ?_ (fun _ => nofun)
      fun _ => .inl
    exact ⟨hold.frames, hold.open_, Slots.lt_of_some hk⟩
  | finish i status content error now =>
    rw [ResolveState.next]
    split
    · split
      · exact .same rfl (.of_requests rfl)
      · exact hsame
    · exact hsame
  | abort i => exact move_endTurn hb hd i true
  | cancel sessionId requestId =>
    rw [ResolveState.next]
    split
    · exact hsame
    · exact .same rfl (turns_next hb.linked (.cancel sessionId requestId))
  | resolve params rejected =>
    rw [ResolveState.next]
    split <;> exact .same rfl (.of_requests rfl)
  | advanceResolve j now => exact move_advanceResolve hb j now
  | call op =>
    rw [ResolveState.next]
    split
    · exact hsame
    · exact .same rfl (.of_requests rfl)

/-- What a step does to the broker. While a claim waits for its delivery, the map stays as it is. -/
inductive Touch (d d' : ResolveState) : Broker → Prop
  | store (store : RunStore) : Touch d d' { d.broker with store }
  | act (a : Action)
      (h : d.pendingLocked = true → (d.broker.next a).pending = d.broker.pending) :
      Touch d d' (d.broker.next a)
  | send {j : Nat} {r : Resolve} {record : InteractionRecord} (hj : d.resolves[j]? = some r)
      (hst : r.stage = .sending record)
      (hj' : ∀ r', d'.resolves[j]? = some r' → r'.stage.isSending = false) :
      Touch d d' (d.broker.release r.params.approvalId (Request.send r.approved))

theorem touch_advanceResolve (j : Nat) (now : Int) :
    Touch d (d.advanceResolve j now) (d.advanceResolve j now).broker := by
  cases hj : d.resolves[j]? with
  | none =>
    rw [advanceResolve_of_none hj]
    exact .store d.store
  | some r =>
    generalize d.advanceResolve j now = d', advance_advanceResolve hj now = h
    cases h with
    | deliver hst =>
      have hresolves : ∀ {stage : ResolveStage}, stage.isSending = false →
          ∀ r', (d.resolves.modify j ({ · with stage }))[j]? = some r' →
            r'.stage.isSending = false := by
        intro stage hstage r' hr'
        cases hr'.symm.trans (Slots.modify_self hj _)
        exact hstage
      rw [ResolveState.deliver]
      split <;> exact .send hj hst (hresolves rfl)
    | claim | again | finish => exact .store _
    | _ => exact .store d.store

theorem touch_endTurn (i : Nat) (aborted : Bool) :
    Touch d (d.endTurn i aborted) (d.endTurn i aborted).broker := by
  rw [ResolveState.endTurn]
  split
  · rename_i k _ _ _
    refine .act (.drop k) fun _ => ?_
    rw [Broker.next, Broker.drop]
    split
    · split <;> rfl
    · rfl
  · exact .store d.store

theorem next_touch (d : ResolveState) (a : ResolveAction) :
    Touch d (d.next a) (d.next a).broker := by
  have hsame : ∀ {d' : ResolveState}, Touch d d' d.broker := .store d.store
  cases a with
  | start key runId clock =>
    rw [ResolveState.next]
    split
    · exact hsame
    · exact .store _
    · exact .store _
  | ask i prompt pid nonce =>
    rw [ResolveState.next]
    split
    · rename_i key runId frames received hi
      exact .act (.request key.requestId (some key.sessionId) prompt pid nonce) fun _ => rfl
    · exact hsame
  | advanceRequest i =>
    rw [ResolveState.next, ResolveState.advanceRequest]
    split
    swap
    · exact hsame
    split
    · exact hsame
    rename_i r hr
    split
    · exact hsame
    rename_i act ha
    split
    · exact hsame
    rename_i hfree
    refine .act _ fun hlocked => ?_
    rw [hlocked, Bool.and_true] at hfree
    revert ha hfree
    cases r.stage <;> intro ha hfree <;> cases ha
    · exact absurd rfl hfree
    · rw [Broker.next, Broker.sendFrame]
      split <;> rfl
    · exact absurd rfl hfree
    · rw [Broker.next, Broker.poll]
      split <;> rfl
    · exact absurd rfl hfree
  | endTurn i => exact touch_endTurn i false
  | receive i =>
    rw [ResolveState.next, ResolveState.receive]
    split
    · exact hsame
    · split
      · exact hsame
      · exact .store _
  | finish i status content error now =>
    rw [ResolveState.next]
    split
    · split
      · exact .store _
      · exact hsame
    · exact hsame
  | abort i => exact touch_endTurn i true
  | cancel sessionId requestId =>
    rw [ResolveState.next]
    split
    · exact hsame
    · rename_i hfree
      exact .act (.cancel sessionId requestId) fun h => absurd h hfree
  | resolve params rejected =>
    rw [ResolveState.next]
    split <;> exact hsame
  | advanceResolve j now => exact touch_advanceResolve j now
  | call op =>
    rw [ResolveState.next]
    split
    · exact hsame
    · exact .store _

theorem Touch.healthy {d' : ResolveState} (h : Touch d d' b) (hb : Healthy d.broker) : Healthy b := by
  cases h with
  | store store => exact hb.withStore store
  | act => exact hb.next _
  | send => exact hb.release _ (uses_send _)

theorem store_requestStep {st : Stage} (h : requestStep k st = some a) :
    (b.next a).store = b.store := by
  cases st <;> cases h <;> simp [Broker.next]

theorem store_endTurn (d : ResolveState) (i : Nat) (aborted : Bool) :
    (d.endTurn i aborted).store = d.store := by
  rw [ResolveState.endTurn]
  split
  · exact store_drop _
  · rfl

/-- The operations by which a step can write the store. -/
inductive Write (d d' : ResolveState) : Op → Prop
  | other {op : Op} (h : reserved op = false) : Write d d' op
  | publish {i : Nat} {c : Driver} {k : Nat} {r : Request} (hi : d.drivers[i]? = some c)
      (hk : c.frames[c.received]? = some k) (hr : d.broker.requests[k]? = some r)
      (hi' : d'.drivers[i]? = some { c with received := c.received + 1 }) :
      Write d d' (.appendEvent c.runId EventKind.approvalRequired.name
        (approvalData c.key c.runId r.info))
  | claim {j : Nat} {r : Resolve} {current record : InteractionRecord}
      (hj : d.resolves[j]? = some r) (hst : r.stage = .claiming current)
      (hentry : (d'.broker.lookup r.params.approvalId).isSome = true)
      (hj' : d'.resolves[j]? = some { r with stage := .sending record }) :
      Write d d' (.claimInteraction r.params.approvalId current.sessionId current.ownerRunId
        (r.params.revision.getD current.revision) r.approved)
  | again {j : Nat} {r : Resolve} {current : InteractionRecord} (hj : d.resolves[j]? = some r)
      (hst : r.stage = .repeating current) :
      Write d d' (.claimInteraction r.params.approvalId current.sessionId current.ownerRunId
        (r.params.revision.getD current.revision) r.approved)

/-- The step leaves the store, or makes one call. -/
def Writes (d d' : ResolveState) : Prop :=
  d'.store = d.store ∨ ∃ op, Write d d' op ∧ d'.store = d.store.next op

theorem writes_advanceResolve (d : ResolveState) (j : Nat) (now : Int) :
    Writes d (d.advanceResolve j now) := by
  cases hj : d.resolves[j]? with
  | none =>
    rw [advanceResolve_of_none hj]
    exact .inl rfl
  | some r =>
    generalize d.advanceResolve j now = d', advance_advanceResolve hj now = h
    cases h with
    | claim hst hentry hclaim =>
      rename_i current record store
      have hsending : ((d.withStore store).setStage j (.sending record)).resolves[j]? =
          some { r with stage := .sending record } := Slots.modify_self hj _
      exact .inr ⟨_, .claim hj hst hentry hsending, (next_claimInteraction hclaim).symm⟩
    | again hst hclaim => exact .inr ⟨_, .again hj hst, (next_claimInteraction hclaim).symm⟩
    | deliver hst =>
      rw [ResolveState.deliver]
      split <;> exact .inl (store_release _ _ _)
    | finish hst now => exact .inr ⟨_, .other rfl, rfl⟩
    | _ => exact .inl rfl

theorem next_writes (d : ResolveState) (a : ResolveAction) : Writes d (d.next a) := by
  cases a with
  | start key runId clock =>
    rw [ResolveState.next]
    split
    · exact .inl rfl
    · rename_i store hstart
      exact .inr ⟨.tryStartQueued runId clock, .other rfl, (next_tryStartQueued hstart).symm⟩
    · rename_i store hstart
      exact .inr ⟨.tryStartQueued runId clock, .other rfl, (next_tryStartQueued hstart).symm⟩
  | ask i prompt pid nonce =>
    rw [ResolveState.next]
    split <;> exact .inl rfl
  | advanceRequest i =>
    rw [ResolveState.next, ResolveState.advanceRequest]
    split
    swap
    · exact .inl rfl
    split
    · exact .inl rfl
    split
    · exact .inl rfl
    rename_i act hact
    split
    · exact .inl rfl
    · exact .inl (store_requestStep hact)
  | endTurn i => exact .inl (store_endTurn d i false)
  | receive i =>
    rw [ResolveState.next, ResolveState.receive]
    split
    · exact .inl rfl
    rename_i c hi
    split
    · exact .inl rfl
    rename_i r hr
    obtain ⟨k, hk, hr⟩ := Option.bind_eq_some_iff.mp hr
    exact .inr ⟨_, .publish hi hk hr (Slots.modify_self hi _), rfl⟩
  | finish i status content error now =>
    rw [ResolveState.next]
    split
    · split
      · exact .inr ⟨_, .other rfl, rfl⟩
      · exact .inl rfl
    · exact .inl rfl
  | abort i => exact .inl (store_endTurn d i true)
  | cancel sessionId requestId =>
    rw [ResolveState.next]
    split
    · exact .inl rfl
    · exact .inl (store_releaseAll _ _)
  | resolve params rejected =>
    rw [ResolveState.next]
    split <;> exact .inl rfl
  | advanceResolve j now => exact writes_advanceResolve d j now
  | call op =>
    rw [ResolveState.next]
    split
    · exact .inl rfl
    · rename_i h
      exact .inr ⟨op, .other (by simpa using h), rfl⟩

end Step

/-! ## The locks -/

section Locks

variable {d d' : ResolveState} {j : Nat} {r : Resolve}

/-- What a stretch of `resolve_interaction` does to the locks and the other calls. -/
inductive Turn (d d' : ResolveState) (j : Nat) (r : Resolve) : Prop
  | same (hresolves : d'.resolves = d.resolves) (hcontrol : d'.control = d.control)
  | lock (hst : r.stage = .locking) (hfree : d.control = none)
      (hresolves : d'.resolves = d.resolves.modify j ({ · with stage := .reading }))
      (hcontrol : d'.control = some j)
  | stay (stage : ResolveStage) (hst : r.stage.holds = true) (hstage : stage.holds = true)
      (hresolves : d'.resolves = d.resolves.modify j ({ · with stage }))
      (hcontrol : d'.control = d.control)
  | answer (result : ResolveResult) (hst : r.stage.holds = true)
      (hresolves : d'.resolves = d.resolves.modify j ({ · with stage := .returned result }))
      (hcontrol : d'.control = none)

theorem Advance.turn (h : Advance d j r d') : Turn d d' j r := by
  cases h with
  | idle => exact .same rfl rfl
  | lock hst hfree => exact .lock hst hfree rfl rfl
  | stay stage hst hstage => exact .stay stage hst hstage rfl rfl
  | answer result hst => exact .answer result hst rfl rfl
  | claim hst => exact .stay _ (by rw [hst]; rfl) rfl rfl rfl
  | again hst => exact .answer _ (by rw [hst]; rfl) rfl rfl
  | deliver hst =>
    have hholds : r.stage.holds = true := by rw [hst]; rfl
    rw [ResolveState.deliver]
    split
    · exact .answer _ hholds rfl rfl
    · exact .stay _ hholds rfl rfl rfl
  | finish hst => exact .answer _ (by rw [hst]; rfl) rfl rfl

theorem turn_advanceResolve (hj : d.resolves[j]? = some r) (now : Int) :
    Turn d (d.advanceResolve j now) j r := (advance_advanceResolve hj now).turn

/-- Who is between the lock and the release of `control_lock` holds it. -/
def Held (d : ResolveState) : Prop :=
  ∀ (j : Nat) r, d.resolves[j]? = some r → r.stage.holds = true → d.control = some j

theorem Held.turn (h : Held d) (hj : d.resolves[j]? = some r) (ht : Turn d d' j r) : Held d' := by
  have hresolves : ∀ {stage : ResolveStage} {i : Nat} {x : Resolve},
      (d.resolves.modify j ({ · with stage }))[i]? = some x →
      (i = j ∧ x.stage = stage) ∨ (i ≠ j ∧ d.resolves[i]? = some x) := by
    intro stage i x hx
    obtain ⟨x₀, hx₀, rfl⟩ := Slots.of_modify hx
    by_cases e : i = j
    · exact .inl ⟨e, by rw [if_pos e]⟩
    · exact .inr ⟨e, by rw [if_neg e]; exact hx₀⟩
  cases ht with
  | same hr hc =>
    intro i x hx hx'
    rw [hc]
    exact h i x (hr ▸ hx) hx'
  | lock hst hfree hr hc =>
    intro i x hx hx'
    rw [hr] at hx
    rcases hresolves hx with ⟨rfl, -⟩ | ⟨-, hx⟩
    · exact hc
    · cases hfree.symm.trans (h i x hx hx')
  | stay stage hst _ hr hc =>
    intro i x hx hx'
    rw [hr] at hx
    rw [hc]
    rcases hresolves hx with ⟨rfl, -⟩ | ⟨-, hx⟩
    · exact h i r hj hst
    · exact h i x hx hx'
  | answer result hst hr hc =>
    intro i x hx hx'
    rw [hr] at hx
    rcases hresolves hx with ⟨-, e⟩ | ⟨hne, hx⟩
    · rw [e] at hx'
      cases hx'
    · exact absurd (Option.some.inj ((h i x hx hx').symm.trans (h j r hj hst))) hne

/-- The calls that are under way, and a new one. -/
theorem next_resolves (d : ResolveState) {a : ResolveAction}
    (ha : ∀ j now, a ≠ .advanceResolve j now) :
    (d.next a).control = d.control ∧ ((d.next a).resolves = d.resolves ∨
      ∃ r, r.stage.holds = false ∧ (d.next a).resolves = d.resolves ++ [r]) := by
  cases a with
  | resolve params rejected =>
    rw [ResolveState.next]
    split
    · exact ⟨rfl, .inr ⟨_, rfl, rfl⟩⟩
    · exact ⟨rfl, .inr ⟨_, rfl, rfl⟩⟩
  | advanceResolve j now => exact absurd rfl (ha j now)
  | start key runId clock =>
    rw [ResolveState.next]
    split <;> exact ⟨rfl, .inl rfl⟩
  | ask i prompt pid nonce =>
    rw [ResolveState.next]
    split <;> exact ⟨rfl, .inl rfl⟩
  | advanceRequest i =>
    rw [ResolveState.next, ResolveState.advanceRequest]
    split
    swap
    · exact ⟨rfl, .inl rfl⟩
    split
    · exact ⟨rfl, .inl rfl⟩
    split
    · exact ⟨rfl, .inl rfl⟩
    split <;> exact ⟨rfl, .inl rfl⟩
  | endTurn i =>
    rw [ResolveState.next, ResolveState.endTurn]
    split <;> exact ⟨rfl, .inl rfl⟩
  | receive i =>
    rw [ResolveState.next, ResolveState.receive]
    split
    · exact ⟨rfl, .inl rfl⟩
    · split <;> exact ⟨rfl, .inl rfl⟩
  | finish i status content error now =>
    rw [ResolveState.next]
    split
    · split <;> exact ⟨rfl, .inl rfl⟩
    · exact ⟨rfl, .inl rfl⟩
  | abort i =>
    rw [ResolveState.next, ResolveState.endTurn]
    split <;> exact ⟨rfl, .inl rfl⟩
  | cancel sessionId requestId =>
    rw [ResolveState.next]
    split <;> exact ⟨rfl, .inl rfl⟩
  | call op =>
    rw [ResolveState.next]
    split <;> exact ⟨rfl, .inl rfl⟩

theorem Turn.other {i : Nat} (ht : Turn d d' j r) (hne : i ≠ j) :
    d'.resolves[i]? = d.resolves[i]? := by
  have hmodify : ∀ f : Resolve → Resolve, (d.resolves.modify j f)[i]? = d.resolves[i]? :=
    Slots.modify_other hne
  cases ht with
  | same h => rw [h]
  | lock _ _ h => rw [h, hmodify]
  | stay _ _ _ h => rw [h, hmodify]
  | answer _ _ h => rw [h, hmodify]

/-- A call stays where it is, or it is the one that goes on. -/
theorem resolve_next (hj : d.resolves[j]? = some r) (a : ResolveAction) :
    (d.next a).resolves[j]? = some r ∨ ∃ now, a = .advanceResolve j now := by
  by_cases ha : ∀ j now, a ≠ .advanceResolve j now
  · refine .inl ?_
    obtain ⟨-, hr | ⟨r', -, hr⟩⟩ := next_resolves d ha <;> rw [hr]
    · exact hj
    · exact Slots.append_of_some hj _
  · simp only [not_forall, not_not] at ha
    obtain ⟨i, now, rfl⟩ := ha
    by_cases e : j = i
    · exact .inr ⟨now, by rw [e]⟩
    · refine .inl ?_
      cases hi : d.resolves[i]? with
      | none =>
        rw [ResolveState.next, ResolveState.advanceResolve, hi]
        exact hj
      | some x => exact ((turn_advanceResolve hi now).other e).trans hj

/-- A call that holds the lock was there before, as it is or as the one that goes on. -/
theorem resolve_of_next {r' : Resolve} {a : ResolveAction}
    (hj : (d.next a).resolves[j]? = some r') (hst : r'.stage.holds = true) :
    d.resolves[j]? = some r' ∨
      ∃ r now, d.resolves[j]? = some r ∧ a = .advanceResolve j now := by
  cases hr : d.resolves[j]? with
  | some r =>
    rcases resolve_next hr a with h | ⟨now, ha⟩
    · exact .inl (h.symm.trans hj)
    · exact .inr ⟨r, now, rfl, ha⟩
  | none =>
    by_cases ha : ∀ j now, a ≠ .advanceResolve j now
    · obtain ⟨-, e | ⟨r₀, hst₀, e⟩⟩ := next_resolves d ha <;> rw [e] at hj
      · cases hr.symm.trans hj
      · rcases Slots.of_concat hj with hj | ⟨-, rfl⟩
        · cases hr.symm.trans hj
        · cases hst₀.symm.trans hst
    · simp only [not_forall, not_not] at ha
      obtain ⟨i, now, rfl⟩ := ha
      have hlen : (d.next (.advanceResolve i now)).resolves.length = d.resolves.length := by
        cases hi : d.resolves[i]? with
        | none => rw [ResolveState.next, ResolveState.advanceResolve, hi]
        | some x =>
          cases turn_advanceResolve hi now with
          | same h => exact congrArg List.length h
          | lock _ _ h => exact (congrArg List.length h).trans (List.length_modify ..)
          | stay _ _ _ h => exact (congrArg List.length h).trans (List.length_modify ..)
          | answer _ _ h => exact (congrArg List.length h).trans (List.length_modify ..)
      have hlt := Slots.lt_of_some hj
      rw [hlen] at hlt
      exact absurd hr (by simp [hlt])

theorem Held.next (h : Held d) (a : ResolveAction) : Held (d.next a) := by
  by_cases ha : ∀ j now, a ≠ .advanceResolve j now
  · obtain ⟨hc, hr | ⟨r, hst, hr⟩⟩ := next_resolves d ha
    · intro i x hx hx'
      rw [hc]
      exact h i x (hr ▸ hx) hx'
    · intro i x hx hx'
      rw [hc]
      rw [hr] at hx
      rcases Slots.of_concat hx with hx | ⟨-, rfl⟩
      · exact h i x hx hx'
      · rw [hst] at hx'
        cases hx'
  · simp only [not_forall, not_not] at ha
    obtain ⟨j, now, rfl⟩ := ha
    cases hj : d.resolves[j]? with
    | none =>
      have hnext : d.next (.advanceResolve j now) = d := by
        rw [ResolveState.next, ResolveState.advanceResolve, hj]
      rw [hnext]
      exact h
    | some r => exact h.turn hj (turn_advanceResolve hj now)

end Locks

end AgentDaemon.Daemon.Resolving
