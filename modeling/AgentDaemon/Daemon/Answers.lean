import AgentDaemon.Daemon.ResolveSteps
import AgentDaemon.Storage.Repeats

/-!
Every durable answer has an outcome. The requests of a run come one after the other, so a request
that was dropped after its frame was published is the last one of its run, and its driver will not
ask for an approval again. So a run that `resolve_interaction` has to finish as unknown stays
finished, and when `control_lock` is given back every answer in the store was handed to its
requester or belongs to a run that has ended (`answers_settled`).
-/

namespace AgentDaemon.Daemon.Resolving

open Storage Transition Broker

/-! ## The answers -/

section Answers

variable {d d' : ResolveState} {x y : Interaction} {id : RunId} {j : Nat} {r : Resolve}
  {a : ResolveAction}

def Answered (x : Interaction) : Prop := x.status = .answered ∨ x.status = .rejected

/-- The answer was handed to its requester while that one was still waiting for it. -/
def Handed (d : ResolveState) (x : Interaction) : Prop :=
  ∃ (k : Nat) (r : Request), d.broker.requests[k]? = some r ∧ r.info.id = x.id ∧
    r.channel = .sent (x.status = .answered)

/-- A driver of this daemon has published the question. -/
def Published (d : ResolveState) (x : Interaction) : Prop :=
  ∃ (i p k : Nat) (c : Driver) (r : Request), d.drivers[i]? = some c ∧ c.runId = x.runId ∧
    p < c.received ∧ c.frames[p]? = some k ∧ d.broker.requests[k]? = some r ∧ r.info.id = x.id

/-- No driver will ask for another approval of the run. -/
def Spent (d : ResolveState) (id : RunId) : Prop :=
  ∀ (i : Nat) (c : Driver), d.drivers[i]? = some c → c.runId = id →
    c.engine = .ended ∧ c.frames.length ≤ c.received

/-- The run has ended for good. -/
def Closed (d : ResolveState) (id : RunId) : Prop := d.store.Ended id ∧ Spent d id

/-- The call stands between the claim of the answer and its outcome. -/
def Owes (d : ResolveState) (r : Resolve) (x : Interaction) : Prop :=
  match r.stage with
  | .sending _ => r.params.approvalId = x.id ∧
    x.status = (if r.approved then .answered else .rejected) ∧ (d.broker.lookup x.id).isSome = true
  | .checking _ => r.params.approvalId = x.id ∧ Spent d x.runId
  | .finishing runId _ => r.params.approvalId = x.id ∧ x.runId = runId ∧ Spent d x.runId
  | _ => False

structure Sound (d : ResolveState) : Prop where
  stored : ∃ ops, d.store = storeAfter ops
  healthy : Healthy d.broker
  separate : Separate d
  held : Held d
  origin : ∀ x ∈ d.store.interactions.rows,
    Published d x ∨ x.status ≠ .pending ∧ Closed d x.runId
  outcome : ∀ x ∈ d.store.interactions.rows, Answered x →
    Handed d x ∨ Closed d x.runId ∨ ∃ (j : Nat) (r : Resolve), d.resolves[j]? = some r ∧ Owes d r x
  repeated : ∀ (j : Nat) r current, d.resolves[j]? = some r → r.stage = .repeating current →
    ∃ x ∈ d.store.interactions.rows, x.id = r.params.approvalId ∧ x.status ≠ .pending

theorem approvalRequested_approvalData (key : ActiveKey) (runId : RunId)
    (info : PendingApprovalInfo) :
    RunStore.approvalRequested EventKind.approvalRequired.name (approvalData key runId info) =
      some info.id := rfl

theorem Write.not_recover {op : Op} (h : Write d d' op) (clock : Clock) : op ≠ .recover clock := by
  rintro rfl
  cases h with
  | other h => cases h

theorem Sound.stored_next (hd : Sound d) (a : ResolveAction) :
    ∃ ops, (d.next a).store = storeAfter ops := by
  obtain ⟨ops, hops⟩ := hd.stored
  rcases next_writes d a with e | ⟨op, -, e⟩
  · exact ⟨ops, e.trans hops⟩
  · refine ⟨ops ++ [op], ?_⟩
    rw [e, hops, storeAfter_append]
    rfl

theorem dequeued_step (a : ResolveAction) (h : d.store.Dequeued id) :
    (d.next a).store.Dequeued id := by
  rcases next_writes d a with e | ⟨op, -, e⟩ <;> rw [e]
  · exact h
  · exact RunStore.dequeued_next h op

theorem Published.move (h : Published d x) (hm : Move d d') (hid : x.id = y.id)
    (hrun : x.runId = y.runId) : Published d' y := by
  obtain ⟨i, p, k, c, r, hi, hc, hp, hk, hr, hinfo⟩ := h
  obtain ⟨c', hi', hl⟩ := hm.driver hi
  obtain ⟨o, ht⟩ := hm.turns
  obtain ⟨r', hr', hl', -⟩ := ht k r hr
  refine ⟨i, p, k, c', r', hi', hl.runId.trans (hc.trans hrun),
    Nat.lt_of_lt_of_le hp hl.received, ?_, hr', ?_⟩
  · obtain ⟨l, e⟩ := hl.frames
    rw [← e, Slots.append_of_some hk]
  · rw [hl'.info, hinfo, hid]

theorem Handed.move (h : Handed d x) (hm : Move d d') : Handed d' x := by
  obtain ⟨k, r, hr, hid, hsent⟩ := h
  obtain ⟨o, ht⟩ := hm.turns
  obtain ⟨r', hr', hl, -⟩ := ht k r hr
  exact ⟨k, r', hr', by rw [hl.info, hid], hl.sent _ hsent⟩

theorem Spent.move (h : Spent d id) (hm : Move d d') (hid : d.store.Dequeued id) : Spent d' id := by
  intro i c' hi' hrun
  rcases hm.fresh hi' with ⟨c, hi⟩ | hqueued
  · obtain ⟨c'', hi'', hl⟩ := hm.driver hi
    cases hi'.symm.trans hi''
    obtain ⟨hended, hlen⟩ := h i c hi (hl.runId.symm.trans hrun)
    obtain ⟨hended', hframes⟩ := hl.ended hended
    exact ⟨hended', by rw [hframes]; exact Nat.le_trans hlen hl.received⟩
  · exact absurd (hrun ▸ hid) hqueued

/-- Nothing brings a run back whose drivers ask for nothing more. -/
theorem Closed.next (h : Closed d id) (hm : Move d (d.next a)) : Closed (d.next a) id := by
  refine ⟨?_, h.2.move hm h.1.dequeued⟩
  rcases next_writes d a with e | ⟨op, hw, e⟩ <;> rw [e]
  · exact h.1
  · refine h.1.next hw.not_recover ?_
    cases hw with
    | other hop =>
      intro happ
      cases op <;> simp_all [reserved, Op.approvalRun]
    | publish hi hk hr hi' =>
      rintro happ
      cases happ
      obtain ⟨-, hlen⟩ := h.2 _ _ hi rfl
      have hlt := Slots.lt_of_some hk
      omega
    | claim => simp [Op.approvalRun]
    | again => simp [Op.approvalRun]

/-- A question after a step was there before, or it was pending and nobody owes its outcome but the
call that has answered it, or a driver publishes it. -/
theorem Sound.row (hd : Sound d) (hm : Move d (d.next a))
    (hy : y ∈ (d.next a).store.interactions.rows) :
    y ∈ d.store.interactions.rows ∨
      (∃ x ∈ d.store.interactions.rows, x.id = y.id ∧ x.runId = y.runId ∧ x.status = .pending ∧
        (y.status = .orphaned ∨ ∃ (j : Nat) (r : Resolve), (d.next a).resolves[j]? = some r ∧
          Owes (d.next a) r y)) ∨
      y.status = .pending ∧ Published (d.next a) y := by
  rcases next_writes d a with e | ⟨op, hw, e⟩ <;> rw [e] at hy
  · exact .inl hy
  rcases question_of_next hy with hy | ⟨x, hx, hid, hrun, hpending, hsettles⟩ | ⟨hop, -, hpending⟩
  · exact .inl hy
  · refine .inr (.inl ⟨x, hx, hid, hrun, hpending, ?_⟩)
    generalize hst : y.status = st at hsettles
    cases hsettles with
    | orphaned => exact .inl rfl
    | answered h =>
      cases hw with
      | other hop =>
        rw [h] at hop
        cases hop
      | publish => cases h
      | claim hj hstage hentry hj' =>
        injection h with hclaimed _ _ _ happroved
        refine .inr ⟨_, _, hj', hclaimed.trans hid, ?_, ?_⟩
        · rw [hst, happroved]
        · rw [← hid, ← hclaimed]
          exact hentry
      | again hj hstage =>
        injection h with hclaimed
        obtain ⟨x', hx', hid', hne⟩ := hd.repeated _ _ _ hj hstage
        rw [d.store.interactions.eq_of_key_eq hx' hx (hid'.trans hclaimed)] at hne
        exact absurd hpending hne
  · refine .inr (.inr ⟨hpending, ?_⟩)
    cases hw with
    | other h =>
      have happ := approvalRun_of_requests hop
      cases op <;> simp_all [reserved, Op.approvalRun]
    | publish hi hk hr hi' =>
      rename_i i c k r
      rw [Op.requestsApproval, approvalRequested_approvalData] at hop
      obtain ⟨hrun, hid⟩ := Prod.mk.inj (Option.some.inj hop)
      obtain ⟨o, ht⟩ := hm.turns
      obtain ⟨r', hr', hl, -⟩ := ht k r hr
      exact ⟨i, c.received, k, _, r', hi', hrun, Nat.lt_succ_self _, hk, hr', by rw [hl.info, hid]⟩
    | claim => cases hop
    | again => cases hop

theorem Sound.origin_next (hd : Sound d) (hm : Move d (d.next a)) :
    ∀ y ∈ (d.next a).store.interactions.rows,
      Published (d.next a) y ∨ y.status ≠ .pending ∧ Closed (d.next a) y.runId := by
  intro y hy
  rcases hd.row hm hy with hy | ⟨x, hx, hid, hrun, hpending, -⟩ | ⟨-, hpublished⟩
  · exact (hd.origin y hy).imp (·.move hm rfl rfl) fun h => ⟨h.1, h.2.next hm⟩
  · rcases hd.origin x hx with h | ⟨hne, -⟩
    · exact .inl (h.move hm hid hrun)
    · exact absurd hpending hne
  · exact .inl hpublished

/-- A call gets to its repetition with a question that is settled. -/
theorem Advance.repeating {current : InteractionRecord} (h : Advance d j r d')
    (hj : d.resolves[j]? = some r) {r' : Resolve} (hr' : d'.resolves[j]? = some r')
    (hst : r'.stage = .repeating current) :
    r' = r ∨ r'.params = r.params ∧ d.store.readInteraction r.params.approvalId = some current ∧
      current.status ≠ .pending := by
  have hstage : ∀ {stage : ResolveStage},
      (d.resolves.modify j ({ · with stage }))[j]? = some r' → r' = { r with stage } := by
    intro stage h
    exact Option.some.inj (h.symm.trans (Slots.modify_self hj _))
  have hne : ∀ {stage : ResolveStage}, (∀ c, stage ≠ .repeating c) →
      (d.resolves.modify j ({ · with stage }))[j]? = some r' → False := by
    intro stage hne h
    rw [hstage h] at hst
    exact hne current hst
  cases h with
  | idle => exact .inl (Option.some.inj (hr'.symm.trans hj))
  | stay stage _ _ hrepeats =>
    have e := hstage hr'
    rw [e] at hst
    exact .inr ⟨by rw [e], hrepeats current hst⟩
  | deliver hsending =>
    rw [ResolveState.deliver] at hr'
    split at hr' <;> exact absurd hr' (hne (by simp))
  | _ => exact absurd hr' (hne (by simp))

theorem settled_step (hx : x ∈ d.store.interactions.rows) (hst : x.status ≠ .pending)
    (a : ResolveAction) : x ∈ (d.next a).store.interactions.rows := by
  rcases next_writes d a with e | ⟨op, -, e⟩ <;> rw [e]
  · exact hx
  · exact settled_next hx hst op

theorem Sound.repeated_next (hd : Sound d) {r' : Resolve} {current : InteractionRecord}
    (hj : (d.next a).resolves[j]? = some r') (hst : r'.stage = .repeating current) :
    ∃ x ∈ (d.next a).store.interactions.rows,
      x.id = r'.params.approvalId ∧ x.status ≠ .pending := by
  have hold : ∀ r, d.resolves[j]? = some r → r.stage = .repeating current →
      ∃ x ∈ (d.next a).store.interactions.rows, x.id = r.params.approvalId ∧
        x.status ≠ .pending := by
    intro r hr hst
    obtain ⟨x, hx, hid, hne⟩ := hd.repeated j r current hr hst
    exact ⟨x, settled_step hx hne a, hid, hne⟩
  rcases resolve_of_next hj (by rw [hst]; rfl) with hr | ⟨r, now, hr, rfl⟩
  · exact hold r' hr hst
  · rcases (advance_advanceResolve hr now).repeating hr hj hst with rfl | ⟨e, hread, hne⟩
    · exact hold _ hr hst
    · obtain ⟨x, run, hx, -, rfl⟩ := exists_of_readInteraction hread
      refine ⟨x, settled_step (Table.mem_of_find? hx) hne _, ?_, hne⟩
      rw [e]
      exact Table.key_of_find? hx

theorem Sound.dequeued (hd : Sound d) (hx : x ∈ d.store.interactions.rows) :
    d.store.Dequeued x.runId := by
  rcases hd.origin x hx with ⟨i, p, k, c, r, hi, hrun, -⟩ | ⟨-, h, -⟩
  · exact hrun ▸ hd.separate.dequeued i c hi
  · exact h.dequeued

/-- Where another task goes on, a call owes what it has owed. -/
theorem Sound.owes_next (hd : Sound d) (hm : Move d (d.next a)) (hj : d.resolves[j]? = some r)
    (hj' : (d.next a).resolves[j]? = some r) (hx : x ∈ d.store.interactions.rows)
    (ho : Owes d r x) : Owes (d.next a) r x := by
  have hspent : Spent d x.runId → Spent (d.next a) x.runId :=
    fun h => h.move hm (hd.dequeued hx)
  unfold Owes at ho ⊢
  split at ho
  · rename_i record hst
    refine ⟨ho.1, ho.2.1, ?_⟩
    have hpending : (d.next a).broker.pending = d.broker.pending := by
      generalize he : (d.next a).broker = b
      have htouch := next_touch d a
      rw [he] at htouch
      cases htouch with
      | store => rfl
      | act _ h =>
        refine h (List.any_eq_true.mpr ⟨r, List.mem_of_getElem? hj, ?_⟩)
        rw [hst]
        rfl
      | send hi hsending hi' =>
        -- only one call holds `control_lock`
        have hcontrol := hd.held j r hj (by rw [hst]; rfl)
        cases (hd.held _ _ hi (by rw [hsending]; rfl)).symm.trans hcontrol
        have hno := hi' r hj'
        rw [hst] at hno
        cases hno
    rw [Broker.lookup, hpending]
    exact ho.2.2
  · exact ⟨ho.1, hspent ho.2⟩
  · exact ⟨ho.1, ho.2.1, hspent ho.2.2⟩
  · exact ho

/-- A request that was published and dropped is the last one of its run. -/
theorem Sound.spent (hd : Sound d) (hp : Published d x) {k : Nat} {q : Request}
    (hq : d.broker.requests[k]? = some q) (hid : q.info.id = x.id) (hopen : done q.stage = false)
    (hgone : q.stage.receiving = false) : Spent d x.runId := by
  obtain ⟨i, p, k', c, q', hi, hrun, hlt, hk, hq', hid'⟩ := hp
  cases hd.healthy.numbered.eq_of_id hq' hq (hid'.trans hid.symm)
  cases hq.symm.trans hq'
  have horder := hd.separate.order i c hi
  obtain ⟨l, hl, hframes⟩ := horder.frames
  -- the requests before the last one have returned
  have hnot : k ∉ l := by
    intro hm
    obtain ⟨q', hq', hdone⟩ := hl k hm
    cases hq.symm.trans hq'
    cases hopen.symm.trans hdone
  have hmem := List.mem_of_getElem? hk
  rcases hframes with e | ⟨k', e, hengine⟩
  · rw [e] at hmem
    exact absurd hmem hnot
  · have hk' : k = k' := by
      rw [e] at hmem
      rcases List.mem_append.mp hmem with hm | hm
      · exact absurd hm hnot
      · exact List.mem_singleton.mp hm
    subst hk'
    have hlast : l.length ≤ p := by
      by_contra hlt
      rw [e, List.getElem?_append_left (by omega)] at hk
      exact hnot (List.mem_of_getElem? hk)
    have hended : c.engine = .ended := by
      rcases hengine with h | ⟨h, -⟩
      · exact h
      · obtain ⟨q', hq', hreceiving⟩ := horder.open_ k h
        cases hq.symm.trans hq'
        cases hgone.symm.trans hreceiving
    intro i' c' hi' hrun'
    cases hd.separate.runs i' i c' c hi' hi (hrun'.trans hrun.symm)
    cases hi.symm.trans hi'
    refine ⟨hended, ?_⟩
    rw [e, List.length_append, List.length_singleton]
    omega

/-- An answer is handed over, or the run of its request is spent. -/
theorem Sound.outcome_deliver (hd : Sound d) {now : Int} {record : InteractionRecord}
    (hm : Move d (d.next (.advanceResolve j now))) (hj : d.resolves[j]? = some r)
    (hst : r.stage = .sending record) (hx : x ∈ d.store.interactions.rows) (ho : Owes d r x) :
    Handed (d.next (.advanceResolve j now)) x ∨ Closed (d.next (.advanceResolve j now)) x.runId ∨
      ∃ r', (d.next (.advanceResolve j now)).resolves[j]? = some r' ∧
        Owes (d.next (.advanceResolve j now)) r' x := by
  rw [Owes, hst] at ho
  obtain ⟨hid, hstatus, hentry⟩ := ho
  obtain ⟨e, hlook⟩ := Option.isSome_iff_exists.mp hentry
  obtain ⟨he, heid⟩ := lookup_eq_some hlook
  obtain ⟨q, hq, hinfo, -⟩ := hd.healthy.linked.owner e he
  have hnext : d.next (.advanceResolve j now) = d.deliver j r record := by
    rw [ResolveState.next, ResolveState.advanceResolve, hj]
    dsimp only
    rw [hst]
  have hdelivered : ((d.broker.lookup r.params.approvalId).bind
      (d.broker.requests[·.request]?)).any (·.stage.receiving) = q.stage.receiving := by
    rw [hid, hlook, Option.bind_some, hq]
    rfl
  cases hreceiving : q.stage.receiving with
  | true =>
    have hsend : Request.send r.approved q = { q with channel := .sent r.approved } :=
      if_pos hreceiving
    refine .inl ⟨e.request, Request.send r.approved q, ?_, ?_, ?_⟩
    · have hreleased : (d.broker.release x.id (Request.send r.approved)).requests[e.request]? =
          some (Request.send r.approved q) := by
        rw [Broker.release, hlook, requests_edit, if_pos rfl]
        dsimp only
        rw [hq]
        rfl
      rw [hnext, ResolveState.deliver]
      rw [hdelivered, hreceiving, if_pos rfl, hid]
      exact hreleased
    · rw [hsend]
      exact (congrArg _ hinfo).trans heid
    · rw [hsend, hstatus]
      cases r.approved <;> rfl
  | false =>
    rcases hd.origin x hx with hp | ⟨-, hclosed⟩
    · have hspent := hd.spent hp hq ((congrArg _ hinfo).trans heid)
        (hd.healthy.open_ e he q hq) hreceiving
      have hspent' := hspent.move hm (hd.dequeued hx)
      refine .inr (.inr ⟨{ r with stage := .checking (executorGone r.params.approvalId) }, ?_,
        hid, hspent'⟩)
      rw [hnext, ResolveState.deliver]
      rw [hdelivered, hreceiving, if_neg Bool.false_ne_true]
      exact Slots.modify_self hj _
    · exact .inr (.inl (hclosed.next hm))

/-- The interaction is read again as it was answered. -/
theorem Sound.outcome_recheck (hd : Sound d) {now : Int} {error : ErrorText}
    (hm : Move d (d.next (.advanceResolve j now))) (hj : d.resolves[j]? = some r)
    (hst : r.stage = .checking error) (hx : x ∈ d.store.interactions.rows) (hans : Answered x)
    (ho : Owes d r x) :
    ∃ r', (d.next (.advanceResolve j now)).resolves[j]? = some r' ∧
      Owes (d.next (.advanceResolve j now)) r' x := by
  rw [Owes, hst] at ho
  obtain ⟨hid, hspent⟩ := ho
  obtain ⟨run, hrun⟩ := (hd.dequeued hx).exists_run
  have hread : d.store.readInteraction r.params.approvalId = some (x.record run.sessionId) := by
    rw [hid]
    exact readInteraction_eq (Table.find?_of_mem hx) hrun
  have hnext : d.next (.advanceResolve j now) = d.setStage j (.finishing x.runId error) := by
    rw [ResolveState.next, ResolveState.advanceResolve, hj]
    dsimp only
    rw [hst]
    dsimp only
    rw [ResolveState.recheck, hread]
    exact if_pos hans
  refine ⟨{ r with stage := .finishing x.runId error }, ?_, hid, rfl,
    hspent.move hm (hd.dequeued hx)⟩
  rw [hnext]
  exact Slots.modify_self hj _

/-- The run of an answer that no one has is finished, unless it has ended on its own. -/
theorem Sound.outcome_finish (hd : Sound d) {now : Int} {runId : RunId} {error : ErrorText}
    (hm : Move d (d.next (.advanceResolve j now))) (hj : d.resolves[j]? = some r)
    (hst : r.stage = .finishing runId error) (hx : x ∈ d.store.interactions.rows)
    (ho : Owes d r x) : Closed (d.next (.advanceResolve j now)) x.runId := by
  rw [Owes, hst] at ho
  obtain ⟨-, rfl, hspent⟩ := ho
  refine ⟨?_, hspent.move hm (hd.dequeued hx)⟩
  have hnext : (d.next (.advanceResolve j now)).store =
      d.store.next (.finish x.runId .unknownAfterRestart none
        (some (-32002, "审批执行体已消失")) now) := by
    rw [ResolveState.next, ResolveState.advanceResolve, hj]
    dsimp only
    rw [hst]
    rfl
  obtain ⟨run, hrun⟩ := (hd.dequeued hx).exists_run
  obtain ⟨ops, hops⟩ := hd.stored
  rw [hnext]
  exact finish_next_ended (hops ▸ journal_sound ops) hrun rfl none _ now

/-- The call that stands between an answer and its outcome goes on. -/
theorem Sound.outcome_advance (hd : Sound d) {now : Int}
    (hm : Move d (d.next (.advanceResolve j now))) (hj : d.resolves[j]? = some r)
    (hx : x ∈ d.store.interactions.rows) (hans : Answered x) (ho : Owes d r x) :
    Handed (d.next (.advanceResolve j now)) x ∨ Closed (d.next (.advanceResolve j now)) x.runId ∨
      ∃ r', (d.next (.advanceResolve j now)).resolves[j]? = some r' ∧
        Owes (d.next (.advanceResolve j now)) r' x := by
  cases hst : r.stage with
  | sending record => exact hd.outcome_deliver hm hj hst hx ho
  | checking error => exact .inr (.inr (hd.outcome_recheck hm hj hst hx hans ho))
  | finishing runId error => exact .inr (.inl (hd.outcome_finish hm hj hst hx ho))
  | _ =>
    rw [Owes, hst] at ho
    exact ho.elim

theorem Sound.outcome_next (hd : Sound d) (hm : Move d (d.next a))
    (hy : y ∈ (d.next a).store.interactions.rows) (hans : Answered y) :
    Handed (d.next a) y ∨ Closed (d.next a) y.runId ∨
      ∃ (j : Nat) (r : Resolve), (d.next a).resolves[j]? = some r ∧ Owes (d.next a) r y := by
  rcases hd.row hm hy with hold | ⟨x, -, -, -, -, horphaned | howes⟩ | ⟨hpending, -⟩
  · rcases hd.outcome y hold hans with h | h | ⟨j, r, hj, ho⟩
    · exact .inl (h.move hm)
    · exact .inr (.inl (h.next hm))
    · rcases resolve_next hj a with hj' | ⟨now, rfl⟩
      · exact .inr (.inr ⟨j, r, hj', hd.owes_next hm hj hj' hold ho⟩)
      · exact (hd.outcome_advance hm hj hold hans ho).imp_right (·.imp_right fun h => ⟨j, h⟩)
  · rcases hans with h | h <;> cases h.symm.trans horphaned
  · exact .inr (.inr howes)
  · rcases hans with h | h <;> cases h.symm.trans hpending

theorem Sound.next (hd : Sound d) (a : ResolveAction) : Sound (d.next a) where
  stored := hd.stored_next a
  healthy := (next_touch d a).healthy hd.healthy
  separate := hd.separate.move (next_move hd.healthy hd.separate a) fun _ => dequeued_step a
  held := hd.held.next a
  origin := hd.origin_next (next_move hd.healthy hd.separate a)
  outcome _ := hd.outcome_next (next_move hd.healthy hd.separate a)
  repeated _ _ _ := hd.repeated_next

/-- No driver and no call is left by a restart, and no question is open. -/
theorem sound_init {s : RunStore} (hstored : ∃ ops, s = storeAfter ops)
    (hasked : ∀ x ∈ s.interactions.rows, x.status ≠ .pending ∧ s.Ended x.runId) :
    Sound ⟨Broker.init s, [], [], none⟩ where
  stored := hstored
  healthy := healthy_init s
  separate := by constructor <;> intro i <;> intros <;> contradiction
  held j r hj := by cases hj
  origin x hx := by
    obtain ⟨hst, hended⟩ := hasked x hx
    exact .inr ⟨hst, hended, fun i c hi => by cases hi⟩
  outcome x hx _ := .inr (.inl ⟨(hasked x hx).2, fun i c hi => by cases hi⟩)
  repeated j r current hj := by cases hj

theorem sound_boot {ops : List Op} {clock : Clock} {d₀ : ResolveState}
    (h : ResolveState.boot (storeAfter ops) clock = .ok d₀) : Sound d₀ := by
  rw [ResolveState.boot] at h
  cases hrecover : (storeAfter ops).recover clock with
  | error e =>
    rw [hrecover] at h
    cases h
  | ok p =>
    obtain ⟨n, s⟩ := p
    rw [hrecover] at h
    cases h
    exact sound_init ⟨_, storeAfter_recover hrecover⟩ (asked_of_recover hrecover)

/-! ## The outcomes -/

/-- The tool has the answer, or its run is over. -/
def HasOutcome (d : ResolveState) (x : Interaction) : Prop := Handed d x ∨ d.store.Ended x.runId

/-- What stands between an answer and its outcome is the call that holds `control_lock`. -/
theorem Owes.holds (ho : Owes d r x) : r.stage.holds = true ∧ r.params.approvalId = x.id := by
  unfold Owes at ho
  split at ho
  · rename_i hst
    exact ⟨by rw [hst]; rfl, ho.1⟩
  · rename_i hst
    exact ⟨by rw [hst]; rfl, ho.1⟩
  · rename_i hst
    exact ⟨by rw [hst]; rfl, ho.1⟩
  · exact ho.elim

theorem Sound.closed_of_free (hd : Sound d) (hfree : d.control = none)
    (hx : x ∈ d.store.interactions.rows) (hans : Answered x) : Handed d x ∨ Closed d x.runId := by
  rcases hd.outcome x hx hans with h | h | ⟨j, r, hj, ho⟩
  · exact .inl h
  · exact .inr h
  · cases hfree.symm.trans (hd.held j r hj ho.holds.1)

/-- An outcome is not taken back. -/
theorem Sound.outcome_after (hd : Sound d) (h : Handed d x ∨ Closed d x.runId)
    (actions : List ResolveAction) : HasOutcome (after ResolveState.next d actions) x := by
  have hlater : Sound (after ResolveState.next d actions) ∧
      (Handed (after ResolveState.next d actions) x ∨
        Closed (after ResolveState.next d actions) x.runId) := by
    refine after_induct (I := fun d => Sound d ∧ (Handed d x ∨ Closed d x.runId))
      (fun d a hd _ => ⟨hd.1.next a, ?_⟩) ⟨hd, h⟩ (along_true _ _)
    have hm := next_move hd.1.healthy hd.1.separate a
    exact hd.2.imp (·.move hm) (·.next hm)
  exact hlater.2.imp_right (·.1)

/-- A call that returns gives `control_lock` back. -/
theorem control_of_returned {r' : Resolve} {result : ResolveResult} (hj : d.resolves[j]? = some r)
    (hrunning : ∀ result, r.stage ≠ .returned result)
    (hj' : (d.next a).resolves[j]? = some r') (hst : r'.stage = .returned result) :
    (d.next a).control = none := by
  have hmoved : r'.stage ≠ r.stage := fun e => hrunning result (e.symm.trans hst)
  rcases resolve_next hj a with h | ⟨now, rfl⟩
  · exact absurd (congrArg Resolve.stage (Option.some.inj (hj'.symm.trans h))) hmoved
  · have hmodify : ∀ {stage : ResolveStage},
        (d.next (.advanceResolve j now)).resolves = d.resolves.modify j ({ · with stage }) →
        stage = .returned result := by
      intro stage h
      rw [h] at hj'
      cases hj'.symm.trans (Slots.modify_self hj _)
      exact hst
    cases turn_advanceResolve hj now with
    | same h =>
      rw [ResolveState.next, h] at hj'
      exact absurd (congrArg Resolve.stage (Option.some.inj (hj'.symm.trans hj))) hmoved
    | lock _ _ h => cases hmodify h
    | stay stage _ hstage h =>
      rw [hmodify h] at hstage
      cases hstage
    | answer _ _ _ hcontrol => exact hcontrol

theorem Sound.after (hd : Sound d) (actions : List ResolveAction) :
    Sound (after ResolveState.next d actions) :=
  after_induct (I := Sound) (fun _ a h _ => h.next a) hd (along_true _ _)

/-- **Answers.** When a call returns, every answer in the store has its outcome and keeps it. In
between, an answer without one is that of the call which holds `control_lock`. -/
theorem answers_settled {ops : List Op} {clock : Clock} {d₀ : ResolveState}
    (hboot : ResolveState.boot (storeAfter ops) clock = .ok d₀) (actions : List ResolveAction) :
    let d := after ResolveState.next d₀ actions
    (∀ (j : Nat) (r r' : Resolve) (a : ResolveAction) (result : ResolveResult),
      d.resolves[j]? = some r → (∀ result, r.stage ≠ .returned result) →
      (d.next a).resolves[j]? = some r' → r'.stage = .returned result →
      ∀ x ∈ (d.next a).store.interactions.rows, Answered x →
        ∀ later, HasOutcome (after ResolveState.next (d.next a) later) x) ∧
    ∀ x ∈ d.store.interactions.rows, Answered x → HasOutcome d x ∨
      ∃ (j : Nat) (r : Resolve), d.control = some j ∧ d.resolves[j]? = some r ∧
        r.stage.holds = true ∧ r.params.approvalId = x.id := by
  intro d
  have hd : Sound d := (sound_boot hboot).after actions
  refine ⟨?_, ?_⟩
  · intro j r r' a result hj hrunning hj' hst x hx hans later
    have hfree := control_of_returned hj hrunning hj' hst
    exact (hd.next a).outcome_after ((hd.next a).closed_of_free hfree hx hans) later
  · intro x hx hans
    rcases hd.outcome x hx hans with h | h | ⟨j, r, hj, ho⟩
    · exact .inl (.inl h)
    · exact .inl (.inr h.1)
    · obtain ⟨hholds, hid⟩ := ho.holds
      exact .inr ⟨j, r, hd.held j r hj hholds, hj, hholds, hid⟩

/-- A store with a run that is about to start. -/
def oneQueued : RunStore := storeAfter [.admitWithRoute ⟨"s"⟩ (.number 1) "hi" .queue none 0]

/-- The turn of a run that asked for an approval is dropped, and then the approval is given. -/
def lostAnswer : List ResolveAction :=
  [.start ⟨⟨"s"⟩, .number 1⟩ ⟨"run-1"⟩ (fun _ => 0), .ask 0 "rm" 7 9, .advanceRequest 0,
    .advanceRequest 0, .receive 0, .endTurn 0,
    .resolve ⟨approvalId 7 9 0, some true, none, none, none⟩ false, .advanceResolve 0 0,
    .advanceResolve 0 0, .advanceResolve 0 0, .advanceResolve 0 0, .advanceResolve 0 0]

/-- The caller gets an error, and its answer has an outcome. -/
theorem answers_settled_lost : ∃ d₀, ResolveState.boot oneQueued (fun _ => 0) = .ok d₀ ∧
    let d := (after ResolveState.next d₀ lostAnswer).next (.advanceResolve 0 0)
    ∃ x ∈ d.store.interactions.rows, Answered x ∧
      ∀ later, HasOutcome (after ResolveState.next d later) x := by
  have hrun : (ResolveState.boot oneQueued (fun _ => 0)).toOption.map (fun d₀ =>
      let d := after ResolveState.next d₀ lostAnswer
      let d' := d.next (.advanceResolve 0 0)
      (d.resolves[0]?.map Resolve.stage, d'.resolves[0]?.map Resolve.stage,
        d'.store.interactions.rows.map Interaction.status)) =
      some (some (.finishing ⟨"run-1"⟩ (executorGone (approvalId 7 9 0))),
        some (.returned (.failed requestConflict (executorGone (approvalId 7 9 0)))),
        [.answered]) := by
    decide +kernel
  obtain ⟨d₀, hboot, e⟩ := Option.map_eq_some_iff.mp hrun
  obtain ⟨hbefore, e⟩ := Prod.mk.inj e
  obtain ⟨hafter, hrows⟩ := Prod.mk.inj e
  obtain ⟨r, hj, hst⟩ := Option.map_eq_some_iff.mp hbefore
  obtain ⟨r', hj', hst'⟩ := Option.map_eq_some_iff.mp hafter
  have hmem : InteractionStatus.answered ∈ [InteractionStatus.answered] := List.mem_singleton_self _
  rw [← hrows] at hmem
  obtain ⟨x, hx, hans⟩ := List.mem_map.mp hmem
  cases hb : ResolveState.boot oneQueued (fun _ => 0) with
  | error e =>
    rw [hb] at hboot
    cases hboot
  | ok d =>
    rw [hb] at hboot
    cases hboot
    refine ⟨_, rfl, x, hx, .inl hans, ?_⟩
    exact (answers_settled hb lostAnswer).1 0 r r' (.advanceResolve 0 0) _ hj
      (fun result h => by cases hst.symm.trans h) hj' hst' x hx (.inl hans)

end Answers

end AgentDaemon.Daemon.Resolving
