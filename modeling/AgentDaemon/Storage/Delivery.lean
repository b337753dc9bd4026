import AgentDaemon.Storage.Lifecycle

/-!
Delivery of child results. The lease on a child result is compared and set on its owner and
revision, a revision only grows, and `delivered` has no way out, so at most one owner delivers a
result (`deliversOnce_after`). That the delivered verdict cannot change afterwards needs two
more facts, which `Leases` carries through every run: a lease is granted only on the result of a
child that has ended, and the delegation row of a child says it has ended only when its run has.
-/

namespace AgentDaemon.Storage

open Transition

/-! ## Children in the control state -/

namespace Control

def child? (c : Control) (id : RunId) : Option ChildView := c.children.find? fun d => d.runId = id

theorem child?_map (c : Control) (f : ChildView → ChildView) (hf : ∀ d, (f d).runId = d.runId)
    (id : RunId) : ({ c with children := c.children.map f }.child? id) = (c.child? id).map f := by
  simp only [child?]
  induction c.children with
  | nil => rfl
  | cons d ds ih =>
    simp only [List.map_cons, List.find?_cons, hf]
    split
    · rfl
    · exact ih

theorem id_of_child? {c : Control} {id : RunId} {d : ChildView} (h : c.child? id = some d) :
    d.runId = id := by
  simpa using List.find?_some h

theorem mem_of_child? {c : Control} {id : RunId} {d : ChildView} (h : c.child? id = some d) :
    d ∈ c.children := List.mem_of_find?_eq_some h

end Control

theorem RunStore.control_child? (s : RunStore) (id : RunId) :
    s.control.child? id = (s.delegations.find? id).map Delegation.view := by
  simp only [Control.child?, control, Table.find?]
  induction s.delegations.rows with
  | nil => rfl
  | cons d rows ih =>
    have e : d.view.runId = d.childRunId := rfl
    simp only [List.map_cons, List.find?_cons, e]
    split
    · rfl
    · exact ih

/-- The lease on the result of a child. -/
def RunStore.lease? (s : RunStore) (child : RunId) : Option Lease :=
  (s.delegations.find? child).map Delegation.lease

theorem lease?_eq (s : RunStore) (child : RunId) :
    s.lease? child = (s.control.child? child).map ChildView.lease := by
  rw [RunStore.lease?, RunStore.control_child?, Option.map_map]
  rfl

/-! ## Leases only on results -/

/-- What ties the delegation rows to the runs. -/
structure Leases (c : Control) : Prop where
  /-- A child that its row calls ended has a run that has ended. -/
  tracks : ∀ d ∈ c.children, ∃ v, c.run? d.runId = some v ∧
    (d.status.terminal = true → v.verdict.status.terminal = true)
  /-- A lease is held, or was used, only on the result of an ended child. -/
  held : ∀ d ∈ c.children, d.lease.state ≠ .unconsumed → d.status.terminal = true

/-- A status written to a run and to its delegation row. -/
theorem Leases.write {c c' : Control} {run : RunId} (h : Leases c) (f : Verdict → Verdict)
    (status : RunStatus) (hruns : c'.runs = (c.updateRun run f).runs)
    (hchildren : c'.children = (c.updateChild run status).children)
    (hf : ∀ v, (f v).status = status)
    (hheld : ∀ d ∈ c.children, d.runId = run → d.lease.state ≠ .unconsumed →
      status.terminal = true) : Leases c' where
  tracks := by
    intro d hd
    rw [hchildren] at hd
    obtain ⟨e, he, rfl⟩ := List.mem_map.mp hd
    obtain ⟨v, hv, hterm⟩ := h.tracks e he
    have hid := Control.id_of_run? hv
    have hrun : c'.run? e.runId =
        some (if v.id = run then { v with verdict := f v.verdict } else v) := by
      rw [Control.run?, hruns]
      exact (Control.run?_updateRun c run e.runId f).trans (by rw [hv]; rfl)
    by_cases hr : e.runId = run
    · rw [if_pos hr]
      refine ⟨_, hrun, fun ht => ?_⟩
      rw [if_pos (hid.trans hr)]
      exact (congrArg RunStatus.terminal (hf v.verdict)).trans ht
    · rw [if_neg hr]
      refine ⟨_, hrun, fun ht => ?_⟩
      rw [if_neg (by rw [hid]; exact hr)]
      exact hterm ht
  held := by
    intro d hd hl
    rw [hchildren] at hd
    obtain ⟨e, he, rfl⟩ := List.mem_map.mp hd
    by_cases hr : e.runId = run
    · rw [if_pos hr] at hl ⊢
      exact hheld e he hr hl
    · rw [if_neg hr] at hl ⊢
      exact h.held e he hl

/-- A status written to a run that has not ended, and not to its delegation row. -/
theorem Leases.writeRun {c : Control} {run : RunId} (h : Leases c) (f : Verdict → Verdict)
    (hlive : ∀ v, c.run? run = some v → v.verdict.status.terminal = false) :
    Leases (c.updateRun run f) where
  tracks := by
    intro d hd
    obtain ⟨v, hv, hterm⟩ := h.tracks d hd
    have hid := Control.id_of_run? hv
    rw [Control.run?_updateRun, hv, Option.map_some]
    refine ⟨_, rfl, fun ht => ?_⟩
    by_cases hr : d.runId = run
    · have := hlive v (hr ▸ hv)
      rw [hterm ht] at this
      cases this
    · rw [if_neg (by rw [hid]; exact hr)]
      exact hterm ht
  held := h.held

theorem Leases.apply {c : Control} {ch : Change} (h : Leases c)
    (hen : ch.Enabled c ∧ ch.Awaits RunStatus.active c) : Leases (ch.apply c) := by
  obtain ⟨hen, haw⟩ := hen
  -- A held lease belongs to a run that has ended.
  have hended : ∀ d ∈ c.children, d.lease.state ≠ .unconsumed → ∀ v, c.run? d.runId = some v →
      v.verdict.status.terminal = true := by
    intro d hd hl v hv
    obtain ⟨w, hw, hterm⟩ := h.tracks d hd
    cases hv.symm.trans hw
    exact hterm (h.held d hd hl)
  cases ch with
  | admitted run session child =>
    obtain ⟨hfresh, hchild⟩ := hen
    have hrun : ∀ id v, c.run? id = some v →
        (Change.apply c (.admitted run session child)).run? id = some v := fun id v hv =>
      Change.run?_apply_of_ne (by simp [Change.target]) hv
    have hmem : ∀ d ∈ (Change.apply c (.admitted run session child)).children, d ∈ c.children ∨
        d = ⟨run, .queued, ⟨.unconsumed, none, 0⟩⟩ := by
      intro d hd
      rcases List.mem_append.mp hd with hd | hd
      · exact .inl hd
      · cases child with
        | true => exact .inr (List.mem_singleton.mp hd)
        | false => cases hd
    constructor
    · intro d hd
      rcases hmem d hd with hd | rfl
      · obtain ⟨v, hv, hterm⟩ := h.tracks d hd
        exact ⟨v, hrun _ v hv, hterm⟩
      · refine ⟨⟨run, session, ⟨.queued, none, none, none⟩⟩, ?_, fun ht => by cases ht⟩
        simp only [Control.run?, Change.apply] at hfresh ⊢
        rw [List.find?_append, hfresh]
        simp
    · intro d hd hl
      rcases hmem d hd with hd | rfl
      · exact h.held d hd hl
      · exact absurd rfl hl
  | started run =>
    refine h.write ({ · with status := .running }) .running rfl rfl (fun _ => rfl) ?_
    intro d hd hid hl
    obtain ⟨v, hv, hst, -⟩ := hen
    have := hended d hd hl v (hid ▸ hv)
    simp [hst, RunStatus.terminal] at this
  | removed run =>
    exact h.write ({ · with status := .cancelled }) .cancelled rfl rfl (fun _ => rfl)
      fun _ _ _ _ => rfl
  | awaiting run =>
    refine h.writeRun ({ · with status := .waitingInteraction }) fun v hv => ?_
    have := haw run v rfl hv
    cases e : v.verdict.status <;> simp_all [RunStatus.active, RunStatus.terminal]
  | resumed run =>
    refine h.writeRun ({ · with status := .running }) fun v hv => ?_
    obtain ⟨w, hw, hst⟩ := hen
    cases hv.symm.trans hw
    rw [hst]
    rfl
  | finished run v =>
    exact h.write (fun _ => v) v.status rfl rfl (fun _ => rfl) fun _ _ _ _ => hen.1
  | reconciled run v =>
    refine h.write (fun _ => v) v.status rfl rfl (fun _ => rfl) fun _ _ _ _ => ?_
    rcases hen.1 with e | e | e <;> rw [e] <;> rfl
  | lost run =>
    exact h.write ({ · with status := .unknownAfterRestart }) .unknownAfterRestart rfl rfl
      (fun _ => rfl) fun _ _ _ _ => rfl
  | prepared run tools => exact ⟨h.tracks, h.held⟩
  | toolMoved key source target => exact ⟨h.tracks, h.held⟩
  | leased child lease =>
    have hmem : ∀ d ∈ (Change.apply c (.leased child lease)).children, ∃ e ∈ c.children,
        d.runId = e.runId ∧ d.status = e.status ∧
          (d.lease = e.lease ∨ e.lease.Moves e.status d.lease) := by
      intro d hd
      obtain ⟨e, he, rfl⟩ := List.mem_map.mp hd
      refine ⟨e, he, ?_⟩
      by_cases hid : e.runId = child
      · rw [if_pos hid]
        exact ⟨rfl, rfl, .inr (hen e he hid)⟩
      · rw [if_neg hid]
        exact ⟨rfl, rfl, .inl rfl⟩
    constructor
    · intro d hd
      obtain ⟨e, he, hid, hst, -⟩ := hmem d hd
      rw [hid, hst]
      exact h.tracks e he
    · intro d hd hl
      obtain ⟨e, he, -, hst, hlease⟩ := hmem d hd
      rw [hst]
      rcases hlease with hsame | hmove
      · exact h.held e he (hsame ▸ hl)
      · cases e' : d.lease with
        | mk state owner revision =>
          rw [e'] at hmove
          cases hmove with
          | reserve hs _ _ => exact hs
          | release _ _ => exact absurd (by rw [e']) hl
          | deliver hr _ => exact h.held e he (by rw [hr]; simp)

theorem leases_after {ops : List Op} (h : Along RunStore.next ApprovalsOnActive .empty ops) :
    Leases (storeAfter ops).control := by
  refine control_induct (fun c ch hc hen => hc.apply hen) ?_
    (along_mono h fun s op _ hg => hg.approvalsOn)
  exact ⟨fun d hd => (by cases hd), fun d hd => (by cases hd)⟩

/-! ## A lease only moves on -/

/-- A lease is kept, or gives way to one of a greater revision, and a used one stays. -/
def Lease.Before (l l' : Lease) : Prop :=
  l = l' ∨ l.revision < l'.revision ∧ l.state ≠ .delivered

theorem Lease.Before.trans {a b c : Lease} (hab : a.Before b) (hbc : b.Before c) :
    a.Before c := by
  rcases hab with rfl | ⟨h, hd⟩
  · exact hbc
  · rcases hbc with rfl | ⟨h', -⟩
    · exact .inr ⟨h, hd⟩
    · exact .inr ⟨Int.lt_trans h h', hd⟩

theorem Lease.Moves.before {status : RunStatus} {l l' : Lease} (h : l.Moves status l') :
    l.Before l' := by
  cases h with
  | reserve _ hl hr => exact .inr ⟨hr, hl⟩
  | release hl _ => exact .inr ⟨Int.lt_succ _, by simp [hl]⟩
  | deliver hl _ => exact .inr ⟨Int.lt_succ _, by simp [hl]⟩

/-- The child has a lease that comes after `l`. -/
def LeasedFrom (child : RunId) (l : Lease) (c : Control) : Prop :=
  ∃ d, c.child? child = some d ∧ l.Before d.lease

theorem LeasedFrom.apply {child : RunId} {l : Lease} {c : Control} {ch : Change}
    (h : LeasedFrom child l c) (hen : ch.Enabled c) : LeasedFrom child l (ch.apply c) := by
  obtain ⟨d, hd, hl⟩ := h
  have hstatus : ∀ (run : RunId) (status : RunStatus),
      LeasedFrom child l (c.updateChild run status) := by
    intro run status
    refine ⟨_, (Control.child?_map c _ (fun e => ?_) child).trans (by rw [hd]; rfl), ?_⟩
    · split <;> rfl
    · dsimp only
      split <;> exact hl
  cases ch with
  | admitted run session new =>
    refine ⟨d, ?_, hl⟩
    simp only [Control.child?, Change.apply] at hd ⊢
    rw [List.find?_append, hd]
    rfl
  | started run => exact hstatus run .running
  | removed run => exact hstatus run .cancelled
  | finished run v => exact hstatus run v.status
  | reconciled run v => exact hstatus run v.status
  | lost run => exact hstatus run .unknownAfterRestart
  | awaiting run => exact ⟨d, hd, hl⟩
  | resumed run => exact ⟨d, hd, hl⟩
  | prepared run tools => exact ⟨d, hd, hl⟩
  | toolMoved key source target => exact ⟨d, hd, hl⟩
  | leased new lease =>
    refine ⟨_, (Control.child?_map c _ (fun e => ?_) child).trans (by rw [hd]; rfl), ?_⟩
    · split <;> rfl
    · dsimp only
      split
      · rename_i hid
        exact hl.trans (hen d (Control.mem_of_child? hd) hid).before
      · exact hl

theorem lease?_after {s : RunStore} {child : RunId} {l : Lease} (ops : List Op)
    (h : s.lease? child = some l) :
    ∃ l', (after RunStore.next s ops).lease? child = some l' ∧ l.Before l' := by
  rw [lease?_eq, Option.map_eq_some_iff] at h
  obtain ⟨d, hd, rfl⟩ := h
  obtain ⟨e, he, hl⟩ := control_induct (P := fun _ => true) (I := LeasedFrom child d.lease)
    (fun c ch hc hen => hc.apply hen.1) ⟨d, hd, .inl rfl⟩
    (along_mono (along_true s ops) fun s op _ _ => approvalsOn_any s op)
  exact ⟨e.lease, by rw [lease?_eq, he]; rfl, hl⟩

/-! ## Deliveries -/

/-- A successful delivery of the result of `child` to `owner`. -/
def Delivers (s : RunStore) (op : Op) (child : RunId) (owner : String) : Prop :=
  ∃ revision clock reply s', op = .deliverDelegationResult child owner revision clock ∧
    s.exec op = .ok (reply, s')

/-- Child results are delivered exactly once. -/
structure DeliversOnce (ops : List Op) : Prop where
  /-- Two successful deliveries of one result are to one owner. -/
  oneOwner : ∀ pre op mid op' post, ops = pre ++ op :: mid ++ op' :: post →
    ∀ child owner owner', Delivers (storeAfter pre) op child owner →
      Delivers (storeAfter (pre ++ op :: mid)) op' child owner' → owner = owner'
  /-- A delivered result stays delivered, to its owner and with its revision. -/
  absorbing : ∀ pre mid post, ops = pre ++ mid ++ post → ∀ child l,
    (storeAfter pre).lease? child = some l → l.state = .delivered →
      (storeAfter (pre ++ mid)).lease? child = some l
  /-- Status, content and error of a delivered child are final. -/
  frozen : ∀ pre mid post, ops = pre ++ mid ++ post → ∀ child l,
    (storeAfter pre).lease? child = some l → l.state = .delivered →
      ∃ v, (storeAfter pre).verdict? child = some v ∧ v.status.terminal = true ∧
        (storeAfter (pre ++ mid)).verdict? child = some v
  /-- A lease that gives way gives way to a greater revision, so an old revision stays stale. -/
  fresh : ∀ pre mid post, ops = pre ++ mid ++ post → ∀ child l,
    (storeAfter pre).lease? child = some l → ∃ l',
      (storeAfter (pre ++ mid)).lease? child = some l' ∧ (l = l' ∨ l.revision < l'.revision)
  /-- Only the holder of the current lease releases or delivers: a caller with another owner or
  another revision gets an error, and nothing changes. -/
  stale : ∀ pre op post, ops = pre ++ op :: post → ∀ child l owner revision clock,
    (storeAfter pre).lease? child = some l → l.state = .reserved →
      l.owner ≠ some owner ∨ l.revision ≠ revision →
      op = .releaseDelegationResult child owner revision clock ∨
        op = .deliverDelegationResult child owner revision clock →
      (∃ e, (storeAfter pre).exec op = .error e) ∧ storeAfter (pre ++ [op]) = storeAfter pre

/-- After a successful delivery the owner has the result. -/
theorem lease?_of_delivers {s : RunStore} {op : Op} {child : RunId} {owner : String}
    (h : Delivers s op child owner) :
    ∃ l, (s.next op).lease? child = some l ∧ l.state = .delivered ∧ l.owner = some owner := by
  obtain ⟨revision, clock, reply, s', rfl, hx⟩ := h
  obtain ⟨chs, ⟨d, hd, hp⟩, -, hc⟩ := simulation hx
  have hchild : s.control.child? child = some d.view := by
    rw [RunStore.control_child?, hd]
    rfl
  rw [RunStore.next_of_ok hx, lease?_eq, hc]
  rcases hp with ⟨hst, howner, rfl⟩ | ⟨hlease, rfl⟩
  · exact ⟨d.lease, by rw [after_nil, hchild]; rfl, hst, howner⟩
  · refine ⟨⟨.delivered, some owner, revision + 1⟩, ?_, rfl, rfl⟩
    simp only [after_cons, after_nil, Change.apply]
    rw [Control.child?_map _ _ (fun e => by split <;> rfl), hchild, Option.map_some,
      if_pos (Control.id_of_child? hchild)]
    rfl

/-- A delivered result is delivered again only to its owner. -/
theorem owner_of_delivers {s : RunStore} {op : Op} {child : RunId} {owner : String} {l : Lease}
    (h : Delivers s op child owner) (hl : s.lease? child = some l) (hst : l.state = .delivered) :
    l.owner = some owner := by
  obtain ⟨revision, clock, reply, s', rfl, hx⟩ := h
  obtain ⟨chs, ⟨d, hd, hp⟩, -, -⟩ := simulation hx
  rw [RunStore.lease?, hd, Option.map_some, Option.some.injEq] at hl
  rcases hp with ⟨-, howner, -⟩ | ⟨hlease, -⟩
  · rw [← hl]
    exact howner
  · rw [← hl, hlease] at hst
    cases hst

theorem delivered_after {s : RunStore} {child : RunId} {l : Lease} (ops : List Op)
    (hl : s.lease? child = some l) (hst : l.state = .delivered) :
    (after RunStore.next s ops).lease? child = some l := by
  obtain ⟨l', hl', rfl | ⟨-, hne⟩⟩ := lease?_after ops hl
  · exact hl'
  · exact absurd hst hne

/-- The verdict of a child whose result was delivered. -/
structure Frozen (child : RunId) (l : Lease) (v : Verdict) (s : RunStore) : Prop where
  leases : Leases s.control
  lease : s.lease? child = some l
  verdict : s.verdict? child = some v

theorem Frozen.next {child : RunId} {l : Lease} {v : Verdict} {s : RunStore} {op : Op}
    (h : Frozen child l v s) (hst : l.state = .delivered) (ht : v.status.terminal = true)
    (hG : ApprovalsOnActive s op) : Frozen child l v (s.next op) where
  leases := control_next (fun c ch hc hen => hc.apply hen) h.leases hG.approvalsOn
  lease := delivered_after [op] h.lease hst
  verdict := by
    have hG' : ApprovalsOn (fun status => !status.terminal) s op := by
      intro id i r hop hi hr
      have := hG.approvalsOn id i r hop hi hr
      cases e : r.status <;> simp_all [RunStatus.active, RunStatus.terminal]
    rcases next_verdict? hG' h.verdict ht with h' | ⟨-, hop, reply, s', hx⟩
    · exact h'
    · -- A reconciliation needs the result unconsumed.
      obtain ⟨chs, hp, ha, -⟩ := simulation hx
      exfalso
      cases op <;> cases hop
      obtain ⟨rec, -, -, rfl⟩ := hp
      obtain ⟨⟨-, -, hun⟩, -⟩ := ha
      have hl := h.lease
      rw [lease?_eq, Option.map_eq_some_iff] at hl
      obtain ⟨d, hd, rfl⟩ := hl
      rw [hun d (Control.mem_of_child? hd) (Control.id_of_child? hd)] at hst
      cases hst

/-- **Exactly-once delivery.** -/
theorem deliversOnce_after (ops : List Op) (h : Along RunStore.next ApprovalsOnActive .empty ops) :
    DeliversOnce ops where
  oneOwner := by
    rintro pre op mid op' post - child owner owner' hd hd'
    obtain ⟨l, hl, hst, howner⟩ := lease?_of_delivers hd
    have hl' := delivered_after mid hl hst
    rw [storeAfter_append, after_cons] at hd'
    have := owner_of_delivers hd' hl' hst
    rw [howner, Option.some.injEq] at this
    exact this
  absorbing := by
    rintro pre mid post - child l hl hst
    rw [storeAfter_append]
    exact delivered_after mid hl hst
  frozen := by
    rintro pre mid post rfl child l hl hst
    rw [List.append_assoc, along_append, along_append] at h
    have hleases := leases_after h.1
    obtain ⟨d, hd, rfl⟩ := Option.map_eq_some_iff.mp ((lease?_eq _ _).symm.trans hl)
    have hm := Control.mem_of_child? hd
    obtain ⟨w, hw, hterm⟩ := hleases.tracks d hm
    have ht := hterm (hleases.held d hm (by rw [hst]; simp))
    rw [Control.id_of_child? hd] at hw
    have hv : (storeAfter pre).verdict? child = some w.verdict := by rw [verdict?_eq, hw]; rfl
    refine ⟨w.verdict, hv, ht, ?_⟩
    rw [storeAfter_append]
    exact (after_induct (I := Frozen child d.lease w.verdict)
      (fun s op hs hg => hs.next hst ht hg) ⟨hleases, hl, hv⟩ h.2.1).verdict
  fresh := by
    rintro pre mid post - child l hl
    obtain ⟨l', hl', hb⟩ := lease?_after mid hl
    rw [storeAfter_append]
    exact ⟨l', hl', hb.imp id And.left⟩
  stale := by
    rintro pre op post - child l owner revision clock hl hst hne hop
    have herr : ∃ e, (storeAfter pre).exec op = .error e := by
      cases hx : (storeAfter pre).exec op with
      | error e => exact ⟨e, rfl⟩
      | ok p =>
        exfalso
        obtain ⟨reply, s'⟩ := p
        obtain ⟨chs, hp, -, -⟩ := simulation hx
        rw [RunStore.lease?, Option.map_eq_some_iff] at hl
        obtain ⟨d, hd, rfl⟩ := hl
        have hcur : d.lease = ⟨.reserved, some owner, revision⟩ := by
          rcases hop with rfl | rfl
          · obtain ⟨⟨e, he, hlease⟩, -⟩ := hp
            rw [Option.some.inj (hd.symm.trans he)]
            exact hlease
          · obtain ⟨e, he, ⟨hst', -⟩ | ⟨hlease, -⟩⟩ := hp
            · rw [Option.some.inj (hd.symm.trans he), hst'] at hst
              cases hst
            · rw [Option.some.inj (hd.symm.trans he)]
              exact hlease
        rcases hne with hne | hne
        · exact hne (by rw [hcur])
        · exact hne (by rw [hcur])
    obtain ⟨e, he⟩ := herr
    refine ⟨⟨e, he⟩, ?_⟩
    rw [storeAfter_append]
    exact RunStore.next_of_error he

/-- A parent spawns a child, the child completes, and its result is reserved and delivered. -/
def oneDelivery : List Op :=
  [.admitWithRoute ⟨"p"⟩ (.number 1) "task" .queue none 0,
    .tryStartQueued (runIdOf 1) fun _ => 0,
    .admitDelegation ⟨⟨"p"⟩, runIdOf 1, ⟨"c"⟩, "k", "sub", ["read"], "ask", "/", 1, 1, 1, 10⟩
      fun _ => 0,
    .tryStartQueued (runIdOf 2) fun _ => 0,
    .finish (runIdOf 2) .completed (some "done") none 0,
    .reserveDelegationResult (runIdOf 2) "owner" 0 fun _ => 0,
    .deliverDelegationResult (runIdOf 2) "owner" 1 fun _ => 0]

theorem deliversOnce_oneDelivery :
    (storeAfter oneDelivery).lease? (runIdOf 2) = some ⟨.delivered, some "owner", 2⟩ ∧
      DeliversOnce oneDelivery := by
  refine ⟨by decide, deliversOnce_after oneDelivery ?_⟩
  refine along_mono (along_true _ _) fun s op hm _ id r happ => ?_
  simp only [oneDelivery, List.mem_cons, List.not_mem_nil, or_false] at hm
  rcases hm with rfl | rfl | rfl | rfl | rfl | rfl | rfl <;> cases happ

end AgentDaemon.Storage
