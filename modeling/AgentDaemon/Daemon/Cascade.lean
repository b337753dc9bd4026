import AgentDaemon.Daemon.Actions
import AgentDaemon.Daemon.Descendants
import AgentDaemon.Daemon.Handover

/-!
The cascade of `cancel`. It goes down the tree of the run with a list that it has read once, and
drops the control lock between two runs. When it returns, every run below is stopped, along every
interleaving in which no run slips through (`complete_after`): no listed run gets a new sub-agent
meanwhile, and no `cancel_one` gives its run up.
-/

namespace AgentDaemon.Daemon

open Provider Storage Transition

/-- Past `active.insert`. -/
def ChatStage.entered : ChatStage → Bool
  | .freezing | .admitted => false
  | _ => true

/-- A driver of the run was registered, and its token is cancelled. -/
def Told (d : DaemonState) (id : RunId) : Prop :=
  ∃ (i : Nat) (c : Chat), d.chats[i]? = some c ∧ c.runId = id ∧ c.stage.entered = true ∧
    c.cancelled = true

/-- The run is terminal, or has its token cancelled. -/
def Stopped (d : DaemonState) (id : RunId) : Prop := d.store.Ended id ∨ Told d id

/-- The stages whose store call can fail. -/
def CancelStage.calls : CancelStage → Bool
  | .reading | .removing _ | .rereading _ => true
  | _ => false

/-- The cancel has cancelled `root` and is on its way through the runs below. -/
structure Cancel.Cascades (c : Cancel) (root : RunId) : Prop where
  root : c.root = some (true, root)
  listed : c.stage ≠ .listing
  going : ∀ result, c.stage ≠ .returned result

/-- The ways in which a run slips through the cascade `c`, the `cancel` at `j`, below `root`. -/
inductive Slips (d : DaemonState) (j : Nat) (c : Cancel) (root : RunId) : DaemonAction → Prop
  /-- A run at or below `root` gets a new sub-agent. -/
  | spawned {request : DelegationRequest} {env : Env} {p : DelegationRecord × RunStore}
      (hcontrol : d.control = some (.spawn request)) (hok : env.fails = false)
      (hparent : request.parentRunId = root ∨ d.store.Below root request.parentRunId)
      (hnew : spawned d.store request = false)
      (hx : d.store.admitDelegation request env.clock = .ok p) : Slips d j c root (.spawnAdmit env)
  /-- A store call for a run that is not stopped fails. -/
  | failed {id : RunId} {env : Env} (hst : c.stage.calls = true) (hid : c.params.runId = some id)
      (hfails : env.fails = true) (hlive : ¬ Stopped d id) :
      Slips d j c root (.advanceCancel j env)
  /-- A run that is going has no registered driver. -/
  | undriven {run : RunRecord} {env : Env} (hst : c.stage = .marking run)
      (htoken : d.tokenOf run.key run.runId = none) (hlive : ¬ Stopped d run.runId) :
      Slips d j c root (.advanceCancel j env)
  /-- A turn whose run was ended under it asks for an approval, and the run goes on. -/
  | revived {i : Nat} {chat : Chat} {op : Op} (hi : d.chats[i]? = some chat)
      (hst : chat.stage = .running) (hop : op.approvalRun = some chat.runId)
      (hbelow : d.store.Below root chat.runId) (hended : d.store.Ended chat.runId)
      (hback : ¬ (d.store.next op).Ended chat.runId) (hlive : ¬ Told d chat.runId) :
      Slips d j c root (.engine i op)

/-- No run slips through a cascade under way. -/
def Tight (d : DaemonState) (a : DaemonAction) : Prop :=
  ∀ (j : Nat) c root, d.cancels[j]? = some c → c.Cascades root → ¬ Slips d j c root a

/-- A `cancel` that returns, having cancelled its run, leaves every run below stopped. -/
def Complete (d : DaemonState) (a : DaemonAction) : Prop :=
  ∀ (j : Nat) c c' root, d.cancels[j]? = some c → (∀ result, c.stage ≠ .returned result) →
    (d.next a).cancels[j]? = some c' → c'.stage = .returned (.found true root) →
      ∀ id, (d.next a).store.Below root id → Stopped (d.next a) id

/-! ## Stopped runs stay stopped -/

section Stopped

variable {d d' : DaemonState} {a : DaemonAction}

theorem ChatStage.entered_of_held {st : ChatStage} (h : st.held = true) : st.entered = true := by
  cases st <;> first | rfl | cases h

/-- A chat that was registered keeps its token. -/
theorem Effect.entered (h : Effect d a d') {k : Nat} {c : Chat} (hk : d.chats[k]? = some c)
    (hst : c.stage.entered = true) : ∃ c', d'.chats[k]? = some c' ∧ c'.runId = c.runId ∧
      c'.stage.entered = true ∧ (c.cancelled = true → c'.cancelled = true) := by
  have hmodify : ∀ {i : Nat} {c₀ : Chat} {f : Chat → Chat}, d.chats[i]? = some c₀ →
      d'.chats = d.chats.modify i f → ((f c₀).runId = c₀.runId ∧
        (c₀.stage.entered = true → (f c₀).stage.entered = true ∧
          (c₀.cancelled = true → (f c₀).cancelled = true))) →
        ∃ c', d'.chats[k]? = some c' ∧ c'.runId = c.runId ∧ c'.stage.entered = true ∧
          (c.cancelled = true → c'.cancelled = true) := by
    intro i c₀ f hi hc hf
    refine ⟨_, (reshaped_modify hc).some hk, ?_⟩
    split
    · rename_i e
      subst e
      cases hi.symm.trans hk
      exact ⟨hf.1, (hf.2 hst).1, (hf.2 hst).2⟩
    · exact ⟨rfl, hst, id⟩
  cases h with
  | quiet _ _ hc | call _ _ _ _ _ _ _ hc | engine _ _ _ _ _ _ _ _ hc
  | removed _ _ _ _ _ _ _ _ hc | lost _ _ _ _ _ _ _ hc => exact ⟨c, hc ▸ hk, rfl, hst, id⟩
  | admitted _ _ _ _ _ _ _ _ _ _ hc =>
    refine ⟨c, ?_, rfl, hst, id⟩
    rw [hc]
    exact Slots.append_of_some hk _
  | turn i c₀ st hi ht _ _ hc =>
    refine hmodify hi hc ⟨rfl, fun he => ⟨?_, id⟩⟩
    cases hs : c₀.stage <;> rw [hs] at ht he <;> cases ht <;> first | rfl | cases he
  | duplicate i _ hi _ _ _ _ hc | arm i _ hi _ _ _ hc | failed i _ hi _ _ _ _ hc
  | started i _ _ hi _ _ _ hc | refused i _ _ hi _ _ _ hc | aborted i _ _ _ _ hi _ _ _ _ hc
  | committed i _ _ _ _ _ _ hi _ _ _ hc => exact hmodify hi hc ⟨rfl, fun _ => ⟨rfl, id⟩⟩
  | register i c₀ hi hs _ _ _ _ hc =>
    refine hmodify hi hc ⟨rfl, fun he => ?_⟩
    rw [hs] at he
    cases he
  | left i c₀ st hi ht _ _ hc =>
    refine hmodify hi hc ⟨rfl, fun _ => ⟨?_, id⟩⟩
    cases hs : c₀.stage <;> rw [hs] at ht <;> cases ht <;> rfl
  | broken i c₀ _ hi _ _ _ hc => exact hmodify hi hc ⟨rfl, fun he => ⟨he, fun _ => rfl⟩⟩
  | signalled i _ _ _ _ _ _ _ hc =>
    refine ⟨_, (reshaped_modify hc).some hk, ?_⟩
    split
    · exact ⟨rfl, hst, fun _ => rfl⟩
    · exact ⟨rfl, hst, id⟩
  | woke i c₀ st hi ht _ _ hc =>
    have hentered : st.entered = true := by
      cases hs : c₀.stage <;> rw [hs] at ht <;> cases ht <;> rfl
    refine ⟨_, (reshaped_wake hc).some hk, ?_⟩
    split <;> split <;> first | exact ⟨rfl, hentered, id⟩ | exact ⟨rfl, hst, id⟩
  | notified _ _ hc =>
    refine ⟨_, (reshaped_notify hc).some hk, ?_⟩
    split <;> exact ⟨rfl, hst, id⟩

theorem Told.next {id : RunId} (h : Told d id) (he : Effect d a d') : Told d' id := by
  obtain ⟨k, c, hk, hrun, hst, hcan⟩ := h
  obtain ⟨c', hk', hrun', hst', hcan'⟩ := he.entered hk hst
  exact ⟨k, c', hk', hrun'.trans hrun, hst', hcan' hcan⟩

/-- A run that was stopped below `root` stays so, unless it is revived. -/
theorem Stopped.next (hr : Registry d) {j : Nat} {c : Cancel} {root id : RunId}
    (h : Stopped d id) (hbelow : d.store.Below root id) (hslip : ¬ Slips d j c root a) :
    Stopped (d.next a) id := by
  have htold : Told d id → Stopped (d.next a) id := fun h => .inr (h.next (next_effect hr a))
  rcases h with hended | h
  · rcases calls_next d a with e | ⟨op, hcall, e⟩
    · exact .inl (e ▸ hended)
    · by_cases hback : (d.store.next op).Ended id
      · exact .inl (e ▸ hback)
      · have happ : op.approvalRun = some id := by
          by_contra happ
          exact hback (hended.next hcall.not_recover happ)
        obtain ⟨i, chat, rfl, hi, hst, rfl⟩ := hcall.approval happ
        by_cases hlive : Told d chat.runId
        · exact htold hlive
        · exact absurd (.revived hi hst happ hbelow hended hback hlive) hslip
  · exact htold h

theorem spawned_eq_false {s : RunStore} {request : DelegationRequest}
    (h : s.childOf request.parentRunId request.spawnKey = none) : spawned s request = false := by
  rw [RunStore.childOf_eq, Option.map_eq_none_iff, List.find?_eq_none] at h
  rw [spawned, List.any_eq_false]
  intro x hx
  simpa using h x hx

/-- Nothing comes to be below `root` during its cascade. -/
theorem below_of_tight {j : Nat} {c : Cancel} {root id : RunId}
    (h : (d.next a).store.Below root id) (hslip : ¬ Slips d j c root a) :
    d.store.Below root id := by
  refine RunStore.below_of h fun parent child hparent hnew => ?_
  rcases calls_next d a with e | ⟨op, hcall, e⟩
  · exact e ▸ hnew
  · rw [e] at hnew
    rcases RunStore.delegates_next hnew with hold | ⟨request, clock, rfl, rfl, ⟨p, hx⟩, hnone⟩
    · exact hold
    · obtain ⟨env, rfl, rfl, hok, hcontrol⟩ := hcall.admission
      exact absurd (.spawned hcontrol hok hparent (spawned_eq_false hnone) hx) hslip

end Stopped

/-! ## The runs still to come -/

/-- The runs that the cascade has not stopped yet. -/
def Cancel.pending (c : Cancel) : List RunId :=
  match c.stage with
  | .announcing _ | .waking _ => c.targets.map Prod.fst
  | _ => c.params.runId.toList ++ c.targets.map Prod.fst

theorem Cancel.pending_subset (c : Cancel) :
    c.pending ⊆ c.params.runId.toList ++ c.targets.map Prod.fst := by
  unfold Cancel.pending
  split
  · exact List.subset_append_right _ _
  · exact List.subset_append_right _ _
  · exact List.Subset.refl _

theorem Cancel.of_pending {c : Cancel} {id i : RunId} (hid : c.params.runId = some id)
    (h : i ∈ c.pending) : i = id ∨ i ∈ c.targets.map Prod.fst := by
  have hm := c.pending_subset h
  rw [hid] at hm
  exact List.mem_cons.mp hm

/-- What a `cancel_one` has found out about its run. -/
def CancelStage.Sure (d : DaemonState) : CancelStage → Prop
  | .rereading run => d.store.Dequeued run.runId
  | .signalling run i =>
    ∃ chat, d.chats[i]? = some chat ∧ chat.runId = run.runId ∧ chat.stage.entered = true
  | _ => True

/-- What is known while the cascade `c` is under way below `root`. -/
structure Pursuit (d : DaemonState) (c : Cancel) (root : RunId) : Prop where
  covered : ∀ id, d.store.Below root id → Stopped d id ∨ id ∈ c.pending
  current : ∃ id k, c.params = ⟨none, some id, some k.sessionId⟩ ∧ d.store.key? id = some k ∧
    ∀ run, c.stage.run? = some run → run.runId = id
  seated : ∀ p ∈ c.targets, ∃ k, d.store.key? p.1 = some k ∧ k.sessionId = p.2
  sure : c.stage.Sure d

/-- What a stretch of a cancel that has cancelled `root` comes to. -/
def Pursued (d : DaemonState) (c : Cancel) (root : RunId) : Prop :=
  (c.Cascades root → Pursuit d c root) ∧
    (c.stage = .returned (.found true root) →
      ∀ id, d.store.Below root id → Stopped d id)

section Chase

variable {d d' : DaemonState} {a : DaemonAction} {j : Nat} {c : Cancel} {root : RunId}

theorem Effect.seated (he : Effect d a d') {targets : List (RunId × SessionId)}
    (h : ∀ p ∈ targets, ∃ k, d.store.key? p.1 = some k ∧ k.sessionId = p.2) :
    ∀ p ∈ targets, ∃ k, d'.store.key? p.1 = some k ∧ k.sessionId = p.2 := by
  intro p hp
  obtain ⟨k, hk, hsid⟩ := h p hp
  exact ⟨k, he.key? hk, hsid⟩

/-- The next run of the cascade, or its end. -/
theorem pursued_proceed (hroot : c.root = some (true, root))
    (hcovered : ∀ id, d.store.Below root id → Stopped d id ∨ id ∈ c.targets.map Prod.fst)
    (hseated : ∀ p ∈ c.targets, ∃ k, d.store.key? p.1 = some k ∧ k.sessionId = p.2) :
    Pursued d c.proceed root := by
  cases htargets : c.targets with
  | nil =>
    have hstage : c.proceed.stage = .returned (.found true root) := by
      simp only [Cancel.proceed, htargets, hroot]
    refine ⟨fun h => absurd hstage (h.going _), fun _ id hid => ?_⟩
    rcases hcovered id hid with h | h
    · exact h
    · rw [htargets] at h
      exact absurd h List.not_mem_nil
  | cons p rest =>
    obtain ⟨id, sid⟩ := p
    have hproceed : c.proceed =
        { c with params := ⟨none, some id, some sid⟩, stage := .locking, targets := rest } := by
      simp only [Cancel.proceed, htargets]
    rw [hproceed]
    rw [htargets] at hcovered hseated
    obtain ⟨k, hk, hsid⟩ := hseated (id, sid) List.mem_cons_self
    refine ⟨fun _ => ⟨hcovered, ⟨id, k, ?_, hk, nofun⟩, ?_, trivial⟩, nofun⟩
    · rw [hsid]
    · exact fun p hp => hseated p (List.mem_cons_of_mem _ hp)

/-- A step beside the cascade. -/
theorem Pursuit.beside (h : Pursuit d c root) (hr : Registry d)
    (hslip : ¬ Slips d j c root a) : Pursuit (d.next a) c root where
  covered id hid := by
    have hbelow := below_of_tight hid hslip
    exact (h.covered id hbelow).imp_left fun hs => hs.next hr hbelow hslip
  current := by
    obtain ⟨id, k, hparams, hk, hrun⟩ := h.current
    exact ⟨id, k, hparams, (next_effect hr a).key? hk, hrun⟩
  seated := (next_effect hr a).seated h.seated
  sure := by
    have hsure := h.sure
    cases hst : c.stage with
    | rereading run =>
      rw [hst] at hsure
      exact (next_effect hr a).dequeued hsure
    | signalling run i =>
      rw [hst] at hsure
      obtain ⟨chat, hi, hrun, he⟩ := hsure
      obtain ⟨chat', hi', hrun', he', -⟩ := (next_effect hr a).entered hi he
      exact ⟨chat', hi', hrun'.trans hrun, he'⟩
    | _ => trivial

/-- A stretch of the cascade that only changes its stage. -/
theorem Pursuit.moved (st : CancelStage) (h : Pursuit d' c root) (hj : d.cancels[j]? = some c)
    (hcancels : d'.cancels = d.cancels.modify j ({ · with stage := st }))
    (hst : st.locks = true)
    (hpending : ∀ id, id ∈ c.pending →
      Stopped d' id ∨ id ∈ ({ c with stage := st } : Cancel).pending)
    (hrun : ∀ run, st.run? = some run → c.params.runId = some run.runId)
    (hsure : st.Sure d') {c' : Cancel} (hc' : d'.cancels[j]? = some c') : Pursued d' c' root := by
  rw [hcancels, Slots.modify_self hj] at hc'
  cases hc'
  refine ⟨fun _ => ⟨fun id hid => ?_, ?_, h.seated, hsure⟩, fun e => ?_⟩
  · rcases h.covered id hid with hs | hm
    · exact .inl hs
    · exact hpending id hm
  · obtain ⟨id, k, hparams, hk, -⟩ := h.current
    refine ⟨id, k, hparams, hk, fun run hread => ?_⟩
    have e := hrun run hread
    rw [hparams] at e
    exact (Option.some.inj e).symm
  · dsimp only at e
    rw [e] at hst
    cases hst

/-- The end of a `cancel_one` of the cascade. -/
theorem Pursuit.closed {result : CancelResult} (h : Pursuit d' c root)
    (hj : d.cancels[j]? = some c) (hroot : c.root = some (true, root))
    (hcancels : d'.cancels = d.cancels.modify j (Cancel.close · result))
    (hpending : ∀ id, d'.store.Below root id → id ∈ c.pending →
      Stopped d' id ∨ id ∈ c.targets.map Prod.fst)
    {c' : Cancel} (hc' : d'.cancels[j]? = some c') : Pursued d' c' root := by
  rw [hcancels, Slots.modify_self hj] at hc'
  cases hc'
  have hclose : c.close result = c.proceed := by
    simp only [Cancel.close, hroot]
  rw [hclose]
  refine pursued_proceed hroot (fun id hid => ?_) h.seated
  rcases h.covered id hid with hs | hm
  · exact .inl hs
  · exact hpending id hid hm

/-- The run that a `cancel_one` of the cascade reads is the one it was sent for. -/
theorem find_exact {s : RunStore} {id : RunId} {k : ActiveKey} (hk : s.key? id = some k) :
    ∃ r, s.runs.find? r.id = some r ∧ r.id = id ∧
      CancelParams.find ⟨none, some id, some k.sessionId⟩ s = .ok r.record := by
  obtain ⟨r, hr, rfl⟩ := Option.map_eq_some_iff.mp hk
  have hid : r.id = id := Table.key_of_find? hr
  have hread : s.readRun id = some r.record := by
    rw [RunStore.readRun, hr]
    rfl
  refine ⟨r, hid.symm ▸ hr, hid, ?_⟩
  simp only [CancelParams.find, hread]
  exact if_neg fun hne => hne rfl

/-- A cascade leaves a run that is not queued alone only if it has ended. -/
theorem Pursuit.dispatched {r : Run} (h : Pursuit (d.next a) c root) (hj : d.cancels[j]? = some c)
    (hroot : c.root = some (true, root)) (hrow : d.store.runs.find? r.id = some r)
    (hid : c.params.runId = some r.id) (hqueued : r.status ≠ .queued) (he : d.next a = d.dispatch j r.record)
    (hkeep : ∀ id, (d.next a).store.Below root id → Stopped d id → Stopped (d.next a) id)
    {c' : Cancel} (hc' : (d.next a).cancels[j]? = some c') : Pursued (d.next a) c' root := by
  unfold DaemonState.dispatch at he
  split at he
  · refine h.moved (.marking r.record) hj (by rw [he]; rfl) rfl
      (fun id hm => .inr (c.pending_subset hm)) ?_ trivial hc'
    rintro run ⟨⟩
    exact hid
  · rename_i hactive
    refine h.closed hj hroot (by rw [he]; rfl) (fun id hbelow hm => ?_) hc'
    rcases Cancel.of_pending hid hm with rfl | hm
    · refine .inl (hkeep _ hbelow (.inl ?_))
      have hdequeued : d.store.Dequeued r.id := ⟨r.status, status?_of_record hrow, hqueued⟩
      refine hdequeued.going_or_ended.resolve_left ?_
      rintro ⟨b, hb, hg⟩
      cases (status?_of_record hrow).symm.trans hb
      exact hactive hg
    · exact .inr hm

/-- A stretch of a cascade under way. -/
theorem Pursuit.advance {env : Env} (h : Pursuit d c root) (hr : Registry d)
    (hj : d.cancels[j]? = some c) (hc : c.Cascades root)
    (hslip : ¬ Slips d j c root (.advanceCancel j env)) {c' : Cancel}
    (hc' : (d.next (.advanceCancel j env)).cancels[j]? = some c') :
    Pursued (d.next (.advanceCancel j env)) c' root := by
  have h' := h.beside hr hslip
  have hkeep : ∀ id, (d.next (.advanceCancel j env)).store.Below root id → Stopped d id →
      Stopped (d.next (.advanceCancel j env)) id :=
    fun id hid hs => hs.next hr (below_of_tight hid hslip) hslip
  have he : d.next (.advanceCancel j env) = d.advanceCancel j c env := by
    simp only [DaemonState.next, DaemonState.withCancel, hj]
  obtain ⟨id, k, hparams, hk, hrun⟩ := h.current
  have hid : c.params.runId = some id := by rw [hparams]
  -- a `cancel_one` may give up on its run only when that is stopped
  have hclose : ∀ result, (d.next (.advanceCancel j env)).cancels =
      d.cancels.modify j (Cancel.close · result) →
        ((d.next (.advanceCancel j env)).store.Below root id →
          Stopped (d.next (.advanceCancel j env)) id) →
        Pursued (d.next (.advanceCancel j env)) c' root := by
    intro result hcancels hdone
    refine h'.closed hj hc.root hcancels (fun i hbelow hm => ?_) hc'
    rcases Cancel.of_pending hid hm with rfl | hm
    · exact .inl (hdone hbelow)
    · exact .inr hm
  have hfailed : c.stage.calls = true → env.fails = true →
      (d.next (.advanceCancel j env)).store.Below root id →
        Stopped (d.next (.advanceCancel j env)) id := by
    intro hst hfails hbelow
    refine hkeep _ hbelow ?_
    by_contra hlive
    exact hslip (.failed hst hid hfails hlive)
  cases hst : c.stage with
  | locking =>
    simp only [DaemonState.advanceCancel, hst] at he
    split at he
    · exact h'.moved .reading hj (by rw [he]; rfl) rfl
        (fun i hm => .inr (c.pending_subset hm)) (by rintro _ ⟨⟩) trivial hc'
    · rw [he] at hc' ⊢
      cases hj.symm.trans hc'
      exact ⟨fun _ => h, fun e => absurd e (hc.going _)⟩
  | reading =>
    simp only [DaemonState.advanceCancel, hst] at he
    split at he
    · rename_i hfails
      exact hclose _ (by rw [he]; rfl) (hfailed (by rw [hst]; rfl) hfails)
    · obtain ⟨r, hrow, rfl, hfind⟩ := find_exact hk
      rw [hparams, hfind] at he
      dsimp only at he
      split at he
      · refine h'.moved (.removing r.record) hj (by rw [he]; rfl) rfl
          (fun i hm => .inr (c.pending_subset hm)) ?_ trivial hc'
        rintro run ⟨⟩
        exact hid
      · rename_i hqueued
        exact h'.dispatched hj hc.root hrow hid hqueued he hkeep hc'
  | removing run =>
    obtain rfl : run.runId = id := hrun run (by rw [hst]; rfl)
    simp only [DaemonState.advanceCancel, hst] at he
    split at he
    · rename_i hfails
      exact hclose _ (by rw [he]; rfl) (hfailed (by rw [hst]; rfl) hfails)
    · split at he
      · rename_i hx
        obtain ⟨b, s', hok⟩ := RunStore.removeQueued_total hr.sound run.runId (env.clock 0)
        cases hx.symm.trans hok
      · rename_i s' hx
        have hended : (d.next (.advanceCancel j env)).store.Ended run.runId := by
          rw [he]
          exact removeQueued_ended hx
        refine h'.moved (.announcing run) hj (by rw [he]; rfl) rfl (fun i hm => ?_) ?_ trivial hc'
        · rcases Cancel.of_pending hid hm with rfl | hm
          · exact .inl (.inl hended)
          · exact .inr hm
        · rintro run ⟨⟩
          exact hid
      · rename_i s' hx
        have hdequeued : (d.next (.advanceCancel j env)).store.Dequeued run.runId := by
          rw [he]
          exact RunStore.removeQueued_dequeued hx hk
        refine h'.moved (.rereading run) hj (by rw [he]; rfl) rfl
          (fun i hm => .inr (c.pending_subset hm)) ?_ hdequeued hc'
        rintro run ⟨⟩
        exact hid
  | announcing run =>
    have hmove : (d.next (.advanceCancel j env)).cancels =
        d.cancels.modify j ({ · with stage := .waking run }) := by
      rw [he]
      simp only [DaemonState.advanceCancel, hst]
      split <;> rfl
    refine h'.moved (.waking run) hj hmove rfl (fun i hm => .inr ?_) ?_ trivial hc'
    · simpa only [Cancel.pending, hst] using hm
    · rintro run ⟨⟩
      rw [hid, hrun run (by rw [hst]; rfl)]
  | waking run =>
    simp only [DaemonState.advanceCancel, hst] at he
    refine h'.closed hj hc.root (by rw [he]; rfl) (fun i _ hm => .inr ?_) hc'
    simpa only [Cancel.pending, hst] using hm
  | rereading run =>
    obtain rfl : run.runId = id := hrun run (by rw [hst]; rfl)
    simp only [DaemonState.advanceCancel, hst] at he
    split at he
    · rename_i hfails
      exact hclose _ (by rw [he]; rfl) (hfailed (by rw [hst]; rfl) hfails)
    · obtain ⟨r, hrow, -⟩ := Option.map_eq_some_iff.mp hk
      have hrid : r.id = run.runId := Table.key_of_find? hrow
      have hread : d.store.readRun run.runId = some r.record := by
        rw [RunStore.readRun, hrow]
        rfl
      rw [hread] at he
      dsimp only at he
      rw [← hrid] at hrow
      refine h'.dispatched hj hc.root hrow (hrid ▸ hid) ?_ he hkeep hc'
      have hsure := h.sure
      rw [hst] at hsure
      obtain ⟨b, hb, hne⟩ := hsure
      rw [← hrid] at hb
      cases (status?_of_record hrow).symm.trans hb
      exact hne
  | marking run =>
    obtain rfl : run.runId = id := hrun run (by rw [hst]; rfl)
    simp only [DaemonState.advanceCancel, hst] at he
    split at he
    · rename_i i htoken
      obtain ⟨hl, hany⟩ := Option.filter_eq_some_iff.mp htoken
      obtain ⟨chat, hi, -, hheld⟩ := hr.lookup_eq_some hl
      refine h'.moved (.signalling run i) hj (by rw [he]; rfl) rfl
        (fun i hm => .inr (c.pending_subset hm)) ?_ ?_ hc'
      · rintro run ⟨⟩
        exact hid
      · rw [he]
        exact ⟨chat, hi, by simpa [hi] using hany, ChatStage.entered_of_held hheld⟩
    · rename_i htoken
      refine hclose _ (by rw [he]; rfl) fun hbelow => hkeep _ hbelow ?_
      by_contra hlive
      exact hslip (.undriven hst htoken hlive)
  | signalling run i =>
    obtain rfl : run.runId = id := hrun run (by rw [hst]; rfl)
    have hsure := h.sure
    rw [hst] at hsure
    obtain ⟨chat, hi, hchat, hentered⟩ := hsure
    simp only [DaemonState.advanceCancel, hst] at he
    have htold : Told (d.next (.advanceCancel j env)) run.runId := by
      rw [he]
      exact ⟨i, _, Slots.modify_self hi _, hchat, hentered, rfl⟩
    exact hclose _ (by rw [he]; rfl) fun _ => .inr htold
  | listing => exact absurd hst hc.listed
  | returned result => exact absurd hst (hc.going result)

/-- The cancel has cancelled `root`, or says so. -/
def Cancel.Claims (c : Cancel) (root : RunId) : Prop :=
  c.Cascades root ∨ c.stage = .returned (.found true root)

theorem not_claims {result : CancelResult} (hresult : result ≠ .found true root) :
    ¬ ({ c with stage := .returned result } : Cancel).Claims root := by
  rintro (h | h)
  · exact absurd rfl (h.going _)
  · cases h
    exact hresult rfl

theorem root_of_proceed (h : c.proceed.Claims root) : c.root = some (true, root) := by
  unfold Cancel.proceed at h
  split at h
  · rcases h with h | h
    · exact h.root
    · cases h
  · rename_i hroot
    rcases h with h | h
    · exact absurd rfl (h.going _)
    · cases h
      exact hroot
  · rcases h with h | h
    · exact absurd rfl (h.going _)
    · cases h

theorem root_of_close {result : CancelResult} (h : (c.close result).Claims root) :
    c.root = some (true, root) := by
  unfold Cancel.close at h
  split at h
  · exact root_of_proceed h
  · rcases h with h | h
    · exact absurd rfl h.listed
    · cases h
  · rename_i hfound
    rcases h with h | h
    · exact absurd rfl (h.going _)
    · cases h
      exact absurd rfl (hfound _ _)

/-- A cancel that claims to have cancelled `root` did so in an earlier stretch. -/
theorem root_of_advance {env : Env} (hj : d.cancels[j]? = some c)
    (hgoing : ∀ result, c.stage ≠ .returned result) {c' : Cancel}
    (hc' : (d.advanceCancel j c env).cancels[j]? = some c') (hclaims : c'.Claims root) :
    c.root = some (true, root) := by
  have hsame : d.cancels[j]? = some c' → c.root = some (true, root) := by
    intro h
    cases hj.symm.trans h
    exact hclaims.elim Cancel.Cascades.root fun e => absurd e (hgoing _)
  have hstage : ∀ st, st ≠ .returned (.found true root) →
      (d.cancels.modify j ({ · with stage := st }))[j]? = some c' →
        c.root = some (true, root) := by
    intro st hst h
    cases (Slots.modify_self hj _).symm.trans h
    exact hclaims.elim (fun h => h.root) fun e => absurd e hst
  have hclose : ∀ result, (d.cancels.modify j (Cancel.close · result))[j]? = some c' →
      c.root = some (true, root) := by
    intro result h
    cases (Slots.modify_self hj _).symm.trans h
    exact root_of_close hclaims
  have hdispatch : ∀ run, (d.dispatch j run).cancels[j]? = some c' →
      c.root = some (true, root) := by
    intro run h
    unfold DaemonState.dispatch at h
    split at h
    · exact hstage (.marking run) nofun h
    · exact hclose _ h
  unfold DaemonState.advanceCancel at hc'
  split at hc'
  · split at hc'
    · exact hstage .reading nofun hc'
    · exact hsame hc'
  · split at hc'
    · exact hclose _ hc'
    · split at hc'
      · exact hclose _ hc'
      · split at hc'
        · exact hstage (.removing _) nofun hc'
        · exact hdispatch _ hc'
  · split at hc'
    · exact hclose _ hc'
    · split at hc'
      · exact hclose _ hc'
      · exact hstage (.announcing _) nofun hc'
      · exact hstage (.rereading _) nofun hc'
  · split at hc'
    · exact hstage (.waking _) nofun hc'
    · exact hstage (.waking _) nofun hc'
  · exact hclose _ hc'
  · split at hc'
    · exact hclose _ hc'
    · split at hc'
      · exact hclose _ hc'
      · exact hdispatch _ hc'
  · split at hc'
    · exact hstage (.signalling _ _) nofun hc'
    · exact hclose _ hc'
  · exact hclose _ hc'
  · split at hc'
    · exact hsame hc'
    · split at hc'
      · exact hstage (.returned ioError) nofun hc'
      · split at hc'
        · exact hstage (.returned (.failed internalError (.shown _))) nofun hc'
        · cases (Slots.modify_self hj _).symm.trans hc'
          have hroot := root_of_proceed hclaims
          exact hroot
  · exact hsame hc'

/-- The cancels that have cancelled their run know what is left. -/
def Chased (d : DaemonState) : Prop :=
  ∀ (j : Nat) c root, d.cancels[j]? = some c → c.Cascades root → Pursuit d c root

/-- What one stretch of any task makes of a cancel. -/
theorem Chased.pursued (h : Chased d) (hr : Registry d) (htight : Tight d a)
    (hj : d.cancels[j]? = some c) (hgoing : ∀ result, c.stage ≠ .returned result) {c' : Cancel}
    (hc' : (d.next a).cancels[j]? = some c') : Pursued (d.next a) c' root := by
  by_cases hclaims : c'.Claims root
  case neg => exact ⟨fun h => absurd (.inl h) hclaims, fun h => absurd (.inr h) hclaims⟩
  rcases cancel_next hj a with hj' | ⟨env, rfl, e⟩ | ⟨rfl, e⟩
  · cases hj'.symm.trans hc'
    exact ⟨fun hc => (h j c root hj hc).beside hr (htight j c root hj hc),
      fun e => absurd e (hgoing _)⟩
  · have hroot := root_of_advance hj hgoing (e ▸ hc') hclaims
    by_cases hlisting : c.stage = .listing
    case neg =>
      have hc : c.Cascades root := ⟨hroot, hlisting, hgoing⟩
      exact (h j c root hj hc).advance hr hj hc (htight j c root hj hc) hc'
    simp only [DaemonState.advanceCancel, hlisting, hroot] at e
    split at e
    · rw [e] at hc'
      cases (Slots.modify_self hj _).symm.trans hc'
      exact absurd hclaims (not_claims (by rintro ⟨⟩))
    · split at e
      · rw [e] at hc'
        cases (Slots.modify_self hj _).symm.trans hc'
        exact absurd hclaims (not_claims (by rintro ⟨⟩))
      · rename_i targets hx
        rw [e] at hc' ⊢
        cases (Slots.modify_self hj _).symm.trans hc'
        obtain ⟨ops, hstore⟩ := hr.stored
        rw [hstore] at hx
        obtain ⟨hall, hseated⟩ := cascadeTargets_spec hx
        rw [← hstore] at hall hseated
        exact pursued_proceed hroot (fun id hid => .inr (hall id hid)) hseated
  · simp only [DaemonState.abortCancel] at e
    split at e
    · rw [e] at hc'
      cases (Slots.modify_self hj _).symm.trans hc'
      exact absurd hclaims (not_claims (by rintro ⟨⟩))
    · rw [e] at hc' ⊢
      cases hj.symm.trans hc'
      exact ⟨h j c root hj, fun e => absurd e (hgoing _)⟩

/-- A cancel that returned stays as it is. -/
theorem returned_next {result : CancelResult} (hj : d.cancels[j]? = some c)
    (hst : c.stage = .returned result) (a : DaemonAction) : (d.next a).cancels[j]? = some c := by
  rcases cancel_next hj a with hj' | ⟨env, rfl, e⟩ | ⟨rfl, e⟩
  · exact hj'
  · rw [e, DaemonState.advanceCancel, hst]
    exact hj
  · rw [e]
    simpa [DaemonState.abortCancel, hst, CancelStage.abortable] using hj

/-- A cancel was there before, or is a new one. -/
theorem cancel_of_next (hj : (d.next a).cancels[j]? = some c) :
    (∃ c₀, d.cancels[j]? = some c₀) ∨ c.root = none := by
  have hmodify : ∀ {k : Nat} {f : Cancel → Cancel}, (d.next a).cancels = d.cancels.modify k f →
      ∃ c₀, d.cancels[j]? = some c₀ := by
    intro k f hf
    rw [hf] at hj
    obtain ⟨c₀, hj₀, -⟩ := Slots.of_modify hj
    exact ⟨c₀, hj₀⟩
  rcases next_cancels d a with e | ⟨params, timer, e⟩ | ⟨k, env, c₀, -, hk, e⟩ |
    ⟨k, c₀, -, hk, e⟩
  · exact .inl ⟨c, e ▸ hj⟩
  · rw [e] at hj
    rcases Slots.of_concat hj with hj | ⟨-, rfl⟩
    · exact .inl ⟨c, hj⟩
    · exact .inr rfl
  · obtain ⟨f, hf⟩ := advanceCancel_frame d k c₀ env
    exact .inl (hmodify (e ▸ hf))
  · simp only [DaemonState.abortCancel] at e
    split at e
    · exact .inl (hmodify (by rw [e]; rfl))
    · exact .inl ⟨c, e ▸ hj⟩

theorem Chased.step (h : Chased d) (hr : Registry d) (htight : Tight d a) :
    Chased (d.next a) := by
  intro j c' root hc' hcascades
  rcases cancel_of_next hc' with ⟨c, hj⟩ | hnone
  · by_cases hgoing : ∀ result, c.stage ≠ .returned result
    · exact (h.pursued hr htight hj hgoing hc').1 hcascades
    · push Not at hgoing
      obtain ⟨result, hst⟩ := hgoing
      cases (returned_next hj hst a).symm.trans hc'
      exact absurd hst (hcascades.going _)
  · cases hnone.symm.trans hcascades.root

end Chase

/-- **Cancel cascade.** -/
theorem complete_after {ops : List Op} {clock : Clock} {d : DaemonState}
    (hboot : DaemonState.boot (storeAfter ops) clock = .ok d) (run : List DaemonAction)
    (h : Along DaemonState.next Tight d run) : Along DaemonState.next Complete d run := by
  have hb := booted hboot
  have hstart : Registry d ∧ Chased d := by
    refine ⟨hb.registry, fun j c root hj => ?_⟩
    rw [hb.cancels] at hj
    cases hj
  refine along_induct (I := fun d => Registry d ∧ Chased d) ?_ ?_ hstart h
  · rintro d a ⟨hr, hc⟩ htight
    exact ⟨hr.step (next_effect hr a), hc.step hr htight⟩
  · rintro d a ⟨hr, hc⟩ htight j c c' root hj hgoing hc' hst
    exact (hc.pursued hr htight hj hgoing hc').2 hst

/-! ## Concrete runs -/

/-- No sub-agent is spawned once a run is to be cancelled, no call of a cancel fails, and it finds
its drivers. -/
def steady (d : DaemonState) : DaemonAction → Bool
  | .spawnAdmit _ => d.cancels.isEmpty
  | .engine _ op => op.approvalRun.isNone
  | .advanceCancel j env => !env.fails && (d.cancels[j]?).all fun c => match c.stage with
    | .marking run => (d.tokenOf run.key run.runId).isSome
    | _ => true
  | _ => true

theorem tight_of_steady {d : DaemonState} {a : DaemonAction} (h : steady d a = true) :
    Tight d a := by
  intro j c root hj hc hslip
  cases hslip with
  | spawned => simp_all [steady]
  | failed _ _ hfails => simp [steady, hfails] at h
  | undriven hst htoken => simp [steady, hj, hst, htoken] at h
  | revived _ _ hop => simp [steady, hop] at h

/-- A sub-agent of the first run. -/
def subRequest : DelegationRequest :=
  ⟨oneKey.sessionId, runIdOf 1, ⟨"c"⟩, "k", "sub", ["read"], "ask", "/", 1, 1, 1, 10⟩

/-- A sub-agent of that one. -/
def subSubRequest : DelegationRequest :=
  ⟨⟨"c"⟩, runIdOf 2, ⟨"g"⟩, "k", "sub", ["read"], "ask", "/", 1, 1, 1, 10⟩

/-- The next stretch of the first cancel, with nothing going wrong. -/
def goCancel : DaemonAction := .advanceCancel 0 {}

/-- A turn spawns a sub-agent, which runs, and is then cancelled up to the list of the runs
below. -/
def listedTree : List DaemonAction :=
  [.chat oneKey "hello" .queue none 0, go 0, go 0, go 0, go 0, go 0, go 0, go 0, go 0,
    .spawnCheck subRequest, .spawnAdmit {},
    .chat ⟨⟨"c"⟩, .string "delegation:c"⟩ "sub" .queue none 0,
    go 1, go 1, go 1, go 1, go 1, go 1, go 1, go 1,
    .cancel ⟨none, some (runIdOf 1), some oneKey.sessionId⟩,
    goCancel, goCancel, goCancel, goCancel, goCancel]

theorem complete_cancelledTree :
    (after DaemonState.next freshDaemon
      (listedTree ++ [goCancel, goCancel, goCancel, goCancel])).cancels.map (·.stage) =
        [.returned (.found true (runIdOf 1))] ∧
      Along DaemonState.next Complete freshDaemon
        (listedTree ++ [goCancel, goCancel, goCancel, goCancel]) := by
  refine ⟨by decide +kernel, complete_after boot_fresh _ ?_⟩
  have hsteady : Along DaemonState.next (fun d a => steady d a = true) freshDaemon
      (listedTree ++ [goCancel, goCancel, goCancel, goCancel]) := by decide +kernel
  exact along_mono hsteady fun _ _ _ => tight_of_steady

/-- The sub-agent spawns one of its own while the cascade waits for the lock to cancel it. -/
def lateSpawn : List DaemonAction :=
  listedTree ++ [.spawnCheck subSubRequest, .spawnAdmit {}, goCancel, goCancel, goCancel]

theorem not_complete_lateSpawn :
    DaemonState.boot (storeAfter []) (fun _ => 0) = .ok freshDaemon ∧
      ¬ Along DaemonState.next Complete freshDaemon (lateSpawn ++ [goCancel]) := by
  refine ⟨rfl, fun h => ?_⟩
  have hlast := (along_append.mp h).2.1
  have hbefore :
      (after DaemonState.next freshDaemon lateSpawn).cancels.map (·.stage.run?.isSome) = [true] := by decide +kernel
  have hstate :
      ((after DaemonState.next freshDaemon lateSpawn).next goCancel).cancels.map (·.stage) =
        [.returned (.found true (runIdOf 1))] ∧
      ((after DaemonState.next freshDaemon lateSpawn).next goCancel).store.delegations.rows.map
        (fun d => (d.parentRunId, d.childRunId)) =
          [(runIdOf 1, runIdOf 2), (runIdOf 2, runIdOf 3)] ∧
      ((after DaemonState.next freshDaemon lateSpawn).next goCancel).store.status? (runIdOf 3) =
        some .queued ∧
      ((after DaemonState.next freshDaemon lateSpawn).next goCancel).chats.map (·.runId) =
        [runIdOf 1, runIdOf 2] := by decide +kernel
  generalize after DaemonState.next freshDaemon lateSpawn = d at *
  obtain ⟨hstage, hrows, hstatus, hchats⟩ := hstate
  obtain ⟨c, hc, hrun⟩ := List.map_eq_singleton_iff.mp hbefore
  obtain ⟨c', hc', hst⟩ := List.map_eq_singleton_iff.mp hstage
  obtain ⟨d₁, l, hd, e₁, hl⟩ := List.map_eq_cons_iff.mp hrows
  obtain ⟨d₂, rfl, e₂⟩ := List.map_eq_singleton_iff.mp hl
  simp only [Prod.mk.injEq] at e₁ e₂
  have hbelow : (d.next goCancel).store.Below (runIdOf 1) (runIdOf 3) := by
    refine .tail (.single ⟨d₁, ?_, e₁.1, e₁.2⟩) ⟨d₂, ?_, e₂.1, e₂.2⟩ <;> simp [hd]
  have hgoing : ∀ result, c.stage ≠ .returned result := by
    intro result hreturned
    rw [hreturned] at hrun
    cases hrun
  rcases hlast 0 c c' (runIdOf 1) (by rw [hc]; rfl) hgoing (by rw [hc']; rfl) hst _ hbelow with
    ⟨b, hb, hterminal⟩ | ⟨i, chat, hi, hid, -⟩
  · cases hstatus.symm.trans hb
    cases hterminal
  · have hm : chat.runId ∈ (d.next goCancel).chats.map (·.runId) :=
      List.mem_map_of_mem (List.mem_of_getElem? hi)
    rw [hchats, hid] at hm
    exact absurd hm (by decide)

end AgentDaemon.Daemon
