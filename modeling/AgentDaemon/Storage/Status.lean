import AgentDaemon.Storage.Queue

/-!
How an operation moves the status of a run (`next_evolves`): a run goes from the queue to
running, between running and waiting, and to an end, and only an appended approval can bring
it back from there. From this follows which operation can make a queued run the next one to
start (`nextAfter_of_next`), and that `try_start_queued` refuses no such run
(`not_nextUp_of_refused`).
-/

namespace AgentDaemon.Storage

open Transition Fallible

/-! ## One change -/

/-- How a change may move the status of the run `id`. -/
inductive Change.Shift (ch : Change) (id : RunId) : RunStatus → RunStatus → Prop
  | stay (a : RunStatus) : ch.Shift id a a
  | going {a b : RunStatus} (ha : a.active = true) (hb : b.active = true) : ch.Shift id a b
  | settled {a b : RunStatus} (ha : a.terminal = true) (hb : b.terminal = true) : ch.Shift id a b
  | started (h : ch = .started id) : ch.Shift id .queued .running
  | awaited {a : RunStatus} (h : ch = .awaiting id) : ch.Shift id a .waitingInteraction
  | ended {a b : RunStatus} (h : ch = .removed id ∨ ch = .lost id ∨ ∃ v, ch = .finished id v)
      (ha : a.terminal = false) (hb : b.terminal = true) : ch.Shift id a b

/-- The runs `runs'` are the runs `runs`, each moved by `R`, and at most one new queued run. -/
def Evolves (R : RunId → RunStatus → RunStatus → Prop) (runs runs' : List RunView) : Prop :=
  ∃ f : RunView → RunView, (∀ v, (f v).id = v.id ∧ (f v).sessionId = v.sessionId) ∧
    (∀ v ∈ runs, R v.id v.verdict.status (f v).verdict.status) ∧
    (runs' = runs.map f ∨ ∃ run session, run ∉ runs.map RunView.id ∧
      runs' = runs.map f ++ [⟨run, session, ⟨.queued, none, none, none⟩⟩])

theorem Evolves.refl {R : RunId → RunStatus → RunStatus → Prop} (hR : ∀ id a, R id a a)
    (runs : List RunView) : Evolves R runs runs :=
  ⟨id, fun _ => ⟨rfl, rfl⟩, fun v _ => hR v.id _, .inl (List.map_id _).symm⟩

theorem Evolves.mono {R S : RunId → RunStatus → RunStatus → Prop} {runs runs' : List RunView}
    (h : Evolves R runs runs') (hRS : ∀ id a b, R id a b → S id a b) : Evolves S runs runs' := by
  obtain ⟨f, hid, hR, hruns⟩ := h
  exact ⟨f, hid, fun v hv => hRS _ _ _ (hR v hv), hruns⟩

theorem Evolves.nodup {R : RunId → RunStatus → RunStatus → Prop} {runs runs' : List RunView}
    (h : Evolves R runs runs') (hnd : (runs.map RunView.id).Nodup) :
    (runs'.map RunView.id).Nodup := by
  obtain ⟨f, hid, -, hruns⟩ := h
  have e : (runs.map f).map RunView.id = runs.map RunView.id := by
    rw [List.map_map]
    exact List.map_congr_left fun v _ => (hid v).1
  rcases hruns with rfl | ⟨run, session, hfresh, rfl⟩
  · rw [e]
    exact hnd
  · rw [List.map_append, e]
    exact Journal.nodup_concat hnd hfresh

/-- One row of the runs rewritten. -/
theorem Control.evolves_updateRun {c : Control} {run : RunId}
    {R : RunId → RunStatus → RunStatus → Prop} (hR : ∀ id a, R id a a)
    (hnd : (c.runs.map RunView.id).Nodup) (f : Verdict → Verdict)
    (hf : ∀ v, c.run? run = some v → R run v.verdict.status (f v.verdict).status) :
    Evolves R c.runs (c.updateRun run f).runs := by
  refine ⟨fun v => if v.id = run then { v with verdict := f v.verdict } else v, ?_, ?_, .inl rfl⟩
  · intro v
    dsimp only
    split <;> exact ⟨rfl, rfl⟩
  · intro v hv
    dsimp only
    split
    · rename_i e
      subst e
      exact hf v (run?_of_mem hnd hv)
    · exact hR v.id _

/-- A change moves the run it is about and no other. -/
theorem Change.evolves {c : Control} {ch : Change} (hnd : (c.runs.map RunView.id).Nodup)
    (hen : ch.Enabled c) : Evolves ch.Shift c.runs (ch.apply c).runs := by
  have hupd : ∀ run (f : Verdict → Verdict),
      (∀ v, c.run? run = some v → ch.Shift run v.verdict.status (f v.verdict).status) →
        Evolves ch.Shift c.runs (c.updateRun run f).runs :=
    fun run f => Control.evolves_updateRun (fun _ => .stay) hnd f
  cases ch with
  | admitted run session child =>
    refine ⟨id, fun _ => ⟨rfl, rfl⟩, fun v _ => .stay _, .inr ⟨run, session, ?_, ?_⟩⟩
    · intro hm
      obtain ⟨v, hv, e⟩ := List.mem_map.mp hm
      have hfind := Control.run?_of_mem hnd hv
      rw [e, hen.1] at hfind
      cases hfind
    · rw [List.map_id]
      rfl
  | started run =>
    refine hupd run ({ · with status := .running }) fun v hv => ?_
    obtain ⟨w, hw, hst, -⟩ := hen
    cases hv.symm.trans hw
    exact hst ▸ .started rfl
  | removed run =>
    refine hupd run ({ · with status := .cancelled }) fun v hv => .ended (.inl rfl) ?_ rfl
    obtain ⟨w, hw, hst⟩ := hen
    cases hv.symm.trans hw
    rw [hst]
    rfl
  | awaiting run => exact hupd run ({ · with status := .waitingInteraction }) fun v _ => .awaited rfl
  | resumed run =>
    refine hupd run ({ · with status := .running }) fun v hv => .going ?_ rfl
    obtain ⟨w, hw, hst⟩ := hen
    cases hv.symm.trans hw
    rw [hst]
    rfl
  | finished run u =>
    refine hupd run (fun _ => u) fun v hv => .ended (.inr (.inr ⟨u, rfl⟩)) ?_ hen.1
    obtain ⟨-, ⟨w, hw, hst⟩, -⟩ := hen
    cases hv.symm.trans hw
    exact hst
  | reconciled run u =>
    obtain ⟨hu, ⟨w, hw, hst⟩, -⟩ := hen
    refine hupd run (fun _ => u) fun v hv => .settled ?_ ?_
    · cases hv.symm.trans hw
      rw [hst]
      rfl
    · rcases hu with e | e | e <;> rw [e] <;> rfl
  | lost run =>
    refine hupd run ({ · with status := .unknownAfterRestart }) fun v hv =>
      .ended (.inr (.inl rfl)) ?_ rfl
    obtain ⟨w, hw, hst⟩ := hen
    cases hv.symm.trans hw
    cases hs : v.verdict.status <;> simp_all [RunStatus.active, RunStatus.terminal]
  | prepared run tools => exact .refl (fun _ => .stay) _
  | toolMoved key source target => exact .refl (fun _ => .stay) _
  | leased child lease => exact .refl (fun _ => .stay) _

/-! ## One operation -/

/-- The operation may end the run `id`. -/
def Op.Ends (op : Op) (id : RunId) : Prop :=
  match op with
  | .finish runId _ _ _ _ | .removeQueued runId _ => runId = id
  | .recover _ => True
  | _ => False

/-- How an operation may move the status of the run `id`. -/
inductive Op.Shift (op : Op) (id : RunId) : RunStatus → RunStatus → Prop
  | stay (a : RunStatus) : op.Shift id a a
  | going {a b : RunStatus} (ha : a.active = true) (hb : b.active = true) : op.Shift id a b
  | settled {a b : RunStatus} (ha : a.terminal = true) (hb : b.terminal = true) : op.Shift id a b
  | started (h : op.starts = some id) : op.Shift id .queued .running
  | awaited {a : RunStatus} (h : op.approvalRun = some id) : op.Shift id a .waitingInteraction
  | ended {a b : RunStatus} (h : op.Ends id) (ha : a.terminal = false) (hb : b.terminal = true) :
      op.Shift id a b

section Performs

variable {s s' : RunStore} {op : Op} {reply : Reply} {chs : List Change} {id : RunId}

theorem approvalRun_of_requests {i : InteractionId}
    (h : op.requestsApproval = some (id, i)) : op.approvalRun = some id := by
  cases op with
  | appendEvent runId event data =>
    simp only [Op.requestsApproval, Option.map_eq_some_iff, Prod.mk.injEq] at h
    obtain ⟨j, hj, rfl, -⟩ := h
    unfold RunStore.approvalRequested at hj
    split at hj
    · rename_i he
      simp [Op.approvalRun, he]
    · cases hj
  | _ => cases h

/-- Outside a restart a call performs at most one change. -/
theorem performs_short (h : op.Performs s s' reply chs) (hop : ∀ clock, op ≠ .recover clock) :
    chs = [] ∨ ∃ ch, chs = [ch] := by
  cases op <;> simp only [Op.Performs] at h <;> grind

theorem performs_ends {ch : Change} (h : op.Performs s s' reply chs) (hm : ch ∈ chs)
    (hch : ch = .removed id ∨ ch = .lost id ∨ ∃ v, ch = .finished id v) : op.Ends id := by
  cases op <;> simp only [Op.Performs, Op.Ends] at h ⊢ <;> grind

theorem Op.Shift.of_change {ch : Change} {a b : RunStatus} (h : op.Performs s s' reply chs)
    (hm : ch ∈ chs) (hs : ch.Shift id a b) : op.Shift id a b := by
  cases hs with
  | stay => exact .stay _
  | going ha hb => exact .going ha hb
  | settled ha hb => exact .settled ha hb
  | started e =>
    subst e
    exact .started (performs_started h hm).1
  | awaited e =>
    subst e
    obtain ⟨i, hi, -⟩ := performs_awaiting h hm
    exact .awaited (approvalRun_of_requests hi)
  | ended e ha hb => exact .ended (performs_ends h hm e) ha hb

end Performs

/-- Outside a restart an operation moves each run by at most one step. -/
theorem next_evolves (s : RunStore) {op : Op} (hop : ∀ clock, op ≠ .recover clock) :
    Evolves op.Shift s.control.runs (s.next op).control.runs := by
  cases h : s.exec op with
  | error e =>
    rw [RunStore.next_of_error h]
    exact .refl (fun _ => .stay) _
  | ok p =>
    obtain ⟨reply, s'⟩ := p
    obtain ⟨chs, hp, ha, hc⟩ := simulation h
    rw [RunStore.next_of_ok h, hc]
    rcases performs_short hp hop with rfl | ⟨ch, rfl⟩
    · exact .refl (fun _ => .stay) _
    · refine (Change.evolves ?_ ha.1).mono fun id a b => .of_change hp List.mem_cons_self
      have hnd := s.runs.nodup
      rwa [RunStore.control, List.map_map]

def RunRecord.key (run : RunRecord) : ActiveKey := ⟨run.sessionId, run.requestId⟩

def Admission.record : Admission → RunRecord
  | new run | existing run => run

/-! ## The status of one run -/

namespace RunStore

theorem nodup_control (s : RunStore) : (s.control.runs.map RunView.id).Nodup := by
  have hnd := s.runs.nodup
  rwa [control, List.map_map]

variable {s : RunStore} {op : Op} {id : RunId} {a b : RunStatus}

theorem status?_next (hop : ∀ clock, op ≠ .recover clock) (h : s.status? id = some a) :
    ∃ b, (s.next op).status? id = some b ∧ op.Shift id a b := by
  have hev := next_evolves s hop
  have hnd := hev.nodup s.nodup_control
  obtain ⟨f, hid, hR, hruns⟩ := hev
  rw [status?_eq, Option.map_eq_some_iff] at h
  obtain ⟨v, hv, rfl⟩ := h
  have hmem : f v ∈ (s.next op).control.runs := by
    rcases hruns with e | ⟨_, _, _, e⟩ <;> rw [e]
    · exact List.mem_map_of_mem (Control.mem_of_run? hv)
    · exact List.mem_append_left _ (List.mem_map_of_mem (Control.mem_of_run? hv))
  have hfind := Control.run?_of_mem hnd hmem
  rw [(hid v).1, Control.id_of_run? hv] at hfind
  refine ⟨_, by rw [status?_eq, hfind]; rfl, ?_⟩
  have hs := hR v (Control.mem_of_run? hv)
  rwa [Control.id_of_run? hv] at hs

theorem status?_of_next (hop : ∀ clock, op ≠ .recover clock)
    (h : (s.next op).status? id = some b) :
    (∃ a, s.status? id = some a ∧ op.Shift id a b) ∨ s.status? id = none ∧ b = .queued := by
  cases ha : s.status? id with
  | some a =>
    obtain ⟨b', hb', hs⟩ := status?_next hop ha
    cases h.symm.trans hb'
    exact .inl ⟨a, rfl, hs⟩
  | none =>
    refine .inr ⟨rfl, ?_⟩
    obtain ⟨f, hid, -, hruns⟩ := next_evolves s hop
    rw [status?_eq, Option.map_eq_none_iff] at ha
    have hold : ∀ v ∈ s.control.runs, v.id ≠ id := by
      intro v hv e
      have hfind := Control.run?_of_mem s.nodup_control hv
      rw [e, ha] at hfind
      cases hfind
    rw [status?_eq, Option.map_eq_some_iff] at h
    obtain ⟨w, hw, rfl⟩ := h
    have hmem := Control.mem_of_run? hw
    rcases hruns with e | ⟨run, session, -, e⟩
    · rw [e] at hmem
      obtain ⟨v, hv, rfl⟩ := List.mem_map.mp hmem
      exact absurd ((hid v).1.symm.trans (Control.id_of_run? hw)) (hold v hv)
    · rw [e] at hmem
      rcases List.mem_append.mp hmem with hmem | hmem
      · obtain ⟨v, hv, rfl⟩ := List.mem_map.mp hmem
        exact absurd ((hid v).1.symm.trans (Control.id_of_run? hw)) (hold v hv)
      · rw [List.mem_singleton.mp hmem]

/-- The run has ended. -/
def Ended (s : RunStore) (id : RunId) : Prop := ∃ a, s.status? id = some a ∧ a.terminal = true

/-- The run is running or waiting for an answer. -/
def Going (s : RunStore) (id : RunId) : Prop := ∃ a, s.status? id = some a ∧ a.active = true

/-- The run has left the queue. -/
def Dequeued (s : RunStore) (id : RunId) : Prop := ∃ a, s.status? id = some a ∧ a ≠ .queued

theorem Ended.dequeued (h : s.Ended id) : s.Dequeued id := by
  obtain ⟨a, ha, ht⟩ := h
  exact ⟨a, ha, by rintro rfl; cases ht⟩

theorem Going.dequeued (h : s.Going id) : s.Dequeued id := by
  obtain ⟨a, ha, ht⟩ := h
  exact ⟨a, ha, by rintro rfl; cases ht⟩

theorem Going.not_ended (h : s.Going id) : ¬ s.Ended id := by
  rintro ⟨b, hb, ht⟩
  obtain ⟨a, ha, hg⟩ := h
  cases ha.symm.trans hb
  rw [active_eq_false_of_terminal ht] at hg
  cases hg

theorem Dequeued.exists_run (h : s.Dequeued id) : ∃ r, s.runs.find? id = some r := by
  obtain ⟨a, ha, -⟩ := h
  rw [status?_eq, control_run?, Option.map_map] at ha
  obtain ⟨r, hr, -⟩ := Option.map_eq_some_iff.mp ha
  exact ⟨r, hr⟩

/-- A run that has left the queue is going or has ended. -/
theorem Dequeued.going_or_ended (h : s.Dequeued id) : s.Going id ∨ s.Ended id := by
  obtain ⟨a, ha, hne⟩ := h
  cases a with
  | queued => exact absurd rfl hne
  | running => exact .inl ⟨_, ha, rfl⟩
  | waitingInteraction => exact .inl ⟨_, ha, rfl⟩
  | completed => exact .inr ⟨_, ha, rfl⟩
  | failed => exact .inr ⟨_, ha, rfl⟩
  | cancelled => exact .inr ⟨_, ha, rfl⟩
  | unknownAfterRestart => exact .inr ⟨_, ha, rfl⟩

theorem Dequeued.next (h : s.Dequeued id) (hop : ∀ clock, op ≠ .recover clock) :
    (s.next op).Dequeued id := by
  obtain ⟨a, ha, hne⟩ := h
  obtain ⟨b, hb, hs⟩ := status?_next hop ha
  refine ⟨b, hb, ?_⟩
  rintro rfl
  cases hs with
  | stay => exact hne rfl
  | going _ hb => cases hb
  | settled _ hb => cases hb
  | ended _ _ hb => cases hb

/-- How a queued run can leave the queue. -/
theorem dequeued_of_next (h : (s.next op).Dequeued id) (hop : ∀ clock, op ≠ .recover clock) :
    s.Dequeued id ∨ op.starts = some id ∨ op.approvalRun = some id ∨ op.Ends id := by
  obtain ⟨b, hb, hne⟩ := h
  rcases status?_of_next hop hb with ⟨a, ha, hs⟩ | ⟨-, rfl⟩
  · by_cases hq : a = .queued
    · subst hq
      cases hs with
      | stay => exact absurd rfl hne
      | going h _ => cases h
      | settled h _ => cases h
      | started h => exact .inr (.inl h)
      | awaited h => exact .inr (.inr (.inl h))
      | ended h _ _ => exact .inr (.inr (.inr h))
    · exact .inl ⟨a, ha, hq⟩
  · exact absurd rfl hne

theorem Ended.next (h : s.Ended id) (hop : ∀ clock, op ≠ .recover clock)
    (happ : op.approvalRun ≠ some id) : (s.next op).Ended id := by
  obtain ⟨a, ha, ht⟩ := h
  obtain ⟨b, hb, hs⟩ := status?_next hop ha
  refine ⟨b, hb, ?_⟩
  cases hs with
  | stay => exact ht
  | going ha _ =>
    rw [active_eq_false_of_terminal ht] at ha
    cases ha
  | settled _ hb => exact hb
  | started _ => cases ht
  | awaited h => exact absurd h happ
  | ended _ _ hb => exact hb

theorem going_of_next (h : (s.next op).Going id) (hop : ∀ clock, op ≠ .recover clock) :
    s.Going id ∨ op.starts = some id ∨ op.approvalRun = some id := by
  obtain ⟨b, hb, hg⟩ := h
  rcases status?_of_next hop hb with ⟨a, ha, hs⟩ | ⟨-, rfl⟩
  · cases hs with
    | stay => exact .inl ⟨_, ha, hg⟩
    | going h _ => exact .inl ⟨_, ha, h⟩
    | settled _ hb =>
      rw [active_eq_false_of_terminal hb] at hg
      cases hg
    | started h => exact .inr (.inl h)
    | awaited h => exact .inr (.inr h)
    | ended _ _ hb =>
      rw [active_eq_false_of_terminal hb] at hg
      cases hg
  · cases hg

/-! ## The request of a run -/

def key? (s : RunStore) (id : RunId) : Option ActiveKey := (s.runs.find? id).map Run.key

theorem key?_eq_some {k : ActiveKey} :
    s.key? id = some k ↔ (id, k) ∈ s.journal.requests := by
  simp only [key?, Option.map_eq_some_iff, Table.find?_eq_some_iff, journal, List.mem_map,
    Prod.mk.injEq]
  constructor
  · rintro ⟨r, ⟨hr, hid⟩, hk⟩
    exact ⟨r, hr, hid, hk⟩
  · rintro ⟨r, hr, hid, hk⟩
    exact ⟨r, ⟨hr, hid⟩, hk⟩

theorem key?_next {k : ActiveKey} (h : s.key? id = some k) (op : Op) :
    (s.next op).key? id = some k := by
  have hgrows := next_grows quiet_true s op fun _ _ _ _ => trivial
  have hsub := List.IsPrefix.subset hgrows.requests_prefix
  exact key?_eq_some.mpr (hsub (key?_eq_some.mp h))

theorem enqueueRun_key {s s' : RunStore} {sid : SessionId} {rid : RequestId} {input : String}
    {route : Option Provider.RouteSnapshot} {now : Int} {id : RunId}
    (h : s.enqueueRun sid rid input route now = .ok (id, s')) :
    s'.key? id = some ⟨sid, rid⟩ := by
  simp only [enqueueRun, bind_eq_ok, constraint_eq_ok] at h
  obtain ⟨runs, hruns, turns, hturns, routes, hroutes, ⟨n, s₁⟩, hev, queue, hqueue, h⟩ := h
  rw [pure_eq_ok] at h
  obtain ⟨rfl, rfl⟩ := Prod.mk.inj h
  obtain ⟨m, -, -, e⟩ := insertEvent_journal hev
  have hj : (runIdOf s.nextRowid, (⟨sid, rid⟩ : ActiveKey)) ∈ s₁.journal.requests := by
    rw [e]
    simp only [Journal.log, journal, Table.rows_insert hruns, List.map_append]
    exact List.mem_append_right _ (List.mem_singleton.mpr rfl)
  exact key?_eq_some.mpr hj

/-- The admitted run answers the request. -/
theorem admitWithRoute_key {s s' : RunStore} {sid : SessionId} {rid : RequestId} {input : String}
    {mode : AdmissionMode} {route : Option Provider.RouteSnapshot} {now : Int} {a : Admission}
    (h : s.admitWithRoute sid rid input mode route now = .ok (a, s')) :
    s'.key? a.record.runId = some ⟨sid, rid⟩ := by
  rcases admitWithRoute_cases h with ⟨stored, hm, hsid, hrid, -, rfl, rfl⟩ | ⟨-, rec, rfl, -, henq⟩
  · have hfind : s'.runs.find? stored.id = some stored := Table.find?_of_mem hm
    have hid : (Admission.existing stored.record).record.runId = stored.id := rfl
    rw [hid, key?, hfind, Option.map_some, Run.key, hsid, hrid]
  · exact enqueueRun_key henq

/-- A request belongs to one run. -/
theorem eq_of_key? {k : ActiveKey} {id' : RunId} (hs : s.journal.Sound) (h : s.key? id = some k)
    (h' : s.key? id' = some k) : id = id' :=
  congrArg Prod.fst
    (List.inj_on_of_nodup_map hs.keys (key?_eq_some.mp h) (key?_eq_some.mp h') rfl)

theorem status?_isSome_of_key? {k : ActiveKey} (h : s.key? id = some k) :
    ∃ a, s.status? id = some a := by
  obtain ⟨r, hr, -⟩ := Option.map_eq_some_iff.mp h
  exact ⟨r.status, by rw [status?_eq, control_run?, hr]; rfl⟩

end RunStore

/-! ## What a call has done to its run -/

section Outcome

variable {s s' : RunStore} {id : RunId}

theorem next_tryStartQueued {clock : Clock} {b : Bool}
    (h : s.tryStartQueued id clock = .ok (b, s')) : s.next (.tryStartQueued id clock) = s' := by
  refine RunStore.next_of_ok (r := .flag b) ?_
  rw [RunStore.exec, h]
  rfl

theorem next_removeQueued {now : Int} {b : Bool} (h : s.removeQueued id now = .ok (b, s')) :
    s.next (.removeQueued id now) = s' := by
  refine RunStore.next_of_ok (r := .flag b) ?_
  rw [RunStore.exec, h]
  rfl

theorem next_finish {status : RunStatus} {content : Option String}
    {error : Option (Int × String)} {now : Int} {rec : RunRecord}
    (h : s.finish id status content error now = .ok (rec, s')) :
    s.next (.finish id status content error now) = s' := by
  refine RunStore.next_of_ok (r := .run rec) ?_
  rw [RunStore.exec, h]
  rfl

theorem next_claimInteraction {i : InteractionId} {sid : SessionId} {revision : Int}
    {approved : Bool} {rec : InteractionRecord}
    (h : s.claimInteraction i sid id revision approved = .ok (rec, s')) :
    s.next (.claimInteraction i sid id revision approved) = s' := by
  refine RunStore.next_of_ok (r := .interaction rec) ?_
  rw [RunStore.exec, h]
  rfl

theorem next_recover {clock : Clock} {n : Nat} (h : s.recover clock = .ok (n, s')) :
    s.next (.recover clock) = s' := by
  refine RunStore.next_of_ok (r := .count n) ?_
  rw [RunStore.exec, h]
  rfl

theorem storeAfter_recover {ops : List Op} {clock : Clock} {n : Nat}
    (h : (storeAfter ops).recover clock = .ok (n, s')) :
    s' = storeAfter (ops ++ [.recover clock]) := by
  rw [storeAfter_append]
  exact (next_recover h).symm

theorem tryStartQueued_going {clock : Clock}
    (h : s.tryStartQueued id clock = .ok (true, s')) : s'.Going id := by
  rcases RunStore.tryStartQueued_spec h with ⟨-, ⟨v, hv, -⟩, hc⟩ | ⟨hb, -⟩
  · refine ⟨.running, ?_, rfl⟩
    simp [status?_eq, hc, Change.apply, hv, Control.id_of_run? hv]
  · cases hb

theorem tryStartQueued_refused {clock : Clock}
    (h : s.tryStartQueued id clock = .ok (false, s')) : s'.control = s.control := by
  rcases RunStore.tryStartQueued_spec h with ⟨hb, -⟩ | ⟨-, -, hc⟩
  · cases hb
  · exact hc

theorem removeQueued_refused {now : Int} (h : s.removeQueued id now = .ok (false, s')) :
    s'.control = s.control := by
  rcases RunStore.removeQueued_spec h with ⟨hb, -⟩ | ⟨-, -, hc⟩
  · cases hb
  · exact hc

/-- The status of a run can be read off the control state. -/
theorem going_congr (h : s'.control = s.control) : s'.Going id ↔ s.Going id := by
  simp only [RunStore.Going, status?_eq, h]

/-- An answer to a pending question finds the run waiting for it. -/
theorem claimInteraction_going {i : InteractionId} {sid : SessionId} {revision : Int}
    {approved : Bool} {rec : InteractionRecord}
    (h : s.claimInteraction i sid id revision approved = .ok (rec, s'))
    (hpending : (s.readInteraction i).any (fun current => current.status = .pending) = true) :
    s.Going id := by
  simp only [Option.any_eq_true, decide_eq_true_eq] at hpending
  obtain ⟨current, hcur, hst⟩ := hpending
  unfold RunStore.claimInteraction at h
  rw [hcur] at h
  dsimp only at h
  split at h
  · cases h
  · rw [if_neg (fun hne => hne hst)] at h
    split at h
    · cases h
    · split at h
      · cases h
      · rename_i run hrun
        split at h
        · cases h
        · rename_i hwait
          refine ⟨run.status, by rw [status?_eq, RunStore.control_run?, hrun]; rfl, ?_⟩
          rw [not_not.mp hwait]
          rfl

theorem removeQueued_ended {now : Int} (h : s.removeQueued id now = .ok (true, s')) :
    s'.Ended id := by
  rcases RunStore.removeQueued_spec h with ⟨-, ⟨v, hv, -⟩, hc⟩ | ⟨hb, -⟩
  · refine ⟨.cancelled, ?_, rfl⟩
    simp [status?_eq, hc, Change.apply, hv, Control.id_of_run? hv]
  · cases hb

theorem finish_ended {status : RunStatus} {content : Option String}
    {error : Option (Int × String)} {now : Int} {rec : RunRecord}
    (h : s.finish id status content error now = .ok (rec, s')) : s'.Ended id := by
  rcases RunStore.finish_spec h with ⟨rfl, hrec, hst, hterm⟩ | ⟨hst, ⟨ht, ⟨v, hv, -⟩, -⟩, hc⟩
  · refine ⟨rec.status, ?_, hterm⟩
    rw [RunStore.status?, hrec]
    rfl
  · refine ⟨rec.verdict.status, ?_, ht⟩
    simp [status?_eq, hc, Change.apply, hv, Control.id_of_run? hv]

/-- Where the log is sound, a run that exists has ended after a `finish`, done or refused. -/
theorem finish_next_ended (hs : s.journal.Sound) {r : Run} (hr : s.runs.find? id = some r)
    {status : RunStatus} (hst : status.terminal = true) (content : Option String)
    (error : Option (Int × String)) (now : Int) :
    (s.next (.finish id status content error now)).Ended id := by
  cases hx : s.finish id status content error now with
  | ok p => exact next_finish hx ▸ finish_ended hx
  | error e =>
    have hnext : s.next (.finish id status content error now) = s := by
      refine RunStore.next_of_error (e := e) ?_
      rw [RunStore.exec, hx]
      rfl
    rw [hnext]
    refine ⟨r.status, by rw [status?_eq, RunStore.control_run?, hr]; rfl, ?_⟩
    by_contra hne
    obtain ⟨rec, s', hok⟩ := finish_total hs hr (by simpa using hne) hst content error now
    cases hx.symm.trans hok

/-- A run that is still going after some runs were lost was going before and is none of them. -/
theorem going_after_lost {c : Control} (ids : List RunId) {w : RunView}
    (hw : w ∈ (after Change.apply c (ids.map .lost)).runs)
    (ha : w.verdict.status.active = true) :
    w.id ∉ ids ∧ ∃ v ∈ c.runs, v.id = w.id ∧ v.verdict.status.active = true := by
  induction ids generalizing c with
  | nil => exact ⟨nofun, w, hw, rfl, ha⟩
  | cons run ids ih =>
    obtain ⟨hids, v, hv, hid, hva⟩ := ih hw
    obtain ⟨v₀, hv₀, hid₀, -, hverdict⟩ := Control.mem_updateRun
      (f := ({ · with status := .unknownAfterRestart })) hv
    have hne : v₀.id ≠ run := by
      intro e
      rw [hverdict, if_pos e] at hva
      cases hva
    rw [if_neg hne] at hverdict
    refine ⟨?_, v₀, hv₀, hid₀.symm.trans hid, hverdict ▸ hva⟩
    rw [List.mem_cons, not_or, ← hid, hid₀]
    exact ⟨hne, hid₀ ▸ hid ▸ hids⟩

/-- After a restart nothing is going. -/
theorem not_going_of_recover {clock : Clock} {n : Nat} (h : s.recover clock = .ok (n, s'))
    (id : RunId) : ¬ s'.Going id := by
  rintro ⟨a, ha, hactive⟩
  obtain ⟨ids, hall, -, hc⟩ := RunStore.recover_spec h
  rw [status?_eq, hc, Option.map_eq_some_iff] at ha
  obtain ⟨w, hw, rfl⟩ := ha
  obtain ⟨hids, v, hv, hid, hva⟩ := going_after_lost ids (Control.mem_of_run? hw) hactive
  exact hids (hid ▸ hall v hv hva)

end Outcome

/-! ## The next run of a session -/

/-- `id` is the oldest queued run of its session, and nothing of the session is going. -/
def RunStore.NextUp (s : RunStore) (id : RunId) : Prop :=
  ∃ front r back, s.runs.rows = front ++ r :: back ∧ r.id = id ∧ r.status = .queued ∧
    (∀ x ∈ front, x.sessionId = r.sessionId → x.status ≠ .queued) ∧
    ∀ x ∈ s.runs.rows, x.sessionId = r.sessionId → x.status.active = false

/-- The same, read off the control state. -/
def Control.NextUp (runs : List RunView) (id : RunId) : Prop :=
  ∃ front v back, runs = front ++ v :: back ∧ v.id = id ∧ v.verdict.status = .queued ∧
    (∀ x ∈ front, x.sessionId = v.sessionId → x.verdict.status ≠ .queued) ∧
    ∀ x ∈ runs, x.sessionId = v.sessionId → x.verdict.status.active = false

theorem nextUp_iff {s : RunStore} {id : RunId} :
    s.NextUp id ↔ Control.NextUp s.control.runs id := by
  constructor
  · rintro ⟨front, r, back, hrows, hid, hst, hfront, hidle⟩
    refine ⟨front.map Run.view, r.view, back.map Run.view, ?_, hid, hst, ?_, ?_⟩
    · simp only [RunStore.control, hrows, List.map_append, List.map_cons]
    · intro x hx
      obtain ⟨y, hy, rfl⟩ := List.mem_map.mp hx
      exact hfront y hy
    · intro x hx
      obtain ⟨y, hy, rfl⟩ := List.mem_map.mp hx
      exact hidle y hy
  · rintro ⟨front, v, back, hruns, hid, hst, hfront, hidle⟩
    obtain ⟨front', rest, hrows, rfl, hrest⟩ := List.map_eq_append_iff.mp hruns
    obtain ⟨r, back', rfl, rfl, rfl⟩ := List.map_eq_cons_iff.mp hrest
    exact ⟨front', r, back', hrows, hid, hst, fun x hx => hfront _ (List.mem_map_of_mem hx),
      fun x hx => hidle _ (List.mem_map_of_mem hx)⟩

/-- `id` is the oldest queued run of its session and nothing of the session is going, the runs
`gone` aside. -/
def RunStore.NextAfter (s : RunStore) (gone : RunId → Prop) (id : RunId) : Prop :=
  ∃ front r back, s.runs.rows = front ++ r :: back ∧ r.id = id ∧ r.status = .queued ∧
    (∀ x ∈ front, x.sessionId = r.sessionId → x.status = .queued → gone x.id) ∧
    ∀ x ∈ s.runs.rows, x.sessionId = r.sessionId → x.status.active = true → gone x.id

theorem RunStore.NextAfter.nextUp {s : RunStore} {gone : RunId → Prop} {id : RunId}
    (h : s.NextAfter gone id) (hnone : ∀ k, ¬ gone k) : s.NextUp id := by
  obtain ⟨front, r, back, hrows, hid, hst, hfront, hidle⟩ := h
  refine ⟨front, r, back, hrows, hid, hst, fun x hx e hq => hnone _ (hfront x hx e hq), ?_⟩
  intro x hx e
  exact Bool.eq_false_iff.mpr fun ha => hnone _ (hidle x hx e ha)

theorem RunStore.NextAfter.mono {s : RunStore} {gone gone' : RunId → Prop} {id : RunId}
    (h : s.NextAfter gone id) (hall : ∀ k, gone k → gone' k) : s.NextAfter gone' id := by
  obtain ⟨front, r, back, hrows, hid, hst, hfront, hidle⟩ := h
  exact ⟨front, r, back, hrows, hid, hst, fun x hx e hq => hall _ (hfront x hx e hq),
    fun x hx e ha => hall _ (hidle x hx e ha)⟩

/-- A run that existed comes up next only where the runs before it end. -/
theorem nextAfter_of_next {s : RunStore} {op : Op} {id : RunId} {a : RunStatus}
    (hop : ∀ clock, op ≠ .recover clock) (ha : s.status? id = some a)
    (h : (s.next op).NextUp id) : s.NextAfter op.Ends id := by
  rw [nextUp_iff] at h
  obtain ⟨front, w, back, hruns', hid, hst, hfront, hidle⟩ := h
  obtain ⟨f, hf, hR, hruns⟩ := next_evolves s hop
  have hmem : id ∈ s.control.runs.map RunView.id := by
    rw [status?_eq, Option.map_eq_some_iff] at ha
    obtain ⟨v, hv, -⟩ := ha
    exact List.mem_map.mpr ⟨v, Control.mem_of_run? hv, Control.id_of_run? hv⟩
  -- the run at hand is an old one, so the old runs split where the new ones do
  have hsplit : ∃ back', s.control.runs.map f = front ++ w :: back' := by
    rcases hruns with e | ⟨run, session, hfresh, e⟩
    · exact ⟨back, e ▸ hruns'⟩
    · rw [e] at hruns'
      rcases List.eq_nil_or_concat back with rfl | ⟨init, last, rfl⟩
      · have hlast := (List.append_inj' hruns' rfl).2
        simp only [List.cons.injEq, and_true] at hlast
        rw [← hid, ← hlast] at hmem
        exact absurd hmem hfresh
      · rw [List.concat_eq_append, ← List.cons_append, ← List.append_assoc] at hruns'
        exact ⟨init, (List.append_inj' hruns' rfl).1⟩
  obtain ⟨back', hsplit⟩ := hsplit
  have hrows : s.control.runs.map f = s.runs.rows.map fun r => f r.view := List.map_map
  rw [hrows] at hsplit
  obtain ⟨front₀, rest, hold, rfl, hrest⟩ := List.map_eq_append_iff.mp hsplit
  obtain ⟨r, back₀, rfl, rfl, rfl⟩ := List.map_eq_cons_iff.mp hrest
  have hshift : ∀ x ∈ s.runs.rows, op.Shift x.id x.status (f x.view).verdict.status :=
    fun x hx => hR _ (List.mem_map_of_mem hx)
  have hnew : ∀ x ∈ s.runs.rows, f x.view ∈ (s.next op).control.runs := by
    intro x hx
    have hx' : x.view ∈ s.control.runs := List.mem_map_of_mem hx
    rcases hruns with e | ⟨_, _, _, e⟩ <;> rw [e]
    · exact List.mem_map_of_mem hx'
    · exact List.mem_append_left _ (List.mem_map_of_mem hx')
  have hsession : ∀ x : Run, x.sessionId = r.sessionId →
      (f x.view).sessionId = (f r.view).sessionId :=
    fun x e => (hf x.view).2.trans (e.trans (hf r.view).2.symm)
  have hmr : r ∈ s.runs.rows := by rw [hold]; simp
  refine ⟨front₀, r, back₀, hold, (hf r.view).1.symm.trans hid, ?_, ?_, ?_⟩
  · have hs := hshift r hmr
    rw [hst] at hs
    generalize r.status = a at hs
    cases hs with
    | stay => rfl
    | going _ hb => cases hb
    | settled _ hb => cases hb
    | ended _ _ hb => cases hb
  · intro x hx e hq
    have hx' : x ∈ s.runs.rows := by rw [hold]; exact List.mem_append_left _ hx
    have hs := hshift x hx'
    have hn := hfront _ (List.mem_map_of_mem hx) (hsession x e)
    have hi := hidle _ (hnew x hx') (hsession x e)
    rw [hq] at hs
    generalize (f x.view).verdict.status = b at hs hn hi
    cases hs with
    | stay => exact absurd rfl hn
    | going h _ => cases h
    | settled h _ => cases h
    | started _ => cases hi
    | awaited _ => cases hi
    | ended h _ _ => exact h
  · intro x hx e hactive
    have hs := hshift x hx
    have hi := hidle _ (hnew x hx) (hsession x e)
    generalize (f x.view).verdict.status = b at hs hi
    generalize x.status = a at hs hactive
    cases hs with
    | stay => cases hactive.symm.trans hi
    | going _ hb => cases hb.symm.trans hi
    | settled ha _ => cases hactive.symm.trans (active_eq_false_of_terminal ha)
    | started _ => cases hactive
    | awaited _ => cases hi
    | ended h _ _ => exact h

/-- The item of a run that has ended has left the queue. -/
def Cleared (c : Control) : Prop := Paired (fun a b => b = .queued → a.terminal = false) c

theorem cleared_after (ops : List Op) : Cleared (storeAfter ops).control := by
  refine control_induct (P := fun _ => true) (fun c ch h _ => ?_) ?_
    (along_mono (along_true _ _) fun s op _ _ => approvalsOn_any s op)
  · refine Paired.apply ?_ ?_ (fun b hne hq => absurd hq hne) h
    · rintro a rfl
      rfl
    · intro a b ha _
      cases a <;> simp_all [RunStatus.active, RunStatus.terminal]
  · exact .nil

/-- The next run of a session may be started. -/
theorem enabled_of_nextUp {c : Control} {id : RunId} (hal : Aligned c) (hcl : Cleared c)
    (hnd : (c.runs.map RunView.id).Nodup) (h : Control.NextUp c.runs id) :
    (Change.started id).Enabled c := by
  obtain ⟨front, v, back, hruns, rfl, hst, hfront, hidle⟩ := h
  have hv : v ∈ c.runs := by rw [hruns]; simp
  refine ⟨v, Control.run?_of_mem hnd hv, hst, ?_, hidle⟩
  rw [Aligned, hruns] at hal
  rw [Cleared, Paired, hruns] at hcl
  have hdrop := List.forall₂_drop_append _ _ _ hal.flip
  obtain ⟨q, qback, ⟨hqid, hqsid, hqst⟩, -, hrest⟩ := List.forall₂_cons_right_iff.mp hdrop
  refine ⟨c.queue.take front.length, q, qback, ?_, hqid, hqst hst, hqsid, ?_⟩
  · rw [← hrest, List.take_append_drop]
  · intro p hp hpsid hpst
    -- the run of an earlier item has not ended, is not going and is not queued
    obtain ⟨x, hx, -, hxsid, hxst⟩ := exists_of_mem_right
      (List.forall₂_take_append _ _ _ hcl.flip).flip hp
    have hs : x.sessionId = v.sessionId := hxsid.symm.trans hpsid
    have hi := hidle x (by rw [hruns]; exact List.mem_append_left _ hx) hs
    have hq := hfront x hx hs
    have ht := hxst hpst
    cases hst : x.verdict.status <;> simp_all [RunStatus.active, RunStatus.terminal]

/-- `try_start_queued` returns, where the log is sound. -/
theorem tryStartQueued_total {s : RunStore} (hs : s.journal.Sound) (id : RunId) (clock : Clock) :
    ∃ b s', s.tryStartQueued id clock = .ok (b, s') := by
  unfold RunStore.tryStartQueued
  split
  · exact ⟨_, _, rfl⟩
  split
  · exact ⟨_, _, rfl⟩
  dsimp only
  split
  · rename_i hcount
    obtain ⟨r, hr, -⟩ := Table.count_key_eq_one.mp hcount
    have hrun : ∃ r, (s.moveRun id .queued .running).runs.find? id = some r := by
      have e := Table.find?_update s.runs (fun r => r.id = id && r.status = .queued)
        ({ · with status := .running }) (fun _ => rfl) id
      rw [hr] at e
      exact ⟨_, e⟩
    have hj : (s.moveRun id .queued .running).journal.Sound := by
      rw [RunStore.journal_moveRun]
      exact hs
    obtain ⟨r', hr'⟩ := hrun
    simp only [hr']
    obtain ⟨s', hev⟩ := insertEvent_total hj hr' "run_started"
      (.obj [("queue_wait_ms", .num (saturatingSub (clock 0) r'.createdAtMs))])
    simp only [hev]
    exact ⟨_, _, rfl⟩
  · exact ⟨_, _, rfl⟩

/-- `try_start_queued` refuses no run whose turn has come. -/
theorem not_nextUp_of_refused {ops : List Op} {id : RunId} {clock : Clock} {s' : RunStore}
    (h : (storeAfter ops).tryStartQueued id clock = .ok (false, s')) :
    ¬ (storeAfter ops).NextUp id := by
  intro hnext
  rcases RunStore.tryStartQueued_spec h with ⟨hb, -⟩ | ⟨-, hno, -⟩
  · cases hb
  · exact hno (enabled_of_nextUp (aligned_after ops) (cleared_after ops)
      (RunStore.nodup_control _) (nextUp_iff.mp hnext))

end AgentDaemon.Storage
