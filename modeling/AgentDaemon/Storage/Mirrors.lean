import AgentDaemon.Storage.Archive
import AgentDaemon.Storage.Status

/-!
The copies of a run's status. The turn, the queue item and the delegation row of a run repeat its
status, with `running` for a run that waits, and its log has one `terminal` event once it has ended
(`tablesInStep_after`), provided that approvals are requested only of active runs and no caller
logs an end itself.
-/

namespace AgentDaemon.Storage

open Transition Fallible

/-- The status that the other tables show for a run. -/
def RunStatus.shown : RunStatus → RunStatus
  | waitingInteraction => running
  | status => status

theorem shown_of_terminal {status : RunStatus} (h : status.terminal = true) :
    status.shown = status := by
  cases status <;> first | rfl | cases h

theorem shown_of_active {status : RunStatus} (h : status.active = true) :
    status.shown = .running := by
  cases status <;> first | rfl | cases h

/-- Turn, queue item, delegation row and log agree with the status of their run. -/
structure TablesInStep (s : RunStore) : Prop where
  turn : ∀ r ∈ s.runs.rows, (s.turns.find? r.id).map Turn.status = some r.status.shown
  queue : ∀ r ∈ s.runs.rows,
    (s.queuedMessages.find? r.id).map QueuedMessage.status = some r.status.shown
  child : ∀ r ∈ s.runs.rows, ∀ d, s.delegations.find? r.id = some d → d.status = r.status.shown
  ending : ∀ r ∈ s.runs.rows,
    s.events.rows.countP (fun e => e.runId = r.id && e.event = "terminal") =
      if r.status.terminal then 1 else 0

/-! ## The copies -/

/-- The copies in the control state. -/
structure InStep (c : Control) : Prop where
  nodup : (c.runs.map RunView.id).Nodup
  turns : List.Forall₂ (fun (v : RunView) (t : RunId × RunStatus) =>
    t.1 = v.id ∧ t.2 = v.verdict.status.shown) c.runs c.turns
  queue : List.Forall₂ (fun (v : RunView) (q : QueueView) =>
    q.runId = v.id ∧ q.status = v.verdict.status.shown) c.runs c.queue
  children : ∀ d ∈ c.children, ∃ v ∈ c.runs, v.id = d.runId ∧ d.status = v.verdict.status.shown

/-- Rows beside the runs, in one table, after a write of the row of `run`. -/
theorem beside_update {α : Type} (key : α → RunId) {status : α → RunStatus} {c : Control}
    {run : RunId} {f : Verdict → Verdict} {g : α → α} {rows : List α}
    (h : List.Forall₂ (fun (v : RunView) x => key x = v.id ∧ status x = v.verdict.status.shown)
      c.runs rows)
    (hkey : ∀ x, key (g x) = key x) (hother : ∀ x, key x ≠ run → g x = x)
    (hst : ∀ (v : Verdict) x, key x = run → status x = v.status.shown →
      (∃ w ∈ c.runs, w.id = run ∧ w.verdict = v) → status (g x) = (f v).status.shown) :
    List.Forall₂ (fun (v : RunView) x => key x = v.id ∧ status x = v.verdict.status.shown)
      (c.updateRun run f).runs (rows.map g) := by
  rw [Control.updateRun, List.forall₂_map_left_iff, List.forall₂_map_right_iff]
  have hmem : List.Forall₂ (fun (v : RunView) x => v ∈ c.runs ∧ key x = v.id ∧
      status x = v.verdict.status.shown) c.runs rows :=
    (List.forall₂_and_left _ _).mpr ⟨fun _ hv => hv, h⟩
  refine List.Forall₂.imp ?_ hmem
  rintro v x ⟨hv, hid, hx⟩
  by_cases e : v.id = run
  · rw [if_pos e, hkey]
    exact ⟨hid, hst v.verdict x (hid.trans e) hx ⟨v, hv, e, rfl⟩⟩
  · rw [if_neg e, hother x (hid ▸ e)]
    exact ⟨hid, hx⟩

/-- One status goes into all four tables. -/
theorem InStep.mirror {c : Control} {run : RunId} {f : Verdict → Verdict} {status : RunStatus}
    (h : InStep c) (hf : ∀ v, (f v).status.shown = status) :
    InStep ((c.updateRun run f).mirror run status) where
  nodup := by
    have e := Control.map_id_updateRun c run f
    exact e.symm ▸ h.nodup
  turns := by
    refine beside_update Prod.fst h.turns ?_ ?_ ?_
    · intro t
      split <;> rfl
    · intro t ht
      exact if_neg ht
    · intro v t ht _ _
      rw [if_pos ht, hf]
  queue := by
    refine beside_update QueueView.runId h.queue ?_ ?_ ?_
    · intro q
      split <;> rfl
    · intro q hq
      exact if_neg hq
    · intro v q hq _ _
      rw [if_pos hq, hf]
  children := by
    intro d hd
    obtain ⟨x, hx, rfl⟩ := List.mem_map.mp hd
    obtain ⟨v, hv, hid, hst⟩ := h.children x hx
    refine ⟨_, List.mem_map_of_mem hv, ?_⟩
    by_cases e : x.runId = run
    · rw [if_pos e, if_pos (hid.trans e)]
      exact ⟨hid, (hf v.verdict).symm⟩
    · rw [if_neg e, if_neg fun e' => e (hid.symm.trans e')]
      exact ⟨hid, hst⟩

/-- A write that the other tables do not show. -/
theorem InStep.hidden {c : Control} {run : RunId} {f : Verdict → Verdict} (h : InStep c)
    (hf : ∀ w ∈ c.runs, w.id = run → (f w.verdict).status.shown = w.verdict.status.shown) :
    InStep (c.updateRun run f) where
  nodup := by
    rw [Control.map_id_updateRun]
    exact h.nodup
  turns := by
    have hid : (c.updateRun run f).turns = c.turns.map id := (List.map_id _).symm
    rw [hid]
    refine beside_update Prod.fst h.turns (fun _ => rfl) (fun _ _ => rfl) ?_
    rintro v t - ht ⟨w, hw, hrun, rfl⟩
    exact ht.trans (hf w hw hrun).symm
  queue := by
    have hid : (c.updateRun run f).queue = c.queue.map id := (List.map_id _).symm
    rw [hid]
    refine beside_update QueueView.runId h.queue (fun _ => rfl) (fun _ _ => rfl) ?_
    rintro v t - ht ⟨w, hw, hrun, rfl⟩
    exact ht.trans (hf w hw hrun).symm
  children := by
    intro d hd
    obtain ⟨v, hv, hid, hst⟩ := h.children d hd
    refine ⟨_, List.mem_map_of_mem hv, ?_⟩
    by_cases e : v.id = run
    · rw [if_pos e]
      exact ⟨hid, hst.trans (hf v hv e).symm⟩
    · rw [if_neg e]
      exact ⟨hid, hst⟩

/-- The queue item of a queued run is queued, so the guard on its removal holds. -/
theorem InStep.moveQueue {c : Control} {run : RunId} (h : InStep c)
    (hqueued : ∃ v, c.run? run = some v ∧ v.verdict.status = .queued) :
    c.moveQueue run .queued .cancelled = c.updateQueue run .cancelled := by
  obtain ⟨v, hv, hst⟩ := hqueued
  have hall : ∀ q ∈ c.queue, q.runId = run → q.status = .queued := by
    intro q hq hid
    obtain ⟨w, hw, hwid, hwst⟩ := exists_of_mem_right h.queue hq
    have hsame : w = v := List.inj_on_of_nodup_map h.nodup hw (Control.mem_of_run? hv)
      (hwid.symm.trans (hid.trans (Control.id_of_run? hv).symm))
    rw [hwst, hsame, hst]
    rfl
  unfold Control.moveQueue Control.updateQueue
  congr 1
  apply List.map_congr_left
  intro q hq
  by_cases e : q.runId = run
  · simp [e, hall q hq e]
  · simp [e]

theorem InStep.apply {c : Control} {ch : Change} (h : InStep c)
    (hen : ch.Enabled c ∧ ch.Awaits RunStatus.active c) : InStep (ch.apply c) := by
  obtain ⟨hen, haw⟩ := hen
  cases ch with
  | admitted run session child =>
    refine ⟨?_, List.rel_append h.turns (.cons ⟨rfl, rfl⟩ .nil),
      List.rel_append h.queue (.cons ⟨rfl, rfl⟩ .nil), ?_⟩
    · show ((c.runs ++ [_]).map RunView.id).Nodup
      rw [List.map_append]
      refine Journal.nodup_concat h.nodup fun hm => ?_
      obtain ⟨v, hv, e⟩ := List.mem_map.mp hm
      have hfind := Control.run?_of_mem h.nodup hv
      rw [e, hen.1] at hfind
      cases hfind
    · intro d hd
      rcases List.mem_append.mp hd with hd | hd
      · obtain ⟨v, hv, hid⟩ := h.children d hd
        exact ⟨v, List.mem_append_left _ hv, hid⟩
      · cases child with
        | false => cases hd
        | true =>
          rw [List.mem_singleton.mp hd]
          exact ⟨_, List.mem_append_right _ List.mem_cons_self, rfl, rfl⟩
  | started run => exact h.mirror fun _ => rfl
  | removed run =>
    have hq : ((c.updateRun run ({ · with status := .cancelled })).updateTurn run
        .cancelled).moveQueue run .queued .cancelled =
        ((c.updateRun run ({ · with status := .cancelled })).updateTurn run
          .cancelled).updateQueue run .cancelled := by
      have e := h.moveQueue hen
      simp only [Control.moveQueue, Control.updateQueue, Control.mk.injEq, true_and, and_true] at e
      simp only [Control.moveQueue, Control.updateQueue, Control.updateTurn, Control.updateRun, e]
    simp only [Change.apply, hq]
    exact h.mirror fun _ => rfl
  | awaiting run =>
    refine h.hidden (f := ({ · with status := .waitingInteraction })) fun w hw hid => ?_
    have ha := haw run w rfl (hid ▸ Control.run?_of_mem h.nodup hw)
    exact (shown_of_active ha).symm
  | resumed run =>
    obtain ⟨v, hv, hst⟩ := hen
    refine h.hidden (f := ({ · with status := .running })) fun w hw hid => ?_
    cases (hid ▸ Control.run?_of_mem h.nodup hw).symm.trans hv
    rw [hst]
    rfl
  | finished run u => exact h.mirror fun _ => shown_of_terminal hen.1
  | reconciled run u =>
    refine h.mirror fun _ => shown_of_terminal ?_
    rcases hen.1 with e | e | e <;> rw [e] <;> rfl
  | lost run => exact h.mirror fun _ => rfl
  | prepared run tools => exact ⟨h.nodup, h.turns, h.queue, h.children⟩
  | toolMoved key source target => exact ⟨h.nodup, h.turns, h.queue, h.children⟩
  | leased child lease =>
    refine ⟨h.nodup, h.turns, h.queue, ?_⟩
    intro d hd
    obtain ⟨x, hx, rfl⟩ := List.mem_map.mp hd
    obtain ⟨v, hv, hid, hst⟩ := h.children x hx
    refine ⟨v, hv, ?_⟩
    split <;> exact ⟨hid, hst⟩

/-! ## The ends in the log -/

/-- The run that a change brings to its end. -/
def Change.ends : Change → Option RunId
  | removed run | lost run => some run
  | finished run _ => some run
  | _ => none

/-- The run exists and has ended. -/
def Control.Over (c : Control) (id : RunId) : Prop :=
  ∃ v, c.run? id = some v ∧ v.verdict.status.terminal = true

/-- A change ends a run that has not ended. -/
theorem over_apply {c : Control} {ch : Change} (hen : ch.Enabled c ∧ ch.Awaits RunStatus.active c)
    (id : RunId) : ((ch.apply c).Over id ↔ c.Over id ∨ ch.ends = some id) ∧
      (ch.ends = some id → ¬ c.Over id) := by
  obtain ⟨hen, haw⟩ := hen
  -- the verdict of `run` becomes terminal or not, whatever it was
  have hset : ∀ run (f : Verdict → Verdict) (b : Bool), (∃ v, c.run? run = some v) →
      (∀ v, c.run? run = some v → (f v.verdict).status.terminal = b) →
      ((c.updateRun run f).Over id ↔ if id = run then b = true else c.Over id) := by
    rintro run f b ⟨v, hv⟩ hf
    refine Iff.trans (Control.exists_run?_updateRun (P := fun v => v.status.terminal = true)) ?_
    by_cases h : id = run
    · subst h
      simp [hv, hf v hv]
    · simp [h, Control.Over]
  have hlive : ∀ run v, c.run? run = some v → v.verdict.status.terminal = false →
      ¬ c.Over run := by
    rintro run v hv hst ⟨w, hw, hover⟩
    cases hv.symm.trans hw
    exact absurd (hst.symm.trans hover) (by decide)
  have hkeep : ∀ run (f : Verdict → Verdict) v, c.run? run = some v →
      v.verdict.status.terminal = false → (f v.verdict).status.terminal = false →
      ((c.updateRun run f).Over id ↔ c.Over id) := by
    intro run f v hv hst hf
    refine (hset run f false ⟨v, hv⟩ fun w hw => ?_).trans ?_
    · cases hv.symm.trans hw
      exact hf
    · by_cases h : id = run
      · subst h
        simp [hlive _ v hv hst]
      · simp [h]
  have hend : ∀ run (f : Verdict → Verdict) v, c.run? run = some v →
      v.verdict.status.terminal = false → (∀ v, (f v).status.terminal = true) →
      ((c.updateRun run f).Over id ↔ c.Over id ∨ some run = some id) ∧
        (some run = some id → ¬ c.Over id) := by
    intro run f v hv hst hf
    refine ⟨(hset run f true ⟨v, hv⟩ fun w _ => hf _).trans ?_, ?_⟩
    · by_cases h : id = run
      · simp [h]
      · simp [h, Ne.symm h]
    · rintro ⟨⟩
      exact hlive _ v hv hst
  cases ch with
  | admitted run session child =>
    refine ⟨Iff.trans (Control.exists_run?_concat
      (w := ⟨run, session, ⟨.queued, none, none, none⟩⟩) hen.1
      (P := fun v => v.status.terminal = true)) ?_, by simp [Change.ends]⟩
    by_cases h : id = run
    · subst h
      simp [Control.Over, hen.1, Change.ends, RunStatus.terminal]
    · simp [h, Control.Over, Change.ends]
  | started run =>
    obtain ⟨v, hv, hst, -⟩ := hen
    refine ⟨Iff.trans (hkeep run ({ · with status := .running }) v hv (hst ▸ rfl) rfl) ?_, by simp [Change.ends]⟩
    simp [Change.ends]
  | removed run =>
    obtain ⟨v, hv, hst⟩ := hen
    exact hend run ({ · with status := .cancelled }) v hv (hst ▸ rfl) fun _ => rfl
  | awaiting run =>
    obtain ⟨v, hv⟩ := hen
    have ha := haw run v rfl hv
    refine ⟨Iff.trans (hkeep run ({ · with status := .waitingInteraction }) v hv
      (terminal_eq_false_of_active ha) rfl) ?_, by simp [Change.ends]⟩
    simp [Change.ends]
  | resumed run =>
    obtain ⟨v, hv, hst⟩ := hen
    refine ⟨Iff.trans (hkeep run ({ · with status := .running }) v hv (hst ▸ rfl) rfl) ?_, by simp [Change.ends]⟩
    simp [Change.ends]
  | finished run u =>
    obtain ⟨hu, ⟨v, hv, hst⟩, -⟩ := hen
    exact hend run (fun _ => u) v hv hst fun _ => hu
  | reconciled run u =>
    obtain ⟨hu, ⟨v, hv, hst⟩, -⟩ := hen
    have ht : u.status.terminal = true := by rcases hu with e | e | e <;> rw [e] <;> rfl
    refine ⟨Iff.trans (hset run (fun _ => u) true ⟨v, hv⟩ fun _ _ => ht) ?_, by simp [Change.ends]⟩
    by_cases h : id = run
    · subst h
      simp [Control.Over, hv, hst, RunStatus.terminal]
    · simp [h, Change.ends]
  | lost run =>
    obtain ⟨v, hv, hact⟩ := hen
    exact hend run ({ · with status := .unknownAfterRestart }) v hv
      (terminal_eq_false_of_active hact) fun _ => rfl
  | prepared run tools => exact ⟨by simp [Change.ends, Change.apply, Control.Over, Control.run?], by simp [Change.ends]⟩
  | toolMoved key source target =>
    exact ⟨by simp [Change.ends, Change.apply, Control.Over, Control.run?], by simp [Change.ends]⟩
  | leased child lease =>
    exact ⟨by simp [Change.ends, Change.apply, Control.Over, Control.run?], by simp [Change.ends]⟩

/-- Each run that has ended is listed once, and no other. -/
def EndsOnce (endings : List RunId) (c : Control) : Prop :=
  (∀ id, c.Over id → endings.count id = 1) ∧ ∀ id, ¬ c.Over id → endings.count id = 0

theorem EndsOnce.apply {endings : List RunId} {c : Control} {ch : Change}
    (h : EndsOnce endings c) (hen : ch.Enabled c ∧ ch.Awaits RunStatus.active c) :
    EndsOnce (endings ++ ch.ends.toList) (ch.apply c) := by
  have hcount : ∀ id, (endings ++ ch.ends.toList).count id =
      endings.count id + if ch.ends = some id then 1 else 0 := by
    intro id
    rw [List.count_append]
    cases ch.ends with
    | none => simp
    | some run => by_cases e : run = id <;> simp [e]
  constructor
  · intro id hover
    rw [hcount]
    rcases ((over_apply hen id).1).mp hover with hover | hends
    · have hne : ch.ends ≠ some id := fun e => (over_apply hen id).2 e hover
      rw [h.1 id hover, if_neg hne]
    · rw [h.2 id ((over_apply hen id).2 hends), if_pos hends]
  · intro id hover
    rw [(over_apply hen id).1, not_or] at hover
    rw [hcount, h.2 id hover.1, if_neg hover.2]

theorem EndsOnce.after {endings : List RunId} {c : Control} {chs : List Change}
    (h : EndsOnce endings c)
    (ha : Along Change.apply (fun c ch => ch.Enabled c ∧ ch.Awaits RunStatus.active c) c chs) :
    EndsOnce (endings ++ chs.filterMap Change.ends) (after Change.apply c chs) := by
  induction chs generalizing endings c with
  | nil =>
    rw [List.filterMap_nil, List.append_nil]
    exact h
  | cons ch chs ih =>
    have hrest := ih (h.apply ha.1) ha.2
    rw [List.append_assoc] at hrest
    have e : (ch :: chs).filterMap Change.ends =
        ch.ends.toList ++ chs.filterMap Change.ends := by
      cases hends : ch.ends <;> simp [hends]
    rw [e]
    exact hrest

/-- The runs that a restart loses were going, and it loses each once. -/
theorem lost_going {c : Control} {ids : List RunId}
    (ha : Along Change.apply Change.Enabled c (ids.map .lost)) :
    ids.Nodup ∧ ∀ id ∈ ids, ∃ v, c.run? id = some v ∧ v.verdict.status.active = true := by
  induction ids generalizing c with
  | nil => exact ⟨List.nodup_nil, nofun⟩
  | cons run ids ih =>
    obtain ⟨hnd, hgoing⟩ := ih ha.2
    have hfind : ∀ id, (∃ v, (Change.apply c (.lost run)).run? id = some v ∧
        v.verdict.status.active = true) ↔ if id = run then False else
          ∃ v, c.run? id = some v ∧ v.verdict.status.active = true := by
      intro id
      refine Iff.trans (Control.exists_run?_updateRun
        (f := ({ · with status := .unknownAfterRestart }))
        (P := fun v => v.status.active = true)) ?_
      simp [RunStatus.active]
    refine ⟨List.nodup_cons.mpr ⟨fun hm => ?_, hnd⟩, fun id hid => ?_⟩
    · have hrun := (hfind run).mp (hgoing run hm)
      rwa [if_pos rfl] at hrun
    · rcases List.mem_cons.mp hid with rfl | hid
      · exact ha.1
      · have hrun := (hfind id).mp (hgoing id hid)
        split at hrun
        · exact hrun.elim
        · exact hrun

/-- The caller logs the end of a run itself. -/
def Op.logsEnd : Op → Bool
  | .appendEvent _ event _ => event = "terminal"
  | _ => false

/-- A successful operation logs the ends that its changes bring about. -/
theorem endings_perm {s s' : RunStore} {op : Op} {reply : Reply} {chs : List Change} {e : Entry}
    (hp : op.Performs s s' reply chs) (ha : Along Change.apply Change.Enabled s.control chs)
    (hc : s'.control = after Change.apply s.control chs) (hf : op.Files s s' reply e)
    (hop : op.logsEnd = false) :
    ((s.archive.file e).endings).Perm (s.archive.endings ++ chs.filterMap Change.ends) := by
  have hquiet : (s.archive.file e).endings = s.archive.endings → chs.filterMap Change.ends = [] →
      ((s.archive.file e).endings).Perm (s.archive.endings ++ chs.filterMap Change.ends) := by
    intro h₁ h₂
    rw [h₁, h₂, List.append_nil]
  cases op with
  | removeQueued id now =>
    obtain ⟨b, rfl, rfl⟩ := hf
    rcases hp with ⟨hb, rfl⟩ | ⟨hb, -, rfl⟩
    · cases hb
      exact .refl _
    · cases hb
      exact hquiet rfl rfl
  | appendEvent id event data =>
    have hevent : event ≠ "terminal" := by simpa [Op.logsEnd] using hop
    rcases hp with ⟨hno, rfl⟩ | ⟨i, hi, -, rfl⟩
    · rcases hf with ⟨-, rfl⟩ | ⟨j, prompt, payload, hj, -⟩
      · exact hquiet (by rw [if_neg hevent]; rfl) rfl
      · cases hno.symm.trans hj
    · rcases hf with ⟨hno, -⟩ | ⟨j, prompt, payload, -, -, -, rfl⟩
      · cases hno.symm.trans hi
      · exact hquiet rfl rfl
  | finish id status content error now =>
    obtain ⟨rec, -, ⟨rfl, hrec, -, hterm, rfl⟩ | ⟨-, rfl⟩⟩ := hp
    · rcases hf with ⟨-, rfl⟩ | ⟨⟨current, hcur, hlive⟩, -⟩
      · exact hquiet rfl rfl
      · cases hrec.symm.trans hcur
        cases hterm.symm.trans hlive
    · rcases hf with ⟨rfl, -⟩ | ⟨-, rfl⟩
      · -- the run has not ended before, so the state is another one
        have hover := over_apply ⟨ha.1, nofun⟩ id
        rw [after_cons, after_nil] at hc
        rw [← hc] at hover
        exact absurd (hover.1.mpr (.inr rfl)) (hover.2 rfl)
      · exact .refl _
  | recover clock =>
    obtain ⟨ids, rfl, hall⟩ := hp
    cases hf
    obtain ⟨hnd, hgoing⟩ := lost_going ha
    have hends : (ids.map Change.lost).filterMap Change.ends = ids := by
      rw [List.filterMap_map]
      exact List.filterMap_some
    rw [hends]
    refine List.Perm.append_left _ ?_
    refine (List.perm_ext_iff_of_nodup ?_ hnd).mpr fun id => ?_
    · exact s.runs.nodup.sublist (List.filter_sublist.map _)
    · constructor
      · intro hid
        obtain ⟨r, hr, rfl⟩ := List.mem_map.mp hid
        obtain ⟨hr, hactive⟩ := List.mem_filter.mp hr
        exact hall r.view (List.mem_map_of_mem hr) hactive
      · intro hid
        obtain ⟨v, hv, hactive⟩ := hgoing id hid
        rw [RunStore.control_run?, Option.map_eq_some_iff] at hv
        obtain ⟨r, hr, rfl⟩ := hv
        exact List.mem_map.mpr
          ⟨r, List.mem_filter.mpr ⟨Table.mem_of_find? hr, hactive⟩, Table.key_of_find? hr⟩
  | admitWithRoute sid rid input mode route now =>
    refine hquiet ?_ ?_
    · rcases hf with ⟨-, rfl⟩ | ⟨id, -, -, rfl⟩ <;> rfl
    · rcases hp with ⟨r, -, -, -, -, -, rfl⟩ | ⟨rec, -, -, rfl⟩ <;> rfl
  | claimInteraction i sid id revision approved =>
    refine hquiet ?_ ?_
    · rcases hf with ⟨-, rfl⟩ | ⟨-, rfl⟩ <;> rfl
    · rcases hp with rfl | rfl <;> rfl
  | admitDelegation request clock =>
    refine hquiet ?_ ?_
    · rcases hf with ⟨-, rfl⟩ | ⟨parent, rec, -, -, -, rfl⟩ <;> rfl
    · rcases hp with rfl | ⟨id, rfl⟩ <;> rfl
  | prepareToolBatch id round calls =>
    obtain ⟨-, -, rfl⟩ := hf
    obtain ⟨tools, rfl⟩ := hp
    exact hquiet rfl rfl
  | tryStartQueued id clock =>
    cases hf
    rcases hp with ⟨-, rfl⟩ | ⟨-, -, rfl⟩ <;> exact hquiet rfl rfl
  | reconcileUnknown id sid seq status content evidence digest now =>
    cases hf
    obtain ⟨rec, -, -, rfl⟩ := hp
    exact hquiet rfl rfl
  | reserveDelegationResult child owner revision clock =>
    cases hf
    rcases hp with rfl | ⟨lease, -, -, rfl⟩ <;> exact hquiet rfl rfl
  | releaseDelegationResult child owner revision clock =>
    cases hf
    obtain ⟨-, rfl⟩ := hp
    exact hquiet rfl rfl
  | deliverDelegationResult child owner revision clock =>
    cases hf
    obtain ⟨d, -, ⟨-, -, rfl⟩ | ⟨-, rfl⟩⟩ := hp <;> exact hquiet rfl rfl
  | startTool id round callId now =>
    cases hf
    cases hp
    exact hquiet rfl rfl
  | finishTool id round callId outcome artifactRef receipt now =>
    cases hf
    cases hp
    exact hquiet rfl rfl
  | finishToolBatch id round =>
    cases hf
    cases hp
    exact hquiet rfl rfl
  | startProviderAttempt attempt =>
    cases hf
    cases hp
    exact hquiet rfl rfl
  | finishProviderAttempt attempt =>
    cases hf
    cases hp
    exact hquiet rfl rfl

theorem endsOnce_next {s : RunStore} {op : Op} (h : EndsOnce s.archive.endings s.control)
    (hG : ApprovalsOnActive s op) (hop : op.logsEnd = false) :
    EndsOnce (s.next op).archive.endings (s.next op).control := by
  cases hx : s.exec op with
  | error e =>
    rw [RunStore.next_of_error hx]
    exact h
  | ok p =>
    obtain ⟨reply, s'⟩ := p
    obtain ⟨chs, hp, ha, hc⟩ := simulation_guarded hG.approvalsOn hx
    obtain ⟨e, hf, he⟩ := exec_archive hx
    have hperm := endings_perm hp (along_mono ha fun _ _ _ hg => hg.1) hc hf hop
    have hafter := h.after ha
    rw [RunStore.next_of_ok hx, hc, he]
    constructor
    · intro id hover
      rw [hperm.count_eq]
      exact hafter.1 id hover
    · intro id hover
      rw [hperm.count_eq]
      exact hafter.2 id hover

/-! ## The tables -/

/-- What is assumed of the callers: approvals are requested only of active runs, and the end of a
run is logged only by the store. -/
def Heeds (s : RunStore) (op : Op) : Prop := ApprovalsOnActive s op ∧ op.logsEnd = false

theorem inStep_after {ops : List Op} (h : Along RunStore.next ApprovalsOnActive .empty ops) :
    InStep (storeAfter ops).control := by
  refine control_induct (P := RunStatus.active) (fun c ch hin hen => hin.apply hen) ?_
    (along_mono h fun s op _ hg => hg.approvalsOn)
  exact ⟨List.nodup_nil, .nil, .nil, fun d hd => by cases hd⟩

theorem endsOnce_after {ops : List Op} (h : Along RunStore.next Heeds .empty ops) :
    EndsOnce (storeAfter ops).archive.endings (storeAfter ops).control := by
  refine after_induct (I := fun s : RunStore => EndsOnce s.archive.endings s.control)
    (fun s op hs hg => endsOnce_next hs hg.1 hg.2) ?_ h
  refine ⟨?_, fun id _ => rfl⟩
  rintro id ⟨v, hv, -⟩
  cases hv

/-- The ends of a run in the log. -/
theorem count_endings (s : RunStore) (id : RunId) :
    s.archive.endings.count id =
      s.events.rows.countP fun e => e.runId = id && e.event = "terminal" := by
  simp only [RunStore.archive, List.count, List.countP_map, List.countP_filter]
  apply List.countP_congr
  intro e _
  simp

/-- **The copies stay in step.** While callers heed the two assumptions, the turn, the queue item
and the delegation row of each run show its status, and its log has one end exactly if it has
ended. -/
theorem tablesInStep_after (ops : List Op) (h : Along RunStore.next Heeds .empty ops) :
    TablesInStep (storeAfter ops) := by
  have hin := inStep_after (along_mono h fun s op _ hg => hg.1)
  have hends := endsOnce_after h
  have hview : ∀ r ∈ (storeAfter ops).runs.rows, r.view ∈ (storeAfter ops).control.runs :=
    fun r hr => List.mem_map_of_mem hr
  constructor
  · intro r hr
    obtain ⟨x, hx, hid, hst⟩ := exists_of_mem_left hin.turns (hview r hr)
    obtain ⟨t, ht, rfl⟩ := List.mem_map.mp hx
    have hfind : (storeAfter ops).turns.find? r.id = some t :=
      Table.find?_eq_some_iff.mpr ⟨ht, hid⟩
    rw [hfind]
    exact congrArg some hst
  · intro r hr
    obtain ⟨x, hx, hid, hst⟩ := exists_of_mem_left hin.queue (hview r hr)
    obtain ⟨q, hq, rfl⟩ := List.mem_map.mp hx
    have hfind : (storeAfter ops).queuedMessages.find? r.id = some q :=
      Table.find?_eq_some_iff.mpr ⟨hq, hid⟩
    rw [hfind]
    exact congrArg some hst
  · intro r hr d hd
    obtain ⟨v, hv, hid, hst⟩ := hin.children d.view (List.mem_map_of_mem (Table.mem_of_find? hd))
    have hchild : d.childRunId = r.id := Table.key_of_find? hd
    have hsame : v = r.view :=
      List.inj_on_of_nodup_map hin.nodup hv (hview r hr) (hid.trans hchild)
    rw [hsame] at hst
    exact hst
  · intro r hr
    have hrun : (storeAfter ops).control.run? r.id = some r.view :=
      Control.run?_of_mem hin.nodup (hview r hr)
    rw [← count_endings]
    by_cases ht : r.status.terminal = true
    · rw [if_pos ht]
      exact hends.1 r.id ⟨r.view, hrun, ht⟩
    · rw [if_neg ht]
      refine hends.2 r.id ?_
      rintro ⟨v, hv, hover⟩
      cases hrun.symm.trans hv
      exact ht hover

/-- A run that waits for an approval and is then found at a restart. -/
def lostRun : List Op :=
  [.admitWithRoute ⟨"s"⟩ (.number 1) "a" .queue none 0,
    .tryStartQueued (runIdOf 1) fun _ => 0,
    .appendEvent (runIdOf 1) "approval_required" (.obj [("approval", .obj [("id", .str "i")])]),
    .recover fun _ => 0]

theorem tablesInStep_lostRun :
    (storeAfter lostRun).status? (runIdOf 1) = some .unknownAfterRestart ∧
      TablesInStep (storeAfter lostRun) := by
  have hquiet : ∀ s op, op.approvalRun = none → ApprovalsOnActive s op := by
    intro s op hop id r hid
    rw [hop] at hid
    cases hid
  refine ⟨by decide, tablesInStep_after lostRun ?_⟩
  refine ⟨⟨hquiet _ _ rfl, rfl⟩, ⟨hquiet _ _ rfl, rfl⟩, ⟨?_, rfl⟩, ⟨hquiet _ _ rfl, rfl⟩, trivial⟩
  intro id r hid hr
  cases hid
  have hst : ((storeAfter (lostRun.take 2)).runs.find? (runIdOf 1)).map Run.status =
      some .running := by decide
  have e := Option.some.inj ((congrArg (Option.map Run.status) hr).symm.trans hst)
  rw [e]
  rfl

end AgentDaemon.Storage
