import AgentDaemon.Storage.Lifecycle

/-!
The session queue. While approvals are requested only of runs that are going, a session has at
most one running or waiting run, and `try_start_queued` starts the queued runs of a session in
the order of their admission (`singleWriterFifo_after`). Whatever the operations are, a run is
started at most once (`startCount_le_one`), because no operation moves a run back to `queued`.
-/

namespace AgentDaemon.Storage

open Transition

/-! ## At most one writer -/

/-- Run ids are unique and a session has at most one running or waiting run. -/
structure SingleWriter (runs : List RunView) : Prop where
  nodup : (runs.map RunView.id).Nodup
  single : ∀ v ∈ runs, ∀ w ∈ runs, v.sessionId = w.sessionId →
    v.verdict.status.active = true → w.verdict.status.active = true → v.id = w.id

theorem Control.mem_updateRun {c : Control} {run : RunId} {f : Verdict → Verdict} {x : RunView}
    (hx : x ∈ (c.updateRun run f).runs) : ∃ v ∈ c.runs, x.id = v.id ∧
      x.sessionId = v.sessionId ∧ x.verdict = if v.id = run then f v.verdict else v.verdict := by
  obtain ⟨v, hv, rfl⟩ := List.mem_map.mp hx
  refine ⟨v, hv, ?_⟩
  split <;> simp

theorem Control.map_id_updateRun (c : Control) (run : RunId) (f : Verdict → Verdict) :
    (c.updateRun run f).runs.map RunView.id = c.runs.map RunView.id := by
  simp only [updateRun, List.map_map]
  apply List.map_congr_left
  intro v _
  simp only [Function.comp]
  split <;> rfl

theorem Control.run?_of_mem {c : Control} (hnd : (c.runs.map RunView.id).Nodup) {v : RunView}
    (hv : v ∈ c.runs) : c.run? v.id = some v := by
  cases h : c.run? v.id with
  | none =>
    rw [Control.run?, List.find?_eq_none] at h
    exact absurd (decide_eq_true rfl) (h v hv)
  | some w =>
    rw [List.inj_on_of_nodup_map hnd (mem_of_run? h) hv (id_of_run? h)]

/-- A run may become active only where it was active, or where its session is idle. -/
theorem SingleWriter.updateRun {c : Control} {run : RunId} (h : SingleWriter c.runs)
    (f : Verdict → Verdict) (hact : ∀ v, c.run? run = some v →
      (f v.verdict).status.active = true →
        v.verdict.status.active = true ∨ c.Idle v.sessionId) :
    SingleWriter (c.updateRun run f).runs where
  nodup := by
    rw [Control.map_id_updateRun]
    exact h.nodup
  single := by
    -- An active run of the new state was active before, or is `run` in an idle session.
    have hold : ∀ v ∈ c.runs,
        (if v.id = run then f v.verdict else v.verdict).status.active = true →
          v.verdict.status.active = true ∨ (v.id = run ∧ c.Idle v.sessionId) := by
      intro v hv ha
      by_cases e : v.id = run
      · rw [if_pos e] at ha
        rcases hact v (e ▸ Control.run?_of_mem h.nodup hv) ha with h' | h'
        · exact .inl h'
        · exact .inr ⟨e, h'⟩
      · rw [if_neg e] at ha
        exact .inl ha
    intro x hx y hy hs hxa hya
    obtain ⟨v, hv, hxid, hxs, hxv⟩ := Control.mem_updateRun hx
    obtain ⟨w, hw, hyid, hys, hyv⟩ := Control.mem_updateRun hy
    rw [hxs, hys] at hs
    rw [hxid, hyid]
    rcases hold v hv (hxv ▸ hxa) with hva | ⟨hvr, hvi⟩ <;>
      rcases hold w hw (hyv ▸ hya) with hwa | ⟨hwr, hwi⟩
    · exact h.single v hv w hw hs hva hwa
    · have := hwi v hv hs
      rw [hva] at this
      cases this
    · have := hvi w hw hs.symm
      rw [hwa] at this
      cases this
    · exact hvr.trans hwr.symm

theorem SingleWriter.apply {c : Control} {ch : Change} (h : SingleWriter c.runs)
    (hen : ch.Enabled c ∧ ch.Awaits RunStatus.active c) : SingleWriter (ch.apply c).runs := by
  obtain ⟨hen, haw⟩ := hen
  cases ch with
  | admitted run session child =>
    have hfresh : run ∉ c.runs.map RunView.id := by
      intro hm
      obtain ⟨v, hv, e⟩ := List.mem_map.mp hm
      have := Control.run?_of_mem h.nodup hv
      rw [e, hen.1] at this
      cases this
    constructor
    · show ((c.runs ++ [_]).map RunView.id).Nodup
      rw [List.map_append, List.nodup_append]
      refine ⟨h.nodup, List.nodup_singleton _, ?_⟩
      intro a ha b hb e
      simp only [List.map_cons, List.map_nil, List.mem_singleton] at hb
      exact hfresh (by rw [← hb, ← e]; exact ha)
    · -- The new run is queued, so both active runs are old.
      have hmem : ∀ v ∈ c.runs ++ [⟨run, session, ⟨.queued, none, none, none⟩⟩],
          v.verdict.status.active = true → v ∈ c.runs := by
        intro v hv ha
        rcases List.mem_append.mp hv with hv | hv
        · exact hv
        · rw [List.mem_singleton.mp hv] at ha
          cases ha
      intro v hv w hw hs hva hwa
      exact h.single v (hmem v hv hva) w (hmem w hw hwa) hs hva hwa
  | started run =>
    refine h.updateRun ({ · with status := .running }) fun v hv _ => .inr ?_
    obtain ⟨w, hw, -, -, hidle⟩ := hen
    cases hv.symm.trans hw
    exact hidle
  | removed run => exact h.updateRun ({ · with status := .cancelled }) fun v hv ha => by cases ha
  | awaiting run =>
    exact h.updateRun ({ · with status := .waitingInteraction })
      fun v hv _ => .inl (haw run v rfl hv)
  | resumed run =>
    refine h.updateRun ({ · with status := .running }) fun v hv _ => .inl ?_
    obtain ⟨w, hw, hst⟩ := hen
    cases hv.symm.trans hw
    rw [hst]
    rfl
  | finished run u =>
    refine h.updateRun (fun _ => u) fun v hv ha => ?_
    rw [active_eq_false_of_terminal hen.1] at ha
    cases ha
  | reconciled run u =>
    refine h.updateRun (fun _ => u) fun v hv ha => ?_
    rcases hen.1 with e | e | e <;> simp [e, RunStatus.active] at ha
  | lost run =>
    exact h.updateRun ({ · with status := .unknownAfterRestart }) fun v hv ha => by cases ha
  | prepared run tools => exact h
  | toolMoved key source target => exact h
  | leased child lease => exact h

/-! ## The queue follows the runs -/

/-- Every run has its queue item at the same place, and their statuses are related by `P`. -/
def Paired (P : RunStatus → RunStatus → Prop) (c : Control) : Prop :=
  List.Forall₂ (fun (v : RunView) (q : QueueView) => q.runId = v.id ∧
    q.sessionId = v.sessionId ∧ P v.verdict.status q.status) c.runs c.queue

/-- Every run has its queue item at the same place, and the item of a queued run is queued. -/
def Aligned (c : Control) : Prop :=
  List.Forall₂ (fun (v : RunView) (q : QueueView) => q.runId = v.id ∧
    q.sessionId = v.sessionId ∧ (v.verdict.status = .queued → q.status = .queued)) c.runs c.queue

/-- One run rewritten, with or without its queue item. -/
theorem Paired.updateRun {P : RunStatus → RunStatus → Prop} {c c' : Control} {run : RunId}
    {f : Verdict → Verdict} {g : QueueView → QueueView} (h : Paired P c)
    (hruns : c'.runs = (c.updateRun run f).runs) (hqueue : c'.queue = c.queue.map g)
    (hg : ∀ q, (g q).runId = q.runId ∧ (g q).sessionId = q.sessionId)
    (hother : ∀ q, q.runId ≠ run → g q = q)
    (hst : ∀ (v : Verdict) q, q.runId = run → P (f v).status (g q).status) : Paired P c' := by
  rw [Paired, hruns, Control.updateRun, hqueue, List.forall₂_map_left_iff,
    List.forall₂_map_right_iff]
  refine List.Forall₂.imp ?_ h
  rintro v q ⟨hid, hsid, hq⟩
  rw [(hg q).1, (hg q).2]
  by_cases e : v.id = run
  · rw [if_pos e]
    exact ⟨hid, hsid, hst v.verdict q (hid.trans e)⟩
  · rw [if_neg e, hother q (hid ▸ e)]
    exact ⟨hid, hsid, hq⟩

/-- A change keeps the queue at the side of the runs, for a relation that holds of equal
statuses, of a going run and of a cancelled run whose item has left the queue. -/
theorem Paired.apply {P : RunStatus → RunStatus → Prop} {c : Control} {ch : Change}
    (hsame : ∀ a, P a a) (hgoing : ∀ a b, a.active = true → P a b)
    (hgone : ∀ b, b ≠ .queued → P .cancelled b) (h : Paired P c) : Paired P (ch.apply c) := by
  have hset : ∀ run (f : Verdict → Verdict) (status : RunStatus), (∀ v, (f v).status = status) →
      Paired P ((c.updateRun run f).mirror run status) := by
    intro run f status hf
    refine h.updateRun (f := f)
      (g := fun q => if q.runId = run then { q with status := status } else q)
      rfl rfl (fun q => ?_) (fun q hq => if_neg hq) fun v q e => ?_
    · split <;> exact ⟨rfl, rfl⟩
    · rw [if_pos e, hf v]
      exact hsame status
  cases ch with
  | admitted run session child => exact List.rel_append h (.cons ⟨rfl, rfl, hsame _⟩ .nil)
  | started run => exact hset run ({ · with status := .running }) .running fun _ => rfl
  | removed run =>
    refine h.updateRun (f := ({ · with status := .cancelled }))
      (g := fun q => if q.runId = run ∧ q.status = .queued then { q with status := .cancelled }
        else q) rfl rfl (fun q => ?_) (fun q hq => if_neg fun hc => hq hc.1) fun v q e => ?_
    · split <;> exact ⟨rfl, rfl⟩
    · split
      · exact hsame _
      · rename_i hc
        exact hgone _ fun hq => hc ⟨e, hq⟩
  | awaiting run =>
    exact h.updateRun (f := ({ · with status := .waitingInteraction })) (g := id) rfl
      (List.map_id _).symm (fun _ => ⟨rfl, rfl⟩) (fun _ _ => rfl) fun _ _ _ => hgoing _ _ rfl
  | resumed run =>
    exact h.updateRun (f := ({ · with status := .running })) (g := id) rfl
      (List.map_id _).symm (fun _ => ⟨rfl, rfl⟩) (fun _ _ => rfl) fun _ _ _ => hgoing _ _ rfl
  | finished run u => exact hset run (fun _ => u) u.status fun _ => rfl
  | reconciled run u => exact hset run (fun _ => u) u.status fun _ => rfl
  | lost run =>
    exact hset run ({ · with status := .unknownAfterRestart }) .unknownAfterRestart fun _ => rfl
  | prepared run tools => exact h
  | toolMoved key source target => exact h
  | leased child lease => exact h

theorem Aligned.apply {c : Control} (h : Aligned c) (ch : Change) : Aligned (ch.apply c) := by
  refine Paired.apply (P := fun a b => a = .queued → b = .queued) (fun _ => id) ?_ nofun h
  rintro a b ha rfl
  cases ha

/-- In aligned tables the head of the queue has no queued run of its session before it. -/
theorem Aligned.head_first {c : Control} (h : Aligned c) {front back : List RunView} {v : RunView}
    (hruns : c.runs = front ++ v :: back) (hnd : (c.runs.map RunView.id).Nodup)
    (hhead : c.Head v.sessionId v.id) :
    ∀ w ∈ front, w.sessionId = v.sessionId → w.verdict.status ≠ .queued := by
  obtain ⟨qfront, q, qback, hqueue, hid, -, -, hfirst⟩ := hhead
  rw [Aligned, hqueue] at h
  have htake := List.forall₂_take_append _ _ _ h
  have hdrop := List.forall₂_drop_append _ _ _ h
  obtain ⟨v', back', hv', -, hrest⟩ := List.forall₂_cons_right_iff.mp hdrop
  have hsplit : c.runs = c.runs.take qfront.length ++ v' :: back' := by
    rw [← hrest, List.take_append_drop]
  have hsame : v' = v := by
    have hm' : v' ∈ c.runs := by rw [hsplit]; simp
    have hm : v ∈ c.runs := by rw [hruns]; simp
    exact List.inj_on_of_nodup_map hnd hm' hm (hv'.1.symm.trans hid)
  subst hsame
  -- `v'` occurs once, so the two splits of the runs around it are one.
  have hfront : front = c.runs.take qfront.length := by
    have hnd' := List.Nodup.of_map _ hnd
    rw [hruns, List.nodup_append, List.nodup_cons] at hnd'
    refine ((List.append_cons_inj_of_notMem ?_ hnd'.2.1.1).mp (hruns.symm.trans hsplit)).1
    exact fun hm => hnd'.2.2 _ hm _ List.mem_cons_self rfl
  intro w hw hs hst
  rw [hfront] at hw
  obtain ⟨p, hp, -, hpsid, hpst⟩ := exists_of_mem_left htake hw
  exact hfirst p hp (hpsid.trans hs) (hpst hst)

/-! ## Every reachable state -/

theorem aligned_after (ops : List Op) : Aligned (storeAfter ops).control := by
  refine control_induct (P := fun _ => true) (fun c ch h _ => h.apply ch) ?_
    (along_mono (along_true _ _) fun s op _ _ => approvalsOn_any s op)
  exact .nil

theorem singleWriter_after {ops : List Op} (h : Along RunStore.next ApprovalsOnActive .empty ops) :
    SingleWriter (storeAfter ops).control.runs := by
  refine control_induct (I := fun c => SingleWriter c.runs) (fun c ch h hen => h.apply hen) ?_
    (along_mono h fun s op _ hg => hg.approvalsOn)
  exact ⟨List.nodup_nil, fun v hv => by cases hv⟩

/-- The order in which a session's runs execute. -/
structure SingleWriterFifo (s : RunStore) : Prop where
  /-- At most one run of a session is running or waiting. -/
  single : ∀ r ∈ s.runs.rows, ∀ r' ∈ s.runs.rows, r.sessionId = r'.sessionId →
    r.status.active = true → r'.status.active = true → r = r'
  /-- A run that can be started has no earlier run of its session in the queue. -/
  fifo : ∀ front r back clock s', s.runs.rows = front ++ r :: back →
    s.tryStartQueued r.id clock = .ok (true, s') →
      ∀ r' ∈ front, r'.sessionId = r.sessionId → r'.status ≠ .queued

/-- **Single writer and FIFO.** While approvals are requested only of active runs, every
reachable state has a single writer for each session and starts its runs in order. -/
theorem singleWriterFifo_after (ops : List Op)
    (h : Along RunStore.next ApprovalsOnActive .empty ops) :
    SingleWriterFifo (storeAfter ops) where
  single := by
    intro r hr r' hr' hs ha ha'
    have hid := (singleWriter_after h).single r.view (List.mem_map_of_mem hr) r'.view
      (List.mem_map_of_mem hr') hs ha ha'
    exact (storeAfter ops).runs.eq_of_key_eq hr hr' hid
  fifo := by
    intro front r back clock s' hrows hstart r' hr' hs
    rcases RunStore.tryStartQueued_spec hstart with ⟨-, ⟨v, hv, -, hhead, -⟩, -⟩ | ⟨hb, -⟩
    · have hr : r ∈ (storeAfter ops).runs.rows := by rw [hrows]; simp
      rw [RunStore.control_run?, Table.find?_of_mem hr, Option.map_some, Option.some.injEq] at hv
      subst hv
      have hruns : (storeAfter ops).control.runs =
          front.map Run.view ++ r.view :: back.map Run.view := by
        simp only [RunStore.control, hrows, List.map_append, List.map_cons]
      exact (aligned_after ops).head_first hruns (singleWriter_after h).nodup hhead r'.view
        (List.mem_map_of_mem hr') hs
    · cases hb

/-- Two runs of one session, the first of them ended. -/
def twoRuns : List Op :=
  [.admitWithRoute ⟨"s"⟩ (.number 1) "a" .queue none 0,
    .admitWithRoute ⟨"s"⟩ (.number 2) "b" .queue none 0,
    .tryStartQueued (runIdOf 1) fun _ => 0,
    .finish (runIdOf 1) .completed (some "done") none 0]

theorem singleWriterFifo_twoRuns :
    ((storeAfter twoRuns).tryStartQueued (runIdOf 2) fun _ => 0).toOption.map Prod.fst =
      some true ∧ SingleWriterFifo (storeAfter twoRuns) := by
  refine ⟨by decide, singleWriterFifo_after twoRuns ?_⟩
  refine along_mono (along_true _ _) fun s op hm _ id r happ => ?_
  simp only [twoRuns, List.mem_cons, List.not_mem_nil, or_false] at hm
  rcases hm with rfl | rfl | rfl | rfl <;> cases happ

/-! ## At most one start -/

/-- Does this call start `id`? -/
def RunStore.starts (s : RunStore) (op : Op) (id : RunId) : Bool :=
  op.starts = some id && match s.exec op with
    | .ok (.flag true, _) => true
    | _ => false

/-- How often `try_start_queued` returns true for `id` along a sequence of operations. -/
def startCount (id : RunId) (s : RunStore) (ops : List Op) : Nat :=
  countAlong RunStore.next (fun s op => s.starts op id) s ops

/-- The run exists and has left the queue. -/
def Left (id : RunId) (c : Control) : Prop :=
  ∃ v, c.run? id = some v ∧ v.verdict.status ≠ .queued

theorem Left.apply {id : RunId} {c : Control} {ch : Change} (h : Left id c) (hen : ch.Enabled c) :
    Left id (ch.apply c) := by
  obtain ⟨v, hv, hst⟩ := h
  have hupd : ∀ f : Verdict → Verdict, (f v.verdict).status ≠ .queued →
      ∃ w, (c.updateRun id f).run? id = some w ∧ w.verdict.status ≠ .queued := by
    intro f hf
    rw [Control.run?_updateRun_self, hv]
    exact ⟨_, rfl, hf⟩
  by_cases hne : ch.target = some id
  · cases ch with
    | started run => cases hne; exact hupd ({ · with status := .running }) (by simp)
    | removed run => cases hne; exact hupd ({ · with status := .cancelled }) (by simp)
    | awaiting run => cases hne; exact hupd ({ · with status := .waitingInteraction }) (by simp)
    | resumed run => cases hne; exact hupd ({ · with status := .running }) (by simp)
    | lost run => cases hne; exact hupd ({ · with status := .unknownAfterRestart }) (by simp)
    | finished run u =>
      cases hne
      refine hupd (fun _ => u) fun e => ?_
      have := hen.1
      rw [e] at this
      cases this
    | reconciled run u =>
      cases hne
      refine hupd (fun _ => u) fun e => ?_
      rcases hen.1 with hu | hu | hu <;> simp [hu] at e
    | admitted run session child => cases hne
    | prepared run tools => cases hne
    | toolMoved key source target => cases hne
    | leased child lease => cases hne
  · exact ⟨v, Change.run?_apply_of_ne hne hv, hst⟩

theorem Left.next {id : RunId} {s : RunStore} (h : Left id s.control) (op : Op) :
    Left id (s.next op).control :=
  control_next (P := fun _ => true) (fun _ _ h hen => h.apply hen.1) h (approvalsOn_any s op)

/-- A successful start needs a queued run, and leaves it running. -/
theorem starts_spec {s : RunStore} {op : Op} {id : RunId} (h : s.starts op id = true) :
    ¬ Left id s.control ∧ Left id (s.next op).control := by
  simp only [RunStore.starts, Bool.and_eq_true, decide_eq_true_eq] at h
  obtain ⟨hop, h⟩ := h
  split at h
  · rename_i s' hx
    obtain ⟨chs, hp, ha, hc⟩ := simulation hx
    cases performs_starts hp hop rfl
    obtain ⟨⟨v, hv, hst, -⟩, -⟩ := ha
    rw [RunStore.next_of_ok hx, hc]
    constructor
    · rintro ⟨w, hw, hne⟩
      cases hw.symm.trans hv
      exact hne hst
    · refine ⟨{ v with verdict := { v.verdict with status := .running } }, ?_, by simp⟩
      simp only [after_cons, after_nil, Change.apply, Control.run?_mirror,
        Control.run?_updateRun_self, hv, Option.map_some]
  · cases h

/-- **At most one execution.** Over any sequence of operations a run is started at most once. -/
theorem startCount_le_one (id : RunId) (s : RunStore) (ops : List Op) :
    startCount id s ops ≤ 1 := by
  refine countAlong_le_one (I := fun _ => True) (D := fun s => Left id s.control)
    (fun _ _ _ => trivial) (fun _ _ _ h => (starts_spec h).2) (fun _ op _ h => h.next op) ?_
    trivial ops
  intro s op _ hleft
  by_contra h
  exact (starts_spec (by simpa using h)).1 hleft

end AgentDaemon.Storage
