import AgentDaemon.Storage.Lifecycle

/-!
Tool receipts and the verdict of a run. `finish` looks at the receipts of the run before it
records a verdict, and no receipt can be added or moved on afterwards: a run that `finish`
completed or failed keeps only terminal receipts, and one that it cancelled has no effect that
was ever started (`noFalseConfirmation`).
-/

namespace AgentDaemon.Storage

open Transition

/-- A call of `finish` has set the status `st` of the run, and nothing has changed it since. -/
def SetByFinish (ops : List Op) (id : RunId) (st : RunStatus) : Prop :=
  ∃ pre op post, ops = pre ++ op :: post ∧ op.finishes = some id ∧
    (storeAfter pre).status? id ≠ some st ∧
    ∀ post', post' <+: post → (storeAfter (pre ++ op :: post')).status? id = some st

/-- No verdict of `finish` hides an effect. -/
structure NoFalseConfirmation (ops : List Op) : Prop where
  /-- A completed or failed run has no receipt left prepared or running. -/
  settled : ∀ id st, SetByFinish ops id st → st = .completed ∨ st = .failed →
    ∀ t ∈ (storeAfter ops).toolExecutions.rows, t.runId = id → t.status = .terminal
  /-- A cancelled run has started nothing but reads. -/
  untouched : ∀ id, SetByFinish ops id .cancelled →
    ∀ t ∈ (storeAfter ops).toolExecutions.rows, t.runId = id → t.effect ≠ "read" →
      t.status = .prepared
  /-- A request for any other verdict is recorded as an unknown outcome. -/
  unknown : ∀ r ∈ (storeAfter ops).runs.rows, r.status.terminal = false →
    ∀ status content error now, status.terminal = true →
      (∃ t ∈ (storeAfter ops).toolExecutions.rows, t.runId = r.id ∧ (t.status ≠ .terminal ∨
        status = .cancelled ∧ t.effect ≠ "read" ∧ t.status ≠ .prepared)) →
      ∃ rec s', (storeAfter ops).finish r.id status content error now = .ok (rec, s') ∧
        s'.status? r.id = some .unknownAfterRestart

/-! ## Receipts after the verdict -/

/-- What the receipts of a run say once `finish` has recorded `st`. -/
def Confirmed (id : RunId) (st : RunStatus) (c : Control) : Prop :=
  c.Settled id ∧ (st = .cancelled → c.NoEffects id)

theorem Confirmed.apply {id : RunId} {st : RunStatus} {c : Control} {ch : Change}
    (h : Confirmed id st c) (hen : ch.Enabled c) (hne : ∀ tools, ch ≠ .prepared id tools) :
    Confirmed id st (ch.apply c) := by
  obtain ⟨hsettled, heffects⟩ := h
  cases ch with
  | prepared run tools =>
    have hold : ∀ t ∈ c.tools ++ tools, t.key.1 = id → t ∈ c.tools := by
      intro t ht hid
      rcases List.mem_append.mp ht with ht | ht
      · exact ht
      · exact absurd (by rw [← hid, (hen.2 t ht).1]) (hne tools)
    exact ⟨fun t ht hid => hsettled t (hold t ht hid) hid,
      fun hst t ht hid => heffects hst t (hold t ht hid) hid⟩
  | toolMoved key source target =>
    -- A terminal receipt does not move.
    have hold : ∀ t ∈ c.tools.map (fun t =>
        if t.key = key ∧ t.status = source then { t with status := target } else t),
        t.key.1 = id → t ∈ c.tools := by
      intro t ht hid
      obtain ⟨x, hx, rfl⟩ := List.mem_map.mp ht
      by_cases hm : x.key = key ∧ x.status = source
      · rw [if_pos hm] at hid
        have hterm := hsettled x hx hid
        rcases hen with ⟨hs, -⟩ | ⟨hs, -⟩ <;> simp [hm.2, hs] at hterm
      · rw [if_neg hm]
        exact hx
    exact ⟨fun t ht hid => hsettled t (hold t ht hid) hid,
      fun hst t ht hid => heffects hst t (hold t ht hid) hid⟩
  | admitted run session child => exact ⟨hsettled, heffects⟩
  | started run => exact ⟨hsettled, heffects⟩
  | removed run => exact ⟨hsettled, heffects⟩
  | awaiting run => exact ⟨hsettled, heffects⟩
  | resumed run => exact ⟨hsettled, heffects⟩
  | finished run v => exact ⟨hsettled, heffects⟩
  | reconciled run v => exact ⟨hsettled, heffects⟩
  | lost run => exact ⟨hsettled, heffects⟩
  | leased child lease => exact ⟨hsettled, heffects⟩

/-- An operation on a store where the run has ended adds no receipt to it. -/
theorem Confirmed.next {id : RunId} {st : RunStatus} {s : RunStore} {op : Op}
    (h : Confirmed id st s.control) (hst : s.status? id = some st) (hfin : st.final = true) :
    Confirmed id st (s.next op).control := by
  cases hx : s.exec op with
  | error e =>
    rw [RunStore.next_of_error hx]
    exact h
  | ok p =>
    obtain ⟨reply, s'⟩ := p
    obtain ⟨chs, hp, ha, hc⟩ := simulation hx
    rw [RunStore.next_of_ok hx, hc]
    have hno : ∀ tools, Change.prepared id tools ∉ chs := by
      intro tools hm
      cases performs_prepared hp hm
      obtain ⟨⟨⟨v, hv, hrun⟩, -⟩, -⟩ := ha
      rw [status?_eq, hv, Option.map_some, Option.some.injEq, hrun] at hst
      simp [← hst, RunStatus.final] at hfin
    refine after_induct (G := fun c ch => ch.Enabled c ∧ ∀ tools, ch ≠ .prepared id tools)
      (fun c ch hc hg => hc.apply hg.1 hg.2) h (along_mono ha fun c ch hm hen => ⟨hen, ?_⟩)
    rintro tools rfl
    exact hno tools hm

/-- The call of `finish` that set the status has looked at the receipts. -/
theorem confirmed_of_finishes {s : RunStore} {op : Op} {id : RunId} {st : RunStatus}
    (hop : op.finishes = some id) (hold : s.status? id ≠ some st)
    (hnew : (s.next op).status? id = some st) (hfin : st.final = true) :
    Confirmed id st (s.next op).control := by
  cases hx : s.exec op with
  | error e =>
    rw [RunStore.next_of_error hx] at hnew
    exact absurd hnew hold
  | ok p =>
    obtain ⟨reply, s'⟩ := p
    obtain ⟨chs, hp, ha, hc⟩ := simulation hx
    rw [RunStore.next_of_ok hx] at hnew ⊢
    rcases performs_finishes hp hop with ⟨rfl, -⟩ | ⟨v, rfl⟩
    · exact absurd hnew hold
    · obtain ⟨⟨-, ⟨w, hw, -⟩, hsettled, heffects⟩, -⟩ := ha
      rw [status?_eq, hc] at hnew
      simp only [after_cons, after_nil, Change.apply, Control.run?_mirror,
        Control.run?_updateRun_self, hw, Option.map_some, Option.some.injEq] at hnew
      have hne : v.status ≠ .unknownAfterRestart := by
        intro e
        rw [← hnew, e] at hfin
        cases hfin
      rw [hc]
      exact ⟨hsettled hne, fun e => heffects (hnew.trans e)⟩

theorem confirmed_after {ops : List Op} {id : RunId} {st : RunStatus}
    (h : SetByFinish ops id st) (hfin : st.final = true) :
    Confirmed id st (storeAfter ops).control := by
  obtain ⟨pre, op, post, rfl, hop, hold, hset⟩ := h
  have hfirst : Confirmed id st ((storeAfter pre).next op).control := by
    refine confirmed_of_finishes hop hold ?_ hfin
    have := hset [] List.nil_prefix
    rwa [storeAfter_append] at this
  have halong : Along RunStore.next (fun s _ => s.status? id = some st)
      ((storeAfter pre).next op) post := by
    rw [along_iff]
    rintro post' a rest rfl
    have := hset post' (List.prefix_append _ _)
    rwa [storeAfter_append, after_cons] at this
  rw [storeAfter_append, after_cons]
  exact after_induct (I := fun s : RunStore => Confirmed id st s.control)
    (fun s op hs hst => hs.next hst hfin) hfirst halong

/-! ## Requests that would hide an effect -/

theorem downgrade_of_receipt {s : RunStore} {id : RunId} {status : RunStatus} {t : ToolExecution}
    (ht : t ∈ s.toolExecutions.rows) (hid : t.runId = id)
    (h : t.status ≠ .terminal ∨ status = .cancelled ∧ t.effect ≠ "read" ∧ t.status ≠ .prepared) :
    s.downgrade id status = .unknownAfterRestart := by
  unfold RunStore.downgrade
  apply if_pos
  rcases h with h | ⟨hst, heffect, h⟩
  · refine .inl (List.countP_pos_iff.mpr ⟨t, ht, ?_⟩)
    simp [hid, h]
  · refine .inr ⟨hst, List.countP_pos_iff.mpr ⟨t, ht, ?_⟩⟩
    cases e : t.status <;> simp_all

/-- **No false confirmation.** -/
theorem noFalseConfirmation (ops : List Op) : NoFalseConfirmation ops where
  settled := by
    intro id st h hst t ht hid
    have hfin : st.final = true := by rcases hst with rfl | rfl <;> rfl
    exact (confirmed_after h hfin).1 t.view (List.mem_map_of_mem ht) hid
  untouched := by
    intro id h t ht hid heffect
    exact (confirmed_after h rfl).2 rfl t.view (List.mem_map_of_mem ht) hid heffect
  unknown := by
    rintro r hr hnt status content error now hst ⟨t, ht, hid, hbad⟩
    obtain ⟨rec, s', h⟩ := finish_total (journal_sound ops) (Table.find?_of_mem hr) hnt hst
      content error now
    refine ⟨rec, s', h, ?_⟩
    rcases RunStore.finish_spec h with ⟨-, hread, -, hterm⟩ | ⟨hrec, ⟨-, ⟨w, hw, -⟩, -⟩, hc⟩
    · obtain ⟨x, hx, rfl⟩ := RunStore.readRun_eq_some hread
      rw [Table.find?_of_mem hr, Option.some.injEq] at hx
      subst hx
      have hterm' : r.status.terminal = true := hterm
      rw [hnt] at hterm'
      cases hterm'
    · rw [downgrade_of_receipt ht hid hbad] at hrec
      rw [status?_eq, hc]
      simp only [Change.apply, Control.run?_mirror, Control.run?_updateRun_self, hw,
        Option.map_some, Option.some.injEq]
      exact hrec

end AgentDaemon.Storage
