import AgentDaemon.Storage.Journal
import AgentDaemon.Storage.Simulation

/-!
The end of a run. Every write of a run's status tests the old status except the one for an
appended approval, so terminal runs are final exactly along the sequences of operations in
which no `approval_required` event opens an interaction on a run that has ended
(`absorbs_iff`). `revival` replays the smallest sequence that breaks it.
-/

namespace AgentDaemon.Storage

open Transition Fallible

/-- Status, content and error of a run. -/
def RunStore.verdict? (s : RunStore) (id : RunId) : Option Verdict :=
  (s.readRun id).map RunRecord.verdict

/-- Status of a run. -/
def RunStore.status? (s : RunStore) (id : RunId) : Option RunStatus :=
  (s.readRun id).map RunRecord.status

/-- A status that no operation may leave. -/
def RunStatus.final : RunStatus → Bool
  | completed | failed | cancelled => true
  | _ => false

/-- Runs end once: a final verdict never changes again, and an unknown outcome changes only
through a successful manual reconciliation. -/
structure Absorbs (ops : List Op) : Prop where
  final : ∀ pre mid post, ops = pre ++ mid ++ post → ∀ id v,
    (storeAfter pre).verdict? id = some v → v.status.final = true →
      (storeAfter (pre ++ mid)).verdict? id = some v
  unknown : ∀ pre op post, ops = pre ++ op :: post → ∀ id v,
    (storeAfter pre).verdict? id = some v → v.status = .unknownAfterRestart →
      (storeAfter (pre ++ [op])).verdict? id = some v ∨
        op.reconciles = some id ∧ ∃ reply s', (storeAfter pre).exec op = .ok (reply, s')

/-! ## One change, one operation -/

theorem verdict?_eq (s : RunStore) (id : RunId) :
    s.verdict? id = (s.control.run? id).map (·.verdict) := by
  rw [RunStore.verdict?, RunStore.readRun, RunStore.control_run?, Option.map_map, Option.map_map]
  rfl

theorem status?_eq (s : RunStore) (id : RunId) :
    s.status? id = (s.control.run? id).map (·.verdict.status) := by
  rw [RunStore.status?, RunStore.readRun, RunStore.control_run?, Option.map_map, Option.map_map]
  rfl

theorem terminal_of_final {status : RunStatus} (h : status.final = true) :
    status.terminal = true := by
  cases status <;> simp_all [RunStatus.final, RunStatus.terminal]

theorem active_eq_false_of_terminal {status : RunStatus} (h : status.terminal = true) :
    status.active = false := by
  cases status <;> simp_all [RunStatus.active, RunStatus.terminal]

theorem terminal_eq_false_of_active {status : RunStatus} (h : status.active = true) :
    status.terminal = false := by
  refine Bool.eq_false_iff.mpr fun ht => ?_
  rw [active_eq_false_of_terminal ht] at h
  cases h

/-- A change keeps the verdict of a terminal run, unless it reconciles it. -/
theorem run?_apply_of_terminal {c : Control} {ch : Change} {id : RunId} {w : RunView}
    (hen : ch.Enabled c) (haw : ch.Awaits (fun status => !status.terminal) c)
    (hrec : ∀ v, ch ≠ .reconciled id v) (hw : c.run? id = some w)
    (hw' : w.verdict.status.terminal = true) : (ch.apply c).run? id = some w := by
  refine Change.run?_apply_of_ne (fun htarget => ?_) hw
  cases ch with
  | started run =>
    cases htarget
    obtain ⟨v, hv, hst, -⟩ := hen
    cases hw.symm.trans hv
    simp [hst, RunStatus.terminal] at hw'
  | removed run =>
    cases htarget
    obtain ⟨v, hv, hst⟩ := hen
    cases hw.symm.trans hv
    simp [hst, RunStatus.terminal] at hw'
  | awaiting run =>
    cases htarget
    have := haw id w rfl hw
    simp [hw'] at this
  | resumed run =>
    cases htarget
    obtain ⟨v, hv, hst⟩ := hen
    cases hw.symm.trans hv
    simp [hst, RunStatus.terminal] at hw'
  | finished run v =>
    cases htarget
    obtain ⟨-, ⟨x, hx, hst⟩, -⟩ := hen
    cases hw.symm.trans hx
    simp [hst] at hw'
  | reconciled run v =>
    cases htarget
    exact hrec v rfl
  | lost run =>
    cases htarget
    obtain ⟨v, hv, hst⟩ := hen
    cases hw.symm.trans hv
    simp [active_eq_false_of_terminal hw'] at hst
  | admitted run session child => cases htarget
  | prepared run tools => cases htarget
  | toolMoved key source target => cases htarget
  | leased child lease => cases htarget

theorem next_verdict? {s : RunStore} {op : Op} {id : RunId} {v : Verdict}
    (hG : ApprovalsOn (fun status => !status.terminal) s op) (hv : s.verdict? id = some v)
    (ht : v.status.terminal = true) :
    (s.next op).verdict? id = some v ∨
      v.status = .unknownAfterRestart ∧ op.reconciles = some id ∧
        ∃ reply s', s.exec op = .ok (reply, s') := by
  cases h : s.exec op with
  | error e =>
    rw [RunStore.next_of_error h]
    exact .inl hv
  | ok p =>
    obtain ⟨reply, s'⟩ := p
    obtain ⟨chs, hp, ha, hc⟩ := simulation_guarded hG h
    rw [RunStore.next_of_ok h, verdict?_eq, hc]
    rw [verdict?_eq, Option.map_eq_some_iff] at hv
    obtain ⟨w, hw, rfl⟩ := hv
    by_cases hrec : ∃ v, Change.reconciled id v ∈ chs
    · obtain ⟨v, hm⟩ := hrec
      obtain ⟨hop, rfl⟩ := performs_reconciled hp hm
      obtain ⟨⟨⟨-, ⟨x, hx, hst⟩, -⟩, -⟩, -⟩ := ha
      cases hw.symm.trans hx
      exact .inr ⟨hst, hop, reply, s', rfl⟩
    · left
      have hkeep : (after Change.apply s.control chs).run? id = some w := by
        refine after_induct (I := fun c : Control => c.run? id = some w) ?_ hw (along_mono ha
          (H := fun c ch => (ch.Enabled c ∧ ch.Awaits (fun status => !status.terminal) c) ∧
            ∀ v, ch ≠ .reconciled id v) ?_)
        · rintro c ch hc ⟨⟨hen, haw⟩, hne⟩
          exact run?_apply_of_terminal hen haw hne hc ht
        · rintro c ch hm hg
          exact ⟨hg, fun v e => hrec ⟨v, e ▸ hm⟩⟩
      rw [hkeep]
      rfl

/-- An approval that opens a fresh interaction on a run that exists is stored. -/
theorem appendEvent_total {s : RunStore} (hs : s.journal.Sound) {id : RunId} {event : String}
    {data : Json} {i : InteractionId} {r : Run}
    (hreq : RunStore.approvalRequested event data = some i) (hi : s.interactions.find? i = none)
    (hr : s.runs.find? id = some r) : ∃ n s', s.appendEvent id event data = .ok (n, s') := by
  obtain ⟨s₁, hev⟩ := insertEvent_total hs hr event data
  unfold RunStore.approvalRequested at hreq
  split at hreq
  · rename_i hevent
    rw [Option.bind_eq_some_iff] at hreq
    obtain ⟨approval, happroval, hid⟩ := hreq
    rw [Option.map_eq_some_iff] at hid
    obtain ⟨text, htext, rfl⟩ := hid
    obtain ⟨run, events, -, -, -, he⟩ := RunStore.insertEvent_spec hev
    have hi' : s₁.interactions.find? ⟨text⟩ = none := by rw [he]; exact hi
    obtain ⟨interactions, hins⟩ := Table.insert_of_fresh (t := s₁.interactions) (r := ⟨⟨text⟩, id,
      "approval", .pending, 0, (approval.index "prompt").asStr?.getD "", none, approval⟩) hi'
    refine ⟨r.lastSeq + 1, { s₁ with interactions }.setRun id .waitingInteraction, ?_⟩
    rw [RunStore.appendEvent, bind_eq_ok]
    refine ⟨_, hev, ?_⟩
    simp only [hevent, happroval, htext, if_true]
    exact bind_eq_ok.mpr ⟨interactions, RunStore.constraint_eq_ok.mpr hins, rfl⟩
  · cases hreq

/-- Such an approval sets the run to wait, whatever its status was. -/
theorem next_of_approval {s : RunStore} (hs : s.journal.Sound) {id : RunId} {i : InteractionId}
    {op : Op} {r : Run} (hop : op.requestsApproval = some (id, i))
    (hi : s.interactions.find? i = none) (hr : s.runs.find? id = some r) :
    ∃ v, (s.next op).verdict? id = some v ∧ v.status = .waitingInteraction := by
  cases op with
  | appendEvent run event data =>
    simp only [Op.requestsApproval, Option.map_eq_some_iff, Prod.mk.injEq] at hop
    obtain ⟨j, hj, rfl, rfl⟩ := hop
    obtain ⟨n, s', h⟩ := appendEvent_total hs hj hi hr
    have hx : s.exec (.appendEvent run event data) = .ok (.seq n, s') := by
      simp only [RunStore.exec, h]
      rfl
    rcases RunStore.appendEvent_spec h with ⟨hnone, -⟩ | ⟨-, -, -, ⟨v, hv⟩, hc⟩
    · rw [hnone] at hj
      cases hj
    · rw [RunStore.next_of_ok hx, verdict?_eq, hc]
      simp only [Change.apply, Control.run?_updateRun_self, hv, Option.map_some]
      exact ⟨_, rfl, rfl⟩
  | _ => cases hop

/-! ## Runs of operations -/

/-- Along the allowed sequences a final verdict stays. -/
theorem after_verdict? {s : RunStore} {ops : List Op} {id : RunId} {v : Verdict}
    (hG : Along RunStore.next (ApprovalsOn fun status => !status.terminal) s ops)
    (hv : s.verdict? id = some v) (hf : v.status.final = true) :
    (after RunStore.next s ops).verdict? id = some v := by
  refine after_induct (I := fun s : RunStore => s.verdict? id = some v) ?_ hv hG
  intro s op hs hg
  rcases next_verdict? hg hs (terminal_of_final hf) with h | ⟨hst, -⟩
  · exact h
  · simp [hst, RunStatus.final] at hf

/-- **Terminal absorption**, exactly: runs end once if and only if no operation appends an
approval with a fresh interaction to a run that has ended. -/
theorem absorbs_iff (ops : List Op) :
    Absorbs ops ↔
      Along RunStore.next (ApprovalsOn fun status => !status.terminal) .empty ops := by
  constructor
  · intro h
    rw [along_iff]
    rintro pre op post rfl id i r hop hi hr
    by_contra hterm
    simp only [Bool.not_eq_true', Bool.not_eq_false] at hterm
    obtain ⟨v, hv, hst⟩ := next_of_approval (journal_sound pre) hop hi hr
    have hv' : (storeAfter (pre ++ [op])).verdict? id = some v := by
      rw [storeAfter_append]
      exact hv
    have hr' : (storeAfter pre).verdict? id = some r.verdict := by
      rw [verdict?_eq, RunStore.control_run?]
      simp only [storeAfter, hr]
      rfl
    have hterm' : r.verdict.status.terminal = true := hterm
    cases hfin : r.verdict.status.final with
    | true =>
      have := h.final pre [op] post (by simp) id r.verdict hr' hfin
      rw [hv', Option.some.injEq] at this
      simp [← this, hst, RunStatus.final] at hfin
    | false =>
      have hunknown : r.verdict.status = .unknownAfterRestart := by
        cases e : r.verdict.status <;> simp_all [RunStatus.final, RunStatus.terminal]
      rcases h.unknown pre op post rfl id r.verdict hr' hunknown with h' | ⟨hrec, -⟩
      · rw [hv', Option.some.injEq] at h'
        rw [h', hunknown] at hst
        cases hst
      · cases op <;> simp [Op.requestsApproval, Op.reconciles] at hop hrec
  · intro h
    constructor
    · rintro pre mid post rfl id v hv hf
      rw [List.append_assoc, along_append, along_append] at h
      rw [storeAfter_append]
      exact after_verdict? h.2.1 hv hf
    · rintro pre op post rfl id v hv hst
      have hg := (along_append.mp h).2.1
      rw [storeAfter_append]
      rcases next_verdict? hg hv (by simp [hst, RunStatus.terminal]) with h' | ⟨-, hrec, hok⟩
      · exact .inl h'
      · exact .inr ⟨hrec, hok⟩

/-- Admit a run, start it, complete it, then append an approval to it. -/
def revival : List Op :=
  [.admitWithRoute ⟨"s"⟩ (.number 1) "hi" .queue none 0,
    .tryStartQueued (runIdOf 1) fun _ => 0,
    .finish (runIdOf 1) .completed (some "done") none 0,
    .appendEvent (runIdOf 1) "approval_required"
      (.obj [("approval", .obj [("id", .str "a")])])]

/-- The completed run is waiting again. -/
theorem not_absorbs_revival : ¬ Absorbs revival := by
  intro h
  have := h.final (revival.take 3) (revival.drop 3) [] rfl (runIdOf 1)
    ⟨.completed, some "done", none, none⟩ (by decide) (by decide)
  exact absurd this (by decide)

end AgentDaemon.Storage
