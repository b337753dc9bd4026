import AgentDaemon.Storage.Repeats
import AgentDaemon.Storage.Status

/-!
Which calls complete a run. A run becomes completed by a `finish` that asks for it, with the content
it is called with, or by a manual resolution (`completed_of_next`), and no call changes for which
session and with which input it was made (`head?_next`).
-/

namespace AgentDaemon.Storage

open Transition Fallible

/-! ## What completes a run -/

/-- A change sets a run to completed only by an outcome, of its driver or by hand. -/
theorem run?_apply_completed {c : Control} {ch : Change} {id : RunId} {w : RunView}
    (hw : (ch.apply c).run? id = some w) (hst : w.verdict.status = .completed) :
    c.run? id = some w ∨ ch = .finished id w.verdict ∨ ch = .reconciled id w.verdict := by
  have hupd : ∀ (run : RunId) (f : Verdict → Verdict), (c.updateRun run f).run? id = some w →
      c.run? id = some w ∨ id = run ∧ ∃ v, f v = w.verdict := by
    intro run f h
    rw [Control.run?_updateRun, Option.map_eq_some_iff] at h
    obtain ⟨v, hv, rfl⟩ := h
    split
    · rename_i hid
      exact .inr ⟨(Control.id_of_run? hv).symm.trans hid, _, rfl⟩
    · exact .inl hv
  have hmoved : ∀ (run : RunId) (status : RunStatus), status ≠ .completed →
      (c.updateRun run ({ · with status := status })).run? id = some w → c.run? id = some w := by
    intro run status hne h
    rcases hupd run _ h with h | ⟨-, v, hv⟩
    · exact h
    · rw [← hv] at hst
      exact absurd hst hne
  cases ch with
  | admitted run session child =>
    left
    simp only [Control.run?, Change.apply, List.find?_append, Option.or_eq_some_iff] at hw ⊢
    rcases hw with hw | ⟨-, hw⟩
    · exact hw
    · have hnew := List.mem_of_find?_eq_some hw
      rw [List.mem_singleton.mp hnew] at hst
      cases hst
  | started run => exact .inl (hmoved run .running (by simp) hw)
  | removed run => exact .inl (hmoved run .cancelled (by simp) hw)
  | awaiting run => exact .inl (hmoved run .waitingInteraction (by simp) hw)
  | resumed run => exact .inl (hmoved run .running (by simp) hw)
  | lost run => exact .inl (hmoved run .unknownAfterRestart (by simp) hw)
  | finished run v =>
    rcases hupd run (fun _ => v) hw with h | ⟨rfl, _, rfl⟩
    · exact .inl h
    · exact .inr (.inl rfl)
  | reconciled run v =>
    rcases hupd run (fun _ => v) hw with h | ⟨rfl, _, rfl⟩
    · exact .inl h
    · exact .inr (.inr rfl)
  | prepared run tools => exact .inl hw
  | toolMoved key source target => exact .inl hw
  | leased child lease => exact .inl hw

theorem run?_after_completed {c : Control} {chs : List Change} {id : RunId} {w : RunView}
    (hfin : ∀ v, Change.finished id v ∉ chs) (hrec : ∀ v, Change.reconciled id v ∉ chs)
    (hw : (after Change.apply c chs).run? id = some w) (hst : w.verdict.status = .completed) :
    c.run? id = some w := by
  induction chs generalizing c with
  | nil => exact hw
  | cons ch chs ih =>
    simp only [List.mem_cons, not_or] at hfin hrec
    have hnext := ih (fun v => (hfin v).2) (fun v => (hrec v).2) hw
    rcases run?_apply_completed hnext hst with h | h | h
    · exact h
    · exact absurd h.symm (hfin _).1
    · exact absurd h.symm (hrec _).1

/-- What `finish` leaves of a run that it completes: the content it was called with. -/
theorem completed_of_finish {s s' : RunStore} {id : RunId} {status : RunStatus}
    {content : Option String} {error : Option (Int × String)} {now : Int} {rec : RunRecord}
    {v : Verdict} (h : s.finish id status content error now = .ok (rec, s'))
    (hv : s'.verdict? id = some v) (hst : v.status = .completed) :
    s.verdict? id = some v ∨ status = .completed ∧ v.content = content := by
  obtain ⟨-, ⟨rfl, -⟩ | ⟨current, _, _, _, _, hcur, hgoing, -⟩⟩ := RunStore.finish_cases h
  · exact .inl hv
  · right
    obtain ⟨r, hr, rfl⟩ := RunStore.readRun_eq_some hcur
    have hid : r.id = id := Table.key_of_find? hr
    obtain ⟨-, hread, -, hverdict⟩ := finish_first h hr hgoing
    rw [RunStore.verdict?, hread] at hv
    cases hv
    rw [hverdict] at hst ⊢
    have hasked : status = .completed := by
      rcases s.downgrade_eq id status with e | e
      · exact e.symm.trans hst
      · cases e.symm.trans hst
    exact ⟨hasked, if_pos hst⟩

/-- The run that a call completes, if it completes one. -/
def Op.completes : Op → Option RunId
  | .finish runId .completed _ _ _ | .reconcileUnknown runId _ _ _ _ _ _ _ => some runId
  | _ => none

/-- A call that completes a run finishes it so, or resolves it by hand. -/
theorem completed_of_next {s : RunStore} {op : Op} {id : RunId} {v : Verdict}
    (hv : (s.next op).verdict? id = some v) (hst : v.status = .completed) :
    s.verdict? id = some v ∨ op.reconciles = some id ∨
      ∃ content error now, op = .finish id .completed content error now ∧ v.content = content := by
  cases hx : s.exec op with
  | error e =>
    rw [RunStore.next_of_error hx] at hv
    exact .inl hv
  | ok p =>
    obtain ⟨reply, s'⟩ := p
    rw [RunStore.next_of_ok hx] at hv
    obtain ⟨chs, hp, -, hc⟩ := simulation hx
    by_cases hfin : ∃ v, Change.finished id v ∈ chs
    · obtain ⟨w, hm⟩ := hfin
      have hop := (performs_finished hp hm).1
      cases op with
      | finish run status content error now =>
        cases hop
        obtain ⟨rec, -, hf⟩ := RunStore.of_exec hx
        rcases completed_of_finish hf hv hst with h | ⟨rfl, h⟩
        · exact .inl h
        · exact .inr (.inr ⟨content, error, now, rfl, h⟩)
      | _ => cases hop
    · by_cases hrec : ∃ v, Change.reconciled id v ∈ chs
      · obtain ⟨w, hm⟩ := hrec
        exact .inr (.inl (performs_reconciled hp hm).1)
      · left
        rw [verdict?_eq, hc, Option.map_eq_some_iff] at hv
        obtain ⟨w, hw, rfl⟩ := hv
        rw [verdict?_eq, run?_after_completed (fun v hm => hfin ⟨v, hm⟩)
          (fun v hm => hrec ⟨v, hm⟩) hw hst]
        rfl

theorem completed_of_other {s : RunStore} {op : Op} {id : RunId} {v : Verdict}
    (hop : op.completes = none) (hv : (s.next op).verdict? id = some v)
    (hst : v.status = .completed) : s.verdict? id = some v := by
  rcases completed_of_next hv hst with h | h | ⟨content, error, now, rfl, -⟩
  · exact h
  · cases op with
    | reconcileUnknown => cases hop
    | _ => cases h
  · cases hop

/-! ## What a run was made for -/

namespace RunStore

def head? (s : RunStore) (id : RunId) : Option Head := (s.runs.find? id).map Run.head

variable {s s' : RunStore} {id : RunId}

theorem head?_eq_some {x : Head} : s.head? id = some x ↔ x ∈ s.archive.heads ∧ x.id = id := by
  simp only [head?, Option.map_eq_some_iff, Table.find?_eq_some_iff, archive, List.mem_map]
  constructor
  · rintro ⟨r, ⟨hr, rfl⟩, rfl⟩
    exact ⟨⟨r, hr, rfl⟩, rfl⟩
  · rintro ⟨⟨r, hr, rfl⟩, rfl⟩
    exact ⟨r, ⟨hr, rfl⟩, rfl⟩

theorem exists_head? {v : Verdict} (h : s.verdict? id = some v) : ∃ x, s.head? id = some x := by
  obtain ⟨rec, hread, -⟩ := Option.map_eq_some_iff.mp h
  obtain ⟨r, hr, -⟩ := readRun_eq_some hread
  exact ⟨r.head, by rw [head?, hr, Option.map_some]⟩

/-- No call changes what a run was made for. -/
theorem head?_next {x : Head} (h : s.head? id = some x) (op : Op) :
    (s.next op).head? id = some x := by
  obtain ⟨hx, hid⟩ := head?_eq_some.mp h
  exact head?_eq_some.mpr ⟨(heads_next s op).subset hx, hid⟩

theorem admitWithRoute_head {sid : SessionId} {rid : RequestId} {input : String}
    {mode : AdmissionMode} {route : Option Provider.RouteSnapshot} {now : Int} {a : Admission}
    (h : s.admitWithRoute sid rid input mode route now = .ok (a, s')) :
    s'.head? a.record.runId = some ⟨a.record.runId, sid, rid, input⟩ := by
  rcases RunStore.admitWithRoute_cases h with ⟨stored, hm, hsid, hrid, hinput, rfl, rfl⟩ |
    ⟨-, rec, rfl, -, henq⟩
  · refine head?_eq_some.mpr ⟨List.mem_map.mpr ⟨stored, hm, ?_⟩, rfl⟩
    rw [Run.head, hsid, hrid, hinput]
    rfl
  · refine head?_eq_some.mpr ⟨?_, rfl⟩
    rw [(enqueueRun_archive henq).2.2]
    exact List.mem_append_right _ (List.mem_singleton.mpr rfl)

end RunStore

end AgentDaemon.Storage
