import AgentDaemon.Storage.Waiting

/-!
The life of a question. An operation opens a question or settles one that is pending, and a settled
question stays as it is (`question_of_next`, `settled_next`). A question is asked by a run that has
left the queue (`AskedDequeued.next`), so that after a restart every question is settled and every
run that asked one has ended (`asked_of_recover`).
-/

namespace AgentDaemon.Storage

open Transition Fallible

/-! ## One operation -/

/-- How an operation may settle a question that is pending. -/
inductive Op.Settles (op : Op) (i : InteractionId) : InteractionStatus → Prop
  | orphaned : op.Settles i .orphaned
  | answered {sid : SessionId} {run : RunId} {revision : Int} {approved : Bool}
      (h : op = .claimInteraction i sid run revision approved) :
      op.Settles i (if approved then .answered else .rejected)

section Files

variable {s s' : RunStore} {op : Op} {reply : Reply} {x : Interaction}

theorem files_asked (h : op.Files s s' reply (.asked x)) :
    op.requestsApproval = some (x.runId, x.id) ∧ s.interactions.find? x.id = none ∧
      x.status = .pending := by
  cases op with
  | appendEvent id event data =>
    rcases h with ⟨-, h⟩ | ⟨i, prompt, payload, hi, -, hfresh, h⟩
    · split at h <;> cases h
    · cases h
      exact ⟨by rw [Op.requestsApproval, hi, Option.map_some], hfresh, rfl⟩
  | removeQueued id now => rcases files_removeQueued h with e | e <;> cases e
  | _ => simp [Op.Files] at h

theorem files_answered {i : InteractionId} {approved : Bool}
    (h : op.Files s s' reply (.answered i approved)) :
    ∃ sid run revision, op = .claimInteraction i sid run revision approved := by
  cases op with
  | claimInteraction i sid id revision approved =>
    rcases h with ⟨-, h⟩ | ⟨-, h⟩
    · cases h
    · cases h
      exact ⟨sid, id, revision, rfl⟩
  | appendEvent id event data => rcases files_appendEvent h with e | e | ⟨x, e⟩ <;> cases e
  | removeQueued id now => rcases files_removeQueued h with e | e <;> cases e
  | _ => simp [Op.Files] at h

end Files

theorem mem_update {t : Table Interaction.id} {p : Interaction → Bool}
    {f : Interaction → Interaction} (hf : ∀ i, (f i).id = i.id) {y : Interaction} :
    y ∈ (t.update p f hf).rows ↔ ∃ x ∈ t.rows, y = if p x then f x else x := by
  rw [Table.rows_update, List.mem_map]
  exact ⟨fun ⟨x, hx, e⟩ => ⟨x, hx, e.symm⟩, fun ⟨x, hx, e⟩ => ⟨x, hx, e.symm⟩⟩

/-- **Questions.** A question after an operation was there before, or it was pending and is settled
now, or the operation opens it. -/
theorem question_of_next {s : RunStore} {op : Op} {y : Interaction}
    (hy : y ∈ (s.next op).interactions.rows) :
    y ∈ s.interactions.rows ∨
      (∃ x ∈ s.interactions.rows, x.id = y.id ∧ x.runId = y.runId ∧ x.status = .pending ∧
        op.Settles x.id y.status) ∨
      op.requestsApproval = some (y.runId, y.id) ∧ s.interactions.find? y.id = none ∧
        y.status = .pending := by
  cases hx : s.exec op with
  | error e =>
    rw [RunStore.next_of_error hx] at hy
    exact .inl hy
  | ok p =>
    obtain ⟨reply, s'⟩ := p
    obtain ⟨e, hfiles, he⟩ := exec_archive hx
    have hint : s'.interactions = (s.archive.file e).interactions :=
      congrArg Archive.interactions he
    rw [RunStore.next_of_ok hx, hint] at hy
    cases e with
    | asked x =>
      obtain ⟨hop, hfresh, hpending⟩ := files_asked hfiles
      obtain ⟨t, ht⟩ := Table.insert_of_fresh (t := s.interactions) (r := x) hfresh
      rw [Archive.file, RunStore.archive, ht, Option.getD_some, Table.rows_insert ht] at hy
      rcases List.mem_append.mp hy with hy | hy
      · exact .inl hy
      · rw [List.mem_singleton.mp hy]
        exact .inr (.inr ⟨hop, hfresh, hpending⟩)
    | answered i approved =>
      obtain ⟨sid, run, revision, hop⟩ := files_answered hfiles
      obtain ⟨x, hx, rfl⟩ := (mem_update (by intro _; rfl)).mp hy
      split
      · rename_i hp
        simp only [Bool.and_eq_true, decide_eq_true_eq] at hp
        exact .inr (.inl ⟨x, hx, rfl, rfl, hp.2, .answered (by rw [hop, hp.1])⟩)
      · exact .inl hx
    | closed run =>
      obtain ⟨x, hx, rfl⟩ := (mem_update (by intro _; rfl)).mp hy
      split
      · rename_i hp
        simp only [Bool.and_eq_true, decide_eq_true_eq] at hp
        exact .inr (.inl ⟨x, hx, rfl, rfl, hp.2, .orphaned⟩)
      · exact .inl hx
    | recovered runs lost =>
      obtain ⟨x, hx, rfl⟩ := (mem_update (by intro _; rfl)).mp hy
      split
      · rename_i hp
        simp only [Bool.and_eq_true, decide_eq_true_eq] at hp
        exact .inr (.inl ⟨x, hx, rfl, rfl, hp.1, .orphaned⟩)
      · exact .inl hx
    | nothing => exact .inl hy
    | run head => exact .inl hy
    | child head terms => exact .inl hy
    | calls keys => exact .inl hy
    | ended run => exact .inl hy

/-- A question that is settled stays as it is. -/
theorem settled_next {s : RunStore} {x : Interaction} (hx : x ∈ s.interactions.rows)
    (hst : x.status ≠ .pending) (op : Op) : x ∈ (s.next op).interactions.rows := by
  obtain ⟨e, he⟩ := next_archive s op
  have hint : (s.next op).interactions = (s.archive.file e).interactions :=
    congrArg Archive.interactions he
  have hupdate : ∀ (p : Interaction → Bool) f hf, p x = false →
      x ∈ (s.interactions.update p f hf).rows := by
    intro p f hf hp
    exact (mem_update hf).mpr ⟨x, hx, by simp [hp]⟩
  rw [hint]
  cases e with
  | asked y =>
    cases ht : s.interactions.insert y with
    | none =>
      rw [Archive.file, RunStore.archive, ht]
      exact hx
    | some t =>
      rw [Archive.file, RunStore.archive, ht, Option.getD_some, Table.rows_insert ht]
      exact List.mem_append_left _ hx
  | answered i approved => exact hupdate _ _ (by intro _; rfl) (by simp [hst])
  | closed run => exact hupdate _ _ (by intro _; rfl) (by simp [hst])
  | recovered runs lost => exact hupdate _ _ (by intro _; rfl) (by simp [hst])
  | nothing => exact hx
  | run head => exact hx
  | child head terms => exact hx
  | calls keys => exact hx
  | ended run => exact hx

/-! ## The runs that ask -/

theorem dequeued_after_lost {c : Control} {id : RunId} (ids : List RunId)
    (h : ∃ v, c.run? id = some v ∧ v.verdict.status ≠ .queued) :
    ∃ v, (after Change.apply c (ids.map .lost)).run? id = some v ∧ v.verdict.status ≠ .queued := by
  induction ids generalizing c with
  | nil => exact h
  | cons run ids ih =>
    obtain ⟨v, hv, hst⟩ := h
    refine ih ?_
    have hrun : (Change.apply c (.lost run)).run? id =
        (c.updateRun run ({ · with status := .unknownAfterRestart })).run? id := rfl
    rw [hrun, Control.run?_updateRun, hv, Option.map_some]
    split
    · exact ⟨_, rfl, by simp⟩
    · exact ⟨v, rfl, hst⟩

namespace RunStore

/-- A run does not get back into the queue, also not by a restart. -/
theorem dequeued_next {s : RunStore} {id : RunId} (h : s.Dequeued id) (op : Op) :
    (s.next op).Dequeued id := by
  by_cases hop : ∀ clock, op ≠ .recover clock
  · exact h.next hop
  · obtain ⟨clock, rfl⟩ := not_forall_not.mp hop
    cases hx : s.recover clock with
    | error e =>
      rw [RunStore.next_of_error (e := e) (by rw [RunStore.exec, hx]; rfl)]
      exact h
    | ok p =>
      obtain ⟨n, s'⟩ := p
      rw [next_recover hx]
      obtain ⟨a, ha, hne⟩ := h
      obtain ⟨ids, -, -, hc⟩ := RunStore.recover_spec hx
      rw [status?_eq, Option.map_eq_some_iff] at ha
      obtain ⟨v, hv, rfl⟩ := ha
      obtain ⟨w, hw, hst⟩ := dequeued_after_lost ids ⟨v, hv, hne⟩
      exact ⟨w.verdict.status, by rw [status?_eq, hc, hw]; rfl, hst⟩

end RunStore

/-- The run of a question has left the queue. -/
def AskedDequeued (s : RunStore) : Prop := ∀ x ∈ s.interactions.rows, s.Dequeued x.runId

theorem AskedDequeued.next {s : RunStore} (hs : AskedDequeued s) (op : Op) :
    AskedDequeued (s.next op) := by
  intro y hy
  rcases question_of_next hy with hy | ⟨x, hx, -, hrun, -⟩ | ⟨hop, hfresh, -⟩
  · exact RunStore.dequeued_next (hs y hy) op
  · exact hrun ▸ RunStore.dequeued_next (hs x hx) op
  · cases op with
    | appendEvent run event data =>
      obtain ⟨i, hi, e⟩ := Option.map_eq_some_iff.mp hop
      obtain ⟨rfl, rfl⟩ := Prod.mk.inj e
      cases hx : s.appendEvent y.runId event data with
      | error e =>
        rw [RunStore.next_of_error (e := e) (by rw [RunStore.exec, hx]; rfl)] at hy
        rw [Table.find?_of_mem hy] at hfresh
        cases hfresh
      | ok p =>
        obtain ⟨n, s'⟩ := p
        have hnext : s.next (.appendEvent y.runId event data) = s' := by
          refine RunStore.next_of_ok (r := .seq n) ?_
          rw [RunStore.exec, hx]
          rfl
        rcases RunStore.appendEvent_spec hx with ⟨hno, -⟩ | ⟨-, -, -, ⟨v, hv⟩, hc⟩
        · cases hno.symm.trans hi
        · refine ⟨.waitingInteraction, ?_, by simp⟩
          have hid := Control.id_of_run? hv
          rw [hnext, status?_eq, hc, Change.apply, ← hid, Control.run?_updateRun_self, hid, hv]
          rfl
    | _ => cases hop

/-- After a restart every question is settled, and every run that asked one has ended. -/
theorem asked_of_recover {ops : List Op} {clock : Clock} {n : Nat} {s : RunStore}
    (h : (storeAfter ops).recover clock = .ok (n, s)) :
    ∀ x ∈ s.interactions.rows, x.status ≠ .pending ∧ s.Ended x.runId := by
  have hnext := storeAfter_recover h
  have hmatched : Matched s := hnext ▸ matched_after _
  have hasked : AskedDequeued s := hnext ▸
    after_induct (I := AskedDequeued) (fun s op h _ => h.next op) nofun (along_true _ _)
  have hidle := not_going_of_recover h
  intro x hx
  refine ⟨fun hst => ?_, (hasked x hx).going_or_ended.resolve_left (hidle x.runId)⟩
  obtain ⟨v, hv, hwaits⟩ := (hmatched x.runId).mpr ⟨x, hx, rfl, hst⟩
  refine hidle x.runId ⟨.waitingInteraction, ?_, rfl⟩
  rw [status?_eq, hv, Option.map_some, hwaits]

end AgentDaemon.Storage
