import AgentDaemon.Storage.Lineage
import AgentDaemon.Storage.Status
import AgentDaemon.Storage.Tree

/-!
The runs below a run in the tree of delegations. A store call makes a run a child only as the new
child of a spawn (`below_of_next`), and a child has its own run in its own session for good.
-/

namespace AgentDaemon.Storage

open Provider Transition Fallible

namespace RunStore

variable {s s' : RunStore}

/-- `id` is a transitive child of `root`. -/
def Below (s : RunStore) (root id : RunId) : Prop := Relation.TransGen s.Delegates root id

theorem delegates_iff {parent child : RunId} :
    s.Delegates parent child ↔ ∃ o ∈ s.origins, o.parent = parent ∧ o.child = child := by
  rw [origins]
  constructor
  · rintro ⟨d, hd, hparent, hchild⟩
    exact ⟨d.origin, List.mem_map_of_mem hd, hparent, hchild⟩
  · rintro ⟨o, ho, hparent, hchild⟩
    obtain ⟨d, hd, rfl⟩ := List.mem_map.mp ho
    exact ⟨d, hd, hparent, hchild⟩

/-- A parent gets a child by a spawn under a new key. -/
theorem delegates_next {op : Op} {parent child : RunId} (h : (s.next op).Delegates parent child) :
    s.Delegates parent child ∨ ∃ request clock, op = .admitDelegation request clock ∧
      request.parentRunId = parent ∧ (∃ p, s.admitDelegation request clock = .ok p) ∧
      s.childOf request.parentRunId request.spawnKey = none := by
  cases hx : s.exec op with
  | error e =>
    rw [next_of_error hx] at h
    exact .inl h
  | ok p =>
    obtain ⟨reply, s'⟩ := p
    rw [next_of_ok hx] at h
    rcases exec_origins hx with e | ⟨request, clock, rec, rfl, -, hnone, e⟩
    · rw [delegates_iff, e, ← delegates_iff] at h
      exact .inl h
    · obtain ⟨o, ho, hparent, hchild⟩ := delegates_iff.mp h
      rw [e] at ho
      rcases List.mem_append.mp ho with ho | ho
      · exact .inl (delegates_iff.mpr ⟨o, ho, hparent, hchild⟩)
      · obtain rfl := List.mem_singleton.mp ho
        obtain ⟨r, -, hadmit⟩ := of_exec hx
        exact .inr ⟨request, clock, rfl, hparent, ⟨_, hadmit⟩, hnone⟩

/-- What is below `root` was so before, if nothing at or below it got a child. -/
theorem below_of {root id : RunId} (h : s'.Below root id)
    (hnew : ∀ parent child, parent = root ∨ s.Below root parent →
      s'.Delegates parent child → s.Delegates parent child) : s.Below root id := by
  induction h with
  | single hd => exact .single (hnew _ _ (.inl rfl) hd)
  | tail _ hd ih => exact .tail ih (hnew _ _ (.inr ih) hd)

theorem not_below_self (ops : List Op) (id : RunId) : ¬ (storeAfter ops).Below id id :=
  (treeBounds_after ops).acyclic id

/-! ## The run of a child -/

/-- Each child has a head, in its session. -/
def Archive.Seated (a : Archive) : Prop :=
  ∀ t ∈ a.terms, ∃ head ∈ a.heads, head.id = t.childRunId ∧ head.sessionId = t.childSessionId

theorem seated_next (h : Archive.Seated s.archive) (op : Op) :
    Archive.Seated (s.next op).archive := by
  cases hx : s.exec op with
  | error e =>
    rw [next_of_error hx]
    exact h
  | ok p =>
    obtain ⟨reply, s'⟩ := p
    obtain ⟨e, hf, he⟩ := exec_archive hx
    rw [next_of_ok hx, he]
    intro t ht
    rcases terms_file s.archive e with hsame | ⟨head, terms, rfl⟩
    · rw [hsame] at ht
      obtain ⟨head, hm, hid, hsid⟩ := h t ht
      exact ⟨head, (heads_file _ e).subset hm, hid, hsid⟩
    · obtain ⟨request, clock, parent, rec, -, -, -, -, rfl, rfl⟩ := files_child hf
      rcases List.mem_append.mp ht with ht | ht
      · obtain ⟨head, hm, hid, hsid⟩ := h t ht
        exact ⟨head, List.mem_append_left _ hm, hid, hsid⟩
      · obtain rfl := List.mem_singleton.mp ht
        exact ⟨_, List.mem_append_right _ List.mem_cons_self, rfl, rfl⟩

theorem child_key (ops : List Op) {d : Delegation} (hd : d ∈ (storeAfter ops).delegations.rows) :
    ∃ k, (storeAfter ops).key? d.childRunId = some k ∧ k.sessionId = d.childSessionId := by
  have hseated : Archive.Seated (storeAfter ops).archive :=
    after_induct (G := fun _ _ => True) (I := fun s : RunStore => Archive.Seated s.archive)
      (fun _ op h _ => seated_next h op) nofun (along_true _ _)
  obtain ⟨head, hm, hid, hsid⟩ := hseated d.terms (List.mem_map_of_mem hd)
  obtain ⟨r, hr, rfl⟩ := List.mem_map.mp hm
  refine ⟨r.key, ?_, hsid⟩
  have hfind : (storeAfter ops).runs.find? r.id = some r := Table.find?_of_mem hr
  rw [key?, show d.childRunId = r.id from hid.symm, hfind, Option.map_some]

theorem readDelegation_of_mem (ops : List Op) {d : Delegation}
    (hd : d ∈ (storeAfter ops).delegations.rows) :
    ∃ record, (storeAfter ops).readDelegation d.childRunId = some record ∧
      record.toDelegation = d := by
  obtain ⟨k, hk, -⟩ := child_key ops hd
  obtain ⟨r, hr, -⟩ := Option.map_eq_some_iff.mp hk
  have hfind : (storeAfter ops).delegations.find? d.childRunId = some d := Table.find?_of_mem hd
  refine ⟨{ d with content := r.content, errorCode := r.errorCode, errorMessage := r.errorMessage },
    ?_, rfl⟩
  simp only [readDelegation, hfind, hr]

theorem readDelegation_root (ops : List Op) (id : RunId) :
    ((storeAfter ops).readDelegation id).elim id (·.rootRunId) = (storeAfter ops).rootOf id := by
  rw [rootOf]
  cases hd : (storeAfter ops).delegations.find? id with
  | none => simp [readDelegation, hd]
  | some d =>
    have hid : d.childRunId = id := Table.key_of_find? hd
    obtain ⟨record, hrecord, hto⟩ := readDelegation_of_mem ops (Table.mem_of_find? hd)
    rw [← hid, hrecord, Option.elim_some, Option.map_some, Option.getD_some, ← hto]

/-- The rows of a tree. -/
theorem listDelegations_spec {ops : List Op} {root : RunId} {rows : List DelegationRecord}
    (h : (storeAfter ops).listDelegations root = .ok rows) :
    (∀ d ∈ (storeAfter ops).delegations.rows, d.rootRunId = root →
      ∃ row ∈ rows, row.toDelegation = d) ∧
    ∀ row ∈ rows, row.toDelegation ∈ (storeAfter ops).delegations.rows := by
  obtain ⟨hleft, hright⟩ := mem_of_mapM h
  constructor
  · intro d hd hroot
    obtain ⟨row, hrow, hread⟩ := hleft d (List.mem_filter.mpr ⟨hd, decide_eq_true hroot⟩)
    obtain ⟨record, hrecord, hto⟩ := readDelegation_of_mem ops hd
    rw [hrecord] at hread
    cases hread
    exact ⟨_, hrow, hto⟩
  · intro row hrow
    obtain ⟨d, hd, hread⟩ := hright row hrow
    obtain ⟨record, hrecord, hto⟩ := readDelegation_of_mem ops (List.mem_filter.mp hd).1
    rw [hrecord] at hread
    cases hread
    rw [hto]
    exact (List.mem_filter.mp hd).1

/-- `remove_queued` returns, where the log is sound. -/
theorem removeQueued_total (hs : s.journal.Sound) (id : RunId) (now : Int) :
    ∃ b s', s.removeQueued id now = .ok (b, s') := by
  cases hx : s.removeQueued id now with
  | ok p => exact ⟨p.1, p.2, rfl⟩
  | error e =>
    exfalso
    simp only [removeQueued] at hx
    split at hx
    · rename_i hcount
      obtain ⟨r, hr, -⟩ := Table.count_key_eq_one.mp hcount
      have hrun : ∃ r, (((s.moveRun id .queued .cancelled).setTurn id .cancelled).moveQueued id
          .queued .cancelled).runs.find? id = some r := by
        have e := Table.find?_update s.runs (fun r => r.id = id && r.status = .queued)
          ({ · with status := .cancelled }) (fun _ => rfl) id
        rw [hr] at e
        exact ⟨_, e⟩
      rcases bind_eq_error.mp hx with hev | ⟨⟨n, s₁⟩, hev, hx⟩
      · exact insertEvent_ne_error (by simpa using hs) hrun hev
      have hsound := sound_insertEvent hev (by simpa using hs)
      split at hx
      · rename_i hread
        refine readRun_ne_none ?_ hread
        obtain ⟨r', hr'⟩ := exists_run_of_control (insertEvent_control hev) hrun
        simp [control_run?, hr']
      · rcases bind_eq_error.mp hx with hmark | ⟨s₂, -, hx⟩
        · exact markTerminalIn_ne_error hsound hmark
        · cases hx
    · cases hx

/-- A run that is not taken out of the queue was not in it. -/
theorem removeQueued_dequeued {now : Int} {id : RunId} {k : ActiveKey}
    (h : s.removeQueued id now = .ok (false, s')) (hk : s.key? id = some k) : s'.Dequeued id := by
  obtain ⟨b, hb⟩ := status?_isSome_of_key? hk
  have hstatus : s'.status? id = some b := by
    rw [status?_eq, removeQueued_refused h, ← status?_eq, hb]
  refine ⟨b, hstatus, ?_⟩
  rintro rfl
  rcases removeQueued_spec h with ⟨hflag, -⟩ | ⟨-, hno, -⟩
  · cases hflag
  · rw [status?_eq] at hb
    obtain ⟨v, hv, hqueued⟩ := Option.map_eq_some_iff.mp hb
    exact hno ⟨v, hv, hqueued⟩

end RunStore

end AgentDaemon.Storage
