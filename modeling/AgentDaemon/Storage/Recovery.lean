import AgentDaemon.Storage.Mirrors
import AgentDaemon.Storage.Questions
import AgentDaemon.Storage.Tree

/-!
What a restart leaves. `recover` ends every run that was going, with one event, and has no other
run or log to touch: a run that is told of the end of its child has left the queue
(`ParentsDequeued`), and one that has ended is not told. It cannot fail and does nothing the second
time (`recovery_complete`).
-/

namespace AgentDaemon.Storage

open Transition Fallible

/-! ## The rows of one run -/

/-- What the tables that `recover` writes hold of one run. -/
structure RunRows where
  run : Option Run
  turn : Option Turn
  queued : Option QueuedMessage
  delegation : Option Delegation
  events : List StoredEvent
  interactions : List Interaction

namespace RunStore

def rowsOf (s : RunStore) (id : RunId) : RunRows where
  run := s.runs.find? id
  turn := s.turns.find? id
  queued := s.queuedMessages.find? id
  delegation := s.delegations.find? id
  events := s.events.rows.filter fun e => e.runId = id
  interactions := s.interactions.rows.filter fun i => i.runId = id

variable {s s' : RunStore} {id other : RunId}

theorem find?_update_ne {ρ : Type} {key : ρ → RunId} (t : Table key) {f : ρ → ρ}
    (hf : ∀ r, key (f r) = key r) (hne : other ≠ id) :
    (t.update (fun r => key r = id) f hf).find? other = t.find? other := by
  rw [Table.find?_update]
  cases h : t.find? other with
  | none => rfl
  | some r =>
    have hkey : key r ≠ id := fun e => hne ((Table.key_of_find? h).symm.trans e)
    simp [hkey]

theorem rowsOf_insertEvent {event : String} {data : Json} {n : Nat} (hne : other ≠ id)
    (h : s.insertEvent id event data = .ok (n, s')) : s'.rowsOf other = s.rowsOf other := by
  obtain ⟨run, events, -, -, hev, rfl⟩ := insertEvent_spec h
  have hrow : (events.rows.filter fun e => e.runId = other) =
      s.events.rows.filter fun e => e.runId = other := by
    rw [Table.rows_insert hev, List.filter_append]
    simp [Ne.symm hne]
  have hrun := find?_update_ne s.runs (f := ({ · with lastSeq := n })) (fun _ => rfl) hne
  simp only [rowsOf, hrow, hrun]

theorem rowsOf_setVerdicts (hne : other ≠ id) (status : RunStatus) :
    (((s.setRun id status).setTurn id status).setQueued id status).rowsOf other =
      s.rowsOf other := by
  have hrun := find?_update_ne s.runs (f := ({ · with status := status })) (fun _ => rfl) hne
  have hturn := find?_update_ne s.turns (f := ({ · with status := status })) (fun _ => rfl) hne
  have hqueued := find?_update_ne s.queuedMessages (f := ({ · with status := status }))
    (fun _ => rfl) hne
  exact RunRows.mk.injEq .. |>.mpr ⟨hrun, hturn, hqueued, rfl, rfl, rfl⟩

theorem rowsOf_closeDelegation (hne : other ≠ id) (rec : RunRecord) (now : Int) :
    (s.closeDelegation id rec now).rowsOf other = s.rowsOf other := by
  have hrow : (s.closeDelegation id rec now).delegations.find? other =
      s.delegations.find? other := by
    rw [closeDelegation]
    exact find?_update_ne _ (by intro _; rfl) hne
  exact RunRows.mk.injEq .. |>.mpr ⟨rfl, rfl, rfl, hrow, rfl, rfl⟩

/-- The end of a child is told to a parent that has not ended. -/
theorem rowsOf_markTerminalIn {rec : RunRecord} {now : Int} (hne : other ≠ id)
    (hparent : ∀ d, s.delegations.find? id = some d → d.parentRunId = other →
      ∃ r, s.runs.find? other = some r ∧ r.status.terminal = true)
    (h : s.markTerminalIn id rec now = .ok s') : s'.rowsOf other = s.rowsOf other := by
  have hclose := rowsOf_closeDelegation (s := s) hne rec now
  rcases markTerminalIn_cases h with ⟨-, rfl⟩ | ⟨d, hd, rfl | ⟨parent, n, data, hread, hgoing, hev⟩⟩
  · rfl
  · exact hclose
  · refine (rowsOf_insertEvent ?_ hev).trans hclose
    rintro rfl
    obtain ⟨r, hr, rfl⟩ := readRun_eq_some hread
    have hid : r.id = d.parentRunId := Table.key_of_find? hr
    obtain ⟨r', hr', hterminal⟩ := hparent d hd hid.symm
    have hsame : (s.closeDelegation id rec now).runs = s.runs := rfl
    rw [hsame, ← hid] at hr
    cases hr.symm.trans hr'
    exact hgoing hterminal

theorem rowsOf_recoverRun {now : Int} (hne : other ≠ id)
    (hparent : ∀ d, s.delegations.find? id = some d → d.parentRunId = other →
      ∃ r, s.runs.find? other = some r ∧ r.status.terminal = true)
    (h : s.recoverRun id now = .ok s') : s'.rowsOf other = s.rowsOf other := by
  obtain ⟨n, s₁, rec, hev, -, hterm⟩ := recoverRun_cases h
  have hlog := rowsOf_insertEvent hne hev
  obtain ⟨run, events, -, -, -, hs₁⟩ := insertEvent_spec hev
  refine (rowsOf_markTerminalIn hne ?_ hterm).trans ((rowsOf_setVerdicts hne _).trans hlog)
  intro d hd hd'
  have hdelegations : s₁.delegations = s.delegations := by rw [hs₁]
  obtain ⟨r, hr, hterminal⟩ := hparent d (hdelegations ▸ hd) hd'
  refine ⟨r, ?_, hterminal⟩
  have hrun := congrArg RunRows.run ((rowsOf_setVerdicts (s := s₁) hne
    .unknownAfterRestart).trans hlog)
  exact hrun.trans hr

end RunStore

/-! ## The parents of delegations -/

/-- The parent of a delegation has left the queue. -/
def ParentsDequeued (s : RunStore) : Prop := ∀ t ∈ s.archive.terms, s.Dequeued t.parentRunId

theorem ParentsDequeued.next {s : RunStore} (hs : ParentsDequeued s) (op : Op) :
    ParentsDequeued (s.next op) := by
  intro t ht
  rcases terms_next s op with hsame | ⟨request, clock, parent, child, -, hspawns, -, hnew⟩
  · exact RunStore.dequeued_next (hs t (hsame ▸ ht)) op
  · rw [hnew] at ht
    rcases List.mem_append.mp ht with ht | ht
    · exact RunStore.dequeued_next (hs t ht) op
    · rw [List.mem_singleton.mp ht]
      -- A run that makes a child is going.
      obtain ⟨hid, hview⟩ := RunStore.readRun_view hspawns.found
      refine RunStore.dequeued_next (RunStore.Going.dequeued ⟨parent.status, ?_, hspawns.active⟩) op
      have hparent : (request.terms (s.childPosition parent) child).parentRunId =
        request.parentRunId := rfl
      rw [hparent, status?_eq, hview]
      rfl

theorem parentsDequeued_after (ops : List Op) : ParentsDequeued (storeAfter ops) :=
  after_induct (I := ParentsDequeued) (fun _ op h _ => h.next op) nofun (along_true _ _)

/-! ## The loop -/

namespace RunStore

variable {s s' : RunStore}

/-- What the loop of `recover` keeps of the store it starts from. -/
structure Recovering (s₀ s : RunStore) : Prop where
  sound : s.journal.Sound
  heads : s.archive.heads = s₀.archive.heads
  terms : s.archive.terms = s₀.archive.terms
  idle : ∀ r ∈ s₀.runs.rows, r.status.active = false → s.rowsOf r.id = s₀.rowsOf r.id

theorem Recovering.step {s₀ : RunStore} (h : Recovering s₀ s) (hparents : ParentsDequeued s₀)
    {id : RunId} {now : Int} (hid : id ∈ s₀.activeRuns) (hs : s.recoverRun id now = .ok s') :
    Recovering s₀ s' := by
  have harchive := recoverRun_archive hs
  refine ⟨h.sound.grows (recoverRun_grows (q := fun _ => True) hs .refl fun _ _ _ _ => trivial),
    ?_, ?_, ?_⟩
  · rw [harchive]
    exact h.heads
  · rw [harchive]
    exact h.terms
  · intro r hr hidle
    have hne : r.id ≠ id := by
      rintro rfl
      obtain ⟨x, hx, hxid⟩ := List.mem_map.mp hid
      obtain ⟨hx, hactive⟩ := List.mem_filter.mp hx
      rw [s₀.runs.eq_of_key_eq hx hr hxid, hidle] at hactive
      cases hactive
    have hrows := h.idle r hr hidle
    refine (rowsOf_recoverRun hne ?_ hs).trans hrows
    intro d hd hparent
    have hterms : d.terms ∈ s₀.archive.terms := by
      rw [← h.terms]
      exact List.mem_map_of_mem (Table.mem_of_find? hd)
    have hdequeued : s₀.Dequeued r.id := hparent ▸ hparents d.terms hterms
    have hfind : s.runs.find? r.id = some r :=
      (congrArg RunRows.run hrows).trans (Table.find?_of_mem hr)
    refine ⟨r, hfind, ?_⟩
    have hst : s₀.status? r.id = some r.status := by
      rw [status?_eq, control_run?, Table.find?_of_mem hr]
      rfl
    rcases hdequeued.going_or_ended with ⟨a, ha, hgoing⟩ | ⟨a, ha, hended⟩
    · cases hst.symm.trans ha
      rw [hidle] at hgoing
      cases hgoing
    · cases hst.symm.trans ha
      exact hended

theorem recoverRun_ne_error {s₀ : RunStore} (h : Recovering s₀ s) {id : RunId} {now : Int}
    (hid : id ∈ s₀.activeRuns) (e : RuntimeError) : s.recoverRun id now ≠ .error e := by
  intro hx
  have hrun : ∃ r, s.runs.find? id = some r := by
    rw [← mem_heads, h.heads]
    obtain ⟨r, hr, rfl⟩ := List.mem_map.mp hid
    exact List.mem_map.mpr ⟨r.head, List.mem_map_of_mem (List.mem_filter.mp hr).1, rfl⟩
  simp only [recoverRun, bind_eq_error] at hx
  rcases hx with hev | ⟨⟨n, s₁⟩, hev, hx⟩
  · exact insertEvent_ne_error h.sound hrun hev
  · have hsound := sound_insertEvent hev h.sound
    have hc := insertEvent_control hev
    split at hx
    · rename_i hread
      refine readRun_ne_none ?_ hread
      obtain ⟨r, hr⟩ := exists_run_of_control hc hrun
      simp [control_run?, hr]
    · exact markTerminalIn_ne_error (by simpa using hsound) hx

/-- The loop comes to its end. -/
theorem recoverRuns_total (hsound : s.journal.Sound) (hparents : ParentsDequeued s)
    (clock : Clock) : ∃ s', Recovering s s' ∧ s.activeRuns.zipIdx.foldlM
      (fun s (p : RunId × Nat) => s.recoverRun p.1 (clock p.2)) s = .ok s' := by
  have hstart : Recovering s s := ⟨hsound, rfl, rfl, fun _ _ _ => rfl⟩
  have hmem : ∀ p ∈ s.activeRuns.zipIdx, p.1 ∈ s.activeRuns := fun p hp =>
    List.fst_mem_of_mem_zipIdx hp
  have hstep := fun (s₁ : RunStore) (p : RunId × Nat) (s₂ : RunStore) (h : Recovering s s₁)
    (hp : p ∈ s.activeRuns.zipIdx) (hx : s₁.recoverRun p.1 (clock p.2) = .ok s₂) =>
      h.step hparents (hmem p hp) hx
  obtain ⟨s', hs'⟩ := foldlM_total _ hstart hstep
    fun s₁ p e h hp => recoverRun_ne_error h (hmem p hp) e
  exact ⟨s', foldlM_induct _ hstart hstep hs', hs'⟩

end RunStore

/-! ## The restart -/

/-- `s'` is `s` after a restart that has found `n` runs going. -/
structure Recovered (s s' : RunStore) (n : Nat) : Prop where
  counted : n = s.activeRuns.length
  stopped : ∀ r ∈ s'.runs.rows, r.status.active = false
  log : s.events.rows <+: s'.events.rows
  unknown : ∀ r ∈ s.runs.rows, r.status.active = true →
    ∃ r', s'.runs.find? r.id = some r' ∧ r'.status = .unknownAfterRestart
  ended : ∀ r ∈ s.runs.rows, r.status.active = true →
    (s'.events.rows.countP fun e => e.runId = r.id && e.event = "terminal") =
      (s.events.rows.countP fun e => e.runId = r.id && e.event = "terminal") + 1
  settled : ∀ i ∈ s'.interactions.rows, i.status ≠ .pending
  untouched : ∀ r ∈ s.runs.rows, r.status.active = false → s'.rowsOf r.id = s.rowsOf r.id
  repeated : ∀ clock, s'.recover clock = .ok (0, s')

/-- The rows of a run that an update does not select. -/
theorem filter_update {t : Table Interaction.id} {id : RunId} {p : Interaction → Bool}
    (h : ∀ i ∈ t.rows, i.runId = id → p i = false) :
    ((t.update p ({ · with status := .orphaned })).rows.filter fun i => i.runId = id) =
      t.rows.filter fun i => i.runId = id := by
  rw [Table.rows_update]
  generalize t.rows = rows at h
  induction rows with
  | nil => rfl
  | cons i rows ih =>
    have htail := ih fun x hx => h x (List.mem_cons_of_mem _ hx)
    by_cases hrun : i.runId = id
    · have hi := h i List.mem_cons_self hrun
      simp [hi, hrun, htail]
    · have hi : (if p i = true then { i with status := .orphaned } else i).runId ≠ id := by
        split
        · exact hrun
        · exact hrun
      simp [hi, hrun, htail]

/-- A run that is not going has no question that waits for an answer. -/
theorem settled_of_idle {s : RunStore} (hs : Matched s) {r : Run} (hr : r ∈ s.runs.rows)
    (hidle : r.status.active = false) {i : Interaction} (hi : i ∈ s.interactions.rows)
    (hrun : i.runId = r.id) : i.status ≠ .pending := by
  intro hst
  obtain ⟨v, hv, hwaits⟩ := (hs r.id).mpr ⟨i, hi, hrun, hst⟩
  rw [RunStore.control_run?, Table.find?_of_mem hr] at hv
  cases hv
  have hwaiting : r.status = .waitingInteraction := hwaits
  rw [hwaiting] at hidle
  cases hidle

/-- With nothing to recover, a restart does nothing. -/
theorem recover_idle {s : RunStore} (hruns : ∀ r ∈ s.runs.rows, r.status.active = false)
    (hsettled : ∀ i ∈ s.interactions.rows, i.status ≠ .pending) (clock : Clock) :
    s.recover clock = .ok (0, s) := by
  have hnone : (s.runs.rows.filter fun r => r.status.active) = [] := by
    rw [List.filter_eq_nil_iff]
    intro r hr
    simp [hruns r hr]
  have hsame : s.interactions.update (fun i => i.status = .pending &&
      (s.runs.find? i.runId).any fun r => r.status = .unknownAfterRestart)
      ({ · with status := .orphaned }) = s.interactions := by
    apply Table.update_eq_self
    intro i hi
    simp [hsettled i hi]
  rw [RunStore.recover, hnone]
  exact congrArg (fun t => Except.ok (0, { s with interactions := t })) hsame

/-- A restart of a store in use finds and ends the runs that are going, and the rows of the others
are the same after it. -/
theorem recover_total (ops : List Op) (clock : Clock) :
    ∃ s, (storeAfter ops).recover clock = .ok ((storeAfter ops).activeRuns.length, s) ∧
      ∀ r ∈ (storeAfter ops).runs.rows, r.status.active = false →
        s.rowsOf r.id = (storeAfter ops).rowsOf r.id := by
  obtain ⟨s, hloop, hfold⟩ := RunStore.recoverRuns_total (journal_sound ops)
    (parentsDequeued_after ops) clock
  have hrecover : (storeAfter ops).recover clock = .ok ((storeAfter ops).activeRuns.length,
      { s with
        interactions := s.interactions.update (fun i => i.status = .pending &&
          (s.runs.find? i.runId).any fun r => r.status = .unknownAfterRestart)
          ({ · with status := .orphaned }) }) := by
    rw [RunStore.recover]
    rw [RunStore.activeRuns] at hfold ⊢
    simp only [hfold]
    rfl
  refine ⟨_, hrecover, ?_⟩
  intro r hr hidle
  have hrows := hloop.idle r hr hidle
  have hkept := congrArg RunRows.interactions hrows
  have hquestions := @filter_update s.interactions r.id (fun i =>
      i.status = .pending && (s.runs.find? i.runId).any fun r => r.status = .unknownAfterRestart)
      (by
    intro i hi hrun
    have hmem : i ∈ (storeAfter ops).interactions.rows := by
      have hin : i ∈ (s.rowsOf r.id).interactions :=
        List.mem_filter.mpr ⟨hi, decide_eq_true hrun⟩
      rw [hkept] at hin
      exact (List.mem_filter.mp hin).1
    simp [settled_of_idle (matched_after ops) hr hidle hmem hrun])
  rw [← hrows]
  exact RunRows.mk.injEq .. |>.mpr ⟨rfl, rfl, rfl, rfl, rfl, hquestions⟩

/-- **A restart is complete and idempotent.** -/
theorem recovery_complete (ops : List Op) (clock : Clock) :
    ∃ n s, (storeAfter ops).recover clock = .ok (n, s) ∧ Recovered (storeAfter ops) s n := by
  obtain ⟨s, hrecover, huntouched⟩ := recover_total ops clock
  have hsettled := fun i hi => (asked_of_recover hrecover i hi).1
  have hstopped : ∀ r ∈ s.runs.rows, r.status.active = false := by
    intro r hr
    have hidle := not_going_of_recover hrecover r.id
    by_contra hactive
    refine hidle ⟨r.status, ?_, by simpa using hactive⟩
    rw [status?_eq, RunStore.control_run?, Table.find?_of_mem hr]
    rfl
  have harchive := RunStore.recover_archive hrecover
  obtain ⟨ids, hall, ha, hc⟩ := RunStore.recover_spec hrecover
  refine ⟨_, s, hrecover, ?_⟩
  exact {
    counted := rfl
    stopped := hstopped
    log := by
      have hgrows := RunStore.recover_grows (q := fun _ => True) hrecover .refl fun _ _ _ _ => trivial
      exact Journal.Grows.events_prefix hgrows
    unknown := by
      intro r hr hactive
      obtain ⟨v, hv, hst⟩ := unknown_after_lost ha
        (.inl (hall r.view (List.mem_map_of_mem hr) hactive))
      rw [← hc, RunStore.control_run?, Option.map_eq_some_iff] at hv
      obtain ⟨r', hr', rfl⟩ := hv
      exact ⟨r', hr', hst⟩
    ended := by
      intro r hr hactive
      have hends := congrArg Archive.endings harchive
      have hmem : r.id ∈ (storeAfter ops).activeRuns :=
        List.mem_map_of_mem (List.mem_filter.mpr ⟨hr, hactive⟩)
      have hnodup : (storeAfter ops).activeRuns.Nodup :=
        (storeAfter ops).runs.nodup.sublist (List.filter_sublist.map _)
      rw [← count_endings, ← count_endings, hends, Archive.file, List.count_append,
        List.count_eq_one_of_mem hnodup hmem]
    settled := hsettled
    untouched := huntouched
    repeated := recover_idle hstopped hsettled }

end AgentDaemon.Storage
