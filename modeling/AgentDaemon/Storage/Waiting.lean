import AgentDaemon.Storage.Archive
import AgentDaemon.Storage.Status

/-!
Waiting runs and pending questions. A run is `waiting_interaction` exactly while a question of it
is pending (`waiting_iff_pending`), although the two facts stand in different tables: an approval
event writes both, an answer takes the run back only with the last question, and what ends a run
leaves no question of it pending.
-/

namespace AgentDaemon.Storage

open Transition Fallible

/-! ## Which changes make a run wait -/

namespace Control

def Waits (c : Control) (id : RunId) : Prop :=
  ∃ v, c.run? id = some v ∧ v.verdict.status = .waitingInteraction

theorem waits_updateRun {c : Control} {run id : RunId} {f : Verdict → Verdict} :
    (c.updateRun run f).Waits id ↔
      if id = run then ∃ v, c.run? id = some v ∧ (f v.verdict).status = .waitingInteraction
      else c.Waits id :=
  exists_run?_updateRun (P := fun v => v.status = .waitingInteraction)

end Control

/-- The run that a change takes out of its wait. -/
def Change.wakes : Change → Option RunId
  | resumed run | lost run => some run
  | finished run _ => some run
  | _ => none

theorem waits_apply {c : Control} {ch : Change} (hen : ch.Enabled c) (id : RunId) :
    (ch.apply c).Waits id ↔ ch = .awaiting id ∨ c.Waits id ∧ ch.wakes ≠ some id := by
  -- A change that writes another status than `waitingInteraction` into `run`.
  have hset : ∀ run (f : Verdict → Verdict), (∀ v, (f v).status ≠ .waitingInteraction) →
      ((c.updateRun run f).Waits id ↔ c.Waits id ∧ run ≠ id) := by
    intro run f hf
    rw [Control.waits_updateRun]
    by_cases h : id = run
    · simp [h, hf]
    · simp [h, Ne.symm h]
  -- Where the run did not wait before, nothing wakes.
  have hawake : ∀ run status, (∃ v, c.run? run = some v ∧ v.verdict.status = status) →
      status ≠ .waitingInteraction → (c.Waits id ∧ run ≠ id ↔ c.Waits id) := by
    rintro run status ⟨v, hv, hst⟩ hne
    refine ⟨And.left, fun h => ⟨h, ?_⟩⟩
    rintro rfl
    obtain ⟨w, hw, hwaits⟩ := h
    cases hv.symm.trans hw
    exact hne (hst.symm.trans hwaits)
  cases ch with
  | admitted run session child =>
    refine Iff.trans (Control.exists_run?_concat
      (w := ⟨run, session, ⟨.queued, none, none, none⟩⟩) hen.1
      (P := fun v => v.status = .waitingInteraction)) ?_
    by_cases hid : id = run
    · subst hid
      simp [Control.Waits, hen.1]
    · simp [Control.Waits, hid, Change.wakes]
  | started run =>
    obtain ⟨v, hv, hst, -⟩ := hen
    have h := (hset run ({ · with status := .running }) (by simp)).trans
      (hawake run .queued ⟨v, hv, hst⟩ (by decide))
    exact Iff.trans h (by simp [Change.wakes])
  | removed run =>
    have h := (hset run ({ · with status := .cancelled }) (by simp)).trans
      (hawake run .queued hen (by decide))
    exact Iff.trans h (by simp [Change.wakes])
  | awaiting run =>
    obtain ⟨v, hv⟩ := hen
    have h : (c.updateRun run ({ · with status := .waitingInteraction })).Waits id ↔ _ :=
      Control.waits_updateRun
    refine Iff.trans h ?_
    by_cases hid : id = run
    · subst hid
      simp [hv]
    · simp [hid, Ne.symm hid, Change.wakes]
  | resumed run =>
    have h := hset run ({ · with status := .running }) (by simp)
    exact Iff.trans h (by simp [Change.wakes])
  | finished run v =>
    have h := hset run (fun _ => v) (by
      intro _ hw
      have := hen.1
      rw [hw] at this
      cases this)
    exact Iff.trans h (by simp [Change.wakes])
  | reconciled run v =>
    obtain ⟨hst, hcur, -⟩ := hen
    have h := (hset run (fun _ => v) (by
      intro _ hw
      rcases hst with hst | hst | hst <;> cases hw.symm.trans hst)).trans
      (hawake run .unknownAfterRestart hcur (by decide))
    exact Iff.trans h (by simp [Change.wakes])
  | lost run =>
    have h := hset run ({ · with status := .unknownAfterRestart }) (by simp)
    exact Iff.trans h (by simp [Change.wakes])
  | prepared run tools => simp [Change.wakes, Change.apply, Control.Waits, Control.run?]
  | toolMoved key source target => simp [Change.wakes, Change.apply, Control.Waits, Control.run?]
  | leased child lease => simp [Change.wakes, Change.apply, Control.Waits, Control.run?]

theorem waits_after {c : Control} {chs : List Change} {id : RunId}
    (ha : Along Change.apply Change.Enabled c chs)
    (hquiet : ∀ ch ∈ chs, ch ≠ .awaiting id ∧ ch.wakes ≠ some id) :
    (after Change.apply c chs).Waits id ↔ c.Waits id := by
  induction chs generalizing c with
  | nil => rfl
  | cons ch chs ih =>
    obtain ⟨hne, hwakes⟩ := hquiet ch List.mem_cons_self
    rw [after_cons, ih ha.2 fun x hx => hquiet x (List.mem_cons_of_mem _ hx), waits_apply ha.1]
    simp [hne, hwakes]

/-- A run that is found at a restart has an unknown outcome after it. -/
theorem unknown_after_lost {c : Control} {ids : List RunId} {id : RunId}
    (ha : Along Change.apply Change.Enabled c (ids.map .lost))
    (hid : id ∈ ids ∨ ∃ v, c.run? id = some v ∧ v.verdict.status = .unknownAfterRestart) :
    ∃ v, (after Change.apply c (ids.map .lost)).run? id = some v ∧
      v.verdict.status = .unknownAfterRestart := by
  induction ids generalizing c with
  | nil =>
    rcases hid with hid | hid
    · cases hid
    · exact hid
  | cons run ids ih =>
    refine ih ha.2 ?_
    have hrun : (Change.apply c (.lost run)).run? id =
        (c.updateRun run ({ · with status := .unknownAfterRestart })).run? id := rfl
    by_cases h : id = run
    · subst h
      obtain ⟨v, hv, -⟩ := ha.1
      refine .inr ⟨{ v with verdict := { v.verdict with status := .unknownAfterRestart } },
        hrun.trans ?_, rfl⟩
      rw [Control.run?_updateRun_self, hv, Option.map_some]
    · rcases hid with hid | ⟨v, hv, hst⟩
      · rcases List.mem_cons.mp hid with rfl | hid
        · exact absurd rfl h
        · exact .inl hid
      · have hne : v.id ≠ run := fun e => h ((Control.id_of_run? hv).symm.trans e)
        refine .inr ⟨v, hrun.trans ?_, hst⟩
        rw [Control.run?_updateRun, hv, Option.map_some, if_neg hne]

/-! ## Which entries leave a question pending -/

/-- A question of the run is pending. -/
def Asks (t : Table Interaction.id) (id : RunId) : Prop :=
  ∃ i ∈ t.rows, i.runId = id ∧ i.status = .pending

theorem asks_insert {t t' : Table Interaction.id} {x : Interaction} (h : t.insert x = some t')
    (hx : x.status = .pending) (id : RunId) : Asks t' id ↔ Asks t id ∨ id = x.runId := by
  unfold Asks
  rw [Table.rows_insert h]
  constructor
  · rintro ⟨i, hi, hid, hst⟩
    rcases List.mem_append.mp hi with hi | hi
    · exact .inl ⟨i, hi, hid, hst⟩
    · rw [List.mem_singleton.mp hi] at hid
      exact .inr hid.symm
  · rintro (⟨i, hi, hid, hst⟩ | rfl)
    · exact ⟨i, List.mem_append_left _ hi, hid, hst⟩
    · exact ⟨x, List.mem_append_right _ (by simp), rfl, hx⟩

/-- An update that settles the rows in `p`. -/
theorem asks_update {t : Table Interaction.id} {p : Interaction → Bool}
    {f : Interaction → Interaction} (hf : ∀ i, (f i).id = i.id)
    (hst : ∀ i, (f i).status ≠ .pending) (id : RunId) :
    Asks (t.update p f hf) id ↔
      ∃ i ∈ t.rows, i.runId = id ∧ i.status = .pending ∧ p i = false := by
  unfold Asks
  rw [Table.rows_update]
  constructor
  · rintro ⟨i, hi, hid, hpending⟩
    obtain ⟨x, hx, rfl⟩ := List.mem_map.mp hi
    cases hp : p x with
    | true =>
      rw [hp, if_pos rfl] at hpending
      exact absurd hpending (hst x)
    | false =>
      rw [hp, if_neg (by simp)] at hid hpending
      exact ⟨x, hx, hid, hpending, hp⟩
  · rintro ⟨i, hi, hid, hpending, hp⟩
    exact ⟨i, List.mem_map.mpr ⟨i, hi, by simp [hp]⟩, hid, hpending⟩

theorem asks_closed (a : Archive) (run id : RunId) :
    Asks (a.file (.closed run)).interactions id ↔ Asks a.interactions id ∧ id ≠ run := by
  refine Iff.trans (asks_update (by intro _; rfl) (by simp) id) ?_
  constructor
  · rintro ⟨i, hi, rfl, hpending, hp⟩
    refine ⟨⟨i, hi, rfl, hpending⟩, ?_⟩
    simpa [hpending] using hp
  · rintro ⟨⟨i, hi, rfl, hpending⟩, hne⟩
    exact ⟨i, hi, rfl, hpending, by simp [hne]⟩

theorem asks_recovered (a : Archive) (runs : List RunId) (lost : RunId → Bool) (id : RunId) :
    Asks (a.file (.recovered runs lost)).interactions id ↔
      Asks a.interactions id ∧ lost id = false := by
  refine Iff.trans (asks_update (by intro _; rfl) (by simp) id) ?_
  constructor
  · rintro ⟨i, hi, rfl, hpending, hp⟩
    refine ⟨⟨i, hi, rfl, hpending⟩, ?_⟩
    simpa [hpending] using hp
  · rintro ⟨⟨i, hi, rfl, hpending⟩, hlost⟩
    exact ⟨i, hi, rfl, hpending, by simp [hlost]⟩

theorem asks_answered (a : Archive) (i : InteractionId) (approved : Bool) (id : RunId) :
    Asks (a.file (.answered i approved)).interactions id ↔
      ∃ y ∈ a.interactions.rows, y.runId = id ∧ y.status = .pending ∧ y.id ≠ i := by
  have hst : ∀ y, (RunStore.answered y approved).status ≠ .pending := by
    intro y
    cases approved <;> simp [RunStore.answered]
  refine Iff.trans (asks_update (by intro _; rfl) hst id) ?_
  constructor
  · rintro ⟨y, hy, hid, hpending, hp⟩
    exact ⟨y, hy, hid, hpending, by simpa [hpending] using hp⟩
  · rintro ⟨y, hy, hid, hpending, hne⟩
    exact ⟨y, hy, hid, hpending, by simp [hne]⟩

/-! ## Every operation -/

/-- The operations that open a question or settle one. -/
def Op.touchesQuestions : Op → Bool
  | .appendEvent _ _ _ | .claimInteraction _ _ _ _ _ | .finish _ _ _ _ _ | .recover _ => true
  | _ => false

/-- The waiting runs are the ones with a pending question. -/
def Matched (s : RunStore) : Prop := ∀ id, s.control.Waits id ↔ Asks s.interactions id

section Matched

variable {s s' : RunStore} {op : Op} {reply : Reply}

theorem quiet_performs {chs : List Change} (h : op.Performs s s' reply chs)
    (hop : op.touchesQuestions = false) (id : RunId) :
    ∀ ch ∈ chs, ch ≠ .awaiting id ∧ ch.wakes ≠ some id := by
  cases op <;> simp only [Op.Performs] at h <;>
    grind [Op.touchesQuestions, Change.wakes]

theorem quiet_files {e : Entry} (h : op.Files s s' reply e) (hop : op.touchesQuestions = false)
    (a : Archive) : (a.file e).interactions = a.interactions := by
  cases op <;> simp only [Op.Files] at h <;> grind [Op.touchesQuestions, Archive.file]

theorem matched_appendEvent (hs : Matched s) {id : RunId} {event : String} {data : Json} {n : Nat}
    (h : s.appendEvent id event data = .ok (n, s')) : Matched s' := by
  intro k
  rcases RunStore.appendEvent_spec h with ⟨hno, hc⟩ | ⟨i, hi, hfresh, hen, hc⟩
  · rcases RunStore.appendEvent_archive h with ⟨-, he⟩ | ⟨i, prompt, payload, hi, -⟩
    · have hint : s'.interactions = s.interactions := by
        refine (congrArg Archive.interactions he).trans ?_
        split <;> rfl
      rw [hc, hint]
      exact hs k
    · rw [hno] at hi
      cases hi
  · rcases RunStore.appendEvent_archive h with ⟨hno, -⟩ | ⟨j, prompt, payload, hj, -, -, he⟩
    · rw [hno] at hi
      cases hi
    · cases hi.symm.trans hj
      obtain ⟨t', ht'⟩ := Table.insert_of_fresh (t := s.interactions)
        (r := ⟨i, id, "approval", .pending, 0, prompt, none, payload⟩) hfresh
      have hint : s'.interactions = t' := by
        refine (congrArg Archive.interactions he).trans ?_
        rw [Archive.file, RunStore.archive, ht', Option.getD_some]
      rw [hc, hint, waits_apply hen, asks_insert ht' rfl, hs k]
      simp [Change.wakes, or_comm, eq_comm]

theorem matched_claimInteraction (hs : Matched s) {i : InteractionId} {sid : SessionId}
    {id : RunId} {revision : Int} {approved : Bool} {rec : InteractionRecord}
    (h : s.claimInteraction i sid id revision approved = .ok (rec, s')) : Matched s' := by
  rcases RunStore.claimInteraction_cases h with ⟨rfl, -⟩ |
    ⟨x, run, n, hx, howner, hpending, -, hrun, -, hwaiting, hev, -⟩
  · exact hs
  · have he : s'.archive = s.archive.file (.answered i approved) := by
      rw [RunStore.insertEvent_archive hev (by simp), RunStore.answering]
      split
      · rw [RunStore.archive_moveRun]
        rfl
      · rfl
    have hint : s'.interactions = (s.archive.file (.answered i approved)).interactions :=
      congrArg Archive.interactions he
    have hxid : x.id = i := Table.key_of_find? hx
    have hasks : ∀ k, Asks s'.interactions k ↔
        ∃ y ∈ s.interactions.rows, y.runId = k ∧ y.status = .pending ∧ y.id ≠ i := by
      intro k
      rw [hint]
      exact asks_answered s.archive i approved k
    -- The questions of the other runs stay pending.
    have hother : ∀ k, k ≠ id → (Asks s'.interactions k ↔ Asks s.interactions k) := by
      intro k hne
      rw [hasks k]
      constructor
      · rintro ⟨y, hy, hk, hp, -⟩
        exact ⟨y, hy, hk, hp⟩
      · rintro ⟨y, hy, hk, hp⟩
        refine ⟨y, hy, hk, hp, fun e => hne ?_⟩
        have hyx : y = x := s.interactions.eq_of_key_eq hy (Table.mem_of_find? hx)
          (e.trans hxid.symm)
        rw [← hk, hyx, howner]
    have hcount : (s.answerInteraction i approved).pendingInteractions id = 0 ↔
        ¬ Asks s'.interactions id := by
      have hrows : (s.answerInteraction i approved).interactions = s'.interactions := hint.symm
      rw [RunStore.pendingInteractions, hrows, Table.count, List.countP_eq_zero]
      simp [Asks]
    have hwaits : s.control.Waits id :=
      ⟨run.view, by rw [RunStore.control_run?, hrun, Option.map_some], hwaiting⟩
    have hen : (Change.resumed id).Enabled s.control := hwaits
    have hc := RunStore.insertEvent_control hev
    intro k
    rw [RunStore.answering] at hc
    split at hc
    · rename_i hzero
      have hone : (s.answerInteraction i approved).runsIn id .waitingInteraction = 1 :=
        RunStore.runsIn_eq_one.mpr hen
      have happly : s'.control = Change.apply s.control (.resumed id) :=
        hc.trans (RunStore.control_moveRun .running hone)
      rw [happly, waits_apply hen]
      by_cases hne : k = id
      · subst hne
        simpa [Change.wakes] using hcount.mp hzero
      · rw [hother k hne, ← hs k]
        simp [Change.wakes, Ne.symm hne]
    · rename_i hmore
      rw [hc]
      by_cases hne : k = id
      · subst hne
        exact iff_of_true hwaits (not_not.mp (hcount.not.mp hmore))
      · rw [hother k hne]
        exact hs k

theorem matched_finish (hs : Matched s) {id : RunId} {status : RunStatus}
    {content : Option String} {error : Option (Int × String)} {now : Int} {rec : RunRecord}
    (h : s.finish id status content error now = .ok (rec, s')) : Matched s' := by
  rcases RunStore.finish_archive h with ⟨rfl, -⟩ | ⟨⟨current, hread, hgoing⟩, he⟩
  · exact hs
  · rcases RunStore.finish_spec h with ⟨rfl, -⟩ | ⟨-, hen, hc⟩
    · exact hs
    · intro k
      have hint : s'.interactions = (s.archive.file (.closed id)).interactions :=
        congrArg Archive.interactions he
      rw [hc, hint, asks_closed, waits_apply hen, hs k]
      simp [Change.wakes, RunStore.archive, eq_comm]

theorem matched_recover (hs : Matched s) {clock : Clock} {n : Nat}
    (h : s.recover clock = .ok (n, s')) : Matched s' := by
  obtain ⟨ids, hall, ha, hc⟩ := RunStore.recover_spec h
  have he := RunStore.recover_archive h
  intro k
  -- A run that waited is lost, so neither side holds afterwards.
  have hlost : s.control.Waits k →
      (s'.runs.find? k).any (fun r => r.status = .unknownAfterRestart) = true := by
    rintro ⟨v, hv, hst⟩
    have hid : k ∈ ids := by
      rw [← Control.id_of_run? hv]
      exact hall v (Control.mem_of_run? hv) (by simp [hst, RunStatus.active])
    obtain ⟨w, hw, hunknown⟩ := unknown_after_lost ha (.inl hid)
    rw [← hc, RunStore.control_run?, Option.map_eq_some_iff] at hw
    obtain ⟨r, hr, rfl⟩ := hw
    have hst' : r.status = .unknownAfterRestart := hunknown
    simp [hr, hst']
  have hint : s'.interactions = (s.archive.file (.recovered s.activeRuns fun id =>
      (s'.runs.find? id).any fun r => r.status = .unknownAfterRestart)).interactions :=
    congrArg Archive.interactions he
  rw [hint, asks_recovered]
  refine iff_of_false ?_ ?_
  · rintro ⟨w, hw, hst⟩
    rw [hc] at hw
    obtain ⟨hids, v, hv, hid, hactive⟩ := going_after_lost ids (Control.mem_of_run? hw)
      (by simp [hst, RunStatus.active])
    exact hids (hid ▸ hall v hv hactive)
  · rintro ⟨hask, hkept⟩
    rw [hlost ((hs k).mpr hask)] at hkept
    cases hkept

theorem matched_next (hs : Matched s) (op : Op) : Matched (s.next op) := by
  unfold RunStore.next
  split
  · rename_i reply s' h
    by_cases hop : op.touchesQuestions = false
    · obtain ⟨chs, hperforms, ha, hc⟩ := simulation h
      obtain ⟨e, hfiles, he⟩ := exec_archive h
      intro k
      have hint : s'.interactions = s.interactions :=
        (congrArg Archive.interactions he).trans (quiet_files hfiles hop s.archive)
      rw [hc, hint, waits_after ha (quiet_performs hperforms hop k)]
      exact hs k
    · cases op with
      | appendEvent id event data =>
        obtain ⟨r, -, hx⟩ := RunStore.of_exec h
        exact matched_appendEvent hs hx
      | claimInteraction i sid id revision approved =>
        obtain ⟨r, -, hx⟩ := RunStore.of_exec h
        exact matched_claimInteraction hs hx
      | finish id status content error now =>
        obtain ⟨r, -, hx⟩ := RunStore.of_exec h
        exact matched_finish hs hx
      | recover clock =>
        obtain ⟨r, -, hx⟩ := RunStore.of_exec h
        exact matched_recover hs hx
      | _ => exact absurd rfl hop
  · exact hs

theorem matched_after (ops : List Op) : Matched (storeAfter ops) := by
  have hempty : Matched .empty := by
    intro k
    simp [Control.Waits, Control.run?, RunStore.control, RunStore.empty, Asks]
  exact after_induct (I := Matched) (fun s op h _ => matched_next h op) hempty (along_true _ ops)

end Matched

/-- **A run waits while it asks.** After any sequence of operations a run is waiting for an answer
exactly if one of its questions is pending. -/
theorem waiting_iff_pending (ops : List Op) (id : RunId) :
    (storeAfter ops).status? id = some .waitingInteraction ↔
      ∃ i ∈ (storeAfter ops).interactions.rows, i.runId = id ∧ i.status = .pending := by
  rw [status?_eq, Option.map_eq_some_iff]
  exact matched_after ops id

end AgentDaemon.Storage
