import AgentDaemon.Storage.Recovery
import AgentDaemon.Storage.Repeats

/-!
The revisions of a question. An answer and the end of the run count the revision up; `recover`
closes the open questions and leaves it as it is. So a revision stands for one state of a question
in exactly the runs in which no question is open at a restart (`versioned_iff`).
-/

namespace AgentDaemon.Storage

open Transition

/-- A revision of a question tells its status and its response. -/
structure Versioned (ops : List Op) : Prop where
  increments : ∀ pre op, pre ++ [op] <+: ops → ∀ i r r',
    (storeAfter pre).readInteraction i = some r →
    (storeAfter (pre ++ [op])).readInteraction i = some r' →
    r'.status ≠ r.status → r'.revision = r.revision + 1
  reads : ∀ pre pre', pre <+: ops → pre' <+: ops → ∀ i r r',
    (storeAfter pre).readInteraction i = some r → (storeAfter pre').readInteraction i = some r' →
    r'.revision = r.revision → r'.status = r.status ∧ r'.response = r.response

/-- A restart finds no question open. -/
def SettledAtRestart (s : RunStore) (op : Op) : Prop :=
  ∀ clock, op = .recover clock → ∀ x ∈ s.interactions.rows, x.status ≠ .pending

/-! ## One operation -/

/-- The question is as it was, or one revision on. -/
def Interaction.Follows (y x : Interaction) : Prop :=
  y.id = x.id ∧ (y = x ∨ y.revision = x.revision + 1)

theorem follows_update {t : Table Interaction.id} {p : Interaction → Bool}
    {f : Interaction → Interaction} (hf : ∀ i, (f i).id = i.id)
    (hrev : ∀ i, (f i).revision = i.revision + 1) {x : Interaction} (hx : x ∈ t.rows) :
    ∃ y ∈ (t.update p f hf).rows, y.Follows x := by
  refine ⟨if p x then f x else x, (mem_update hf).mpr ⟨x, hx, rfl⟩, ?_⟩
  split
  · exact ⟨hf x, .inr (hrev x)⟩
  · exact ⟨rfl, .inl rfl⟩

theorem files_recovered {s s' : RunStore} {op : Op} {reply : Reply} {runs : List RunId}
    {lost : RunId → Bool} (h : op.Files s s' reply (.recovered runs lost)) :
    ∃ clock, op = .recover clock := by
  cases op with
  | recover clock => exact ⟨clock, rfl⟩
  | appendEvent id event data => rcases files_appendEvent h with e | e | ⟨x, e⟩ <;> cases e
  | removeQueued id now => rcases files_removeQueued h with e | e <;> cases e
  | _ => simp [Op.Files] at h

theorem follows_next {s : RunStore} {op : Op} (hop : SettledAtRestart s op) {x : Interaction}
    (hx : x ∈ s.interactions.rows) : ∃ y ∈ (s.next op).interactions.rows, y.Follows x := by
  by_cases hst : x.status = .pending
  · cases h : s.exec op with
    | error e =>
      rw [RunStore.next_of_error h]
      exact ⟨x, hx, rfl, .inl rfl⟩
    | ok p =>
      obtain ⟨reply, s'⟩ := p
      obtain ⟨e, hfiles, he⟩ := exec_archive h
      have hint : s'.interactions = (s.archive.file e).interactions :=
        congrArg Archive.interactions he
      rw [RunStore.next_of_ok h, hint]
      cases e with
      | asked y =>
        obtain ⟨-, hfresh, -⟩ := files_asked hfiles
        obtain ⟨t, ht⟩ := Table.insert_of_fresh (t := s.interactions) (r := y) hfresh
        refine ⟨x, ?_, rfl, .inl rfl⟩
        rw [Archive.file, RunStore.archive, ht, Option.getD_some, Table.rows_insert ht]
        exact List.mem_append_left _ hx
      | answered i approved => exact follows_update (by intro _; rfl) (by intro _; rfl) hx
      | closed run => exact follows_update (by intro _; rfl) (by intro _; rfl) hx
      | recovered runs lost =>
        obtain ⟨clock, rfl⟩ := files_recovered hfiles
        exact absurd hst (hop clock rfl x hx)
      | nothing => exact ⟨x, hx, rfl, .inl rfl⟩
      | run head => exact ⟨x, hx, rfl, .inl rfl⟩
      | child head terms => exact ⟨x, hx, rfl, .inl rfl⟩
      | calls keys => exact ⟨x, hx, rfl, .inl rfl⟩
      | ended run => exact ⟨x, hx, rfl, .inl rfl⟩
  · exact ⟨x, settled_next hx hst op, rfl, .inl rfl⟩

/-! ## Runs -/

/-- Each question is as it was, or a later revision. -/
def Renewed (s s' : RunStore) : Prop := ∀ x ∈ s.interactions.rows,
  ∃ y ∈ s'.interactions.rows, y.id = x.id ∧ (y = x ∨ x.revision < y.revision)

theorem renewed_after {s : RunStore} {ops : List Op}
    (h : Along RunStore.next SettledAtRestart s ops) : Renewed s (after RunStore.next s ops) := by
  refine after_induct (I := Renewed s) ?_ (fun x hx => ⟨x, hx, rfl, .inl rfl⟩) h
  intro s' op hs hop x hx
  obtain ⟨y, hy, hid, hyx⟩ := hs x hx
  obtain ⟨z, hz, hid', hzy⟩ := follows_next hop hy
  refine ⟨z, hz, hid'.trans hid, ?_⟩
  rcases hzy with rfl | hzy
  · exact hyx
  · rcases hyx with rfl | hyx
    · exact .inr (by omega)
    · exact .inr (by omega)

/-- Two questions with one id are one. -/
theorem eq_of_find? {s : RunStore} {i : InteractionId} {y z : Interaction}
    (hz : z ∈ s.interactions.rows) (hid : z.id = i) (hy : s.interactions.find? i = some y) :
    z = y :=
  Option.some.inj ((Table.find?_eq_some_iff.mpr ⟨hz, hid⟩).symm.trans hy)

/-- What two reads of a question show, one of them later than the other. -/
theorem reads_after {s : RunStore} {ops : List Op}
    (h : Along RunStore.next SettledAtRestart s ops) {i : InteractionId} {r r' : InteractionRecord}
    (hr : s.readInteraction i = some r)
    (hr' : (after RunStore.next s ops).readInteraction i = some r')
    (hrev : r'.revision = r.revision) : r'.status = r.status ∧ r'.response = r.response := by
  obtain ⟨x, run, hx, -, rfl⟩ := exists_of_readInteraction hr
  obtain ⟨y, run', hy, -, rfl⟩ := exists_of_readInteraction hr'
  obtain ⟨z, hz, hid, hzx⟩ := renewed_after h x (Table.mem_of_find? hx)
  obtain rfl := eq_of_find? hz (hid.trans (Table.key_of_find? hx)) hy
  rcases hzx with rfl | hlt
  · exact ⟨rfl, rfl⟩
  · have hsame : z.revision = x.revision := hrev
    omega

/-- A read of a question that its run has asked. -/
theorem exists_read {s : RunStore} {x : Interaction} (hx : x ∈ s.interactions.rows)
    (hrun : s.Dequeued x.runId) :
    ∃ sid, s.readInteraction x.id = some (x.record sid) := by
  obtain ⟨a, ha, -⟩ := hrun
  rw [status?_eq, RunStore.control_run?, Option.map_map, Option.map_eq_some_iff] at ha
  obtain ⟨r, hr, -⟩ := ha
  exact ⟨r.sessionId, readInteraction_eq (Table.find?_of_mem hx) hr⟩

/-- A question that is open at a restart shows two statuses under one revision. -/
theorem unversioned_recover {ops : List Op} {clock : Clock} {x : Interaction}
    (hx : x ∈ (storeAfter ops).interactions.rows) (hst : x.status = .pending) :
    ∃ r r', (storeAfter ops).readInteraction x.id = some r ∧
      (storeAfter (ops ++ [.recover clock])).readInteraction x.id = some r' ∧
      r'.status ≠ r.status ∧ r'.revision = r.revision := by
  obtain ⟨s, hrecover, -⟩ := recover_total ops clock
  have hnext := storeAfter_recover hrecover
  have hint : s.interactions = _ := congrArg Archive.interactions (RunStore.recover_archive hrecover)
  have hasked : AskedDequeued (storeAfter ops) :=
    after_induct (I := AskedDequeued) (fun s op h _ => h.next op) nofun (along_true _ _)
  obtain ⟨sid, hr⟩ := exists_read hx (hasked x hx)
  have hy : ∃ y ∈ s.interactions.rows, y.id = x.id ∧ y.revision = x.revision := by
    rw [hint]
    refine ⟨_, (mem_update (by intro _; rfl)).mpr ⟨x, hx, rfl⟩, ?_, ?_⟩ <;> split <;> rfl
  obtain ⟨y, hy, hid, hrev⟩ := hy
  obtain ⟨sid', hr'⟩ := exists_read hy (asked_of_recover hrecover y hy).2.dequeued
  rw [hid, hnext] at hr'
  refine ⟨_, _, hr, hr', ?_, hrev⟩
  intro e
  have hpending : y.status = .pending := Eq.trans e hst
  exact (asked_of_recover hrecover y hy).1 hpending

theorem Versioned.of_along {ops : List Op} (h : Along RunStore.next SettledAtRestart .empty ops) :
    Versioned ops := by
  have hreads : ∀ pre post, pre ++ post <+: ops → ∀ i r r',
      (storeAfter pre).readInteraction i = some r →
      (storeAfter (pre ++ post)).readInteraction i = some r' →
      r'.revision = r.revision → r'.status = r.status ∧ r'.response = r.response := by
    rintro pre post ⟨rest, rfl⟩ i r r' hr hr' hrev
    rw [storeAfter_append] at hr'
    exact reads_after (along_append.mp (along_append.mp h).1).2 hr hr' hrev
  constructor
  · rintro pre op ⟨post, rfl⟩ i r r' hr hr' hne
    have hstep := (along_append.mp (along_append.mp h).1).2.1
    obtain ⟨x, run, hx, -, rfl⟩ := exists_of_readInteraction hr
    obtain ⟨y, run', hy, -, rfl⟩ := exists_of_readInteraction hr'
    obtain ⟨z, hz, hid, hzx⟩ := follows_next hstep (Table.mem_of_find? hx)
    rw [storeAfter_append] at hy
    obtain rfl := eq_of_find? hz (hid.trans (Table.key_of_find? hx)) hy
    rcases hzx with rfl | hlater
    · exact absurd rfl hne
    · exact hlater
  · rintro pre pre' hpre hpre' i r r' hr hr' hrev
    rcases List.prefix_or_prefix_of_prefix hpre hpre' with ⟨post, rfl⟩ | ⟨post, rfl⟩
    · exact hreads pre post hpre' i r r' hr hr' hrev
    · obtain ⟨h1, h2⟩ := hreads pre' post hpre i r' r hr' hr hrev.symm
      exact ⟨h1.symm, h2.symm⟩

/-- **Revisions.** A revision tells the state of a question in exactly the runs in which no
question is open at a restart. -/
theorem versioned_iff (ops : List Op) :
    Versioned ops ↔ Along RunStore.next SettledAtRestart .empty ops := by
  refine ⟨fun h => ?_, .of_along⟩
  rw [along_iff]
  rintro pre op post rfl clock rfl x hx hst
  have hread : ∃ r r', (storeAfter pre).readInteraction x.id = some r ∧
      (storeAfter (pre ++ [.recover clock])).readInteraction x.id = some r' ∧
      r'.status ≠ r.status ∧ r'.revision = r.revision := unversioned_recover hx hst
  obtain ⟨r, r', hr, hr', hne, hrev⟩ := hread
  refine hne (h.reads pre (pre ++ [.recover clock]) ?_ ?_ x.id r r' hr hr' hrev).1
  · exact List.prefix_append _ _
  · exact ⟨post, by simp⟩

/-- The question of `lostRun` keeps its revision. -/
theorem not_versioned_lostRun : ¬ Versioned lostRun := by
  intro h
  have hopen : ((storeAfter (lostRun.take 3)).readInteraction ⟨"i"⟩).map (fun r =>
      (r.status, r.revision)) = some (.pending, 0) := by decide
  have horphaned : ((storeAfter lostRun).readInteraction ⟨"i"⟩).map (fun r =>
      (r.status, r.revision)) = some (.orphaned, 0) := by decide
  obtain ⟨r, hr, e⟩ := Option.map_eq_some_iff.mp hopen
  obtain ⟨r', hr', e'⟩ := Option.map_eq_some_iff.mp horphaned
  obtain ⟨hst, hrev⟩ := Prod.mk.inj e
  obtain ⟨hst', hrev'⟩ := Prod.mk.inj e'
  have hsame := (h.reads (lostRun.take 3) lostRun (List.take_prefix _ _) (List.prefix_refl _) ⟨"i"⟩
    r r' hr hr' (hrev'.trans hrev.symm)).1
  rw [hst, hst'] at hsame
  cases hsame

end AgentDaemon.Storage
