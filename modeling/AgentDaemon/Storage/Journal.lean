import AgentDaemon.Storage.Specs

/-!
What the store only ever adds to. An operation admits runs, appends events and settles
interactions (`exec_grows`), so a stored event is never lost, changed or renumbered and an
answered interaction never changes. The log of every run is gapless: its events carry exactly
the sequence numbers `1, …, last_seq` (`journal_sound`), hence an append to an existing run
cannot violate the primary key of the log (`insertEvent_total`).
-/

namespace AgentDaemon.Storage

open Transition Fallible

/-- The sequence counters and the requests of the runs, the sessions, the event log and the
interactions. -/
structure Journal where
  runs : List (RunId × Nat)
  requests : List (RunId × ActiveKey)
  sessions : List SessionId
  events : List StoredEvent
  interactions : Table Interaction.id

/-- Interactions that are no longer pending are kept as they are. -/
def KeepsSettled (t t' : Table Interaction.id) : Prop :=
  ∀ id i, t.find? id = some i → i.status ≠ .pending → t'.find? id = some i

namespace Journal

def enroll (j : Journal) (id : RunId) (key : ActiveKey) : Journal :=
  { j with runs := j.runs ++ [(id, 0)], requests := j.requests ++ [(id, key)] }

def openSession (j : Journal) (session : SessionId) : Journal :=
  { j with sessions := j.sessions ++ [session] }

def log (j : Journal) (id : RunId) (n : Nat) (event : String) (data : Json) : Journal :=
  { j with
    runs := j.runs.map fun r => if r.1 = id then (id, n + 1) else r
    events := j.events ++ [⟨id, n + 1, event, data⟩] }

/-- What operations do to a journal; every event they append satisfies `q`. -/
inductive Grows (q : StoredEvent → Prop) (j : Journal) : Journal → Prop
  | refl : Grows q j j
  | openSession {k : Journal} (h : Grows q j k) (session : SessionId) :
      Grows q j (k.openSession session)
  /-- A run enters with a request that its session has not made before. -/
  | enroll {k : Journal} {id : RunId} {key : ActiveKey} (h : Grows q j k)
      (hid : id ∉ k.runs.map Prod.fst) (hkey : key ∉ k.requests.map Prod.snd)
      (hs : key.sessionId ∈ k.sessions) : Grows q j (k.enroll id key)
  /-- A run enters with a new session. -/
  | spawn {k : Journal} {id : RunId} {key : ActiveKey} (h : Grows q j k)
      (hid : id ∉ k.runs.map Prod.fst) (hs : key.sessionId ∉ k.sessions) :
      Grows q j ((k.openSession key.sessionId).enroll id key)
  | log {k : Journal} {id : RunId} {n : Nat} (h : Grows q j k) (hn : (id, n) ∈ k.runs)
      {event : String} {data : Json} (hq : q ⟨id, n + 1, event, data⟩) :
      Grows q j (k.log id n event data)
  | settle {k : Journal} {t : Table Interaction.id} (h : Grows q j k)
      (ht : KeepsSettled k.interactions t) : Grows q j { k with interactions := t }

variable {q : StoredEvent → Prop}

theorem Grows.trans {j k l : Journal} (hjk : Grows q j k) (hkl : Grows q k l) : Grows q j l := by
  induction hkl with
  | refl => exact hjk
  | openSession _ session ih => exact ih.openSession session
  | enroll _ hid hkey hs ih => exact ih.enroll hid hkey hs
  | spawn _ hid hs ih => exact ih.spawn hid hs
  | log _ hn hq ih => exact ih.log hn hq
  | settle _ ht ih => exact ih.settle ht

/-- Run ids and requests are unique, every request belongs to a session, and the events of a
run are numbered from one to its counter. -/
structure Sound (j : Journal) : Prop where
  nodup : (j.runs.map Prod.fst).Nodup
  keys : (j.requests.map Prod.snd).Nodup
  homes : ∀ x ∈ j.requests, x.2.sessionId ∈ j.sessions
  gapless : ∀ id n, (id, n) ∈ j.events.map StoredEvent.key ↔
    1 ≤ n ∧ ∃ m, (id, m) ∈ j.runs ∧ n ≤ m

theorem nodup_concat {α : Type} {l : List α} {a : α} (hl : l.Nodup) (ha : a ∉ l) :
    (l ++ [a]).Nodup := by
  refine List.nodup_append.mpr ⟨hl, List.nodup_singleton _, ?_⟩
  rintro b hb c hc rfl
  exact ha (List.mem_singleton.mp hc ▸ hb)

theorem Sound.openSession {j : Journal} (hj : j.Sound) (session : SessionId) :
    (j.openSession session).Sound :=
  ⟨hj.nodup, hj.keys, fun x hx => List.mem_append_left _ (hj.homes x hx), hj.gapless⟩

theorem Sound.enroll {j : Journal} (hj : j.Sound) {id : RunId} {key : ActiveKey}
    (hid : id ∉ j.runs.map Prod.fst) (hkey : key ∉ j.requests.map Prod.snd)
    (hs : key.sessionId ∈ j.sessions) : (j.enroll id key).Sound where
  nodup := by
    rw [Journal.enroll, List.map_append]
    exact nodup_concat hj.nodup hid
  keys := by
    rw [Journal.enroll, List.map_append]
    exact nodup_concat hj.keys hkey
  homes := by
    intro x hx
    rcases List.mem_append.mp hx with hx | hx
    · exact hj.homes x hx
    · rw [List.mem_singleton.mp hx]
      exact hs
  gapless := by
    intro k n
    constructor
    · intro h
      obtain ⟨h1, m, hm, hn⟩ := (hj.gapless k n).mp h
      exact ⟨h1, m, List.mem_append_left _ hm, hn⟩
    · rintro ⟨h1, m, hm, hn⟩
      rcases List.mem_append.mp hm with hm | hm
      · exact (hj.gapless k n).mpr ⟨h1, m, hm, hn⟩
      · simp only [List.mem_singleton, Prod.mk.injEq] at hm
        omega

/-- A session that is new has made no request. -/
theorem Sound.spawn {j : Journal} (hj : j.Sound) {id : RunId} {key : ActiveKey}
    (hid : id ∉ j.runs.map Prod.fst) (hs : key.sessionId ∉ j.sessions) :
    ((j.openSession key.sessionId).enroll id key).Sound := by
  refine (hj.openSession key.sessionId).enroll hid ?_ (List.mem_append_right _ (by simp))
  intro hkey
  obtain ⟨x, hx, rfl⟩ := List.mem_map.mp hkey
  exact hs (hj.homes x hx)

theorem Sound.log {j : Journal} (hj : j.Sound) {id : RunId} {n : Nat} (hn : (id, n) ∈ j.runs)
    (event : String) (data : Json) : (j.log id n event data).Sound where
  nodup := by
    have e : (j.log id n event data).runs.map Prod.fst = j.runs.map Prod.fst := by
      rw [Journal.log, List.map_map]
      apply List.map_congr_left
      intro r _
      simp only [Function.comp]
      split
      · rename_i h
        exact h.symm
      · rfl
    rw [e]
    exact hj.nodup
  keys := hj.keys
  homes := hj.homes
  gapless := by
    have huniq : ∀ m, (id, m) ∈ j.runs → m = n := fun m hm =>
      congrArg Prod.snd (List.inj_on_of_nodup_map hj.nodup hm hn rfl)
    have hruns : ∀ k m, (k, m) ∈ (j.log id n event data).runs ↔
        (k = id ∧ m = n + 1) ∨ (k ≠ id ∧ (k, m) ∈ j.runs) := by
      intro k m
      simp only [Journal.log, List.mem_map]
      constructor
      · rintro ⟨r, hr, e⟩
        split at e
        · cases e
          exact .inl ⟨rfl, rfl⟩
        · rename_i hne
          subst e
          exact .inr ⟨hne, hr⟩
      · rintro (⟨rfl, rfl⟩ | ⟨hne, hm⟩)
        · exact ⟨_, hn, if_pos rfl⟩
        · exact ⟨_, hm, if_neg hne⟩
    intro k m
    rw [Journal.log, List.map_append, List.mem_append, hj.gapless, List.map_singleton,
      List.mem_singleton, StoredEvent.key, Prod.mk.injEq]
    dsimp only
    constructor
    · rintro (⟨h1, p, hp, hm⟩ | ⟨rfl, rfl⟩)
      · by_cases hk : k = id
        · subst hk
          have := huniq p hp
          exact ⟨h1, n + 1, (hruns k _).mpr (.inl ⟨rfl, rfl⟩), by omega⟩
        · exact ⟨h1, p, (hruns k p).mpr (.inr ⟨hk, hp⟩), hm⟩
      · exact ⟨by omega, n + 1, (hruns k _).mpr (.inl ⟨rfl, rfl⟩), Nat.le_refl _⟩
    · rintro ⟨h1, p, hp, hm⟩
      rcases (hruns k p).mp hp with ⟨rfl, rfl⟩ | ⟨-, hp⟩
      · by_cases e : m = n + 1
        · exact .inr ⟨rfl, e⟩
        · exact .inl ⟨h1, n, hn, by omega⟩
      · exact .inl ⟨h1, p, hp, hm⟩

theorem Sound.grows {j k : Journal} (hj : j.Sound) (h : Grows q j k) : k.Sound := by
  induction h with
  | refl => exact hj
  | openSession _ session ih => exact ih.openSession session
  | enroll _ hid hkey hs ih => exact ih.enroll hid hkey hs
  | spawn _ hid hs ih => exact ih.spawn hid hs
  | log _ hn _ ih => exact ih.log hn _ _
  | settle _ _ ih => exact ⟨ih.nodup, ih.keys, ih.homes, ih.gapless⟩

/-- Events stay where they are. -/
theorem Grows.events_prefix {j k : Journal} (h : Grows q j k) : j.events <+: k.events := by
  induction h with
  | refl => exact List.prefix_refl _
  | openSession _ _ ih => exact ih
  | enroll _ _ _ _ ih => exact ih
  | spawn _ _ _ ih => exact ih
  | log _ _ _ ih => exact ih.trans (List.prefix_append _ _)
  | settle _ _ ih => exact ih

/-- Requests stay with their runs. -/
theorem Grows.requests_prefix {j k : Journal} (h : Grows q j k) : j.requests <+: k.requests := by
  induction h with
  | refl => exact List.prefix_refl _
  | openSession _ _ ih => exact ih
  | enroll _ _ _ _ ih => exact ih.trans (List.prefix_append _ _)
  | spawn _ _ _ ih => exact ih.trans (List.prefix_append _ _)
  | log _ _ _ ih => exact ih
  | settle _ _ ih => exact ih

/-- Answers stay what they are. -/
theorem Grows.keepsSettled {j k : Journal} (h : Grows q j k) :
    KeepsSettled j.interactions k.interactions := by
  induction h with
  | refl => exact fun _ _ hi _ => hi
  | openSession _ _ ih => exact ih
  | enroll _ _ _ _ ih => exact ih
  | spawn _ _ _ ih => exact ih
  | log _ _ _ ih => exact ih
  | settle _ ht ih => exact fun id i hi hst => ht id i (ih id i hi hst) hst

end Journal

open Journal

/-- The chat request that a run answers. -/
def Run.key (r : Run) : ActiveKey := ⟨r.sessionId, r.requestId⟩

/-- The events that the driver of a run appends, and the ones that keep its content. -/
def turnEvents : List String :=
  ["turn_started", "thinking_delta", "thinking_finished", "text_delta", "tool_started",
    "tool_finished", "approval_required", "turn_completed", "assistant_content"]

/-- The events of a turn that the call may append. -/
def Op.Reports (op : Op) (e : StoredEvent) : Prop :=
  match op with
  | .appendEvent runId event data => e.runId = runId ∧ e.event = event ∧ e.data = data
  | .finish runId status _ _ _ =>
    e.runId = runId ∧ status = .completed ∧ e.event = "assistant_content"
  | .reconcileUnknown runId _ _ _ _ _ _ _ => e.runId = runId ∧ e.event = "assistant_content"
  | _ => False

namespace RunStore

def journal (s : RunStore) : Journal where
  runs := s.runs.rows.map fun r => (r.id, r.lastSeq)
  requests := s.runs.rows.map fun r => (r.id, r.key)
  sessions := s.sessions.rows
  events := s.events.rows
  interactions := s.interactions

theorem mem_journal {s : RunStore} {r : Run} {id : RunId} (h : s.runs.find? id = some r) :
    (id, r.lastSeq) ∈ s.journal.runs :=
  List.mem_map.mpr ⟨r, Table.mem_of_find? h, by rw [Table.key_of_find? h]⟩

theorem journal_updateRuns (s : RunStore) (p : Run → Bool) (f : Run → Run)
    (hf : ∀ r, (f r).id = r.id) (hseq : ∀ r, (f r).lastSeq = r.lastSeq)
    (hkey : ∀ r, (f r).key = r.key) :
    { s with runs := s.runs.update p f hf }.journal = s.journal := by
  have e : (s.runs.update p f hf).rows.map (fun r => (r.id, r.lastSeq)) =
      s.runs.rows.map fun r => (r.id, r.lastSeq) :=
    Table.map_update_of_eq _ _ _ _ fun r => by rw [hf, hseq]
  have e' : (s.runs.update p f hf).rows.map (fun r => (r.id, r.key)) =
      s.runs.rows.map fun r => (r.id, r.key) :=
    Table.map_update_of_eq _ _ _ _ fun r => by rw [hf, hkey]
  simp only [journal, e, e']

@[simp] theorem journal_setRun (s : RunStore) (id : RunId) (status : RunStatus) :
    (s.setRun id status).journal = s.journal :=
  journal_updateRuns s _ _ _ (fun _ => rfl) fun _ => rfl

@[simp] theorem journal_moveRun (s : RunStore) (id : RunId) (source target : RunStatus) :
    (s.moveRun id source target).journal = s.journal :=
  journal_updateRuns s _ _ _ (fun _ => rfl) fun _ => rfl

@[simp] theorem journal_setTurn (s : RunStore) (id : RunId) (status : RunStatus) :
    (s.setTurn id status).journal = s.journal := rfl

@[simp] theorem journal_setQueued (s : RunStore) (id : RunId) (status : RunStatus) :
    (s.setQueued id status).journal = s.journal := rfl

@[simp] theorem journal_moveQueued (s : RunStore) (id : RunId) (source target : RunStatus) :
    (s.moveQueued id source target).journal = s.journal := rfl

@[simp] theorem journal_setVerdict (s : RunStore) (id : RunId) (status : RunStatus)
    (content : Option String) (error : Option (Int × String)) :
    (s.setVerdict id status content error).journal = s.journal :=
  journal_updateRuns s (·.id = id)
    (fun r => { r with
      status := status
      content := content
      errorCode := error.map Prod.fst
      errorMessage := error.map Prod.snd }) (fun _ => rfl) (fun _ => rfl) fun _ => rfl

theorem keepsSettled_update {t : Table Interaction.id} {p : Interaction → Bool}
    {f : Interaction → Interaction} (hf : ∀ i, (f i).id = i.id)
    (hp : ∀ i, p i = true → i.status = .pending) : KeepsSettled t (t.update p f hf) := by
  intro id i hi hst
  rw [Table.find?_update, hi, Option.map_some, if_neg fun h => hst (hp i h)]

theorem keepsSettled_insert {t t' : Table Interaction.id} {i : Interaction}
    (h : t.insert i = some t') : KeepsSettled t t' :=
  fun _ _ hi _ => Table.find?_insert_of_some h hi

/-- The run exists and has not ended. -/
def Unended (s : RunStore) (id : RunId) : Prop :=
  ∃ v, s.control.run? id = some v ∧ v.verdict.status.terminal = false

/-- Only a request for an approval can fail `q`. -/
def Quiet (q : StoredEvent → Prop) : Prop := ∀ e, e.event ≠ "approval_required" → q e

theorem quiet_true : Quiet fun _ => True := fun _ _ => trivial

/-- Of the events of the run, only the ones of a turn can fail `q`. -/
def Routine (q : StoredEvent → Prop) (id : RunId) : Prop :=
  ∀ e, e.runId = id → e.event ∉ turnEvents → q e

variable {q : StoredEvent → Prop}

theorem Quiet.routine (hq : Quiet q) (id : RunId) : Routine q id := by
  intro e _ he
  refine hq e fun h => he ?_
  rw [h]
  decide

theorem answerInteraction_grows {s : RunStore} {j : Journal} (hj : Grows q j s.journal)
    (i : InteractionId) (approved : Bool) : Grows q j (s.answerInteraction i approved).journal :=
  hj.settle <| keepsSettled_update (by intro _; rfl) <| by
    intro x hx
    simp only [Bool.and_eq_true, decide_eq_true_eq] at hx
    exact hx.2

theorem orphanPending_grows {s : RunStore} {j : Journal} (hj : Grows q j s.journal) (id : RunId) :
    Grows q j (s.orphanPending id).journal :=
  hj.settle <| keepsSettled_update (by intro _; rfl) <| by
    intro x hx
    simp only [Bool.and_eq_true, decide_eq_true_eq] at hx
    exact hx.2

@[simp] theorem journal_closeDelegation (s : RunStore) (id : RunId) (rec : RunRecord) (now : Int) :
    (s.closeDelegation id rec now).journal = s.journal := rfl

theorem insertEvent_journal {s s' : RunStore} {id : RunId} {event : String} {data : Json}
    {n : Nat} (h : s.insertEvent id event data = .ok (n, s')) :
    ∃ m, n = m + 1 ∧ (id, m) ∈ s.journal.runs ∧ s'.journal = s.journal.log id m event data := by
  obtain ⟨run, events, hrun, rfl, hev, rfl⟩ := insertEvent_spec h
  refine ⟨run.lastSeq, rfl, mem_journal hrun, ?_⟩
  have e : (s.runs.update (·.id = id) ({ · with lastSeq := run.lastSeq + 1 })).rows.map
      (fun r => (r.id, r.lastSeq)) = (s.runs.rows.map fun r => (r.id, r.lastSeq)).map
        fun r => if r.1 = id then (id, run.lastSeq + 1) else r := by
    apply Table.map_update
    intro r _
    by_cases hr : r.id = id
    · simp only [hr, decide_true, if_true, Prod.mk.injEq, and_true]
      exact hr
    · simp [hr]
  have e' : (s.runs.update (·.id = id) ({ · with lastSeq := run.lastSeq + 1 })).rows.map
      (fun r => (r.id, r.key)) = s.runs.rows.map fun r => (r.id, r.key) :=
    Table.map_update_of_eq _ _ _ _ fun _ => rfl
  simp only [journal, Journal.log, e, e', Table.rows_insert hev]

theorem insertEvent_grows {s s' : RunStore} {id : RunId} {event : String} {data : Json}
    {n : Nat} {j : Journal} (h : s.insertEvent id event data = .ok (n, s'))
    (hj : Grows q j s.journal) (hq : ∀ n, q ⟨id, n, event, data⟩) : Grows q j s'.journal := by
  obtain ⟨m, -, hm, e⟩ := insertEvent_journal h
  rw [e]
  exact hj.log hm (hq _)

theorem sound_insertEvent {s s' : RunStore} {id : RunId} {event : String} {data : Json} {n : Nat}
    (h : s.insertEvent id event data = .ok (n, s')) (hs : s.journal.Sound) :
    s'.journal.Sound := by
  obtain ⟨m, -, hm, e⟩ := insertEvent_journal h
  rw [e]
  exact hs.log hm event data

/-! ## Every operation grows the log -/

section Grows

variable {s s' : RunStore} {j : Journal}

theorem insertContent_grows {id : RunId} {data : Option Json}
    (h : s.insertContent id data = .ok s') (hj : Grows q j s.journal)
    (hq : ∀ content, data = some content → ∀ n, q ⟨id, n, "assistant_content", content⟩) :
    Grows q j s'.journal := by
  cases data with
  | none =>
    cases h
    exact hj
  | some data =>
    obtain ⟨⟨n, s₁⟩, hev, rfl⟩ := map_eq_ok.mp h
    exact insertEvent_grows hev hj (hq data rfl)

theorem markTerminalIn_grows {id : RunId} {rec : RunRecord} {now : Int}
    (h : s.markTerminalIn id rec now = .ok s') (hj : Grows q j s.journal)
    (hq : ∀ k, s'.Unended k → Routine q k) : Grows q j s'.journal := by
  rcases markTerminalIn_cases h with ⟨-, rfl⟩ | ⟨d, -, rfl | ⟨parent, n, data, hp, hgoing, hev⟩⟩
  · exact hj
  · exact hj
  · refine insertEvent_grows hev hj fun _ => hq parent.runId ?_ _ rfl (by simp [turnEvents])
    obtain ⟨hid, hrun⟩ := readRun_view hp
    have hlive : parent.status.terminal = false := by simpa using hgoing
    rw [Unended, insertEvent_control hev, hid]
    exact ⟨_, hrun, hlive⟩

theorem enqueueRun_grows {sid : SessionId} {rid : RequestId} {input : String}
    {route : Option Provider.RouteSnapshot} {now : Int} {id : RunId}
    (h : s.enqueueRun sid rid input route now = .ok (id, s'))
    (hj : id ∉ s.journal.runs.map Prod.fst → Grows q j (s.journal.enroll id ⟨sid, rid⟩))
    (hq : id ∉ s.journal.runs.map Prod.fst → Routine q id) : Grows q j s'.journal := by
  simp only [enqueueRun, bind_eq_ok, constraint_eq_ok] at h
  obtain ⟨runs, hruns, turns, hturns, routes, hroutes, ⟨n, s₁⟩, hev, queue, hqueue, h⟩ := h
  rw [pure_eq_ok] at h
  obtain ⟨rfl, rfl⟩ := Prod.mk.inj h
  have hfresh : runIdOf s.nextRowid ∉ s.journal.runs.map Prod.fst := by
    rw [journal, List.map_map]
    intro hm
    obtain ⟨r, hr, e⟩ := List.mem_map.mp hm
    have hn := Table.insert_fresh hruns
    rw [Table.find?, List.find?_eq_none] at hn
    exact hn r hr (decide_eq_true e)
  have e : { s with runs, turns, runRoutes := routes }.journal =
      s.journal.enroll (runIdOf s.nextRowid) ⟨sid, rid⟩ := by
    simp only [journal, Journal.enroll, Table.rows_insert hruns, List.map_append, List.map_cons,
      List.map_nil]
    rfl
  have hg : Grows q j s₁.journal :=
    insertEvent_grows hev (by rw [e]; exact hj hfresh) fun _ =>
      hq hfresh _ rfl (by simp [turnEvents])
  exact hg

theorem admitWithRoute_grows {sid : SessionId} {rid : RequestId} {input : String}
    {mode : AdmissionMode} {route : Option Provider.RouteSnapshot} {now : Int} {a : Admission}
    (h : s.admitWithRoute sid rid input mode route now = .ok (a, s')) (hj : Grows q j s.journal)
    (hq : ∀ id ∉ s.journal.runs.map Prod.fst, Routine q id) : Grows q j s'.journal := by
  rcases admitWithRoute_cases h with ⟨stored, -, -, -, -, -, rfl⟩ | ⟨hnew, rec, -, -, henq⟩
  · exact hj
  · have hkey : (⟨sid, rid⟩ : ActiveKey) ∉ s.journal.requests.map Prod.snd := by
      rw [journal, List.map_map]
      intro hm
      obtain ⟨r, hr, e⟩ := List.mem_map.mp hm
      simp only [Function.comp, Run.key, ActiveKey.mk.injEq] at e
      exact hnew r hr e
    refine enqueueRun_grows henq (fun hid => ?_) (hq rec.runId)
    cases hins : s.sessions.insert sid with
    | none =>
      rw [hins] at hid
      have hmem : sid ∈ s.sessions.rows := by
        obtain ⟨x, hx⟩ := Table.find?_of_insert_none hins
        have e : x = sid := Table.key_of_find? hx
        exact e ▸ Table.mem_of_find? hx
      have hg := hj.enroll hid hkey hmem
      exact hg
    | some sessions =>
      rw [hins] at hid
      have e : { s with sessions }.journal = s.journal.openSession sid := by
        simp only [journal, Journal.openSession, Table.rows_insert hins]
      have hg := (hj.openSession sid).enroll hid hkey (List.mem_append_right _ (by simp))
      rw [← e] at hg
      exact hg

theorem tryStartQueued_grows {id : RunId} {clock : Clock} {b : Bool}
    (h : s.tryStartQueued id clock = .ok (b, s'))
    (hj : Grows q j s.journal) (hq : Routine q id) : Grows q j s'.journal := by
  rcases tryStartQueued_cases h with ⟨-, rfl, -⟩ | ⟨n, data, s₁, -, -, -, -, hev, rfl⟩
  · exact hj
  · have hm : Grows q j (s.moveRun id .queued .running).journal := by simpa using hj
    have hg := insertEvent_grows hev hm fun _ => hq _ rfl (by simp [turnEvents])
    exact hg

theorem removeQueued_grows {id : RunId} {now : Int} {b : Bool}
    (h : s.removeQueued id now = .ok (b, s')) (hj : Grows q j s.journal)
    (hq : b = true → Routine q id) (hp : ∀ k, s'.Unended k → Routine q k) :
    Grows q j s'.journal := by
  have hm : Grows q j (s.moveRun id .queued .cancelled).journal := by simpa using hj
  rcases removeQueued_cases h with ⟨rfl, -, n, s₁, rec, hev, -, hterm⟩ | ⟨rfl, -, rfl⟩
  · have hg := insertEvent_grows hev (by simpa using hm) fun _ =>
      hq rfl _ rfl (by simp [turnEvents])
    exact markTerminalIn_grows hterm hg hp
  · exact hm

theorem prepareToolBatch_grows {id : RunId} {round : Nat} {calls : List PreparedCall} {u : Unit}
    (h : s.prepareToolBatch id round calls = .ok (u, s'))
    (hj : Grows q j s.journal) (hq : Routine q id) : Grows q j s'.journal := by
  obtain ⟨run, tools, n, data, -, -, -, -, hev⟩ := prepareToolBatch_cases h
  exact insertEvent_grows hev hj fun _ => hq _ rfl (by simp [turnEvents])

theorem moveTool_grows {id : RunId} {round : Nat} {callId : String} {source : ToolStatus}
    {f : ToolExecution → ToolExecution} {hf : ∀ t, (f t).key = t.key} {message : String}
    {u : Unit} (h : s.moveTool id round callId source f hf message = .ok (u, s'))
    (hj : Grows q j s.journal) : Grows q j s'.journal := by
  rw [moveTool_eq h]
  exact hj

theorem finishToolBatch_grows {id : RunId} {round : Nat} {u : Unit}
    (h : s.finishToolBatch id round = .ok (u, s'))
    (hj : Grows q j s.journal) (hq : Routine q id) : Grows q j s'.journal := by
  obtain ⟨n, data, hev⟩ := finishToolBatch_cases h
  exact insertEvent_grows hev hj fun _ => hq _ rfl (by simp [turnEvents])

theorem appendEvent_grows {id : RunId} {event : String} {data : Json} {n : Nat}
    (h : s.appendEvent id event data = .ok (n, s'))
    (hj : Grows q j s.journal) (hq : ∀ n, q ⟨id, n, event, data⟩) : Grows q j s'.journal := by
  obtain ⟨s₁, hev, ⟨-, rfl⟩ | ⟨i, prompt, payload, interactions, -, -, hins, rfl⟩⟩ :=
    appendEvent_cases h
  · exact insertEvent_grows hev hj hq
  · have hg := insertEvent_grows hev hj hq
    rw [journal_setRun]
    exact hg.settle (keepsSettled_insert hins)

theorem claimInteraction_grows {i : InteractionId} {sid : SessionId} {id : RunId}
    {revision : Int} {approved : Bool} {rec : InteractionRecord}
    (h : s.claimInteraction i sid id revision approved = .ok (rec, s'))
    (hj : Grows q j s.journal) (hq : Routine q id) : Grows q j s'.journal := by
  rcases claimInteraction_cases h with ⟨rfl, -⟩ | ⟨x, run, n, -, -, -, -, -, -, -, hev, -⟩
  · exact hj
  · have ha := answerInteraction_grows hj i approved
    refine insertEvent_grows hev ?_ fun _ => hq _ rfl (by simp [turnEvents])
    unfold answering
    split
    · rw [journal_moveRun]
      exact ha
    · exact ha

theorem finish_grows {id : RunId} {status : RunStatus} {content : Option String}
    {error : Option (Int × String)} {now : Int} {rec : RunRecord}
    (h : s.finish id status content error now = .ok (rec, s')) (hj : Grows q j s.journal)
    (hq : s.Unended id → Routine q id) (hp : ∀ k, s'.Unended k → Routine q k)
    (hcompleted : status = .completed → ∀ n data, q ⟨id, n, "assistant_content", data⟩) :
    Grows q j s'.journal := by
  obtain ⟨-, ⟨rfl, -⟩ | ⟨current, s₁, n, s₂, data, hcur, hgoing, hcontent, hev, -, hterm⟩⟩ :=
    finish_cases h
  · exact hj
  · have hrun : Routine q id := hq ⟨_, (readRun_view hcur).2, hgoing⟩
    have hg := insertEvent_grows hev (insertContent_grows hcontent hj fun data hdata n => ?_)
      fun _ => hrun _ rfl (by simp [turnEvents])
    · exact markTerminalIn_grows hterm (orphanPending_grows (by simpa using hg) id) hp
    · obtain ⟨c, hc, -⟩ := Option.map_eq_some_iff.mp hdata
      exact hcompleted (completed_of_verdictContent hc) n data

theorem reconcileUnknown_grows {id : RunId} {sid : SessionId} {expectedLastSeq : Nat}
    {status : RunStatus} {content : Option String} {evidence digest : String} {now : Int}
    {rec : RunRecord}
    (h : s.reconcileUnknown id sid expectedLastSeq status content evidence digest now =
      .ok (rec, s')) (hj : Grows q j s.journal)
    (hq : ∀ e, e.runId = id → e.event ∉ turnEvents ∨ e.event = "assistant_content" → q e)
    (hp : ∀ k, s'.Unended k → Routine q k) : Grows q j s'.journal := by
  obtain ⟨-, -, current, s₁, n, s₂, kept, payload, data, -, -, hcontent, hev, -, hterm⟩ :=
    reconcileUnknown_cases h
  have hg := insertEvent_grows hev
    (insertContent_grows hcontent hj fun _ _ _ => hq _ rfl (.inr rfl))
    fun _ => hq _ rfl (.inl (by simp [turnEvents]))
  exact markTerminalIn_grows hterm (by simpa using hg) hp

theorem recoverRun_grows {id : RunId} {now : Int} (h : s.recoverRun id now = .ok s')
    (hj : Grows q j s.journal) (hq : ∀ k, Routine q k) : Grows q j s'.journal := by
  obtain ⟨n, s₁, rec, hev, -, hterm⟩ := recoverRun_cases h
  have hg := insertEvent_grows hev hj fun _ => hq id _ rfl (by simp [turnEvents])
  exact markTerminalIn_grows hterm (by simpa using hg) fun k _ => hq k

theorem recover_grows {clock : Clock} {n : Nat} (h : s.recover clock = .ok (n, s'))
    (hj : Grows q j s.journal) (hq : ∀ k, Routine q k) : Grows q j s'.journal := by
  simp only [recover, bind_eq_ok, pure_eq_ok] at h
  obtain ⟨s₁, hs₁, h⟩ := h
  have hg : Grows q j s₁.journal := foldlM_induct (P := fun s : RunStore => Grows q j s.journal)
    _ hj (fun _ _ _ hb _ hstep => recoverRun_grows hstep hb hq) hs₁
  cases h
  refine hg.settle (t := _) ?_
  refine keepsSettled_update (by intro _; rfl) ?_
  intro x hx
  simp only [Bool.and_eq_true, decide_eq_true_eq] at hx
  exact hx.1

theorem startProviderAttempt_grows {attempt : Provider.ProviderAttempt} {u : Unit}
    (h : s.startProviderAttempt attempt = .ok (u, s'))
    (hj : Grows q j s.journal) (hq : Routine q attempt.runId) : Grows q j s'.journal := by
  obtain ⟨attempts, n, data, hev⟩ := startProviderAttempt_cases h
  exact insertEvent_grows hev hj fun _ => hq _ rfl (by simp [turnEvents])

theorem finishProviderAttempt_grows {attempt : Provider.ProviderAttempt} {u : Unit}
    (h : s.finishProviderAttempt attempt = .ok (u, s'))
    (hj : Grows q j s.journal) (hq : Routine q attempt.runId) : Grows q j s'.journal := by
  rcases finishProviderAttempt_cases h with rfl | ⟨attempts, n, data, hev⟩
  · exact hj
  · exact insertEvent_grows hev hj fun _ => hq _ rfl (by simp [turnEvents])

theorem enqueueChild_grows {request : DelegationRequest} {position : TreePosition} {now : Int}
    {rec : DelegationRecord} (h : s.enqueueChild request position now = .ok (rec, s'))
    (hj : Grows q j s.journal) (hq : ∀ id ∉ s.journal.runs.map Prod.fst, Routine q id)
    (hp : Routine q request.parentRunId) : Grows q j s'.journal := by
  simp only [enqueueChild, bind_eq_ok, constraint_eq_ok] at h
  obtain ⟨sessions, hsessions, ⟨id, s₁⟩, henq, delegations, -, ⟨n, s₂⟩, hev, h⟩ := h
  have hg : Grows q j s₁.journal := by
    refine enqueueRun_grows henq (fun hid => ?_) (hq id)
    have hs : request.childSessionId ∉ s.journal.sessions := by
      have hn := Table.insert_fresh hsessions
      rw [Table.find?, List.find?_eq_none] at hn
      exact fun hm => hn _ hm (decide_eq_true rfl)
    have e : { s with sessions }.journal = s.journal.openSession request.childSessionId := by
      simp only [journal, Journal.openSession, Table.rows_insert hsessions]
    rw [e]
    exact hj.spawn hid hs
  have hg₂ := insertEvent_grows hev hg fun _ => hp _ rfl (by simp [turnEvents])
  split at h
  · cases h
  · cases h
    exact hg₂

theorem writeDelegation_grows {id : RunId} {f : Delegation → Delegation}
    {hf : ∀ d, (f d).childRunId = d.childRunId} {rec : DelegationRecord}
    (h : s.writeDelegation id f hf = .ok (rec, s'))
    (hj : Grows q j s.journal) : Grows q j s'.journal := by
  rw [(writeDelegation_cases h).2]
  exact hj

theorem reserveDelegationResult_grows {id : RunId} {owner : String} {revision : Int}
    {clock : Clock} {rec : DelegationRecord}
    (h : s.reserveDelegationResult id owner revision clock = .ok (rec, s'))
    (hj : Grows q j s.journal) : Grows q j s'.journal := by
  rcases reserveDelegationResult_cases h with ⟨rfl, -⟩ | ⟨d, -, -, -, expired, hf, hwrite⟩
  · exact hj
  · exact writeDelegation_grows hwrite hj

theorem transitionResult_grows {id : RunId} {owner : String} {revision : Int}
    {target : ResultState} {clock : Clock} {rec : DelegationRecord}
    (h : s.transitionResult id owner revision target clock = .ok (rec, s'))
    (hj : Grows q j s.journal) : Grows q j s'.journal := by
  rcases transitionResult_cases h with ⟨rfl, -⟩ | ⟨d, -, -, hwrite⟩
  · exact hj
  · exact writeDelegation_grows hwrite hj

theorem exec_grows {op : Op} {reply : Reply} (h : s.exec op = .ok (reply, s'))
    (hq : ∀ id, Routine q id) (hop : ∀ e, op.Reports e → q e) (hj : Grows q j s.journal) :
    Grows q j s'.journal := by
  cases op with
  | admitWithRoute sid rid input mode route now =>
    obtain ⟨r, -, hx⟩ := of_exec h
    exact admitWithRoute_grows hx hj fun id _ => hq id
  | tryStartQueued id clock =>
    obtain ⟨r, -, hx⟩ := of_exec h
    exact tryStartQueued_grows hx hj (hq id)
  | removeQueued id now =>
    obtain ⟨r, -, hx⟩ := of_exec h
    exact removeQueued_grows hx hj (fun _ => hq id) fun k _ => hq k
  | prepareToolBatch id round calls =>
    obtain ⟨r, -, hx⟩ := of_exec h
    exact prepareToolBatch_grows hx hj (hq id)
  | startTool id round callId now =>
    obtain ⟨r, -, hx⟩ := of_exec h
    exact moveTool_grows hx hj
  | finishTool id round callId outcome artifactRef receipt now =>
    obtain ⟨r, -, hx⟩ := of_exec h
    exact moveTool_grows hx hj
  | finishToolBatch id round =>
    obtain ⟨r, -, hx⟩ := of_exec h
    exact finishToolBatch_grows hx hj (hq id)
  | appendEvent id event data =>
    obtain ⟨r, -, hx⟩ := of_exec h
    exact appendEvent_grows hx hj fun n => hop _ ⟨rfl, rfl, rfl⟩
  | claimInteraction i sid id revision approved =>
    obtain ⟨r, -, hx⟩ := of_exec h
    exact claimInteraction_grows hx hj (hq id)
  | finish id status content error now =>
    obtain ⟨r, -, hx⟩ := of_exec h
    exact finish_grows hx hj (fun _ => hq id) (fun k _ => hq k) fun hst n data =>
      hop _ ⟨rfl, hst, rfl⟩
  | reconcileUnknown id sid seq status content evidence digest now =>
    obtain ⟨r, -, hx⟩ := of_exec h
    refine reconcileUnknown_grows hx hj (fun e hid he => ?_) fun k _ => hq k
    rcases he with he | he
    · exact hq id e hid he
    · exact hop e ⟨hid, he⟩
  | recover clock =>
    obtain ⟨r, -, hx⟩ := of_exec h
    exact recover_grows hx hj hq
  | startProviderAttempt attempt =>
    obtain ⟨r, -, hx⟩ := of_exec h
    exact startProviderAttempt_grows hx hj (hq attempt.runId)
  | finishProviderAttempt attempt =>
    obtain ⟨r, -, hx⟩ := of_exec h
    exact finishProviderAttempt_grows hx hj (hq attempt.runId)
  | admitDelegation request clock =>
    obtain ⟨r, -, hx⟩ := of_exec h
    rcases admitDelegation_spec hx with ⟨rfl, -⟩ | ⟨parent, -, -, hx⟩
    · exact hj
    · exact enqueueChild_grows hx hj (fun id _ => hq id) (hq request.parentRunId)
  | reserveDelegationResult child owner revision clock =>
    obtain ⟨r, -, hx⟩ := of_exec h
    exact reserveDelegationResult_grows hx hj
  | releaseDelegationResult child owner revision clock =>
    obtain ⟨r, -, hx⟩ := of_exec h
    exact transitionResult_grows hx hj
  | deliverDelegationResult child owner revision clock =>
    obtain ⟨r, -, hx⟩ := of_exec h
    exact transitionResult_grows hx hj

end Grows

/-- Only the events of a turn that the call reports can fail `q`. -/
theorem next_logs (hq : ∀ id, Routine q id) (s : RunStore) (op : Op)
    (hop : ∀ e, op.Reports e → q e) : Grows q s.journal (s.next op).journal := by
  unfold RunStore.next
  split
  · rename_i reply s' h
    exact exec_grows h hq hop .refl
  · exact .refl

theorem next_grows (hq : Quiet q) (s : RunStore) (op : Op)
    (hop : ∀ id, op.approvalRun = some id → ∀ n data, q ⟨id, n, "approval_required", data⟩) :
    Grows q s.journal (s.next op).journal := by
  refine next_logs hq.routine s op fun e he => ?_
  by_cases hask : e.event = "approval_required"
  · cases op with
    | appendEvent id event data =>
      obtain ⟨rfl, rfl, rfl⟩ := he
      have hq' := hop e.runId (by simp [Op.approvalRun, hask]) e.seq e.data
      rw [← hask] at hq'
      exact hq'
    | finish id status content error now => exact absurd (hask.symm.trans he.2.2) (by simp)
    | reconcileUnknown id sid seq status content evidence digest now =>
      exact absurd (hask.symm.trans he.2) (by simp)
    | _ => exact he.elim
  · exact hq e hask

/-- Along every sequence of operations the log only grows. -/
theorem after_grows (s : RunStore) (ops : List Op) :
    Grows (fun _ => True) s.journal (after RunStore.next s ops).journal :=
  after_induct (G := fun _ _ => True)
    (I := fun s' : RunStore => Grows (fun _ => True) s.journal s'.journal)
    (fun s' op hs' _ => hs'.trans (next_grows quiet_true s' op fun _ _ _ _ => trivial)) .refl
    (along_true _ _)

/-! ## Claimed answers -/

/-- The answer to the interaction is durable. -/
def Claimed (s : RunStore) (id : InteractionId) (approved : Bool) : Prop :=
  ∃ i, s.interactions.find? id = some i ∧ (i.status = .answered ∨ i.status = .rejected) ∧
    i.response = some (answerJson approved)

theorem Claimed.grows {s s' : RunStore} {id : InteractionId} {approved : Bool}
    (h : s.Claimed id approved) (hg : Grows q s.journal s'.journal) : s'.Claimed id approved := by
  obtain ⟨i, hi, hst, hr⟩ := h
  exact ⟨i, hg.keepsSettled id i hi (by rcases hst with h | h <;> simp [h]), hst, hr⟩

theorem readInteraction_eq_some {s : RunStore} {id : InteractionId} {rec : InteractionRecord}
    (h : s.readInteraction id = some rec) :
    ∃ i, s.interactions.find? id = some i ∧ i.status = rec.status ∧ i.response = rec.response := by
  obtain ⟨i, hi, h⟩ := Option.bind_eq_some_iff.mp h
  obtain ⟨r, -, rfl⟩ := Option.map_eq_some_iff.mp h
  exact ⟨i, hi, rfl, rfl⟩

theorem answerInteraction_claimed {s : RunStore} {id : InteractionId} {i : Interaction}
    (hi : s.interactions.find? id = some i) (hst : i.status = .pending) (approved : Bool) :
    (s.answerInteraction id approved).Claimed id approved := by
  have hid : i.id = id := Table.key_of_find? hi
  have e := Table.find?_update s.interactions (fun i => i.id = id && i.status = .pending)
    (answered · approved) (fun _ => rfl) id
  rw [hi, Option.map_some, if_pos (by simp [hid, hst])] at e
  refine ⟨answered i approved, e, ?_, rfl⟩
  cases approved <;> simp [answered]

/-- A claim that succeeds has made its answer durable. -/
theorem claimInteraction_claimed {s s' : RunStore} {i : InteractionId} {sid : SessionId}
    {id : RunId} {revision : Int} {approved : Bool} {rec : InteractionRecord}
    (h : s.claimInteraction i sid id revision approved = .ok (rec, s')) :
    s'.Claimed i approved := by
  rcases claimInteraction_cases h with ⟨rfl, hread, -, -, hst, hresponse⟩ |
    ⟨x, run, n, hx, -, hpending, -, -, -, -, hev, -⟩
  · obtain ⟨x, hx, hxs, hxr⟩ := readInteraction_eq_some hread
    exact ⟨x, hx, hxs ▸ hst, hxr.trans hresponse⟩
  · have hc := answerInteraction_claimed hx hpending approved
    have hg : Grows (fun _ => True) (s.answerInteraction i approved).journal s'.journal := by
      refine insertEvent_grows hev ?_ fun _ => trivial
      unfold answering
      split
      · rw [journal_moveRun]
        exact .refl
      · exact .refl
    exact hc.grows hg

end RunStore

/-- The events of every run are numbered from one to its counter. -/
theorem journal_sound (ops : List Op) : (storeAfter ops).journal.Sound := by
  have hempty : RunStore.empty.journal.Sound :=
    ⟨List.nodup_nil, List.nodup_nil, nofun, fun _ _ => by simp [RunStore.journal, RunStore.empty]⟩
  exact hempty.grows (RunStore.after_grows .empty ops)

/-- Where the log is sound, an event can be appended to every run that exists. -/
theorem insertEvent_total {s : RunStore} (hs : s.journal.Sound) {id : RunId} {r : Run}
    (hr : s.runs.find? id = some r) (event : String) (data : Json) :
    ∃ s', s.insertEvent id event data = .ok (r.lastSeq + 1, s') := by
  have hfresh : s.events.find? (id, r.lastSeq + 1) = none := by
    rw [Option.eq_none_iff_forall_not_mem]
    intro e he
    have hmem : (id, r.lastSeq + 1) ∈ s.journal.events.map StoredEvent.key := by
      have := Table.find?_eq_some_iff.mp he
      exact List.mem_map.mpr ⟨e, this.1, this.2⟩
    obtain ⟨-, m, hm, hle⟩ := (hs.gapless _ _).mp hmem
    have := congrArg Prod.snd
      (List.inj_on_of_nodup_map hs.nodup hm (RunStore.mem_journal hr) rfl)
    dsimp only at this
    omega
  obtain ⟨events, hev⟩ := Table.insert_of_fresh (t := s.events)
    (r := ⟨id, r.lastSeq + 1, event, data⟩) hfresh
  exact ⟨_, by simp only [RunStore.insertEvent, hr, hev]; rfl⟩

/-! ## Writes that cannot fail -/

section Total

variable {s : RunStore} {id : RunId} {e : RuntimeError}

theorem exists_run_of_control {s' : RunStore} (hc : s'.control = s.control)
    (hr : ∃ r, s.runs.find? id = some r) : ∃ r, s'.runs.find? id = some r := by
  obtain ⟨r, hr⟩ := hr
  have h := RunStore.control_run? s' id
  rw [hc, RunStore.control_run?, hr] at h
  cases hr' : s'.runs.find? id with
  | none => simp [hr'] at h
  | some r' => exact ⟨r', rfl⟩

theorem readRun_ne_none (h : (s.control.run? id).isSome = true) : s.readRun id ≠ none := by
  intro hnone
  rw [RunStore.control_run?] at h
  simp only [RunStore.readRun, Option.map_eq_none_iff] at hnone
  simp [hnone] at h

theorem insertEvent_ne_error (hs : s.journal.Sound) (hr : ∃ r, s.runs.find? id = some r)
    {event : String} {data : Json} : s.insertEvent id event data ≠ .error e := by
  obtain ⟨r, hr⟩ := hr
  obtain ⟨s', h⟩ := insertEvent_total hs hr event data
  rw [h]
  exact nofun

theorem insertContent_ne_error (hs : s.journal.Sound) (hr : ∃ r, s.runs.find? id = some r)
    {data : Option Json} : s.insertContent id data ≠ .error e := by
  cases data with
  | none => exact nofun
  | some data =>
    intro h
    cases hev : s.insertEvent id "assistant_content" data with
    | error e => exact insertEvent_ne_error hs hr hev
    | ok p =>
      rw [RunStore.insertContent, hev] at h
      cases h

theorem markTerminalIn_ne_error (hs : s.journal.Sound) {rec : RunRecord} {now : Int} :
    s.markTerminalIn id rec now ≠ .error e := by
  intro h
  unfold RunStore.markTerminalIn at h
  split at h
  · cases h
  · dsimp only at h
    split at h
    · cases h
    · rename_i parent hparent
      split at h
      · cases h
      · obtain ⟨r, hr, -⟩ := RunStore.readRun_eq_some hparent
        rw [← (RunStore.readRun_view hparent).1] at hr
        have hs' : (s.closeDelegation id rec now).journal.Sound := hs
        obtain ⟨s', h'⟩ := insertEvent_total hs' hr "delegation_terminal"
          (.obj [("child_run_id", .str id.val), ("status", rec.status.toJson),
            ("summary", .str (String.ofList ((rec.content.getD "").toList.take 512)))])
        rw [h'] at h
        cases h

/-- A terminal status can be recorded for every run that has none. -/
theorem finish_total (hs : s.journal.Sound) {r : Run} (hr : s.runs.find? id = some r)
    (hnt : r.status.terminal = false) {status : RunStatus} (hst : status.terminal = true)
    (content : Option String) (error : Option (Int × String)) (now : Int) :
    ∃ rec s', s.finish id status content error now = .ok (rec, s') := by
  cases hf : s.finish id status content error now with
  | ok p => exact ⟨p.1, p.2, rfl⟩
  | error e =>
    exfalso
    have hread : s.readRun id = some r.record := by rw [RunStore.readRun, hr]; rfl
    have hcur : ¬ r.record.status.terminal = true := by simp [Run.record, hnt]
    rw [RunStore.finish, hread] at hf
    simp only [hst, Bool.not_true, Bool.false_eq_true, if_false, hcur] at hf
    rcases bind_eq_error.mp hf with h | ⟨s₁, h₁, hf⟩
    · exact insertContent_ne_error hs ⟨r, hr⟩ h
    have hs₁ : s₁.journal.Sound :=
      hs.grows (q := fun _ => True) (RunStore.insertContent_grows h₁ .refl fun _ _ _ => trivial)
    have hr₁ := exists_run_of_control (RunStore.insertContent_control h₁) ⟨r, hr⟩
    rcases bind_eq_error.mp hf with h | ⟨⟨n, s₂⟩, h₂, hf⟩
    · exact insertEvent_ne_error hs₁ hr₁ h
    have hs₂ := RunStore.sound_insertEvent h₂ hs₁
    obtain ⟨r₂, hr₂⟩ := exists_run_of_control (RunStore.insertEvent_control h₂) hr₁
    split at hf
    · rename_i hnone
      exact readRun_ne_none (by simp [RunStore.control_run?, hr₂]) hnone
    · rename_i result hresult
      rcases bind_eq_error.mp hf with h | ⟨s₃, -, hf⟩
      · refine markTerminalIn_ne_error
          (hs₂.grows (q := fun _ => True) (RunStore.orphanPending_grows ?_ id)) h
        rw [RunStore.journal_setVerdict]
        exact .refl
      · cases hf

end Total

end AgentDaemon.Storage
