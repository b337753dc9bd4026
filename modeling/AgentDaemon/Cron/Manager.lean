import Mathlib.Data.List.DropRight
import AgentDaemon.Cron.Store
import AgentDaemon.Lib.Slots
import AgentDaemon.Lib.Transition

/-!
`CronManager`: executions of jobs beside the operations of users on the store. No two executions of
one job are in progress at a time, and a record goes to the job that ran as long as the store does
not find another job under the id, which a user may have given to it as its name (`cron_results`).
-/

namespace AgentDaemon.Cron

open CronState Transition

/-! ## The manager -/

/-- Where an execution is. After `finishing` its id is no longer in the running set. -/
inductive ExecutionPhase where
  | starting
  | running (startedAt attempts : Nat)
  | finishing (startedAt attempts : Nat) (success : Bool) (result : String)
  | recording (startedAt attempts : Nat) (success : Bool) (result : String)
  | returned (result : Except Failure CronRunRecord)

def ExecutionPhase.inProgress : ExecutionPhase → Bool
  | running .. | finishing .. => true
  | _ => false

/-- An execution of a job, as it was when it was taken from the store. -/
structure Execution where
  job : CronJob
  phase : ExecutionPhase

/-- `counter` is `NEXT_JOB_ID`. -/
structure Manager where
  state : CronState
  counter : Nat
  running : List String := []
  executions : List Execution := []

namespace Manager

/-- `now` is what the clock says, and `fault` why the store can not be written. -/
inductive Event where
  | add (request : AddRequest) (now : Option Nat) (fault : Option String)
  | remove (idOrName : String) (fault : Option String)
  | setEnabled (idOrName : String) (enabled : Bool) (now : Option Nat) (fault : Option String)
  | takeDue (now : Nat) (fault : Option String)
  | runNow (idOrName : String)
  /-- Execution `i` puts its id into the running set. -/
  | enter (i : Nat) (now : Option Nat)
  /-- The runner comes back to execution `i`. -/
  | attempt (i : Nat) (outcome : Except String String)
  | release (i : Nat)
  | record (i : Nat) (now : Option Nat) (fault : Option String)
  /-- The future of execution `i` is dropped. -/
  | abort (i : Nat)

section Steps

variable (crate : CronCrate) (m : Manager)

def setPhase (i : Nat) (phase : ExecutionPhase) : Manager :=
  { m with executions := m.executions.modify i fun e => { e with phase } }

/-- `execute_job` of each of the jobs. -/
def execute (jobs : List CronJob) : Manager :=
  { m with executions := m.executions ++ jobs.map fun job => ⟨job, .starting⟩ }

def enter (i : Nat) (e : Execution) (now : Option Nat) : Manager :=
  match e.phase with
  | .starting =>
    if e.job.id ∈ m.running then
      m.setPhase i (.returned (.error (.error ("cron 已在运行：" ++ e.job.name))))
    else
      let m := { m with running := e.job.id :: m.running }
      match now with
      | none => m.setPhase i (.returned (.error clockError))
      | some now => m.setPhase i (.running now 0)
  | _ => m

def u32Max : Nat := 2 ^ 32 - 1

def attempt (i : Nat) (e : Execution) (outcome : Except String String) : Manager :=
  match e.phase with
  | .running startedAt attempts =>
    let attempts := min (attempts + 1) u32Max
    match outcome with
    | .ok result => m.setPhase i (.finishing startedAt attempts true result)
    | .error text =>
      if attempts ≤ e.job.maxRetries then m.setPhase i (.running startedAt attempts)
      else m.setPhase i (.finishing startedAt attempts false text)
  | _ => m

def release (i : Nat) (e : Execution) : Manager :=
  match e.phase with
  | .finishing startedAt attempts success result =>
    { m.setPhase i (.recording startedAt attempts success result) with
      running := m.running.filter (· ≠ e.job.id) }
  | _ => m

def record (i : Nat) (e : Execution) (now : Option Nat) (fault : Option String) : Manager :=
  match e.phase with
  | .recording startedAt attempts success result =>
    match now with
    | none => m.setPhase i (.returned (.error clockError))
    | some now =>
      let record : CronRunRecord := ⟨startedAt, now, attempts, success, result⟩
      let stored := m.state.record e.job.id record fault
      { m.setPhase i (.returned (stored.1.map fun _ => record)) with state := stored.2 }
  | _ => m

/-- A step of execution `i`. -/
def stepExecution (i : Nat) (f : Execution → Manager) : Manager :=
  match m.executions[i]? with
  | some e => f e
  | none => m

def next (m : Manager) : Event → Manager
  | .add request now fault =>
    match checkAdd crate request now with
    | .error _ => m
    | .ok now =>
      { m with
        state := (m.state.insert crate request now m.counter fault).2
        counter := (m.counter + 1) % 2 ^ 64 }
  | .remove idOrName fault => { m with state := (m.state.remove idOrName fault).2 }
  | .setEnabled idOrName enabled now fault =>
    { m with state := (m.state.setEnabled crate idOrName enabled now fault).2 }
  | .takeDue now fault =>
    match m.state.takeDue crate now fault with
    | (.error _, state) => { m with state }
    | (.ok due, state) => execute { m with state } due
  | .runNow idOrName =>
    match m.state.get idOrName with
    | .error _ => m
    | .ok job => m.execute [job]
  | .enter i now => m.stepExecution i fun e => m.enter i e now
  | .attempt i outcome => m.stepExecution i fun e => m.attempt i e outcome
  | .release i => m.stepExecution i fun e => m.release i e
  | .record i now fault => m.stepExecution i fun e => m.record i e now fault
  | .abort i => m.setPhase i (.returned (.error (.error "aborted")))

end Steps

/-- A manager that has nothing to do yet. -/
def start (state : CronState) (counter : Nat) : Manager := { state, counter }

/-! ## Records of the job that ran -/

/-- The record that the event writes, and the id that was executed. -/
def records (m : Manager) : Event → Option (String × CronRunRecord)
  | .record i (some now) none =>
    match m.executions[i]? with
    | some ⟨job, .recording startedAt attempts success result⟩ =>
      some (job.id, ⟨startedAt, now, attempts, success, result⟩)
    | _ => none
  | _ => none

/-- The record is the last one of the job with the id, which keeps the newest 20 of its records,
and nothing changes if there is none. -/
def Recorded (id : String) (record : CronRunRecord) (jobs jobs' : List CronJob) : Prop :=
  (∃ before job later, jobs = before ++ job :: later ∧ job.id = id ∧
    jobs' = before ++ { job with history := (job.history ++ [record]).rtake 20 } :: later) ∨
  (∀ job ∈ jobs, job.id ≠ id) ∧ jobs' = jobs

/-- Each job has the records that it had. -/
def Unrecorded (jobs jobs' : List CronJob) : Prop :=
  ∀ job' ∈ jobs', job'.history = [] ∨ ∃ job ∈ jobs, job'.id = job.id ∧ job'.history = job.history

structure Right (crate : CronCrate) (m : Manager) (event : Event) : Prop where
  recorded : ∀ id record, m.records event = some (id, record) →
    Recorded id record m.state.jobs (m.next crate event).state.jobs
  unrecorded : m.records event = none → Unrecorded m.state.jobs (m.next crate event).state.jobs

/-- No two executions of one job are in progress. -/
def Single (m : Manager) : Prop :=
  ∀ (i k : Nat) e e', m.executions[i]? = some e → m.executions[k]? = some e' →
    e.phase.inProgress = true → e'.phase.inProgress = true → e.job.id = e'.job.id → i = k

/-- Where a record is written, the job that the store finds under the id has it as its id, and not
as its name. -/
def Sane (m : Manager) (event : Event) : Prop :=
  match m.records event with
  | none => True
  | some (id, _) =>
    match m.state.get id with
    | .error _ => True
    | .ok job => job.id = id

instance (m : Manager) (event : Event) : Decidable (m.Sane event) := by
  unfold Sane
  split
  · infer_instance
  · split <;> infer_instance

/-! ## What a step keeps -/

structure Inv (m : Manager) : Prop where
  running : ∀ (i : Nat) e, m.executions[i]? = some e → e.phase.inProgress = true →
    e.job.id ∈ m.running
  single : m.Single

section Keeps

variable {crate : CronCrate} {m : Manager}

theorem commit_cases {α : Type} (state next : CronState) (fault : Option String) (output : α) :
    (state.commit next fault output).2 = state ∨ (state.commit next fault output).2 = next := by
  cases fault with
  | none => exact .inr rfl
  | some text => exact .inl rfl

theorem pushRecord_history (record : CronRunRecord) (job : CronJob) :
    pushRecord record job = { job with history := (job.history ++ [record]).rtake 20 } := by
  simp only [pushRecord, List.rtake]
  split
  · rfl
  · rename_i hle
    have hzero : (job.history ++ [record]).length - 20 = 0 :=
      Nat.sub_eq_zero_of_le (Nat.le_of_not_lt hle)
    rw [hzero, List.drop_zero]

theorem position?_eq_some {state : CronState} {idOrName : String} {i : Nat}
    (h : state.position? idOrName = some i) : ∃ job, state.jobs[i]? = some job := by
  obtain ⟨hlt, -⟩ := List.findIdx?_eq_some_iff_getElem.mp h
  exact ⟨state.jobs[i], List.getElem?_eq_getElem hlt⟩

/-- The record goes to the job that has the id. -/
theorem recorded_record {state : CronState} {id : String} {record : CronRunRecord}
    (h : ∀ job, state.get id = .ok job → job.id = id) :
    Recorded id record state.jobs (state.record id record none).2.jobs := by
  unfold CronState.record
  cases hposition : state.position? id with
  | none =>
    right
    refine ⟨fun job hjob hid => ?_, rfl⟩
    have hnone := List.findIdx?_eq_none_iff.mp hposition job hjob
    simp [hid] at hnone
  | some i =>
    left
    obtain ⟨job, hjob⟩ := position?_eq_some hposition
    have hid : job.id = id := by
      refine h job ?_
      rw [CronState.get, hposition, Option.bind_some, hjob]
    obtain ⟨hlt, hget⟩ := List.getElem?_eq_some_iff.mp hjob
    refine ⟨state.jobs.take i, job, state.jobs.drop (i + 1), ?_, hid, ?_⟩
    · rw [← hget, List.getElem_cons_drop, List.take_append_drop]
    · show state.jobs.modify i (pushRecord record) = _
      rw [List.modify_eq_take_cons_drop hlt, hget, pushRecord_history]

theorem unrecorded_refl (jobs : List CronJob) : Unrecorded jobs jobs :=
  fun job hjob => .inr ⟨job, hjob, rfl, rfl⟩

theorem unrecorded_insert (state : CronState) (request : AddRequest) (now counter : Nat)
    (fault : Option String) :
    Unrecorded state.jobs (state.insert crate request now counter fault).2.jobs := by
  unfold CronState.insert
  split
  · exact unrecorded_refl _
  · split
    · exact unrecorded_refl _
    · dsimp only
      rcases commit_cases state _ fault _ with h | h
      · rw [h]
        exact unrecorded_refl _
      · rw [h]
        intro job hjob
        rcases List.mem_append.mp hjob with hold | hnew
        · exact .inr ⟨job, hold, rfl, rfl⟩
        · cases List.mem_singleton.mp hnew
          exact .inl rfl

theorem unrecorded_remove (state : CronState) (idOrName : String) (fault : Option String) :
    Unrecorded state.jobs (state.remove idOrName fault).2.jobs := by
  unfold CronState.remove
  split
  · exact unrecorded_refl _
  · split
    · exact unrecorded_refl _
    · rcases commit_cases state _ fault _ with h | h
      · rw [h]
        exact unrecorded_refl _
      · rw [h]
        exact fun job hjob => .inr ⟨job, List.mem_of_mem_eraseIdx hjob, rfl, rfl⟩

theorem unrecorded_set {jobs : List CronJob} {i : Nat} {job job' : CronJob}
    (hjob : jobs[i]? = some job) (hid : job'.id = job.id) (hhistory : job'.history = job.history) :
    Unrecorded jobs (jobs.set i job') := by
  intro other hother
  rcases List.mem_or_eq_of_mem_set hother with hold | rfl
  · exact .inr ⟨other, hold, rfl, rfl⟩
  · exact .inr ⟨job, List.mem_of_getElem? hjob, hid, hhistory⟩

theorem unrecorded_setEnabled (state : CronState) (idOrName : String) (enabled : Bool)
    (now : Option Nat) (fault : Option String) :
    Unrecorded state.jobs (state.setEnabled crate idOrName enabled now fault).2.jobs := by
  have hcommit : ∀ (i : Nat) (job job' : CronJob), state.jobs[i]? = some job →
      job'.id = job.id → job'.history = job.history →
        Unrecorded state.jobs (state.commit ⟨state.jobs.set i job'⟩ fault job').2.jobs := by
    intro i job job' hjob hid hhistory
    rcases commit_cases state ⟨state.jobs.set i job'⟩ fault job' with h | h
    · rw [h]
      exact unrecorded_refl _
    · rw [h]
      exact unrecorded_set hjob hid hhistory
  unfold CronState.setEnabled
  split
  · exact unrecorded_refl _
  · split
    · exact unrecorded_refl _
    · rename_i job hjob
      split
      · split
        · exact unrecorded_refl _
        · split
          · exact unrecorded_refl _
          · exact hcommit _ job _ hjob rfl rfl
      · exact hcommit _ job _ hjob rfl rfl

theorem unrecorded_takeDueLoop {now : Nat} {jobs due jobs' : List CronJob}
    (h : takeDueLoop crate now jobs = .ok (due, jobs')) : Unrecorded jobs jobs' := by
  induction jobs generalizing due jobs' with
  | nil =>
    cases h
    exact unrecorded_refl []
  | cons job jobs ih =>
    have hcons : ∀ {due' rest : List CronJob} (job' : CronJob),
        takeDueLoop crate now jobs = .ok (due', rest) → job'.id = job.id →
          job'.history = job.history → Unrecorded (job :: jobs) (job' :: rest) := by
      intro due' rest job' hloop hid hhistory other hother
      rcases List.mem_cons.mp hother with rfl | hrest
      · exact .inr ⟨job, List.mem_cons_self, hid, hhistory⟩
      · refine (ih hloop other hrest).imp_right ?_
        rintro ⟨old, hold, hsame⟩
        exact ⟨old, List.mem_cons_of_mem _ hold, hsame⟩
    rw [takeDueLoop] at h
    split at h
    · obtain ⟨time, -, h⟩ := Fallible.bind_eq_ok.mp h
      obtain ⟨⟨due', rest⟩, hloop, h⟩ := Fallible.bind_eq_ok.mp h
      cases h
      exact hcons _ hloop rfl rfl
    · obtain ⟨⟨due', rest⟩, hloop, h⟩ := Fallible.bind_eq_ok.mp h
      cases h
      exact hcons _ hloop rfl rfl

theorem unrecorded_takeDue (crate : CronCrate) (state : CronState) (now : Nat) (fault : Option String) :
    Unrecorded state.jobs (state.takeDue crate now fault).2.jobs := by
  unfold CronState.takeDue
  split
  · exact unrecorded_refl _
  · rename_i due jobs hloop
    split
    · exact unrecorded_refl _
    · rcases commit_cases state ⟨jobs⟩ fault due with h | h
      · rw [h]
        exact unrecorded_refl _
      · rw [h]
        exact unrecorded_takeDueLoop hloop

theorem state_enter (i : Nat) (e : Execution) (now : Option Nat) :
    (m.enter i e now).state = m.state := by
  unfold Manager.enter
  split
  · split
    · rfl
    · cases now <;> rfl
  · rfl

theorem state_attempt (i : Nat) (e : Execution) (outcome : Except String String) :
    (m.attempt i e outcome).state = m.state := by
  unfold Manager.attempt
  split
  · cases outcome with
    | ok result => rfl
    | error text =>
      dsimp only
      split <;> rfl
  · rfl

theorem state_release (i : Nat) (e : Execution) : (m.release i e).state = m.state := by
  unfold Manager.release
  split <;> rfl

/-- What the store does with a record, and that it does nothing without one. -/
theorem state_record (crate : CronCrate) (m : Manager) (i : Nat) (now : Option Nat) (fault : Option String) :
    (∃ id record, m.records (.record i now fault) = some (id, record) ∧
      (m.next crate (.record i now fault)).state = (m.state.record id record none).2) ∨
    m.records (.record i now fault) = none ∧
      (m.next crate (.record i now fault)).state = m.state := by
  cases he : m.executions[i]? with
  | none =>
    right
    refine ⟨?_, by simp only [Manager.next, stepExecution, he]⟩
    cases now <;> cases fault <;> simp [records, he]
  | some e =>
    obtain ⟨job, phase⟩ := e
    have hnext : m.next crate (.record i now fault) = m.record i ⟨job, phase⟩ now fault := by
      simp only [Manager.next, stepExecution, he]
    rw [hnext]
    cases phase with
    | recording startedAt attempts success result =>
      cases now with
      | none => exact .inr ⟨rfl, rfl⟩
      | some now =>
        cases fault with
        | none =>
          exact .inl ⟨job.id, ⟨startedAt, now, attempts, success, result⟩, by simp [records, he], rfl⟩
        | some text =>
          right
          refine ⟨rfl, ?_⟩
          simp only [Manager.record, CronState.record]
          split <;> rfl
    | _ =>
      right
      refine ⟨?_, rfl⟩
      cases now <;> cases fault <;> simp [records, he]

theorem right_of_sane (event : Event) (h : m.Sane event) : m.Right crate event := by
  have hnone : m.records event = none →
      Unrecorded m.state.jobs (m.next crate event).state.jobs → m.Right crate event := by
    intro hrecords hjobs
    refine ⟨fun id record hsome => ?_, fun _ => hjobs⟩
    rw [hrecords] at hsome
    cases hsome
  have hsame : (m.next crate event).state = m.state →
      Unrecorded m.state.jobs (m.next crate event).state.jobs := by
    intro hstate
    rw [hstate]
    exact unrecorded_refl _
  cases event with
  | add request now fault =>
    refine hnone rfl ?_
    simp only [Manager.next]
    split
    · exact unrecorded_refl _
    · exact unrecorded_insert m.state request _ m.counter fault
  | remove idOrName fault => exact hnone rfl (unrecorded_remove m.state idOrName fault)
  | setEnabled idOrName enabled now fault =>
    exact hnone rfl (unrecorded_setEnabled m.state idOrName enabled now fault)
  | takeDue now fault =>
    refine hnone rfl ?_
    have hjobs := unrecorded_takeDue crate m.state now fault
    simp only [Manager.next]
    rcases htake : m.state.takeDue crate now fault with ⟨due, state⟩
    rw [htake] at hjobs
    cases due <;> exact hjobs
  | runNow idOrName =>
    refine hnone rfl (hsame ?_)
    simp only [Manager.next]
    split <;> rfl
  | enter i now =>
    refine hnone rfl (hsame ?_)
    simp only [Manager.next, stepExecution]
    split
    · exact state_enter ..
    · rfl
  | attempt i outcome =>
    refine hnone rfl (hsame ?_)
    simp only [Manager.next, stepExecution]
    split
    · exact state_attempt ..
    · rfl
  | release i =>
    refine hnone rfl (hsame ?_)
    simp only [Manager.next, stepExecution]
    split
    · exact state_release ..
    · rfl
  | abort i => exact hnone rfl (unrecorded_refl _)
  | record i now fault =>
    rcases state_record crate m i now fault with
      ⟨id, record, hrecords, hstate⟩ | ⟨hrecords, hstate⟩
    · refine ⟨fun id' record' hsome => ?_, fun hnone' => ?_⟩
      · cases hrecords.symm.trans hsome
        rw [hstate]
        refine recorded_record fun job hjob => ?_
        rw [Sane, hrecords] at h
        simp only [hjob] at h
        exact h
      · rw [hrecords] at hnone'
        cases hnone'
    · exact hnone hrecords (hsame hstate)

/-! ### Executions -/

theorem of_setPhase {i k : Nat} {phase : ExecutionPhase} {e : Execution}
    (h : (m.setPhase i phase).executions[k]? = some e) :
    ∃ old, m.executions[k]? = some old ∧ e.job = old.job ∧ (k = i → e.phase = phase) ∧
      (k ≠ i → e = old) := by
  obtain ⟨old, hold, rfl⟩ := Slots.of_modify h
  refine ⟨old, hold, ?_⟩
  by_cases hk : k = i
  · simp [hk]
  · simp [hk]

theorem Inv.setPhase (h : m.Inv) {i : Nat} {phase : ExecutionPhase}
    (hphase : phase.inProgress = true →
      ∀ e, m.executions[i]? = some e → e.phase.inProgress = true) : (m.setPhase i phase).Inv := by
  have hold : ∀ (k : Nat) e, (m.setPhase i phase).executions[k]? = some e →
      e.phase.inProgress = true → ∃ old, m.executions[k]? = some old ∧ e.job = old.job ∧
        old.phase.inProgress = true := by
    intro k e he hprogress
    obtain ⟨old, hold, hjob, hself, hother⟩ := of_setPhase he
    refine ⟨old, hold, hjob, ?_⟩
    by_cases hk : k = i
    · subst hk
      exact hphase (hself rfl ▸ hprogress) old hold
    · exact hother hk ▸ hprogress
  constructor
  · intro k e he hprogress
    obtain ⟨old, hold, hjob, hold'⟩ := hold k e he hprogress
    rw [hjob]
    exact h.running k old hold hold'
  · intro k k' e e' he he' hprogress hprogress' hid
    obtain ⟨old, hk, hjob, hold₁⟩ := hold k e he hprogress
    obtain ⟨old', hk', hjob', hold₂⟩ := hold k' e' he' hprogress'
    exact h.single k k' old old' hk hk' hold₁ hold₂ (by rw [← hjob, ← hjob', hid])

theorem Inv.leave (h : m.Inv) (i : Nat) {phase : ExecutionPhase} (hphase : phase.inProgress = false) :
    (m.setPhase i phase).Inv := by
  refine h.setPhase fun htrue => ?_
  rw [hphase] at htrue
  cases htrue

theorem Inv.push (h : m.Inv) (state : CronState) (jobs : List CronJob) :
    (execute { m with state } jobs).Inv := by
  have hold : ∀ (k : Nat) e, (execute { m with state } jobs).executions[k]? = some e →
      e.phase.inProgress = true → m.executions[k]? = some e := by
    intro k e he hprogress
    replace he : (m.executions ++ jobs.map fun job => ⟨job, .starting⟩)[k]? = some e := he
    rcases Nat.lt_or_ge k m.executions.length with hlt | hge
    · rwa [List.getElem?_append_left hlt] at he
    · rw [List.getElem?_append_right hge, List.getElem?_map] at he
      obtain ⟨job, -, rfl⟩ := Option.map_eq_some_iff.mp he
      cases hprogress
  refine ⟨fun k e he hprogress => h.running k e (hold k e he hprogress) hprogress, ?_⟩
  intro k k' e e' he he' hprogress hprogress' hid
  exact h.single k k' e e' (hold k e he hprogress) (hold k' e' he' hprogress') hprogress
    hprogress' hid

theorem Inv.withState (h : m.Inv) (state : CronState) (counter : Nat) :
    Inv { m with state, counter } :=
  ⟨h.running, h.single⟩

theorem Inv.enter (h : m.Inv) {i : Nat} {e : Execution} (he : m.executions[i]? = some e)
    (now : Option Nat) : (m.enter i e now).Inv := by
  unfold Manager.enter
  split
  · split
    · exact h.leave i rfl
    · rename_i hfree
      have hfresh : ∀ (k : Nat) other, m.executions[k]? = some other →
          other.phase.inProgress = true → other.job.id ≠ e.job.id :=
        fun k other hother hprogress hid => hfree (hid ▸ h.running k other hother hprogress)
      have hmore : Inv { m with running := e.job.id :: m.running } :=
        ⟨fun k other hother hprogress =>
          List.mem_cons_of_mem _ (h.running k other hother hprogress), h.single⟩
      cases now with
      | none => exact hmore.leave i rfl
      | some now =>
        have hold : ∀ (k : Nat) other, (Manager.setPhase { m with running := e.job.id :: m.running } i
            (.running now 0)).executions[k]? = some other →
              k = i ∧ other.job = e.job ∨ k ≠ i ∧ m.executions[k]? = some other := by
          intro k other hother
          obtain ⟨old, hk, hjob, -, hother⟩ := of_setPhase hother
          by_cases hki : k = i
          · subst hki
            cases he.symm.trans hk
            exact .inl ⟨rfl, hjob⟩
          · exact .inr ⟨hki, hother hki ▸ hk⟩
        constructor
        · intro k other hother hprogress
          rcases hold k other hother with ⟨-, hjob⟩ | ⟨-, hk⟩
          · rw [hjob]
            exact List.mem_cons_self
          · exact hmore.running k other hk hprogress
        · intro k k' other other' hother hother' hprogress hprogress' hid
          rcases hold k other hother with ⟨hi, hjob⟩ | ⟨hi, hk⟩
          · rcases hold k' other' hother' with ⟨hi', -⟩ | ⟨-, hk'⟩
            · rw [hi, hi']
            · exact absurd (by rw [← hid, hjob]) (hfresh k' other' hk' hprogress')
          · rcases hold k' other' hother' with ⟨-, hjob'⟩ | ⟨-, hk'⟩
            · exact absurd (by rw [hid, hjob']) (hfresh k other hk hprogress)
            · exact h.single k k' other other' hk hk' hprogress hprogress' hid
  · exact h

theorem Inv.attempt (h : m.Inv) {i : Nat} {e : Execution} (he : m.executions[i]? = some e)
    (outcome : Except String String) : (m.attempt i e outcome).Inv := by
  unfold Manager.attempt
  split
  · rename_i startedAt attempts hphase
    have hprogress : ∀ e', m.executions[i]? = some e' → e'.phase.inProgress = true := by
      intro e' he'
      cases he.symm.trans he'
      rw [hphase]
      rfl
    cases outcome with
    | ok result => exact h.setPhase fun _ => hprogress
    | error text =>
      dsimp only
      split
      · exact h.setPhase fun _ => hprogress
      · exact h.setPhase fun _ => hprogress
  · exact h

theorem Inv.release (h : m.Inv) {i : Nat} {e : Execution} (he : m.executions[i]? = some e) :
    (m.release i e).Inv := by
  unfold Manager.release
  split
  · rename_i startedAt attempts success result hphase
    have hleft : (m.setPhase i (.recording startedAt attempts success result)).Inv := h.leave i rfl
    refine ⟨fun k other hother hprogress => List.mem_filter.mpr ⟨?_, ?_⟩, hleft.single⟩
    · exact hleft.running k other hother hprogress
    · obtain ⟨old, hold, -, hself, hsame⟩ := of_setPhase hother
      have hk : k ≠ i := by
        intro hk
        rw [hself hk] at hprogress
        cases hprogress
      rw [hsame hk] at hprogress ⊢
      -- A second execution with the id would not be in progress.
      exact decide_eq_true fun hid =>
        hk (h.single k i old e hold he hprogress (by rw [hphase]; rfl) hid)
  · exact h

theorem Inv.record (h : m.Inv) (i : Nat) (e : Execution) (now : Option Nat)
    (fault : Option String) : (m.record i e now fault).Inv := by
  unfold Manager.record
  split
  · cases now with
    | none => exact h.leave i rfl
    | some now => exact (h.leave i rfl).withState _ _
  · exact h

theorem Inv.next (h : m.Inv) (event : Event) : (m.next crate event).Inv := by
  have hstep : ∀ (i : Nat) (f : Execution → Manager),
      (∀ e, m.executions[i]? = some e → (f e).Inv) → (m.stepExecution i f).Inv := by
    intro i f hf
    unfold stepExecution
    split
    · rename_i e he
      exact hf e he
    · exact h
  cases event with
  | add request now fault =>
    simp only [Manager.next]
    split
    · exact h
    · exact h.withState _ _
  | remove idOrName fault => exact h.withState _ _
  | setEnabled idOrName enabled now fault => exact h.withState _ _
  | takeDue now fault =>
    simp only [Manager.next]
    split
    · exact h.withState _ _
    · exact h.push _ _
  | runNow idOrName =>
    simp only [Manager.next]
    split
    · exact h
    · exact h.push m.state _
  | enter i now => exact hstep i _ fun e he => h.enter he now
  | attempt i outcome => exact hstep i _ fun e he => h.attempt he outcome
  | release i => exact hstep i _ fun e he => h.release he
  | record i now fault => exact hstep i _ fun e _ => h.record i e now fault
  | abort i => exact h.leave i rfl

theorem inv_start (state : CronState) (counter : Nat) : (start state counter).Inv := by
  have hnone : ∀ (i : Nat) e, (start state counter).executions[i]? ≠ some e := by
    intro i e he
    simp [start] at he
  exact ⟨fun i e he => absurd he (hnone i e), fun i _ e _ he => absurd he (hnone i e)⟩

end Keeps

/-! ## Runs -/

/-- Whatever the names of the jobs and whichever operations come between the steps of executions, as
long as no record is stored under an id that the store takes for the name of another job: a record
goes to the job that ran, and no job runs twice at a time. -/
theorem cron_results (crate : CronCrate) (state : CronState) (counter : Nat) (events : List Event)
    (h : Along (next crate) Sane (start state counter) events) :
    Along (next crate) (Right crate) (start state counter) events ∧
      ∀ pre, pre <+: events → (after (next crate) (start state counter) pre).Single := by
  refine ⟨along_mono h fun m event _ hsane => right_of_sane event hsane, fun pre _ => ?_⟩
  have hinv : (after (next crate) (start state counter) pre).Inv :=
    after_induct (fun m event hm _ => hm.next event) (inv_start state counter) (along_true _ pre)
  exact hinv.single

/-! ### The job `backup` -/

private def noCron : CronCrate := ⟨Unit, fun _ => none, fun _ _ => .never⟩

private def backup : CronJob where
  id := "cron-1-0"
  name := "backup"
  schedule := .interval 60
  prompt := "run"
  enabled := true
  maxRetries := 0
  backoffSeconds := 0
  nextRunAt := 61

private def runBackup : List Event :=
  [.runNow "backup", .enter 0 (some 10), .attempt 0 (.ok "done"), .release 0]

theorem cron_results_backup :
    Along (next noCron) (Right noCron) (start ⟨[backup]⟩ 1) (runBackup ++ [.record 0 (some 12) none]) :=
  (cron_results noCron ⟨[backup]⟩ 1 (runBackup ++ [.record 0 (some 12) none]) (by decide)).1

/-- The job is removed while it runs, and its id becomes the name of a new job. -/
private def namesake : List Event :=
  runBackup ++ [.remove "backup" none, .add ⟨"cron-1-0", .interval 60, "other", 0, 0⟩ (some 11) none]

/-- The new job gets the record. -/
theorem not_right_namesake :
    (after (next noCron) (start ⟨[backup]⟩ 1) (namesake ++ [.record 0 (some 12) none])).state.jobs.map
        (fun job => (job.id, job.history)) = [("cron-11-1", [⟨10, 12, 1, true, "done"⟩])] ∧
      ¬ Along (next noCron) (Right noCron) (start ⟨[backup]⟩ 1)
        (namesake ++ [.record 0 (some 12) none]) := by
  refine ⟨by decide, fun h => ?_⟩
  have hright := (along_append.mp h).2.1
  have habsent : ∀ job ∈ (after (next noCron) (start ⟨[backup]⟩ 1) namesake).state.jobs,
      job.id ≠ "cron-1-0" := by decide
  rcases hright.recorded "cron-1-0" ⟨10, 12, 1, true, "done"⟩ (by rfl) with
    ⟨before, job, later, hjobs, hid, -⟩ | ⟨-, hsame⟩
  · refine habsent job ?_ hid
    rw [hjobs]
    simp
  · revert hsame
    decide

end Manager

end AgentDaemon.Cron
