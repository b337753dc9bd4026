import AgentDaemon.Lib.Fallible
import AgentDaemon.Lib.Text

/-!
`CronStore`: the jobs that run on a schedule, and the operations on them, each of them under the
mutation lock. A tick takes the due jobs exactly if each of them has another time to run at
(`takeDue_exact_iff`).
-/

namespace AgentDaemon.Cron

open Fallible

/-! ## Schedules -/

def u64Max : Nat := 2 ^ 64 - 1

inductive ScheduleSpec where
  | interval (seconds : Nat)
  | cron (expression : String)
  deriving DecidableEq

/-- Why an operation does not return. -/
inductive Failure where
  | error (text : String)
  | panicked
  deriving DecidableEq

/-- The first time of a schedule after another one; `outOfRange` where `chrono` can not hold the
other one. -/
inductive Upcoming where
  | found (time : Int)
  | never
  | outOfRange

/-- The crates `cron` and `chrono`. -/
structure CronCrate where
  Schedule : Type
  fromStr : String → Option Schedule
  after : Schedule → Nat → Upcoming

variable (crate : CronCrate)

def parseFiveFieldCron (expression : String) : Except Failure crate.Schedule :=
  if (splitWhitespace expression.toList).length ≠ 5 then
    .error (.error "cron 表达式必须正好是 5 段：分 时 日 月 周")
  else
    match crate.fromStr ("0 " ++ expression) with
    | none => .error (.error ("非法 cron 表达式：" ++ expression))
    | some schedule => .ok schedule

namespace ScheduleSpec

def validate : ScheduleSpec → Except Failure Unit
  | interval seconds =>
    if seconds = 0 then .error (.error "interval 秒数必须大于 0") else .ok ()
  | cron expression => (parseFiveFieldCron crate expression).map fun _ => ()

def nextAfter (after : Nat) : ScheduleSpec → Except Failure Nat
  | interval seconds => .ok (min (after + seconds) u64Max)
  | cron expression => do
    let schedule ← parseFiveFieldCron crate expression
    if 2 ^ 63 ≤ after then .error (.error "cron 基准时间溢出")
    else
      match crate.after schedule after with
      | .found time => .ok (if 0 ≤ time then time.toNat else u64Max)
      | .never => .error (.error "cron 表达式没有下一次触发时间")
      | .outOfRange => .error .panicked

end ScheduleSpec

/-! ## Jobs -/

structure CronRunRecord where
  startedAt : Nat
  finishedAt : Nat
  attempts : Nat
  success : Bool
  result : String
  deriving DecidableEq

structure CronJob where
  id : String
  name : String
  schedule : ScheduleSpec
  prompt : String
  enabled : Bool
  maxRetries : Nat
  backoffSeconds : Nat
  nextRunAt : Nat
  history : List CronRunRecord := []
  deriving DecidableEq

structure CronState where
  jobs : List CronJob := []
  deriving DecidableEq

def validateJobs : List CronJob → Except Failure Unit
  | [] => .ok ()
  | job :: jobs => do
    job.schedule.validate crate
    validateJobs jobs

/-- What `load` finds at its path. -/
inductive CronFile where
  | missing
  | unreadable
  | malformed
  | parsed (state : CronState)

namespace CronState

def load (path : String) : CronFile → Except Failure CronState
  | .missing => .ok {}
  | .unreadable => .error (.error ("读取 cron store 失败：" ++ path))
  | .malformed => .error (.error ("解析 cron store 失败：" ++ path))
  | .parsed state => do
    validateJobs crate state.jobs
    .ok state

/-- `commit`; `fault` is why the file can not be written. -/
def commit {α : Type} (state next : CronState) (fault : Option String) (output : α) :
    Except Failure α × CronState :=
  match fault with
  | some text => (.error (.error text), state)
  | none => (.ok output, next)

def maxHistory : Nat := 20

/-- Where `find_job_mut` finds a job. -/
def position? (state : CronState) (idOrName : String) : Option Nat :=
  state.jobs.findIdx? fun job => job.id = idOrName || job.name = idOrName

def notFound (idOrName : String) : Failure := .error ("找不到 cron：" ++ idOrName)

def get (state : CronState) (idOrName : String) : Except Failure CronJob :=
  match (state.position? idOrName).bind (state.jobs[·]?) with
  | none => .error (notFound idOrName)
  | some job => .ok job

def remove (state : CronState) (idOrName : String) (fault : Option String) :
    Except Failure CronJob × CronState :=
  match state.position? idOrName with
  | none => (.error (notFound idOrName), state)
  | some i =>
    match state.jobs[i]? with
    | none => (.error (notFound idOrName), state)
    | some job => state.commit ⟨state.jobs.eraseIdx i⟩ fault job

def clockError : Failure := .error "系统时间早于 UNIX_EPOCH"

/-- `now` is what the clock says. -/
def setEnabled (state : CronState) (idOrName : String) (enabled : Bool) (now : Option Nat)
    (fault : Option String) : Except Failure CronJob × CronState :=
  match state.position? idOrName with
  | none => (.error (notFound idOrName), state)
  | some i =>
    match state.jobs[i]? with
    | none => (.error (notFound idOrName), state)
    | some job =>
      if enabled then
        match now with
        | none => (.error clockError, state)
        | some now =>
          match job.schedule.nextAfter crate now with
          | .error error => (.error error, state)
          | .ok time =>
            let job := { job with enabled, nextRunAt := time }
            state.commit ⟨state.jobs.set i job⟩ fault job
      else
        let job := { job with enabled }
        state.commit ⟨state.jobs.set i job⟩ fault job

structure AddRequest where
  name : String
  schedule : ScheduleSpec
  prompt : String
  maxRetries : Nat
  backoffSeconds : Nat

/-- `add`, until it takes a number of `NEXT_JOB_ID`. -/
def checkAdd (request : AddRequest) (now : Option Nat) : Except Failure Nat :=
  if blank request.name || blank request.prompt then
    .error (.error "cron name 与 prompt 不能为空")
  else do
    request.schedule.validate crate
    match now with
    | none => .error clockError
    | some now => .ok now

def jobId (now counter : Nat) : String := "cron-" ++ toString now ++ "-" ++ toString counter

/-- The rest of `add`. -/
def insert (state : CronState) (request : AddRequest) (now counter : Nat) (fault : Option String) :
    Except Failure CronJob × CronState :=
  match request.schedule.nextAfter crate now with
  | .error error => (.error error, state)
  | .ok time =>
    if state.jobs.any fun job => job.name = request.name then
      (.error (.error ("cron 名称已存在：" ++ request.name)), state)
    else
      let job := {
        id := jobId now counter
        name := request.name
        schedule := request.schedule
        prompt := request.prompt
        enabled := true
        maxRetries := request.maxRetries
        backoffSeconds := request.backoffSeconds
        nextRunAt := time }
      state.commit ⟨state.jobs ++ [job]⟩ fault job

def pushRecord (record : CronRunRecord) (job : CronJob) : CronJob :=
  let history := job.history ++ [record]
  { job with history := if history.length > maxHistory then
      history.drop (history.length - maxHistory) else history }

def record (state : CronState) (jobId : String) (record : CronRunRecord) (fault : Option String) :
    Except Failure Unit × CronState :=
  match state.position? jobId with
  | none => (.error (notFound jobId), state)
  | some i => state.commit ⟨state.jobs.modify i (pushRecord record)⟩ fault ()

end CronState

def CronJob.due (now : Nat) (job : CronJob) : Bool := job.enabled && job.nextRunAt ≤ now

/-- The loop of `take_due`: the due jobs, and all jobs as they are afterwards. -/
def takeDueLoop (now : Nat) : List CronJob → Except Failure (List CronJob × List CronJob)
  | [] => .ok ([], [])
  | job :: jobs =>
    if job.due now then do
      let time ← job.schedule.nextAfter crate now
      let (due, rest) ← takeDueLoop now jobs
      .ok (job :: due, { job with nextRunAt := time } :: rest)
    else do
      let (due, rest) ← takeDueLoop now jobs
      .ok (due, job :: rest)

def CronState.takeDue (state : CronState) (now : Nat) (fault : Option String) :
    Except Failure (List CronJob) × CronState :=
  match takeDueLoop crate now state.jobs with
  | .error error => (.error error, state)
  | .ok (due, jobs) => if due = [] then (.ok [], state) else state.commit ⟨jobs⟩ fault due

/-! ## Exact ticks -/

/-- What a tick makes of a job. A due job runs next after the tick, if it has a time to. -/
def Advanced (now : Nat) (job job' : CronJob) : Prop :=
  if job.due now then
    (∃ time, job' = { job with nextRunAt := time }) ∧
      ((∃ time, job.schedule.nextAfter crate now = .ok time) → now < job'.nextRunAt)
  else job' = job

structure Exact (state : CronState) (now : Nat)
    (result : Except Failure (List CronJob) × CronState) : Prop where
  due : result.1 = .ok (state.jobs.filter (CronJob.due now))
  jobs : List.Forall₂ (Advanced crate now) state.jobs result.2.jobs
  /-- The next tick finds jobs that are valid again. -/
  valid : validateJobs crate result.2.jobs = .ok ()

/-- There is a next time to run at. -/
def ScheduleSpec.Goes (now : Nat) : ScheduleSpec → Prop
  | interval _ => True
  | cron expression => now < 2 ^ 63 ∧ ∃ schedule time,
    crate.fromStr ("0 " ++ expression) = some schedule ∧ crate.after schedule now = .found time

/-- A schedule goes on later. -/
def CronCrate.Forward : Prop :=
  ∀ schedule now time, crate.after schedule now = .found time → (now : Int) < time

section Ticks

variable {crate} {now : Nat}

theorem validateJobs_ok {jobs : List CronJob} :
    validateJobs crate jobs = .ok () ↔ ∀ job ∈ jobs, job.schedule.validate crate = .ok () := by
  induction jobs with
  | nil => simp [validateJobs]
  | cons job jobs ih => rw [validateJobs, check_eq_ok, ih, List.forall_mem_cons]

theorem goes_iff {spec : ScheduleSpec} (hvalid : spec.validate crate = .ok ()) :
    spec.Goes crate now ↔ ∃ time, spec.nextAfter crate now = .ok time := by
  cases spec with
  | interval seconds => simp [ScheduleSpec.Goes, ScheduleSpec.nextAfter]
  | cron expression =>
    obtain ⟨schedule, hparse, -⟩ := map_eq_ok.mp hvalid
    have hfrom : crate.fromStr ("0 " ++ expression) = some schedule := by
      unfold parseFiveFieldCron at hparse
      split at hparse
      · cases hparse
      · split at hparse
        · cases hparse
        · cases hparse
          assumption
    rw [ScheduleSpec.Goes, ScheduleSpec.nextAfter, hparse]
    constructor
    · rintro ⟨hlt, schedule', time, hfrom', htime⟩
      cases hfrom.symm.trans hfrom'
      refine ⟨if 0 ≤ time then time.toNat else u64Max, bind_eq_ok.mpr ⟨schedule, rfl, ?_⟩⟩
      rw [if_neg (Nat.not_le.mpr hlt), htime]
    · rintro ⟨time, htime⟩
      obtain ⟨schedule', hschedule, htime⟩ := bind_eq_ok.mp htime
      cases hschedule
      split at htime
      · cases htime
      · rename_i hlt
        refine ⟨Nat.not_le.mp hlt, schedule, ?_⟩
        split at htime
        · rename_i time' hfound
          exact ⟨time', hfrom, hfound⟩
        · cases htime
        · cases htime

theorem lt_of_nextAfter (hcrate : crate.Forward) (hnow : now < u64Max) {spec : ScheduleSpec}
    (hvalid : spec.validate crate = .ok ()) {time : Nat}
    (h : spec.nextAfter crate now = .ok time) : now < time := by
  cases spec with
  | interval seconds =>
    have hpos : seconds ≠ 0 := by
      rintro rfl
      cases hvalid
    cases h
    omega
  | cron expression =>
    obtain ⟨schedule, -, h⟩ := bind_eq_ok.mp h
    split at h
    · cases h
    split at h
    · rename_i time' hfound
      have hlt := hcrate schedule now time' hfound
      cases h
      split <;> omega
    · cases h
    · cases h

/-- A tick that goes through all jobs. -/
theorem takeDueLoop_ok (hcrate : crate.Forward) (hnow : now < u64Max) {jobs : List CronJob}
    (hvalid : ∀ job ∈ jobs, job.schedule.validate crate = .ok ())
    (h : ∀ job ∈ jobs, job.due now → job.schedule.Goes crate now) :
    ∃ next, takeDueLoop crate now jobs = .ok (jobs.filter (CronJob.due now), next) ∧
      List.Forall₂ (Advanced crate now) jobs next := by
  induction jobs with
  | nil => exact ⟨[], rfl, .nil⟩
  | cons job jobs ih =>
    obtain ⟨hvalid₀, hvalid⟩ := List.forall_mem_cons.mp hvalid
    obtain ⟨hgoes₀, hgoes⟩ := List.forall_mem_cons.mp h
    obtain ⟨next, hloop, hnext⟩ := ih hvalid hgoes
    cases hdue : job.due now with
    | false =>
      refine ⟨job :: next, ?_, .cons ?_ hnext⟩
      · rw [takeDueLoop, hdue, hloop, List.filter_cons_of_neg (by simp [hdue])]
        rfl
      · rw [Advanced, hdue]
        rfl
    | true =>
      obtain ⟨time, htime⟩ := (goes_iff hvalid₀).mp (hgoes₀ hdue)
      refine ⟨{ job with nextRunAt := time } :: next, ?_, .cons ?_ hnext⟩
      · rw [takeDueLoop, hdue, htime, hloop, List.filter_cons_of_pos hdue]
        rfl
      · rw [Advanced, if_pos hdue]
        exact ⟨⟨time, rfl⟩, fun _ => lt_of_nextAfter hcrate hnow hvalid₀ htime⟩

/-- Only a tick at which all due jobs go on returns. -/
theorem goes_of_takeDueLoop {jobs due next : List CronJob}
    (hvalid : ∀ job ∈ jobs, job.schedule.validate crate = .ok ())
    (h : takeDueLoop crate now jobs = .ok (due, next)) :
    ∀ job ∈ jobs, job.due now → job.schedule.Goes crate now := by
  induction jobs generalizing due next with
  | nil => nofun
  | cons job jobs ih =>
    obtain ⟨hvalid₀, hvalid⟩ := List.forall_mem_cons.mp hvalid
    rw [takeDueLoop] at h
    split at h
    · obtain ⟨time, htime, h⟩ := bind_eq_ok.mp h
      obtain ⟨⟨due', next'⟩, hloop, -⟩ := bind_eq_ok.mp h
      exact List.forall_mem_cons.mpr ⟨fun _ => (goes_iff hvalid₀).mpr ⟨time, htime⟩, ih hvalid hloop⟩
    · rename_i hdue
      obtain ⟨⟨due', next'⟩, hloop, -⟩ := bind_eq_ok.mp h
      exact List.forall_mem_cons.mpr ⟨fun hdue' => absurd hdue' hdue, ih hvalid hloop⟩

theorem validateJobs_advanced {jobs jobs' : List CronJob} (hvalid : validateJobs crate jobs = .ok ())
    (h : List.Forall₂ (Advanced crate now) jobs jobs') : validateJobs crate jobs' = .ok () := by
  induction h with
  | nil => rfl
  | cons hjob _ ih =>
    rename_i job job' jobs jobs'
    obtain ⟨hvalid₀, hvalid⟩ := check_eq_ok.mp hvalid
    refine check_eq_ok.mpr ⟨?_, ih hvalid⟩
    unfold Advanced at hjob
    split at hjob
    · obtain ⟨⟨time, rfl⟩, -⟩ := hjob
      exact hvalid₀
    · rw [hjob]
      exact hvalid₀

theorem advanced_refl {jobs : List CronJob} (h : ∀ job ∈ jobs, job.due now = false) :
    List.Forall₂ (Advanced crate now) jobs jobs := by
  induction jobs with
  | nil => exact .nil
  | cons job jobs ih =>
    obtain ⟨h₀, h⟩ := List.forall_mem_cons.mp h
    refine .cons ?_ (ih h)
    rw [Advanced, h₀]
    rfl

end Ticks

/-- A tick is exact if and only if every due job has a next time to run at and the store can be
written. -/
theorem takeDue_exact_iff (hcrate : crate.Forward) (path : String) (file : CronFile)
    (state : CronState) (hload : CronState.load crate path file = .ok state) (now : Nat)
    (hnow : now < u64Max) (fault : Option String) :
    Exact crate state now (state.takeDue crate now fault) ↔
      (∀ job ∈ state.jobs, job.due now → job.schedule.Goes crate now) ∧
        (fault = none ∨ ∀ job ∈ state.jobs, job.due now = false) := by
  have hvalid : validateJobs crate state.jobs = .ok () := by
    cases file with
    | missing =>
      cases hload
      rfl
    | parsed parsed =>
      obtain ⟨hvalid, hparsed⟩ := check_eq_ok.mp hload
      cases hparsed
      exact hvalid
    | _ => cases hload
  have hschedules := validateJobs_ok.mp hvalid
  constructor
  · rintro ⟨hdue, -, -⟩
    unfold CronState.takeDue at hdue
    split at hdue
    · cases hdue
    rename_i due next hloop
    refine ⟨goes_of_takeDueLoop hschedules hloop, ?_⟩
    split at hdue
    · right
      intro job hjob
      exact Bool.eq_false_iff.mpr (List.filter_eq_nil_iff.mp (Except.ok.inj hdue).symm job hjob)
    · left
      cases fault with
      | none => rfl
      | some text => cases hdue
  · rintro ⟨hgoes, hfault⟩
    obtain ⟨next, hloop, hnext⟩ := takeDueLoop_ok hcrate hnow hschedules hgoes
    unfold CronState.takeDue
    rw [hloop]
    dsimp only
    split
    · rename_i hnone
      have hidle : ∀ job ∈ state.jobs, job.due now = false := fun job hjob =>
        Bool.eq_false_iff.mpr (List.filter_eq_nil_iff.mp hnone job hjob)
      exact ⟨congrArg Except.ok hnone.symm, advanced_refl hidle, hvalid⟩
    · rename_i hsome
      rcases hfault with rfl | hidle
      · exact ⟨rfl, hnext, validateJobs_advanced hvalid hnext⟩
      · refine absurd (List.filter_eq_nil_iff.mpr fun job hjob => ?_) hsome
        rw [hidle job hjob]
        nofun

/-! ### A job on the 30th of February -/

/-- The expressions of the jobs below, as the crates read them: one that never comes, and one for
every minute. -/
private def calendar : CronCrate where
  Schedule := String
  fromStr expression :=
    if expression = "0 0 0 30 2 *" ∨ expression = "0 * * * * *" then some expression else none
  after schedule now := if schedule = "0 0 0 30 2 *" then .never else .found (60 * (now / 60 + 1))

private theorem calendar_forward : calendar.Forward := by
  intro schedule now time h
  simp only [calendar] at h
  split at h
  · cases h
  · cases h
    omega

private def job (id : String) (schedule : ScheduleSpec) : CronJob where
  id := id
  name := id
  schedule := schedule
  prompt := "run"
  enabled := true
  maxRetries := 0
  backoffSeconds := 0
  nextRunAt := 100

private def minutes : CronState :=
  ⟨[job "cron-1-0" (.cron "* * * * *"), job "cron-1-1" (.interval 5)]⟩

theorem takeDue_exact_minutes : Exact calendar minutes 120 (minutes.takeDue calendar 120 none) := by
  refine (takeDue_exact_iff calendar calendar_forward "cron.json" (.parsed minutes) minutes
    (by rfl) 120 (by decide) none).mpr ⟨?_, .inl rfl⟩
  intro job hjob _
  simp only [minutes, List.mem_cons, List.not_mem_nil, or_false] at hjob
  rcases hjob with rfl | rfl
  · exact ⟨by decide, "0 * * * * *", 180, by rfl, by rfl⟩
  · trivial

private def february : CronState :=
  ⟨[job "cron-1-0" (.interval 5), job "cron-1-1" (.cron "0 0 30 2 *")]⟩

/-- The job that never comes keeps the other one from being taken. -/
theorem not_exact_february :
    CronState.load calendar "cron.json" (.parsed february) = .ok february ∧
      february.takeDue calendar 120 none =
        (.error (.error "cron 表达式没有下一次触发时间"), february) ∧
      ¬ Exact calendar february 120 (february.takeDue calendar 120 none) := by
  have hresult : february.takeDue calendar 120 none =
      (.error (.error "cron 表达式没有下一次触发时间"), february) := by rfl
  refine ⟨by rfl, hresult, fun h => ?_⟩
  have hdue := h.due
  rw [hresult] at hdue
  cases hdue

end AgentDaemon.Cron
