import NextDBM.Backups.Backup
import NextDBM.Library.Registry
import NextDBM.Library.Transactions

/-!
# The scheduler of the jobs

A job whose stored status is running has an entry in the scheduler, a library, and its row keeps the
number of the entry. The service changes the scheduler and the table in separate statements, in no
transaction; an import runs in one, which does not roll the scheduler back. A new process starts with
an empty scheduler, and `InitJob` schedules the stored jobs.
-/

namespace NextDBM

open Relational Transaction

namespace nd

def jobStatusNotRunning : String := "not-running"
def jobModeAll : String := "all"

end nd

/-- `CheckAssetStatusJob` and `ShellJob`: what an entry of the scheduler runs. -/
structure CronJob where
  func : String
  id : String
  mode : String
  resourceIds : String
  metadata : String
  deriving DecidableEq, Repr

abbrev JobTable : Type := Table Job Job.id

/-- `cron.GlobalCron`. -/
abbrev GlobalCron : Type := Registry CronJob

abbrev JobWork (α : Type) : Type := Work JobTable GlobalCron Error α

namespace Jobs

namespace JobRepository

def findById (id : String) (jobs : JobTable) : Except Error (Job × JobTable) :=
  (firstOrNotFound (jobs.findById id)).map fun job => (job, jobs)

def create (o : Job) (jobs : JobTable) : Except Error (Unit × JobTable) :=
  match jobs.insert o with
  | some jobs => .ok ((), jobs)
  | none => .error .duplicatedKey

/-- `Updates` of a job: the columns whose value in `o` is not the zero value. -/
def assign (o r : Job) : Job :=
  { r with
    cronJobId := if o.cronJobId = 0 then r.cronJobId else o.cronJobId
    name := nonZero o.name r.name
    func := nonZero o.func r.func
    cron := nonZero o.cron r.cron
    mode := nonZero o.mode r.mode
    resourceIds := nonZero o.resourceIds r.resourceIds
    status := nonZero o.status r.status
    metadata := nonZero o.metadata r.metadata }

theorem assign_id (o r : Job) : (assign o r).id = r.id := rfl

def updateById (o : Job) (jobs : JobTable) : Except Error (Unit × JobTable) :=
  if o.id = "" then .error .missingWhereClause
  else .ok ((), jobs.updateById o.id (assign o) (assign_id o))

def deleteJobById (id : String) (jobs : JobTable) : Except Error (Unit × JobTable) :=
  .ok ((), jobs.deleteWhere fun job => job.id == id)

end JobRepository

/-- `getJob` -/
def getJob (j : Job) : Except Error CronJob :=
  if j.func = nd.funcCheckAssetStatusJob ∨ j.func = nd.funcShellJob then
    .ok ⟨j.func, j.id, j.mode, j.resourceIds, j.metadata⟩
  else .error (.text "未识别的任务")

section

variable (parse : String → Except Error Unit)

/-- `AddJob` of the scheduler, which reads the specification first. -/
def addJob (spec : String) (cmd : CronJob) : JobWork Int := fun w =>
  match parse spec with
  | .ok () => (.ok w.memory.handle, { w with memory := w.memory.add cmd })
  | .error e => (.error e, w)

namespace JobService

/-- The entry of a job in the scheduler. -/
def enter (j : Job) : JobWork Int := do
  let job ← .ofExcept (getJob j)
  addJob parse j.cron job

def changeStatusById (id status : String) : JobWork Unit := do
  let job ← .statement databaseFault (JobRepository.findById id)
  if status = nd.jobStatusRunning then do
    let entryId ← enter parse job
    .statement databaseFault
      (JobRepository.updateById { id, status := nd.jobStatusRunning, cronJobId := entryId })
  else do
    .touch fun m => m.remove job.cronJobId
    .statement databaseFault (JobRepository.updateById { id, status := nd.jobStatusNotRunning })

def create (o : Job) : JobWork Unit :=
  if o.status = nd.jobStatusRunning then do
    let jobId ← enter parse o
    .statement databaseFault (JobRepository.create { o with cronJobId := jobId })
  else .statement databaseFault (JobRepository.create o)

/-- The stop that precedes the deletion of a running job. -/
def stopRunning (job : Job) (id : String) : JobWork Unit :=
  if job.status = nd.jobStatusRunning then changeStatusById parse id nd.jobStatusNotRunning
  else pure ()

def deleteJobById (id : String) : JobWork Unit := do
  let job ← .statement databaseFault (JobRepository.findById id)
  stopRunning parse job id
  .statement databaseFault (JobRepository.deleteJobById id)

/-- The restart that follows the update of a running job. -/
def restartRunning (job : Job) (id : String) : JobWork Unit :=
  if job.status = nd.jobStatusRunning then do
    changeStatusById parse id nd.jobStatusNotRunning
    changeStatusById parse id nd.jobStatusRunning
  else pure ()

def updateById (m : Job) : JobWork Unit := do
  let job ← .statement databaseFault (JobRepository.findById m.id)
  .statement databaseFault (JobRepository.updateById m)
  restartRunning parse job m.id

/-- The job of a new installation. -/
def defaultJob (uuid : String) : Job :=
  { id := uuid, name := "资产状态检测", func := nd.funcCheckAssetStatusJob, cron := "0 0/10 * * * ?"
    mode := nd.jobModeAll, status := nd.jobStatusRunning }

/-- `InitJob` with the jobs that `FindAll` has returned; its error is ignored. -/
def initJob (uuid : String) (jobs : List Job) : JobWork Unit :=
  if jobs = [] then .statement databaseFault (JobRepository.create (defaultJob uuid))
  else .each (fun j => changeStatusById parse j.id nd.jobStatusRunning)
    (jobs.filter fun j => j.status == nd.jobStatusRunning)

end JobService

namespace BackupService

/-- The outcome of a part of `Import` that writes other tables. -/
def outcome : Option Error → JobWork Unit
  | none => pure ()
  | some e => .fail e

/-- The body of `Import`: the tables before the jobs, the jobs with their new ids and references, the
tables after them. -/
def importBody (before : Option Error) (items : List Job) (after : Option Error) : JobWork Unit := do
  outcome before
  .each (JobService.create parse) items
  outcome after

def importJobs (before : Option Error) (items : List Job) (after : Option Error) : JobWork Unit :=
  .transaction databaseFault (importBody parse before items after)

end BackupService

end

/-! ## The system -/

/-- What happens to the jobs; each action comes with the number of statements that the database
serves. A start says also whether `FindAll` is served. -/
inductive JobAction
  | create (o : Job) (served : Option Nat)
  | update (m : Job) (served : Option Nat)
  | changeStatus (id status : String) (served : Option Nat)
  | delete (id : String) (served : Option Nat)
  | importJobs (before : Option Error) (items : List Job) (after : Option Error)
      (served : Option Nat)
  | start (found : Bool) (uuid : String) (served : Option Nat)

/-- The table and the scheduler. -/
structure JobState where
  jobs : JobTable := ∅
  cron : GlobalCron := {}

namespace JobState

section

variable (parse : String → Except Error Unit)

def run (s : JobState) (served : Option Nat) (x : JobWork Unit) : JobState :=
  let (_, w) := x ⟨s.jobs, s.cron, served⟩
  ⟨w.db, w.memory⟩

def act (s : JobState) : JobAction → JobState
  | .create o served => s.run served (JobService.create parse o)
  | .update m served => s.run served (JobService.updateById parse m)
  | .changeStatus id status served => s.run served (JobService.changeStatusById parse id status)
  | .delete id served => s.run served (JobService.deleteJobById parse id)
  | .importJobs before items after served =>
    s.run served (BackupService.importJobs parse before items after)
  | .start found uuid served =>
    { s with cron := {} }.run served
      (JobService.initJob parse uuid (if found then s.jobs.rows else []))

/-- Every action is enabled in every state. -/
def step (s : JobState) (a : JobAction) : Option JobState := some (s.act parse a)

/-- Every running job has one entry, the one whose number is stored, and there is no other entry. -/
structure Registered (s : JobState) : Prop where
  running : ∀ j ∈ s.jobs, j.status = nd.jobStatusRunning →
    ∃ e ∈ s.cron.entries, e.1 = j.cronJobId ∧ e.2.id = j.id ∧
      ∀ e' ∈ s.cron.entries, e'.2.id = j.id → e' = e
  entries : ∀ e ∈ s.cron.entries, ∃ j ∈ s.jobs, j.status = nd.jobStatusRunning ∧
    e.1 = j.cronJobId ∧ e.2.id = j.id

/-- A job that the scheduler takes. -/
def Schedulable (o : Job) : Prop :=
  (o.func = nd.funcCheckAssetStatusJob ∨ o.func = nd.funcShellJob) ∧ parse o.cron = .ok ()

/-- The import enters no job: it fails before the first running one that the scheduler takes. -/
def EntersNothing (s : JobState) (items : List Job) (served : Option Nat) : Prop :=
  ∀ pre o rest, items = pre ++ o :: rest → (∀ p ∈ pre, p.status ≠ nd.jobStatusRunning) →
    o.status = nd.jobStatusRunning → Schedulable parse o →
      ¬ Serves served pre.length ∨ ¬ (pre.map Job.id).Nodup ∨
        ∃ p ∈ pre, ∃ j ∈ s.jobs, j.id = p.id

/-- The import goes through. -/
def Commits (s : JobState) (items : List Job) (after : Option Error) (served : Option Nat) : Prop :=
  (∀ o ∈ items, o.status = nd.jobStatusRunning → Schedulable parse o) ∧
    (items.map Job.id).Nodup ∧ (∀ o ∈ items, ∀ j ∈ s.jobs, j.id ≠ o.id) ∧
    Serves served (items.length + 1) ∧ after = none

/-- The jobs that are stored as running. -/
def runningJobs (s : JobState) : List Job :=
  s.jobs.rows.filter fun j => j.status == nd.jobStatusRunning

/-- The condition under which an action keeps the scheduler and the table in step. -/
def Ok (s : JobState) : JobAction → Prop
  | .create o served =>
    o.status = nd.jobStatusRunning → Schedulable parse o →
      Serves served 1 ∧ ∀ j ∈ s.jobs, j.id ≠ o.id
  | .changeStatus id status served => ∀ job ∈ s.jobs, job.id = id → Serves served 1 →
    if status = nd.jobStatusRunning then
      Schedulable parse job → job.status ≠ nd.jobStatusRunning ∧ Serves served 2 ∧ id ≠ ""
    else if job.status = nd.jobStatusRunning then Serves served 2 ∧ id ≠ ""
    else ∀ e ∈ s.cron.entries, e.1 ≠ job.cronJobId
  | .delete id served => ∀ job ∈ s.jobs, job.id = id → job.status = nd.jobStatusRunning →
    Serves served 2 → Serves served 3 ∧ id ≠ ""
  | .update m served => ∀ job ∈ s.jobs, job.id = m.id → Serves served 2 → m.id ≠ "" →
    if job.status = nd.jobStatusRunning then
      (m.cronJobId = 0 ∨ m.cronJobId = job.cronJobId) ∧
        (Serves served 3 ∨ m.status = "" ∨ m.status = nd.jobStatusRunning) ∧
        (Serves served 3 → Serves served 4 ∨ m.status ≠ "" ∧ m.status ≠ nd.jobStatusRunning) ∧
        (Serves served 5 → Schedulable parse (JobRepository.assign m job) → Serves served 6)
    else m.status ≠ nd.jobStatusRunning
  | .importJobs before items after served =>
    before ≠ none ∨ s.EntersNothing parse items served ∨ s.Commits parse items after served
  | .start found uuid served =>
    if found = true ∧ s.jobs.rows ≠ [] then
      (∀ j ∈ s.runningJobs, Schedulable parse j ∧ j.id ≠ "") ∧
        Serves served (2 * s.runningJobs.length)
    else s.runningJobs = [] ∧ (¬ Serves served 1 ∨ ∃ j ∈ s.jobs, j.id = uuid)

end

end JobState

end Jobs

end NextDBM
