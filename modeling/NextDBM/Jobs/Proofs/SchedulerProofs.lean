import NextDBM.Jobs.Scheduler
import NextDBM.Library.Runs

/-!
# The entries of the running jobs

Of each statement and each change of the scheduler, what it does to the agreement of the entries with
the running jobs. Between the two changes of an operation the two agree but for its job.
-/

namespace NextDBM

open Relational Registry Transaction

namespace Jobs

variable {parse : String → Except Error Unit} {jobs jobs' : JobTable} {cron cron' : GlobalCron}
  {w w' : World JobTable GlobalCron} {ks : List String} {id status : String} {o job : Job}

/-! ## Agreement -/

/-- The running jobs and the numbers of their entries. -/
def runningHandles : Handles Job := ⟨fun j => j.status = nd.jobStatusRunning, Job.cronJobId⟩

/-- The entries are those of the running jobs other than `ks`. -/
abbrev InStep (ks : List String) (jobs : JobTable) (cron : GlobalCron) : Prop :=
  AgreesExcept runningHandles CronJob.id ks jobs cron

theorem JobState.registered_iff {s : JobState} : s.Registered ↔ InStep [] s.jobs s.cron := by
  have hagree : InStep [] s.jobs s.cron ↔ _ := agrees_iff
  constructor
  · exact fun h => hagree.mpr ⟨h.running, h.entries⟩
  · intro h
    obtain ⟨hrunning, hentries⟩ := hagree.mp h
    exact ⟨hrunning, hentries⟩

theorem sameBut_updateById (hid : o.id = id) : SameBut id jobs
    (jobs.updateById o.id (JobRepository.assign o) (JobRepository.assign_id o)) := by
  subst hid
  intro a ha
  constructor
  · intro hmem
    rcases Table.mem_updateById (JobRepository.assign_id o) hmem with hmem | ⟨b, -, hb, rfl⟩
    · exact hmem
    · exact absurd hb ha
  · exact fun hmem => Table.mem_updateById_of_ne hmem ha _ _

/-- The row of an updated job. -/
theorem mem_updateById_iff (hjob : job ∈ jobs) (hid : job.id = o.id) {a : Job} (ha : a.id = o.id) :
    a ∈ jobs.updateById o.id (JobRepository.assign o) (JobRepository.assign_id o) ↔
      a = JobRepository.assign o job := by
  constructor
  · intro hmem
    obtain ⟨b, hb, hbid, rfl⟩ :=
      Table.exists_of_mem_updateById (JobRepository.assign_id o) hmem ha
    rw [Table.eq_of_key hb hjob (hbid.trans hid.symm)]
  · rintro rfl
    exact List.mem_map.mpr ⟨job, hjob, if_pos hid⟩

/-- A job that is stored as not running is in step without an entry. -/
theorem InStep.stopped (h : InStep (id :: ks) jobs cron) (ho : o.id = id)
    (hstatus : o.status = nd.jobStatusNotRunning) :
    InStep ks (jobs.updateById o.id (JobRepository.assign o) (JobRepository.assign_id o)) cron := by
  refine (agreesExcept_cons_iff ?_).mp (h.of_sameBut (sameBut_updateById ho))
  intro a ha hid
  obtain ⟨b, -, -, rfl⟩ := Table.exists_of_mem_updateById (JobRepository.assign_id o) ha
    (hid.trans ho.symm)
  show nonZero o.status b.status ≠ nd.jobStatusRunning
  rw [hstatus, nonZero_of_ne (by decide)]
  decide

/-- A job that is stored as running with the number of its new entry is in step. -/
theorem InStep.started (h : InStep (job.id :: ks) jobs cron) (hjob : job ∈ jobs) (hid : job.id ∉ ks)
    (ho : o.id = job.id) (hstatus : o.status = nd.jobStatusRunning)
    (hhandle : o.cronJobId = cron.handle) {cmd : CronJob} (hcmd : cmd.id = job.id) :
    InStep ks (jobs.updateById o.id (JobRepository.assign o) (JobRepository.assign_id o))
      (cron.add cmd) := by
  have hmem : JobRepository.assign o job ∈
      jobs.updateById o.id (JobRepository.assign o) (JobRepository.assign_id o) :=
    (mem_updateById_iff (a := JobRepository.assign o job) hjob ho.symm ho.symm).mpr rfl
  have hagree : InStep (CronJob.id cmd :: ks)
      (jobs.updateById o.id (JobRepository.assign o) (JobRepository.assign_id o)) cron := by
    rw [hcmd]
    exact h.of_sameBut (sameBut_updateById ho)
  refine hagree.add (hcmd ▸ hid) hmem hcmd.symm ?_ ?_
  · show nonZero o.status job.status = nd.jobStatusRunning
    rw [hstatus]
    rfl
  · have hne : cron.handle ≠ 0 := by
      unfold Registry.handle
      omega
    show (if o.cronJobId = 0 then job.cronJobId else o.cronJobId) = cron.handle
    rw [hhandle, if_neg hne]

/-! ## The statements -/

theorem findById_cases (id : String) (w : World JobTable GlobalCron) :
    (∃ job ∈ w.db, job.id = id ∧ Serves w.served 1 ∧
      Work.statement databaseFault (JobRepository.findById id) w =
        (.ok job, { w with served := spend 1 w.served })) ∨
    ∃ e w', Work.statement databaseFault (JobRepository.findById id) w = (.error e, w') ∧
      w'.db = w.db ∧ w'.memory = w.memory ∧
      (¬ Serves w.served 1 ∨ ∀ job ∈ w.db, job.id ≠ id) := by
  rcases Work.statement_cases databaseFault (JobRepository.findById id) w with
    ⟨job, db, hserves, hf, hrun⟩ | ⟨e, w', hrun, hdb, hmemory, hwhy⟩
  · left
    unfold JobRepository.findById at hf
    cases hfind : w.db.findById id with
    | none =>
      rw [hfind] at hf
      cases hf
    | some row =>
      rw [hfind] at hf
      obtain ⟨rfl, rfl⟩ := Prod.mk.inj (Except.ok.inj hf)
      obtain ⟨hmem, hid⟩ := Table.findById_eq_some.mp hfind
      exact ⟨row, hmem, hid, hserves, hrun⟩
  · refine .inr ⟨e, w', hrun, hdb, hmemory, hwhy.imp_right fun hf => ?_⟩
    unfold JobRepository.findById at hf
    cases hfind : w.db.findById id with
    | none => exact Table.findById_eq_none.mp hfind
    | some row =>
      rw [hfind] at hf
      cases hf

theorem updateById_cases (o : Job) (w : World JobTable GlobalCron) :
    (Serves w.served 1 ∧ o.id ≠ "" ∧
      Work.statement databaseFault (JobRepository.updateById o) w =
        (.ok (), { w with
          db := w.db.updateById o.id (JobRepository.assign o) (JobRepository.assign_id o)
          served := spend 1 w.served })) ∨
    ∃ e w', Work.statement databaseFault (JobRepository.updateById o) w = (.error e, w') ∧
      w'.db = w.db ∧ w'.memory = w.memory ∧ (¬ Serves w.served 1 ∨ o.id = "") := by
  rcases Work.statement_cases databaseFault (JobRepository.updateById o) w with
    ⟨u, db, hserves, hf, hrun⟩ | ⟨e, w', hrun, hdb, hmemory, hwhy⟩
  · left
    unfold JobRepository.updateById at hf
    split at hf
    · cases hf
    · next hid =>
      obtain ⟨-, rfl⟩ := Prod.mk.inj (Except.ok.inj hf)
      exact ⟨hserves, hid, hrun⟩
  · refine .inr ⟨e, w', hrun, hdb, hmemory, hwhy.imp_right fun hf => ?_⟩
    unfold JobRepository.updateById at hf
    split at hf
    · next hid => exact hid
    · cases hf

theorem create_cases (o : Job) (w : World JobTable GlobalCron) :
    (∃ db, Serves w.served 1 ∧ w.db.insert o = some db ∧
      Work.statement databaseFault (JobRepository.create o) w =
        (.ok (), { w with db, served := spend 1 w.served })) ∨
    ∃ e w', Work.statement databaseFault (JobRepository.create o) w = (.error e, w') ∧
      w'.db = w.db ∧ w'.memory = w.memory ∧
      (¬ Serves w.served 1 ∨ ∃ j ∈ w.db, j.id = o.id) := by
  rcases Work.statement_cases databaseFault (JobRepository.create o) w with
    ⟨u, db, hserves, hf, hrun⟩ | ⟨e, w', hrun, hdb, hmemory, hwhy⟩
  · left
    unfold JobRepository.create at hf
    split at hf
    · next jobs hinsert =>
      obtain ⟨-, rfl⟩ := Prod.mk.inj (Except.ok.inj hf)
      exact ⟨jobs, hserves, hinsert, hrun⟩
    · cases hf
  · refine .inr ⟨e, w', hrun, hdb, hmemory, hwhy.imp_right fun hf => ?_⟩
    unfold JobRepository.create at hf
    split at hf
    · cases hf
    · next hinsert => exact Table.insert_eq_none.mp hinsert

/-- What an entry of a job runs. -/
def cronJobOf (j : Job) : CronJob := ⟨j.func, j.id, j.mode, j.resourceIds, j.metadata⟩

theorem enter_cases (parse : String → Except Error Unit) (j : Job) (w : World JobTable GlobalCron) :
    (JobState.Schedulable parse j ∧ JobService.enter parse j w =
      (.ok w.memory.handle, { w with memory := w.memory.add (cronJobOf j) })) ∨
    ¬ JobState.Schedulable parse j ∧ ∃ e, JobService.enter parse j w = (.error e, w) := by
  unfold JobService.enter JobState.Schedulable getJob
  by_cases hfunc : j.func = nd.funcCheckAssetStatusJob ∨ j.func = nd.funcShellJob
  · rw [if_pos hfunc]
    cases hparse : parse j.cron with
    | ok u =>
      refine .inl ⟨⟨hfunc, rfl⟩, ?_⟩
      show addJob parse j.cron (cronJobOf j) w = _
      unfold addJob
      rw [hparse]
    | error e =>
      refine .inr ⟨fun h => (by cases h.2), e, ?_⟩
      show addJob parse j.cron (cronJobOf j) w = _
      unfold addJob
      rw [hparse]
  · rw [if_neg hfunc]
    exact .inr ⟨fun h => hfunc h.1, _, rfl⟩

/-! ## The changes of a status -/

/-- The outcome of a start: the job cannot be entered and nothing changes, it is entered and stored as
running, or it is entered and the table does not tell. -/
theorem startJob_cases (parse : String → Except Error Unit) (id : String)
    (w : World JobTable GlobalCron) :
    (∃ e w', JobService.changeStatusById parse id nd.jobStatusRunning w = (.error e, w') ∧
      w'.db = w.db ∧ w'.memory = w.memory ∧ (¬ Serves w.served 1 ∨
        ∀ job ∈ w.db, job.id = id → ¬ JobState.Schedulable parse job)) ∨
    ∃ job ∈ w.db, job.id = id ∧ Serves w.served 1 ∧ JobState.Schedulable parse job ∧
      ((Serves w.served 2 ∧ id ≠ "" ∧
        ∃ o : Job, o.id = id ∧ o.status = nd.jobStatusRunning ∧ o.cronJobId = w.memory.handle ∧
          JobService.changeStatusById parse id nd.jobStatusRunning w =
            (.ok (), ⟨w.db.updateById o.id (JobRepository.assign o) (JobRepository.assign_id o),
              w.memory.add (cronJobOf job), spend 2 w.served⟩)) ∨
        ∃ e w', JobService.changeStatusById parse id nd.jobStatusRunning w = (.error e, w') ∧
          (¬ Serves w.served 2 ∨ id = "")) := by
  unfold JobService.changeStatusById
  rcases findById_cases id w with ⟨job, hjob, hid, hserves, hfind⟩ | ⟨e, w₁, hfind, hdb, hmem, hwhy⟩
  · rw [Work.bind_run_ok hfind, if_pos rfl]
    rcases enter_cases parse job { w with served := spend 1 w.served } with
      ⟨hsched, henter⟩ | ⟨hsched, e, henter⟩
    · refine .inr ⟨job, hjob, hid, hserves, hsched, ?_⟩
      rw [Work.bind_run_ok henter]
      rcases updateById_cases
        { id, status := nd.jobStatusRunning, cronJobId := w.memory.handle }
        ⟨w.db, w.memory.add (cronJobOf job), spend 1 w.served⟩ with
        ⟨hserves₁, hne, hupdate⟩ | ⟨e, w', hupdate, -, -, hwhy⟩
      · refine .inl ⟨serves_add.mpr ⟨hserves, hserves₁⟩, hne,
          { id, status := nd.jobStatusRunning, cronJobId := w.memory.handle }, rfl, rfl, rfl, ?_⟩
        rw [hupdate, spend_spend]
      · refine .inr ⟨e, w', hupdate, hwhy.imp_left fun hnot htwo => hnot ?_⟩
        exact (serves_add.mp htwo).2
    · refine .inl ⟨e, _, Work.bind_run_error henter, rfl, rfl, .inr fun j hj hjid => ?_⟩
      rw [Table.eq_of_key hj hjob (hjid.trans hid.symm)]
      exact hsched
  · refine .inl ⟨e, w₁, Work.bind_run_error hfind, hdb, hmem, hwhy.imp_right fun hnone => ?_⟩
    exact fun j hj hjid => absurd hjid (hnone j hj)

/-- The outcome of a stop: there is no job and nothing changes, or the entry with the stored number is
removed and the table tells or does not. -/
theorem stopJob_cases (parse : String → Except Error Unit) (id : String)
    (w : World JobTable GlobalCron) (hstatus : status ≠ nd.jobStatusRunning) :
    (∃ e w', JobService.changeStatusById parse id status w = (.error e, w') ∧
      w'.db = w.db ∧ w'.memory = w.memory ∧ (¬ Serves w.served 1 ∨ ∀ job ∈ w.db, job.id ≠ id)) ∨
    ∃ job ∈ w.db, job.id = id ∧ Serves w.served 1 ∧
      ((Serves w.served 2 ∧ id ≠ "" ∧
        ∃ o : Job, o.id = id ∧ o = { id, status := nd.jobStatusNotRunning } ∧
          JobService.changeStatusById parse id status w =
            (.ok (), ⟨w.db.updateById o.id (JobRepository.assign o) (JobRepository.assign_id o),
              w.memory.remove job.cronJobId, spend 2 w.served⟩)) ∨
        ∃ e w', JobService.changeStatusById parse id status w = (.error e, w') ∧
          w'.db = w.db ∧ w'.memory = w.memory.remove job.cronJobId ∧
          (¬ Serves w.served 2 ∨ id = "")) := by
  unfold JobService.changeStatusById
  rcases findById_cases id w with ⟨job, hjob, hid, hserves, hfind⟩ | ⟨e, w₁, hfind, hdb, hmem, hwhy⟩
  · refine .inr ⟨job, hjob, hid, hserves, ?_⟩
    rw [Work.bind_run_ok hfind, if_neg hstatus, Work.bind_run_ok (Work.touch_run _ _)]
    rcases updateById_cases { id, status := nd.jobStatusNotRunning }
      ⟨w.db, w.memory.remove job.cronJobId, spend 1 w.served⟩ with
      ⟨hserves₁, hne, hupdate⟩ | ⟨e, w', hupdate, hdb, hmem, hwhy⟩
    · refine .inl ⟨serves_add.mpr ⟨hserves, hserves₁⟩, hne, _, rfl, rfl, ?_⟩
      rw [hupdate, spend_spend]
    · refine .inr ⟨e, w', hupdate, hdb, hmem, hwhy.imp_left fun hnot htwo => hnot ?_⟩
      exact (serves_add.mp htwo).2
  · exact .inl ⟨e, w₁, Work.bind_run_error hfind, hdb, hmem, hwhy⟩

/-- A job that was in step without an entry has one after its start. -/
theorem InStep.startJob (h : InStep (id :: ks) w.db w.memory) (hid : id ∉ ks)
    (hrun : JobService.changeStatusById parse id nd.jobStatusRunning w = (.ok (), w')) :
    InStep ks w'.db w'.memory := by
  rcases startJob_cases parse id w with ⟨e, w₁, herror, -⟩ | ⟨job, hjob, rfl, -, -, hcases⟩
  · rw [hrun] at herror
    cases herror
  rcases hcases with ⟨-, -, o, ho, hstatus, hhandle, hok⟩ | ⟨e, w₁, herror, -⟩
  · rw [hrun] at hok
    obtain ⟨-, rfl⟩ := Prod.mk.inj hok
    exact h.started hjob hid ho hstatus hhandle rfl
  · rw [hrun] at herror
    cases herror

/-! ## The operations -/

/-- The scheduler and the table are in step after a piece of work. -/
abbrev LeavesInStep (x : JobWork Unit) (w : World JobTable GlobalCron) : Prop :=
  InStep [] (x w).2.db (x w).2.memory

theorem leavesInStep_of_eq {x : JobWork Unit} {r : Except Error Unit} (hrun : x w = (r, w'))
    (h : InStep [] w'.db w'.memory) : LeavesInStep x w := by
  unfold LeavesInStep
  rw [hrun]
  exact h

theorem leavesInStep_of_unchanged {x : JobWork Unit} {r : Except Error Unit} (hrun : x w = (r, w'))
    (hdb : w'.db = w.db) (hmem : w'.memory = w.memory) (h : InStep [] w.db w.memory) :
    LeavesInStep x w := by
  refine leavesInStep_of_eq hrun ?_
  rw [hdb, hmem]
  exact h

theorem changeStatus_running_keeps (h : InStep [] w.db w.memory)
    (hok : ∀ job ∈ w.db, job.id = id → Serves w.served 1 → JobState.Schedulable parse job →
      job.status ≠ nd.jobStatusRunning ∧ Serves w.served 2 ∧ id ≠ "") :
    LeavesInStep (JobService.changeStatusById parse id nd.jobStatusRunning) w := by
  rcases startJob_cases parse id w with ⟨e, w₁, hrun, hdb, hmem, -⟩ | ⟨job, hjob, hid, hone, hsched, hcases⟩
  · exact leavesInStep_of_unchanged hrun hdb hmem h
  obtain ⟨hidle, htwo, hne⟩ := hok job hjob hid hone hsched
  rcases hcases with ⟨-, -, o, -, -, -, hrun⟩ | ⟨e, w₁, -, hwhy⟩
  · have hexcept : InStep [id] w.db w.memory := by
      refine (agreesExcept_cons_iff fun j hj hjid => ?_).mpr h
      rw [Table.eq_of_key hj hjob (hjid.trans hid.symm)]
      exact hidle
    exact leavesInStep_of_eq hrun (hexcept.startJob List.not_mem_nil hrun)
  · rcases hwhy with hnot | hempty
    · exact absurd htwo hnot
    · exact absurd hempty hne

theorem changeStatus_stop_keeps (h : InStep [] w.db w.memory) (hstatus : status ≠ nd.jobStatusRunning)
    (hok : ∀ job ∈ w.db, job.id = id → Serves w.served 1 →
      if job.status = nd.jobStatusRunning then Serves w.served 2 ∧ id ≠ ""
      else ∀ e ∈ w.memory.entries, e.1 ≠ job.cronJobId) :
    LeavesInStep (JobService.changeStatusById parse id status) w := by
  rcases stopJob_cases parse id w hstatus with ⟨e, w₁, hrun, hdb, hmem, -⟩ | ⟨job, hjob, hid, hone, hcases⟩
  · exact leavesInStep_of_unchanged hrun hdb hmem h
  have hok := hok job hjob hid hone
  by_cases hactive : job.status = nd.jobStatusRunning
  · rw [if_pos hactive] at hok
    have hremoved : InStep [job.id] w.db (w.memory.remove job.cronJobId) :=
      AgreesExcept.remove h hjob List.not_mem_nil hactive
    rw [hid] at hremoved
    rcases hcases with ⟨-, -, o, ho, rfl, hrun⟩ | ⟨e, w₁, -, -, -, hwhy⟩
    · exact leavesInStep_of_eq hrun (hremoved.stopped ho rfl)
    · rcases hwhy with hnot | hempty
      · exact absurd hok.1 hnot
      · exact absurd hempty hok.2
  · rw [if_neg hactive] at hok
    have hremoved : InStep [] w.db (w.memory.remove job.cronJobId) := h.remove_of_none hok
    rcases hcases with ⟨-, -, o, ho, rfl, hrun⟩ | ⟨e, w₁, hrun, hdb, hmem, -⟩
    · refine leavesInStep_of_eq hrun (InStep.stopped ?_ ho rfl)
      refine (agreesExcept_cons_iff fun j hj hjid => ?_).mpr hremoved
      rw [Table.eq_of_key hj hjob (hjid.trans hid.symm)]
      exact hactive
    · refine leavesInStep_of_eq hrun ?_
      rw [hdb, hmem]
      exact hremoved

/-- A stop of a running job that goes through. -/
theorem InStep.stopJob (parse : String → Except Error Unit) (h : InStep [] w.db w.memory) (hjob : job ∈ w.db)
    (hactive : job.status = nd.jobStatusRunning) (hserves : Serves w.served 2) (hne : job.id ≠ "") :
    ∃ w', JobService.changeStatusById parse job.id nd.jobStatusNotRunning w = (.ok (), w') ∧
      InStep [] w'.db w'.memory ∧ w'.served = spend 2 w.served ∧
      w'.db = w.db.updateById job.id
        (JobRepository.assign { id := job.id, status := nd.jobStatusNotRunning })
        (JobRepository.assign_id _) := by
  rcases stopJob_cases parse job.id w
      (by decide : nd.jobStatusNotRunning ≠ nd.jobStatusRunning) with
    ⟨e, w₁, -, -, -, hwhy⟩ | ⟨job', hjob', hid, -, hcases⟩
  · rcases hwhy with hnot | hnone
    · exact absurd (hserves.mono (by omega)) hnot
    · exact absurd rfl (hnone job hjob)
  obtain rfl : job' = job := Table.eq_of_key hjob' hjob hid
  rcases hcases with ⟨-, -, o, ho, rfl, hrun⟩ | ⟨e, w₁, -, -, -, hwhy⟩
  · refine ⟨_, hrun, ?_, rfl, rfl⟩
    have hremoved : InStep [job'.id] w.db (w.memory.remove job'.cronJobId) :=
      AgreesExcept.remove h hjob List.not_mem_nil hactive
    exact hremoved.stopped ho rfl
  · rcases hwhy with hnot | hempty
    · exact absurd hserves hnot
    · exact absurd hempty hne

theorem sameBut_insert (h : jobs.insert o = some jobs') : SameBut o.id jobs jobs' := by
  intro a ha
  rw [Table.mem_of_insert h]
  constructor
  · rintro (rfl | hmem)
    · exact absurd rfl ha
    · exact hmem
  · exact .inr

/-- A new job that is not running is in step without an entry, and a running one with its own. -/
theorem InStep.inserted (h : InStep [] jobs cron) (hinsert : jobs.insert o = some jobs') :
    (o.status ≠ nd.jobStatusRunning → InStep [] jobs' cron) ∧
      (o.status = nd.jobStatusRunning → o.cronJobId = cron.handle →
        InStep [] jobs' (cron.add (cronJobOf o))) := by
  have hnew : ∀ a ∈ jobs, a.id = o.id → ¬ runningHandles.active a := by
    intro a ha hid
    rw [Table.insert_eq_none.mpr ⟨a, ha, hid⟩] at hinsert
    cases hinsert
  have hexcept : InStep [o.id] jobs' cron :=
    ((agreesExcept_cons_iff hnew).mpr h).of_sameBut (sameBut_insert hinsert)
  have hmem : ∀ a ∈ jobs', a.id = o.id → a = o := fun a ha hid =>
    Table.eq_of_key ha ((Table.mem_of_insert hinsert).mpr (.inl rfl)) hid
  refine ⟨fun hidle => ?_, fun hactive hhandle => ?_⟩
  · refine (agreesExcept_cons_iff fun a ha hid => ?_).mp hexcept
    rw [hmem a ha hid]
    exact hidle
  · exact AgreesExcept.add (c := cronJobOf o) hexcept List.not_mem_nil
      ((Table.mem_of_insert hinsert).mpr (.inl rfl)) rfl hactive hhandle

/-- The outcome of a creation: the job is stored, and entered if it is running; or nothing changes; or
it is entered and not stored. -/
theorem createJob_cases (parse : String → Except Error Unit) (o : Job)
    (w : World JobTable GlobalCron) :
    (∃ row db cron, row.id = o.id ∧ w.db.insert row = some db ∧ Serves w.served 1 ∧
      (o.status = nd.jobStatusRunning → JobState.Schedulable parse o) ∧
      JobService.create parse o w = (.ok (), ⟨db, cron, spend 1 w.served⟩) ∧
      (InStep [] w.db w.memory → InStep [] db cron) ∧
      (o.status ≠ nd.jobStatusRunning → cron = w.memory)) ∨
    (∃ e w', JobService.create parse o w = (.error e, w') ∧ w'.db = w.db ∧ w'.memory = w.memory ∧
      (o.status = nd.jobStatusRunning → ¬ JobState.Schedulable parse o) ∧
      (o.status ≠ nd.jobStatusRunning → ¬ Serves w.served 1 ∨ ∃ j ∈ w.db, j.id = o.id)) ∨
    (o.status = nd.jobStatusRunning ∧ JobState.Schedulable parse o ∧
      (¬ Serves w.served 1 ∨ ∃ j ∈ w.db, j.id = o.id) ∧
      ∃ e w', JobService.create parse o w = (.error e, w') ∧ w'.db = w.db) := by
  unfold JobService.create
  by_cases hactive : o.status = nd.jobStatusRunning
  · rw [if_pos hactive]
    rcases enter_cases parse o w with ⟨hsched, henter⟩ | ⟨hsched, e, henter⟩
    · rw [Work.bind_run_ok henter]
      rcases create_cases { o with cronJobId := w.memory.handle }
        { w with memory := w.memory.add (cronJobOf o) } with
        ⟨db, hserves, hinsert, hrun⟩ | ⟨e, w', hrun, hdb, -, hwhy⟩
      · left
        refine ⟨{ o with cronJobId := w.memory.handle }, db, w.memory.add (cronJobOf o), rfl, hinsert,
          hserves, fun _ => hsched, hrun, fun h => ?_, fun hidle => absurd hactive hidle⟩
        exact (h.inserted hinsert).2 hactive rfl
      · exact .inr (.inr ⟨hactive, hsched, hwhy, e, w', hrun, hdb⟩)
    · exact .inr (.inl ⟨e, w, Work.bind_run_error henter, rfl, rfl, fun _ => hsched,
        fun hidle => absurd hactive hidle⟩)
  · rw [if_neg hactive]
    rcases create_cases o w with ⟨db, hserves, hinsert, hrun⟩ | ⟨e, w', hrun, hdb, hmem, hwhy⟩
    · exact .inl ⟨o, db, w.memory, rfl, hinsert, hserves, fun h => absurd h hactive, hrun,
        fun h => (h.inserted hinsert).1 hactive, fun _ => rfl⟩
    · exact .inr (.inl ⟨e, w', hrun, hdb, hmem, fun h => absurd h hactive, fun _ => hwhy⟩)

theorem create_keeps (h : InStep [] w.db w.memory)
    (hok : o.status = nd.jobStatusRunning → JobState.Schedulable parse o →
      Serves w.served 1 ∧ ∀ j ∈ w.db, j.id ≠ o.id) :
    LeavesInStep (JobService.create parse o) w := by
  rcases createJob_cases parse o w with ⟨row, db, cron, -, -, -, -, hrun, hkeeps, -⟩ |
    ⟨e, w', hrun, hdb, hmem, -⟩ | ⟨hactive, hsched, hwhy, -⟩
  · exact leavesInStep_of_eq hrun (hkeeps h)
  · exact leavesInStep_of_unchanged hrun hdb hmem h
  · obtain ⟨hserves, hnew⟩ := hok hactive hsched
    rcases hwhy with hnot | ⟨j, hj, hid⟩
    · exact absurd hserves hnot
    · exact absurd hid (hnew j hj)

theorem delete_keeps (h : InStep [] w.db w.memory)
    (hok : ∀ job ∈ w.db, job.id = id → job.status = nd.jobStatusRunning → Serves w.served 2 →
      Serves w.served 3 ∧ id ≠ "") :
    LeavesInStep (JobService.deleteJobById parse id) w := by
  unfold LeavesInStep JobService.deleteJobById
  rcases findById_cases id w with ⟨job, hjob, rfl, hone, hfind⟩ | ⟨e, w₁, hfind, hdb, hmem, -⟩
  swap
  · exact leavesInStep_of_unchanged (Work.bind_run_error hfind) hdb hmem h
  rw [Work.bind_run_ok hfind]
  -- what is left of a job whose entry is gone
  have hdelete : ∀ w₁ : World JobTable GlobalCron, InStep [job.id] w₁.db w₁.memory →
      InStep [] w₁.db w₁.memory →
      LeavesInStep (Work.statement databaseFault (JobRepository.deleteJobById job.id)) w₁ := by
    intro w₁ hexcept hin
    rcases Work.statement_cases databaseFault (JobRepository.deleteJobById job.id) w₁ with
      ⟨u, db, -, hf, hrun⟩ | ⟨e, w₂, hrun, hdb, hmem, -⟩
    · obtain ⟨-, rfl⟩ := Prod.mk.inj (Except.ok.inj hf)
      refine leavesInStep_of_eq hrun ?_
      have hsame : SameBut job.id w₁.db (w₁.db.deleteWhere fun j => j.id == job.id) := by
        intro a ha
        rw [Table.mem_deleteWhere]
        exact and_iff_left (beq_false_of_ne ha)
      refine (agreesExcept_cons_iff fun a ha hid => ?_).mp (hexcept.of_sameBut hsame)
      have hne := (Table.mem_deleteWhere.mp ha).2
      rw [beq_eq_false_iff_ne] at hne
      exact absurd hid hne
    · exact leavesInStep_of_unchanged hrun hdb hmem hin
  unfold JobService.stopRunning
  by_cases hactive : job.status = nd.jobStatusRunning
  · rw [if_pos hactive]
    by_cases htwo : Serves w.served 2
    · obtain ⟨hthree, hne⟩ := hok job hjob rfl hactive htwo
      have hserves : Serves (spend 1 w.served) 2 := (serves_add (m := 1)).mp hthree |>.2
      obtain ⟨w', hrun, hin, -, hdb⟩ :=
        InStep.stopJob (w := { w with served := spend 1 w.served }) parse h hjob hactive hserves hne
      rw [Work.bind_run_ok hrun]
      refine hdelete w' ((agreesExcept_cons_iff fun a ha hid => ?_).mpr hin) hin
      rw [hdb] at ha
      rw [(mem_updateById_iff (o := { id := job.id, status := nd.jobStatusNotRunning }) hjob rfl
        hid).mp ha]
      show nonZero nd.jobStatusNotRunning job.status ≠ nd.jobStatusRunning
      rw [nonZero_of_ne (by decide)]
      decide
    · rcases stopJob_cases parse job.id { w with served := spend 1 w.served }
        (by decide : nd.jobStatusNotRunning ≠ nd.jobStatusRunning) with
        ⟨e, w₁, hrun, hdb, hmem, -⟩ | ⟨j, -, -, hserves, -⟩
      · exact leavesInStep_of_unchanged (Work.bind_run_error hrun) hdb hmem h
      · exact absurd ((serves_add (m := 1)).mpr ⟨hone, hserves⟩) htwo
  · rw [if_neg hactive]
    refine hdelete _ ((agreesExcept_cons_iff fun a ha hid => ?_).mpr h) h
    rw [Table.eq_of_key ha hjob hid]
    exact hactive

theorem assign_status (m job : Job) :
    (JobRepository.assign m job).status = nd.jobStatusRunning ↔
      if m.status = "" then job.status = nd.jobStatusRunning
      else m.status = nd.jobStatusRunning := by
  show (if m.status = "" then job.status else m.status) = _ ↔ _
  split <;> rfl

/-- An update that keeps the number of the entry of a running job. -/
theorem assign_cronJobId {m job : Job} (h : m.cronJobId = 0 ∨ m.cronJobId = job.cronJobId) :
    (JobRepository.assign m job).cronJobId = job.cronJobId := by
  show (if m.cronJobId = 0 then job.cronJobId else m.cronJobId) = job.cronJobId
  rcases h with h | h
  · rw [if_pos h]
  · split
    · rfl
    · exact h

/-- The condition on the update of a running job, in a world that still has to restart it. -/
structure RestartsWell (parse : String → Except Error Unit) (row : Job) (served : Option Nat) :
    Prop where
  found : ¬ Serves served 1 → row.status = nd.jobStatusRunning
  stopped : Serves served 1 → Serves served 2 ∨ row.status ≠ nd.jobStatusRunning
  started : Serves served 3 → JobState.Schedulable parse row → Serves served 4

/-- The restart of a job whose entry has the stored number. -/
theorem restart_keeps {row : Job} (hrow : row ∈ w.db) (hid : row.id = id) (hne : row.id ≠ "")
    (hexcept : InStep [row.id] w.db (w.memory.remove row.cronJobId))
    (hentry : row.status = nd.jobStatusRunning → InStep [] w.db w.memory)
    (hok : RestartsWell parse row w.served) (hactive : job.status = nd.jobStatusRunning) :
    LeavesInStep (JobService.restartRunning parse job id) w := by
  subst hid
  unfold LeavesInStep JobService.restartRunning
  rw [if_pos hactive]
  rcases stopJob_cases parse row.id w (by decide : nd.jobStatusNotRunning ≠ nd.jobStatusRunning) with
    ⟨e, w₁, hrun, hdb, hmem, hwhy⟩ | ⟨j, hj, hid, hone, hcases⟩
  · have hnot : ¬ Serves w.served 1 := by
      rcases hwhy with hnot | hnone
      · exact hnot
      · exact absurd rfl (hnone row hrow)
    exact leavesInStep_of_unchanged (Work.bind_run_error hrun) hdb hmem (hentry (hok.found hnot))
  obtain rfl : j = row := Table.eq_of_key hj hrow hid
  rcases hcases with ⟨htwo, -, o, ho, rfl, hrun⟩ | ⟨e, w₁, hrun, hdb, hmem, hwhy⟩
  · rw [Work.bind_run_ok hrun]
    have hstopped := hexcept.stopped ho rfl
    set w₁ : World JobTable GlobalCron := ⟨_, w.memory.remove j.cronJobId, spend 2 w.served⟩ with hw₁
    have hback : ∀ a ∈ w₁.db, a.id = j.id →
        a = JobRepository.assign { id := j.id, status := nd.jobStatusNotRunning } j := by
      intro a ha hid
      exact (mem_updateById_iff (o := { id := j.id, status := nd.jobStatusNotRunning }) hj rfl
        hid).mp ha
    refine changeStatus_running_keeps hstopped fun a ha hid hserves hsched => ?_
    rw [hback a ha hid] at hsched
    have hthree : Serves w.served 3 := (serves_add (m := 2)).mpr ⟨htwo, hserves⟩
    have hfour : Serves w.served (2 + 2) := hok.started hthree hsched
    refine ⟨?_, (serves_add.mp hfour).2, hne⟩
    rw [hback a ha hid]
    show nonZero nd.jobStatusNotRunning j.status ≠ nd.jobStatusRunning
    rw [nonZero_of_ne (by decide)]
    decide
  · refine leavesInStep_of_eq (Work.bind_run_error hrun) ?_
    have hidle : j.status ≠ nd.jobStatusRunning := by
      rcases hok.stopped hone with htwo | hidle
      · rcases hwhy with hnot | hempty
        · exact absurd htwo hnot
        · exact absurd hempty hne
      · exact hidle
    rw [hdb, hmem]
    refine (agreesExcept_cons_iff fun a ha hid => ?_).mp hexcept
    rw [Table.eq_of_key ha hj hid]
    exact hidle

theorem update_keeps {m : Job} (h : InStep [] w.db w.memory)
    (hok : ∀ job ∈ w.db, job.id = m.id → Serves w.served 2 → m.id ≠ "" →
      if job.status = nd.jobStatusRunning then
        (m.cronJobId = 0 ∨ m.cronJobId = job.cronJobId) ∧
          (Serves w.served 3 ∨ m.status = "" ∨ m.status = nd.jobStatusRunning) ∧
          (Serves w.served 3 → Serves w.served 4 ∨ m.status ≠ "" ∧ m.status ≠ nd.jobStatusRunning) ∧
          (Serves w.served 5 → JobState.Schedulable parse (JobRepository.assign m job) →
            Serves w.served 6)
      else m.status ≠ nd.jobStatusRunning) :
    LeavesInStep (JobService.updateById parse m) w := by
  unfold LeavesInStep JobService.updateById
  rcases findById_cases m.id w with ⟨job, hjob, hid, hone, hfind⟩ | ⟨e, w₁, hfind, hdb, hmem, -⟩
  swap
  · exact leavesInStep_of_unchanged (Work.bind_run_error hfind) hdb hmem h
  rw [Work.bind_run_ok hfind]
  rcases updateById_cases m { w with served := spend 1 w.served } with
    ⟨hserves, hne, hupdate⟩ | ⟨e, w₁, hupdate, hdb, hmem, -⟩
  swap
  · exact leavesInStep_of_unchanged (Work.bind_run_error hupdate) hdb hmem h
  rw [Work.bind_run_ok hupdate]
  have htwo : Serves w.served 2 := (serves_add (m := 1)).mpr ⟨hone, hserves⟩
  have hok := hok job hjob hid htwo hne
  have hsame : SameBut job.id w.db
      (w.db.updateById m.id (JobRepository.assign m) (JobRepository.assign_id m)) :=
    sameBut_updateById hid.symm
  have hrow : JobRepository.assign m job ∈
      w.db.updateById m.id (JobRepository.assign m) (JobRepository.assign_id m) :=
    (mem_updateById_iff (a := JobRepository.assign m job) hjob hid hid).mpr rfl
  have honly : ∀ a ∈ w.db.updateById m.id (JobRepository.assign m) (JobRepository.assign_id m),
      a.id = job.id → a = JobRepository.assign m job := fun a ha haid =>
    (mem_updateById_iff hjob hid (haid.trans hid)).mp ha
  by_cases hactive : job.status = nd.jobStatusRunning
  · rw [if_pos hactive] at hok
    obtain ⟨hnumber, hfound, hstopped, hstarted⟩ := hok
    have hentry := assign_cronJobId hnumber
    have hexcept : InStep [job.id]
        (w.db.updateById m.id (JobRepository.assign m) (JobRepository.assign_id m))
        (w.memory.remove (JobRepository.assign m job).cronJobId) := by
      rw [hentry]
      exact (AgreesExcept.remove h hjob List.not_mem_nil hactive).of_sameBut hsame
    have hwell : RestartsWell parse (JobRepository.assign m job) (spend 1 (spend 1 w.served)) := by
      have hspend : ∀ n, Serves (spend 1 (spend 1 w.served)) n ↔ Serves w.served (2 + n) := by
        intro n
        rw [spend_spend, serves_add (m := 2)]
        exact (and_iff_right htwo).symm
      refine ⟨fun hnot => ?_, fun hthree => ?_, fun hfive hsched => ?_⟩
      · rw [hspend] at hnot
        rw [assign_status]
        rcases hfound with hthree | hempty | hrunning
        · exact absurd hthree hnot
        · rw [if_pos hempty]
          exact hactive
        · rw [if_neg (by rw [hrunning]; decide)]
          exact hrunning
      · rw [hspend] at hthree ⊢
        rcases hstopped hthree with hfour | ⟨hfull, hidle⟩
        · exact .inl hfour
        · right
          rw [ne_eq, assign_status, if_neg hfull]
          exact hidle
      · rw [hspend] at hfive ⊢
        exact hstarted hfive hsched
    refine restart_keeps hrow hid (fun hempty => hne (hid.symm.trans hempty)) hexcept
      (fun hrunning => ?_) hwell hactive
    -- the entry of the job stays that of its row
    intro x y
    rw [h x y]
    refine and_congr_right fun _ => ⟨?_, ?_⟩
    · rintro ⟨a, ha, rfl, haactive, rfl⟩
      by_cases haid : a.id = job.id
      · rw [Table.eq_of_key ha hjob haid]
        exact ⟨JobRepository.assign m job, hrow, rfl, hrunning, hentry⟩
      · exact ⟨a, (hsame a haid).mpr ha, rfl, haactive, rfl⟩
    · rintro ⟨a, ha, rfl, haactive, rfl⟩
      by_cases haid : a.id = job.id
      · rw [honly a ha haid]
        exact ⟨job, hjob, rfl, hactive, hentry.symm⟩
      · exact ⟨a, (hsame a haid).mp ha, rfl, haactive, rfl⟩
  · rw [if_neg hactive] at hok
    unfold JobService.restartRunning
    rw [if_neg hactive]
    have hexcept : InStep [job.id]
        (w.db.updateById m.id (JobRepository.assign m) (JobRepository.assign_id m)) w.memory := by
      refine AgreesExcept.of_sameBut ((agreesExcept_cons_iff fun a ha haid => ?_).mpr h) hsame
      rw [Table.eq_of_key ha hjob haid]
      exact hactive
    refine (agreesExcept_cons_iff fun a ha haid => ?_).mp hexcept
    rw [honly a ha haid]
    show ¬ (JobRepository.assign m job).status = nd.jobStatusRunning
    rw [assign_status]
    split
    · exact hactive
    · exact hok

/-! ## The import -/

section Import

variable {items : List Job} {before after : Option Error}

theorem each_create_cons (parse : String → Except Error Unit) (o : Job) (items : List Job)
    (w : World JobTable GlobalCron) : Work.each (JobService.create parse) (o :: items) w =
      (JobService.create parse o >>= fun _ => Work.each (JobService.create parse) items) w := rfl

/-- Jobs that are all created are in step. -/
theorem each_create_ok (h : InStep [] w.db w.memory)
    (hrun : Work.each (JobService.create parse) items w = (.ok (), w')) :
    InStep [] w'.db w'.memory := by
  refine Work.each_ok_keeps (I := fun w => InStep [] w.db w.memory)
    (fun o _ w w₁ hw hcreate => ?_) h hrun
  rcases createJob_cases parse o w with ⟨row, db, cron, -, -, -, -, hok, hkeeps, -⟩ |
    ⟨e, w₂, herror, -⟩ | ⟨-, -, -, e, w₂, herror, -⟩
  · rw [hcreate] at hok
    obtain ⟨-, rfl⟩ := Prod.mk.inj hok
    exact hkeeps hw
  · rw [hcreate] at herror
    cases herror
  · rw [hcreate] at herror
    cases herror

/-- Jobs that can all be created are, with a statement each. -/
theorem each_create_commits
    (hsched : ∀ o ∈ items, o.status = nd.jobStatusRunning → JobState.Schedulable parse o)
    (hnodup : (items.map Job.id).Nodup) (hnew : ∀ o ∈ items, ∀ j ∈ w.db, j.id ≠ o.id)
    (hserves : Serves w.served items.length) :
    ∃ w', Work.each (JobService.create parse) items w = (.ok (), w') ∧
      w'.served = spend items.length w.served := by
  induction items generalizing w with
  | nil =>
    refine ⟨w, rfl, ?_⟩
    cases w.served <;> rfl
  | cons o items ih =>
    obtain ⟨ho, hnodup⟩ := List.nodup_cons.mp hnodup
    rw [List.length_cons, Nat.add_comm] at hserves
    obtain ⟨hone, hrest⟩ := serves_add.mp hserves
    rcases createJob_cases parse o w with ⟨row, db, cron, hid, hinsert, -, -, hok, -⟩ |
      ⟨e, w₁, -, -, -, hactive, hidle⟩ | ⟨-, -, hwhy, -⟩
    · rw [each_create_cons, Work.bind_run_ok hok]
      have hnew' : ∀ o' ∈ items, ∀ j ∈ db, j.id ≠ o'.id := by
        intro o' ho' j hj
        rcases (Table.mem_of_insert hinsert).mp hj with rfl | hj
        · rw [hid]
          exact fun heq => ho (heq ▸ List.mem_map_of_mem ho')
        · exact hnew o' (List.mem_cons_of_mem o ho') j hj
      obtain ⟨w', hrun, hserved⟩ := ih (w := ⟨db, cron, spend 1 w.served⟩)
        (fun o' ho' => hsched o' (List.mem_cons_of_mem o ho')) hnodup hnew' hrest
      refine ⟨w', hrun, ?_⟩
      rw [hserved, spend_spend, List.length_cons, Nat.add_comm]
    · exfalso
      by_cases hrunning : o.status = nd.jobStatusRunning
      · exact hactive hrunning (hsched o List.mem_cons_self hrunning)
      · rcases hidle hrunning with hnot | ⟨j, hj, hjid⟩
        · exact hnot hone
        · exact hnew o List.mem_cons_self j hj hjid
    · rcases hwhy with hnot | ⟨j, hj, hjid⟩
      · exact absurd hone hnot
      · exact absurd hjid (hnew o List.mem_cons_self j hj)

/-- An import that enters no job leaves the scheduler alone. -/
theorem each_create_memory
    (h : JobState.EntersNothing parse ⟨w.db, w.memory⟩ items w.served) :
    (Work.each (JobService.create parse) items w).2.memory = w.memory := by
  induction items generalizing w with
  | nil => rfl
  | cons o items ih =>
    rw [each_create_cons]
    by_cases hactive : o.status = nd.jobStatusRunning
    · -- the first running job is one that the scheduler refuses
      have hrefused : ¬ JobState.Schedulable parse o := by
        intro hsched
        rcases h [] o items rfl (fun p hp => absurd hp List.not_mem_nil) hactive hsched with
          hnot | hnot | ⟨p, hp, -⟩
        · exact hnot (serves_zero _)
        · exact hnot List.nodup_nil
        · exact absurd hp List.not_mem_nil
      rcases createJob_cases parse o w with ⟨row, db, cron, -, -, -, hsched, -⟩ |
        ⟨e, w₁, hrun, -, hmem, -⟩ | ⟨-, hsched, -⟩
      · exact absurd (hsched hactive) hrefused
      · rw [Work.bind_run_error hrun]
        exact hmem
      · exact absurd hsched hrefused
    · rcases createJob_cases parse o w with ⟨row, db, cron, hid, hinsert, hone, -, hrun, -, hmem⟩ |
        ⟨e, w₁, hrun, -, hmem, -⟩ | ⟨hrunning, -⟩
      · obtain rfl := hmem hactive
        rw [Work.bind_run_ok hrun]
        refine ih (w := ⟨db, w.memory, spend 1 w.served⟩) fun pre o' rest heq hpre ho' hsched => ?_
        subst heq
        have hpre' : ∀ p ∈ o :: pre, p.status ≠ nd.jobStatusRunning := by
          intro p hp
          rcases List.mem_cons.mp hp with rfl | hp
          · exact hactive
          · exact hpre p hp
        have hrow : row ∈ db := (Table.mem_of_insert hinsert).mpr (.inl rfl)
        rcases h (o :: pre) o' rest rfl hpre' ho' hsched with hnot | hdup | ⟨p, hp, j, hj, hjid⟩
        · refine .inl fun hserves => hnot ?_
          rw [List.length_cons, Nat.add_comm]
          exact serves_add.mpr ⟨hone, hserves⟩
        · rw [List.map_cons, List.nodup_cons, not_and_or, not_not] at hdup
          rcases hdup with hmem | hdup
          · obtain ⟨p, hp, hpid⟩ := List.mem_map.mp hmem
            exact .inr (.inr ⟨p, hp, row, hrow, hid.trans hpid.symm⟩)
          · exact .inr (.inl hdup)
        · rcases List.mem_cons.mp hp with rfl | hp
          · have htaken : w.db.insert row = none :=
              Table.insert_eq_none.mpr ⟨j, hj, hjid.trans hid.symm⟩
            rw [htaken] at hinsert
            cases hinsert
          · exact .inr (.inr ⟨p, hp, j, (Table.mem_of_insert hinsert).mpr (.inr hj), hjid⟩)
      · rw [Work.bind_run_error hrun]
        exact hmem
      · exact absurd hrunning hactive

theorem outcome_run (r : Option Error) (w : World JobTable GlobalCron) :
    (BackupService.outcome r w).2 = w := by
  cases r <;> rfl

theorem importBody_memory (parse : String → Except Error Unit) (before after : Option Error)
    (items : List Job) (w : World JobTable GlobalCron) :
    (BackupService.importBody parse before items after w).2.memory =
    w.memory ∨ before = none ∧ (BackupService.importBody parse before items after w).2.memory =
      (Work.each (JobService.create parse) items w).2.memory := by
  unfold BackupService.importBody
  cases before with
  | some e => exact .inl rfl
  | none =>
    refine .inr ⟨rfl, ?_⟩
    rw [Work.bind_run_ok (show BackupService.outcome none w = (.ok (), w) from rfl)]
    rcases heach : Work.each (JobService.create parse) items w with ⟨r, w₁⟩
    cases r with
    | error e => rw [Work.bind_run_error heach]
    | ok u => rw [Work.bind_run_ok heach, outcome_run]

theorem importBody_ok (h : InStep [] w.db w.memory)
    (hrun : BackupService.importBody parse before items after w = (.ok (), w')) :
    InStep [] w'.db w'.memory := by
  obtain ⟨_, w₁, hbefore, hbody⟩ := Work.bind_ok.mp hrun
  obtain ⟨_, w₂, heach, hafter⟩ := Work.bind_ok.mp hbody
  have hw₁ := outcome_run before w
  have hw₂ := outcome_run after w₂
  rw [hbefore] at hw₁
  rw [hafter] at hw₂
  obtain rfl : w₁ = w := hw₁
  obtain rfl : w' = w₂ := hw₂
  exact each_create_ok h heach

theorem import_keeps (h : InStep [] w.db w.memory)
    (hok : before ≠ none ∨ JobState.EntersNothing parse ⟨w.db, w.memory⟩ items w.served ∨
      JobState.Commits parse ⟨w.db, w.memory⟩ items after w.served) :
    LeavesInStep (BackupService.importJobs parse before items after) w := by
  rcases hrun : BackupService.importJobs parse before items after w with ⟨r, w'⟩
  refine leavesInStep_of_eq hrun ?_
  cases r with
  | ok u =>
    obtain ⟨w₁, hbody, -, rfl⟩ := Work.transaction_eq_ok.mp hrun
    have hin := importBody_ok h hbody
    exact hin
  | error e =>
    have hmem : w'.memory = w.memory := by
      have hkeep : (BackupService.importJobs parse before items after w).2.memory =
          (BackupService.importBody parse before items after w).2.memory := Work.transaction_memory w
      rw [hrun] at hkeep
      rw [show w'.memory = _ from hkeep]
      rcases importBody_memory parse before after items w with hsame | ⟨rfl, hsame⟩
      · exact hsame
      rw [hsame]
      rcases hok with hnone | hnothing | ⟨hsched, hnodup, hnew, hserves, rfl⟩
      · exact absurd rfl hnone
      · exact each_create_memory hnothing
      · -- the import would go through
        obtain ⟨hall, hone⟩ := serves_add.mp hserves
        obtain ⟨w₁, heach, hserved⟩ := each_create_commits hsched hnodup hnew hall
        have hbody : BackupService.importBody parse none items none w = (.ok (), w₁) := by
          unfold BackupService.importBody
          rw [Work.bind_run_ok (show BackupService.outcome none w = (.ok (), w) from rfl),
            Work.bind_run_ok heach]
          rfl
        have hcommit : BackupService.importJobs parse none items none w =
            (.ok (), { w₁ with served := spend 1 w₁.served }) :=
          Work.transaction_eq_ok.mpr ⟨w₁, hbody, by rw [hserved]; exact hone, rfl⟩
        rw [hrun] at hcommit
        cases hcommit
    rw [Work.transaction_error hrun, hmem]
    exact h

end Import

/-! ## The start -/

/-- In an empty scheduler everything is in step but the running jobs. -/
theorem inStep_empty (s : JobState) : InStep (s.runningJobs.map Job.id) s.jobs {} := by
  intro x y
  constructor
  · rintro ⟨e, he, -⟩
    exact absurd he List.not_mem_nil
  · rintro ⟨hy, j, hj, rfl, hactive, -⟩
    have hactive : j.status = nd.jobStatusRunning := hactive
    have hmem : j ∈ s.runningJobs := List.mem_filter.mpr ⟨hj, beq_iff_eq.mpr hactive⟩
    exact absurd (List.mem_map_of_mem hmem) hy

/-- The loop of a start over jobs that are out of step. -/
theorem startAll_keeps {todo : List Job} (hnodup : (todo.map Job.id).Nodup)
    (hrows : ∀ j ∈ todo, j ∈ w.db ∧ JobState.Schedulable parse j ∧ j.id ≠ "")
    (h : InStep (todo.map Job.id) w.db w.memory) (hserves : Serves w.served (2 * todo.length)) :
    LeavesInStep
      (.each (fun j => JobService.changeStatusById parse j.id nd.jobStatusRunning) todo) w := by
  induction todo generalizing w with
  | nil => exact h
  | cons j todo ih =>
    obtain ⟨hj, hnodup⟩ := List.nodup_cons.mp hnodup
    obtain ⟨hmem, hsched, hne⟩ := hrows j List.mem_cons_self
    rw [List.length_cons, Nat.mul_add, Nat.mul_one, Nat.add_comm] at hserves
    obtain ⟨htwo, hrest⟩ := serves_add.mp hserves
    rcases startJob_cases parse j.id w with ⟨e, w₁, -, -, -, hwhy⟩ | ⟨row, hrow, hid, -, -, hcases⟩
    · rcases hwhy with hnot | hnone
      · exact absurd (htwo.mono (by omega)) hnot
      · exact absurd hsched (hnone j hmem rfl)
    rcases hcases with ⟨-, -, o, ho, -, -, hrun⟩ | ⟨e, w₁, -, hwhy⟩
    · have hstart := InStep.startJob h hj hrun
      have hrest' : ∀ j' ∈ todo, j' ∈ w.db.updateById o.id (JobRepository.assign o)
          (JobRepository.assign_id o) ∧ JobState.Schedulable parse j' ∧ j'.id ≠ "" := by
        intro j' hj'
        obtain ⟨hmem', hsched'⟩ := hrows j' (List.mem_cons_of_mem j hj')
        have hother : j'.id ≠ o.id := by
          rw [ho]
          exact fun heq => hj (heq ▸ List.mem_map_of_mem hj')
        exact ⟨Table.mem_updateById_of_ne hmem' hother _ _, hsched'⟩
      have hstep := ih (w := ⟨_, w.memory.add (cronJobOf row), spend 2 w.served⟩) hnodup hrest' hstart
        hrest
      unfold LeavesInStep at hstep ⊢
      rw [show Work.each (fun j => JobService.changeStatusById parse j.id nd.jobStatusRunning)
        (j :: todo) w = _ from Work.bind_run_ok hrun]
      exact hstep
    · rcases hwhy with hnot | hempty
      · exact absurd htwo hnot
      · exact absurd hempty hne

theorem initJob_keeps {s : JobState} {found : Bool} {uuid : String} {served : Option Nat}
    (hok : JobState.Ok parse s (.start found uuid served)) :
    LeavesInStep (JobService.initJob parse uuid (if found then s.jobs.rows else []))
      ⟨s.jobs, {}, served⟩ := by
  change ite _ _ _ at hok
  have hstart := inStep_empty s
  by_cases hsome : found = true ∧ s.jobs.rows ≠ []
  · obtain ⟨rfl, hne⟩ := hsome
    rw [if_pos ⟨rfl, hne⟩] at hok
    unfold JobService.initJob
    rw [if_pos rfl, if_neg hne]
    have hnodup : (s.runningJobs.map Job.id).Nodup :=
      s.jobs.nodup.sublist (List.filter_sublist.map Job.id)
    exact startAll_keeps hnodup (fun j hj => ⟨List.mem_of_mem_filter hj, hok.1 j hj⟩) hstart hok.2
  · rw [if_neg hsome] at hok
    obtain ⟨hnone, hfails⟩ := hok
    have hempty : (if found then s.jobs.rows else []) = [] := by
      split
      · next hfound => exact not_not.mp fun hne => hsome ⟨hfound, hne⟩
      · rfl
    unfold JobService.initJob
    rw [hempty, if_pos rfl]
    rw [hnone] at hstart
    rcases create_cases (JobService.defaultJob uuid) ⟨s.jobs, {}, served⟩ with
      ⟨db, hserves, hinsert, -⟩ | ⟨e, w', hrun, hdb, hmem, -⟩
    · rcases hfails with hnot | ⟨j, hj, hid⟩
      · exact absurd hserves hnot
      · have htaken : s.jobs.insert (JobService.defaultJob uuid) = none :=
          Table.insert_eq_none.mpr ⟨j, hj, hid⟩
        rw [htaken] at hinsert
        cases hinsert
    · exact leavesInStep_of_unchanged hrun hdb hmem hstart

/-! ## Every run -/

namespace JobState

variable {s s' : JobState}

theorem inStep_act (h : InStep [] s.jobs s.cron) {a : JobAction} (hok : s.Ok parse a) :
    InStep [] (s.act parse a).jobs (s.act parse a).cron := by
  cases a with
  | create o served => exact create_keeps (w := ⟨s.jobs, s.cron, served⟩) h hok
  | update m served => exact update_keeps (w := ⟨s.jobs, s.cron, served⟩) h hok
  | changeStatus id status served =>
    by_cases hstatus : status = nd.jobStatusRunning
    · subst hstatus
      exact changeStatus_running_keeps (w := ⟨s.jobs, s.cron, served⟩) h fun job hjob hid hone =>
        (by simpa using hok job hjob hid hone)
    · refine changeStatus_stop_keeps (w := ⟨s.jobs, s.cron, served⟩) h hstatus
        fun job hjob hid hone => ?_
      have hcond := hok job hjob hid hone
      rw [if_neg hstatus] at hcond
      exact hcond
  | delete id served => exact delete_keeps (w := ⟨s.jobs, s.cron, served⟩) h hok
  | importJobs before items after served =>
    exact import_keeps (w := ⟨s.jobs, s.cron, served⟩) h hok
  | start found uuid served => exact initJob_keeps hok

/-- In a run whose actions meet the condition every running job has one entry, the one whose number is
stored, and no other entry belongs to a job. -/
theorem registered_of_reaches (h : Transition.Reaches (JobState.step parse) (Ok parse) s s')
    (hs : s.Registered) : s'.Registered := by
  refine h.invariant (fun s a t hs hok hstep => ?_) hs
  obtain rfl := Option.some.inj hstep
  exact registered_iff.mpr (inStep_act (registered_iff.mp hs) hok)

/-- A shell job that runs every night. -/
def nightly (id : String) : Job :=
  { id, func := nd.funcShellJob, cron := "0 0 1 * * ?", status := nd.jobStatusRunning }

/-- A job is created, stopped and started, another one is imported, and the server starts anew. -/
def dailyRun : List JobAction :=
  [.create (nightly "j1") none, .changeStatus "j1" nd.jobStatusNotRunning none,
    .changeStatus "j1" nd.jobStatusRunning none, .importJobs none [nightly "j2"] none (some 2),
    .start true "j3" none]

theorem registered_dailyRun : ∃ s, Transition.exec (JobState.step fun _ => .ok ()) {} dailyRun = some s ∧
    s.cron.entries.map (fun e => (e.1, e.2.id)) = [(2, "j1"), (1, "j2")] ∧ s.Registered := by
  obtain ⟨s, hrun, hentries⟩ : ∃ s,
      Transition.exec (JobState.step fun _ => .ok ()) {} dailyRun = some s ∧
        s.cron.entries.map (fun e => (e.1, e.2.id)) = [(2, "j1"), (1, "j2")] :=
    ⟨_, rfl, by decide⟩
  have hok : Transition.AllOk (JobState.step fun _ => .ok ()) (Ok fun _ => .ok ()) {} dailyRun := by
    refine ⟨fun _ _ => ⟨serves_none 1, fun j hj => absurd hj List.not_mem_nil⟩, fun s₁ h₁ => ?_⟩
    obtain rfl := Option.some.inj h₁
    refine ⟨fun job hjob _ _ => ?_, fun s₂ h₂ => ?_⟩
    · obtain rfl := List.mem_singleton.mp hjob
      exact ⟨serves_none 2, by decide⟩
    obtain rfl := Option.some.inj h₂
    refine ⟨fun job hjob _ _ _ => ?_, fun s₃ h₃ => ?_⟩
    · obtain rfl := List.mem_singleton.mp hjob
      exact ⟨by decide, serves_none 2, by decide⟩
    obtain rfl := Option.some.inj h₃
    refine ⟨.inr (.inr ⟨fun o ho _ => ?_, by decide, by decide, by decide, rfl⟩),
      fun s₄ h₄ => ?_⟩
    · obtain rfl := List.mem_singleton.mp ho
      exact ⟨.inr rfl, rfl⟩
    obtain rfl := Option.some.inj h₄
    refine ⟨⟨fun j hj => ?_, serves_none _⟩, fun s₅ _ => trivial⟩
    have hnightly : j.func = nd.funcShellJob ∧ j.id ≠ "" := by
      revert j
      decide
    exact ⟨⟨.inr hnightly.1, rfl⟩, hnightly.2⟩
  refine ⟨s, hrun, hentries, registered_of_reaches (Transition.reaches_of_exec hrun hok) ?_⟩
  exact ⟨fun j hj => absurd hj List.not_mem_nil, fun e he => absurd he List.not_mem_nil⟩

/-- A running job is started once more, and its first entry stays. -/
def startedTwice : List JobAction :=
  [.create (nightly "j1") none, .changeStatus "j1" nd.jobStatusRunning none]

theorem not_registered_startedTwice : ∃ s,
    Transition.Reaches (JobState.step fun _ => .ok ()) Transition.Any {} s ∧ ¬ s.Registered := by
  obtain ⟨s, hrun, hentries⟩ : ∃ s,
      Transition.exec (JobState.step fun _ => .ok ()) {} startedTwice = some s ∧
        s.jobs.rows.map Job.cronJobId = [2] ∧
          s.cron.entries.map (fun e => (e.1, e.2.id)) = [(2, "j1"), (1, "j1")] :=
    ⟨_, rfl, by decide⟩
  refine ⟨s, Transition.reaches_of_exec hrun (Transition.allOk_any _ _), fun h => ?_⟩
  obtain ⟨hids, hentries⟩ := hentries
  obtain ⟨e, he, heq⟩ := List.mem_map.mp (hentries ▸ List.mem_cons_of_mem _ List.mem_cons_self :
    ((1 : Int), "j1") ∈ s.cron.entries.map fun e => (e.1, e.2.id))
  obtain ⟨j, hj, -, hid, -⟩ := h.entries e he
  have hid' : j.cronJobId ∈ s.jobs.rows.map Job.cronJobId := List.mem_map_of_mem hj
  rw [hids, List.mem_singleton, ← hid, show e.1 = 1 from congrArg Prod.fst heq] at hid'
  exact absurd hid' (by decide)

end JobState

end Jobs

end NextDBM
