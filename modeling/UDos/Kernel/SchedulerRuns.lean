import UDos.Library.Runs
import UDos.Kernel.Scheduler

/-!
# Creating and scheduling

Jobs, tasks and threads are created while `KeSchedule` runs, which service code
50 lets any program call. The cursors stay in range of their tables in every
run. A table can still be empty: a new job has no task, a new task no thread.
-/

namespace Scheduler

open Rotation

/-- The record that `KeCreateJob` clears has an empty table of tasks. -/
def keCreateJob (g : GScheduler) (allocated : Bool) : Outcome GScheduler := do
  Outcome.check (allocated = true) "Out of memory"
  .ok { g with jobs := g.jobs ++ [⟨[], 0⟩] }

def SchedulerJob.addTask (job : SchedulerJob) : SchedulerJob :=
  { job with tasks := job.tasks ++ [⟨0, 0⟩] }

def SchedulerTask.addThread (task : SchedulerTask) : SchedulerTask :=
  { task with nThreads := task.nThreads + 1 }

def SchedulerJob.addThread (job : SchedulerJob) (t : Nat) : SchedulerJob :=
  { job with tasks := job.tasks.modify t SchedulerTask.addThread }

/-- The job pointer is the place of the record in the table. A place past its
end stands for a pointer to a record of a table that has been replaced since:
what is added there is added to no job of `g_scheduler`. -/
def keCreateTask (g : GScheduler) (job : Nat) (allocated : Bool) : Outcome GScheduler := do
  Outcome.check (allocated = true) "Out of memory"
  .ok { g with jobs := g.jobs.modify job SchedulerJob.addTask }

/-- The thread goes to the task; the job pointer is only tested. -/
def keCreateThread (g : GScheduler) (job task : Nat) (allocated : Bool) :
    Outcome GScheduler := do
  Outcome.check (allocated = true) "Out of memory"
  .ok { g with jobs := g.jobs.modify job fun record => record.addThread task }

/-- The calls that use `g_scheduler`; `allocated` says whether the allocations
of a creation succeed. A task is given by the place of its job and its own. -/
inductive Call where
  | createJob (allocated : Bool)
  | createTask (job : Nat) (allocated : Bool)
  | createThread (job task : Nat) (allocated : Bool)
  | schedule
deriving DecidableEq, Repr

def step (debug : Bool) (g : GScheduler) : Call → Outcome GScheduler
  | .createJob allocated => keCreateJob g allocated
  | .createTask job allocated => keCreateTask g job allocated
  | .createThread job task allocated => keCreateThread g job task allocated
  | .schedule => keSchedule debug g >>= fun r => .ok r.2

/-- `g_scheduler` as it is initialised. -/
def noJobs : GScheduler := ⟨[], 0⟩

/-- The job that the cursor selects has a task, and the task that the cursor of
this job selects has a thread. -/
def SelectsThread (g : GScheduler) : Prop :=
  ∃ job task, Picked g job task ∧ 0 < task.nThreads

def HasThread (g : GScheduler) : Prop :=
  ∃ job ∈ g.jobs, ∃ task ∈ job.tasks, 0 < task.nThreads

theorem InRange.setJob {g : GScheduler} (inRange : InRange g) {j c : Nat} {job : SchedulerJob}
    (jobInRange : job.InRange) (cursor : c ≤ g.jobs.length) :
    InRange ⟨g.jobs.set j job, c⟩ := by
  refine ⟨by simpa using cursor, fun other member => ?_⟩
  rcases List.mem_or_eq_of_mem_set member with old | rfl
  · exact inRange.each other old
  · exact jobInRange

theorem SchedulerJob.InRange.setTask {job : SchedulerJob} (inRange : job.InRange) {t c : Nat}
    {task : SchedulerTask} (taskInRange : task.currentThread ≤ task.nThreads)
    (cursor : c ≤ job.tasks.length) : SchedulerJob.InRange ⟨job.tasks.set t task, c⟩ := by
  refine ⟨by simpa using cursor, fun other member => ?_⟩
  rcases List.mem_or_eq_of_mem_set member with old | rfl
  · exact inRange.each other old
  · exact taskInRange

theorem forall_mem_modify {α : Type} {P : α → Prop} {l : List α} {f : α → α} {i : Nat}
    (all : ∀ x ∈ l, P x) (changed : ∀ x, P x → P (f x)) : ∀ x ∈ l.modify i f, P x := by
  intro x member
  obtain ⟨k, hk, rfl⟩ := List.mem_iff_getElem.mp member
  rw [List.getElem_modify]
  have old := all _ (List.getElem_mem (by simpa using hk))
  split
  · exact changed _ old
  · exact old

theorem SchedulerJob.InRange.addTask {job : SchedulerJob} (inRange : job.InRange) :
    job.addTask.InRange := by
  refine ⟨?_, fun task member => ?_⟩
  · have := inRange.cursor
    simp only [SchedulerJob.addTask, List.length_append, List.length_singleton]
    omega
  · rcases List.mem_append.mp member with old | new
    · exact inRange.each task old
    · rw [List.mem_singleton.mp new]

theorem SchedulerJob.InRange.addThread {job : SchedulerJob} (inRange : job.InRange) (t : Nat) :
    (job.addThread t).InRange := by
  refine ⟨by simpa [SchedulerJob.addThread] using inRange.cursor, ?_⟩
  exact forall_mem_modify inRange.each fun task cursor => Nat.le_succ_of_le cursor

theorem InRange.modify {g : GScheduler} (inRange : InRange g) {f : SchedulerJob → SchedulerJob}
    (kept : ∀ job : SchedulerJob, job.InRange → (f job).InRange) (j : Nat) :
    InRange { g with jobs := g.jobs.modify j f } :=
  ⟨by simpa using inRange.cursor, forall_mem_modify inRange.each kept⟩

theorem InRange.addJob {g : GScheduler} (inRange : InRange g) :
    InRange { g with jobs := g.jobs ++ [⟨[], 0⟩] } := by
  refine ⟨?_, fun job member => ?_⟩
  · have := inRange.cursor
    simp only [List.length_append, List.length_singleton]
    omega
  · rcases List.mem_append.mp member with old | new
    · exact inRange.each job old
    · rw [List.mem_singleton.mp new]
      exact ⟨le_rfl, fun task none => absurd none List.not_mem_nil⟩

theorem InRange.advanced {g : GScheduler} (inRange : InRange g) {job : SchedulerJob}
    {task : SchedulerTask} (picked : Picked g job task) (threads : 0 < task.nThreads) :
    InRange (advanced g job task) := by
  have jobInRange := inRange.each job (List.mem_of_getElem? picked.jobAt)
  have threadCursor : (advancedTask task).currentThread ≤ (advancedTask task).nThreads :=
    wrap_lt threads
  have taskCursor : wrap job.tasks.length job.currentTask + 1 ≤ job.tasks.length :=
    wrap_lt (pos_of_selected picked.taskAt)
  have jobCursor : wrap g.jobs.length g.currentJob + 1 ≤ g.jobs.length :=
    wrap_lt (pos_of_selected picked.jobAt)
  exact inRange.setJob (jobInRange.setTask threadCursor taskCursor) jobCursor

theorem nextEntry_inRange (debug : Bool) (assertion : String) {n cursor : Nat}
    (inRange : cursor ≤ n) :
    nextEntry debug assertion n cursor = if 0 < n then .ok (wrap n cursor) else .fault := by
  split
  · next positive => exact nextEntry_eq debug assertion positive inRange
  · next empty =>
    have passes : debug = true → ¬ cursor > n := fun _ => by omega
    have outside : ¬ wrap n cursor < n := by omega
    unfold nextEntry
    rw [Outcome.check_of passes]
    exact if_neg outside

/-- Without a thread to select, an entry past the end of a table is used. -/
theorem keSchedule_fault (debug : Bool) {g : GScheduler} (inRange : InRange g)
    (none : ¬ SelectsThread g) : keSchedule debug g = .fault := by
  rw [keSchedule, nextEntry_inRange debug _ inRange.cursor]
  split
  · next jobs =>
    have hj := wrap_lt (c := g.currentJob) jobs
    have jobAt := List.getElem?_eq_getElem hj
    have jobInRange := inRange.each _ (List.getElem_mem hj)
    simp only [Outcome.ok_bind, jobAt, nextEntry_inRange debug _ jobInRange.cursor]
    split
    · next tasks =>
      have ht := wrap_lt (c := g.jobs[wrap g.jobs.length g.currentJob].currentTask) tasks
      have taskAt := List.getElem?_eq_getElem ht
      have taskInRange := jobInRange.each _ (List.getElem_mem ht)
      simp only [Outcome.ok_bind, taskAt, nextEntry_inRange debug _ taskInRange]
      split
      · next threads => exact absurd ⟨_, _, ⟨jobAt, taskAt⟩, threads⟩ none
      · rfl
    · rfl
  · rfl

theorem keSchedule_returns_iff (debug : Bool) {g : GScheduler} (inRange : InRange g) :
    (∃ switch g', keSchedule debug g = .ok (switch, g')) ↔ SelectsThread g := by
  constructor
  · rintro ⟨switch, g', ran⟩
    by_contra none
    rw [keSchedule_fault debug inRange none] at ran
    cases ran
  · rintro ⟨job, task, picked, threads⟩
    exact ⟨_, _, keSchedule_picked debug inRange picked threads⟩

theorem step_inRange (debug : Bool) {g g' : GScheduler} (inRange : InRange g) (call : Call)
    (ran : step debug g call = .ok g') : InRange g' := by
  cases call with
  | createJob allocated =>
    obtain ⟨_, -, last⟩ := Outcome.bind_eq_ok.mp ran
    cases last
    exact inRange.addJob
  | createTask job allocated =>
    obtain ⟨_, -, last⟩ := Outcome.bind_eq_ok.mp ran
    cases last
    exact inRange.modify (fun _ kept => kept.addTask) job
  | createThread job task allocated =>
    obtain ⟨_, -, last⟩ := Outcome.bind_eq_ok.mp ran
    cases last
    exact inRange.modify (fun _ kept => kept.addThread task) job
  | schedule =>
    obtain ⟨⟨switch, after⟩, scheduled, last⟩ := Outcome.bind_eq_ok.mp ran
    obtain ⟨job, task, picked, threads⟩ :=
      (keSchedule_returns_iff debug inRange).mp ⟨_, _, scheduled⟩
    rw [keSchedule_picked debug inRange picked threads] at scheduled
    cases scheduled
    cases last
    exact inRange.advanced picked threads

theorem noJobs_inRange : InRange noJobs :=
  ⟨le_rfl, fun _ none => absurd none List.not_mem_nil⟩

theorem reached_inRange (debug : Bool) {calls : List Call} {g : GScheduler}
    (ran : Runs.run (step debug) noJobs calls = .ok g) : InRange g := by
  have keep : ∀ s call t, InRange s → True → step debug s call = .ok t → InRange t :=
    fun _ call _ inRange _ ran => step_inRange debug inRange call ran
  exact Runs.run_invariant_of_meets keep noJobs_inRange
    (Runs.meets_of_forall fun _ _ => trivial) ran

/-- In every state with a thread that calls reach, the next `KeSchedule` uses
entries below the counts only, and fires no assertion, exactly when the cursors
select a job with a task, and of this job a task with a thread. -/
theorem schedule_in_range_iff (debug : Bool) (calls : List Call) (g : GScheduler)
    (ran : Runs.run (step debug) noJobs calls = .ok g) (_ : HasThread g) :
    (∃ switch g', keSchedule debug g = .ok (switch, g')) ↔ SelectsThread g :=
  keSchedule_returns_iff debug (reached_inRange debug ran)

/-- A job, then a second one with a task and a thread of it. -/
def secondJobStaffed : List Call :=
  [.createJob true, .createJob true, .createTask 1 true, .createThread 1 0 true]

theorem schedule_in_range_staffed :
    Runs.run (step true) noJobs [.createJob true, .createTask 0 true, .createThread 0 0 true] =
        .ok ⟨[⟨[⟨1, 0⟩], 0⟩], 0⟩ ∧
      HasThread ⟨[⟨[⟨1, 0⟩], 0⟩], 0⟩ ∧
      ((∃ switch g', keSchedule true ⟨[⟨[⟨1, 0⟩], 0⟩], 0⟩ = .ok (switch, g')) ↔
        SelectsThread ⟨[⟨[⟨1, 0⟩], 0⟩], 0⟩) := by
  have ran : Runs.run (step true) noJobs
      [.createJob true, .createTask 0 true, .createThread 0 0 true] =
        .ok ⟨[⟨[⟨1, 0⟩], 0⟩], 0⟩ := by decide
  have thread : HasThread ⟨[⟨[⟨1, 0⟩], 0⟩], 0⟩ :=
    ⟨_, List.mem_singleton_self _, _, List.mem_singleton_self _, by decide⟩
  exact ⟨ran, thread, schedule_in_range_iff true _ _ ran thread⟩

/-- The cursor selects the first job, whose table of tasks is empty. -/
theorem schedule_of_job_without_task :
    Runs.run (step true) noJobs secondJobStaffed = .ok ⟨[⟨[], 0⟩, ⟨[⟨1, 0⟩], 0⟩], 0⟩ ∧
      HasThread ⟨[⟨[], 0⟩, ⟨[⟨1, 0⟩], 0⟩], 0⟩ ∧
      keSchedule true ⟨[⟨[], 0⟩, ⟨[⟨1, 0⟩], 0⟩], 0⟩ = .fault := by
  refine ⟨by decide, ?_, by decide⟩
  exact ⟨⟨[⟨1, 0⟩], 0⟩, by decide, ⟨1, 0⟩, by decide, by decide⟩

/-- `KeGetCurrentJobId`, with its truncation to `job_t`. -/
def keGetCurrentJobId (debug : Bool) (g : GScheduler) : Outcome Nat := do
  Outcome.check (debug = true → ¬ g.currentJob > g.jobs.length)
    "Assertion !(g_scheduler.current_job > g_scheduler.n_jobs) failed!\r\n"
  .ok (g.currentJob % 65536)

/-- The cursor stands one past a job. -/
def OnePast (j : Nat) (g : GScheduler) : Prop :=
  g.currentJob = j + 1 ∧ g.currentJob ≤ g.jobs.length

/-- A call leaves the cursor one past the job that it switched to. -/
theorem keSchedule_cursor {debug : Bool} {g g' : GScheduler} {switch : Switch}
    (ran : keSchedule debug g = .ok (switch, g')) : OnePast switch.newThread.job g' := by
  rw [keSchedule] at ran
  obtain ⟨j, selected, ran⟩ := Outcome.bind_eq_ok.mp ran
  cases jobAt : g.jobs[j]? with
  | none => simp [jobAt] at ran
  | some job =>
    simp only [jobAt] at ran
    obtain ⟨t, -, ran⟩ := Outcome.bind_eq_ok.mp ran
    cases taskAt : job.tasks[t]? with
    | none => simp [taskAt] at ran
    | some task =>
      simp only [taskAt] at ran
      obtain ⟨old, -, ran⟩ := Outcome.bind_eq_ok.mp ran
      obtain ⟨new, -, ran⟩ := Outcome.bind_eq_ok.mp ran
      cases ran
      have inside := (List.getElem?_eq_some_iff.mp jobAt).1
      refine ⟨rfl, ?_⟩
      rw [List.length_set]
      exact inside

theorem schedules_cursor {debug : Bool} {k : Nat} {g g' : GScheduler} {trace : List Switch}
    {last : Switch} (ran : schedules debug k g = .ok (trace, g'))
    (final : trace.getLast? = some last) : OnePast last.newThread.job g' := by
  induction k generalizing g trace with
  | zero =>
    cases ran
    cases final
  | succ k ih =>
    obtain ⟨⟨switch, after⟩, scheduled, ran⟩ := Outcome.bind_eq_ok.mp ran
    obtain ⟨⟨rest, ending⟩, tail, ran⟩ := Outcome.bind_eq_ok.mp ran
    cases ran
    cases rest with
    | nil =>
      cases k with
      | zero =>
        cases tail
        cases final
        exact keSchedule_cursor scheduled
      | succ k =>
        obtain ⟨_, -, tail⟩ := Outcome.bind_eq_ok.mp tail
        obtain ⟨_, -, tail⟩ := Outcome.bind_eq_ok.mp tail
        cases tail
    | cons next rest => exact ih tail (List.getLast?_cons_cons.symm.trans final)

/-- Creating keeps the cursor, and takes no job away. -/
theorem step_keeps_cursor {debug : Bool} {g g' : GScheduler} {call : Call}
    (creates : call ≠ .schedule) (ran : step debug g call = .ok g') :
    g'.currentJob = g.currentJob ∧ g.jobs.length ≤ g'.jobs.length := by
  cases call with
  | createJob allocated =>
    obtain ⟨_, -, last⟩ := Outcome.bind_eq_ok.mp ran
    cases last
    exact ⟨rfl, by simp⟩
  | createTask job allocated =>
    obtain ⟨_, -, last⟩ := Outcome.bind_eq_ok.mp ran
    cases last
    exact ⟨rfl, by simp⟩
  | createThread job task allocated =>
    obtain ⟨_, -, last⟩ := Outcome.bind_eq_ok.mp ran
    cases last
    exact ⟨rfl, by simp⟩
  | schedule => exact absurd rfl creates

theorem succ_mod_ne (j : Nat) : (j + 1) % 65536 ≠ j := by
  intro same
  have below : (j + 1) % 65536 < 65536 := Nat.mod_lt _ (by decide)
  rcases Nat.lt_or_ge (j + 1) 65536 with small | large
  · rw [Nat.mod_eq_of_lt small] at same
    omega
  · have all : j + 1 = 65536 := by omega
    rw [all, Nat.mod_self] at same
    omega

/-- After a run of calls that ended with a switch to a thread of job j, and
until the next `KeSchedule`, the number returned is that of the job that the
cursor stands on, (j + 1) mod 65536, and never j. -/
theorem current_job_never_running (debug : Bool) (k : Nat) (g g' g'' : GScheduler)
    (trace : List Switch) (last : Switch) (creations : List Call)
    (ran : schedules debug k g = .ok (trace, g')) (final : trace.getLast? = some last)
    (creates : ∀ call ∈ creations, call ≠ .schedule)
    (after : Runs.run (step debug) g' creations = .ok g'') :
    keGetCurrentJobId debug g'' = .ok ((last.newThread.job + 1) % 65536) ∧
      keGetCurrentJobId debug g'' ≠ .ok last.newThread.job := by
  have keep : ∀ s call t, OnePast last.newThread.job s → call ≠ .schedule →
      step debug s call = .ok t → OnePast last.newThread.job t := by
    intro s call t stands creating made
    obtain ⟨same, more⟩ := step_keeps_cursor creating made
    exact ⟨same.trans stands.1, same ▸ stands.2.trans more⟩
  have kept : OnePast last.newThread.job g'' :=
    Runs.run_invariant_of_meets keep (schedules_cursor ran final)
      (Runs.meets_of_forall creates) after
  have inside := kept.2
  have passes : debug = true → ¬ g''.currentJob > g''.jobs.length := fun _ => by omega
  have value : keGetCurrentJobId debug g'' = .ok ((last.newThread.job + 1) % 65536) := by
    rw [keGetCurrentJobId, Outcome.check_of passes, kept.1]
    rfl
  refine ⟨value, fun same => ?_⟩
  rw [value] at same
  exact succ_mod_ne _ (Outcome.ok.inj same)

/-- The only job runs, and storage is tagged with job 1. -/
theorem current_job_twoThreads :
    schedules true 1 twoThreads = .ok ([⟨⟨0, 0, 0⟩, ⟨0, 0, 1⟩⟩], ⟨[⟨[⟨2, 2⟩], 1⟩], 1⟩) ∧
      keGetCurrentJobId true ⟨[⟨[⟨2, 2⟩], 1⟩], 1⟩ ≠ .ok 0 :=
  ⟨by decide, by decide⟩

theorem current_job_never_running_twoThreads :
    keGetCurrentJobId true ⟨[⟨[⟨2, 2⟩], 1⟩, ⟨[], 0⟩], 1⟩ = .ok ((0 + 1) % 65536) ∧
      keGetCurrentJobId true ⟨[⟨[⟨2, 2⟩], 1⟩, ⟨[], 0⟩], 1⟩ ≠ .ok 0 :=
  current_job_never_running true 1 twoThreads ⟨[⟨[⟨2, 2⟩], 1⟩], 1⟩ _
    [⟨⟨0, 0, 0⟩, ⟨0, 0, 1⟩⟩] ⟨⟨0, 0, 0⟩, ⟨0, 0, 1⟩⟩ [.createJob true] (by decide) rfl
    (by decide) (by decide)

end Scheduler
