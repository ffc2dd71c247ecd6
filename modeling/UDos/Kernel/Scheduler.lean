import Mathlib.Data.List.Chain
import Mathlib.Data.List.Count
import UDos.Library.Outcome
import UDos.Library.Rotation

/-!
# The scheduler

`KeSchedule` keeps a cursor into the jobs, one into the tasks of each job and
one into the threads of each task. The job and the task cursor advance once a
call. The thread cursor advances twice: once past the thread whose registers
are saved and once past the thread that runs next. What follows for the save
target and for the order of service is stated over runs of any length.
-/

namespace Scheduler

open Rotation

/-- `struct scheduler_task`: the thread table by its length, and its cursor. -/
structure SchedulerTask where
  nThreads : Nat
  currentThread : Nat
deriving DecidableEq, Repr

structure SchedulerJob where
  tasks : List SchedulerTask
  currentTask : Nat
deriving DecidableEq, Repr

/-- The static `g_scheduler`. -/
structure GScheduler where
  jobs : List SchedulerJob
  currentJob : Nat
deriving DecidableEq, Repr

/-- The address of a thread record, given by its place in the three tables. -/
structure ThreadRef where
  job : Nat
  task : Nat
  thread : Nat
deriving DecidableEq, Repr

/-- The arguments of one `HwSwitchThreadContext` call. -/
structure Switch where
  oldThread : ThreadRef
  newThread : ThreadRef
deriving DecidableEq, Repr

/-- One of the four cursor reads: the assertion of the debug build, the wrap
test, and the entry selected. The cursor is left one past that entry. -/
def nextEntry (debug : Bool) (assertion : String) (n cursor : Nat) : Outcome Nat := do
  Outcome.check (debug = true → ¬ cursor > n) assertion
  let i := wrap n cursor
  if i < n then .ok i else .fault

def keSchedule (debug : Bool) (g : GScheduler) : Outcome (Switch × GScheduler) := do
  let j ← nextEntry debug "Assertion !(g_scheduler.current_job > g_scheduler.n_jobs) failed!\r\n"
    g.jobs.length g.currentJob
  match g.jobs[j]? with
  | none => .fault
  | some job =>
    let t ← nextEntry debug "Assertion !(job->current_task > job->n_tasks) failed!\r\n"
      job.tasks.length job.currentTask
    match job.tasks[t]? with
    | none => .fault
    | some task =>
      let old ← nextEntry debug "Assertion !(task->current_thread > task->n_threads) failed!\r\n"
        task.nThreads task.currentThread
      let new ← nextEntry debug "Assertion !(task->current_thread > task->n_threads) failed!\r\n"
        task.nThreads (old + 1)
      let task := { task with currentThread := new + 1 }
      let job := { tasks := job.tasks.set t task, currentTask := t + 1 : SchedulerJob }
      .ok (⟨⟨j, t, old⟩, ⟨j, t, new⟩⟩, { jobs := g.jobs.set j job, currentJob := j + 1 })

/-- The switches made by k consecutive calls. -/
def schedules (debug : Bool) : Nat → GScheduler → Outcome (List Switch × GScheduler)
  | 0, g => .ok ([], g)
  | k + 1, g => do
    let (switch, g) ← keSchedule debug g
    let (rest, g) ← schedules debug k g
    .ok (switch :: rest, g)

structure SchedulerTask.Staffed (task : SchedulerTask) : Prop where
  threads : 0 < task.nThreads
  cursor : task.currentThread ≤ task.nThreads

structure SchedulerJob.Staffed (job : SchedulerJob) : Prop where
  tasks : 0 < job.tasks.length
  cursor : job.currentTask ≤ job.tasks.length
  each : ∀ task ∈ job.tasks, task.Staffed

/-- Every job has a task, every task has a thread, and the cursors are in range. -/
structure Staffed (g : GScheduler) : Prop where
  jobs : 0 < g.jobs.length
  cursor : g.currentJob ≤ g.jobs.length
  each : ∀ job ∈ g.jobs, job.Staffed

theorem nextEntry_eq (debug : Bool) (assertion : String) {n cursor : Nat}
    (positive : 0 < n) (inRange : cursor ≤ n) :
    nextEntry debug assertion n cursor = .ok (wrap n cursor) := by
  have passes : debug = true → ¬ cursor > n := fun _ => by omega
  unfold nextEntry
  rw [Outcome.check_of passes]
  exact if_pos (wrap_lt positive)

/-- The switch made when the cursors stand on this job and this task. -/
def pickedSwitch (g : GScheduler) (job : SchedulerJob) (task : SchedulerTask) : Switch :=
  let j := wrap g.jobs.length g.currentJob
  let t := wrap job.tasks.length job.currentTask
  let old := wrap task.nThreads task.currentThread
  ⟨⟨j, t, old⟩, ⟨j, t, wrap task.nThreads (old + 1)⟩⟩

def advancedTask (task : SchedulerTask) : SchedulerTask :=
  { task with
    currentThread := wrap task.nThreads (wrap task.nThreads task.currentThread + 1) + 1 }

def advancedJob (job : SchedulerJob) (task : SchedulerTask) : SchedulerJob where
  tasks := job.tasks.set (wrap job.tasks.length job.currentTask) (advancedTask task)
  currentTask := wrap job.tasks.length job.currentTask + 1

/-- The scheduler after that switch. -/
def advanced (g : GScheduler) (job : SchedulerJob) (task : SchedulerTask) : GScheduler where
  jobs := g.jobs.set (wrap g.jobs.length g.currentJob) (advancedJob job task)
  currentJob := wrap g.jobs.length g.currentJob + 1

/-- The job and the task that the cursors stand on. -/
structure Picked (g : GScheduler) (job : SchedulerJob) (task : SchedulerTask) : Prop where
  jobAt : g.jobs[wrap g.jobs.length g.currentJob]? = some job
  taskAt : job.tasks[wrap job.tasks.length job.currentTask]? = some task

theorem exists_picked {g : GScheduler} (staffed : Staffed g) :
    ∃ job task, Picked g job task ∧ job.Staffed ∧ task.Staffed := by
  have hj := wrap_lt (c := g.currentJob) staffed.jobs
  have jobStaffed := staffed.each _ (List.getElem_mem hj)
  have ht := wrap_lt (c := g.jobs[wrap g.jobs.length g.currentJob].currentTask) jobStaffed.tasks
  exact ⟨_, _, ⟨List.getElem?_eq_getElem hj, List.getElem?_eq_getElem ht⟩, jobStaffed,
    jobStaffed.each _ (List.getElem_mem ht)⟩

/-- No cursor is past the end of its table. -/
structure SchedulerJob.InRange (job : SchedulerJob) : Prop where
  cursor : job.currentTask ≤ job.tasks.length
  each : ∀ task ∈ job.tasks, task.currentThread ≤ task.nThreads

structure InRange (g : GScheduler) : Prop where
  cursor : g.currentJob ≤ g.jobs.length
  each : ∀ job ∈ g.jobs, job.InRange

theorem Staffed.inRange {g : GScheduler} (staffed : Staffed g) : InRange g :=
  ⟨staffed.cursor, fun job member =>
    ⟨(staffed.each job member).cursor, fun task member' =>
      ((staffed.each job member).each task member').cursor⟩⟩

theorem pos_of_selected {α : Type} {l : List α} {c : Nat} {x : α}
    (selected : l[wrap l.length c]? = some x) : 0 < l.length := by
  have inside := (List.getElem?_eq_some_iff.mp selected).1
  omega

/-- What one call does where the cursors are in range and the selected task has
a thread: no assertion fires, no entry outside a table is read. -/
theorem keSchedule_picked (debug : Bool) {g : GScheduler} (inRange : InRange g)
    {job : SchedulerJob} {task : SchedulerTask} (picked : Picked g job task)
    (threads : 0 < task.nThreads) :
    keSchedule debug g = .ok (pickedSwitch g job task, advanced g job task) := by
  have jobInRange := inRange.each job (List.mem_of_getElem? picked.jobAt)
  have taskInRange := jobInRange.each task (List.mem_of_getElem? picked.taskAt)
  have jobs := pos_of_selected picked.jobAt
  have tasks := pos_of_selected picked.taskAt
  have next : wrap task.nThreads task.currentThread + 1 ≤ task.nThreads := wrap_lt threads
  simp only [keSchedule, nextEntry_eq debug _ jobs inRange.cursor, Outcome.ok_bind,
    picked.jobAt, nextEntry_eq debug _ tasks jobInRange.cursor, picked.taskAt,
    nextEntry_eq debug _ threads taskInRange, nextEntry_eq debug _ threads next]
  rfl

theorem keSchedule_eq (debug : Bool) {g : GScheduler} (staffed : Staffed g)
    {job : SchedulerJob} {task : SchedulerTask} (picked : Picked g job task) :
    keSchedule debug g = .ok (pickedSwitch g job task, advanced g job task) := by
  have jobStaffed := staffed.each job (List.mem_of_getElem? picked.jobAt)
  have taskStaffed := jobStaffed.each task (List.mem_of_getElem? picked.taskAt)
  exact keSchedule_picked debug staffed.inRange picked taskStaffed.threads

theorem advancedTask_staffed {task : SchedulerTask} (staffed : task.Staffed) :
    (advancedTask task).Staffed :=
  ⟨staffed.threads, wrap_lt staffed.threads⟩

theorem advancedJob_staffed {job : SchedulerJob} {task : SchedulerTask}
    (staffed : job.Staffed) (taskStaffed : task.Staffed) : (advancedJob job task).Staffed := by
  refine ⟨by simpa [advancedJob] using staffed.tasks, ?_, ?_⟩
  · have below := wrap_lt (c := job.currentTask) staffed.tasks
    simp only [advancedJob, List.length_set]
    omega
  · intro other member
    rcases List.mem_or_eq_of_mem_set member with old | new
    · exact staffed.each other old
    · exact new ▸ advancedTask_staffed taskStaffed

theorem advanced_staffed {g : GScheduler} {job : SchedulerJob} {task : SchedulerTask}
    (staffed : Staffed g) (picked : Picked g job task) : Staffed (advanced g job task) := by
  have jobStaffed := staffed.each job (List.mem_of_getElem? picked.jobAt)
  have taskStaffed := jobStaffed.each task (List.mem_of_getElem? picked.taskAt)
  refine ⟨by simpa [advanced] using staffed.jobs, ?_, ?_⟩
  · have below := wrap_lt (c := g.currentJob) staffed.jobs
    simp only [advanced, List.length_set]
    omega
  · intro other member
    rcases List.mem_or_eq_of_mem_set member with old | new
    · exact staffed.each other old
    · exact new ▸ advancedJob_staffed jobStaffed taskStaffed

/-- Each call saves into the thread that the call before it started. -/
def SavesRunning (trace : List Switch) : Prop :=
  trace.IsChain fun before after => after.oldThread = before.newThread

/-- One job with one task with one thread. -/
structure SingleThread (g : GScheduler) : Prop where
  jobs : g.jobs.length = 1
  tasks : ∀ job ∈ g.jobs, job.tasks.length = 1
  threads : ∀ job ∈ g.jobs, ∀ task ∈ job.tasks, task.nThreads = 1

theorem advancedJob_at {g : GScheduler} {job : SchedulerJob} {task : SchedulerTask}
    (staffed : Staffed g) :
    (advanced g job task).jobs[wrap g.jobs.length g.currentJob]? = some (advancedJob job task) :=
  List.getElem?_set_self (wrap_lt staffed.jobs)

theorem advancedTask_at {job : SchedulerJob} {task : SchedulerTask} (staffed : job.Staffed) :
    (advancedJob job task).tasks[wrap job.tasks.length job.currentTask]? =
      some (advancedTask task) :=
  List.getElem?_set_self (wrap_lt staffed.tasks)

/-- Two calls in a row save and start the same thread only when there is no
other thread: each of the three cursors has moved, and came back. -/
theorem single_of_second_saves_first {g : GScheduler} (staffed : Staffed g)
    {job job' : SchedulerJob} {task task' : SchedulerTask} (picked : Picked g job task)
    (picked' : Picked (advanced g job task) job' task')
    (saves : (pickedSwitch (advanced g job task) job' task').oldThread =
      (pickedSwitch g job task).newThread) :
    g.jobs.length = 1 ∧ job.tasks.length = 1 ∧ task.nThreads = 1 := by
  have jobStaffed := staffed.each job (List.mem_of_getElem? picked.jobAt)
  have taskStaffed := jobStaffed.each task (List.mem_of_getElem? picked.taskAt)
  simp only [pickedSwitch, ThreadRef.mk.injEq] at saves
  obtain ⟨sameJob, sameTask, sameThread⟩ := saves
  have oneJob : g.jobs.length = 1 := by
    apply (wrap_succ_eq_self (wrap_lt staffed.jobs)).mp
    simpa [advanced] using sameJob
  have job_eq : job' = advancedJob job task := by
    have found := picked'.jobAt
    rw [sameJob, advancedJob_at staffed] at found
    exact (Option.some.inj found).symm
  subst job_eq
  have oneTask : job.tasks.length = 1 := by
    apply (wrap_succ_eq_self (wrap_lt jobStaffed.tasks)).mp
    simpa [advancedJob] using sameTask
  have task_eq : task' = advancedTask task := by
    have found := picked'.taskAt
    rw [sameTask, advancedTask_at jobStaffed] at found
    exact (Option.some.inj found).symm
  subst task_eq
  exact ⟨oneJob, oneTask, (wrap_succ_eq_self (wrap_lt taskStaffed.threads)).mp sameThread⟩

theorem single_of_picked {g : GScheduler} {job : SchedulerJob} {task : SchedulerTask}
    (picked : Picked g job task)
    (one : g.jobs.length = 1 ∧ job.tasks.length = 1 ∧ task.nThreads = 1) : SingleThread g := by
  obtain ⟨onlyJob, hj⟩ := List.length_eq_one_iff.mp one.1
  obtain ⟨onlyTask, ht⟩ := List.length_eq_one_iff.mp one.2.1
  have job_eq : job = onlyJob := by
    simpa [hj] using List.mem_of_getElem? picked.jobAt
  have task_eq : task = onlyTask := by
    simpa [ht] using List.mem_of_getElem? picked.taskAt
  subst job_eq task_eq
  refine ⟨one.1, ?_, ?_⟩
  · simpa [hj] using one.2.1
  · simpa [hj, ht] using one.2.2

theorem SingleThread.pickedSwitch_eq {g : GScheduler} (single : SingleThread g)
    {job : SchedulerJob} {task : SchedulerTask} (picked : Picked g job task) :
    pickedSwitch g job task = ⟨⟨0, 0, 0⟩, ⟨0, 0, 0⟩⟩ := by
  have hj := List.mem_of_getElem? picked.jobAt
  have ht := List.mem_of_getElem? picked.taskAt
  have zero : ∀ c, wrap 1 c = 0 := fun c => Nat.lt_one_iff.mp (wrap_lt Nat.one_pos)
  simp [pickedSwitch, single.jobs, single.tasks job hj, single.threads job hj task ht, zero]

theorem SingleThread.advanced {g : GScheduler} (single : SingleThread g)
    {job : SchedulerJob} {task : SchedulerTask} (picked : Picked g job task) :
    SingleThread (advanced g job task) := by
  have hj := List.mem_of_getElem? picked.jobAt
  have ht := List.mem_of_getElem? picked.taskAt
  have onlyJob : ∀ other ∈ (Scheduler.advanced g job task).jobs,
      other ∈ g.jobs ∨ other = advancedJob job task :=
    fun other member => List.mem_or_eq_of_mem_set member
  refine ⟨by simpa [Scheduler.advanced] using single.jobs, ?_, ?_⟩
  · intro other member
    rcases onlyJob other member with old | rfl
    · exact single.tasks other old
    · simpa [advancedJob] using single.tasks job hj
  · intro other member task' member'
    rcases onlyJob other member with old | rfl
    · exact single.threads other old task' member'
    · rcases List.mem_or_eq_of_mem_set member' with old | rfl
      · exact single.threads job hj task' old
      · exact single.threads job hj task ht

theorem SingleThread.trace_eq (debug : Bool) (k : Nat) {g : GScheduler} (staffed : Staffed g)
    (single : SingleThread g) :
    ∃ g', schedules debug k g = .ok (List.replicate k ⟨⟨0, 0, 0⟩, ⟨0, 0, 0⟩⟩, g') := by
  induction k generalizing g with
  | zero => exact ⟨g, rfl⟩
  | succ k ih =>
    obtain ⟨job, task, picked, _, _⟩ := exists_picked staffed
    obtain ⟨last, ran⟩ := ih (advanced_staffed staffed picked) (single.advanced picked)
    refine ⟨last, ?_⟩
    simp [schedules, keSchedule_eq debug staffed picked, ran, single.pickedSwitch_eq picked,
      List.replicate_succ]

/-- The registers saved by a call belong to the thread that was running, in
every run of calls, exactly when the configuration has a single thread. -/
theorem saves_running_iff_single_thread (debug : Bool) (g : GScheduler) (staffed : Staffed g) :
    (∀ k, ∃ trace g', schedules debug k g = .ok (trace, g') ∧ SavesRunning trace) ↔
      SingleThread g := by
  constructor
  · intro saves
    obtain ⟨job, task, picked, _, _⟩ := exists_picked staffed
    have staffed' := advanced_staffed staffed picked
    obtain ⟨job', task', picked', _, _⟩ := exists_picked staffed'
    obtain ⟨trace, last, ran, chain⟩ := saves 2
    simp only [schedules, keSchedule_eq debug staffed picked, Outcome.ok_bind,
      keSchedule_eq debug staffed' picked', Outcome.ok.injEq, Prod.mk.injEq] at ran
    rw [← ran.1] at chain
    have second := (List.isChain_cons_cons.mp chain).1
    exact single_of_picked picked (single_of_second_saves_first staffed picked picked' second)
  · intro single k
    obtain ⟨last, ran⟩ := single.trace_eq debug k staffed
    refine ⟨_, last, ran, ?_⟩
    apply List.isChain_replicate_of_rel
    rfl

/-- Two threads: the first call starts thread 1, and the second saves into thread 0. -/
def twoThreads : GScheduler := ⟨[⟨[⟨2, 0⟩], 0⟩], 0⟩

theorem twoThreads_staffed : Staffed twoThreads := by
  refine ⟨by decide, by decide, ?_⟩
  intro job member
  rw [List.mem_singleton.mp member]
  refine ⟨by decide, by decide, ?_⟩
  intro task member'
  rw [List.mem_singleton.mp member']
  exact ⟨by decide, by decide⟩

theorem twoThreads_not_saves_running :
    Staffed twoThreads ∧
      ¬ ∃ trace g', schedules true 2 twoThreads = .ok (trace, g') ∧ SavesRunning trace := by
  refine ⟨twoThreads_staffed, ?_⟩
  rintro ⟨trace, last, ran, chain⟩
  have same : schedules true 2 twoThreads =
      .ok ([⟨⟨0, 0, 0⟩, ⟨0, 0, 1⟩⟩, ⟨⟨0, 0, 0⟩, ⟨0, 0, 1⟩⟩], ⟨[⟨[⟨2, 2⟩], 1⟩], 1⟩) := by decide
  rw [same] at ran
  cases ran
  have second := (List.isChain_cons_cons.mp chain).1
  exact absurd second (by decide)

theorem saves_running_twoThreads_iff :
    (∀ k, ∃ trace g', schedules true k twoThreads = .ok (trace, g') ∧ SavesRunning trace) ↔
      SingleThread twoThreads :=
  saves_running_iff_single_thread true twoThreads twoThreads_staffed

/-- One job with one task of n threads; c, t and j are the three cursors. -/
def onlyTask (n c t j : Nat) : GScheduler :=
  ⟨[⟨[⟨n, c⟩], t⟩], j⟩

theorem onlyTask_staffed {n c t j : Nat} (positive : 0 < n) (hc : c ≤ n) (ht : t ≤ 1)
    (hj : j ≤ 1) : Staffed (onlyTask n c t j) := by
  refine ⟨Nat.one_pos, hj, ?_⟩
  intro job member
  rw [List.mem_singleton.mp member]
  refine ⟨Nat.one_pos, ht, ?_⟩
  intro task member'
  rw [List.mem_singleton.mp member']
  exact ⟨positive, hc⟩

theorem onlyTask_keSchedule (debug : Bool) {n c t j : Nat} (positive : 0 < n) (hc : c ≤ n)
    (ht : t ≤ 1) (hj : j ≤ 1) :
    keSchedule debug (onlyTask n c t j) =
      .ok (⟨⟨0, 0, c % n⟩, ⟨0, 0, (c + 1) % n⟩⟩, onlyTask n ((c + 1) % n + 1) 1 1) := by
  have zero : ∀ i, wrap 1 i = 0 := fun i => Nat.lt_one_iff.mp (wrap_lt Nat.one_pos)
  have picked : Picked (onlyTask n c t j) ⟨[⟨n, c⟩], t⟩ ⟨n, c⟩ :=
    ⟨by simp [onlyTask, zero], by simp [zero]⟩
  have first : wrap n c = c % n := wrap_eq_mod hc
  have second : wrap n (c % n + 1) = (c + 1) % n := by
    rw [wrap_eq_mod (Nat.mod_lt c positive), Nat.succ_eq_add_one, Nat.mod_add_mod]
  rw [keSchedule_eq debug (onlyTask_staffed positive hc ht hj) picked]
  simp [pickedSwitch, advanced, advancedJob, advancedTask, onlyTask, zero, first, second]

/-- The threads started, in order: from the cursor on, every second one. -/
theorem onlyTask_started (debug : Bool) (k : Nat) {n c t j : Nat} (positive : 0 < n)
    (hc : c ≤ n) (ht : t ≤ 1) (hj : j ≤ 1) :
    ∃ trace g', schedules debug k (onlyTask n c t j) = .ok (trace, g') ∧
      trace.map (·.newThread) = (List.range k).map fun i => ⟨0, 0, (c + 1 + 2 * i) % n⟩ := by
  induction k generalizing c t j with
  | zero => exact ⟨[], _, rfl, rfl⟩
  | succ k ih =>
    have below : (c + 1) % n + 1 ≤ n := Nat.mod_lt _ positive
    obtain ⟨rest, last, ran, started⟩ := ih below le_rfl le_rfl
    refine ⟨⟨⟨0, 0, c % n⟩, ⟨0, 0, (c + 1) % n⟩⟩ :: rest, last, ?_, ?_⟩
    · rw [schedules, onlyTask_keSchedule debug positive hc ht hj]
      simp only [Outcome.ok_bind, ran]
    · rw [List.map_cons, started, List.range_succ_eq_map, List.map_cons, List.map_map]
      congr 1
      apply List.map_congr_left
      intro i _
      have later : ((c + 1) % n + 1 + 1 + 2 * i) % n = (c + 1 + 2 * (i + 1)) % n := by
        have regroup : (c + 1) % n + 1 + 1 + 2 * i = (c + 1) % n + 2 * (i + 1) := by omega
        rw [regroup, Nat.mod_add_mod]
      simp [later]

/-- In n calls from here each of the n threads is started exactly once. -/
def ServesEachOnce (debug : Bool) (g : GScheduler) (n : Nat) : Prop :=
  ∃ trace g', schedules debug n g = .ok (trace, g') ∧
    ∀ i, i < n → (trace.map (·.newThread)).count ⟨0, 0, i⟩ = 1

theorem count_thread (l : List Nat) (i : Nat) :
    (l.map fun x => (⟨0, 0, x⟩ : ThreadRef)).count ⟨0, 0, i⟩ = l.count i :=
  List.count_map_of_injective l _ (fun _ _ same => (ThreadRef.mk.inj same).2.2) i

/-- The cursor moves two threads a call, so every thread is served in turn
exactly when the number of threads is odd, wherever the cursor stands. -/
theorem serves_each_once_iff_odd (debug : Bool) (n c t j : Nat) (positive : 0 < n)
    (hc : c ≤ n) (ht : t ≤ 1) (hj : j ≤ 1) :
    ServesEachOnce debug (onlyTask n c t j) n ↔ Odd n := by
  obtain ⟨trace, last, ran, started⟩ := onlyTask_started debug n positive hc ht hj
  have circle : trace.map (·.newThread) =
      (visits n 2 (c + 1)).map fun x => (⟨0, 0, x⟩ : ThreadRef) := by
    rw [started, visits, List.map_map]
    rfl
  rw [← Nat.coprime_two_left, ← visits_once_iff (c := c + 1) positive]
  constructor
  · rintro ⟨trace', last', ran', once⟩ i hi
    rw [ran] at ran'
    cases ran'
    rw [← count_thread, ← circle]
    exact once i hi
  · intro once
    refine ⟨trace, last, ran, fun i hi => ?_⟩
    rw [circle, count_thread]
    exact once i hi

theorem serves_each_once_of_three :
    (0 < 3 ∧ 1 ≤ 3) ∧ (ServesEachOnce true (onlyTask 3 1 0 0) 3 ↔ Odd 3) :=
  ⟨by decide, serves_each_once_iff_odd true 3 1 0 0 (by decide) (by decide) (by decide) (by decide)⟩

/-- Of two threads the second is started by every call and the first by none. -/
theorem two_threads_not_served : ¬ ServesEachOnce true (onlyTask 2 0 0 0) 2 := by
  rintro ⟨trace, last, ran, once⟩
  have same : schedules true 2 (onlyTask 2 0 0 0) =
      .ok ([⟨⟨0, 0, 0⟩, ⟨0, 0, 1⟩⟩, ⟨⟨0, 0, 0⟩, ⟨0, 0, 1⟩⟩], onlyTask 2 2 1 1) := by decide
  rw [same] at ran
  cases ran
  exact absurd (once 0 (by decide)) (by decide)

end Scheduler
