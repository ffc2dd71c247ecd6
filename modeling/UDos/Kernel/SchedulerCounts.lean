import UDos.Kernel.SchedulerRuns
import UDos.Kernel.SchedulerTables

/-!
# The tables that are scheduled

`KeSchedule` is followed on the counts and the cursors of `g_scheduler`, the creations on
storage. What is read from storage after a run of creations is what the creations on the
counts leave.
-/

namespace SchedulerTables

open KernelMemory MmHeap Arena Storage
open Scheduler (GScheduler SchedulerJob SchedulerTask noJobs)

def taskAt (m : Storage) (a : Nat) : SchedulerTask := ⟨word m (a + 8), word m (a + 12)⟩

def jobAt (m : Storage) (a : Nat) : SchedulerJob :=
  ⟨(List.range (word m (a + 8))).map fun i => taskAt m (word m (a + 4) + i * 16), word m (a + 12)⟩

/-- The counts and the cursors that are found from `g_scheduler`. -/
def schedulerAt (m : Storage) (table : Nat) : GScheduler :=
  ⟨(List.range (word m (table + 4))).map fun i => jobAt m (word m table + i * 24),
    word m (table + 8)⟩

/-- A creation on the counts, with its job and its task by their places. -/
def Creation.onCounts (made : List Call) : Creation → Scheduler.Call
  | .job _ _ _ => .createJob true
  | .task parent _ => .createTask (rank (logOf made) parent (none, .job)) true
  | .thread parent owner _ =>
    .createThread (rank (logOf made) parent (none, .job))
      (rank (logOf made) owner (some parent, .task)) true

/-- The calls behind those that were made. -/
def onCounts (made : List Call) : List Call → List Scheduler.Call
  | [] => []
  | call :: rest => call.creation.onCounts made :: onCounts (made ++ [call]) rest

def countedTask (log : Log Kind) (task : Nat) : SchedulerTask :=
  ⟨(children log (some task) .thread).length, 0⟩

def countedJob (log : Log Kind) (job : Nat) : SchedulerJob :=
  ⟨(children log (some job) .task).map (countedTask log), 0⟩

/-- The counts of what was created. -/
def counted (current : Nat) (log : Log Kind) : GScheduler :=
  ⟨(children log none .job).map (countedJob log), current⟩

section
variable {table current : Nat} {s : State} {base : Option Nat × Kind → Nat}

theorem Holds.cursor_zero (holds : Holds table current s base) {i : Nat} {p : Option Nat} {k : Kind}
    (here : (logOf s.made)[i]? = some (p, k)) (named : k ≠ .thread) :
    word s.heap.storage (place layout table (logOf s.made) base (some i) + 12) = 0 := by
  obtain ⟨⟨creation, answers⟩, at0, entry⟩ := logOf_here here
  have shown := holds.shows at0
  cases creation with
  | job name priority maxMem => exact shown.2
  | task job name => exact shown.2
  | thread job task stackSize => exact absurd (congrArg Prod.snd entry).symm named

theorem Holds.taskAt_eq (holds : Holds table current s base) {job task : Nat}
    (here : (logOf s.made)[task]? = some (some job, .task)) :
    taskAt s.heap.storage (place layout table (logOf s.made) base (some task)) =
      countedTask (logOf s.made) task := by
  have threads := holds.laid.count (known_of_here here) (l := .thread) rfl
  rw [taskAt, countedTask, children_length, holds.cursor_zero here (by decide)]
  exact congrArg (SchedulerTask.mk · 0) threads

theorem Holds.jobAt_eq (holds : Holds table current s base) {job : Nat}
    (here : (logOf s.made)[job]? = some (none, .job)) :
    jobAt s.heap.storage (place layout table (logOf s.made) base (some job)) =
      countedJob (logOf s.made) job := by
  have known := known_of_here here
  have tasksAt := holds.laid.pointer known (l := .task) rfl
  have tasksCount := holds.laid.count known (l := .task) rfl
  have tasks := map_children (taskAt s.heap.storage) (countedTask (logOf s.made)) fun i
    (taskHere : (logOf s.made)[i]? = some (some job, .task)) => holds.taskAt_eq taskHere
  rw [jobAt, countedJob, holds.cursor_zero here (by decide), tasksCount, tasksAt]
  exact congrArg (SchedulerJob.mk · 0) tasks

theorem Holds.schedulerAt_eq (holds : Holds table current s base) :
    schedulerAt s.heap.storage table = counted current (logOf s.made) := by
  have jobsAt := holds.laid.pointer (p := none) rfl (l := .job) rfl
  have jobsCount := holds.laid.count (p := none) rfl (l := .job) rfl
  have jobs := map_children (jobAt s.heap.storage) (countedJob (logOf s.made)) fun i jobHere =>
    holds.jobAt_eq jobHere
  simp only [place, Nat.add_zero] at jobsAt jobsCount
  rw [schedulerAt, counted, jobsCount, jobsAt, holds.cursor]
  exact congrArg (GScheduler.mk · current) jobs

end

/-- Every record was created after the one that it was created for. -/
def Older (log : Log Kind) : Prop :=
  ∀ (i j : Nat) (k : Kind), log[i]? = some (some j, k) → j < i

section
variable {log : Log Kind} {current : Nat}

theorem Older.children_new (older : Older log) (k : Kind) : children log (some log.length) k = [] := by
  refine List.eq_nil_iff_forall_not_mem.mpr fun i member => ?_
  have here := mem_children.mp member
  have before := older i log.length k here
  have inside := (List.getElem?_eq_some_iff.mp here).1
  omega

theorem children_other {e : Option Nat × Kind} {p : Option Nat} {k : Kind} (other : e ≠ (p, k)) :
    children (log ++ [e]) p k = children log p k := by
  rw [children_append, if_neg other, List.append_nil]

theorem counted_job (older : Older log) : counted current (log ++ [(none, .job)]) =
    { counted current log with jobs := (counted current log).jobs ++ [⟨[], 0⟩] } := by
  have tasks : countedTask (log ++ [(none, .job)]) = countedTask log := by
    funext task
    rw [countedTask, children_other (by simp), countedTask]
  have jobs : countedJob (log ++ [(none, .job)]) = countedJob log := by
    funext job
    rw [countedJob, children_other (by simp), tasks, countedJob]
  have new : countedJob log log.length = ⟨[], 0⟩ := by
    rw [countedJob, older.children_new]
    rfl
  rw [counted, jobs, children_append, if_pos rfl, List.map_append, List.map_singleton, new]
  rfl

theorem counted_task (older : Older log) {job : Nat} (here : log[job]? = some (none, .job)) :
    counted current (log ++ [(some job, .task)]) = { counted current log with
      jobs := (counted current log).jobs.modify (rank log job (none, .job)) SchedulerJob.addTask } := by
  have tasks : countedTask (log ++ [(some job, .task)]) = countedTask log := by
    funext task
    rw [countedTask, children_other (by simp), countedTask]
  have new : countedTask log log.length = ⟨0, 0⟩ := by
    rw [countedTask, older.children_new]
    rfl
  rw [counted, children_other (by simp)]
  congr 1
  refine map_children_modify here ?_ fun other _ differ => ?_
  · rw [countedJob, tasks, children_append, if_pos rfl, List.map_append, List.map_singleton, new]
    rfl
  · rw [countedJob, tasks, children_other (by simpa using fun same => differ same.symm), countedJob]

theorem counted_thread {job task : Nat} (jobHere : log[job]? = some (none, .job))
    (here : log[task]? = some (some job, .task)) :
    counted current (log ++ [(some task, .thread)]) = { counted current log with
      jobs := (counted current log).jobs.modify (rank log job (none, .job)) fun record =>
        record.addThread (rank log task (some job, .task)) } := by
  have others : ∀ other, other ≠ task →
      countedTask (log ++ [(some task, .thread)]) other = countedTask log other := by
    intro other differ
    rw [countedTask, children_other (by simpa using fun same => differ same.symm), countedTask]
  have own : countedTask (log ++ [(some task, .thread)]) task =
      SchedulerTask.addThread (countedTask log task) := by
    rw [countedTask, children_append, if_pos rfl, List.length_append, List.length_singleton]
    rfl
  rw [counted, children_other (by simp)]
  congr 1
  refine map_children_modify jobHere ?_ fun other member differ => ?_
  · rw [countedJob, children_other (by simp)]
    have changed := map_children_modify here own fun other _ differ => others other differ
    rw [changed]
    rfl
  · rw [countedJob, children_other (by simp), countedJob]
    refine congrArg (SchedulerJob.mk · 0) (List.map_congr_left fun t inJob => others t ?_)
    rintro rfl
    have same := here.symm.trans (mem_children.mp inJob)
    exact differ (by simpa using same.symm)

end

section
variable {debug : Bool} {table current : Nat} {s : State} {base : Option Nat × Kind → Nat}

theorem Holds.older (holds : Holds table current s base) : Older (logOf s.made) :=
  fun _ _ _ here => holds.laid.parent_lt here

/-- A job is in the table of the jobs. -/
theorem job_here {made : List Call} {job : Nat}
    (known : kindOf .table (logOf made) (some job) = some .job) :
    (logOf made)[job]? = some (none, .job) := by
  obtain ⟨p, here⟩ := kindOf_some known
  obtain ⟨⟨creation, answers⟩, -, entry⟩ := logOf_here here
  cases creation with
  | job name priority maxMem =>
    cases entry
    exact here
  | task job name => cases entry
  | thread job task stackSize => cases entry

/-- A call creates on the counts what it creates in storage. -/
theorem Holds.step_counts (holds : Holds table current s base) {call : Call}
    (clear : Clear table s call) :
    Scheduler.step debug (counted current (logOf s.made)) (call.creation.onCounts s.made) =
      .ok (counted current (logOf (s.made ++ [call]))) := by
  have log : logOf (s.made ++ [call]) = logOf s.made ++ [call.creation.entry] := by simp [logOf]
  obtain ⟨allowed, newest, -⟩ := clear
  obtain ⟨creation, answers⟩ := call
  rw [log]
  cases creation with
  | job name priority maxMem => exact congrArg Outcome.ok (counted_job holds.older).symm
  | task job name =>
    exact congrArg Outcome.ok (counted_task holds.older (job_here allowed)).symm
  | thread job task stackSize =>
    exact congrArg Outcome.ok (counted_thread (job_here allowed.1) newest.2).symm

theorem run_counts {calls : List Call} (holds : ∃ base, Holds table current s base)
    (clear : Runs.Meets (step debug table) (Clear table) s calls) :
    Outcome.Sound (fun t => Runs.run (Scheduler.step debug) (counted current (logOf s.made))
        (onCounts s.made calls) = .ok (schedulerAt t.heap.storage table))
      (Runs.run (step debug table) s calls) := by
  induction calls generalizing s with
  | nil =>
    obtain ⟨base, holds⟩ := holds
    exact congrArg Outcome.ok holds.schedulerAt_eq.symm
  | cons call rest ih =>
    obtain ⟨base, holds⟩ := holds
    rw [Runs.run_cons]
    have first : Outcome.Sound (fun t => step debug table s call = .ok t ∧
        ∃ base, Holds table current t base) (step debug table s call) :=
      (step_holds holds call clear.1).strengthen fun t ran kept => ⟨ran, kept⟩
    refine first.bind ?_
    rintro t ⟨ran, kept⟩
    refine (ih kept (clear.2 t ran)).mono fun u later => ?_
    rw [step_records s call t ran] at later
    rw [onCounts, Runs.run_cons, holds.step_counts clear.1]
    exact later

end

theorem readJobs_counts (m : Storage) (table : Nat) :
    (readJobs m table).map (fun job => job.tasks.map fun task => task.threads.length) =
      (schedulerAt m table).jobs.map fun job => job.tasks.map SchedulerTask.nThreads := by
  simp only [readJobs, readJob, readTask, schedulerAt, jobAt, taskAt, List.map_map]
  refine List.map_congr_left fun i _ => ?_
  simp only [Function.comp_apply, List.map_map]
  refine List.map_congr_left fun j _ => ?_
  simp only [Function.comp_apply, List.length_map, List.length_range]

/-- After every run of creations that loses none, storage has the counts and the cursors that
the creations on the counts leave, and these are the lengths of the tables found there. -/
theorem tables_scheduled {debug : Bool} {table : Nat} {h : Heap} (sane : h.Sane)
    (static : (table, 12) ∈ h.live)
    (cleared : word h.storage table = 0 ∧ word h.storage (table + 4) = 0)
    (cursor : word h.storage (table + 8) = 0) (calls : List Call)
    (clear : Runs.Meets (step debug table) (Clear table) ⟨h, [], []⟩ calls) :
    Outcome.Sound (fun s =>
        Runs.run (Scheduler.step debug) noJobs (onCounts [] calls) =
            .ok (schedulerAt s.heap.storage table) ∧
          (readJobs s.heap.storage table).map
              (fun job => job.tasks.map fun task => task.threads.length) =
            (schedulerAt s.heap.storage table).jobs.map fun job =>
              job.tasks.map SchedulerTask.nThreads)
      (Runs.run (step debug table) ⟨h, [], []⟩ calls) := by
  have start := start_holds sane static cleared
  rw [cursor] at start
  exact (run_counts start clear).mono fun s ran => ⟨ran, readJobs_counts s.heap.storage table⟩

end SchedulerTables
