import UDos.Library.RoundRobin
import UDos.Kernel.Cpu
import UDos.Kernel.Scheduler

/-!
# The order of service, and what is resumed

The jobs are a table that is served in turn, and so are the tasks of each job.
Which two threads a call passes to `HwSwitchThreadContext` follows from the
number of calls before it. With the switches carried out on storage, it follows
which of the interrupted programs a call resumes.
-/

namespace Scheduler

open Rotation RoundRobin

/-- The tasks of a job with their cursor. -/
def SchedulerJob.queue (job : SchedulerJob) : Table SchedulerTask :=
  ⟨job.tasks, job.currentTask⟩

/-- The jobs with their cursor. -/
def GScheduler.queue (g : GScheduler) : Table SchedulerJob :=
  ⟨g.jobs, g.currentJob⟩

/-- One task of the job has its turn. -/
def SchedulerJob.next (job : SchedulerJob) : SchedulerJob :=
  ⟨(job.queue.turn advancedTask).entries, (job.queue.turn advancedTask).cursor⟩

/-- One job has its turn. -/
def GScheduler.next (g : GScheduler) : GScheduler :=
  ⟨(g.queue.turn SchedulerJob.next).entries, (g.queue.turn SchedulerJob.next).cursor⟩

theorem modify_eq_set {α : Type} {l : List α} {i : Nat} {x : α} (f : α → α)
    (found : l[i]? = some x) : l.modify i f = l.set i (f x) := by
  rw [List.modify_eq_set_getElem?, found]
  rfl

theorem advancedJob_eq_next {job : SchedulerJob} {task : SchedulerTask}
    (taskAt : job.tasks[wrap job.tasks.length job.currentTask]? = some task) :
    advancedJob job task = job.next := by
  unfold advancedJob SchedulerJob.next
  congr 1
  exact (modify_eq_set advancedTask taskAt).symm

theorem advanced_eq_next {g : GScheduler} {job : SchedulerJob} {task : SchedulerTask}
    (picked : Picked g job task) : advanced g job task = g.next := by
  unfold advanced GScheduler.next
  congr 1
  rw [advancedJob_eq_next picked.taskAt]
  exact (modify_eq_set SchedulerJob.next picked.jobAt).symm

theorem queue_next_iterate (g : GScheduler) (k : Nat) :
    (GScheduler.next^[k] g).queue = (Table.turn SchedulerJob.next)^[k] g.queue := by
  induction k generalizing g with
  | zero => rfl
  | succ k ih =>
    rw [Function.iterate_succ_apply, Function.iterate_succ_apply, ih]
    rfl

theorem SchedulerJob.queue_next_iterate (job : SchedulerJob) (k : Nat) :
    (SchedulerJob.next^[k] job).queue = (Table.turn advancedTask)^[k] job.queue := by
  induction k generalizing job with
  | zero => rfl
  | succ k ih =>
    rw [Function.iterate_succ_apply, Function.iterate_succ_apply, ih]
    rfl

/-- After w turns the thread cursor has moved by two places a turn. -/
theorem advancedTask_iterate {task : SchedulerTask} (staffed : task.Staffed) (w : Nat) :
    (advancedTask^[w] task).Staffed ∧ (advancedTask^[w] task).nThreads = task.nThreads ∧
      (advancedTask^[w] task).currentThread % task.nThreads =
        (task.currentThread + 2 * w) % task.nThreads := by
  induction w generalizing task with
  | zero => exact ⟨staffed, rfl, rfl⟩
  | succ w ih =>
    obtain ⟨staffed', threads, cursor⟩ := ih (advancedTask_staffed staffed)
    have moved : (advancedTask task).currentThread % task.nThreads =
        (task.currentThread + 2) % task.nThreads := by
      have first : wrap task.nThreads task.currentThread = task.currentThread % task.nThreads :=
        wrap_eq_mod staffed.cursor
      have second : wrap task.nThreads (task.currentThread % task.nThreads + 1) =
          (task.currentThread + 1) % task.nThreads := by
        rw [wrap_eq_mod (Nat.mod_lt _ staffed.threads), Nat.succ_eq_add_one, Nat.mod_add_mod]
      change (wrap task.nThreads (wrap task.nThreads task.currentThread + 1) + 1) %
        task.nThreads = _
      rw [first, second, Nat.mod_add_mod]
    refine ⟨staffed', threads, ?_⟩
    change (advancedTask^[w] (advancedTask task)).currentThread % task.nThreads = _ at cursor
    change (advancedTask^[w] (advancedTask task)).currentThread % task.nThreads = _
    have sum : task.currentThread + 2 * (w + 1) = task.currentThread + 2 + 2 * w := by omega
    calc (advancedTask^[w] (advancedTask task)).currentThread % task.nThreads
        = ((advancedTask task).currentThread + 2 * w) % task.nThreads := cursor
      _ = ((advancedTask task).currentThread % task.nThreads + 2 * w) % task.nThreads :=
          (Nat.mod_add_mod _ _ _).symm
      _ = (task.currentThread + 2 * (w + 1)) % task.nThreads := by
          rw [moved, Nat.mod_add_mod, sum]

/-- The job and the task that have turn i, as they were before the first. -/
structure HasTurn (g : GScheduler) (i : Nat) (job : SchedulerJob) (task : SchedulerTask) :
    Prop where
  jobAt : g.jobs[(g.currentJob + i) % g.jobs.length]? = some job
  taskAt : job.tasks[(job.currentTask + i / g.jobs.length) % job.tasks.length]? = some task

/-- How many turns this task has had when it has turn i. -/
def turnsBefore (g : GScheduler) (job : SchedulerJob) (i : Nat) : Nat :=
  i / g.jobs.length / job.tasks.length

/-- The thread of turn i that is `ahead` places past the first one. -/
def threadOf (g : GScheduler) (job : SchedulerJob) (task : SchedulerTask) (i ahead : Nat) :
    ThreadRef :=
  ⟨(g.currentJob + i) % g.jobs.length,
    (job.currentTask + i / g.jobs.length) % job.tasks.length,
    (task.currentThread + 2 * turnsBefore g job i + ahead) % task.nThreads⟩

theorem exists_hasTurn {g : GScheduler} (staffed : Staffed g) (i : Nat) :
    ∃ job task, HasTurn g i job task ∧ job.Staffed ∧ task.Staffed := by
  have hj : (g.currentJob + i) % g.jobs.length < g.jobs.length := Nat.mod_lt _ staffed.jobs
  have jobStaffed := staffed.each _ (List.getElem_mem hj)
  have ht := Nat.mod_lt
    (g.jobs[(g.currentJob + i) % g.jobs.length].currentTask + i / g.jobs.length) jobStaffed.tasks
  exact ⟨_, _, ⟨List.getElem?_eq_getElem hj, List.getElem?_eq_getElem ht⟩, jobStaffed,
    jobStaffed.each _ (List.getElem_mem ht)⟩

/-- What the cursors select after i calls. -/
theorem picked_after {g : GScheduler} (staffed : Staffed g) {i : Nat} {job : SchedulerJob}
    {task : SchedulerTask} (turn : HasTurn g i job task) :
    Picked (GScheduler.next^[i] g) (SchedulerJob.next^[i / g.jobs.length] job)
        (advancedTask^[turnsBefore g job i] task) ∧
      pickedSwitch (GScheduler.next^[i] g) (SchedulerJob.next^[i / g.jobs.length] job)
          (advancedTask^[turnsBefore g job i] task) =
        ⟨threadOf g job task i 0, threadOf g job task i 1⟩ := by
  have jobStaffed := staffed.each job (List.mem_of_getElem? turn.jobAt)
  have taskStaffed := jobStaffed.each task (List.mem_of_getElem? turn.taskAt)
  obtain ⟨jobPlace, jobEntry⟩ := Table.turns_place (f := SchedulerJob.next) (t := g.queue)
    staffed.jobs staffed.cursor i
  obtain ⟨taskPlace, taskEntry⟩ := Table.turns_place (f := advancedTask) (t := job.queue)
    jobStaffed.tasks jobStaffed.cursor (i / g.jobs.length)
  rw [← queue_next_iterate] at jobPlace jobEntry
  rw [← SchedulerJob.queue_next_iterate] at taskPlace taskEntry
  have atJob : g.queue.entries[(g.queue.cursor + i) % g.queue.entries.length]? = some job :=
    turn.jobAt
  have atTask : job.queue.entries[(job.queue.cursor + i / g.jobs.length) %
      job.queue.entries.length]? = some task := turn.taskAt
  rw [atJob, Option.map_some] at jobEntry
  rw [atTask, Option.map_some] at taskEntry
  have jobWrap : wrap (GScheduler.next^[i] g).jobs.length (GScheduler.next^[i] g).currentJob =
      (g.currentJob + i) % g.jobs.length := jobPlace
  have taskWrap : wrap (SchedulerJob.next^[i / g.jobs.length] job).tasks.length
      (SchedulerJob.next^[i / g.jobs.length] job).currentTask =
      (job.currentTask + i / g.jobs.length) % job.tasks.length := taskPlace
  obtain ⟨staffed', threads, cursor⟩ := advancedTask_iterate taskStaffed (turnsBefore g job i)
  have inRange := staffed'.cursor
  rw [threads] at inRange
  have first : wrap task.nThreads (advancedTask^[turnsBefore g job i] task).currentThread =
      (task.currentThread + 2 * turnsBefore g job i) % task.nThreads := by
    rw [wrap_eq_mod inRange, cursor]
  have second : wrap task.nThreads
      ((task.currentThread + 2 * turnsBefore g job i) % task.nThreads + 1) =
      (task.currentThread + 2 * turnsBefore g job i + 1) % task.nThreads := by
    rw [wrap_eq_mod (Nat.mod_lt _ taskStaffed.threads), Nat.succ_eq_add_one, Nat.mod_add_mod]
  constructor
  · constructor
    · rw [jobWrap]
      exact jobEntry
    · rw [taskWrap]
      exact taskEntry
  · simp only [pickedSwitch, threadOf, jobWrap, taskWrap, threads, first, second, Nat.add_zero]

theorem next_staffed {g : GScheduler} (staffed : Staffed g) (i : Nat) :
    Staffed (GScheduler.next^[i] g) := by
  induction i generalizing g with
  | zero => exact staffed
  | succ i ih =>
    obtain ⟨job, task, picked, _, _⟩ := exists_picked staffed
    rw [Function.iterate_succ_apply, ← advanced_eq_next picked]
    exact ih (advanced_staffed staffed picked)

theorem keSchedule_after (debug : Bool) {g : GScheduler} (staffed : Staffed g) {i : Nat}
    {job : SchedulerJob} {task : SchedulerTask} (turn : HasTurn g i job task) :
    keSchedule debug (GScheduler.next^[i] g) =
      .ok (⟨threadOf g job task i 0, threadOf g job task i 1⟩, GScheduler.next^[i + 1] g) := by
  obtain ⟨picked, switch⟩ := picked_after staffed turn
  rw [keSchedule_eq debug (next_staffed staffed i) picked, switch, advanced_eq_next picked,
    Function.iterate_succ_apply']

theorem schedules_from (debug : Bool) {g : GScheduler} (staffed : Staffed g) (k first : Nat) :
    ∃ switches, schedules debug k (GScheduler.next^[first] g) =
        .ok (switches, GScheduler.next^[first + k] g) ∧ switches.length = k ∧
      ∀ i < k, ∀ job task, HasTurn g (first + i) job task →
        switches[i]? =
          some ⟨threadOf g job task (first + i) 0, threadOf g job task (first + i) 1⟩ := by
  induction k generalizing first with
  | zero => exact ⟨[], rfl, rfl, fun i none => absurd none (Nat.not_lt_zero i)⟩
  | succ k ih =>
    obtain ⟨job, task, turn, _, _⟩ := exists_hasTurn staffed first
    obtain ⟨rest, ran, length, entries⟩ := ih (first + 1)
    refine ⟨⟨threadOf g job task first 0, threadOf g job task first 1⟩ :: rest, ?_, ?_, ?_⟩
    · simp only [schedules, keSchedule_after debug staffed turn, Outcome.ok_bind, ran]
      rw [Nat.add_right_comm, Nat.add_assoc]
    · rw [List.length_cons, length]
    · intro i inside job' task' turn'
      cases i with
      | zero =>
        obtain rfl : job = job' := Option.some.inj (turn.jobAt.symm.trans turn'.jobAt)
        obtain rfl : task = task' := Option.some.inj (turn.taskAt.symm.trans turn'.taskAt)
        rfl
      | succ i =>
        have shifted : first + (i + 1) = first + 1 + i := by omega
        rw [shifted] at turn' ⊢
        exact entries i (Nat.lt_of_succ_lt_succ inside) job' task' turn'

theorem schedules_order (debug : Bool) {g : GScheduler} (staffed : Staffed g) (k : Nat) :
    ∃ switches g', schedules debug k g = .ok (switches, g') ∧ switches.length = k ∧
      ∀ i < k, ∀ job task, HasTurn g i job task →
        switches[i]? = some ⟨threadOf g job task i 0, threadOf g job task i 1⟩ := by
  obtain ⟨switches, ran, length, entries⟩ := schedules_from debug staffed k 0
  simp only [Nat.zero_add] at entries
  exact ⟨switches, _, ran, length, entries⟩

/-- How far the place x of a circle of n is from c. -/
def distance (n c x : Nat) : Nat := (x + (n - c % n)) % n

theorem add_distance {n x : Nat} (c : Nat) (inside : x < n) :
    (c + distance n c x) % n = x := by
  have below : c % n < n := Nat.mod_lt _ (by omega)
  have sum : c % n + (x + (n - c % n)) = x + n := by omega
  calc (c + distance n c x) % n
      = (c % n + (x + (n - c % n))) % n := by
        rw [distance, Nat.add_mod_mod, ← Nat.mod_add_mod]
    _ = x := by rw [sum, Nat.add_mod_right, Nat.mod_eq_of_lt inside]

theorem parity_of_reached {n c w x : Nat} (reached : (c + 2 * w) % n = x) :
    Odd n ∨ x % 2 = c % 2 := by
  rcases Nat.even_or_odd n with even | odd
  · right
    rw [← reached, Nat.mod_mod_of_dvd _ even.two_dvd, Nat.add_mul_mod_self_left]
  · exact Or.inl odd

/-- They lead to every other place in less than a round. -/
theorem exists_reached {n c x : Nat} (inside : x < n) (cond : Odd n ∨ x % 2 = c % 2) :
    ∃ w < n, (c + 2 * w) % n = x := by
  have far : distance n c x < n := Nat.mod_lt _ (by omega)
  have there := add_distance c inside
  rcases Nat.even_or_odd (distance n c x) with even | odd
  · obtain ⟨w, twice⟩ := even
    refine ⟨w, by omega, ?_⟩
    rw [twice, ← Nat.two_mul] at there
    exact there
  · have oddTable : Odd n := by
      rcases cond with oddTable | parity
      · exact oddTable
      · by_contra notOdd
        have half : 2 ∣ n := (Nat.not_odd_iff_even.mp notOdd).two_dvd
        have same := congrArg (· % 2) there
        simp only [Nat.mod_mod_of_dvd _ half] at same
        obtain ⟨h, shape⟩ := odd
        omega
    obtain ⟨w, twice⟩ := odd.add_odd oddTable
    refine ⟨w, by omega, ?_⟩
    rw [← Nat.two_mul] at twice
    rw [← twice, ← Nat.add_assoc, Nat.add_mod_right, there]

/-- A thread is started in k calls. -/
def StartedWithin (debug : Bool) (k : Nat) (g : GScheduler) (thread : ThreadRef) : Prop :=
  ∃ switches g', schedules debug k g = .ok (switches, g') ∧
    thread ∈ switches.map (·.newThread)

theorem startedWithin_iff (debug : Bool) {g : GScheduler} (staffed : Staffed g) (k : Nat)
    (thread : ThreadRef) :
    StartedWithin debug k g thread ↔
      ∃ i < k, ∃ job task, HasTurn g i job task ∧ threadOf g job task i 1 = thread := by
  obtain ⟨switches, g', ran, length, entries⟩ := schedules_order debug staffed k
  constructor
  · rintro ⟨switches', g'', ran', member⟩
    obtain ⟨rfl, rfl⟩ := Prod.mk.inj (Outcome.ok.inj (ran.symm.trans ran'))
    obtain ⟨switch, inside, started⟩ := List.mem_map.mp member
    obtain ⟨i, below, at_i⟩ := List.mem_iff_getElem.mp inside
    obtain ⟨job, task, turn, _, _⟩ := exists_hasTurn staffed i
    have entry := entries i (length ▸ below) job task turn
    rw [List.getElem?_eq_getElem below, at_i] at entry
    refine ⟨i, length ▸ below, job, task, turn, ?_⟩
    rw [← started, Option.some.inj entry]
  · rintro ⟨i, below, job, task, turn, rfl⟩
    refine ⟨switches, g', ran, ?_⟩
    exact List.mem_map.mpr ⟨_, List.mem_of_getElem? (entries i below job task turn), rfl⟩

/-- The turn of a task of its own, `w` rounds of its threads later. -/
theorem hasTurn_of_places {g : GScheduler} {j t w : Nat} {job : SchedulerJob}
    {task : SchedulerTask} (jobAt : g.jobs[j]? = some job) (taskAt : job.tasks[t]? = some task) :
    let i := distance g.jobs.length g.currentJob j +
      g.jobs.length * (distance job.tasks.length job.currentTask t + job.tasks.length * w)
    HasTurn g i job task ∧ turnsBefore g job i = w ∧ (g.currentJob + i) % g.jobs.length = j ∧
      (job.currentTask + i / g.jobs.length) % job.tasks.length = t := by
  intro i
  have hj := (List.getElem?_eq_some_iff.mp jobAt).1
  have ht := (List.getElem?_eq_some_iff.mp taskAt).1
  have a : distance g.jobs.length g.currentJob j < g.jobs.length := Nat.mod_lt _ (by omega)
  have b : distance job.tasks.length job.currentTask t < job.tasks.length :=
    Nat.mod_lt _ (by omega)
  have rounds : i / g.jobs.length =
      distance job.tasks.length job.currentTask t + job.tasks.length * w := by
    rw [Nat.add_mul_div_left _ _ (by omega), Nat.div_eq_of_lt a, Nat.zero_add]
  have here : (g.currentJob + i) % g.jobs.length = j := by
    rw [← Nat.add_assoc, Nat.add_mul_mod_self_left, add_distance _ hj]
  have there : (job.currentTask + i / g.jobs.length) % job.tasks.length = t := by
    rw [rounds, ← Nat.add_assoc, Nat.add_mul_mod_self_left, add_distance _ ht]
  refine ⟨⟨?_, ?_⟩, ?_, here, there⟩
  · rw [here]
    exact jobAt
  · rw [there]
    exact taskAt
  · rw [turnsBefore, rounds, Nat.add_mul_div_left _ _ (by omega), Nat.div_eq_of_lt b,
      Nat.zero_add]

/-- With any number of jobs, tasks and threads, a thread is started within one
round of all cursors or never: it is started when the number of threads of its
task is odd or its parity is not that of the thread cursor. -/
theorem started_iff (debug : Bool) (g : GScheduler) (staffed : Staffed g) (j t x : Nat)
    (job : SchedulerJob) (task : SchedulerTask) (jobAt : g.jobs[j]? = some job)
    (taskAt : job.tasks[t]? = some task) (inside : x < task.nThreads) (k : Nat)
    (round : g.jobs.length * job.tasks.length * task.nThreads ≤ k) :
    StartedWithin debug k g ⟨j, t, x⟩ ↔ Odd task.nThreads ∨ x % 2 ≠ task.currentThread % 2 := by
  have parity : x % 2 ≠ task.currentThread % 2 ↔ x % 2 = (task.currentThread + 1) % 2 := by omega
  rw [startedWithin_iff debug staffed, parity]
  constructor
  · rintro ⟨i, _, job', task', turn, same⟩
    obtain ⟨sameJob, sameTask, sameThread⟩ := ThreadRef.mk.inj same
    have jobAt' := turn.jobAt
    rw [sameJob, jobAt] at jobAt'
    obtain rfl := Option.some.inj jobAt'
    have taskAt' := turn.taskAt
    rw [sameTask, taskAt] at taskAt'
    obtain rfl := Option.some.inj taskAt'
    rw [Nat.add_right_comm] at sameThread
    exact parity_of_reached sameThread
  · intro cond
    obtain ⟨w, below, reached⟩ := exists_reached inside cond
    obtain ⟨turn, before, here, there⟩ := hasTurn_of_places (w := w) jobAt taskAt
    refine ⟨_, ?_, job, task, turn, ?_⟩
    · have hj := (List.getElem?_eq_some_iff.mp jobAt).1
      have ht := (List.getElem?_eq_some_iff.mp taskAt).1
      have a : distance g.jobs.length g.currentJob j < g.jobs.length := Nat.mod_lt _ (by omega)
      have b : distance job.tasks.length job.currentTask t < job.tasks.length :=
        Nat.mod_lt _ (by omega)
      have tasks : distance job.tasks.length job.currentTask t + job.tasks.length * w + 1 ≤
          job.tasks.length * task.nThreads := by
        have rounds := Nat.mul_le_mul_left job.tasks.length (Nat.succ_le_of_lt below)
        rw [Nat.mul_succ] at rounds
        omega
      have jobs := Nat.mul_le_mul_left g.jobs.length tasks
      rw [Nat.mul_succ, ← Nat.mul_assoc] at jobs
      omega
    · rw [threadOf, before, here, there, Nat.add_right_comm, reached]

/-- Two jobs: the first has a task with four threads and one with three. -/
def twoJobs : GScheduler := ⟨[⟨[⟨4, 0⟩, ⟨3, 0⟩], 0⟩, ⟨[⟨1, 0⟩], 0⟩], 0⟩

theorem twoJobs_staffed : Staffed twoJobs := by
  refine ⟨by decide, by decide, ?_⟩
  intro job member
  have one : job = ⟨[⟨4, 0⟩, ⟨3, 0⟩], 0⟩ ∨ job = ⟨[⟨1, 0⟩], 0⟩ := by simpa [twoJobs] using member
  rcases one with rfl | rfl
  · refine ⟨by decide, by decide, ?_⟩
    intro task member'
    have either : task = ⟨4, 0⟩ ∨ task = ⟨3, 0⟩ := by simpa using member'
    rcases either with rfl | rfl <;> exact ⟨by decide, by decide⟩
  · refine ⟨by decide, by decide, ?_⟩
    intro task member'
    rw [List.mem_singleton.mp member']
    exact ⟨by decide, by decide⟩

/-- The third thread of four is started by no run, however long. -/
theorem twoJobs_third_never_started :
    Staffed twoJobs ∧
      (StartedWithin true 1000 twoJobs ⟨0, 0, 2⟩ ↔ Odd 4 ∨ 2 % 2 ≠ 0 % 2) :=
  ⟨twoJobs_staffed, started_iff true twoJobs twoJobs_staffed 0 0 2 ⟨[⟨4, 0⟩, ⟨3, 0⟩], 0⟩ ⟨4, 0⟩ rfl
    rfl (by decide) 1000 (by decide)⟩

end Scheduler
