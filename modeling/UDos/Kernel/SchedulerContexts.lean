import UDos.Kernel.SchedulerQueues

/-!
# Which program a call resumes

`KeSchedule` with its context switch on storage, called again and again while
programs run in between. The programs change storage as they like but for the
thread records. A call resumes the program that was interrupted by a call a fixed
number of rounds before it, or it starts what the thread record held at first.
-/

namespace Scheduler

open RoundRobin KernelMemory Cpu

/-- The thread is in the tables. -/
def InTables (g : GScheduler) (thread : ThreadRef) : Prop :=
  ∃ job task, g.jobs[thread.job]? = some job ∧ job.tasks[thread.task]? = some task ∧
    thread.thread < task.nThreads

/-- The thread records are above the permanent storage area, in the 31-bit address
range, and no two of them have a byte in common. -/
structure Placed (address : ThreadRef → Nat) (g : GScheduler) : Prop where
  above : ∀ thread, InTables g thread → psaSize ≤ address thread
  low : ∀ thread, InTables g thread → address thread + sizeofThread ≤ 2147483648
  apart : ∀ a b, InTables g a → InTables g b → a ≠ b →
    address a + sizeofThread ≤ address b ∨ address b + sizeofThread ≤ address a

/-- What a program does to storage until the next call, thread records excepted. -/
def Discreet (address : ThreadRef → Nat) (g : GScheduler) (program : Storage → Storage) : Prop :=
  ∀ m thread, InTables g thread → ∀ i < sizeofCpuContext,
    program m (context (address thread) + i) = m (context (address thread) + i)

/-- `KeSchedule` with the switch that it asks for. -/
def keScheduleOn (debug : Bool) (address : ThreadRef → Nat) (g : GScheduler) (m : Storage) :
    Outcome (GScheduler × Storage) := do
  let (switch, g) ← keSchedule debug g
  let m ← hwSwitchThreadContext debug m (address switch.oldThread) (address switch.newThread)
  .ok (g, m)

/-- The first k programs run, each until it is interrupted by a call. -/
def serve (debug : Bool) (address : ThreadRef → Nat) (programs : Nat → Storage → Storage)
    (g : GScheduler) (m : Storage) : Nat → Outcome (GScheduler × Storage)
  | 0 => .ok (g, m)
  | k + 1 => do
    let (g, m) ← serve debug address programs g m k
    keScheduleOn debug address g (programs k m)

theorem threadOf_inTables {g : GScheduler} (staffed : Staffed g) {i : Nat} {job : SchedulerJob}
    {task : SchedulerTask} (turn : HasTurn g i job task) (ahead : Nat) :
    InTables g (threadOf g job task i ahead) := by
  have jobStaffed := staffed.each job (List.mem_of_getElem? turn.jobAt)
  have taskStaffed := jobStaffed.each task (List.mem_of_getElem? turn.taskAt)
  exact ⟨job, task, turn.jobAt, turn.taskAt, Nat.mod_lt _ taskStaffed.threads⟩

/-- What a program left is found by the call that interrupts the next one. -/
structure Served (address : ThreadRef → Nat) (programs : Nat → Storage → Storage)
    (g : GScheduler) (left : Nat → Storage) : Prop where
  switched : ∀ i job task, HasTurn g i job task →
    SwitchedTo (programs i (left i)) (left (i + 1)) (address (threadOf g job task i 0))
      (address (threadOf g job task i 1))

theorem exists_served (debug : Bool) {address : ThreadRef → Nat}
    (programs : Nat → Storage → Storage) {g : GScheduler} (staffed : Staffed g)
    (placed : Placed address g) (m : Storage) :
    ∃ left : Nat → Storage, left 0 = m ∧ Served address programs g left ∧
      ∀ k, serve debug address programs g m k = .ok (GScheduler.next^[k] g, left k) := by
  have step : ∀ i (found : Storage), ∃ after, ∀ job task, HasTurn g i job task →
      keScheduleOn debug address (GScheduler.next^[i] g) found =
          .ok (GScheduler.next^[i + 1] g, after) ∧
        SwitchedTo found after (address (threadOf g job task i 0))
          (address (threadOf g job task i 1)) := by
    intro i found
    obtain ⟨job, task, turn, _, _⟩ := exists_hasTurn staffed i
    have old := threadOf_inTables staffed turn 0
    have new := threadOf_inTables staffed turn 1
    have separate : address (threadOf g job task i 0) ≠ address (threadOf g job task i 1) →
        address (threadOf g job task i 0) + sizeofThread ≤ address (threadOf g job task i 1) ∨
          address (threadOf g job task i 1) + sizeofThread ≤ address (threadOf g job task i 0) :=
      fun different => placed.apart _ _ old new fun same => different (congrArg address same)
    obtain ⟨after, ran, switched⟩ := hwSwitchThreadContext_to debug found (placed.above _ old)
      (placed.above _ new) (placed.low _ old) (placed.low _ new) separate
    refine ⟨after, fun job' task' turn' => ?_⟩
    obtain rfl : job = job' := Option.some.inj (turn.jobAt.symm.trans turn'.jobAt)
    obtain rfl : task = task' := Option.some.inj (turn.taskAt.symm.trans turn'.taskAt)
    refine ⟨?_, switched⟩
    rw [keScheduleOn, keSchedule_after debug staffed turn, Outcome.ok_bind]
    simp only [ran, Outcome.ok_bind]
  choose after spec using step
  let left : Nat → Storage := Nat.rec m fun i before => after i (programs i before)
  refine ⟨left, rfl, ⟨fun i job task turn => (spec i _ job task turn).2⟩, fun k => ?_⟩
  induction k with
  | zero => rfl
  | succ k ih =>
    obtain ⟨job, task, turn, _, _⟩ := exists_hasTurn staffed k
    rw [serve, ih, Outcome.ok_bind]
    exact (spec k _ job task turn).1

/-- The context in a thread record. -/
def recordOf (address : ThreadRef → Nat) (m : Storage) (thread : ThreadRef) :
    Fin sizeofCpuContext → UInt8 :=
  fun b => m (context (address thread) + b)

/-- The context in the scratch frame. -/
def frameOf (m : Storage) : Fin sizeofCpuContext → UInt8 := fun b => m (psaFlcgrsav + b)

section
variable {address : ThreadRef → Nat} {programs : Nat → Storage → Storage} {g : GScheduler}
  {left : Nat → Storage}

/-- Each call stores the frame it finds in one record, and no other changes. -/
theorem Served.stores (served : Served address programs g left) (staffed : Staffed g)
    (placed : Placed address g) (discreet : ∀ i, Discreet address g (programs i)) :
    ∃ target : Nat → {thread // InTables g thread},
      (∀ i job task, HasTurn g i job task → (target i).val = threadOf g job task i 0) ∧
      ∀ k, Stores (fun i thread => recordOf address (left i) thread.val) target
        (fun i => frameOf (programs i (left i))) k := by
  have exists_target : ∀ i, ∃ thread : {thread // InTables g thread}, ∀ job task,
      HasTurn g i job task → thread.val = threadOf g job task i 0 := by
    intro i
    obtain ⟨job, task, turn, _, _⟩ := exists_hasTurn staffed i
    refine ⟨⟨_, threadOf_inTables staffed turn 0⟩, fun job' task' turn' => ?_⟩
    obtain rfl : job = job' := Option.some.inj (turn.jobAt.symm.trans turn'.jobAt)
    obtain rfl : task = task' := Option.some.inj (turn.taskAt.symm.trans turn'.taskAt)
    rfl
  choose target target_eq using exists_target
  refine ⟨target, target_eq, fun k i _ => ?_⟩
  obtain ⟨job, task, turn, _, _⟩ := exists_hasTurn staffed i
  have switched := served.switched i job task turn
  rw [← target_eq i job task turn] at switched
  constructor
  · funext b
    exact switched.saved b b.isLt
  · intro thread other
    funext b
    have bound : b.val < 72 := b.isLt
    have above := placed.above _ thread.2
    have separate := placed.apart _ _ thread.2 (target i).2 fun same => other (Subtype.ext same)
    simp only [sizeofThread] at separate
    have kept : left (i + 1) (context (address thread.val) + b) =
        programs i (left i) (context (address thread.val) + b) := by
      apply switched.kept
      · simp only [context]
        omega
      · simp only [context, sizeofCpuContext]
        omega
    exact kept.trans (discreet i _ _ thread.2 b b.isLt)

end

theorem round_of_same {n c l i : Nat} (le : l ≤ i) (same : (c + l) % n = (c + i) % n) :
    ∃ e, i = l + n * e := by
  have congruent : l ≡ i [MOD n] := Nat.ModEq.add_left_cancel' c same
  obtain ⟨e, whole⟩ := (Nat.modEq_iff_dvd' le).mp congruent
  exact ⟨e, by omega⟩

/-- The thread started by call i was saved into by call l before it: whole rounds
of jobs and tasks are between them, and the thread cursor has gone round too. -/
theorem saved_before {g : GScheduler} (staffed : Staffed g) {l i : Nat} (le : l ≤ i)
    {job job' : SchedulerJob} {task task' : SchedulerTask} (turn : HasTurn g l job' task')
    (turn' : HasTurn g i job task)
    (same : threadOf g job' task' l 0 = threadOf g job task i 1) :
    ∃ d, i = l + d * (g.jobs.length * job.tasks.length) ∧ task.nThreads ∣ 2 * d + 1 := by
  obtain ⟨sameJob, sameTask, sameThread⟩ := ThreadRef.mk.inj same
  obtain rfl : job' = job := by
    have found := turn.jobAt
    rw [sameJob, turn'.jobAt] at found
    exact (Option.some.inj found).symm
  obtain rfl : task' = task := by
    have found := turn.taskAt
    rw [sameTask, turn'.taskAt] at found
    exact (Option.some.inj found).symm
  have tasks := (staffed.each job' (List.mem_of_getElem? turn.jobAt)).tasks
  obtain ⟨e, jobRounds⟩ := round_of_same le sameJob
  have quotient : i / g.jobs.length = l / g.jobs.length + e := by
    rw [jobRounds, Nat.add_mul_div_left _ _ staffed.jobs]
  obtain ⟨d, taskRounds⟩ := round_of_same (Nat.div_le_div_right le) sameTask
  have e_eq : e = job'.tasks.length * d := by omega
  refine ⟨d, ?_, ?_⟩
  · rw [jobRounds, e_eq, ← Nat.mul_assoc, Nat.mul_comm d]
  · have before : turnsBefore g job' i = turnsBefore g job' l + d := by
      rw [turnsBefore, quotient, e_eq, Nat.add_mul_div_left _ _ tasks]
      rfl
    have circle : task'.currentThread + 2 * turnsBefore g job' l + (2 * d + 1) ≡
        task'.currentThread + 2 * turnsBefore g job' l + 0 [MOD task'.nThreads] := by
      have regroup : task'.currentThread + 2 * turnsBefore g job' l + (2 * d + 1) =
          task'.currentThread + 2 * turnsBefore g job' i + 1 := by omega
      rw [regroup]
      exact sameThread.symm
    exact (Nat.modEq_zero_iff_dvd).mp (Nat.ModEq.add_left_cancel' _ circle)

/-- The call that saved last into the record that call i starts from, for an odd
number of threads. -/
def interruptedBy (g : GScheduler) (job : SchedulerJob) (task : SchedulerTask) (i : Nat) : Nat :=
  i - task.nThreads / 2 * (g.jobs.length * job.tasks.length)

theorem hasTurn_interruptedBy {g : GScheduler} (staffed : Staffed g) {i : Nat}
    {job : SchedulerJob} {task : SchedulerTask} (turn : HasTurn g i job task)
    (odd : Odd task.nThreads) (late : task.nThreads / 2 ≤ turnsBefore g job i) :
    interruptedBy g job task i ≤ i ∧
      i = interruptedBy g job task i + task.nThreads / 2 * (g.jobs.length * job.tasks.length) ∧
      HasTurn g (interruptedBy g job task i) job task ∧
      threadOf g job task (interruptedBy g job task i) 0 = threadOf g job task i 1 := by
  have tasks := (staffed.each job (List.mem_of_getElem? turn.jobAt)).tasks
  set d := task.nThreads / 2 with half
  set l := interruptedBy g job task i with earlier
  have room : d * (g.jobs.length * job.tasks.length) ≤ i := by
    rw [turnsBefore, Nat.div_div_eq_div_mul] at late
    exact (Nat.le_div_iff_mul_le (Nat.mul_pos staffed.jobs tasks)).mp late
  have sum : i = l + d * (g.jobs.length * job.tasks.length) := by
    rw [earlier, interruptedBy, ← half, Nat.sub_add_cancel room]
  have sum' : i = l + g.jobs.length * (job.tasks.length * d) := by
    rw [sum, Nat.mul_comm d, Nat.mul_assoc]
  have quotient : i / g.jobs.length = l / g.jobs.length + job.tasks.length * d := by
    rw [sum', Nat.add_mul_div_left _ _ staffed.jobs]
  have before : turnsBefore g job i = turnsBefore g job l + d := by
    rw [turnsBefore, quotient, Nat.add_mul_div_left _ _ tasks]
    rfl
  have sameJob : (g.currentJob + l) % g.jobs.length = (g.currentJob + i) % g.jobs.length := by
    rw [sum', ← Nat.add_assoc, Nat.add_mul_mod_self_left]
  have sameTask : (job.currentTask + l / g.jobs.length) % job.tasks.length =
      (job.currentTask + i / g.jobs.length) % job.tasks.length := by
    rw [quotient, ← Nat.add_assoc, Nat.add_mul_mod_self_left]
  refine ⟨by omega, sum, ⟨sameJob ▸ turn.jobAt, sameTask ▸ turn.taskAt⟩, ?_⟩
  obtain ⟨h, shape⟩ := odd
  have round : task.currentThread + 2 * turnsBefore g job i + 1 =
      task.currentThread + 2 * turnsBefore g job l + task.nThreads := by omega
  rw [threadOf, threadOf, sameJob, sameTask, round, Nat.add_mod_right, Nat.add_zero]

section
variable {address : ThreadRef → Nat} {programs : Nat → Storage → Storage} {g : GScheduler}
  {left : Nat → Storage} (served : Served address programs g left)
include served

theorem Served.loaded {i : Nat} {job : SchedulerJob} {task : SchedulerTask}
    (turn : HasTurn g i job task) :
    frameOf (left (i + 1)) = recordOf address (left (i + 1)) (threadOf g job task i 1) :=
  funext fun b => (served.switched i job task turn).loaded b b.isLt

variable (staffed : Staffed g) (placed : Placed address g)
  (discreet : ∀ i, Discreet address g (programs i))
include staffed placed discreet

/-- The context that call i loads, by the number of threads of the task. -/
theorem Served.resumed {i : Nat} {job : SchedulerJob} {task : SchedulerTask}
    (turn : HasTurn g i job task) :
    (Odd task.nThreads → task.nThreads / 2 ≤ turnsBefore g job i →
      frameOf (left (i + 1)) =
        frameOf (programs (interruptedBy g job task i) (left (interruptedBy g job task i)))) ∧
    (Even task.nThreads ∨ turnsBefore g job i < task.nThreads / 2 →
      frameOf (left (i + 1)) = recordOf address (left 0) (threadOf g job task i 1)) := by
  obtain ⟨target, target_eq, stores⟩ := served.stores staffed placed discreet
  let new : {thread // InTables g thread} :=
    ⟨threadOf g job task i 1, threadOf_inTables staffed turn 1⟩
  have loaded : frameOf (left (i + 1)) = recordOf address (left (i + 1)) new.val :=
    served.loaded turn
  have jobTasks := (staffed.each job (List.mem_of_getElem? turn.jobAt)).tasks
  have rounds : 0 < g.jobs.length * job.tasks.length := Nat.mul_pos staffed.jobs jobTasks
  -- a call that saves into this record is n / 2 rounds before call i, or more
  have saving : ∀ l ≤ i, target l = new → ∃ d, i = l + d * (g.jobs.length * job.tasks.length) ∧
      Odd task.nThreads ∧ task.nThreads / 2 ≤ d := by
    intro l le same
    obtain ⟨job', task', turn', _, _⟩ := exists_hasTurn staffed l
    have same' : threadOf g job' task' l 0 = threadOf g job task i 1 :=
      (target_eq l job' task' turn').symm.trans (congrArg Subtype.val same)
    obtain ⟨d, between, whole⟩ := saved_before staffed le turn' turn same'
    refine ⟨d, between, ?_, ?_⟩
    · by_contra even
      have two := (Nat.not_odd_iff_even.mp even).two_dvd.trans whole
      omega
    · have := Nat.le_of_dvd (by omega) whole
      omega
  constructor
  · intro odd late
    obtain ⟨le, between, turn', same⟩ := hasTurn_interruptedBy staffed turn odd late
    have at_target : target (interruptedBy g job task i) = new :=
      Subtype.ext ((target_eq _ job task turn').trans same)
    rw [loaded, ← at_target]
    apply holds_last (stores (i + 1)) (Nat.lt_succ_of_le le) le_rfl
    intro l after before again
    obtain ⟨d, between', _, far⟩ := saving l (Nat.le_of_lt_succ before) (again.trans at_target)
    have := Nat.mul_le_mul_right (g.jobs.length * job.tasks.length) far
    omega
  · intro never
    have quiet : ∀ l, 0 ≤ l → l < i + 1 → target l ≠ new := by
      intro l _ before same
      obtain ⟨d, between, odd, far⟩ := saving l (Nat.le_of_lt_succ before) same
      rcases never with even | early
      · exact Nat.not_even_iff_odd.mpr odd even
      · have later : d ≤ turnsBefore g job i := by
          rw [turnsBefore, Nat.div_div_eq_div_mul, Nat.le_div_iff_mul_le rounds]
          omega
        omega
    rw [loaded]
    exact holds_until (stores (i + 1)) (Nat.zero_le _) le_rfl quiet

end

/-- With an odd number n of threads a call of `KeSchedule` resumes the program that
was interrupted n / 2 rounds of jobs and tasks before it. With an even number it
resumes none that was ever interrupted: the context loaded is the one the thread
record held before the first call. -/
theorem resumes (debug : Bool) (address : ThreadRef → Nat) (programs : Nat → Storage → Storage)
    (g : GScheduler) (staffed : Staffed g) (placed : Placed address g)
    (discreet : ∀ i, Discreet address g (programs i)) (m : Storage) :
    ∃ left : Nat → Storage,
      (∀ k, serve debug address programs g m k = .ok (GScheduler.next^[k] g, left k)) ∧
      ∀ i job task, HasTurn g i job task →
        (Odd task.nThreads → task.nThreads / 2 ≤ turnsBefore g job i →
          frameOf (left (i + 1)) =
            frameOf (programs (interruptedBy g job task i) (left (interruptedBy g job task i)))) ∧
        (Even task.nThreads ∨ turnsBefore g job i < task.nThreads / 2 →
          frameOf (left (i + 1)) = recordOf address m (threadOf g job task i 1)) := by
  obtain ⟨left, start, served, runs⟩ := exists_served debug programs staffed placed m
  refine ⟨left, runs, fun i job task turn => ?_⟩
  have resumed := served.resumed staffed placed discreet turn
  rw [start] at resumed
  exact resumed

/-- The eight bytes at an address. -/
def doubleAt (m : Storage) (a : Nat) : Fin sizeofPsw → UInt8 := fun b => m (a + b)

theorem switchedTo_control {m m' : Storage} {a b : Nat} (switched : SwitchedTo m m' a b) :
    doubleAt m' psaFlccrsav = doubleAt m' (contextPsw b) := by
  funext i
  have bound : i.val < 8 := i.isLt
  have found := switched.loaded (sizeofRegisters + i)
    (by simp only [sizeofRegisters, sizeofCpuContext]; omega)
  rw [← Nat.add_assoc, ← Nat.add_assoc] at found
  exact found

/-- A PSW that was in a thread record of m, or in the first two words of its control
register save area. -/
def OnRecord (address : ThreadRef → Nat) (g : GScheduler) (m : Storage)
    (psw : Fin sizeofPsw → UInt8) : Prop :=
  psw = doubleAt m psaFlccrsav ∨
    ∃ thread, InTables g thread ∧ psw = doubleAt m (contextPsw (address thread))

/-- The PSWs that are in these places now were there in m. -/
structure Circulates (address : ThreadRef → Nat) (g : GScheduler) (m now : Storage) : Prop where
  control : OnRecord address g m (doubleAt now psaFlccrsav)
  records : ∀ thread, InTables g thread →
    OnRecord address g m (doubleAt now (contextPsw (address thread)))

/-- What a program does to storage, the control register save area excepted. -/
def KeepsControl (program : Storage → Storage) : Prop :=
  ∀ m, ∀ i < sizeofPsw, program m (psaFlccrsav + i) = m (psaFlccrsav + i)

section
variable {address : ThreadRef → Nat} {g : GScheduler} {m : Storage}

theorem circulates_first : Circulates address g m m :=
  ⟨Or.inl rfl, fun thread inside => Or.inr ⟨thread, inside, rfl⟩⟩

theorem Circulates.program {now : Storage} (circulates : Circulates address g m now)
    {program : Storage → Storage} (discreet : Discreet address g program)
    (keeps : KeepsControl program) : Circulates address g m (program now) := by
  constructor
  · have same : doubleAt (program now) psaFlccrsav = doubleAt now psaFlccrsav :=
      funext fun b => keeps now b b.isLt
    rw [same]
    exact circulates.control
  · intro thread inside
    have same : doubleAt (program now) (contextPsw (address thread)) =
        doubleAt now (contextPsw (address thread)) := by
      funext b
      have bound : b.val < 8 := b.isLt
      have kept := discreet now thread inside (sizeofRegisters + b)
        (by simp only [sizeofRegisters, sizeofCpuContext]; omega)
      rw [← Nat.add_assoc] at kept
      exact kept
    rw [same]
    exact circulates.records thread inside

/-- A switch moves PSWs between these places, and brings no other one into them. -/
theorem Circulates.switch {now after : Storage} (circulates : Circulates address g m now)
    (placed : Placed address g) {old new : ThreadRef} (inOld : InTables g old)
    (inNew : InTables g new) (switched : SwitchedTo now after (address old) (address new)) :
    Circulates address g m after := by
  have records : ∀ thread, InTables g thread →
      OnRecord address g m (doubleAt after (contextPsw (address thread))) := by
    intro thread inside
    by_cases same : thread = old
    · have saved : doubleAt after (contextPsw (address thread)) = doubleAt now psaFlccrsav := by
        funext b
        have bound : b.val < 8 := b.isLt
        have found := switched.saved (sizeofRegisters + b)
          (by simp only [sizeofRegisters, sizeofCpuContext]; omega)
        rw [← Nat.add_assoc, ← Nat.add_assoc, ← same] at found
        exact found
      rw [saved]
      exact circulates.control
    · have kept : doubleAt after (contextPsw (address thread)) =
          doubleAt now (contextPsw (address thread)) := by
        funext b
        have bound : b.val < 8 := b.isLt
        have above := placed.above thread inside
        have separate := placed.apart thread old inside inOld same
        simp only [sizeofThread] at separate
        apply switched.kept
        · simp only [contextPsw, context, sizeofRegisters]
          omega
        · simp only [contextPsw, context, sizeofRegisters, sizeofCpuContext]
          omega
      rw [kept]
      exact circulates.records thread inside
  refine ⟨?_, records⟩
  rw [switchedTo_control switched]
  exact records new inNew

end

theorem threads_differ {g : GScheduler} {i : Nat} {job : SchedulerJob} {task : SchedulerTask}
    (several : task.nThreads ≠ 1) : threadOf g job task i 0 ≠ threadOf g job task i 1 := by
  intro same
  have place := (ThreadRef.mk.inj same).2.2
  have congruent : task.currentThread + 2 * turnsBefore g job i + 1 ≡
      task.currentThread + 2 * turnsBefore g job i + 0 [MOD task.nThreads] := place.symm
  have divides := (Nat.modEq_zero_iff_dvd).mp (Nat.ModEq.add_left_cancel' _ congruent)
  exact several (Nat.dvd_one.mp divides)

section
variable {address : ThreadRef → Nat} {programs : Nat → Storage → Storage} {g : GScheduler}
  {left : Nat → Storage} (served : Served address programs g left)
include served

/-- A call that switches to another thread loads this PSW. -/
theorem Served.psw (staffed : Staffed g) (placed : Placed address g) {i : Nat}
    {job : SchedulerJob} {task : SchedulerTask} (turn : HasTurn g i job task)
    (several : task.nThreads ≠ 1) :
    doubleAt (left (i + 1)) psaFlcsopsw = doubleAt (left (i + 1)) psaFlccrsav := by
  have switched := served.switched i job task turn
  have inNew := threadOf_inTables staffed turn 1
  have above := placed.above _ inNew
  have separate := placed.apart _ _ (threadOf_inTables staffed turn 0) inNew
    (threads_differ several)
  rw [switchedTo_control switched]
  simp only [sizeofThread] at separate
  funext b
  have bound : b.val < 8 := b.isLt
  refine (switched.left (by omega) b b.isLt).trans (switched.kept _ ?_ ?_).symm
  · simp only [contextPsw, context, sizeofRegisters]
    omega
  · simp only [contextPsw, context, sizeofRegisters, sizeofCpuContext]
    omega

end

/-- In a task with one thread a call goes on with the program that made it. In every
other task it loads a PSW that was in a thread record, or in the control register save
area, before the first call: no program goes on where it was interrupted. -/
theorem psws_circulate (debug : Bool) (address : ThreadRef → Nat)
    (programs : Nat → Storage → Storage) (g : GScheduler) (staffed : Staffed g)
    (placed : Placed address g) (discreet : ∀ i, Discreet address g (programs i))
    (keeps : ∀ i, KeepsControl (programs i)) (m : Storage) :
    ∃ left : Nat → Storage,
      (∀ k, serve debug address programs g m k = .ok (GScheduler.next^[k] g, left k)) ∧
      ∀ i job task, HasTurn g i job task →
        (task.nThreads = 1 →
          doubleAt (left (i + 1)) psaFlcsopsw = doubleAt (programs i (left i)) psaFlcsopsw ∧
            frameOf (left (i + 1)) = frameOf (programs i (left i))) ∧
        (task.nThreads ≠ 1 → OnRecord address g m (doubleAt (left (i + 1)) psaFlcsopsw)) := by
  obtain ⟨left, start, served, runs⟩ := exists_served debug programs staffed placed m
  have circulates : ∀ i, Circulates address g m (left i) := by
    intro i
    induction i with
    | zero =>
      rw [start]
      exact circulates_first
    | succ i ih =>
      obtain ⟨job, task, turn, _, _⟩ := exists_hasTurn staffed i
      exact (ih.program (discreet i) (keeps i)).switch placed (threadOf_inTables staffed turn 0)
        (threadOf_inTables staffed turn 1) (served.switched i job task turn)
  refine ⟨left, runs, fun i job task turn => ?_⟩
  have switched := served.switched i job task turn
  have inNew := threadOf_inTables staffed turn 1
  constructor
  · intro one
    have same : threadOf g job task i 0 = threadOf g job task i 1 := by
      rw [threadOf, threadOf, one, Nat.mod_one, Nat.mod_one]
    constructor
    · funext b
      exact switched.stayed (congrArg address same) b b.isLt
    · funext b
      refine (switched.loaded b b.isLt).trans ?_
      rw [← same]
      exact switched.saved b b.isLt
  · intro several
    rw [served.psw staffed placed turn several, switchedTo_control switched]
    exact (circulates (i + 1)).records _ inNew

/-- Records one after the other, as in the table of one task. -/
def recordsInTable (thread : ThreadRef) : Nat := 0xF0400 + sizeofThread * thread.thread

theorem inTables_onlyTask {n c t j : Nat} {thread : ThreadRef}
    (inside : InTables (onlyTask n c t j) thread) :
    thread.job = 0 ∧ thread.task = 0 ∧ thread.thread < n := by
  obtain ⟨job, task, jobAt, taskAt, below⟩ := inside
  have oneJob := (List.getElem?_eq_some_iff.mp jobAt).1
  have job_eq : thread.job = 0 := Nat.lt_one_iff.mp oneJob
  rw [job_eq] at jobAt
  obtain rfl := (Option.some.inj jobAt).symm
  have oneTask := (List.getElem?_eq_some_iff.mp taskAt).1
  have task_eq : thread.task = 0 := Nat.lt_one_iff.mp oneTask
  rw [task_eq] at taskAt
  obtain rfl := (Option.some.inj taskAt).symm
  exact ⟨job_eq, task_eq, below⟩

theorem recordsInTable_placed {n c t j : Nat} (few : n ≤ 1000) :
    Placed recordsInTable (onlyTask n c t j) := by
  constructor
  · intro thread _
    simp only [recordsInTable, psaSize]
    omega
  · intro thread inside
    have := (inTables_onlyTask inside).2.2
    simp only [recordsInTable, sizeofThread]
    omega
  · intro a b inA inB different
    have hA := inTables_onlyTask inA
    have hB := inTables_onlyTask inB
    have threads : a.thread ≠ b.thread := fun same =>
      different (by cases a; cases b; simp_all)
    simp only [recordsInTable, sizeofThread]
    omega

def threeThreads : GScheduler := onlyTask 3 0 0 0

theorem threeThreads_placed : Placed recordsInTable threeThreads :=
  recordsInTable_placed (by decide)

/-- A program that counts in the first byte of the scratch frame. -/
def counting (m : Storage) : Storage := m.write psaFlcgrsav (m psaFlcgrsav + 1)

theorem counting_discreet : Discreet recordsInTable threeThreads counting := by
  intro m thread _ i bound
  apply Storage.write_other
  simp only [recordsInTable, context, psaFlcgrsav]
  omega

/-- Of three threads each call but the first resumes what the one before interrupted. -/
theorem threeThreads_resumes :
    ∃ left : Nat → Storage,
      (∀ k, serve true recordsInTable (fun _ => counting) threeThreads (fun _ => 0) k =
        .ok (GScheduler.next^[k] threeThreads, left k)) ∧
      ∀ i job task, HasTurn threeThreads i job task →
        (Odd task.nThreads → task.nThreads / 2 ≤ turnsBefore threeThreads job i →
          frameOf (left (i + 1)) = frameOf (counting
            (left (interruptedBy threeThreads job task i)))) ∧
        (Even task.nThreads ∨ turnsBefore threeThreads job i < task.nThreads / 2 →
          frameOf (left (i + 1)) =
            recordOf recordsInTable (fun _ => 0) (threadOf threeThreads job task i 1)) :=
  resumes true recordsInTable (fun _ => counting) threeThreads
    (onlyTask_staffed (by decide) (by decide) (by decide) (by decide)) threeThreads_placed
    (fun _ => counting_discreet) _

theorem counting_keepsControl : KeepsControl counting := by
  intro m i bound
  apply Storage.write_other
  simp only [psaFlccrsav, psaFlcgrsav]
  omega

theorem threeThreads_psws_circulate :
    ∃ left : Nat → Storage,
      (∀ k, serve true recordsInTable (fun _ => counting) threeThreads (fun _ => 0) k =
        .ok (GScheduler.next^[k] threeThreads, left k)) ∧
      ∀ i job task, HasTurn threeThreads i job task →
        (task.nThreads = 1 →
          doubleAt (left (i + 1)) psaFlcsopsw = doubleAt (counting (left i)) psaFlcsopsw ∧
            frameOf (left (i + 1)) = frameOf (counting (left i))) ∧
        (task.nThreads ≠ 1 → OnRecord recordsInTable threeThreads (fun _ => 0)
          (doubleAt (left (i + 1)) psaFlcsopsw)) :=
  psws_circulate true recordsInTable (fun _ => counting) threeThreads
    (onlyTask_staffed (by decide) (by decide) (by decide) (by decide)) threeThreads_placed
    (fun _ => counting_discreet) (fun _ => counting_keepsControl) _

end Scheduler
