import UDos.Kernel.Handlers
import UDos.Kernel.SchedulerContexts
import UDos.Kernel.SchedulerRuns

/-!
# Supervisor calls at the start of the system

`KeInit` creates two threads, one for `kern_B` and one for `kern_A`, and issues the
supervisor call with service code 50. From there on the system goes from one program
to the next through supervisor calls: the routine of `handlers.asm`, the handler in C
with `KeSchedule`, and the way back. Here these parts are put together.
-/

namespace Boot

open Scheduler Handlers Stubs Svc Cpu

attribute [local instance] sixteen_neZero

/-- The creations of `KeInit`, with storage for all of them. -/
def keInitCalls : List Call :=
  [.createJob true, .createTask 0 true, .createThread 0 0 true, .createThread 0 0 true]

theorem keInit_scheduler (debug : Bool) :
    Runs.run (step debug) noJobs keInitCalls = .ok twoThreads := by
  cases debug <;> decide

/-- The interruption code, at `PSA_FLCSVCN`. -/
def svcCode (m : Storage) : Nat := (m 0x8A).toNat * 256 + (m 0x8B).toNat

/-- The scratch frame as the handler in C reads it. -/
def frameAt (m : Storage) : Frame :=
  ⟨savedRegisters m 0, savedRegisters m 1, savedRegisters m 2, savedRegisters m 3,
    savedRegisters m 4, savedRegisters m 15⟩

/-- What the handler in C wrote into the scratch frame. -/
def putFrame (m : Storage) (f : Frame) : Storage :=
  storeWord (storeWord (storeWord m (flcgrsav + 4 * 1) f.r1) (flcgrsav + 4 * 4) f.r4)
    (flcgrsav + 4 * 15) f.r15

section
variable (debug : Bool) (address : ThreadRef → Nat) (kernel : Kernel)

/-- `KeSupervisorCallHandler` on storage. Service 50 is `KeSchedule` with its switch;
the kernel functions behind the other services are a parameter. -/
def supervisorCall (g : GScheduler) (m : Storage) : Outcome (GScheduler × Storage) :=
  if (svcCode m ≠ 120 ∧ svcCode m ≠ 10) ∧ (frameAt m).r4.toNat % 65536 = 50 then
    keScheduleOn debug address g m
  else
    let done := keSupervisorCallHandler kernel (svcCode m) ⟨frameAt m, m, []⟩
    .ok (g, putFrame done.storage done.frame)

variable (mode : Mode) (link : Link) (note : Storage → Storage)

/-- The first k programs run, each up to its supervisor call; the state in which the
next program goes on. -/
def serviceRun (programs : Nat → Handlers.Machine → Handlers.Machine) (g : GScheduler)
    (s : Handlers.Machine) : Nat → Outcome (GScheduler × Handlers.Machine)
  | 0 => .ok (g, s)
  | k + 1 => do
    let (g, s) ← serviceRun programs g s k
    let entered := enter mode link .supervisorCall note (programs k s)
    let (g, m) ← supervisorCall debug address kernel g entered.cpu.storage
    .ok (g, leave mode .supervisorCall ⟨⟨entered.cpu.reg, m⟩, entered.psw⟩)

end

/-- The machine that goes on with what fixed storage holds. -/
def resumedFrom (m : Storage) : Handlers.Machine :=
  ⟨⟨savedRegisters m, m⟩, loadPsw m (oldPsw .supervisorCall)⟩

theorem leave_eq (mode : Mode) (s : Handlers.Machine) :
    leave mode .supervisorCall s = resumedFrom s.cpu.storage := by
  have registers : (leave mode .supervisorCall s).cpu.reg = _ := leave_reg .supervisorCall s
  have storage : (leave mode .supervisorCall s).cpu.storage = _ := leave_storage .supervisorCall s
  unfold leave at registers storage ⊢
  unfold resumedFrom
  rw [← registers, ← storage]

/-- The program ends with service code 50 in R4, and leaves the thread records alone. -/
structure AsksToSchedule (address : ThreadRef → Nat) (g : GScheduler)
    (program : Handlers.Machine → Handlers.Machine) : Prop where
  fifty : ∀ s, ((program s).cpu.reg 4).toNat % 65536 = 50
  discreet : ∀ s thread, InTables g thread → ∀ i < sizeofCpuContext,
    (program s).cpu.storage (context (address thread) + i) =
      s.cpu.storage (context (address thread) + i)

/-- The machine notes SVC 26, in the permanent storage area. -/
structure NotesSvc (note : Storage → Storage) : Prop where
  apart : NotesApart note
  code : ∀ m, svcCode (note m) = 26

/-- The stack of the routines is in no thread record. -/
def StackApart (mode : Mode) (link : Link) (address : ThreadRef → Nat) (g : GScheduler) : Prop :=
  ∀ thread, InTables g thread →
    (link.flstack.toNat + 76) % mode.size + 4 ≤ address thread ∨
      address thread + sizeofThread ≤ (link.flstack.toNat + 76) % mode.size

section
variable {debug : Bool} {address : ThreadRef → Nat} {kernel : Kernel} {mode : Mode} {link : Link}
  {note : Storage → Storage} {g : GScheduler}

/-- The storage in which the handler in C finds the call. -/
theorem supervisorCall_schedules (linked : Linked mode link) (notes : NotesSvc note)
    (s : Handlers.Machine) (fifty : (s.cpu.reg 4).toNat % 65536 = 50) (g : GScheduler) :
    supervisorCall debug address kernel g (enter mode link .supervisorCall note s).cpu.storage =
      keScheduleOn debug address g (enter mode link .supervisorCall note s).cpu.storage := by
  obtain ⟨registers, -, -⟩ := enter_storage linked .supervisorCall notes.apart s
  have low := (prologue_storage linked .supervisorCall (interrupt .supervisorCall note s).cpu).2
  have code : svcCode (enter mode link .supervisorCall note s).cpu.storage = 26 := by
    have found := notes.code (storePsw s.cpu.storage (oldPsw .supervisorCall) s.psw)
    have high := low 0x8A (by decide)
    have small := low 0x8B (by decide)
    rw [← found]
    unfold svcCode
    exact congrArg₂ (fun a b : UInt8 => a.toNat * 256 + b.toNat) high small
  have asked : (frameAt (enter mode link .supervisorCall note s).cpu.storage).r4.toNat % 65536 =
      50 := by
    simp only [frameAt, registers, fifty]
  unfold supervisorCall
  rw [code]
  exact if_pos ⟨⟨by decide, by decide⟩, asked⟩

/-- What the handler in C finds, as a change to the storage that the call before left. -/
def foundBy (mode : Mode) (link : Link) (note : Storage → Storage)
    (programs : Nat → Handlers.Machine → Handlers.Machine) (start : Handlers.Machine) (i : Nat)
    (m : Storage) : Storage :=
  let origin := if i = 0 then ⟨⟨start.cpu.reg, m⟩, start.psw⟩ else resumedFrom m
  (enter mode link .supervisorCall note (programs i origin)).cpu.storage

theorem foundBy_discreet (placed : Placed address g) (stack : StackApart mode link address g)
    (notes : NotesSvc note) {programs : Nat → Handlers.Machine → Handlers.Machine}
    (asks : ∀ i, AsksToSchedule address g (programs i)) (start : Handlers.Machine) (i : Nat) :
    Discreet address g (foundBy mode link note programs start i) := by
  intro m thread inside b bound
  have above := placed.above thread inside
  have apart := stack thread inside
  simp only [psaSize] at above
  simp only [sizeofCpuContext] at bound
  simp only [sizeofThread] at apart
  unfold foundBy
  rw [enter_above .supervisorCall notes.apart _ (by simp only [context]; omega)
    (by simp only [context]; omega)]
  refine ((asks i).discreet _ thread inside b bound).trans ?_
  split <;> rfl

/-- The run of the machine is the run of the calls on storage. -/
theorem serviceRun_eq (linked : Linked mode link) (notes : NotesSvc note)
    {programs : Nat → Handlers.Machine → Handlers.Machine}
    (asks : ∀ i, AsksToSchedule address g (programs i)) (start : Handlers.Machine)
    {left : Nat → Storage} (k : Nat)
    (runs : ∀ k, Scheduler.serve debug address (foundBy mode link note programs start) g
      start.cpu.storage k = .ok (GScheduler.next^[k] g, left k)) :
    serviceRun debug address kernel mode link note programs g start k =
      .ok (GScheduler.next^[k] g,
        if k = 0 then start else resumedFrom (left k)) := by
  induction k with
  | zero => rfl
  | succ k ih =>
    have before := runs k
    have step := runs (k + 1)
    rw [Scheduler.serve, before, Outcome.ok_bind] at step
    rw [serviceRun, ih, Outcome.ok_bind]
    have found : foundBy mode link note programs start k (left k) =
        (enter mode link .supervisorCall note
          (programs k (if k = 0 then start else resumedFrom (left k)))).cpu.storage := by
      unfold foundBy
      cases k with
      | zero =>
        have first : start.cpu.storage = left 0 := (Prod.mk.inj (Outcome.ok.inj (runs 0))).2
        rw [← first]
      | succ k => rfl
    dsimp only at step ⊢
    rw [supervisorCall_schedules linked notes _ ((asks k).fifty _), ← found, step,
      Outcome.ok_bind, leave_eq]
    rfl

end

/-- The registers in a thread record. -/
def recordRegisters (m : Storage) (record : Nat) : Register → UInt32 :=
  fun i => loadWord m (context record + 4 * i.val)

/-- The first two calls on a task of two threads, and all later ones, start the second. -/
theorem twoThreads_turn {i : Nat} {job : SchedulerJob} {task : SchedulerTask}
    (turn : HasTurn twoThreads i job task) :
    task.nThreads = 2 ∧ threadOf twoThreads job task i 1 = ⟨0, 0, 1⟩ := by
  have only : ∀ n, n % 1 = 0 := Nat.mod_one
  have jobAt := turn.jobAt
  change [(⟨[⟨2, 0⟩], 0⟩ : SchedulerJob)][(0 + i) % 1]? = some job at jobAt
  rw [only] at jobAt
  obtain rfl := Option.some.inj jobAt
  have taskAt := turn.taskAt
  change [(⟨2, 0⟩ : SchedulerTask)][(0 + i / 1) % 1]? = some task at taskAt
  rw [only] at taskAt
  obtain rfl := Option.some.inj taskAt
  refine ⟨rfl, ?_⟩
  have place : (0 + 2 * (i / 1 / 1) + 1) % 2 = 1 := by omega
  change (⟨(0 + i) % 1, (0 + i / 1) % 1, (0 + 2 * (i / 1 / 1) + 1) % 2⟩ : ThreadRef) = _
  rw [only, only, place]

/-- After `KeInit` has created its two threads, every supervisor call for `KeSchedule`,
the first one by `KeInit` itself, goes on with the registers and the PSW that the record
of the second thread held then: `KeInit` never gets back from its call, the first
thread is never started, and the second starts afresh each time. -/
theorem keInit_never_returns (debug : Bool) (address : ThreadRef → Nat) (kernel : Kernel)
    (mode : Mode) (link : Link) (note : Storage → Storage)
    (programs : Nat → Handlers.Machine → Handlers.Machine) (start : Handlers.Machine)
    (g : GScheduler) (created : Runs.run (step debug) noJobs keInitCalls = .ok g)
    (placed : Placed address g) (linked : Linked mode link)
    (stack : StackApart mode link address g) (notes : NotesSvc note)
    (asks : ∀ i, AsksToSchedule address g (programs i)) (k : Nat) :
    ∃ g' s, serviceRun debug address kernel mode link note programs g start (k + 1) =
        .ok (g', s) ∧
      s.cpu.reg = recordRegisters start.cpu.storage (address ⟨0, 0, 1⟩) ∧
      s.psw = loadPsw start.cpu.storage (contextPsw (address ⟨0, 0, 1⟩)) := by
  obtain rfl : twoThreads = g := Outcome.ok.inj ((keInit_scheduler debug).symm.trans created)
  obtain ⟨left, first, served, runs⟩ := exists_served debug
    (foundBy mode link note programs start) twoThreads_staffed placed start.cpu.storage
  obtain ⟨job, task, turn, _, _⟩ := exists_hasTurn twoThreads_staffed k
  obtain ⟨two, second⟩ := twoThreads_turn turn
  have discreet := foundBy_discreet placed stack notes asks start
  have loaded := (served.resumed twoThreads_staffed placed discreet turn).2
    (Or.inl (by rw [two]; decide))
  rw [second, first] at loaded
  have psw := served.psw twoThreads_staffed placed turn (by rw [two]; decide)
  have frame : ∀ i < 72, left (k + 1) (0x180 + i) =
      start.cpu.storage (context (address ⟨0, 0, 1⟩) + i) :=
    fun i bound => congrFun loaded ⟨i, bound⟩
  have ran : serviceRun debug address kernel mode link note programs twoThreads start (k + 1) = _ :=
    serviceRun_eq linked notes asks start (k + 1) runs
  have ending : (if k + 1 = 0 then start else resumedFrom (left (k + 1))) =
      resumedFrom (left (k + 1)) := if_neg (Nat.succ_ne_zero k)
  rw [ending] at ran
  refine ⟨_, _, ran, ?_, ?_⟩
  · funext i
    have below := i.isLt
    apply loadWord_congr
    intro j hj
    rw [Nat.add_assoc, Nat.add_assoc]
    exact frame _ (by omega)
  · apply loadPsw_congr
    intro i hi
    have stored := frame (64 + i) (by omega)
    rw [← Nat.add_assoc, ← Nat.add_assoc] at stored
    exact (congrFun psw ⟨i, hi⟩).trans stored

/-- The code of the supervisor call of `HwDoSVC`. -/
def noteSvc26 (m : Storage) : Storage := (m.write 0x8A 0).write 0x8B 26

theorem noteSvc26_notes : NotesSvc noteSvc26 := by
  constructor
  · intro m x outside
    unfold noteSvc26
    rw [Storage.write_other _ _ (by omega), Storage.write_other _ _ (by omega)]
  · intro m
    simp [svcCode, noteSvc26, Storage.write]

/-- A program that only asks for the next one. -/
def asking (s : Handlers.Machine) : Handlers.Machine := { s with cpu := s.cpu.set 4 50 }

theorem asking_asks : AsksToSchedule recordsInTable twoThreads asking := by
  constructor
  · intro s
    change ((s.cpu.set 4 50).reg 4).toNat % 65536 = 50
    rw [Cpu.set_same]
    rfl
  · exact fun _ _ _ _ _ => rfl

theorem anyLink_stackApart : StackApart .bits31 anyLink recordsInTable twoThreads := by
  intro thread inside
  have below := (inTables_onlyTask inside).2.2
  have top : (anyLink.flstack.toNat + 76) % Mode.bits31.size = 0x10004C := by decide
  rw [top]
  simp only [recordsInTable, sizeofThread]
  omega

/-- A million calls later it is still the second thread, at its start. -/
theorem asking_never_returns :
    ∃ g' s, serviceRun true recordsInTable (fun _ m => (0, m)) .bits31 anyLink noteSvc26
        (fun _ => asking) twoThreads ⟨idle, ⟨0, 0⟩⟩ (1000000 + 1) = .ok (g', s) ∧
      s.cpu.reg = recordRegisters idle.storage (recordsInTable ⟨0, 0, 1⟩) ∧
      s.psw = loadPsw idle.storage (contextPsw (recordsInTable ⟨0, 0, 1⟩)) :=
  keInit_never_returns true recordsInTable (fun _ m => (0, m)) .bits31 anyLink noteSvc26
    (fun _ => asking) ⟨idle, ⟨0, 0⟩⟩ twoThreads (keInit_scheduler true)
    (recordsInTable_placed (by decide)) anyLink_linked anyLink_stackApart noteSvc26_notes
    (fun _ => asking_asks) 1000000

end Boot
