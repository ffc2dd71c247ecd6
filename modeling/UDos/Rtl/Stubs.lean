import UDos.Rtl.Services

/-!
# The supervisor-call stubs

The routines `@ZHWDSVC` of the runtime library's `krnlas.asm` and of the
kernel's `entry.asm`, as instructions on registers and storage. The system
macros `SAVE` and `RETURN` are the stores and loads that they expand to; their
branches and the identifier between them change neither.
-/

namespace Stubs

open Svc

abbrev Register := Fin 16

/-- The general registers, and storage as the program addresses it. -/
structure Cpu where
  reg : Register → UInt32
  storage : Storage

def Cpu.set (s : Cpu) (r : Register) (w : UInt32) : Cpu :=
  { s with reg := fun i => if i = r then w else s.reg i }

@[simp] theorem Cpu.set_same (s : Cpu) (r : Register) (w : UInt32) : (s.set r w).reg r = w :=
  if_pos rfl

@[simp] theorem Cpu.set_other (s : Cpu) {r i : Register} (w : UInt32) (other : i ≠ r) :
    (s.set r w).reg i = s.reg i := if_neg other

@[simp] theorem Cpu.set_storage (s : Cpu) (r : Register) (w : UInt32) :
    (s.set r w).storage = s.storage := rfl

inductive Mode where
  | bits24
  | bits31

def Mode.size : Mode → Nat
  | .bits24 => 16777216
  | .bits31 => 2147483648

/-- The instructions of the stubs; an operand d(b) is a displacement and a base. -/
inductive Instruction where
  | lr (r1 r2 : Register)
  | l (r1 : Register) (d : Nat) (b : Register)
  | stm (r1 r3 : Register) (d : Nat) (b : Register)
  | lm (r1 r3 : Register) (d : Nat) (b : Register)
  | svc (code : Nat)

/-- What an SVC does: it may depend on everything, and changes R1 to R4 and storage. -/
structure Served where
  r1 : UInt32
  r2 : UInt32
  r3 : UInt32
  r4 : UInt32
  storage : Storage

abbrev Supervisor := Nat → Cpu → Served

def serve (served : Served) (s : Cpu) : Cpu :=
  let s := { s with storage := served.storage }
  (((s.set 1 served.r1).set 2 served.r2).set 3 served.r3).set 4 served.r4

section
variable (mode : Mode) (supervisor : Supervisor)

/-- The address of d(b); register 0 as a base means none. -/
def address (s : Cpu) (d : Nat) (b : Register) : Nat :=
  ((if b = 0 then 0 else (s.reg b).toNat) + d) % mode.size

/-- The k + 1 registers from r on, after 15 from 0 on, go to consecutive words. -/
def storeRegisters (s : Cpu) (r : Register) (a : Nat) : Nat → Storage
  | 0 => storeWord s.storage a (s.reg r)
  | k + 1 => storeWord (storeRegisters s r a k) ((a + 4 * (k + 1)) % mode.size)
      (s.reg (r + Fin.ofNat 16 (k + 1)))

def loadRegisters (s : Cpu) (r : Register) (a : Nat) : Nat → Cpu
  | 0 => s.set r (loadWord s.storage a)
  | k + 1 => (loadRegisters s r a k).set (r + Fin.ofNat 16 (k + 1))
      (loadWord s.storage ((a + 4 * (k + 1)) % mode.size))

def step (s : Cpu) : Instruction → Cpu
  | .lr r1 r2 => s.set r1 (s.reg r2)
  | .l r1 d b => s.set r1 (loadWord s.storage (address mode s d b))
  | .stm r1 r3 d b =>
    { s with storage := storeRegisters mode s r1 (address mode s d b) (r3 - r1).val }
  | .lm r1 r3 d b => loadRegisters mode s r1 (address mode s d b) (r3 - r1).val
  | .svc code => serve (supervisor code s) s

/-- An SVC that was issued, with the state before it and after it. -/
structure Issue where
  code : Nat
  before : Cpu
  after : Cpu

def issues (s : Cpu) (i : Instruction) : List Issue :=
  match i with
  | .svc code => [⟨code, s, serve (supervisor code s) s⟩]
  | _ => []

/-- The SVCs that the instructions issue, and the state they leave. -/
def run (s : Cpu) : List Instruction → List Issue × Cpu
  | [] => ([], s)
  | i :: rest =>
    let done := run (step mode supervisor s i) rest
    (issues supervisor s i ++ done.1, done.2)

end

/-- `SAVE (14,12)` -/
def saveRegisters : Instruction := .stm 14 12 12 13

/-- `RETURN (14,12),RC=(15)`, which leaves R15 as it is. -/
def returnRegisters : List Instruction := [.l 14 12 13, .lm 0 12 20 13]

/-- The routine up to the load of its result; R1 points to the code and three arguments. -/
def zhwdsvc (result : Instruction) : List Instruction :=
  [saveRegisters, .lr 12 15, .lr 11 1, .l 4 0 11, .l 1 4 11, .l 2 8 11, .l 3 12 11, .svc 26,
    result] ++ returnRegisters

/-- `@ZHWDSVC` of `krnlas.asm` loads its result from storage. -/
def rtlZhwdsvc : List Instruction := zhwdsvc (.l 15 4 0)

/-- `@ZHWDSVC` of `entry.asm` loads its result from R4. -/
def kernelZhwdsvc : List Instruction := zhwdsvc (.lr 15 4)

section
variable (mode : Mode) (supervisor : Supervisor) (s : Cpu)

/-- The caller's registers are in its save area. -/
def saved : Cpu :=
  { s with storage := storeRegisters mode s 14 (address mode s 12 13) 14 }

/-- A word of the parameter list that R1 points to. -/
def parameter (d : Nat) : UInt32 := loadWord (saved mode s).storage (address mode s d 1)

/-- The state in which both routines issue the SVC. -/
def atSvc : Cpu :=
  ((((((saved mode s).set 12 (s.reg 15)).set 11 (s.reg 1)).set 4 (parameter mode s 0)).set 1
    (parameter mode s 4)).set 2 (parameter mode s 8)).set 3 (parameter mode s 12)

theorem loadRegisters_fifteen (s : Cpu) (a : Nat) {k : Nat} (few : k ≤ 12) :
    (loadRegisters mode s 0 a k).reg 15 = s.reg 15 := by
  induction k with
  | zero => exact Cpu.set_other s _ (by decide)
  | succ k ih =>
    have other : (15 : Register) ≠ 0 + Fin.ofNat 16 (k + 1) := by
      intro same
      have value : 15 = (0 + (k + 1) % 16) % 16 := congrArg Fin.val same
      omega
    rw [loadRegisters, Cpu.set_other _ _ other]
    exact ih (by omega)

theorem returnRegisters_keeps : (run mode supervisor s returnRegisters).2.reg 15 = s.reg 15 := by
  change (loadRegisters mode (s.set 14 _) 0 _ 12).reg 15 = s.reg 15
  rw [loadRegisters_fifteen mode _ _ (Nat.le_refl 12)]
  exact Cpu.set_other s _ (by decide)

theorem run_zhwdsvc {result : Instruction} (noSvc : ∀ s, issues supervisor s result = []) :
    let served := serve (supervisor 26 (atSvc mode s)) (atSvc mode s)
    (run mode supervisor s (zhwdsvc result)).1 = [⟨26, atSvc mode s, served⟩] ∧
      (run mode supervisor s (zhwdsvc result)).2.reg 15 =
        (step mode supervisor served result).reg 15 := by
  intro served
  have parts : run mode supervisor s (zhwdsvc result) =
      (⟨26, atSvc mode s, served⟩ :: (issues supervisor served result ++
          (run mode supervisor (step mode supervisor served result) returnRegisters).1),
        (run mode supervisor (step mode supervisor served result) returnRegisters).2) := rfl
  rw [parts, noSvc served]
  exact ⟨rfl, returnRegisters_keeps mode supervisor _⟩

theorem serve_r4 (served : Served) (s : Cpu) : (serve served s).reg 4 = served.r4 :=
  Cpu.set_same _ 4 _

/-- Both routines issue one SVC with the same R1 to R4, and return R4 after it. -/
def Equivalent : Prop :=
  ∃ x y : Issue, (run mode supervisor s rtlZhwdsvc).1 = [x] ∧
    (run mode supervisor s kernelZhwdsvc).1 = [y] ∧ x.code = y.code ∧
    (∀ r ∈ ([1, 2, 3, 4] : List Register), x.before.reg r = y.before.reg r) ∧
    (run mode supervisor s rtlZhwdsvc).2.reg 15 = x.after.reg 4 ∧
    (run mode supervisor s kernelZhwdsvc).2.reg 15 = y.after.reg 4

theorem rtlZhwdsvc_r15 : (run mode supervisor s rtlZhwdsvc).2.reg 15 =
    loadWord (supervisor 26 (atSvc mode s)).storage 4 := by
  have low : 4 % mode.size = 4 := by cases mode <;> rfl
  have result := (@run_zhwdsvc mode supervisor s (.l 15 4 0) fun _ => rfl).2
  rw [rtlZhwdsvc, result, step, Cpu.set_same, address, if_pos rfl, Nat.zero_add, low]
  rfl

theorem kernelZhwdsvc_r15 : (run mode supervisor s kernelZhwdsvc).2.reg 15 =
    (supervisor 26 (atSvc mode s)).r4 := by
  have result := (@run_zhwdsvc mode supervisor s (.lr 15 4) fun _ => rfl).2
  rw [kernelZhwdsvc, result, step, Cpu.set_same, serve_r4]

theorem rtlZhwdsvc_issues : (run mode supervisor s rtlZhwdsvc).1 =
    [⟨26, atSvc mode s, serve (supervisor 26 (atSvc mode s)) (atSvc mode s)⟩] :=
  (run_zhwdsvc mode supervisor s fun _ => rfl).1

theorem kernelZhwdsvc_issues : (run mode supervisor s kernelZhwdsvc).1 =
    [⟨26, atSvc mode s, serve (supervisor 26 (atSvc mode s)) (atSvc mode s)⟩] :=
  (run_zhwdsvc mode supervisor s fun _ => rfl).1

theorem returns_of_equivalent (equivalent : Equivalent mode supervisor s) :
    (run mode supervisor s rtlZhwdsvc).2.reg 15 = (supervisor 26 (atSvc mode s)).r4 := by
  obtain ⟨x, _, issued, _, _, _, returned, _⟩ := equivalent
  obtain rfl := List.singleton_inj.mp ((rtlZhwdsvc_issues mode supervisor s).symm.trans issued)
  rw [returned]
  exact serve_r4 _ _

/-- The routines are equivalent exactly when the SVC leaves R4 at storage address 4 too. -/
theorem stubs_equivalent_iff : Equivalent mode supervisor s ↔
    loadWord (supervisor 26 (atSvc mode s)).storage 4 = (supervisor 26 (atSvc mode s)).r4 := by
  constructor
  · intro equivalent
    rw [← rtlZhwdsvc_r15, returns_of_equivalent mode supervisor s equivalent]
  · intro same
    refine ⟨_, _, rtlZhwdsvc_issues mode supervisor s, kernelZhwdsvc_issues mode supervisor s, rfl,
      fun _ _ => rfl, ?_, ?_⟩
    · rw [rtlZhwdsvc_r15, same, serve_r4]
    · rw [kernelZhwdsvc_r15, serve_r4]

end

/-- The frame that the handler is given. -/
def frameOf (s : Cpu) : Frame := ⟨s.reg 0, s.reg 1, s.reg 2, s.reg 3, s.reg 4, s.reg 15⟩

/-- The SVC that enters `KeSupervisorCallHandler`. -/
def handled (kernel : Kernel) : Supervisor := fun code s =>
  let done := keSupervisorCallHandler kernel code ⟨frameOf s, s.storage, []⟩
  ⟨done.frame.r1, done.frame.r2, done.frame.r3, done.frame.r4, done.storage⟩

theorem rtlZhwdsvc_doSvc (mode : Mode) (kernel : Kernel) (s : Cpu) :
    (run mode (handled kernel) s rtlZhwdsvc).2.reg 15 =
      (Rtl.rtlDoSvc kernel ⟨frameOf s, (saved mode s).storage, []⟩ (parameter mode s 0)
        (parameter mode s 4) (parameter mode s 8) (parameter mode s 12)).1 := by
  rw [rtlZhwdsvc_r15]
  rfl

/-- A program without registers or storage in use. -/
def idle : Cpu := ⟨fun _ => 0, fun _ => 0⟩

/-- The service returns 7 in R4. -/
def returnsSeven : Supervisor := fun _ s => ⟨0, 0, 0, 7, s.storage⟩

/-- The library's routine loses the 7, and the kernel's returns it. -/
theorem seven_lost : (run .bits31 returnsSeven idle rtlZhwdsvc).2.reg 15 = 0 ∧
    (run .bits31 returnsSeven idle kernelZhwdsvc).2.reg 15 = 7 ∧
    ¬ Equivalent .bits31 returnsSeven idle := by
  have lost : (run .bits31 returnsSeven idle rtlZhwdsvc).2.reg 15 = 0 := by
    rw [rtlZhwdsvc_r15]
    decide
  refine ⟨lost, kernelZhwdsvc_r15 .bits31 returnsSeven idle, fun equivalent => ?_⟩
  have returned := returns_of_equivalent .bits31 returnsSeven idle equivalent
  rw [lost] at returned
  exact absurd returned (by decide)

end Stubs
