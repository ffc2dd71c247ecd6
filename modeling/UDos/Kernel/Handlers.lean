import Mathlib.Data.List.Basic
import UDos.Rtl.Stubs

/-!
# The interruption handlers

The five routines of `handlers.asm` around the handlers in C. They save the
general registers in one area of fixed storage and run on one stack, whatever the
class of the interruption, while each class has an old PSW of its own. All of them
run with input/output, external and machine-check interruptions enabled, so a
handler can be interrupted itself. What the interrupted program gets back is stated
for any such nesting.
-/

namespace Handlers

open Svc Stubs

theorem sixteen_neZero : NeZero 16 := ⟨by decide⟩

attribute [local instance] sixteen_neZero

def flcgrsav : Nat := 384
def flccrsav : Nat := 448

inductive Interruption where
  | external
  | supervisorCall
  | program
  | machineCheck
  | io
deriving DecidableEq, Repr

/-- `FLCEOPSW`, `FLCSOPSW`, `FLCPOPSW`, `FLCMOPSW` and `FLCIOPSW` -/
def oldPsw : Interruption → Nat
  | .external => 0x18
  | .supervisorCall => 0x20
  | .program => 0x28
  | .machineCheck => 0x30
  | .io => 0x38

def newPsw : Interruption → Nat
  | .external => 0x58
  | .supervisorCall => 0x60
  | .program => 0x68
  | .machineCheck => 0x70
  | .io => 0x78

/-- `struct s390_psw` -/
structure Psw where
  flags : UInt32
  address : UInt32
deriving DecidableEq

def loadPsw (m : Storage) (a : Nat) : Psw := ⟨loadWord m a, loadWord m (a + 4)⟩

def storePsw (m : Storage) (a : Nat) (psw : Psw) : Storage :=
  storeWord (storeWord m a psw.flags) (a + 4) psw.address

structure Machine where
  cpu : Cpu
  psw : Psw

/-- What the linker put into the routines: `@FLSTACK`, the entry of the handler in C,
and the addresses that the two BALR leave in R12 and in R14. -/
structure Link where
  flstack : UInt32
  handler : Interruption → UInt32
  base : Interruption → UInt32
  back : Interruption → UInt32

section
variable (mode : Mode) (link : Link)

/-- The machine takes an interruption: it exchanges the PSWs and notes the cause. -/
def interrupt (c : Interruption) (note : Storage → Storage) (s : Machine) : Machine :=
  let storage := note (storePsw s.cpu.storage (oldPsw c) s.psw)
  ⟨{ s.cpu with storage := storage }, loadPsw storage (newPsw c)⟩

/-- The routine up to the call of the handler in C. -/
def prologue (c : Interruption) (s : Cpu) : Cpu :=
  -- STM R0,R15,FLCGRSAV and LM R0,R15,FLCCRSAV
  let s := { s with storage := storeRegisters mode s 0 flcgrsav 15 }
  let s := loadRegisters mode s 0 flccrsav 15
  -- BALR R12,R0, then R13 is the stack and 76(R13) the top of it
  let s := s.set 12 (link.base c)
  let s := s.set 13 link.flstack
  let s := s.set 5 (UInt32.ofNat (address mode s 180 13))
  let s := { s with storage := storeWord s.storage (address mode s 76 13) (s.reg 5) }
  -- L R15 with the handler, and BALR R14,R15
  let s := s.set 15 (link.handler c)
  s.set 14 (link.back c)

/-- From the interruption to the handler in C. -/
def enter (c : Interruption) (note : Storage → Storage) (s : Machine) : Machine :=
  let s := interrupt c note s
  { s with cpu := prologue mode link c s.cpu }

/-- LM R0,R15,FLCGRSAV and LPSW of the old PSW. -/
def leave (c : Interruption) (s : Machine) : Machine :=
  ⟨loadRegisters mode s.cpu 0 flcgrsav 15, loadPsw s.cpu.storage (oldPsw c)⟩

/-- The run of a handler in C: it works, and it is interrupted and goes on any
number of times. -/
inductive Handling where
  | returns (work : Machine → Machine)
  | interrupted (work : Machine → Machine) (c : Interruption) (note : Storage → Storage)
      (inner rest : Handling)

def Handling.run : Handling → Machine → Machine
  | .returns work, s => work s
  | .interrupted work c note inner rest, s =>
    rest.run (leave mode c (inner.run (enter mode link c note (work s))))

/-- The interruptions taken while a handler runs, in the order of time, each with the
state it found. -/
def Handling.taken : Handling → Machine → List (Interruption × Machine)
  | .returns _, _ => []
  | .interrupted work c note inner rest, s =>
    let entered := enter mode link c note (work s)
    (c, work s) :: (inner.taken entered ++ rest.taken (leave mode c (inner.run mode link entered)))

/-- An interruption of a program, up to the point where a program goes on. -/
def service (c : Interruption) (note : Storage → Storage) (handling : Handling) (s : Machine) :
    Machine :=
  leave mode c (handling.run mode link (enter mode link c note s))

end

theorem loadWord_congr {m m' : Storage} {a a' : Nat} (same : ∀ i < 4, m' (a' + i) = m (a + i)) :
    loadWord m' a' = loadWord m a := by
  have first := same 0 (by decide)
  rw [Nat.add_zero, Nat.add_zero] at first
  rw [loadWord, loadWord, first, same 1 (by decide), same 2 (by decide), same 3 (by decide)]

theorem storeWord_outside (m : Storage) {a x : Nat} (w : UInt32) (outside : x < a ∨ a + 4 ≤ x) :
    storeWord m a w x = m x := by
  unfold storeWord
  rw [Storage.write_other _ _ (by omega), Storage.write_other _ _ (by omega),
    Storage.write_other _ _ (by omega), Storage.write_other _ _ (by omega)]

section
variable {mode : Mode}

theorem storeRegisters_outside (s : Cpu) {a k x : Nat} (small : a + 4 * k < mode.size)
    (outside : x < a ∨ a + 4 * (k + 1) ≤ x) : storeRegisters mode s 0 a k x = s.storage x := by
  induction k with
  | zero =>
    rw [storeRegisters]
    exact storeWord_outside _ _ (by omega)
  | succ k ih =>
    rw [storeRegisters, Nat.mod_eq_of_lt small, storeWord_outside _ _ (by omega)]
    exact ih (by omega) (by omega)

/-- Each register is found in its word. -/
theorem loadWord_storeRegisters (s : Cpu) {a k i : Nat} (small : a + 4 * k < mode.size)
    (le : i ≤ k) :
    loadWord (storeRegisters mode s 0 a k) (a + 4 * i) = s.reg (Fin.ofNat 16 i) := by
  induction k with
  | zero =>
    obtain rfl := Nat.le_zero.mp le
    rw [storeRegisters, Nat.mul_zero, Nat.add_zero, loadWord_storeWord]
    rfl
  | succ k ih =>
    rw [storeRegisters, Nat.mod_eq_of_lt small]
    rcases Nat.lt_or_eq_of_le le with below | rfl
    · have kept : loadWord (storeWord (storeRegisters mode s 0 a k) (a + 4 * (k + 1))
          (s.reg (0 + Fin.ofNat 16 (k + 1)))) (a + 4 * i) =
          loadWord (storeRegisters mode s 0 a k) (a + 4 * i) :=
        loadWord_congr fun j hj => storeWord_outside _ _ (by omega)
      rw [kept]
      exact ih (by omega) (by omega)
    · rw [loadWord_storeWord, Fin.zero_add]

theorem loadRegisters_storage (s : Cpu) (r : Register) (a k : Nat) :
    (loadRegisters mode s r a k).storage = s.storage := by
  induction k with
  | zero => rfl
  | succ k ih => rw [loadRegisters, Cpu.set_storage, ih]

theorem loadRegisters_reg (s : Cpu) {a k : Nat} (small : a + 4 * k < mode.size) (few : k < 16)
    (i : Register) (le : i.val ≤ k) :
    (loadRegisters mode s 0 a k).reg i = loadWord s.storage (a + 4 * i.val) := by
  induction k with
  | zero =>
    have i_eq : i = 0 := Fin.ext (Nat.le_zero.mp le)
    subst i_eq
    exact Cpu.set_same s 0 _
  | succ k ih =>
    rw [loadRegisters, Nat.mod_eq_of_lt small, Fin.zero_add]
    have value : (Fin.ofNat 16 (k + 1)).val = k + 1 := Nat.mod_eq_of_lt few
    rcases Nat.lt_or_eq_of_le le with below | same
    · have other : i ≠ Fin.ofNat 16 (k + 1) := fun same => by
        have := congrArg Fin.val same
        omega
      rw [Cpu.set_other _ _ other]
      exact ih (by omega) (by omega) (by omega)
    · have i_eq : i = Fin.ofNat 16 (k + 1) := Fin.ext (same.trans value.symm)
      rw [← i_eq, Cpu.set_same, same]

end

/-- The registers in the save area. -/
def savedRegisters (m : Storage) : Register → UInt32 := fun i => loadWord m (flcgrsav + 4 * i.val)

/-- Work that leaves the old PSWs as they are, and of the saved registers all but the
results of the service. -/
structure Spares (results : Register → Prop) (work : Machine → Machine) : Prop where
  psws : ∀ s x, 0x18 ≤ x → x < 0x40 → (work s).cpu.storage x = s.cpu.storage x
  registers : ∀ s i, ¬ results i →
    savedRegisters (work s).cpu.storage i = savedRegisters s.cpu.storage i

/-- What the machine notes of an interruption is behind the new PSWs, in the first 512
bytes; a machine check notes the registers as well, in the save areas. -/
def NotesApart (note : Storage → Storage) : Prop :=
  ∀ m x, x < 0x80 ∨ 0x200 ≤ x → note m x = m x

def Handling.Spares (results : Register → Prop) : Handling → Prop
  | .returns work => Handlers.Spares results work
  | .interrupted work _ note inner rest =>
    Handlers.Spares results work ∧ NotesApart note ∧ inner.Spares results ∧ rest.Spares results

/-- The stack is above the permanent storage area. -/
def Linked (mode : Mode) (link : Link) : Prop := 1024 ≤ (link.flstack.toNat + 76) % mode.size

theorem loadPsw_congr {m m' : Storage} {a a' : Nat} (same : ∀ i < 8, m' (a' + i) = m (a + i)) :
    loadPsw m' a' = loadPsw m a := by
  have first : loadWord m' a' = loadWord m a := loadWord_congr fun i hi => same i (by omega)
  have second : loadWord m' (a' + 4) = loadWord m (a + 4) := loadWord_congr fun i hi => by
    rw [Nat.add_assoc, Nat.add_assoc]
    exact same _ (by omega)
  rw [loadPsw, loadPsw, first, second]

theorem oldPsw_range (c : Interruption) : 0x18 ≤ oldPsw c ∧ oldPsw c + 8 ≤ 0x40 := by
  cases c <;> simp only [oldPsw] <;> omega

theorem oldPsw_congr {m m' : Storage} (same : ∀ x, 0x18 ≤ x → x < 0x40 → m' x = m x)
    (c : Interruption) : loadPsw m' (oldPsw c) = loadPsw m (oldPsw c) := by
  have range := oldPsw_range c
  exact loadPsw_congr fun i hi => same _ (by omega) (by omega)

theorem loadPsw_storePsw (m : Storage) (a : Nat) (psw : Psw) :
    loadPsw (storePsw m a psw) a = psw := by
  have kept : loadWord (storePsw m a psw) a = psw.flags := by
    have same : loadWord (storePsw m a psw) a = loadWord (storeWord m a psw.flags) a :=
      loadWord_congr fun i hi => storeWord_outside _ _ (by omega)
    rw [same, loadWord_storeWord]
  have stored : loadWord (storePsw m a psw) (a + 4) = psw.address := loadWord_storeWord _ _ _
  rw [loadPsw, kept, stored]

theorem storePsw_outside (m : Storage) {a x : Nat} (psw : Psw) (outside : x < a ∨ a + 8 ≤ x) :
    storePsw m a psw x = m x := by
  rw [storePsw, storeWord_outside _ _ (by omega), storeWord_outside _ _ (by omega)]

theorem oldPsw_apart {c d : Interruption} (other : d ≠ c) :
    oldPsw d + 8 ≤ oldPsw c ∨ oldPsw c + 8 ≤ oldPsw d := by
  cases c <;> cases d <;> first | exact absurd rfl other | (simp only [oldPsw]; omega)

section
variable {mode : Mode} {link : Link}

theorem mode_size (mode : Mode) : 16777216 ≤ mode.size := by
  cases mode <;> simp only [Mode.size] <;> omega

/-- Of the fixed storage the prologue changes the register save area only. -/
theorem prologue_storage (linked : Linked mode link) (c : Interruption) (s : Cpu) :
    savedRegisters (prologue mode link c s).storage = s.reg ∧
      ∀ x, x < 0x180 → (prologue mode link c s).storage x = s.storage x := by
  have size := mode_size mode
  let stored := storeRegisters mode s 0 flcgrsav 15
  have apart : ∀ x, x < 1024 → (prologue mode link c s).storage x = stored x := by
    intro x below
    have top : 1024 ≤ (link.flstack.toNat + 76) % mode.size := linked
    change storeWord _ ((link.flstack.toNat + 76) % mode.size) _ x = stored x
    rw [storeWord_outside _ _ (by omega)]
    have kept : (loadRegisters mode ⟨s.reg, stored⟩ 0 flccrsav 15).storage = stored :=
      loadRegisters_storage _ _ _ _
    exact congrFun kept x
  constructor
  · funext i
    have below := i.isLt
    have found : savedRegisters (prologue mode link c s).storage i =
        loadWord stored (flcgrsav + 4 * i.val) :=
      loadWord_congr fun j hj => apart _ (by simp only [flcgrsav]; omega)
    rw [found, loadWord_storeRegisters s (by simp only [flcgrsav]; omega) (by omega)]
    exact congrArg s.reg (Fin.ext (Nat.mod_eq_of_lt below))
  · intro x below
    rw [apart x (by omega)]
    exact storeRegisters_outside s (by simp only [flcgrsav]; omega)
      (by simp only [flcgrsav]; omega)

/-- Above the permanent storage area an interruption changes the top word of the stack
only. -/
theorem enter_above (c : Interruption) {note : Storage → Storage} (apart : NotesApart note)
    (s : Machine) {x : Nat} (above : 1024 ≤ x)
    (outside : x < (link.flstack.toNat + 76) % mode.size ∨
      (link.flstack.toNat + 76) % mode.size + 4 ≤ x) :
    (enter mode link c note s).cpu.storage x = s.cpu.storage x := by
  have size := mode_size mode
  have range := oldPsw_range c
  let interrupted := (interrupt c note s).cpu
  let stored := storeRegisters mode interrupted 0 flcgrsav 15
  have kept : (loadRegisters mode ⟨interrupted.reg, stored⟩ 0 flccrsav 15).storage = stored :=
    loadRegisters_storage _ _ _ _
  change storeWord _ ((link.flstack.toNat + 76) % mode.size) _ x = _
  rw [storeWord_outside _ _ outside]
  refine (congrFun kept x).trans ?_
  have saved : stored x = interrupted.storage x :=
    storeRegisters_outside interrupted (by simp only [flcgrsav]; omega)
      (by simp only [flcgrsav]; omega)
  rw [saved]
  refine (apart _ _ (Or.inr (by omega))).trans ?_
  exact storePsw_outside _ _ (by omega)

/-- The interruption leaves the registers in the save area and its PSW in the old PSW
of its class; the other old PSWs stay. -/
theorem enter_storage (linked : Linked mode link) (c : Interruption) {note : Storage → Storage}
    (apart : NotesApart note) (s : Machine) :
    savedRegisters (enter mode link c note s).cpu.storage = s.cpu.reg ∧
      loadPsw (enter mode link c note s).cpu.storage (oldPsw c) = s.psw ∧
      ∀ d, d ≠ c → loadPsw (enter mode link c note s).cpu.storage (oldPsw d) =
        loadPsw s.cpu.storage (oldPsw d) := by
  obtain ⟨registers, low⟩ := prologue_storage linked c (interrupt c note s).cpu
  have noted : ∀ x, x < 0x80 → (enter mode link c note s).cpu.storage x =
      storePsw s.cpu.storage (oldPsw c) s.psw x := by
    intro x below
    refine (low x (by omega)).trans ?_
    exact apart _ _ (Or.inl below)
  refine ⟨registers, ?_, fun d other => ?_⟩
  · have range := oldPsw_range c
    have same : loadPsw (enter mode link c note s).cpu.storage (oldPsw c) =
        loadPsw (storePsw s.cpu.storage (oldPsw c) s.psw) (oldPsw c) :=
      loadPsw_congr fun i hi => noted _ (by omega)
    rw [same, loadPsw_storePsw]
  · have range := oldPsw_range d
    have separate := oldPsw_apart other
    refine loadPsw_congr fun i hi => ?_
    rw [noted _ (by omega)]
    exact storePsw_outside _ _ (by omega)

theorem leave_storage (c : Interruption) (s : Machine) :
    (leave mode c s).cpu.storage = s.cpu.storage := loadRegisters_storage _ _ _ _

theorem leave_reg (c : Interruption) (s : Machine) :
    (leave mode c s).cpu.reg = savedRegisters s.cpu.storage := by
  have size := mode_size mode
  funext i
  have below := i.isLt
  exact loadRegisters_reg s.cpu (by simp only [flcgrsav]; omega) (by decide) i (by omega)

end

/-- The registers that the last of these interruptions found, or those that were in
the save area before. -/
def lastRegisters (m : Storage) (taken : List (Interruption × Machine)) : Register → UInt32 :=
  (taken.getLast?.map (·.2.cpu.reg)).getD (savedRegisters m)

/-- The PSW that the last interruption of a class found. -/
def lastPsw (c : Interruption) (m : Storage) (taken : List (Interruption × Machine)) : Psw :=
  ((taken.filter (·.1 = c)).getLast?.map (·.2.psw)).getD (loadPsw m (oldPsw c))

theorem lastRegisters_append (m m' : Storage) (before after : List (Interruption × Machine))
    (i : Register) (saved : savedRegisters m' i = lastRegisters m before i) :
    lastRegisters m' after i = lastRegisters m (before ++ after) i := by
  rw [lastRegisters, lastRegisters, List.getLast?_append]
  cases after.getLast? with
  | none =>
    rw [Option.map_none, Option.getD_none, Option.none_or]
    exact saved
  | some last => rw [Option.some_or, Option.map_some, Option.getD_some, Option.getD_some]

theorem lastPsw_append (c : Interruption) (m m' : Storage)
    (before after : List (Interruption × Machine))
    (saved : loadPsw m' (oldPsw c) = lastPsw c m before) :
    lastPsw c m' after = lastPsw c m (before ++ after) := by
  rw [lastPsw, lastPsw, List.filter_append, List.getLast?_append, saved, lastPsw]
  cases (after.filter (·.1 = c)).getLast? <;> rfl

section
variable {mode : Mode} {link : Link}

/-- What the fixed storage holds after a handler ran: the registers that the last
interruption found, and for each class the PSW that the last one of it found. -/
theorem run_saves (linked : Linked mode link) (results : Register → Prop) (handling : Handling)
    (spares : handling.Spares results) (s : Machine) :
    (∀ i, ¬ results i → savedRegisters (handling.run mode link s).cpu.storage i =
        lastRegisters s.cpu.storage (handling.taken mode link s) i) ∧
      ∀ c, loadPsw (handling.run mode link s).cpu.storage (oldPsw c) =
        lastPsw c s.cpu.storage (handling.taken mode link s) := by
  induction handling generalizing s with
  | returns work =>
    exact ⟨fun i => spares.registers s i, fun c => oldPsw_congr (spares.psws s) c⟩
  | interrupted work c note inner rest innerIh restIh =>
    obtain ⟨workSpares, apart, innerSpares, restSpares⟩ := spares
    let found := work s
    let entered := enter mode link c note found
    let resumed := leave mode c (inner.run mode link entered)
    obtain ⟨registers, own, others⟩ := enter_storage linked c apart found
    obtain ⟨innerRegisters, innerPsw⟩ := innerIh innerSpares entered
    obtain ⟨restRegisters, restPsw⟩ := restIh restSpares resumed
    have kept : resumed.cpu.storage = (inner.run mode link entered).cpu.storage :=
      leave_storage c _
    constructor
    · intro i notResult
      have first : savedRegisters entered.cpu.storage i =
          lastRegisters s.cpu.storage [(c, found)] i := congrFun registers i
      have second : savedRegisters resumed.cpu.storage i = lastRegisters s.cpu.storage
          ([(c, found)] ++ inner.taken mode link entered) i := by
        rw [kept, innerRegisters i notResult, ← lastRegisters_append _ _ _ _ i first]
      exact (restRegisters i notResult).trans (lastRegisters_append _ _ _ _ i second)
    · intro d
      have first : loadPsw entered.cpu.storage (oldPsw d) =
          lastPsw d s.cpu.storage [(c, found)] := by
        by_cases same : d = c
        · subst same
          rw [lastPsw, List.filter_cons_of_pos (by simp)]
          exact own
        · have none : [(c, found)].filter (·.1 = d) = [] := by
            rw [List.filter_cons_of_neg (by simpa using Ne.symm same), List.filter_nil]
          rw [lastPsw, none, others d same]
          exact oldPsw_congr (workSpares.psws s) d
      have second : loadPsw resumed.cpu.storage (oldPsw d) = lastPsw d s.cpu.storage
          ([(c, found)] ++ inner.taken mode link entered) := by
        rw [kept, innerPsw d, ← lastPsw_append d _ _ _ _ first]
      exact (restPsw d).trans (lastPsw_append d _ _ _ _ second)

end

/-- However interruptions nest, a program goes on with the registers that the last
interruption of any class found, the results of the service apart, and with the PSW
that the last interruption of its own class found. -/
theorem service_resumes (mode : Mode) (link : Link) (linked : Linked mode link)
    (c : Interruption) (note : Storage → Storage) (apart : NotesApart note)
    (results : Register → Prop) (handling : Handling) (spares : handling.Spares results)
    (s : Machine) :
    let taken := (c, s) :: handling.taken mode link (enter mode link c note s)
    ∃ last lastOwn, taken.getLast? = some last ∧ (taken.filter (·.1 = c)).getLast? = some lastOwn ∧
      (∀ i, ¬ results i →
        (service mode link c note handling s).cpu.reg i = last.2.cpu.reg i) ∧
      (service mode link c note handling s).psw = lastOwn.2.psw := by
  intro taken
  obtain ⟨registers, own, _⟩ := enter_storage linked c apart s
  obtain ⟨ranRegisters, ranPsw⟩ :=
    run_saves linked results handling spares (enter mode link c note s)
  have found : ∀ i, ¬ results i → (service mode link c note handling s).cpu.reg i =
      lastRegisters s.cpu.storage taken i := by
    intro i notResult
    have first : savedRegisters (enter mode link c note s).cpu.storage i =
        lastRegisters s.cpu.storage [(c, s)] i := congrFun registers i
    rw [service, leave_reg, ranRegisters i notResult]
    exact lastRegisters_append _ _ _ _ i first
  have foundPsw : (service mode link c note handling s).psw = lastPsw c s.cpu.storage taken := by
    have first : loadPsw (enter mode link c note s).cpu.storage (oldPsw c) =
        lastPsw c s.cpu.storage [(c, s)] := by
      rw [lastPsw, List.filter_cons_of_pos (by simp)]
      exact own
    change loadPsw _ (oldPsw c) = _
    rw [ranPsw c]
    exact lastPsw_append c _ _ _ _ first
  obtain ⟨last, isLast⟩ : ∃ last, taken.getLast? = some last :=
    Option.isSome_iff_exists.mp (by simp [taken])
  have ownTaken : taken.filter (·.1 = c) ≠ [] := by
    simp [taken, List.filter_cons_of_pos]
  obtain ⟨lastOwn, isLastOwn⟩ : ∃ lastOwn, (taken.filter (·.1 = c)).getLast? = some lastOwn :=
    ⟨_, List.getLast?_eq_getLast_of_ne_nil ownTaken⟩
  refine ⟨last, lastOwn, isLast, isLastOwn, ?_, ?_⟩
  · intro i notResult
    rw [found i notResult, lastRegisters, isLast]
    rfl
  · rw [foundPsw, lastPsw, isLastOwn]
    rfl

/-- Routines whose stack is at 1 MiB. -/
def anyLink : Link := ⟨0x100000, fun _ => 0, fun _ => 0, fun _ => 0⟩

/-- A supervisor call whose handler has 7 in R5 when an I/O interruption comes. -/
def disturbed : Handling :=
  .interrupted (fun s => { s with cpu := s.cpu.set 5 7 }) .io id (.returns id) (.returns id)

theorem spares_id (results : Register → Prop) : Spares results id :=
  ⟨fun _ _ _ _ => rfl, fun _ _ _ => rfl⟩

theorem disturbed_spares : disturbed.Spares fun i => i = 4 := by
  refine ⟨⟨fun _ _ _ _ => rfl, fun _ _ _ => rfl⟩, fun _ _ _ => rfl, ?_, ?_⟩
  · exact spares_id _
  · exact spares_id _

theorem anyLink_linked : Linked .bits31 anyLink := by
  unfold Linked
  decide

/-- The program that issued the call goes on with the registers of its handler. -/
theorem disturbed_resumes :
    let start : Machine := ⟨idle, ⟨0, 0⟩⟩
    let found := (disturbed.taken .bits31 anyLink (enter .bits31 anyLink .supervisorCall id start))
    ∃ last lastOwn, ((.supervisorCall, start) :: found).getLast? = some last ∧
      (((.supervisorCall, start) :: found).filter (·.1 = .supervisorCall)).getLast? =
        some lastOwn ∧
      (∀ i, ¬ i = 4 →
        (service .bits31 anyLink .supervisorCall id disturbed start).cpu.reg i =
          last.2.cpu.reg i) ∧
      (service .bits31 anyLink .supervisorCall id disturbed start).psw = lastOwn.2.psw :=
  service_resumes .bits31 anyLink anyLink_linked .supervisorCall id (fun _ _ _ => rfl)
    (fun i => i = 4) disturbed disturbed_spares ⟨idle, ⟨0, 0⟩⟩

end Handlers
