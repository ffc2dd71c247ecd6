import UDos.Kernel.Reallocate
import UDos.Kernel.SchedulerTables

/-!
# The first frame of a thread

`KeCreateThread` clears the stack of a new thread and stores the words of its
first save area at the front of the block, as `START` of `entry.asm` does for
the kernel. `START` leaves the address of that save area in R13, and the thread
is given the address behind the block.
-/

namespace ThreadStack

open KernelMemory MmHeap Heap Storage SchedulerTables

/-- The words that are stored into a new stack, in the order of the stores. -/
def stackWords (stack : Nat) : List (Nat × Nat) :=
  [(stack + 76, u32 (stack + 180)), (stack + 8, u32 (stack + 180)), (stack + 4, 0), (stack + 8, 0)]

/-- The stores fall into the block of the stack. -/
def StoresInside (stack stackSize : Nat) : Prop :=
  ∀ w ∈ stackWords stack, stack ≤ w.1 ∧ w.1 + 4 ≤ stack + stackSize

/-- R13 points to a save area of 180 bytes in the block: the top of the stack is
behind it, and it is chained to no other one. -/
structure SaveArea (m : Storage) (stack stackSize r13 : Nat) : Prop where
  lower : stack ≤ r13
  upper : r13 + 180 ≤ stack + stackSize
  top : word m (r13 + 76) = u32 (r13 + 180)
  back : word m (r13 + 4) = 0
  forward : word m (r13 + 8) = 0

/-- What the new thread should find: nothing was stored outside its stack, and
its R13 points to a save area there. -/
def FirstFrame (m : Storage) (thread stack stackSize : Nat) : Prop :=
  StoresInside stack stackSize ∧ SaveArea m stack stackSize (word m (thread + 60))

/-- The thread is in a block in use when its stack is allocated, and the answer
for the stack is NULL or apart from the blocks in use. -/
def SuppliedStack (h : Heap) (answers : Answers) (task stackSize : Nat) : Prop :=
  Outcome.After (fun r => (∃ x ∈ r.2.live, x.1 ≤ r.1 ∧ r.1 + 80 ≤ x.1 + x.2) ∧
    Answered r.2 answers.block stackSize) (appendZero h (task + 4) 80 answers.array)

instance (h : Heap) (answers : Answers) (task stackSize : Nat) :
    Decidable (SuppliedStack h answers task stackSize) :=
  inferInstanceAs (Decidable (Outcome.After _ _))

section
variable {debug : Bool} {h h' : Heap} {answers : Answers} {m : Storage}
  {job task thread stack stackSize : Nat}

theorem setUpStack_eq (m : Storage) (stack : Nat) :
    setUpStack m stack = (stackWords stack).foldl (fun m w => m.setWord w.1 w.2) m := rfl

theorem storesInside_iff : StoresInside stack stackSize ↔ 80 ≤ stackSize := by
  constructor
  · intro inside
    have last := inside (stack + 76, u32 (stack + 180)) List.mem_cons_self
    simp only at last
    omega
  · intro room w hw
    simp only [stackWords, List.mem_cons, List.not_mem_nil, or_false] at hw
    rcases hw with rfl | rfl | rfl | rfl
    · exact ⟨Nat.le_add_right _ _, by simp only; omega⟩
    · exact ⟨Nat.le_add_right _ _, by simp only; omega⟩
    · exact ⟨Nat.le_add_right _ _, by simp only; omega⟩
    · exact ⟨Nat.le_add_right _ _, by simp only; omega⟩

theorem giveStack_storage (returned : giveStack h thread stack stackSize = .ok h') :
    stack ≠ 0 ∧ h'.storage = setUpStack (((h.storage.setWord (thread + 4) stack).fill stack 0
      stackSize).setWord (thread + 60) (u32 (stack + stackSize))) stack := by
  obtain ⟨⟨block, after⟩, allocated, rest⟩ := Outcome.bind_eq_ok.mp returned
  obtain ⟨_, _, same⟩ := Outcome.bind_eq_ok.mp allocated
  cases same
  obtain ⟨_, notNull, same⟩ := Outcome.bind_eq_ok.mp rest
  cases same
  refine ⟨Outcome.check_eq_ok.mp notNull, ?_⟩
  by_cases null : stack = 0
  · exact absurd null (Outcome.check_eq_ok.mp notNull)
  · rw [if_neg null]
    rfl

/-- The stack pointer of a thread whose stack is apart from it, when the words
that are stored into the stack do not fall behind it. -/
theorem giveStack_pointer (returned : giveStack h thread stack stackSize = .ok h')
    (apart : Apart (stack, stackSize) (thread, 80)) (room : 80 ≤ stackSize) :
    word h'.storage (thread + 60) = u32 (stack + stackSize) := by
  obtain ⟨-, after⟩ := giveStack_storage returned
  simp only [Apart] at apart
  have kept : ∀ m : Storage, word (setUpStack m stack) (thread + 60) = word m (thread + 60) :=
    fun m => word_congr fun i _ => setUpStack_outside m (by omega)
  rw [after, kept]
  exact word_setWord _ _ (Nat.mod_lt _ (by decide))

theorem setUpStack_saveArea (m : Storage) (room : 180 ≤ stackSize) :
    SaveArea (setUpStack m stack) stack stackSize stack := by
  refine ⟨Nat.le_refl _, by omega, ?_, ?_, ?_⟩
  · rw [setUpStack, word_setWord_other _ (by omega), word_setWord_other _ (by omega),
      word_setWord_other _ (by omega)]
    exact word_setWord _ _ (Nat.mod_lt _ (by decide))
  · rw [setUpStack, word_setWord_other _ (by omega)]
    exact word_setWord _ _ (by decide)
  · rw [setUpStack]
    exact word_setWord _ _ (by decide)

theorem giveStack_no_frame (returned : giveStack h thread stack stackSize = .ok h')
    (apart : Apart (stack, stackSize) (thread, 80)) (fits : stack + stackSize ≤ 4294967296) :
    ¬ FirstFrame h'.storage thread stack stackSize := by
  rintro ⟨inside, frame⟩
  obtain ⟨notNull, -⟩ := giveStack_storage returned
  have pointer := giveStack_pointer returned apart (storesInside_iff.mp inside)
  have lower := frame.lower
  have upper := frame.upper
  rw [pointer] at lower upper
  unfold u32 at lower upper
  omega

/-- No call that returns sets up a frame to which R13 points, whatever the size
of the stack. The save area is at the front of the stack, if it fits there. -/
theorem keCreateThread_no_frame {r : Nat × Heap}
    (supplied : SuppliedStack h answers task stackSize)
    (returned : keCreateThread debug h answers job task stackSize = .ok r) :
    ¬ FirstFrame r.2.storage r.1 answers.block stackSize ∧
      (180 ≤ stackSize → SaveArea r.2.storage answers.block stackSize answers.block) := by
  obtain ⟨_, _, returned⟩ := Outcome.bind_eq_ok.mp returned
  obtain ⟨⟨thread, h1⟩, appended, returned⟩ := Outcome.bind_eq_ok.mp returned
  obtain ⟨h2, given, same⟩ := Outcome.bind_eq_ok.mp returned
  cases same
  obtain ⟨⟨x, live, lo, hi⟩, answered⟩ := supplied _ appended
  obtain ⟨notNull, after⟩ := giveStack_storage given
  obtain ⟨fits, others⟩ := answered.resolve_left notNull
  have apart := others x live
  simp only at lo hi
  refine ⟨giveStack_no_frame given ?_ fits, fun room => ?_⟩
  · simp only [Apart] at apart ⊢
    omega
  · rw [after]
    exact setUpStack_saveArea _ room

end

/-- A task at 2000 without threads. -/
def oneTask : Heap := ⟨fun _ => 0, [(2000, 16), (1000, 24)]⟩

/-- A thread that gets 256 bytes of stack at 3000. -/
theorem stack_of_256_no_frame :
    ∃ r, keCreateThread true oneTask ⟨1500, 3000⟩ 1000 2000 256 = .ok r ∧
      ¬ FirstFrame r.2.storage r.1 3000 256 := by
  obtain ⟨r, returned⟩ : ∃ r, keCreateThread true oneTask ⟨1500, 3000⟩ 1000 2000 256 = .ok r :=
    Outcome.returns_iff.mp (by decide +kernel)
  exact ⟨r, returned, (keCreateThread_no_frame (by decide +kernel) returned).1⟩

/-- Its R13 is the address behind the block. -/
theorem stack_of_256_pointer :
    ∃ r, keCreateThread true oneTask ⟨1500, 3000⟩ 1000 2000 256 = .ok r ∧
      word r.2.storage (r.1 + 60) = 3256 ∧ ¬ FirstFrame r.2.storage r.1 3000 256 := by
  have pointer : Outcome.Sound (fun r => word r.2.storage (r.1 + 60) = 3256)
      (keCreateThread true oneTask ⟨1500, 3000⟩ 1000 2000 256) := by decide +kernel
  obtain ⟨r, returned, behind⟩ := pointer.returned (by decide +kernel)
  refine ⟨r, returned, behind, fun frame => ?_⟩
  have upper := frame.2.upper
  omega

end ThreadStack
