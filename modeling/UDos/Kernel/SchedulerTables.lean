import UDos.Kernel.MmHeap
import UDos.Library.Runs

/-!
# Creating jobs, tasks and threads

The functions of `scheduler.c` that fill the tables from which `KeSchedule`
selects. Jobs live by value in the array of the static `g_scheduler`, tasks in
the arrays of their job and threads in the arrays of their task; records have
24, 16 and 80 bytes. Callers keep the pointers that the functions return.
-/

namespace SchedulerTables

open KernelMemory MmHeap Arena Storage

/-- The blocks that the allocations of a call are answered with, 0 for NULL:
the array that grows, and the name or the stack. -/
structure Answers where
  array : Nat
  block : Nat

/-- `x->name = MmAllocate(KeStringLength(name) + 1)` and the copy of the name. -/
def nameRecord (h : Heap) (record answer : Nat) (name : CString) : Outcome Heap := do
  let (copy, h) ← mmAllocate h answer (name.chars.length + 1)
  let m := h.storage.setWord record copy
  Outcome.check (copy ≠ 0) "Out of memory"
  .ok { h with storage := m.store copy (name.chars ++ [0]) }

def keCreateJob (table : Nat) (h : Heap) (answers : Answers) (name : CString) (priority : UInt8)
    (maxMem : Nat) : Outcome (Nat × Heap) := do
  let (job, h) ← appendZero h table 24 answers.array
  let h ← nameRecord h job answers.block name
  .ok (job, { h with storage := (h.storage.write (job + 16) priority).setWord (job + 20) maxMem })

def keCreateTask (debug : Bool) (h : Heap) (answers : Answers) (job : Nat) (name : CString) :
    Outcome (Nat × Heap) := do
  Outcome.check (debug = true → job ≠ 0) "Assertion job != NULL && name != NULL failed!\r\n"
  let (task, h) ← appendZero h (job + 4) 16 answers.array
  let h ← nameRecord h task answers.block name
  .ok (task, h)

/-- The stores into the stack of a new thread: the pointers to the next frame,
and the backchain. -/
def setUpStack (m : Storage) (stack : Nat) : Storage :=
  let m := m.setWord (stack + 76) (u32 (stack + 180))
  let m := m.setWord (stack + 8) (u32 (stack + 180))
  let m := m.setWord (stack + 4) 0
  m.setWord (stack + 8) 0

/-- The stack of a new thread, and its stack pointer. -/
def giveStack (h : Heap) (thread answer stackSize : Nat) : Outcome Heap := do
  let (stack, h) ← mmAllocatePhysical h answer stackSize
  let m := h.storage.setWord (thread + 4) stack
  Outcome.check (stack ≠ 0) "Out of memory"
  let m := (m.fill stack 0 stackSize).setWord (thread + 60) (u32 (stack + stackSize))
  .ok { h with storage := setUpStack m stack }

def keCreateThread (debug : Bool) (h : Heap) (answers : Answers) (job task stackSize : Nat) :
    Outcome (Nat × Heap) := do
  Outcome.check (debug = true → job ≠ 0 ∧ task ≠ 0)
    "Assertion job != NULL && task != NULL failed!\r\n"
  let (thread, h) ← appendZero h (task + 4) 80 answers.array
  let h ← giveStack h thread answers.block stackSize
  .ok (thread, h)

/-- What is created; jobs and tasks are passed by the number of the call that
returned the pointer. -/
inductive Creation where
  | job (name : CString) (priority : UInt8) (maxMem : Nat)
  | task (job : Nat) (name : CString)
  | thread (job task stackSize : Nat)

structure Call where
  creation : Creation
  answers : Answers

/-- The heap, the calls made, and the pointers that they returned. -/
structure State where
  heap : Heap
  made : List Call
  pointers : List Nat

def pointerOf (s : State) (i : Nat) : Nat := s.pointers.getD i 0

/-- The function that a call is of. -/
def create (debug : Bool) (table : Nat) (s : State) (call : Call) : Outcome (Nat × Heap) :=
  match call.creation with
  | .job name priority maxMem => keCreateJob table s.heap call.answers name priority maxMem
  | .task job name => keCreateTask debug s.heap call.answers (pointerOf s job) name
  | .thread job task stackSize =>
    keCreateThread debug s.heap call.answers (pointerOf s job) (pointerOf s task) stackSize

@[irreducible] def step (debug : Bool) (table : Nat) (s : State) (call : Call) :
    Outcome State := do
  let (pointer, heap) ← create debug table s call
  .ok ⟨heap, s.made ++ [call], s.pointers ++ [pointer]⟩

inductive Kind where
  | table
  | job
  | task
  | thread
deriving DecidableEq, Repr

/-- The record whose array a call adds to, and the kind of what it adds. -/
def Creation.entry : Creation → Option Nat × Kind
  | .job _ _ _ => (none, .job)
  | .task owner _ => (some owner, .task)
  | .thread _ owner _ => (some owner, .thread)

def logOf (made : List Call) : Log Kind := made.map fun call => call.creation.entry

/-- A task: its name, and the stack and the stack pointer of each thread. -/
structure TaskEntry where
  name : List UInt8
  threads : List (Nat × Nat)
deriving DecidableEq

structure JobEntry where
  name : List UInt8
  tasks : List TaskEntry
deriving DecidableEq

def readName (m : Storage) (a : Nat) : List UInt8 := text m 2147483648 (word m a)

def readThread (m : Storage) (a : Nat) : Nat × Nat := (word m (a + 4), word m (a + 60))

def readTask (m : Storage) (a : Nat) : TaskEntry :=
  ⟨readName m a, (List.range (word m (a + 8))).map fun i => readThread m (word m (a + 4) + i * 80)⟩

def readJob (m : Storage) (a : Nat) : JobEntry :=
  ⟨readName m a, (List.range (word m (a + 8))).map fun i => readTask m (word m (a + 4) + i * 16)⟩

/-- What is found from `g_scheduler.jobs`. -/
def readJobs (m : Storage) (table : Nat) : List JobEntry :=
  (List.range (word m (table + 4))).map fun i => readJob m (word m table + i * 24)

def nameOf (made : List Call) (i : Nat) : List UInt8 :=
  match (made[i]?).map Call.creation with
  | some (.job name _ _) => name.chars
  | some (.task _ name) => name.chars
  | _ => []

/-- The stack and the stack pointer that a thread was given. -/
def threadOf (made : List Call) (i : Nat) : Nat × Nat :=
  match made[i]? with
  | some ⟨.thread _ _ stackSize, answers⟩ => (answers.block, u32 (answers.block + stackSize))
  | _ => (0, 0)

def jobOf (made : List Call) (i : Nat) : Option Nat :=
  match (made[i]?).map Call.creation with
  | some (.thread job _ _) => some job
  | _ => none

/-- The threads that were created for a job and one of its tasks. -/
def createdTask (made : List Call) (job task : Nat) : TaskEntry :=
  ⟨nameOf made task, ((children (logOf made) (some task) .thread).filter fun i =>
    jobOf made i = some job).map (threadOf made)⟩

def createdJob (made : List Call) (job : Nat) : JobEntry :=
  ⟨nameOf made job, (children (logOf made) (some job) .task).map (createdTask made job)⟩

/-- The jobs that were created, each with its tasks, each with its threads. -/
def createdJobs (made : List Call) : List JobEntry :=
  (children (logOf made) none .job).map (createdJob made)

def layout : Layout Kind where
  width
    | .table => 12
    | .job => 24
    | .task => 16
    | .thread => 80
  field
    | .table, .job => some 0
    | .job, .task => some 4
    | .task, .thread => some 4
    | _, _ => none
  positive k := by cases k <;> decide
  fits {k l off} h := by cases k <;> cases l <;> cases h <;> decide
  fieldsApart {k l l' off off'} h h' differ := by
    cases k <;> cases l <;> cases h <;> cases l' <;> cases h' <;> exact absurd rfl differ

section
variable {table current : Nat} {s : State} {base : Option Nat × Kind → Nat}

/-- What the record at an address shows of the call that created it; the cursor of a job or a
task is cleared. -/
def Shows (table : Nat) (h : Heap) (log : Log Kind) (base : Option Nat × Kind → Nat) (a : Nat)
    (call : Call) : Prop :=
  match call.creation with
  | .job name _ _ => Named table h log base a name.chars ∧ word h.storage (a + 12) = 0
  | .task _ name => Named table h log base a name.chars ∧ word h.storage (a + 12) = 0
  | .thread _ _ stackSize => readThread h.storage a =
      (call.answers.block, u32 (call.answers.block + stackSize))

/-- What every state reached holds: the tables of what was created are in
storage, pointers to the newest records of their arrays are right, threads
were created for the job of their task, and the cursor of the jobs is as it was. -/
structure Holds (table current : Nat) (s : State) (base : Option Nat × Kind → Nat) : Prop where
  laid : Laid layout .table table s.heap (logOf s.made) base
  tracked : Tracked layout table (logOf s.made) base s.pointers
  shows : ∀ {i : Nat} {call : Call}, s.made[i]? = some call →
    Shows table s.heap (logOf s.made) base (place layout table (logOf s.made) base (some i)) call
  owned : ∀ {i : Nat} {call : Call} {job task stackSize : Nat}, s.made[i]? = some call →
    call.creation = .thread job task stackSize →
      (logOf s.made)[task]? = some (some job, .task)
  cursor : word s.heap.storage (table + 8) = current

theorem logOf_here {made : List Call} {i : Nat} {e : Option Nat × Kind}
    (here : (logOf made)[i]? = some e) : ∃ call, made[i]? = some call ∧ call.creation.entry = e := by
  simpa [logOf] using here

theorem known_of_here {log : Log Kind} {i : Nat} {p : Option Nat} {k : Kind}
    (here : log[i]? = some (p, k)) : kindOf .table log (some i) = some k := by
  rw [kindOf, here]
  rfl

theorem Named.read {h : Heap} {log : Log Kind} {a : Nat} {name : CString}
    (named : Named table h log base a name.chars) (sane : h.Sane) :
    readName h.storage a = name.chars := by
  have room := (sane.proper _ named.block.live).2.2
  simp only at room
  exact text_eq named.chars name.noNul (by omega)

theorem Holds.readName_eq (holds : Holds table current s base) {i : Nat} {p : Option Nat} {k : Kind}
    (here : (logOf s.made)[i]? = some (p, k)) (named : k ≠ .thread) :
    readName s.heap.storage (place layout table (logOf s.made) base (some i)) =
      nameOf s.made i := by
  obtain ⟨⟨creation, answers⟩, at0, entry⟩ := logOf_here here
  have shown := holds.shows at0
  cases creation with
  | job name priority maxMem =>
    rw [nameOf, at0]
    exact Named.read shown.1 holds.laid.sane
  | task job name =>
    rw [nameOf, at0]
    exact Named.read shown.1 holds.laid.sane
  | thread job task stackSize => exact absurd (congrArg Prod.snd entry).symm named

theorem Holds.readThread_eq (holds : Holds table current s base) {i : Nat} {p : Option Nat}
    (here : (logOf s.made)[i]? = some (p, .thread)) :
    readThread s.heap.storage (place layout table (logOf s.made) base (some i)) =
      threadOf s.made i := by
  obtain ⟨⟨creation, answers⟩, at0, entry⟩ := logOf_here here
  have shown := holds.shows at0
  cases creation with
  | job name priority maxMem => cases entry
  | task job name => cases entry
  | thread job task stackSize =>
    rw [threadOf, at0]
    exact shown

/-- A thread that is in a task was created for the job of the task. -/
theorem Holds.jobOf_eq (holds : Holds table current s base) {i job task : Nat}
    (here : (logOf s.made)[i]? = some (some task, .thread))
    (taskHere : (logOf s.made)[task]? = some (some job, .task)) :
    jobOf s.made i = some job := by
  obtain ⟨⟨creation, answers⟩, at0, entry⟩ := logOf_here here
  cases creation with
  | job name priority maxMem => cases entry
  | task job name => cases entry
  | thread job' task' stackSize =>
    cases entry
    have owned := holds.owned at0 rfl
    rw [taskHere] at owned
    cases owned
    rw [jobOf, at0]
    rfl

theorem Holds.readTask_eq (holds : Holds table current s base) {job task : Nat}
    (here : (logOf s.made)[task]? = some (some job, .task)) :
    readTask s.heap.storage (place layout table (logOf s.made) base (some task)) =
      createdTask s.made job task := by
  have known := known_of_here here
  have threadsAt := holds.laid.pointer known (l := .thread) rfl
  have threadsCount := holds.laid.count known (l := .thread) rfl
  have threads := map_children (readThread s.heap.storage) (threadOf s.made) fun i threadHere =>
    holds.readThread_eq (p := some task) threadHere
  have all : (children (logOf s.made) (some task) .thread).filter
      (fun i => jobOf s.made i = some job) = children (logOf s.made) (some task) .thread := by
    apply List.filter_eq_self.mpr
    intro i member
    simpa using holds.jobOf_eq (mem_children.mp member) here
  rw [readTask, createdTask, holds.readName_eq here (by decide), all, threadsCount, threadsAt]
  exact congrArg (TaskEntry.mk (nameOf s.made task)) threads

theorem Holds.readJob_eq (holds : Holds table current s base) {job : Nat}
    (here : (logOf s.made)[job]? = some (none, .job)) :
    readJob s.heap.storage (place layout table (logOf s.made) base (some job)) =
      createdJob s.made job := by
  have known := known_of_here here
  have tasksAt := holds.laid.pointer known (l := .task) rfl
  have tasksCount := holds.laid.count known (l := .task) rfl
  have tasks := map_children (readTask s.heap.storage) (createdTask s.made job) fun i taskHere =>
    holds.readTask_eq taskHere
  rw [readJob, createdJob, holds.readName_eq here (by decide), tasksCount, tasksAt]
  exact congrArg (JobEntry.mk (nameOf s.made job)) tasks

theorem Holds.readJobs_eq (holds : Holds table current s base) :
    readJobs s.heap.storage table = createdJobs s.made := by
  have jobsAt := holds.laid.pointer (p := none) rfl (l := .job) rfl
  have jobsCount := holds.laid.count (p := none) rfl (l := .job) rfl
  have jobs := map_children (readJob s.heap.storage) (createdJob s.made) fun i jobHere =>
    holds.readJob_eq jobHere
  simp only [place, Nat.add_zero] at jobsAt jobsCount
  rw [readJobs, createdJobs, jobsCount, jobsAt]
  exact jobs

theorem private_name {k : Kind} {i : Nat} (named : k = .job ∨ k = .task) (hi : i < 4) :
    layout.Private k i := by
  rcases named with rfl | rfl
  · refine ⟨Nat.lt_of_lt_of_le hi (by decide), fun l off field => ?_⟩
    cases l <;> cases field
    exact Or.inl hi
  · refine ⟨Nat.lt_of_lt_of_le hi (by decide), fun l off field => ?_⟩
    cases l <;> cases field
    exact Or.inl hi

theorem private_cursor {k : Kind} {o : Nat} (named : k = .job ∨ k = .task) (lo : 12 ≤ o)
    (hi : o < 16) : layout.Private k o := by
  rcases named with rfl | rfl
  · refine ⟨Nat.lt_of_lt_of_le hi (by decide), fun l off field => ?_⟩
    cases l <;> cases field
    exact Or.inr lo
  · refine ⟨hi, fun l off field => ?_⟩
    cases l <;> cases field
    exact Or.inr lo

theorem private_thread {o : Nat} (ho : o < 80) : layout.Private .thread o :=
  ⟨ho, fun l off field => by cases l <;> cases field⟩

theorem private_behind {o : Nat} (lo : 16 ≤ o) (hi : o < 24) : layout.Private .job o := by
  refine ⟨hi, fun l off field => ?_⟩
  cases l <;> cases field
  omega

/-- What a record shows is kept with its private bytes and with the blocks
outside the tables. -/
theorem Shows.kept {h h' : Heap} {log log' : Log Kind} {base' : Option Nat × Kind → Nat}
    {a a' : Nat} {call : Call} (shown : Shows table h log base a call)
    (bytes : ∀ o, layout.Private call.creation.entry.2 o →
      h'.storage (a' + o) = h.storage (a + o))
    (outside : ∀ x, Outside table h log base x → Outside table h' log' base' x ∧
      ∀ b, x.1 ≤ b → b < x.1 + x.2 → h'.storage b = h.storage b) :
    Shows table h' log' base' a' call := by
  obtain ⟨creation, answers⟩ := call
  have cursor : creation.entry.2 = .job ∨ creation.entry.2 = .task →
      word h'.storage (a' + 12) = word h.storage (a + 12) := by
    intro named
    apply word_congr
    intro i hi
    rw [Nat.add_assoc, Nat.add_assoc]
    exact bytes _ (private_cursor named (by omega) (by omega))
  cases creation with
  | job name priority maxMem =>
    exact ⟨shown.1.kept (fun i hi => bytes i (private_name (Or.inl rfl) hi)) outside,
      (cursor (Or.inl rfl)).trans shown.2⟩
  | task job name =>
    exact ⟨shown.1.kept (fun i hi => bytes i (private_name (Or.inr rfl) hi)) outside,
      (cursor (Or.inr rfl)).trans shown.2⟩
  | thread job task stackSize =>
    have at0 : ∀ o, o + 4 ≤ 80 → word h'.storage (a' + o) = word h.storage (a + o) := by
      intro o ho
      apply word_congr
      intro i hi
      rw [Nat.add_assoc, Nat.add_assoc]
      exact bytes _ (private_thread (by omega))
    refine Eq.trans ?_ shown
    rw [readThread, readThread, at0 4 (by omega), at0 60 (by omega)]

/-- A record that was added and then filled in completes a call. -/
theorem Holds.finish {h2 h' : Heap} {call : Call} {p : Option Nat} {k l : Kind} {off array : Nat}
    (holds : Holds table current s base) (entry : call.creation.entry = (p, l))
    (field : layout.field k l = some off) (knownP : kindOf .table (logOf s.made) p = some k)
    (added : Added layout .table table s.heap h2 (logOf s.made) base p l off array fun _ => 0)
    (touched : Touched layout h2 h' (array + (logOf s.made).count (p, l) * layout.width l) l)
    (shown : Shows table h' (logOf s.made ++ [(p, l)]) (Function.update base (p, l) array)
      (array + (logOf s.made).count (p, l) * layout.width l) call)
    (owned : ∀ {job task stackSize : Nat}, call.creation = .thread job task stackSize →
      (logOf s.made)[task]? = some (some job, .task)) :
    Holds table current ⟨h', s.made ++ [call],
      s.pointers ++ [array + (logOf s.made).count (p, l) * layout.width l]⟩
      (Function.update base (p, l) array) := by
  have log : logOf (s.made ++ [call]) = logOf s.made ++ [(p, l)] := by simp [logOf, entry]
  have length : (logOf s.made).length = s.made.length := by simp [logOf]
  have known : kindOf .table (logOf s.made ++ [(p, l)]) (some (logOf s.made).length) = some l := by
    rw [kindOf, List.getElem?_concat_length]
    rfl
  have newPlace : place layout table (logOf s.made ++ [(p, l)])
      (Function.update base (p, l) array) (some (logOf s.made).length) =
        array + (logOf s.made).count (p, l) * layout.width l := place_append_new
  have touchedNew := touched
  rw [← newPlace] at touchedNew
  have root : ∀ o, 8 ≤ o → o < 12 → h'.storage (table + o) = s.heap.storage (table + o) := by
    intro o lo hi
    have kept := added.laid.touched_record known touchedNew (p := none) (l := .table) rfl hi
      fun own => by cases own
    refine kept.trans (added.record (q := none) rfl hi fun own => ?_)
    subst own
    cases Option.some.inj knownP
    cases l <;> cases field
    exact Or.inr lo
  refine ⟨by rw [log]; exact added.laid.touched known touchedNew,
    by rw [log]; exact holds.tracked.append _ _ _, ?_, ?_, ?_⟩
  · intro i c here
    simp only [log]
    rcases found_concat here with here | ⟨rfl, rfl⟩
    · have old := (List.getElem?_eq_some_iff.mp here).1
      have knownI : kindOf .table (logOf s.made) (some i) = some c.creation.entry.2 := by
        simp [kindOf, logOf, here]
      have moved : Shows table h2 (logOf s.made ++ [(p, l)]) (Function.update base (p, l) array)
          (place layout table (logOf s.made ++ [(p, l)]) (Function.update base (p, l) array)
            (some i)) c := by
        refine (holds.shows here).kept (fun o isPrivate => ?_) added.outside
        refine added.record knownI isPrivate.1 fun own => ?_
        subst own
        cases knownI.symm.trans knownP
        exact isPrivate.2 _ _ field
      refine moved.kept (fun o isPrivate => ?_) fun x away =>
        added.laid.touched_outside known touchedNew away
      refine added.laid.touched_record known touchedNew (kindOf_append _ knownI) isPrivate.1 ?_
      intro own
      cases own
      omega
    · rw [← length, place_append_new]
      exact shown
  · intro i c job task stackSize here thread
    have ownedBefore : (logOf s.made)[task]? = some (some job, .task) := by
      rcases found_concat here with old | ⟨_, rfl⟩
      · exact holds.owned old thread
      · exact owned thread
    simp only [log]
    rw [List.getElem?_append_left (List.getElem?_eq_some_iff.mp ownedBefore).1]
    exact ownedBefore
  · refine (word_congr fun i hi => ?_).trans holds.cursor
    rw [Nat.add_assoc]
    exact root _ (by omega) (by omega)

theorem record_held {h : Heap} {log : Log Kind} {q : Option Nat} {k : Kind} {o : Nat}
    (laid : Laid layout .table table h log base) (known : kindOf .table log q = some k)
    (ho : o < layout.width k) : h.Held (place layout table log base q + o) := by
  obtain ⟨n, live, lo, hi⟩ := laid.in_block known
  exact ⟨_, live, by simp only; omega, by simp only; omega⟩

/-- Naming a job or a task fills in its private bytes and a fresh block. -/
theorem nameRecord_sound {h : Heap} {log : Log Kind} {q : Option Nat} {k : Kind} {answer : Nat}
    {name : CString} (laid : Laid layout .table table h log base)
    (known : kindOf .table log q = some k) (named : k = .job ∨ k = .task)
    (fresh : answer = 0 ∨ h.Fresh (answer, name.chars.length + 1)) :
    Outcome.Sound (fun h' => Touched layout h h' (place layout table log base q) k ∧
        Named table h' log base (place layout table log base q) name.chars ∧
        word h'.storage (place layout table log base q + 12) =
          word h.storage (place layout table log base q + 12))
      (nameRecord h (place layout table log base q) answer name) := by
  refine (mmAllocate_sound h answer _).bind ?_
  rintro ⟨copy, after⟩ ⟨rfl, allocated⟩
  refine (Outcome.sound_check _).bind fun _ notNull => ?_
  have same : after = h.hold (copy, name.chars.length + 1) := allocated notNull
  subst same
  have free := fresh.resolve_left notNull
  set record := place layout table log base q with hr
  have width : 16 ≤ layout.width k := by rcases named with rfl | rfl <;> decide
  have text : ∀ x, h.Held x →
      ((h.storage.setWord record copy).store copy (name.chars ++ [0])) x =
        h.storage.setWord record copy x := by
    intro x held
    exact store_outside _ (by simpa using free.not_held held)
  have pointer : word ((h.storage.setWord record copy).store copy (name.chars ++ [0])) record =
      copy := by
    refine (word_congr fun i hi => text _ (record_held laid known (by omega))).trans ?_
    have range := free.1.2.2
    simp only at range
    exact word_setWord _ _ (by omega)
  have chars := store_bytes (h.storage.setWord record copy) copy (name.chars ++ [0])
  rw [List.length_append, List.length_singleton] at chars
  refine ⟨⟨(laid.sane.hold free).write _, fun x hx => List.mem_cons_of_mem _ hx, ?_⟩, ?_⟩
  · intro x held clean
    refine (text x held).trans (setWord_outside _ ?_)
    by_contra inside
    exact clean (x - record) (private_name named (by omega)) (by omega)
  · refine ⟨Named.fresh laid free pointer chars, word_congr fun i hi => ?_⟩
    rw [Nat.add_assoc]
    exact (text _ (record_held laid known (by omega))).trans (setWord_outside _ (by omega))

theorem setUpStack_outside (m : Storage) {stack x : Nat} (outside : x < stack ∨ stack + 80 ≤ x) :
    setUpStack m stack x = m x := by
  rw [setUpStack, setWord_outside _ (by omega), setWord_outside _ (by omega),
    setWord_outside _ (by omega), setWord_outside _ (by omega)]

/-- A stack fills in private bytes of the thread and fresh storage. -/
theorem giveStack_sound {h : Heap} {log : Log Kind} {q : Option Nat} {answer stackSize : Nat}
    (laid : Laid layout .table table h log base) (known : kindOf .table log q = some .thread)
    (fresh : answer = 0 ∨ h.Fresh (answer, max stackSize 80)) :
    Outcome.Sound (fun h' => Touched layout h h' (place layout table log base q) .thread ∧
        readThread h'.storage (place layout table log base q) = (answer, u32 (answer + stackSize)))
      (giveStack h (place layout table log base q) answer stackSize) := by
  by_cases none0 : stackSize = 0
  · subst none0
    trivial
  refine (mmAllocate_sound h answer _).bind ?_
  rintro ⟨stack, after⟩ ⟨rfl, allocated⟩
  refine (Outcome.sound_check _).bind fun _ notNull => ?_
  have same : after = h.hold (stack, stackSize) := allocated notNull
  subst same
  have room := fresh.resolve_left notNull
  have free := room.front (Nat.pos_of_ne_zero none0) (Nat.le_max_left _ _)
  have range := room.1.2.2
  simp only at range
  set thread := place layout table log base q with ht
  have bytes : ∀ x, h.Held x → setUpStack (((h.storage.setWord (thread + 4) stack).fill stack 0
      stackSize).setWord (thread + 60) (u32 (stack + stackSize))) stack x =
      ((h.storage.setWord (thread + 4) stack).fill stack 0 stackSize).setWord (thread + 60)
        (u32 (stack + stackSize)) x := by
    intro x held
    have apart := room.not_held held
    exact setUpStack_outside _ (by simp only at apart; omega)
  have filled : ∀ x, h.Held x → (h.storage.setWord (thread + 4) stack).fill stack 0 stackSize x =
      h.storage.setWord (thread + 4) stack x :=
    fun x held => fill_outside _ (free.not_held held)
  refine ⟨⟨(laid.sane.hold free).write _, fun x hx => List.mem_cons_of_mem _ hx, ?_⟩, ?_⟩
  · intro x held clean
    have away : ∀ o, o < 80 → x ≠ thread + o := fun o ho => clean o (private_thread ho)
    have behind : x < thread ∨ thread + 80 ≤ x := by
      by_contra inside
      exact away (x - thread) (by omega) (by omega)
    refine (bytes x held).trans ?_
    rw [setWord_outside _ (by omega), filled x held, setWord_outside _ (by omega)]
  · have held : ∀ o, o < 80 → h.Held (thread + o) := fun o ho => record_held laid known ho
    have pointer : u32 (stack + stackSize) < 4294967296 := Nat.mod_lt _ (by decide)
    refine Prod.ext ?_ ?_
    · refine (word_congr fun i hi => bytes _ (by rw [Nat.add_assoc]; exact held _ (by omega))).trans ?_
      rw [word_setWord_other _ (by omega)]
      refine (word_congr fun i hi => filled _ (by rw [Nat.add_assoc]; exact held _ (by omega))).trans ?_
      exact word_setWord _ _ (by omega)
    · refine (word_congr fun i hi => bytes _ (by rw [Nat.add_assoc]; exact held _ (by omega))).trans ?_
      exact word_setWord _ _ pointer

end

/-- Where the array is described that a call adds to. -/
def fieldOf (table : Nat) (s : State) : Creation → Nat
  | .job _ _ _ => table
  | .task job _ => pointerOf s job + 4
  | .thread _ task _ => pointerOf s task + 4

/-- The storage that a call fills in behind the array: the name, or the stack
with the words that are stored at its front. -/
def blockRoom : Creation → Nat
  | .job name _ _ => name.chars.length + 1
  | .task _ name => name.chars.length + 1
  | .thread _ _ stackSize => max stackSize 80

/-- The answers for a call are NULL or fresh blocks, and the one for the array
is placed below the array that it replaces. -/
def Supplied (table : Nat) (s : State) (call : Call) : Prop :=
  let field := fieldOf table s call.creation
  let old := word s.heap.storage field
  let room := (word s.heap.storage (field + 4) + 1) * layout.width call.creation.entry.2
  Placed s.heap call.answers.array old room ∧
    (call.answers.array ≠ 0 → call.answers.block = 0 ∨
      Heap.Fresh ⟨s.heap.storage, (call.answers.array, room) :: s.heap.live.filter fun x => x.1 ≠ old⟩
        (call.answers.block, blockRoom call.creation))

/-- The jobs and tasks that are passed were returned by earlier calls. -/
def Allowed (s : State) (call : Call) : Prop :=
  match call.creation with
  | .job _ _ _ => True
  | .task job _ => kindOf .table (logOf s.made) (some job) = some .job
  | .thread job task _ => kindOf .table (logOf s.made) (some job) = some .job ∧
      kindOf .table (logOf s.made) (some task) = some .task

/-- The record that gets a child is the one last added to its array, and a
thread is created for the job of its task. -/
def FromNewest (s : State) (call : Call) : Prop :=
  match call.creation with
  | .job _ _ _ => True
  | .task job _ => Newest (logOf s.made) job
  | .thread job task _ => Newest (logOf s.made) task ∧
      (logOf s.made)[task]? = some (some job, .task)

instance (table : Nat) (s : State) (call : Call) : Decidable (Supplied table s call) :=
  inferInstanceAs (Decidable (_ ∧ _))

instance (s : State) (call : Call) : Decidable (Allowed s call) :=
  match call with
  | ⟨.job _ _ _, _⟩ => isTrue trivial
  | ⟨.task _ _, _⟩ => inferInstanceAs (Decidable (_ = _))
  | ⟨.thread _ _ _, _⟩ => inferInstanceAs (Decidable (_ ∧ _))

instance (s : State) (call : Call) : Decidable (FromNewest s call) :=
  match call with
  | ⟨.job _ _ _, _⟩ => isTrue trivial
  | ⟨.task job _, _⟩ => inferInstanceAs (Decidable (Newest _ job))
  | ⟨.thread _ _ _, _⟩ => inferInstanceAs (Decidable (_ ∧ _))

/-- The condition on a call under which what it creates is found in the tables. -/
def Clear (table : Nat) (s : State) (call : Call) : Prop :=
  Allowed s call ∧ FromNewest s call ∧ Supplied table s call

instance (table : Nat) (s : State) (call : Call) : Decidable (Clear table s call) :=
  inferInstanceAs (Decidable (_ ∧ _))

section
variable {debug : Bool} {table current : Nat} {s : State} {base : Option Nat × Kind → Nat}

theorem Holds.pointerOf_eq (holds : Holds table current s base) {i : Nat} {k : Kind}
    (known : kindOf .table (logOf s.made) (some i) = some k)
    (newest : Newest (logOf s.made) i) :
    pointerOf s i = place layout table (logOf s.made) base (some i) := by
  have inPointers : i < s.pointers.length := by
    rw [holds.tracked.length]
    exact kindOf_lt known
  have here := List.getElem?_eq_getElem inPointers
  rw [pointerOf, List.getD_eq_getElem?_getD, here]
  exact holds.tracked.right newest here

/-- What a call relies on: it adds to the array of a record that is where its
pointer says, and its answers are placed. -/
structure Ready (table : Nat) (s : State) (base : Option Nat × Kind → Nat) (call : Call)
    (p : Option Nat) (k l : Kind) (off : Nat) : Prop where
  entry : call.creation.entry = (p, l)
  field : layout.field k l = some off
  known : kindOf .table (logOf s.made) p = some k
  placed : Placed s.heap call.answers.array (base (p, l))
    (((logOf s.made).count (p, l) + 1) * layout.width l)
  free : call.answers.array ≠ 0 → ∀ h2, Added layout .table table s.heap h2 (logOf s.made) base p l
    off call.answers.array (fun _ => 0) → call.answers.block = 0 ∨
      h2.Fresh (call.answers.block, blockRoom call.creation)
  owned : ∀ {job task stackSize : Nat}, call.creation = .thread job task stackSize →
    (logOf s.made)[task]? = some (some job, .task)

theorem Holds.ready (holds : Holds table current s base) {call : Call} {p : Option Nat} {k l : Kind}
    {off : Nat} (entry : call.creation.entry = (p, l)) (field : layout.field k l = some off)
    (known : kindOf .table (logOf s.made) p = some k)
    (argument : fieldOf table s call.creation = place layout table (logOf s.made) base p + off)
    (supplied : Supplied table s call)
    (owned : ∀ {job task stackSize : Nat}, call.creation = .thread job task stackSize →
      (logOf s.made)[task]? = some (some job, .task)) :
    Ready table s base call p k l off := by
  obtain ⟨placed, free⟩ := supplied
  rw [argument, holds.laid.pointer known field, holds.laid.count known field, entry] at placed free
  refine ⟨entry, field, known, placed, fun some h2 added => ?_, owned⟩
  rcases free some with null | fresh
  · exact Or.inl null
  · refine Or.inr ⟨fresh.1, fun x hx => fresh.2 x ?_⟩
    rcases (added.live x).mp hx with rfl | ⟨old, other⟩
    · exact List.mem_cons_self
    · exact List.mem_cons_of_mem _ (List.mem_filter.mpr ⟨old, by simpa using other⟩)

theorem known_new (log : Log Kind) (p : Option Nat) (l : Kind) :
    kindOf .table (log ++ [(p, l)]) (some log.length) = some l := by
  rw [kindOf, List.getElem?_concat_length]
  rfl

/-- The record that a call adds is the last one of the array, and the block for
the name or the stack is free then. -/
theorem Ready.added {call : Call} {p : Option Nat} {k l : Kind} {off : Nat}
    (ready : Ready table s base call p k l off) (holds : Holds table current s base) :
    Outcome.Sound (fun r =>
        r.1 = place layout table (logOf s.made ++ [(p, l)])
          (Function.update base (p, l) call.answers.array) (some (logOf s.made).length) ∧
        Added layout .table table s.heap r.2 (logOf s.made) base p l off call.answers.array
          (fun _ => 0) ∧
        (call.answers.block = 0 ∨ r.2.Fresh (call.answers.block, blockRoom call.creation)))
      (appendZero s.heap (place layout table (logOf s.made) base p + off) (layout.width l)
        call.answers.array) := by
  refine (appendZero_added holds.laid ready.known ready.field ready.placed).mono ?_
  rintro ⟨element, h2⟩ ⟨rfl, added⟩
  have block := added.laid.sane.proper _ ((added.live _).mpr (Or.inl rfl))
  exact ⟨place_append_new.symm, added, ready.free (Nat.ne_of_gt block.1) h2 added⟩

/-- What is filled in completes the call. -/
theorem Ready.finish {call : Call} {p : Option Nat} {k l : Kind} {off : Nat} {h2 h' : Heap}
    (ready : Ready table s base call p k l off) (holds : Holds table current s base)
    (added : Added layout .table table s.heap h2 (logOf s.made) base p l off call.answers.array
      fun _ => 0)
    (touched : Touched layout h2 h' (place layout table (logOf s.made ++ [(p, l)])
      (Function.update base (p, l) call.answers.array) (some (logOf s.made).length)) l)
    (shown : Shows table h' (logOf s.made ++ [(p, l)])
      (Function.update base (p, l) call.answers.array)
      (place layout table (logOf s.made ++ [(p, l)])
        (Function.update base (p, l) call.answers.array) (some (logOf s.made).length)) call) :
    ∃ base', Holds table current ⟨h', s.made ++ [call], s.pointers ++ [place layout table
      (logOf s.made ++ [(p, l)]) (Function.update base (p, l) call.answers.array)
      (some (logOf s.made).length)]⟩ base' := by
  rw [place_append_new] at touched shown ⊢
  exact ⟨_, holds.finish ready.entry ready.field ready.known added touched shown ready.owned⟩

/-- The cursor of a new record is cleared. -/
theorem added_cursor {h h2 : Heap} {log : Log Kind} {p : Option Nat} {l : Kind} {off b : Nat}
    (added : Added layout .table table h h2 log base p l off b fun _ => 0)
    (width : 16 ≤ layout.width l) :
    word h2.storage (place layout table (log ++ [(p, l)]) (Function.update base (p, l) b)
      (some log.length) + 12) = 0 := by
  rw [place_append_new]
  refine word_zero fun i hi => ?_
  rw [Nat.add_assoc _ 12 i]
  exact added.content _ (by omega)

theorem keCreateJob_holds (holds : Holds table current s base) {name : CString} {priority : UInt8}
    {maxMem : Nat} {answers : Answers}
    (supplied : Supplied table s ⟨.job name priority maxMem, answers⟩) :
    Outcome.Sound (fun r => ∃ base', Holds table current
        ⟨r.2, s.made ++ [⟨.job name priority maxMem, answers⟩], s.pointers ++ [r.1]⟩ base')
      (keCreateJob table s.heap answers name priority maxMem) := by
  have ready : Ready table s base ⟨.job name priority maxMem, answers⟩ none .table .job 0 :=
    holds.ready rfl rfl rfl rfl supplied fun thread => by cases thread
  refine (ready.added holds).bind ?_
  rintro ⟨_, h2⟩ ⟨rfl, added, free⟩
  have known := known_new (logOf s.made) none .job
  refine (nameRecord_sound added.laid known (Or.inl rfl) free).bind ?_
  rintro h3 ⟨touched, named, cursor⟩
  have laid := added.laid.touched known touched
  have cleared := cursor.trans (added_cursor added (by decide))
  set job := place layout table (logOf s.made ++ [(none, .job)])
    (Function.update base (none, .job) answers.array) (some (logOf s.made).length) with hj
  have kept : ∀ x, x < job + 16 ∨ job + 24 ≤ x →
      ((h3.storage.write (job + 16) priority).setWord (job + 20) maxMem) x = h3.storage x := by
    intro x outside
    rw [setWord_outside _ (by omega), write_other _ _ (by omega)]
  have last : Touched layout h3
      { h3 with storage := (h3.storage.write (job + 16) priority).setWord (job + 20) maxMem } job
      .job := by
    refine ⟨laid.sane.write _, fun x hx => hx, fun x _ clean => kept x ?_⟩
    by_contra inside
    exact clean (x - job) (private_behind (by omega) (by omega)) (by omega)
  have pointer : ∀ i, i < 4 →
      ((h3.storage.write (job + 16) priority).setWord (job + 20) maxMem) (job + i) =
        h3.storage (job + i) := fun i hi => kept (job + i) (by omega)
  have cursor : word ((h3.storage.write (job + 16) priority).setWord (job + 20) maxMem) (job + 12) =
      0 := (word_congr fun i hi => kept _ (by omega)).trans cleared
  exact ready.finish holds added (touched.trans last) ⟨Named.kept named pointer fun x away =>
    laid.touched_outside known last away, cursor⟩

theorem keCreateTask_holds (holds : Holds table current s base) {job : Nat} {name : CString}
    {answers : Answers} (known : kindOf .table (logOf s.made) (some job) = some .job)
    (newest : Newest (logOf s.made) job) (supplied : Supplied table s ⟨.task job name, answers⟩) :
    Outcome.Sound (fun r => ∃ base', Holds table current
        ⟨r.2, s.made ++ [⟨.task job name, answers⟩], s.pointers ++ [r.1]⟩ base')
      (keCreateTask debug s.heap answers (pointerOf s job) name) := by
  have argument := holds.pointerOf_eq known newest
  have ready : Ready table s base ⟨.task job name, answers⟩ (some job) .job .task 4 :=
    holds.ready rfl rfl known (congrArg (· + 4) argument) supplied fun thread => by cases thread
  rw [argument]
  refine (Outcome.sound_check _).bind fun _ _ => ?_
  refine (ready.added holds).bind ?_
  rintro ⟨_, h2⟩ ⟨rfl, added, free⟩
  have knownNew := known_new (logOf s.made) (some job) .task
  refine (nameRecord_sound added.laid knownNew (Or.inr rfl) free).bind ?_
  rintro h3 ⟨touched, named, cursor⟩
  exact ready.finish holds added touched ⟨named, cursor.trans (added_cursor added (by decide))⟩

theorem keCreateThread_holds (holds : Holds table current s base) {job task stackSize : Nat}
    {answers : Answers} (known : kindOf .table (logOf s.made) (some task) = some .task)
    (newest : Newest (logOf s.made) task)
    (owned : (logOf s.made)[task]? = some (some job, .task))
    (supplied : Supplied table s ⟨.thread job task stackSize, answers⟩) :
    Outcome.Sound (fun r => ∃ base', Holds table current
        ⟨r.2, s.made ++ [⟨.thread job task stackSize, answers⟩], s.pointers ++ [r.1]⟩ base')
      (keCreateThread debug s.heap answers (pointerOf s job) (pointerOf s task) stackSize) := by
  have argument := holds.pointerOf_eq known newest
  have ready : Ready table s base ⟨.thread job task stackSize, answers⟩ (some task) .task
      .thread 4 :=
    holds.ready rfl rfl known (congrArg (· + 4) argument) supplied fun thread => by
      cases thread
      exact owned
  rw [argument]
  refine (Outcome.sound_check _).bind fun _ _ => ?_
  refine (ready.added holds).bind ?_
  rintro ⟨_, h2⟩ ⟨rfl, added, free⟩
  have knownNew := known_new (logOf s.made) (some task) .thread
  refine (giveStack_sound added.laid knownNew free).bind ?_
  rintro h3 ⟨touched, given⟩
  exact ready.finish holds added touched given

theorem step_holds (holds : Holds table current s base) (call : Call) (clear : Clear table s call) :
    Outcome.Sound (fun t => ∃ base', Holds table current t base') (step debug table s call) := by
  obtain ⟨allowed, newest, supplied⟩ := clear
  obtain ⟨creation, answers⟩ := call
  rw [step, create]
  cases creation with
  | job name priority maxMem =>
    exact (keCreateJob_holds holds supplied).bind fun _ kept => kept
  | task job name =>
    exact (keCreateTask_holds holds allowed newest supplied).bind fun _ kept => kept
  | thread job task stackSize =>
    exact (keCreateThread_holds holds allowed.2 newest.1 newest.2 supplied).bind fun _ kept => kept

theorem step_records (s : State) (call : Call) (t : State)
    (ran : step debug table s call = .ok t) : t.made = s.made ++ [call] := by
  rw [step] at ran
  obtain ⟨r, -, last⟩ := Outcome.bind_eq_ok.mp ran
  cases last
  rfl

theorem start_holds {h : Heap} (sane : h.Sane) (static : (table, 12) ∈ h.live)
    (cleared : word h.storage table = 0 ∧ word h.storage (table + 4) = 0) :
    ∃ base, Holds table (word h.storage (table + 8)) ⟨h, [], []⟩ base := by
  have empty : Laid layout .table table h [] fun _ => 0 :=
    Laid.empty sane static fun l off field => by
      cases l <;> cases field
      exact cleared
  refine ⟨fun _ => 0, empty, Tracked.empty, ?_, ?_, rfl⟩
  · intro i call here
    cases here
  · intro i call job task stackSize here
    cases here

/-- No thread is lost: in every run of calls whose jobs and tasks are the
newest of their arrays, with threads created for the job of their task, and
whose blocks are fresh and below the arrays they replace, the tables found from
`g_scheduler` are those of everything that was created. -/
theorem tables_complete {h : Heap} (sane : h.Sane) (static : (table, 12) ∈ h.live)
    (cleared : word h.storage table = 0 ∧ word h.storage (table + 4) = 0) (calls : List Call)
    (clear : Runs.Meets (step debug table) (Clear table) ⟨h, [], []⟩ calls) :
    Outcome.Sound (fun s => readJobs s.heap.storage table = createdJobs calls)
      (Runs.run (step debug table) ⟨h, [], []⟩ calls) := by
  have keep : ∀ s call, (∃ base, Holds table (word h.storage (table + 8)) s base) →
      Clear table s call → Outcome.Sound
        (fun t => ∃ base, Holds table (word h.storage (table + 8)) t base) (step debug table s call) :=
    fun s call ⟨_, holds⟩ ok => step_holds holds call ok
  refine (Runs.run_sound keep (start_holds sane static cleared) clear).strengthen
    fun s ran ⟨base, holds⟩ => ?_
  have made : s.made = [] ++ calls.map id := Runs.run_records step_records ran
  rw [List.nil_append, List.map_id] at made
  rw [← made]
  exact holds.readJobs_eq

end

/-- Cleared storage with `g_scheduler` at 100. -/
def booted : Heap := ⟨fun _ => 0, [(100, 12)]⟩

theorem booted_sane : booted.Sane :=
  ⟨List.pairwise_singleton _ _, fun x member => by rw [List.mem_singleton.mp member]; decide⟩

theorem nameA_noNul : (0 : UInt8) ∉ [0xC1] := by decide
theorem nameB_noNul : (0 : UInt8) ∉ [0xC2] := by decide

def nameA : CString := ⟨[0xC1], nameA_noNul⟩
def nameB : CString := ⟨[0xC2], nameB_noNul⟩
def nameT : CString := ⟨[0xE3], by decide⟩

def createA : Call := ⟨.job nameA 0 0, ⟨2000, 1900⟩⟩
def createB : Call := ⟨.job nameB 0 0, ⟨700, 650⟩⟩

/-- A task of the job that was created first. -/
def createT : Call := ⟨.task 0 nameT, ⟨1800, 1700⟩⟩

/-- A thread of the task that was created second. -/
def startT : Call := ⟨.thread 0 1 256, ⟨1500, 1000⟩⟩

/-- The task and its thread are created before the second job. -/
theorem thread_before_job_complete :
    ∃ s, Runs.run (step false 100) ⟨booted, [], []⟩ [createA, createT, startT, createB] = .ok s ∧
      readJobs s.heap.storage 100 = createdJobs [createA, createT, startT, createB] :=
  (tables_complete booted_sane (by decide) (by decide) [createA, createT, startT, createB]
    (by decide +kernel)).returned (by decide +kernel)

/-- The second job moves the first one, and the task that is then created
through the pointer to the first one is in no job of `g_scheduler`. -/
theorem task_after_job_lost :
    Runs.Meets (step false 100) (fun s call => Allowed s call ∧ Supplied 100 s call)
        ⟨booted, [], []⟩ [createA, createB, createT] ∧
      ¬ Outcome.Sound (fun s => readJobs s.heap.storage 100 =
          createdJobs [createA, createB, createT])
        (Runs.run (step false 100) ⟨booted, [], []⟩ [createA, createB, createT]) :=
  ⟨by decide +kernel, by decide +kernel⟩

end SchedulerTables
