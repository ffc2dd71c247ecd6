import UDos.Kernel.MmHeap
import UDos.Library.Runs

/-!
# File system drivers

`KeCreateFsDriver` and `KeAddFsNodeToDriver` of `fs.c`, with what modules store
through the pointers they were given: the callbacks of a driver, and the driver
of a node. The records of the static `g_drvtab` live by value in an array that
every new driver moves.
-/

namespace FsDrivers

open KernelMemory MmHeap Storage

/-- The callbacks of `struct fs_driver`. -/
inductive Callback where
  | openCallback
  | close
  | write
  | read
  | seek
  | flush
  | ioctl
  | writeFdscb
  | readFdscb
  | requestNode
  | addNode
  | removeNode
deriving DecidableEq, Repr

/-- Where a driver's record of 56 bytes has the callback. -/
def Callback.offset : Callback → Nat
  | openCallback => 8
  | close => 12
  | write => 16
  | read => 20
  | seek => 24
  | flush => 28
  | ioctl => 32
  | writeFdscb => 36
  | readFdscb => 40
  | requestNode => 44
  | addNode => 48
  | removeNode => 52

theorem Callback.offset_range (c : Callback) : 8 ≤ c.offset ∧ c.offset + 4 ≤ 56 := by
  cases c <;> decide

theorem Callback.offset_apart {c c' : Callback} (differ : c ≠ c') :
    c.offset + 4 ≤ c'.offset ∨ c'.offset + 4 ≤ c.offset := by
  cases c <;> cases c' <;> first | exact absurd rfl differ | decide

/-- `(struct fs_driver *)-1`. -/
def noDriver : Nat := 4294967295

def keCreateFsDriver (table : Nat) (h : Heap) (answer : Nat) : Outcome (Nat × Heap) := do
  let (drivers, h) ← growArray h table 56 answer
  if drivers = 0 then .ok (noDriver, h)
  else
    let (driver, h) := nextElement h table 56
    .ok (driver, { h with storage := h.storage.fill driver 0 56 })

def keAddFsNodeToDriver (debug : Bool) (h : Heap) (driver node answer : Nat) :
    Outcome (Int × Heap) := do
  Outcome.check (debug = true → driver ≠ 0 ∧ node ≠ 0)
    "Assertion driver != NULL && node != NULL failed!\r\n"
  let (nodes, h) ← growArray h driver 4 answer
  if nodes = 0 then .ok (-1, h)
  else
    let n := word h.storage (driver + 4)
    let m := h.storage.setWord (u32 (word h.storage driver + n * 4)) node
    let m := m.setWord (driver + 4) (u32 (word m (driver + 4) + 1))
    .ok (0, { h with storage := m.setWord (node + 8) driver })

/-- What modules do; drivers are named by the number of the call of
`KeCreateFsDriver` that returned the pointer, nodes by their address. -/
inductive Op where
  | create (answer : Nat)
  | assign (driver : Nat) (callback : Callback) (function : UInt32)
  | addNode (driver node answer : Nat)
  | attach (driver node : Nat)

/-- The heap, what was done, and the pointers that `KeCreateFsDriver` returned. -/
structure State where
  heap : Heap
  made : List Op
  drivers : List Nat

def driverOf (s : State) (i : Nat) : Nat := s.drivers.getD i 0

/-- `driver->x = function`. -/
def assignCallback (h : Heap) (driver : Nat) (callback : Callback) (function : UInt32) : Heap :=
  { h with storage := h.storage.setWord (driver + callback.offset) function.toNat }

/-- `node->driver = driver`. -/
def attachNode (h : Heap) (driver node : Nat) : Heap :=
  { h with storage := h.storage.setWord (node + 8) driver }

@[irreducible] def step (debug : Bool) (table : Nat) (s : State) (op : Op) : Outcome State :=
  match op with
  | .create answer => do
    let (driver, h) ← keCreateFsDriver table s.heap answer
    .ok ⟨h, s.made ++ [op], s.drivers ++ [driver]⟩
  | .assign driver callback function =>
    .ok ⟨assignCallback s.heap (driverOf s driver) callback function, s.made ++ [op], s.drivers⟩
  | .addNode driver node answer => do
    let (_, h) ← keAddFsNodeToDriver debug s.heap (driverOf s driver) node answer
    .ok ⟨h, s.made ++ [op], s.drivers⟩
  | .attach driver node =>
    .ok ⟨attachNode s.heap (driverOf s driver) node, s.made ++ [op], s.drivers⟩

/-- The driver that a node has after an action. -/
def Op.register (node : Nat) (before : Option Nat) : Op → Option Nat
  | .addNode driver n answer => if n = node ∧ answer ≠ 0 then some driver else before
  | .attach driver n => if n = node then some driver else before
  | _ => before

/-- The driver that registered the node last. -/
def registered (made : List Op) (node : Nat) : Option Nat := made.foldl (Op.register node) none

/-- The callback that a driver has after an action. -/
def Op.callback (driver : Nat) (callback : Callback) (before : Nat) : Op → Nat
  | .assign d c function => if d = driver ∧ c = callback then function.toNat else before
  | _ => before

/-- The callback last assigned to a driver, 0 for NULL. -/
def assigned (made : List Op) (driver : Nat) (callback : Callback) : Nat :=
  made.foldl (Op.callback driver callback) 0

/-- The callback `node->driver->x`. -/
def dispatched (m : Storage) (node : Nat) (callback : Callback) : Nat :=
  word m (word m (node + 8) + callback.offset)

/-- The address is that of an element of `g_drvtab.drivers`, which is in use. -/
def IsDriver (table : Nat) (h : Heap) (driver : Nat) : Prop :=
  (word h.storage table, word h.storage (table + 4) * 56) ∈ h.live ∧
    ∃ i, i < word h.storage (table + 4) ∧ driver = word h.storage table + i * 56

/-- Every node that has a driver has the record of the driver that registered
it, with the callbacks last assigned to this driver. -/
def Valid (table : Nat) (nodes : List Nat) (made : List Op) (h : Heap) : Prop :=
  ∀ node ∈ nodes,
    match registered made node with
    | none => word h.storage (node + 8) = 0
    | some driver => IsDriver table h (word h.storage (node + 8)) ∧
        ∀ callback, dispatched h.storage node callback = assigned made driver callback

/-- Drivers that were asked for, and nodes that exist. -/
def Allowed (nodes : List Nat) (s : State) : Op → Prop
  | .create _ => True
  | .assign driver _ _ => driver < s.drivers.length
  | .addNode driver node _ => driver < s.drivers.length ∧ node ∈ nodes
  | .attach driver node => driver < s.drivers.length ∧ node ∈ nodes

/-- The answers are NULL or fresh blocks below the arrays that they replace. -/
def Supplied (table : Nat) (s : State) : Op → Prop
  | .create answer => Placed s.heap answer (word s.heap.storage table)
      ((word s.heap.storage (table + 4) + 1) * 56)
  | .addNode driver _ answer => Placed s.heap answer (word s.heap.storage (driverOf s driver))
      ((word s.heap.storage (driverOf s driver + 4) + 1) * 4)
  | _ => True

/-- The driver was returned by the last call of `KeCreateFsDriver`, which succeeded. -/
def Newest (s : State) (driver : Nat) : Prop :=
  driver + 1 = s.drivers.length ∧ driverOf s driver ≠ noDriver

/-- A driver is created only while no node has one, and only the newest is used. -/
def OneInUse (nodes : List Nat) (s : State) : Op → Prop
  | .create _ => ∀ node ∈ nodes, word s.heap.storage (node + 8) = 0
  | .assign driver _ _ => Newest s driver
  | .addNode driver _ _ => Newest s driver
  | .attach driver _ => Newest s driver

def Clear (table : Nat) (nodes : List Nat) (s : State) (op : Op) : Prop :=
  Allowed nodes s op ∧ OneInUse nodes s op ∧ Supplied table s op

instance (s : State) (driver : Nat) : Decidable (Newest s driver) :=
  inferInstanceAs (Decidable (_ ∧ _))

instance (nodes : List Nat) (s : State) (op : Op) : Decidable (Allowed nodes s op) :=
  match op with
  | .create _ => isTrue trivial
  | .assign driver _ _ => inferInstanceAs (Decidable (driver < s.drivers.length))
  | .addNode _ _ _ => inferInstanceAs (Decidable (_ ∧ _))
  | .attach _ _ => inferInstanceAs (Decidable (_ ∧ _))

instance (table : Nat) (s : State) (op : Op) : Decidable (Supplied table s op) :=
  match op with
  | .create answer => inferInstanceAs (Decidable (Placed s.heap answer _ _))
  | .assign _ _ _ => isTrue trivial
  | .addNode _ _ answer => inferInstanceAs (Decidable (Placed s.heap answer _ _))
  | .attach _ _ => isTrue trivial

instance (nodes : List Nat) (s : State) (op : Op) : Decidable (OneInUse nodes s op) :=
  match op with
  | .create _ => inferInstanceAs (Decidable (∀ node ∈ nodes, word s.heap.storage (node + 8) = 0))
  | .assign driver _ _ => inferInstanceAs (Decidable (Newest s driver))
  | .addNode driver _ _ => inferInstanceAs (Decidable (Newest s driver))
  | .attach driver _ => inferInstanceAs (Decidable (Newest s driver))

instance (table : Nat) (nodes : List Nat) (s : State) (op : Op) :
    Decidable (Clear table nodes s op) := inferInstanceAs (Decidable (_ ∧ _))

section
variable {debug : Bool} {table : Nat} {nodes : List Nat} {s : State} {h h' : Heap}

/-- The table, the nodes and the array of drivers are blocks of their own. -/
structure Shape (table : Nat) (nodes : List Nat) (h : Heap) : Prop where
  sane : h.Sane
  tableHeld : (table, 8) ∈ h.live
  nodeHeld : ∀ node ∈ nodes, (node, 24) ∈ h.live ∧ node ≠ table
  array : word h.storage table = 0 ∨
    (word h.storage table, word h.storage (table + 4) * 56) ∈ h.live ∧
      word h.storage table ≠ table ∧ word h.storage table ∉ nodes

/-- The address is that of the last element of the array of drivers, and the
array of its nodes is a block of its own. -/
structure Last (table : Nat) (nodes : List Nat) (h : Heap) (driver : Nat) : Prop where
  some : word h.storage table ≠ 0
  position : ∃ n, word h.storage (table + 4) = n + 1 ∧ driver = word h.storage table + n * 56
  array : word h.storage driver = 0 ∨ (∃ room, (word h.storage driver, room) ∈ h.live) ∧
    word h.storage driver ≠ table ∧ word h.storage driver ∉ nodes ∧
    word h.storage driver ≠ word h.storage table

/-- What every state reached holds: only nodes of the newest driver have one. -/
structure Holds (table : Nat) (nodes : List Nat) (s : State) : Prop where
  shape : Shape table nodes s.heap
  last : ∀ driver, Newest s driver → Last table nodes s.heap (driverOf s driver)
  callbacks : ∀ driver, Newest s driver → ∀ callback,
    word s.heap.storage (driverOf s driver + callback.offset) = assigned s.made driver callback
  later : ∀ driver callback, s.drivers.length ≤ driver → assigned s.made driver callback = 0
  bare : ∀ node ∈ nodes, registered s.made node = none → word s.heap.storage (node + 8) = 0
  attached : ∀ node ∈ nodes, ∀ driver, registered s.made node = some driver →
    Newest s driver ∧ word s.heap.storage (node + 8) = driverOf s driver

theorem Last.isDriver {driver : Nat} (last : Last table nodes h driver)
    (shape : Shape table nodes h) : IsDriver table h driver := by
  obtain ⟨n, count, position⟩ := last.position
  exact ⟨(shape.array.resolve_left last.some).1, n, by omega, position⟩

theorem Holds.valid (holds : Holds table nodes s) : Valid table nodes s.made s.heap := by
  intro node member
  cases known : registered s.made node with
  | none => exact holds.bare node member known
  | some driver =>
    obtain ⟨newest, pointer⟩ := holds.attached node member driver known
    have isDriver := (holds.last driver newest).isDriver holds.shape
    simp only [dispatched, pointer]
    exact ⟨isDriver, holds.callbacks driver newest⟩

theorem Shape.write (shape : Shape table nodes h) {m : Storage}
    (pointer : word m table = word h.storage table)
    (count : word m (table + 4) = word h.storage (table + 4)) :
    Shape table nodes { h with storage := m } := by
  refine ⟨shape.sane.write m, shape.tableHeld, shape.nodeHeld, ?_⟩
  simp only [pointer, count]
  exact shape.array

theorem Last.write {driver : Nat} (last : Last table nodes h driver) {m : Storage}
    (pointer : word m table = word h.storage table)
    (count : word m (table + 4) = word h.storage (table + 4))
    (field : word m driver = word h.storage driver) :
    Last table nodes { h with storage := m } driver := by
  refine ⟨?_, ?_, ?_⟩
  · simp only [pointer]
    exact last.some
  · simp only [pointer, count]
    exact last.position
  · simp only [pointer, field]
    exact last.array

theorem Last.apart {driver : Nat} (last : Last table nodes h driver) (shape : Shape table nodes h)
    {x : Nat × Nat} (hx : x ∈ h.live) (differ : x.1 ≠ word h.storage table) {i j : Nat}
    (hi : i + 4 ≤ 56) (hj : j + 4 ≤ x.2) :
    driver + i + 4 ≤ x.1 + j ∨ x.1 + j + 4 ≤ driver + i := by
  obtain ⟨n, count, position⟩ := last.position
  have block := (shape.array.resolve_left last.some).1
  have apart := shape.sane.words_apart hx block differ (i := j) (j := n * 56 + i) hj
    (by simp only [count]; omega)
  omega

theorem Last.apart_table {driver : Nat} (last : Last table nodes h driver)
    (shape : Shape table nodes h) {i j : Nat} (hi : i + 4 ≤ 56) (hj : j + 4 ≤ 8) :
    driver + i + 4 ≤ table + j ∨ table + j + 4 ≤ driver + i :=
  last.apart shape shape.tableHeld (shape.array.resolve_left last.some).2.1.symm hi hj

theorem Last.apart_node {driver node : Nat} (last : Last table nodes h driver)
    (shape : Shape table nodes h) (member : node ∈ nodes) {i : Nat} (hi : i + 4 ≤ 56) :
    driver + i + 4 ≤ node + 8 ∨ node + 8 + 4 ≤ driver + i :=
  last.apart shape (shape.nodeHeld node member).1 (fun same =>
    (shape.array.resolve_left last.some).2.2 (same ▸ member)) hi (show 8 + 4 ≤ 24 by decide)

theorem Shape.node_apart_table {node : Nat} (shape : Shape table nodes h) (member : node ∈ nodes)
    {j : Nat} (hj : j + 4 ≤ 8) : node + 8 + 4 ≤ table + j ∨ table + j + 4 ≤ node + 8 := by
  obtain ⟨held, notTable⟩ := shape.nodeHeld node member
  exact shape.sane.words_apart held shape.tableHeld notTable (show 8 + 4 ≤ 24 by decide) hj

theorem Shape.nodes_apart {node node' : Nat} (shape : Shape table nodes h) (member : node ∈ nodes)
    (member' : node' ∈ nodes) (differ : node ≠ node') :
    node + 8 + 4 ≤ node' + 8 ∨ node' + 8 + 4 ≤ node + 8 :=
  shape.sane.words_apart (shape.nodeHeld node member).1 (shape.nodeHeld node' member').1 differ
    (show 8 + 4 ≤ 24 by decide) (show 8 + 4 ≤ 24 by decide)

theorem registered_append (made : List Op) (op : Op) (node : Nat) :
    registered (made ++ [op]) node = op.register node (registered made node) := by
  simp [registered]

theorem assigned_append (made : List Op) (op : Op) (driver : Nat) (callback : Callback) :
    assigned (made ++ [op]) driver callback =
      op.callback driver callback (assigned made driver callback) := by
  simp [assigned]

/-- A heap with the same callbacks and the same drivers of nodes keeps the invariant. -/
theorem Holds.keep (holds : Holds table nodes s) (shape : Shape table nodes h')
    (last : ∀ driver, Newest s driver → Last table nodes h' (driverOf s driver))
    (record : ∀ driver, Newest s driver → ∀ i, 8 ≤ i → i + 4 ≤ 56 →
      word h'.storage (driverOf s driver + i) = word s.heap.storage (driverOf s driver + i))
    (node : ∀ node ∈ nodes, word h'.storage (node + 8) = word s.heap.storage (node + 8)) :
    Holds table nodes ⟨h', s.made, s.drivers⟩ := by
  refine ⟨shape, last, ?_, holds.later, ?_, ?_⟩
  · intro driver newest callback
    rw [← holds.callbacks driver newest]
    exact record driver newest _ callback.offset_range.1 callback.offset_range.2
  · intro n member bare
    exact (node n member).trans (holds.bare n member bare)
  · intro n member driver known
    obtain ⟨newest, pointer⟩ := holds.attached n member driver known
    exact ⟨newest, (node n member).trans pointer⟩

/-- So does an action that registers nothing and assigns nothing. -/
theorem Holds.log (holds : Holds table nodes s) {op : Op}
    (registers : ∀ node before, op.register node before = before)
    (assigns : ∀ driver callback before, op.callback driver callback before = before) :
    Holds table nodes ⟨s.heap, s.made ++ [op], s.drivers⟩ := by
  refine ⟨holds.shape, holds.last, ?_, ?_, ?_, ?_⟩
  · intro driver newest callback
    rw [assigned_append, assigns]
    exact holds.callbacks driver newest callback
  · intro driver callback new
    rw [assigned_append, assigns]
    exact holds.later driver callback new
  · intro n member bare
    rw [registered_append, registers] at bare
    exact holds.bare n member bare
  · intro n member driver known
    rw [registered_append, registers] at known
    exact holds.attached n member driver known

theorem Newest.eq {driver driver' : Nat} (newest : Newest s driver) (other : Newest s driver') :
    driver' = driver := by
  have := newest.1
  have := other.1
  omega

/-- A callback is assigned to the newest driver. -/
theorem Holds.assign (holds : Holds table nodes s) {driver : Nat} (newest : Newest s driver)
    (callback : Callback) (function : UInt32) :
    Holds table nodes ⟨assignCallback s.heap (driverOf s driver) callback function,
      s.made ++ [.assign driver callback function], s.drivers⟩ := by
  have last := holds.last driver newest
  have range := callback.offset_range
  have pointer : word (assignCallback s.heap (driverOf s driver) callback function).storage table =
      word s.heap.storage table :=
    word_setWord_other _ (last.apart_table holds.shape (j := 0) range.2 (by decide)).symm
  have count : word (assignCallback s.heap (driverOf s driver) callback function).storage
      (table + 4) = word s.heap.storage (table + 4) :=
    word_setWord_other _ (last.apart_table holds.shape range.2 (by decide)).symm
  have nodeKept : ∀ node ∈ nodes,
      word (assignCallback s.heap (driverOf s driver) callback function).storage (node + 8) =
        word s.heap.storage (node + 8) := fun node member =>
    word_setWord_other _ (last.apart_node holds.shape member range.2).symm
  refine ⟨holds.shape.write pointer count, ?_, ?_, ?_, ?_, ?_⟩
  · intro d other
    have same := newest.eq other
    subst same
    exact last.write pointer count (word_setWord_other _ (by omega))
  · intro d other c
    have same := newest.eq other
    subst same
    rw [assigned_append]
    by_cases own : c = callback
    · subst own
      simp only [Op.callback, and_self, if_true]
      exact word_setWord _ _ function.toNat_lt
    · have apart := Callback.offset_apart own
      have kept : word (assignCallback s.heap (driverOf s d) callback function).storage
          (driverOf s d + c.offset) = word s.heap.storage (driverOf s d + c.offset) :=
        word_setWord_other _ (by omega)
      simp only [Op.callback, Ne.symm own, and_false, if_false]
      exact kept.trans (holds.callbacks d other c)
  · intro d c new
    have older := newest.1
    simp only [assigned_append, Op.callback]
    rw [if_neg (by simp only at new; omega)]
    exact holds.later d c new
  · intro node member bare
    rw [registered_append] at bare
    exact (nodeKept node member).trans (holds.bare node member bare)
  · intro node member d known
    rw [registered_append] at known
    obtain ⟨newest', attached⟩ := holds.attached node member d known
    exact ⟨newest', (nodeKept node member).trans attached⟩

/-- A node gets the newest driver. -/
theorem Holds.attach (holds : Holds table nodes s) {driver node : Nat} (newest : Newest s driver)
    (member : node ∈ nodes) (op : Op)
    (registers : ∀ n before, op.register n before = if node = n then some driver else before)
    (assigns : ∀ d c before, op.callback d c before = before) :
    Holds table nodes ⟨attachNode s.heap (driverOf s driver) node, s.made ++ [op], s.drivers⟩ := by
  have shape := holds.shape
  have last := holds.last driver newest
  have range : driverOf s driver < 4294967296 := by
    obtain ⟨n, count, position⟩ := last.position
    have room := (shape.sane.proper _ (shape.array.resolve_left last.some).1).2.2
    simp only [count] at room
    omega
  have pointer : word (attachNode s.heap (driverOf s driver) node).storage table =
      word s.heap.storage table :=
    word_setWord_other _ (shape.node_apart_table member (j := 0) (by decide)).symm
  have count : word (attachNode s.heap (driverOf s driver) node).storage (table + 4) =
      word s.heap.storage (table + 4) :=
    word_setWord_other _ (shape.node_apart_table member (by decide)).symm
  have record : ∀ d, Newest s d → ∀ i, i + 4 ≤ 56 →
      word (attachNode s.heap (driverOf s driver) node).storage (driverOf s d + i) =
        word s.heap.storage (driverOf s d + i) := fun d other i hi =>
    word_setWord_other _ ((holds.last d other).apart_node shape member hi)
  refine ⟨shape.write pointer count, ?_, ?_, ?_, ?_, ?_⟩
  · intro d other
    exact (holds.last d other).write pointer count (record d other 0 (by decide))
  · intro d other c
    rw [assigned_append, assigns, ← holds.callbacks d other]
    exact record d other _ c.offset_range.2
  · intro d c new
    rw [assigned_append, assigns]
    exact holds.later d c new
  · intro n memberN bare
    rw [registered_append, registers] at bare
    by_cases own : node = n
    · simp [own] at bare
    · rw [if_neg own] at bare
      exact (word_setWord_other _ (shape.nodes_apart memberN member (Ne.symm own))).trans
        (holds.bare n memberN bare)
  · intro n memberN d known
    rw [registered_append, registers] at known
    by_cases own : node = n
    · subst own
      rw [if_pos rfl] at known
      cases known
      exact ⟨newest, word_setWord _ _ range⟩
    · rw [if_neg own] at known
      obtain ⟨newest', attached⟩ := holds.attached n memberN d known
      exact ⟨newest', (word_setWord_other _ (shape.nodes_apart memberN member (Ne.symm own))).trans
        attached⟩

theorem Last.owner {driver : Nat} (last : Last table nodes h driver) (shape : Shape table nodes h) :
    ∃ x ∈ h.live, x.1 ≤ driver ∧ driver + 56 ≤ x.1 + x.2 := by
  obtain ⟨n, count, position⟩ := last.position
  refine ⟨_, (shape.array.resolve_left last.some).1, ?_, ?_⟩
  · simp only
    omega
  · simp only [count]
    omega

/-- The array of the newest driver's nodes grows in a fresh block. -/
theorem Holds.counted (holds : Holds table nodes s) {driver : Nat} (newest : Newest s driver)
    {room b n : Nat} (counted : Counted s.heap h' (driverOf s driver)
      (word s.heap.storage (driverOf s driver)) room b n) :
    Holds table nodes ⟨h', s.made, s.drivers⟩ := by
  have shape := holds.shape
  have last := holds.last driver newest
  have array := shape.array.resolve_left last.some
  obtain ⟨owner, owned, lo, hi⟩ := last.owner shape
  have tableKept : ∀ {j}, j + 4 ≤ 8 →
      word h'.storage (table + j) = word s.heap.storage (table + j) := fun {j} hj => by
    have pointerApart := last.apart_table shape (i := 0) (by decide) hj
    have countApart := last.apart_table shape (i := 4) (by decide) hj
    exact counted.word_kept shape.tableHeld (Nat.le_add_right _ _) (by simp only; omega) (by omega)
  have nodeKept : ∀ node ∈ nodes, word h'.storage (node + 8) = word s.heap.storage (node + 8) :=
    fun node member => by
      have pointerApart := last.apart_node shape member (i := 0) (by decide)
      have countApart := last.apart_node shape member (i := 4) (by decide)
      exact counted.word_kept (shape.nodeHeld node member).1 (Nat.le_add_right _ _)
        (by simp only; omega) (by omega)
  have pointer : word h'.storage table = word s.heap.storage table := tableKept (j := 0) (by decide)
  have notOld : word s.heap.storage (driverOf s driver) ≠ 0 →
      word s.heap.storage (driverOf s driver) ≠ table ∧
      word s.heap.storage (driverOf s driver) ∉ nodes ∧
      word s.heap.storage (driverOf s driver) ≠ word s.heap.storage table :=
    fun some => (last.array.resolve_left some).2
  refine holds.keep ⟨counted.sane, ?_, ?_, ?_⟩ ?_ ?_ nodeKept
  · exact counted.stays shape.sane shape.tableHeld fun some => (notOld some).1
  · intro node member
    obtain ⟨held, notTable⟩ := shape.nodeHeld node member
    exact ⟨counted.stays shape.sane held fun some same => (notOld some).2.1 (same ▸ member),
      notTable⟩
  · rw [pointer, tableKept (by decide)]
    exact Or.inr ⟨counted.stays shape.sane array.1 fun some => (notOld some).2.2, array.2⟩
  · intro d other
    have same := newest.eq other
    subst same
    refine ⟨?_, ?_, Or.inr ?_⟩
    · rw [pointer]
      exact last.some
    · rw [pointer, tableKept (by decide)]
      exact last.position
    · rw [counted.pointer, pointer]
      refine ⟨⟨room, (counted.live _).mpr (Or.inl rfl)⟩, ?_, ?_, ?_⟩
      · exact (counted.fresh.start_ne shape.tableHeld shape.sane).symm
      · exact fun member => counted.fresh.start_ne (shape.nodeHeld _ member).1 shape.sane rfl
      · exact (counted.fresh.start_ne array.1 shape.sane).symm
  · intro d other i lo' hi'
    have same := newest.eq other
    subst same
    exact counted.word_kept owned (by omega) (by omega) (by omega)

/-- The array of the newest driver's nodes is NULL. -/
theorem Holds.drop (holds : Holds table nodes s) {driver : Nat} (newest : Newest s driver) :
    Holds table nodes ⟨⟨s.heap.storage.setWord (driverOf s driver) 0, s.heap.live⟩, s.made,
      s.drivers⟩ := by
  have shape := holds.shape
  have last := holds.last driver newest
  have tableKept : ∀ {i}, i + 4 ≤ 8 → word (s.heap.storage.setWord (driverOf s driver) 0)
      (table + i) = word s.heap.storage (table + i) := fun {i} hi =>
    word_setWord_other _ (last.apart_table shape (i := 0) (by decide) hi).symm
  refine holds.keep (shape.write (tableKept (i := 0) (by decide)) (tableKept (by decide))) ?_ ?_ ?_
  · intro d other
    have same := newest.eq other
    subst same
    refine ⟨?_, ?_, Or.inl (word_setWord _ _ (by decide))⟩
    · exact (tableKept (i := 0) (by decide)).trans_ne last.some
    · obtain ⟨n, count, position⟩ := last.position
      refine ⟨n, (tableKept (by decide)).trans count, position.trans ?_⟩
      exact congrArg (· + n * 56) (tableKept (i := 0) (by decide)).symm
  · intro d other i lo hi
    have same := newest.eq other
    subst same
    exact word_setWord_other _ (by omega)
  · intro node member
    exact word_setWord_other _ (last.apart_node shape member (i := 0) (by decide)).symm

/-- The newest driver gets a node, or no storage is left for the array of its nodes. -/
theorem keAddFsNodeToDriver_holds (holds : Holds table nodes s) {driver node answer : Nat}
    (newest : Newest s driver) (member : node ∈ nodes)
    (placed : Placed s.heap answer (word s.heap.storage (driverOf s driver))
      ((word s.heap.storage (driverOf s driver + 4) + 1) * 4)) :
    Outcome.Sound (fun r => Holds table nodes
        ⟨r.2, s.made ++ [.addNode driver node answer], s.drivers⟩)
      (keAddFsNodeToDriver debug s.heap (driverOf s driver) node answer) := by
  have shape := holds.shape
  have last := holds.last driver newest
  obtain ⟨x, owned, lo, hi⟩ := last.owner shape
  have array := last.array.imp_right And.left
  refine (Outcome.sound_check _).bind fun _ _ => ?_
  refine (growArray_sound shape.sane rfl rfl array ⟨x, owned, lo, by omega⟩ placed).bind ?_
  rintro ⟨ptr, h1⟩ ⟨same, null, some⟩
  obtain rfl : answer = ptr := same.symm
  by_cases zero : answer = 0
  · have same : h1 = ⟨s.heap.storage.setWord (driverOf s driver) 0, s.heap.live⟩ := null zero
    subst same
    dsimp only
    rw [if_pos zero]
    exact (holds.drop newest).log (fun n before => by simp [Op.register, zero]) fun _ _ _ => rfl
  · obtain ⟨grown, -⟩ := some zero
    have count : word h1.storage (driverOf s driver + 4) =
        word s.heap.storage (driverOf s driver + 4) :=
      grown.word_kept owned (by omega) (by omega) (by omega)
    have fresh := grown.fresh.1
    simp only [Heap.Proper, Nat.add_mul] at fresh
    have element : u32 (answer + word s.heap.storage (driverOf s driver + 4) * 4) =
        answer + word s.heap.storage (driverOf s driver + 4) * 4 := u32_eq_self (by omega)
    set m := h1.storage.setWord (answer + word s.heap.storage (driverOf s driver + 4) * 4) node
      with hm
    have counted := grown.counted (m := m.setWord (driverOf s driver + 4)
      (u32 (word m (driverOf s driver + 4) + 1))) (n := u32 (word m (driverOf s driver + 4) + 1))
      ⟨x, owned, lo, by omega⟩ (Nat.mod_lt _ (by decide)) fun y outside => by
        simp only [Nat.add_mul] at outside
        exact setWord_congr (setWord_outside _ (by omega))
    have attached := (holds.counted newest counted).attach newest member
      (.addNode driver node answer) (fun n before => by simp [Op.register, zero]) fun _ _ _ => rfl
    dsimp only
    rw [if_neg zero]
    simp only [count, grown.pointer, element]
    exact attached

theorem newest_last {made : List Op} {drivers : List Nat} {driver d : Nat}
    (newest : Newest ⟨h, made, drivers ++ [driver]⟩ d) :
    d = drivers.length ∧ driverOf ⟨h, made, drivers ++ [driver]⟩ d = driver := by
  have position : d = drivers.length := by
    have := newest.1
    simp only [List.length_append, List.length_singleton] at this
    omega
  subst position
  exact ⟨rfl, by simp [driverOf]⟩

/-- While no node has a driver, a table with a cleared last record keeps the invariant. -/
theorem Holds.created (holds : Holds table nodes s)
    (unused : ∀ node ∈ nodes, word s.heap.storage (node + 8) = 0) {driver answer : Nat}
    (shape : Shape table nodes h')
    (record : driver ≠ noDriver →
      Last table nodes h' driver ∧ ∀ i, 8 ≤ i → i + 4 ≤ 56 → word h'.storage (driver + i) = 0)
    (node : ∀ node ∈ nodes, word h'.storage (node + 8) = word s.heap.storage (node + 8)) :
    Holds table nodes ⟨h', s.made ++ [.create answer], s.drivers ++ [driver]⟩ := by
  have none : ∀ node ∈ nodes, registered s.made node = none := by
    intro n member
    cases known : registered s.made n with
    | none => rfl
    | some d =>
      obtain ⟨newest, pointer⟩ := holds.attached n member d known
      have last := holds.last d newest
      obtain ⟨k, -, position⟩ := last.position
      have := last.some
      rw [unused n member] at pointer
      omega
  refine ⟨shape, ?_, ?_, ?_, ?_, ?_⟩
  · intro d newest
    have pointer := (newest_last newest).2
    have some := newest.2
    rw [pointer] at some ⊢
    exact (record some).1
  · intro d newest callback
    obtain ⟨position, pointer⟩ := newest_last newest
    have some := newest.2
    rw [pointer] at some ⊢
    rw [assigned_append]
    refine ((record some).2 _ callback.offset_range.1 callback.offset_range.2).trans ?_
    exact (holds.later d callback (Nat.le_of_eq position.symm)).symm
  · intro d callback new
    simp only [List.length_append, List.length_singleton] at new
    rw [assigned_append]
    exact holds.later d callback (by omega)
  · intro n member _
    exact (node n member).trans (unused n member)
  · intro n member d known
    rw [registered_append] at known
    exact absurd ((none n member).symm.trans known) (by simp)

/-- The array of drivers is moved, and its new element is cleared. -/
theorem Holds.cleared (holds : Holds table nodes s)
    (unused : ∀ node ∈ nodes, word s.heap.storage (node + 8) = 0) {n answer : Nat}
    (grown : Grown s.heap h' table (word s.heap.storage table) ((n + 1) * 56) answer) :
    Holds table nodes
      ⟨⟨(h'.storage.setWord (table + 4) (n + 1)).fill (answer + n * 56) 0 56, h'.live⟩,
        s.made ++ [.create answer], s.drivers ++ [answer + n * 56]⟩ := by
  have shape := holds.shape
  have fresh := grown.fresh.1
  simp only [Heap.Proper, Nat.add_mul] at fresh
  have held : (answer, (n + 1) * 56) ∈ h'.live := (grown.live _).mpr (Or.inl rfl)
  have stays : ∀ x ∈ s.heap.live, (word s.heap.storage table ≠ 0 →
      word s.heap.storage table ≠ x.1) → x ∈ h'.live := fun x member other => by
    refine (grown.live x).mpr (Or.inr ⟨member, fun same => ?_⟩)
    have positive := (shape.sane.proper x member).1
    exact other (by omega) same.symm
  have notOld : word s.heap.storage table ≠ 0 →
      word s.heap.storage table ≠ table ∧ word s.heap.storage table ∉ nodes :=
    fun some => (shape.array.resolve_left some).2
  have tableHeld : (table, 8) ∈ h'.live := stays _ shape.tableHeld fun some => (notOld some).1
  have nodeHeld : ∀ node ∈ nodes, (node, 24) ∈ h'.live ∧ node ≠ table := fun node member =>
    ⟨stays _ (shape.nodeHeld node member).1 fun some same => (notOld some).2 (same ▸ member),
      (shape.nodeHeld node member).2⟩
  have notTable : answer ≠ table := (grown.fresh.start_ne shape.tableHeld shape.sane).symm
  have notNode : answer ∉ nodes := fun member =>
    grown.fresh.start_ne (shape.nodeHeld _ member).1 shape.sane rfl
  -- the cleared record is apart from every other block
  have behind : ∀ {x : Nat × Nat} {j : Nat}, x ∈ h'.live → answer ≠ x.1 → j + 4 ≤ x.2 →
      x.1 + j + 4 ≤ answer + n * 56 ∨ answer + n * 56 + 56 ≤ x.1 + j := fun {x j} hx other hj => by
    have apart := grown.sane.apart_of_start held hx other
    simp only [Heap.Apart, Nat.add_mul] at apart
    omega
  have pointer : word ((h'.storage.setWord (table + 4) (n + 1)).fill (answer + n * 56) 0 56) table =
      answer := by
    refine (word_fill_other _ (behind (j := 0) tableHeld notTable (show 0 + 4 ≤ 8 by decide))).trans ?_
    exact (word_setWord_other _ (Or.inl (Nat.le_refl _))).trans grown.pointer
  have count : word ((h'.storage.setWord (table + 4) (n + 1)).fill (answer + n * 56) 0 56)
      (table + 4) = n + 1 :=
    (word_fill_other _ (behind tableHeld notTable (show 4 + 4 ≤ 8 by decide))).trans
      (word_setWord _ _ (by omega))
  have record : ∀ i, i + 4 ≤ 56 → word ((h'.storage.setWord (table + 4) (n + 1)).fill
      (answer + n * 56) 0 56) (answer + n * 56 + i) = 0 := fun i hi => word_fill_zero _ hi
  refine holds.created unused ⟨grown.sane.write _, tableHeld, nodeHeld, Or.inr ?_⟩ ?_ ?_
  · simp only [pointer, count]
    exact ⟨held, notTable, notNode⟩
  · refine fun _ => ⟨⟨?_, ⟨n, count, ?_⟩, Or.inl (record 0 (by decide))⟩, fun i _ hi => record i hi⟩
    · simp only [pointer]
      omega
    · simp only [pointer]
  · intro node member
    obtain ⟨nodeHeld', -⟩ := nodeHeld node member
    refine (word_fill_other _ (behind nodeHeld' (fun same => notNode (same ▸ member))
      (show 8 + 4 ≤ 24 by decide))).trans ?_
    have field := shape.node_apart_table member (j := 0) (by decide)
    have count := shape.node_apart_table member (j := 4) (by decide)
    exact (word_setWord_other _ count).trans (grown.word_kept (shape.nodeHeld node member).1
      (Nat.le_add_right _ _) (by simp only; omega) field)

/-- `KeCreateFsDriver` while no node has a driver. -/
theorem keCreateFsDriver_holds (holds : Holds table nodes s) {answer : Nat}
    (unused : ∀ node ∈ nodes, word s.heap.storage (node + 8) = 0)
    (placed : Placed s.heap answer (word s.heap.storage table)
      ((word s.heap.storage (table + 4) + 1) * 56)) :
    Outcome.Sound (fun r => Holds table nodes
        ⟨r.2, s.made ++ [.create answer], s.drivers ++ [r.1]⟩)
      (keCreateFsDriver table s.heap answer) := by
  have shape := holds.shape
  have array : word s.heap.storage table = 0 ∨
      ∃ room, (word s.heap.storage table, room) ∈ s.heap.live :=
    shape.array.imp_right fun block => ⟨_, block.1⟩
  refine (growArray_sound shape.sane rfl rfl array
    ⟨_, shape.tableHeld, Nat.le_refl _, by simp only; omega⟩ placed).bind ?_
  rintro ⟨ptr, h1⟩ ⟨same, null, some⟩
  obtain rfl : answer = ptr := same.symm
  by_cases zero : answer = 0
  · have same : h1 = ⟨s.heap.storage.setWord table 0, s.heap.live⟩ := null zero
    subst same
    dsimp only
    rw [if_pos zero]
    refine holds.created unused ⟨shape.sane.write _, shape.tableHeld, shape.nodeHeld, Or.inl ?_⟩
      (fun some => absurd rfl some) fun node member => ?_
    · exact word_setWord _ _ (by decide)
    · exact word_setWord_other _ (shape.node_apart_table member (j := 0) (by decide))
  · obtain ⟨grown, -⟩ := some zero
    have fresh := grown.fresh.1
    simp only [Heap.Proper, Nat.add_mul] at fresh
    have count : word h1.storage (table + 4) = word s.heap.storage (table + 4) :=
      grown.word_kept shape.tableHeld (by simp only; omega) (by simp only; omega) (by omega)
    have element : nextElement h1 table 56 = (answer + word s.heap.storage (table + 4) * 56,
        ⟨h1.storage.setWord (table + 4) (word s.heap.storage (table + 4) + 1), h1.live⟩) :=
      nextElement_of grown.pointer count (by decide) (by omega)
    have held : (answer, (word s.heap.storage (table + 4) + 1) * 56) ∈ h1.live :=
      (grown.live _).mpr (Or.inl rfl)
    dsimp only
    rw [if_neg zero, element]
    exact holds.cleared unused grown

theorem step_holds (holds : Holds table nodes s) (op : Op) (clear : Clear table nodes s op) :
    Outcome.Sound (Holds table nodes) (step debug table s op) := by
  obtain ⟨allowed, newest, supplied⟩ := clear
  cases op with
  | create answer =>
    rw [step]
    exact (keCreateFsDriver_holds holds newest supplied).bind fun _ kept => kept
  | assign driver callback function =>
    rw [step]
    exact holds.assign newest callback function
  | addNode driver node answer =>
    rw [step]
    exact (keAddFsNodeToDriver_holds holds newest allowed.2 supplied).bind fun _ kept => kept
  | attach driver node =>
    rw [step]
    exact holds.attach newest allowed.2 (.attach driver node) (fun n before => by
      simp [Op.register]) fun _ _ _ => rfl

theorem step_records (s : State) (op : Op) (t : State) (ran : step debug table s op = .ok t) :
    t.made = s.made ++ [op] := by
  cases op with
  | create answer =>
    rw [step] at ran
    obtain ⟨r, -, last⟩ := Outcome.bind_eq_ok.mp ran
    cases last
    rfl
  | assign driver callback function =>
    rw [step] at ran
    cases ran
    rfl
  | addNode driver node answer =>
    rw [step] at ran
    obtain ⟨r, -, last⟩ := Outcome.bind_eq_ok.mp ran
    cases last
    rfl
  | attach driver node =>
    rw [step] at ran
    cases ran
    rfl

/-- Driver handles stay valid in every run that creates drivers only while no
node has one and uses the newest driver only, with blocks that are fresh and
below those they replace. -/
theorem drivers_valid {h : Heap} (sane : h.Sane) (static : (table, 8) ∈ h.live)
    (cleared : word h.storage table = 0)
    (exist : ∀ node ∈ nodes, (node, 24) ∈ h.live ∧ node ≠ table ∧ word h.storage (node + 8) = 0)
    (ops : List Op)
    (clear : Runs.Meets (step debug table) (Clear table nodes) ⟨h, [], []⟩ ops) :
    Outcome.Sound (fun s => Valid table nodes ops s.heap)
      (Runs.run (step debug table) ⟨h, [], []⟩ ops) := by
  have start : Holds table nodes ⟨h, [], []⟩ := by
    refine ⟨⟨sane, static, fun node member => ⟨(exist node member).1, (exist node member).2.1⟩,
      Or.inl cleared⟩, ?_, ?_, ?_, ?_, ?_⟩
    · exact fun driver newest => absurd newest.1 (Nat.succ_ne_zero driver)
    · exact fun driver newest => absurd newest.1 (Nat.succ_ne_zero driver)
    · exact fun driver callback _ => rfl
    · exact fun node member _ => (exist node member).2.2
    · intro node member driver known
      cases known
  have keep : ∀ s op, Holds table nodes s → Clear table nodes s op →
      Outcome.Sound (Holds table nodes) (step debug table s op) := fun s op holds ok =>
    step_holds holds op ok
  refine (Runs.run_sound keep start clear).strengthen fun s ran holds => ?_
  have made : s.made = [] ++ ops.map id := Runs.run_records step_records ran
  rw [List.nil_append, List.map_id] at made
  rw [← made]
  exact holds.valid

end

/-- Cleared storage with `g_drvtab` at 100, and two nodes. -/
def booted : Heap := ⟨fun _ => 0, [(100, 8), (200, 24), (300, 24)]⟩

theorem booted_sane : booted.Sane := ⟨by decide, by decide⟩

/-- Two modules, each with a driver that has a callback and one node. -/
def registerA : List Op := [.create 2000, .assign 0 .write 0x1234, .attach 0 200]
def registerB : List Op := [.create 1000, .assign 1 .read 0x5678, .addNode 1 300 900]

/-- One module alone. -/
theorem one_module_valid :
    ∃ s, Runs.run (step false 100) ⟨booted, [], []⟩ registerA = .ok s ∧
      Valid 100 [200, 300] registerA s.heap :=
  (drivers_valid booted_sane (by decide) (by decide) (by decide) registerA
    (by decide +kernel)).returned (by decide +kernel)

/-- The second module moves the driver of the first one, whose node keeps the
pointer into the block that was returned. -/
theorem second_module_dangles :
    Runs.Meets (step false 100) (fun s op => Allowed [200, 300] s op ∧ Supplied 100 s op)
        ⟨booted, [], []⟩ (registerA ++ registerB) ∧
      ¬ Outcome.Sound (fun s => Valid 100 [200, 300] (registerA ++ registerB) s.heap)
        (Runs.run (step false 100) ⟨booted, [], []⟩ (registerA ++ registerB)) := by
  refine ⟨by decide +kernel, fun valid => ?_⟩
  have inTable : Outcome.Sound (fun s => word s.heap.storage (200 + 8) <
      word s.heap.storage 100 + word s.heap.storage (100 + 4) * 56)
      (Runs.run (step false 100) ⟨booted, [], []⟩ (registerA ++ registerB)) :=
    valid.mono fun s holds => by
      obtain ⟨⟨-, i, few, position⟩, -⟩ := holds 200 (by decide)
      omega
  exact absurd inTable (by decide +kernel)

end FsDrivers
