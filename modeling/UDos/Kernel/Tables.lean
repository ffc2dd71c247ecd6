import UDos.Kernel.CssQueue
import UDos.Kernel.FsOwners
import UDos.Kernel.TableAppend
import UDos.Library.Owners
import UDos.Library.Runs

/-!
# The tables that grow

The tables of drivers, of the nodes of each driver, of requests and of devices
on one heap, in any order of calls that add to them. Requests are removed by
`CssPerformRequest`. Beside the heap a state has what was successfully added
and not removed.
-/

namespace Tables

open KernelMemory Heap MmHeap Storage Css FsDrivers TableAppend
open CssQueue (entriesOf Separate lastDevice lastEntry)
open FsOwners (nodesOf)

/-- Where the tables are described, and the blocks of callers. -/
structure World where
  drvtab : Nat
  queue : Nat
  devlist : Nat
  nDevlist : Nat
  nodes : List Nat
  requests : List Nat
  devices : List Nat

def World.blocks (w : World) : List (Nat × Nat) :=
  [(w.drvtab, 8), (w.queue, 8), (w.devlist, 4), (w.nDevlist, 4), (psaCcaw, 4)] ++
    w.nodes.map (·, 24) ++ w.requests.map (·, 16) ++ w.devices.map (·, 192)

/-- The descriptions of the tables are different objects. -/
def World.Distinct (w : World) : Prop :=
  w.queue ≠ w.drvtab ∧ w.devlist ≠ psaCcaw ∧ w.nDevlist ≠ psaCcaw

/-- The nodes of a driver, and the bytes of its callbacks. -/
structure DriverEntry where
  nodes : List Nat
  callbacks : List UInt8
deriving DecidableEq

structure Entries where
  drivers : List DriverEntry
  requests : List (List UInt8)
  devices : List Nat
deriving DecidableEq

def driverAt (w : World) (m : Storage) (i : Nat) : Nat := word m w.drvtab + i * 56

def driverEntry (m : Storage) (driver : Nat) : DriverEntry :=
  ⟨nodesOf m driver, m.bytes (driver + 8) 48⟩

def driversOf (w : World) (m : Storage) : List DriverEntry :=
  (List.range (word m (w.drvtab + 4))).map fun i => driverEntry m (driverAt w m i)

def devicesOf (w : World) (m : Storage) : List Nat :=
  (List.range (word m w.nDevlist)).map fun i => word m (word m w.devlist + i * 4)

def tablesOf (w : World) (m : Storage) : Entries :=
  ⟨driversOf w m, entriesOf m w.queue, devicesOf w m⟩

/-- The functions that add, with the answer to their allocation, 0 for NULL, and
the one that removes. -/
inductive Call where
  | createDriver (answer : Nat)
  | addNode (driver node answer : Nat)
  | sendRequest (req answer : Nat)
  | addDevice (dev answer : Nat)
  | perform (req : Nat) (io : Script)

def Call.allocation : Call → Option Nat
  | createDriver answer => some answer
  | addNode _ _ answer => some answer
  | sendRequest _ answer => some answer
  | addDevice _ answer => some answer
  | perform _ _ => none

/-- The heap, and what was added successfully and not removed. -/
structure State where
  heap : Heap
  added : Entries

def Entries.addDriver (e : Entries) : Entries :=
  { e with drivers := e.drivers ++ [⟨[], List.replicate 48 0⟩] }

def Entries.addNode (e : Entries) (i node : Nat) : Entries :=
  { e with drivers := e.drivers.modify i fun d => { d with nodes := d.nodes ++ [node] } }

def Entries.addRequest (e : Entries) (request : List UInt8) : Entries :=
  { e with requests := e.requests ++ [request] }

def Entries.addDevice (e : Entries) (dev : Nat) : Entries :=
  { e with devices := e.devices ++ [dev] }

def Entries.removeRequest (e : Entries) : Entries := { e with requests := e.requests.dropLast }

@[irreducible] def step (debug : Bool) (w : World) (s : State) : Call → Outcome State
  | .createDriver answer => do
    let (driver, h) ← keCreateFsDriver w.drvtab s.heap answer
    .ok ⟨h, if driver = noDriver then s.added else s.added.addDriver⟩
  | .addNode driver node answer => do
    let (result, h) ← keAddFsNodeToDriver debug s.heap driver node answer
    let i := (driver - word s.heap.storage w.drvtab) / 56
    .ok ⟨h, if result = 0 then s.added.addNode i node else s.added⟩
  | .sendRequest req answer => do
    let h ← cssSendRequest debug w.queue s.heap req answer
    .ok ⟨h, if answer = 0 then s.added else s.added.addRequest (s.heap.storage.bytes req 16)⟩
  | .addDevice dev answer => do
    let (result, h) ← cssAddDevice w.devlist w.nDevlist s.heap dev answer
    .ok ⟨h, if result = 0 then s.added.addDevice dev else s.added⟩
  | .perform req io => do
    let done ← cssPerformRequest debug w.queue s.heap req io
    .ok ⟨done.heap, if done.result = 0 then s.added.removeRequest else s.added⟩

/-- The tables hold what was added and not removed, in order. -/
def Exact (w : World) (s : State) : Prop := tablesOf w s.heap.storage = s.added

/-- The pointers, the counts and the contents of the tables are as they were. -/
structure AsBefore (w : World) (m m' : Storage) : Prop where
  drvtab : word m' w.drvtab = word m w.drvtab ∧ word m' (w.drvtab + 4) = word m (w.drvtab + 4)
  drivers : ∀ i < word m (w.drvtab + 4),
    word m' (driverAt w m i) = word m (driverAt w m i) ∧
      word m' (driverAt w m i + 4) = word m (driverAt w m i + 4)
  queue : word m' w.queue = word m w.queue ∧ word m' (w.queue + 4) = word m (w.queue + 4)
  devlist : word m' w.devlist = word m w.devlist ∧ word m' w.nDevlist = word m w.nDevlist
  contents : tablesOf w m' = tablesOf w m

/-- What a call should do: the tables are as they were if its allocation failed,
and exact after it. Only `CssPerformRequest` may wait for ever. -/
def AppendsOrUnchanged (debug : Bool) (w : World) (s : State) (call : Call) : Prop :=
  (call.allocation ≠ none → (step debug w s call).returns = true) ∧
    Outcome.After (fun t =>
        (call.allocation = some 0 → AsBefore w s.heap.storage t.heap.storage) ∧ Exact w t)
      (step debug w s call)

instance (w : World) (m m' : Storage) : Decidable (AsBefore w m m') :=
  decidable_of_iff
    ((word m' w.drvtab = word m w.drvtab ∧ word m' (w.drvtab + 4) = word m (w.drvtab + 4)) ∧
      (∀ i < word m (w.drvtab + 4), word m' (driverAt w m i) = word m (driverAt w m i) ∧
        word m' (driverAt w m i + 4) = word m (driverAt w m i + 4)) ∧
      (word m' w.queue = word m w.queue ∧ word m' (w.queue + 4) = word m (w.queue + 4)) ∧
      (word m' w.devlist = word m w.devlist ∧ word m' w.nDevlist = word m w.nDevlist) ∧
      tablesOf w m' = tablesOf w m)
    ⟨fun ⟨a, b, c, d, e⟩ => ⟨a, b, c, d, e⟩, fun ⟨a, b, c, d, e⟩ => ⟨a, b, c, d, e⟩⟩

instance (w : World) (s : State) : Decidable (Exact w s) := inferInstanceAs (Decidable (_ = _))

instance (debug : Bool) (w : World) (s : State) (call : Call) :
    Decidable (AppendsOrUnchanged debug w s call) :=
  inferInstanceAs (Decidable (_ ∧ _))

/-- The array finds room without losing its contents, or there was no array yet
and there is no room for one. -/
def Supplied (h : Heap) (field size answer : Nat) : Prop :=
  answer = 0 ∧ word h.storage field = 0 ∨
    Keeping h answer (word h.storage field) ((word h.storage (field + 4) + 1) * size)

/-- A driver is passed by a pointer to its record in the present array, requests
are for known devices, and `CssAddDevice` finds no room. -/
def Clear (w : World) (s : State) : Call → Prop
  | .createDriver answer => Supplied s.heap w.drvtab 56 answer
  | .addNode driver node answer =>
    (∃ i < word s.heap.storage (w.drvtab + 4), driver = driverAt w s.heap.storage i) ∧
      node ∈ w.nodes ∧ Supplied s.heap driver 4 answer
  | .sendRequest req answer =>
    req ∈ w.requests ∧ word s.heap.storage (req + 4) ∈ w.devices ∧
      Supplied s.heap w.queue 16 answer
  | .addDevice _ answer => answer = 0
  | .perform req _ => req ∈ w.requests

instance (h : Heap) (field size answer : Nat) : Decidable (Supplied h field size answer) :=
  inferInstanceAs (Decidable (_ ∨ _))

instance (w : World) (s : State) (call : Call) : Decidable (Clear w s call) :=
  match call with
  | .createDriver _ => inferInstanceAs (Decidable (Supplied _ _ _ _))
  | .addNode _ _ _ => inferInstanceAs (Decidable (_ ∧ _))
  | .sendRequest _ _ => inferInstanceAs (Decidable (_ ∧ _))
  | .addDevice _ answer => inferInstanceAs (Decidable (answer = 0))
  | .perform req _ => inferInstanceAs (Decidable (req ∈ _))

/-- The tables are empty, and nothing in use overlaps. -/
structure Booted (w : World) (h : Heap) : Prop where
  sane : h.Sane
  static : ∀ b ∈ w.blocks, b ∈ h.live
  single : (w.blocks.map Prod.fst).Nodup
  drivers : word h.storage w.drvtab = 0 ∧ word h.storage (w.drvtab + 4) = 0
  requests : word h.storage w.queue = 0 ∧ word h.storage (w.queue + 4) = 0
  devices : word h.storage w.devlist = 0 ∧ word h.storage w.nDevlist = 0

/-- What has a block: the static data and the records of callers, and the arrays. -/
inductive Part where
  | fixed (b : Nat × Nat)
  | drivers
  | nodes (driver : Nat)
  | requests
deriving DecidableEq

def blockOf (w : World) (drivers : Option (Nat × Nat)) (nodes : Nat → Option (Nat × Nat))
    (requests : Option (Nat × Nat)) : Part → Option (Nat × Nat)
  | .fixed b => if b ∈ w.blocks then some b else none
  | .drivers => drivers
  | .nodes i => nodes i
  | .requests => requests

/-- The array described at the field is in this block, if any. -/
structure TableAt (m : Storage) (field size : Nat) (block : Option (Nat × Nat)) : Prop where
  pointer : word m field = (block.map Prod.fst).getD 0
  enough : word m (field + 4) * size ≤ (block.map Prod.snd).getD 0

/-- What every state reached holds: each array has a block of its own that is
large enough, requests are for known devices, and no device was added. -/
structure Shape (w : World) (h : Heap) (drivers : Option (Nat × Nat))
    (nodes : Nat → Option (Nat × Nat)) (requests : Option (Nat × Nat)) : Prop where
  distinct : w.Distinct
  owns : h.Owns (blockOf w drivers nodes requests)
  drvtab : TableAt h.storage w.drvtab 56 drivers
  node : ∀ i < word h.storage (w.drvtab + 4), TableAt h.storage (driverAt w h.storage i) 4 (nodes i)
  beyond : ∀ i, word h.storage (w.drvtab + 4) ≤ i → nodes i = none
  queue : TableAt h.storage w.queue 16 requests
  known : ∀ i < word h.storage (w.queue + 4),
    word h.storage (word h.storage w.queue + i * 16 + 4) ∈ w.devices
  devices : word h.storage w.devlist = 0 ∧ word h.storage w.nDevlist = 0

section
variable {h h' : Heap} {m m' : Storage} {field old n size answer : Nat} {block : Option (Nat × Nat)}

/-- The bytes of a block are the same. -/
def SameOn (m m' : Storage) (b : Nat × Nat) : Prop :=
  ∀ x, b.1 ≤ x → x < b.1 + b.2 → m' x = m x

theorem SameOn.word {b : Nat × Nat} (same : SameOn m m' b) {a : Nat} (lo : b.1 ≤ a)
    (hi : a + 4 ≤ b.1 + b.2) : word m' a = word m a :=
  word_congr fun i _ => same _ (by omega) (by omega)

theorem TableAt.array (table : TableAt m field size block) (positive : 0 < size) :
    word m field = 0 ∧ word m (field + 4) = 0 ∨
      ∃ b, block = some b ∧ word m field = b.1 ∧ word m (field + 4) * size ≤ b.2 := by
  cases block with
  | none =>
    have enough := table.enough
    have zero : word m (field + 4) = 0 := by
      by_contra some
      have := Nat.mul_pos (Nat.pos_of_ne_zero some) positive
      simp only [Option.map_none, Option.getD_none] at enough
      omega
    exact Or.inl ⟨table.pointer, zero⟩
  | some b => exact Or.inr ⟨b, rfl, table.pointer, table.enough⟩

theorem TableAt.described (table : TableAt h.storage field size block) (positive : 0 < size)
    (sane : h.Sane) (held : ∀ b ∈ block, b ∈ h.live)
    (owner : ∃ x ∈ h.live, x.1 ≤ field ∧ field + 8 ≤ x.1 + x.2) :
    Described h field (word h.storage field) (word h.storage (field + 4)) size
      ((block.map Prod.snd).getD 0) := by
  refine ⟨sane, rfl, rfl, (table.array positive).imp_right ?_, owner⟩
  rintro ⟨b, rfl, pointer, enough⟩
  exact ⟨by rw [pointer]; exact held b rfl, enough⟩

theorem TableAt.null_empty (table : TableAt m field size block) (positive : 0 < size)
    (sane : h.Sane) (held : ∀ b ∈ block, b ∈ h.live) (null : word m field = 0) :
    word m (field + 4) = 0 := by
  rcases table.array positive with none | ⟨b, isArray, pointer, -⟩
  · exact none.2
  · have notNull := (sane.proper b (held b isArray)).1
    omega

theorem TableAt.congr {field' : Nat} (table : TableAt m field size block)
    (pointer : word m' field' = word m field) (count : word m' (field' + 4) = word m (field + 4)) :
    TableAt m' field' size block :=
  ⟨pointer.trans table.pointer, by rw [count]; exact table.enough⟩

theorem tableAt_none (pointer : word m field = 0) (count : word m (field + 4) = 0) :
    TableAt m field size none :=
  ⟨pointer, by rw [count, Nat.zero_mul]; exact Nat.zero_le _⟩

theorem tableAt_extended {content : Nat → UInt8}
    (extended : Extended h h' field old n size answer content) :
    TableAt h'.storage field size (some (answer, (n + 1) * size)) :=
  ⟨extended.pointer, by rw [extended.count]; exact Nat.le_refl _⟩

/-- The owner of the array that was extended has the new block. -/
theorem owns_extended {ι : Type} [DecidableEq ι] {blocks : ι → Option (Nat × Nat)} {i : ι}
    {content : Nat → UInt8} (owns : h.Owns blocks)
    (own : old = ((blocks i).map Prod.fst).getD 0)
    (extended : Extended h h' field old n size answer content) :
    h'.Owns (Function.update blocks i (some (answer, (n + 1) * size))) := by
  refine owns.replace extended.sane extended.fresh ((extended.live _).mpr (Or.inl rfl)) ?_
  intro j b found differ
  refine extended.stays owns.sane (owns.held found) fun some same => ?_
  cases mine : blocks i with
  | none =>
    rw [mine] at own
    exact some own
  | some c =>
    rw [mine] at own
    exact differ (owns.single found mine (same.symm.trans own))

end

theorem map_range_succ {α : Type} {f f' : Nat → α} {n : Nat} {x : α}
    (same : ∀ i < n, f' i = f i) (last : f' n = x) :
    (List.range (n + 1)).map f' = (List.range n).map f ++ [x] := by
  rw [List.range_succ, List.map_append, List.map_singleton, last]
  exact congrArg (· ++ [x]) (List.map_congr_left fun i hi => same i (List.mem_range.mp hi))

theorem map_range_modify {α : Type} {f f' : Nat → α} {n i : Nat} {g : α → α}
    (here : f' i = g (f i)) (others : ∀ j < n, j ≠ i → f' j = f j) :
    (List.range n).map f' = ((List.range n).map f).modify i g := by
  apply List.ext_getElem (by simp)
  intro j hj _
  have inRange : j < n := by simpa using hj
  simp only [List.getElem_map, List.getElem_range, List.getElem_modify]
  by_cases same : i = j
  · subst same
    rw [if_pos rfl, here]
  · rw [if_neg same, others j inRange (Ne.symm same)]

section
variable {h h' : Heap} {m m' : Storage} {old n answer : Nat}

theorem entriesOf_extended {queue req : Nat} (first : old = 0 → n = 0)
    (pointer : word h.storage queue = old) (count : word h.storage (queue + 4) = n)
    (extended : Extended h h' queue old n 16 answer fun i => h.storage (req + i)) :
    entriesOf h'.storage queue = entriesOf h.storage queue ++ [h.storage.bytes req 16] := by
  rw [entriesOf, entriesOf, pointer, count, extended.pointer, extended.count]
  refine map_range_succ (fun i hi => bytes_congr fun j hj => ?_)
    (bytes_congr fun j hj => extended.row j hj)
  rw [Nat.add_assoc, Nat.add_assoc]
  exact extended.rows (fun none => by have := first none; omega) _ (by omega)

theorem nodesOf_extended {driver node : Nat} {content : Nat → UInt8} (first : old = 0 → n = 0)
    (pointer : word h.storage driver = old) (count : word h.storage (driver + 4) = n)
    (extended : Extended h h' driver old n 4 answer content)
    (last : word h'.storage (answer + n * 4) = node) :
    nodesOf h'.storage driver = nodesOf h.storage driver ++ [node] := by
  rw [nodesOf, nodesOf, pointer, count, extended.pointer, extended.count]
  refine map_range_succ (fun i hi => word_congr fun j hj => ?_) last
  rw [Nat.add_assoc, Nat.add_assoc]
  exact extended.rows (fun none => by have := first none; omega) _ (by omega)

theorem nodesOf_congr {d d' : Nat} (pointer : word m' d' = word m d)
    (count : word m' (d' + 4) = word m (d + 4))
    (array : ∀ i < word m (d + 4), word m' (word m d + i * 4) = word m (word m d + i * 4)) :
    nodesOf m' d' = nodesOf m d := by
  rw [nodesOf, nodesOf, pointer, count]
  exact List.map_congr_left fun i hi => array i (List.mem_range.mp hi)

end

section
variable {w : World} {h h' : Heap} {drivers : Option (Nat × Nat)} {nodes : Nat → Option (Nat × Nat)}
  {requests : Option (Nat × Nat)} {m' : Storage} {changed : Part → Prop} {i : Nat}

/-- All blocks but those of some parts are as they were. -/
def KeptBut (w : World) (h : Heap) (drivers : Option (Nat × Nat)) (nodes : Nat → Option (Nat × Nat))
    (requests : Option (Nat × Nat)) (m' : Storage) (changed : Part → Prop) : Prop :=
  ∀ part b, blockOf w drivers nodes requests part = some b → ¬ changed part →
    SameOn h.storage m' b

theorem blockOf_fixed {b : Nat × Nat} (member : b ∈ w.blocks) :
    blockOf w drivers nodes requests (.fixed b) = some b := if_pos member

theorem drvtab_mem (w : World) : (w.drvtab, 8) ∈ w.blocks := by simp [World.blocks]
theorem queue_mem (w : World) : (w.queue, 8) ∈ w.blocks := by simp [World.blocks]
theorem devlist_mem (w : World) : (w.devlist, 4) ∈ w.blocks := by simp [World.blocks]
theorem nDevlist_mem (w : World) : (w.nDevlist, 4) ∈ w.blocks := by simp [World.blocks]
theorem psa_mem (w : World) : (psaCcaw, 4) ∈ w.blocks := by simp [World.blocks]

theorem node_mem {node : Nat} (known : node ∈ w.nodes) : (node, 24) ∈ w.blocks := by
  simp [World.blocks, known]

theorem request_mem {req : Nat} (known : req ∈ w.requests) : (req, 16) ∈ w.blocks := by
  simp [World.blocks, known]

theorem device_mem {dev : Nat} (known : dev ∈ w.devices) : (dev, 192) ∈ w.blocks := by
  simp [World.blocks, known]

theorem drvtab_kept (kept : KeptBut w h drivers nodes requests m' changed)
    (drvtab : ¬ changed (.fixed (w.drvtab, 8))) :
    word m' w.drvtab = word h.storage w.drvtab ∧
      word m' (w.drvtab + 4) = word h.storage (w.drvtab + 4) := by
  have described := kept _ _ (blockOf_fixed (drvtab_mem w)) drvtab
  constructor
  · exact described.word (Nat.le_refl _) (by simp only; omega)
  · exact described.word (by simp only; omega) (by simp only; omega)

section
variable (shape : Shape w h drivers nodes requests)
include shape

theorem Shape.driver_in (hi : i < word h.storage (w.drvtab + 4)) :
    ∃ b, drivers = some b ∧ word h.storage w.drvtab = b.1 ∧ b ∈ h.live ∧
      b.1 ≤ driverAt w h.storage i ∧ driverAt w h.storage i + 56 ≤ b.1 + b.2 := by
  rcases shape.drvtab.array (by decide) with none | ⟨b, isArray, pointer, enough⟩
  · omega
  · refine ⟨b, isArray, pointer, shape.owns.held (i := .drivers) isArray, ?_, ?_⟩
    · rw [driverAt, pointer]
      exact Nat.le_add_right _ _
    · rw [driverAt, pointer]
      omega

theorem Shape.queue_kept (kept : KeptBut w h drivers nodes requests m' changed)
    (queue : ¬ changed (.fixed (w.queue, 8))) (array : ¬ changed .requests) :
    CssQueue.Kept w.queue h.storage m' := by
  refine ⟨kept _ _ (blockOf_fixed (queue_mem w)) queue, fun x lo hi => ?_⟩
  rcases shape.queue.array (by decide) with none | ⟨b, isArray, pointer, enough⟩
  · omega
  · exact kept .requests b isArray array x (by omega) (by omega)

theorem Shape.nodes_kept (kept : KeptBut w h drivers nodes requests m' changed)
    (hi : i < word h.storage (w.drvtab + 4)) {d' : Nat}
    (pointer : word m' d' = word h.storage (driverAt w h.storage i))
    (count : word m' (d' + 4) = word h.storage (driverAt w h.storage i + 4))
    (array : ¬ changed (.nodes i)) : nodesOf m' d' = nodesOf h.storage (driverAt w h.storage i) := by
  refine nodesOf_congr pointer count fun j hj => ?_
  rcases (shape.node i hi).array (by decide) with none | ⟨b, isArray, start, enough⟩
  · omega
  · exact (kept (.nodes i) b isArray array).word (by omega) (by omega)

/-- A record of a driver with the same bytes has the same nodes and callbacks. -/
theorem Shape.entry_moved (kept : KeptBut w h drivers nodes requests m' changed)
    (hi : i < word h.storage (w.drvtab + 4)) {d' : Nat}
    (record : ∀ o, o < 56 → m' (d' + o) = h.storage (driverAt w h.storage i + o))
    (array : ¬ changed (.nodes i)) :
    TableAt m' d' 4 (nodes i) ∧ driverEntry m' d' = driverEntry h.storage (driverAt w h.storage i) := by
  have pointer : word m' d' = word h.storage (driverAt w h.storage i) :=
    word_congr fun j _ => record j (by omega)
  have count : word m' (d' + 4) = word h.storage (driverAt w h.storage i + 4) :=
    word_within record (by decide)
  refine ⟨(shape.node i hi).congr pointer count, ?_⟩
  rw [driverEntry, driverEntry, shape.nodes_kept kept hi pointer count array]
  refine congrArg _ (bytes_congr fun j hj => ?_)
  rw [Nat.add_assoc, Nat.add_assoc]
  exact record (8 + j) (by omega)

/-- The drivers are kept with their array and the arrays of their nodes. -/
theorem Shape.drivers_kept (kept : KeptBut w h drivers nodes requests m' changed)
    (drvtab : ¬ changed (.fixed (w.drvtab, 8))) (records : ¬ changed .drivers)
    (arrays : ∀ i, ¬ changed (.nodes i)) :
    TableAt m' w.drvtab 56 drivers ∧
      (∀ i < word m' (w.drvtab + 4), TableAt m' (driverAt w m' i) 4 (nodes i)) ∧
      (∀ i, word m' (w.drvtab + 4) ≤ i → nodes i = none) ∧
      driversOf w m' = driversOf w h.storage := by
  obtain ⟨pointer, count⟩ := drvtab_kept kept drvtab
  have place : ∀ i, driverAt w m' i = driverAt w h.storage i := fun i => by
    rw [driverAt, driverAt, pointer]
  have moved : ∀ i < word h.storage (w.drvtab + 4), TableAt m' (driverAt w m' i) 4 (nodes i) ∧
      driverEntry m' (driverAt w m' i) = driverEntry h.storage (driverAt w h.storage i) := by
    intro i hi
    obtain ⟨b, isArray, -, -, start, fits⟩ := shape.driver_in hi
    refine shape.entry_moved kept hi (fun o ho => ?_) (arrays i)
    rw [place]
    exact kept .drivers b isArray records _ (by omega) (by omega)
  refine ⟨shape.drvtab.congr pointer count, ?_, ?_, ?_⟩
  · rw [count]
    exact fun i hi => (moved i hi).1
  · rw [count]
    exact shape.beyond
  · rw [driversOf, driversOf, count]
    exact List.map_congr_left fun i hi => (moved i (List.mem_range.mp hi)).2

/-- The other drivers are kept where only the first two words of one record change. -/
theorem Shape.others_kept (kept : KeptBut w h drivers nodes requests m' changed)
    (drvtab : ¬ changed (.fixed (w.drvtab, 8))) (arrays : ∀ j, ¬ changed (.nodes j))
    {b : Nat × Nat} (isArray : b ∈ drivers)
    (record : ∀ x, b.1 ≤ x → x < b.1 + b.2 →
      x < driverAt w h.storage i ∨ driverAt w h.storage i + 8 ≤ x → m' x = h.storage x) :
    ∀ j < word h.storage (w.drvtab + 4), j ≠ i →
      TableAt m' (driverAt w m' j) 4 (nodes j) ∧
        driverEntry m' (driverAt w m' j) = driverEntry h.storage (driverAt w h.storage j) := by
  intro j hj differ
  obtain ⟨b', isArray', -, -, start, fits⟩ := shape.driver_in hj
  obtain rfl : b = b' := Option.some.inj (isArray.symm.trans isArray')
  have place : driverAt w m' j = driverAt w h.storage j := by
    rw [driverAt, driverAt, (drvtab_kept kept drvtab).1]
  refine shape.entry_moved kept hj (fun o ho => ?_) (arrays j)
  rw [place]
  refine record _ (by omega) (by omega) ?_
  rw [driverAt, driverAt]
  omega

theorem Shape.devices_kept (kept : KeptBut w h drivers nodes requests m' changed)
    (devlist : ¬ changed (.fixed (w.devlist, 4))) (nDevlist : ¬ changed (.fixed (w.nDevlist, 4))) :
    word m' w.devlist = 0 ∧ word m' w.nDevlist = 0 ∧ devicesOf w m' = devicesOf w h.storage := by
  have pointer : word m' w.devlist = 0 :=
    ((kept _ _ (blockOf_fixed (devlist_mem w)) devlist).word (Nat.le_refl _)
      (Nat.le_refl _)).trans shape.devices.1
  have count : word m' w.nDevlist = 0 :=
    ((kept _ _ (blockOf_fixed (nDevlist_mem w)) nDevlist).word (Nat.le_refl _)
      (Nat.le_refl _)).trans shape.devices.2
  refine ⟨pointer, count, ?_⟩
  rw [devicesOf, devicesOf, count, shape.devices.2, List.range_zero, List.map_nil, List.map_nil]

theorem Shape.kept_extended {field old n size answer : Nat} {content : Nat → UInt8}
    (extended : Extended h h' field old n size answer content) {part : Part} {x : Nat × Nat}
    (here : blockOf w drivers nodes requests part = some x)
    (inside : x.1 ≤ field ∧ field + 8 ≤ x.1 + x.2) :
    KeptBut w h drivers nodes requests h'.storage (· = part) := by
  intro other b found differ y lo hi
  have apart := shape.owns.apart found here differ
  simp only [Apart] at apart
  exact extended.kept y ⟨b, shape.owns.held found, lo, hi⟩ (by omega)

theorem Shape.kept_setWord (kept : KeptBut w h drivers nodes requests m' changed) {part : Part}
    {x : Nat × Nat} (here : blockOf w drivers nodes requests part = some x) {a v : Nat}
    (inside : x.1 ≤ a ∧ a + 4 ≤ x.1 + x.2) :
    KeptBut w h drivers nodes requests (m'.setWord a v) fun p => changed p ∨ p = part := by
  intro other b found differ y lo hi
  have apart := shape.owns.apart found here fun same => differ (Or.inr same)
  simp only [Apart] at apart
  exact (setWord_outside _ (by omega)).trans
    (kept other b found (fun same => differ (Or.inl same)) y lo hi)

end

end

section
variable {w : World} {h : Heap} {drivers : Option (Nat × Nat)} {nodes : Nat → Option (Nat × Nat)}
  {requests : Option (Nat × Nat)} {m' : Storage} {i answer : Nat}

theorem blockOf_drivers (drivers' : Option (Nat × Nat)) :
    blockOf w drivers' nodes requests =
      Function.update (blockOf w drivers nodes requests) .drivers drivers' := by
  funext part
  cases part <;> rfl

theorem blockOf_requests (requests' : Option (Nat × Nat)) :
    blockOf w drivers nodes requests' =
      Function.update (blockOf w drivers nodes requests) .requests requests' := by
  funext part
  cases part <;> rfl

theorem blockOf_nodes (i : Nat) (array : Option (Nat × Nat)) :
    blockOf w drivers (Function.update nodes i array) requests =
      Function.update (blockOf w drivers nodes requests) (.nodes i) array := by
  funext part
  cases part with
  | nodes j =>
    by_cases same : j = i
    · subst same
      rw [Function.update_self]
      exact Function.update_self _ _ _
    · rw [Function.update_of_ne (by simpa using same)]
      exact Function.update_of_ne same _ _
  | _ => rfl

section
variable (shape : Shape w h drivers nodes requests)
include shape

theorem Shape.queue_stays (kept : CssQueue.Kept w.queue h.storage m') :
    TableAt m' w.queue 16 requests ∧
      (∀ i < word m' (w.queue + 4), word m' (word m' w.queue + i * 16 + 4) ∈ w.devices) ∧
      entriesOf m' w.queue = entriesOf h.storage w.queue := by
  have same := kept.unaffected
  refine ⟨shape.queue.congr same.pointer same.count, fun i hi => ?_, same.entries⟩
  rw [same.count] at hi
  have entry : word m' (word h.storage w.queue + i * 16 + 4) =
      word h.storage (word h.storage w.queue + i * 16 + 4) :=
    word_congr fun j _ => kept.2 _ (by omega) (by omega)
  rw [same.pointer, entry]
  exact shape.known i hi

/-- `KeCreateFsDriver` with room for the array. -/
theorem Shape.create (keeping : Keeping h answer (word h.storage w.drvtab)
      ((word h.storage (w.drvtab + 4) + 1) * 56)) :
    ∃ driver h', keCreateFsDriver w.drvtab h answer = .ok (driver, h') ∧ driver ≠ noDriver ∧
      tablesOf w h'.storage = (tablesOf w h.storage).addDriver ∧
      Shape w h' (some (answer, (word h.storage (w.drvtab + 4) + 1) * 56)) nodes requests := by
  have here : blockOf w drivers nodes requests (.fixed (w.drvtab, 8)) = some (w.drvtab, 8) :=
    blockOf_fixed (drvtab_mem w)
  obtain ⟨h', made, extended⟩ := keCreateFsDriver_extends (shape.drvtab.described (by decide)
    shape.owns.sane (fun b isArray => shape.owns.held (i := .drivers) isArray)
    ⟨_, shape.owns.held here, Nat.le_refl _, Nat.le_refl _⟩) keeping
  have kept := shape.kept_extended extended here ⟨Nat.le_refl _, Nat.le_refl _⟩
  obtain ⟨queue, known, entries⟩ := shape.queue_stays
    (shape.queue_kept kept (by simpa using shape.distinct.1) (by simp))
  obtain ⟨devlist, nDevlist, devices⟩ := shape.devices_kept kept (by simp) (by simp)
  set n := word h.storage (w.drvtab + 4) with counted
  have range := keeping.1.1.2.2
  simp only [Nat.add_mul] at range
  have place : ∀ i, driverAt w h'.storage i = answer + i * 56 := fun i => by
    rw [driverAt, extended.pointer]
  have moved : ∀ i < n, TableAt h'.storage (driverAt w h'.storage i) 4 (nodes i) ∧
      driverEntry h'.storage (driverAt w h'.storage i) =
        driverEntry h.storage (driverAt w h.storage i) := by
    intro i hi
    obtain ⟨b, -, start, live, -, -⟩ := shape.driver_in hi
    have positive := (shape.owns.sane.proper b live).1
    refine shape.entry_moved kept hi (fun o ho => ?_) (by simp)
    rw [place, driverAt, Nat.add_assoc, Nat.add_assoc]
    exact extended.rows (by omega) _ (by omega)
  -- the record behind the others is cleared
  have cleared : ∀ o, o < 56 → h'.storage (driverAt w h'.storage n + o) = 0 := fun o ho => by
    rw [place]
    exact extended.row o ho
  have noNodes : word h'.storage (driverAt w h'.storage n) = 0 :=
    word_zero fun j _ => cleared j (by omega)
  have noCount : word h'.storage (driverAt w h'.storage n + 4) = 0 := word_zero fun j _ => by
    rw [Nat.add_assoc]
    exact cleared (4 + j) (by omega)
  refine ⟨_, h', made, by unfold noDriver; omega, ?_, shape.distinct, ?_, tableAt_extended extended,
    ?_, ?_, queue, known, devlist, nDevlist⟩
  · have added : driversOf w h'.storage =
        driversOf w h.storage ++ [⟨[], List.replicate 48 0⟩] := by
      rw [driversOf, driversOf, extended.count]
      refine map_range_succ (fun i hi => (moved i hi).2) ?_
      rw [driverEntry, nodesOf, noCount, List.range_zero, List.map_nil]
      refine congrArg _ (bytes_replicate fun j hj => ?_)
      rw [Nat.add_assoc]
      exact cleared (8 + j) (by omega)
    rw [tablesOf, added, entries, devices]
    rfl
  · rw [blockOf_drivers]
    exact owns_extended shape.owns shape.drvtab.pointer extended
  · rw [extended.count]
    intro i hi
    by_cases last : i = n
    · subst last
      rw [shape.beyond _ (Nat.le_refl _)]
      exact tableAt_none noNodes noCount
    · exact (moved i (by omega)).1
  · rw [extended.count]
    exact fun i hi => shape.beyond i (by omega)

/-- `KeAddFsNodeToDriver` with room for the array of a driver in the table. -/
theorem Shape.addNode (debug : Bool) {node : Nat} (hi : i < word h.storage (w.drvtab + 4))
    (member : node ∈ w.nodes)
    (keeping : Keeping h answer (word h.storage (driverAt w h.storage i))
      ((word h.storage (driverAt w h.storage i + 4) + 1) * 4)) :
    ∃ h' array, keAddFsNodeToDriver debug h (driverAt w h.storage i) node answer = .ok (0, h') ∧
      tablesOf w h'.storage = (tablesOf w h.storage).addNode i node ∧
      Shape w h' drivers (Function.update nodes i (some array)) requests := by
  obtain ⟨b, isArray, -, live, start, fits⟩ := shape.driver_in hi
  have records : blockOf w drivers nodes requests .drivers = some b := isArray
  have record : blockOf w drivers nodes requests (.fixed (node, 24)) = some (node, 24) :=
    blockOf_fixed (node_mem member)
  have isNode := shape.owns.sane.proper _ (shape.owns.held record)
  have properArray := shape.owns.sane.proper b live
  have ofRecords := shape.owns.apart records record (by simp)
  simp only [Proper, Apart] at isNode properArray ofRecords
  set d := driverAt w h.storage i with isDriver
  set n := word h.storage (d + 4) with counted
  obtain ⟨h', added, extended, last⟩ := keAddFsNodeToDriver_extends debug
    ((shape.node i hi).described (by decide) shape.owns.sane
      (fun b isArray => shape.owns.held (i := .nodes i) isArray) ⟨b, live, start, by omega⟩)
    keeping (show d ≠ 0 by omega) (show node ≠ 0 by omega) (show node < 4294967296 by omega)
  have ofNode := extended.fresh.2 _ (shape.owns.held record)
  have ofDriver := extended.fresh.2 b live
  simp only [Apart, Nat.add_mul] at ofNode ofDriver
  set m2 := h'.storage.setWord (node + 8) d with stored
  have kept : KeptBut w h drivers nodes requests m2 fun p => p = .drivers ∨ p = .fixed (node, 24) :=
    shape.kept_setWord (shape.kept_extended extended records ⟨start, by omega⟩) record
      ⟨by simp only; omega, by simp only; omega⟩
  obtain ⟨queue, known, entries⟩ := shape.queue_stays
    (shape.queue_kept kept (by simp) (by simp))
  obtain ⟨devlist, nDevlist, devices⟩ := shape.devices_kept kept (by simp) (by simp)
  obtain ⟨pointer, count⟩ := drvtab_kept kept (by simp)
  have place : ∀ j, driverAt w m2 j = driverAt w h.storage j := fun j => by
    rw [driverAt, driverAt, pointer]
  -- of the records of drivers only the first two words of this one change
  have kept_record : ∀ x, b.1 ≤ x → x < b.1 + b.2 → x < d ∨ d + 8 ≤ x → m2 x = h.storage x := by
    intro x lo hi' outside
    exact (setWord_outside _ (by omega)).trans (extended.kept x ⟨b, live, lo, hi'⟩ outside)
  have others := shape.others_kept kept (by simp) (by simp) isArray kept_record
  have described : word m2 d = word h'.storage d ∧ word m2 (d + 4) = word h'.storage (d + 4) :=
    ⟨word_setWord_other _ (by omega), word_setWord_other _ (by omega)⟩
  have entry : driverEntry m2 d =
      { driverEntry h.storage d with nodes := nodesOf h.storage d ++ [node] } := by
    have first : word h.storage d = 0 → n = 0 := (shape.node i hi).null_empty (by decide)
      shape.owns.sane fun b isNodes => shape.owns.held (i := .nodes i) isNodes
    have same : nodesOf m2 d = nodesOf h'.storage d := by
      refine nodesOf_congr described.1 described.2 fun j hj => ?_
      rw [extended.count] at hj
      rw [extended.pointer]
      exact word_setWord_other _ (by omega)
    rw [driverEntry, same, nodesOf_extended first rfl rfl extended last]
    refine congrArg _ (bytes_congr fun j hj => ?_)
    exact kept_record _ (by omega) (by omega) (by omega)
  refine ⟨⟨m2, h'.live⟩, (answer, (n + 1) * 4), added, ?_, shape.distinct, ?_,
    shape.drvtab.congr pointer count, ?_, ?_, queue, known, devlist, nDevlist⟩
  · have changed : driversOf w m2 = (driversOf w h.storage).modify i fun e =>
        { e with nodes := e.nodes ++ [node] } := by
      rw [driversOf, driversOf, count]
      refine map_range_modify ?_ fun j hj differ => (others j hj differ).2
      rw [place]
      exact entry
    rw [tablesOf, changed, entries, devices]
    rfl
  · rw [blockOf_nodes]
    exact (owns_extended shape.owns (shape.node i hi).pointer extended).write _
  · rw [count]
    intro j hj
    by_cases same : j = i
    · subst same
      rw [Function.update_self, place]
      exact (tableAt_extended extended).congr described.1 described.2
    · rw [Function.update_of_ne same]
      exact (others j hj same).1
  · rw [count]
    intro j hj
    rw [Function.update_of_ne (by omega)]
    exact shape.beyond j hj

/-- `CssSendRequest` with room for the queue. -/
theorem Shape.send (debug : Bool) {req : Nat} (member : req ∈ w.requests)
    (device : word h.storage (req + 4) ∈ w.devices)
    (keeping : Keeping h answer (word h.storage w.queue)
      ((word h.storage (w.queue + 4) + 1) * 16)) :
    ∃ h' array, cssSendRequest debug w.queue h req answer = .ok h' ∧
      tablesOf w h'.storage = (tablesOf w h.storage).addRequest (h.storage.bytes req 16) ∧
      Shape w h' drivers nodes (some array) := by
  have here : blockOf w drivers nodes requests (.fixed (w.queue, 8)) = some (w.queue, 8) :=
    blockOf_fixed (queue_mem w)
  have record : blockOf w drivers nodes requests (.fixed (req, 16)) = some (req, 16) :=
    blockOf_fixed (request_mem member)
  have apart := shape.owns.apart record here (by simp)
  have held : ∀ b ∈ requests, b ∈ h.live := fun b isArray => shape.owns.held (i := .requests) isArray
  obtain ⟨h', sent, extended⟩ := cssSendRequest_extends debug (shape.queue.described (by decide)
    shape.owns.sane held ⟨_, shape.owns.held here, Nat.le_refl _, Nat.le_refl _⟩) keeping
    ⟨_, shape.owns.held record, Nat.le_refl _, Nat.le_refl _⟩ apart
  have kept := shape.kept_extended extended here ⟨Nat.le_refl _, Nat.le_refl _⟩
  obtain ⟨drvtab, node, beyond, same⟩ := shape.drivers_kept kept
    (by simpa using Ne.symm shape.distinct.1) (by simp) (by simp)
  obtain ⟨devlist, nDevlist, devices⟩ := shape.devices_kept kept (by simp) (by simp)
  have first := shape.queue.null_empty (by decide) shape.owns.sane held
  refine ⟨h', _, sent, ?_, shape.distinct, ?_, drvtab, node, beyond, tableAt_extended extended, ?_,
    devlist, nDevlist⟩
  · rw [tablesOf, same, devices, entriesOf_extended first rfl rfl extended]
    rfl
  · rw [blockOf_requests]
    exact owns_extended shape.owns shape.queue.pointer extended
  · rw [extended.count, extended.pointer]
    intro i hi
    by_cases last : i = word h.storage (w.queue + 4)
    · subst last
      have copied : word h'.storage (answer + word h.storage (w.queue + 4) * 16 + 4) =
          word h.storage (req + 4) := word_within extended.row (by decide)
      rw [copied]
      exact device
    · have moved : word h'.storage (answer + i * 16 + 4) =
          word h.storage (word h.storage w.queue + i * 16 + 4) := word_congr fun j _ => by
        simp only [Nat.add_assoc]
        exact extended.rows (fun null => by have := first null; omega) _ (by omega)
      rw [moved]
      exact shape.known i (by omega)

/-- The queue may have fewer requests of the same array. -/
theorem Shape.queue_shrunk {changed : Part → Prop}
    (kept : KeptBut w h drivers nodes requests m' changed) (array : ¬ changed .requests)
    (pointer : word m' w.queue = word h.storage w.queue)
    (less : word m' (w.queue + 4) ≤ word h.storage (w.queue + 4)) :
    TableAt m' w.queue 16 requests ∧
      ∀ i < word m' (w.queue + 4), word m' (word m' w.queue + i * 16 + 4) ∈ w.devices := by
  refine ⟨⟨pointer.trans shape.queue.pointer, ?_⟩, fun i hi => ?_⟩
  · exact Nat.le_trans (Nat.mul_le_mul_right 16 less) shape.queue.enough
  · rcases shape.queue.array (by decide) with none | ⟨b, isArray, start, enough⟩
    · omega
    · have entry := (kept .requests b isArray array).word
        (a := word h.storage w.queue + i * 16 + 4) (by omega) (by omega)
      rw [pointer, entry]
      exact shape.known i (by omega)

/-- What `CssPerformRequest` works on has its own blocks. -/
theorem Shape.separate {req : Nat} (member : req ∈ w.requests)
    (notEmpty : word h.storage (w.queue + 4) ≠ 0) :
    lastDevice h.storage w.queue ∈ w.devices ∧ Separate h.storage w.queue req := by
  have device : lastDevice h.storage w.queue ∈ w.devices :=
    shape.known (word h.storage (w.queue + 4) - 1) (by omega)
  rcases shape.queue.array (by decide) with none | ⟨b, isArray, pointer, enough⟩
  · exact absurd none.2 notEmpty
  have array : blockOf w drivers nodes requests .requests = some b := isArray
  have proper : ∀ x ∈ w.blocks, Proper x := fun x hx =>
    shape.owns.sane.proper x (shape.owns.held (blockOf_fixed hx))
  have apart : ∀ x ∈ w.blocks, ∀ y ∈ w.blocks, x ≠ y → Apart x y := fun x hx y hy differ =>
    shape.owns.apart (blockOf_fixed hx) (blockOf_fixed hy) (by simpa using differ)
  have elements : ∀ x ∈ w.blocks,
      Apart (word h.storage w.queue, word h.storage (w.queue + 4) * 16) x := fun x hx => by
    have whole := shape.owns.apart array (blockOf_fixed hx) (by simp)
    simp only [Apart] at whole ⊢
    omega
  have inMemory := shape.owns.sane.proper b (shape.owns.held array)
  have queue := queue_mem w
  have psa := psa_mem w
  have inDevice := device_mem device
  have inRequest := request_mem member
  refine ⟨device, ?_, ?_⟩
  · simp only [CssQueue.objects, List.forall_mem_cons, List.not_mem_nil, false_implies,
      implies_true, and_true]
    refine ⟨proper _ queue, ?_, proper _ psa, proper _ inDevice, proper _ inRequest⟩
    simp only [Proper] at inMemory ⊢
    omega
  · simp only [CssQueue.objects, List.pairwise_cons, List.forall_mem_cons, List.not_mem_nil,
      false_implies, implies_true, and_true, List.Pairwise.nil]
    refine ⟨⟨?_, ?_, ?_, ?_⟩, ⟨elements _ psa, elements _ inDevice, elements _ inRequest⟩,
      ⟨?_, ?_⟩, ?_⟩
    · exact (elements _ queue).symm
    · exact apart _ queue _ psa (by simp)
    · exact apart _ queue _ inDevice (by simp)
    · exact apart _ queue _ inRequest (by simp)
    · exact apart _ psa _ inDevice (by simp)
    · exact apart _ psa _ inRequest (by simp)
    · exact apart _ inDevice _ inRequest (by simp)

/-- `CssPerformRequest` that returns, whatever the device answers. -/
theorem Shape.perform (debug : Bool) {req : Nat} {io : Script} (member : req ∈ w.requests) :
    Outcome.After (fun done =>
        tablesOf w done.heap.storage = (if done.result = 0 then (tablesOf w h.storage).removeRequest
          else tablesOf w h.storage) ∧
        Shape w done.heap drivers nodes requests)
      (cssPerformRequest debug w.queue h req io) := by
  intro done ran
  by_cases empty : word h.storage (w.queue + 4) = 0
  · rw [cssPerformRequest_empty debug empty] at ran
    cases ran
    exact ⟨rfl, shape⟩
  · obtain ⟨device, separate⟩ := shape.separate member empty
    obtain ⟨live, outside⟩ := CssQueue.perform_frame debug separate empty done ran
    obtain ⟨failed, completed⟩ := CssQueue.perform_keeps debug separate empty done ran
    have kept : KeptBut w h drivers nodes requests done.heap.storage fun p =>
        p = .fixed (req, 16) ∨ p = .fixed (psaCcaw, 4) ∨
          p = .fixed (lastDevice h.storage w.queue, 192) ∨ p = .fixed (w.queue, 8) := by
      intro part b found differ x lo hi
      have apart : ∀ y ∈ w.blocks, part ≠ .fixed y → x < y.1 ∨ y.1 + y.2 ≤ x := fun y hy other => by
        have ofBlock := shape.owns.apart found (blockOf_fixed hy) other
        simp only [Apart] at ofBlock
        omega
      push Not at differ
      obtain ⟨offRecord, offPsa, offDevice, offQueue⟩ := differ
      have offCount := apart _ (queue_mem w) offQueue
      refine outside x (apart _ (request_mem member) offRecord) (apart _ (psa_mem w) offPsa)
        (apart _ (device_mem device) offDevice) ?_
      simp only at offCount
      omega
    obtain ⟨drvtab, node, beyond, same⟩ := shape.drivers_kept kept
      (by simpa using Ne.symm shape.distinct.1) (by simp) (by simp)
    obtain ⟨devlist, nDevlist, devices⟩ := shape.devices_kept kept
      (by simpa using shape.distinct.2.1) (by simpa using shape.distinct.2.2)
    have pointer : word done.heap.storage w.queue = word h.storage w.queue := by
      by_cases zero : done.result = 0
      · exact (completed zero).pointer
      · exact (failed zero).pointer
    have entries : entriesOf done.heap.storage w.queue =
        if done.result = 0 then (entriesOf h.storage w.queue).dropLast
        else entriesOf h.storage w.queue := by
      by_cases zero : done.result = 0
      · rw [if_pos zero]
        exact (completed zero).entries
      · rw [if_neg zero]
        exact (failed zero).entries
    have less : word done.heap.storage (w.queue + 4) ≤ word h.storage (w.queue + 4) := by
      have lengths := congrArg List.length entries
      simp only [entriesOf, apply_ite List.length, List.length_dropLast, List.length_map,
        List.length_range] at lengths
      split at lengths
      · omega
      · omega
    obtain ⟨queue, known⟩ := shape.queue_shrunk kept (by simp) pointer less
    refine ⟨?_, shape.distinct, ?_, drvtab, node, beyond, queue, known, devlist, nDevlist⟩
    · rw [tablesOf, same, devices, entries]
      split
      · rfl
      · rfl
    · have after : done.heap = { h with storage := done.heap.storage } := by rw [← live]
      rw [after]
      exact shape.owns.write _

end

end

/-- The tables are well formed and exact. -/
structure Holds (w : World) (s : State) : Prop where
  shape : ∃ drivers nodes requests, Shape w s.heap drivers nodes requests
  exact : Exact w s

section
variable {debug : Bool} {w : World} {s t : State} {call : Call} {answer : Nat}

theorem AsBefore.refl (w : World) (m : Storage) : AsBefore w m m :=
  ⟨⟨rfl, rfl⟩, fun _ _ => ⟨rfl, rfl⟩, ⟨rfl, rfl⟩, ⟨rfl, rfl⟩, rfl⟩

/-- A call does what it should if it returns with the tables exact, and changes
nothing if its allocation fails. -/
theorem appends_of_returned (ran : step debug w s call = .ok t) (holds : Holds w t)
    (unchanged : call.allocation = some 0 → t.heap = s.heap) :
    AppendsOrUnchanged debug w s call ∧ Outcome.After (Holds w) (step debug w s call) := by
  rw [AppendsOrUnchanged, ran]
  refine ⟨⟨fun _ => rfl, Outcome.after_ok ⟨fun fails => ?_, holds.exact⟩⟩, Outcome.after_ok holds⟩
  rw [unchanged fails]
  exact AsBefore.refl w _

/-- A table without an array is empty, so the size of its first element is no
more than a register holds. -/
theorem supplied_few {block : Option (Nat × Nat)} {field size : Nat} {h : Heap}
    (table : TableAt h.storage field size block) (positive : 0 < size) (sane : h.Sane)
    (held : ∀ b ∈ block, b ∈ h.live) (small : size < 4294967296) (null : word h.storage field = 0) :
    (word h.storage (field + 4) + 1) * size < 4294967296 := by
  rw [table.null_empty positive sane held null, Nat.zero_add, Nat.one_mul]
  exact small

theorem Holds.createDriver (holds : Holds w s) (clear : Clear w s (.createDriver answer)) :
    AppendsOrUnchanged debug w s (.createDriver answer) ∧
      Outcome.After (Holds w) (step debug w s (.createDriver answer)) := by
  obtain ⟨drivers, nodes, requests, shape⟩ := holds.shape
  rcases clear with ⟨rfl, null⟩ | keeping
  · have failed := keCreateFsDriver_none null (supplied_few shape.drvtab (by decide)
      shape.owns.sane (fun b isArray => shape.owns.held (i := .drivers) isArray) (by decide) null)
    refine appends_of_returned (t := s) ?_ holds fun _ => rfl
    delta step
    dsimp only
    rw [failed]
    rfl
  · obtain ⟨driver, h', made, notNull, added, kept⟩ := shape.create keeping
    refine appends_of_returned (t := ⟨h', s.added.addDriver⟩) ?_
      ⟨⟨_, _, _, kept⟩, added.trans (congrArg _ holds.exact)⟩ fun fails => ?_
    · delta step
      dsimp only
      rw [made]
      simp only [Outcome.ok_bind, if_neg notNull]
    · cases fails
      exact absurd keeping.1.1.1 (Nat.lt_irrefl 0)

theorem Holds.addNode (holds : Holds w s) {driver node : Nat}
    (clear : Clear w s (.addNode driver node answer)) :
    AppendsOrUnchanged debug w s (.addNode driver node answer) ∧
      Outcome.After (Holds w) (step debug w s (.addNode driver node answer)) := by
  obtain ⟨drivers, nodes, requests, shape⟩ := holds.shape
  obtain ⟨⟨i, hi, rfl⟩, member, supplied⟩ := clear
  have table := shape.node i hi
  have held : ∀ b ∈ nodes i, b ∈ s.heap.live := fun b isNodes =>
    shape.owns.held (i := .nodes i) isNodes
  rcases supplied with ⟨rfl, null⟩ | keeping
  · obtain ⟨b, -, -, live, start, -⟩ := shape.driver_in hi
    have notNull := (shape.owns.sane.proper b live).1
    have isNode := (shape.owns.sane.proper _ (shape.owns.held (blockOf_fixed (node_mem member)))).1
    have failed := keAddFsNodeToDriver_none debug
      (show driverAt w s.heap.storage i ≠ 0 by omega) (Nat.ne_of_gt isNode) null
      (supplied_few table (by decide) shape.owns.sane held (by decide) null)
    refine appends_of_returned (t := s) ?_ holds fun _ => rfl
    delta step
    dsimp only
    rw [failed]
    rfl
  · obtain ⟨h', array, ran, added, kept⟩ := shape.addNode debug hi member keeping
    have index : (driverAt w s.heap.storage i - word s.heap.storage w.drvtab) / 56 = i := by
      rw [driverAt, Nat.add_sub_cancel_left, Nat.mul_div_cancel _ (by decide)]
    refine appends_of_returned (t := ⟨h', s.added.addNode i node⟩) ?_
      ⟨⟨_, _, _, kept⟩, added.trans (congrArg (Entries.addNode · i node) holds.exact)⟩ fun fails => ?_
    · delta step
      dsimp only
      rw [ran]
      simp only [Outcome.ok_bind, if_true, index]
    · cases fails
      exact absurd keeping.1.1.1 (Nat.lt_irrefl 0)

theorem Holds.sendRequest (holds : Holds w s) {req : Nat}
    (clear : Clear w s (.sendRequest req answer)) :
    AppendsOrUnchanged debug w s (.sendRequest req answer) ∧
      Outcome.After (Holds w) (step debug w s (.sendRequest req answer)) := by
  obtain ⟨drivers, nodes, requests, shape⟩ := holds.shape
  obtain ⟨member, device, supplied⟩ := clear
  rcases supplied with ⟨rfl, null⟩ | keeping
  · have few := supplied_few shape.queue (by decide) shape.owns.sane
      (fun b isArray => shape.owns.held (i := .requests) isArray) (by decide) null
    have failed : cssSendRequest debug w.queue s.heap req 0 = .ok s.heap :=
      cssSendRequest_none debug null few
    refine appends_of_returned (t := s) ?_ holds fun _ => rfl
    delta step
    dsimp only
    rw [failed]
    rfl
  · obtain ⟨h', array, sent, added, kept⟩ := shape.send debug member device keeping
    have notNull : answer ≠ 0 := Nat.ne_of_gt keeping.1.1.1
    refine appends_of_returned (t := ⟨h', s.added.addRequest (s.heap.storage.bytes req 16)⟩) ?_
      ⟨⟨_, _, _, kept⟩, added.trans (congrArg (Entries.addRequest · _) holds.exact)⟩ fun fails => ?_
    · delta step
      dsimp only
      rw [sent]
      simp only [Outcome.ok_bind, if_neg notNull]
    · cases fails
      exact absurd rfl notNull

theorem Holds.addDevice (holds : Holds w s) {dev : Nat} :
    AppendsOrUnchanged debug w s (.addDevice dev 0) ∧
      Outcome.After (Holds w) (step debug w s (.addDevice dev 0)) := by
  obtain ⟨drivers, nodes, requests, shape⟩ := holds.shape
  have failed : cssAddDevice w.devlist w.nDevlist s.heap dev 0 = .ok (-1, s.heap) :=
    cssAddDevice_none (by rw [shape.devices.2]; decide)
  refine appends_of_returned (t := s) ?_ holds fun _ => rfl
  delta step
  dsimp only
  rw [failed]
  rfl

theorem Holds.perform (holds : Holds w s) {req : Nat} {io : Script}
    (member : req ∈ w.requests) :
    AppendsOrUnchanged debug w s (.perform req io) ∧
      Outcome.After (Holds w) (step debug w s (.perform req io)) := by
  obtain ⟨drivers, nodes, requests, shape⟩ := holds.shape
  have after : Outcome.After (Holds w) (step debug w s (.perform req io)) := by
    delta step
    dsimp only
    refine (shape.perform debug member).bind ?_
    rintro done ⟨removed, kept⟩
    refine Outcome.after_ok ⟨⟨_, _, _, kept⟩, removed.trans ?_⟩
    rw [show tablesOf w s.heap.storage = s.added from holds.exact]
  refine ⟨⟨fun allocates => absurd rfl allocates, fun t ran => ⟨?_, (after t ran).exact⟩⟩, after⟩
  exact fun fails => by cases fails

/-- Every call that meets the condition does what it should, and keeps the
tables well formed. -/
theorem Holds.step (debug : Bool) (call : Call) (holds : Holds w s) (clear : Clear w s call) :
    AppendsOrUnchanged debug w s call ∧ Outcome.After (Holds w) (step debug w s call) := by
  cases call with
  | createDriver answer => exact holds.createDriver clear
  | addNode driver node answer => exact holds.addNode clear
  | sendRequest req answer => exact holds.sendRequest clear
  | addDevice dev answer =>
    obtain rfl : answer = 0 := clear
    exact holds.addDevice
  | perform req io => exact holds.perform clear

/-- Empty tables are well formed. -/
theorem Booted.shape {h : Heap} (booted : Booted w h) : Shape w h none (fun _ => none) none := by
  have single := booted.single
  simp only [World.blocks, List.map_append, List.map_cons, List.cons_append, List.nodup_cons,
    List.mem_cons, not_or] at single
  have isStatic : ∀ {part b}, blockOf w none (fun _ => none) none part = some b →
      part = .fixed b ∧ b ∈ w.blocks := by
    intro part b found
    cases part with
    | fixed c =>
      by_cases member : c ∈ w.blocks
      · rw [blockOf, if_pos member, Option.some.injEq] at found
        exact ⟨congrArg _ found, found ▸ member⟩
      · rw [blockOf, if_neg member] at found
        cases found
    | _ => cases found
  refine ⟨⟨Ne.symm single.1.1, single.2.2.1.2.1, single.2.2.2.1.1⟩, ⟨booted.sane,
    fun found => booted.static _ (isStatic found).2, fun found found' same => ?_⟩,
    tableAt_none booted.drivers.1 booted.drivers.2, fun i hi => ?_, fun _ _ => rfl,
    tableAt_none booted.requests.1 booted.requests.2, fun i hi => ?_, booted.devices⟩
  · obtain ⟨rfl, member⟩ := isStatic found
    obtain ⟨rfl, member'⟩ := isStatic found'
    exact congrArg _ (List.inj_on_of_nodup_map booted.single member member' same)
  · rw [booted.drivers.2] at hi
    exact absurd hi (Nat.not_lt_zero i)
  · rw [booted.requests.2] at hi
    exact absurd hi (Nat.not_lt_zero i)

theorem Booted.holds {h : Heap} (booted : Booted w h) : Holds w ⟨h, ⟨[], [], []⟩⟩ := by
  refine ⟨⟨none, fun _ => none, none, booted.shape⟩, ?_⟩
  rw [Exact, tablesOf, driversOf, entriesOf, devicesOf, booted.drivers.2, booted.requests.2,
    booted.devices.2, List.range_zero, List.map_nil, List.map_nil, List.map_nil]

end

/-- In every run in which arrays find room without losing their contents, or
fail to before there is one, drivers are passed by their present records and
`CssAddDevice` finds no room, the tables hold what was added and not removed, in
order, after every call, and a call whose allocation fails leaves them as they
were. -/
theorem tables_append_or_unchanged (debug : Bool) (w : World) (h : Heap) (booted : Booted w h)
    (calls : List Call) (clear : Runs.Meets (step debug w) (Clear w) ⟨h, ⟨[], [], []⟩⟩ calls) :
    Runs.Meets (step debug w) (AppendsOrUnchanged debug w) ⟨h, ⟨[], [], []⟩⟩ calls :=
  Runs.meets_of_keep (fun _ call holds ok => Holds.step debug call holds ok) booted.holds clear

/-- Two nodes, a request with one channel word, and its device. -/
def machine : World := ⟨100, 108, 116, 120, [200, 224], [300], [400]⟩

def machineHeap : Heap :=
  let empty : Storage := fun _ => 0
  ⟨((empty.setWord 300 3000).setWord 304 400).setWord 308 1, machine.blocks⟩

theorem machine_word {a : Nat} (outside : a + 4 ≤ 300 ∨ 312 ≤ a) :
    word machineHeap.storage a = 0 := by
  simp only [machineHeap]
  rw [word_setWord_other _ (by omega), word_setWord_other _ (by omega),
    word_setWord_other _ (by omega)]
  exact word_zero fun _ _ => rfl

theorem machine_booted : Booted machine machineHeap where
  sane := ⟨by decide, by decide⟩
  static := fun _ member => member
  single := by decide
  drivers := ⟨machine_word (by decide), machine_word (by decide)⟩
  requests := ⟨machine_word (by decide), machine_word (by decide)⟩
  devices := ⟨machine_word (by decide), machine_word (by decide)⟩

/-- The drivers grow to a block below the one they had, with a failure before
that, and a request is performed. -/
def growing : List Call :=
  [.createDriver 0, .createDriver 4000, .addNode 4000 200 2900, .createDriver 2700,
    .addNode 2756 224 2600, .sendRequest 300 2400, .addDevice 400 0,
    .perform 300 CssQueue.completing]

theorem growing_append_or_unchanged :
    Booted machine machineHeap ∧
      Runs.Meets (step true machine) (Clear machine) ⟨machineHeap, ⟨[], [], []⟩⟩ growing ∧
      Runs.Meets (step true machine) (AppendsOrUnchanged true machine)
        ⟨machineHeap, ⟨[], [], []⟩⟩ growing := by
  have clear : Runs.Meets (step true machine) (Clear machine) ⟨machineHeap, ⟨[], [], []⟩⟩ growing := by
    decide +kernel
  exact ⟨machine_booted, clear,
    tables_append_or_unchanged true machine machineHeap machine_booted growing clear⟩

/-- The first three functions store NULL over the pointer to an array that could
not grow, and the last one counts a device that it does not store. -/
theorem failures_lose_tables :
    Booted machine machineHeap ∧
      (∀ calls ∈ [[Call.createDriver 4000, .createDriver 0],
          [.createDriver 4000, .addNode 4000 200 2900, .addNode 4000 224 0],
          [.sendRequest 300 2400, .sendRequest 300 0], [.addDevice 400 2400]],
        ¬ Runs.Meets (step true machine) (AppendsOrUnchanged true machine)
          ⟨machineHeap, ⟨[], [], []⟩⟩ calls) := by
  refine ⟨machine_booted, ?_⟩
  decide +kernel

end Tables
