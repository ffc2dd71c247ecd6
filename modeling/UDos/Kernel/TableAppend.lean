import UDos.Kernel.Css
import UDos.Kernel.FsDrivers
import UDos.Kernel.Reallocate

/-!
# The functions that append to a table

`KeCreateFsDriver`, `KeAddFsNodeToDriver`, `CssSendRequest` and `CssAddDevice`
each grow an array by one element in their own way. The first three extend it
when the allocation keeps its contents, and leave everything as it is when
there is no array yet and no room for one. `CssAddDevice` restores the pointer
to its array, and never stores the element.
-/

namespace TableAppend

open KernelMemory Heap MmHeap Storage Css FsDrivers

/-- The device is not stored. -/
def cssAddDevice (devlist nDevlist : Nat) (h : Heap) (_dev answer : Nat) :
    Outcome (Int × Heap) := do
  let oldDevlist := word h.storage devlist
  let (ptr, h) ← mmReallocateArray h answer oldDevlist (word h.storage nDevlist + 1) 4
  let m := h.storage.setWord devlist ptr
  if ptr = 0 then .ok (-1, { h with storage := m.setWord devlist oldDevlist })
  else .ok (0, { h with storage := m.setWord nDevlist (u32 (word m nDevlist + 1)) })

section
variable {h h1 : Heap} {m : Storage} {field old n size answer : Nat}

theorem size_pos (positive : 0 < size) (few : (n + 1) * size < 4294967296) :
    0 < u32 ((n + 1) * size) := by
  rw [u32_eq_self few]
  exact Nat.mul_pos (Nat.succ_pos n) positive

theorem growArray_none (positive : 0 < size) (pointer : word h.storage field = 0)
    (few : (word h.storage (field + 4) + 1) * size < 4294967296) :
    growArray h field size 0 = .ok (0, h) := by
  have kept : h.storage.setWord field 0 = h.storage := by
    conv => lhs; rw [← pointer]
    exact setWord_word _ _
  rw [growArray, mmReallocateArray, mmReallocate_none (size_pos positive few), Outcome.ok_bind]
  dsimp only
  rw [kept]

theorem keCreateFsDriver_none (pointer : word h.storage field = 0)
    (few : (word h.storage (field + 4) + 1) * 56 < 4294967296) :
    keCreateFsDriver field h 0 = .ok (noDriver, h) := by
  rw [keCreateFsDriver, growArray_none (by decide) pointer few]
  rfl

theorem keAddFsNodeToDriver_none (debug : Bool) {driver node : Nat} (some : driver ≠ 0)
    (someNode : node ≠ 0) (pointer : word h.storage driver = 0)
    (few : (word h.storage (driver + 4) + 1) * 4 < 4294967296) :
    keAddFsNodeToDriver debug h driver node 0 = .ok (-1, h) := by
  rw [keAddFsNodeToDriver, Outcome.check_of (fun _ => ⟨some, someNode⟩), Outcome.ok_bind,
    growArray_none (by decide) pointer few]
  rfl

theorem cssSendRequest_none (debug : Bool) {req : Nat} (pointer : word h.storage field = 0)
    (few : (word h.storage (field + 4) + 1) * 16 < 4294967296) :
    cssSendRequest debug field h req 0 = .ok h := by
  rw [cssSendRequest, growArray_none (by decide) pointer few]
  rfl

theorem cssAddDevice_none {devlist nDevlist dev : Nat}
    (few : (word h.storage nDevlist + 1) * 4 < 4294967296) :
    cssAddDevice devlist nDevlist h dev 0 = .ok (-1, h) := by
  have restored : (h.storage.setWord devlist 0).setWord devlist (word h.storage devlist) =
      h.storage := by
    rw [setWord_setWord, setWord_word]
  rw [cssAddDevice, mmReallocateArray, mmReallocate_none (size_pos (by decide) few)]
  simp only [Outcome.ok_bind, if_true, restored]

/-- A growth is completed by the new element and the count. -/
theorem extended_of_grown {content : Nat → UInt8}
    (grown : Grown h h1 field old ((n + 1) * size) answer)
    (owner : ∃ x ∈ h.live, x.1 ≤ field ∧ field + 8 ≤ x.1 + x.2) (few : n + 1 < 4294967296)
    (rows : old ≠ 0 → ∀ i, i < n * size → h1.storage (answer + i) = h.storage (old + i))
    (row : ∀ i, i < size → m (answer + n * size + i) = content i)
    (same : ∀ x, x < answer + n * size ∨ answer + n * size + size ≤ x →
      m x = h1.storage.setWord (field + 4) (n + 1) x) :
    Extended h ⟨m, h1.live⟩ field old n size answer content := by
  have counted := grown.counted owner few fun x outside =>
    same x (by rw [Nat.add_mul] at outside; omega)
  refine ⟨counted, fun some i hi => ?_, row⟩
  obtain ⟨x, live, lo, hi'⟩ := owner
  have apart := grown.fresh.2 x live
  simp only [Apart, Nat.add_mul] at apart
  exact (same _ (by omega)).trans ((setWord_outside _ (by omega)).trans (rows some i hi))

end

/-- The array that a field describes, and where it is described. -/
structure Described (h : Heap) (field old n size room : Nat) : Prop where
  sane : h.Sane
  pointer : word h.storage field = old
  count : word h.storage (field + 4) = n
  array : old = 0 ∧ n = 0 ∨ (old, room) ∈ h.live ∧ n * size ≤ room
  owner : ∃ x ∈ h.live, x.1 ≤ field ∧ field + 8 ≤ x.1 + x.2

section
variable {h : Heap} {field old n size room answer : Nat}

/-- The growth of the array, before the element is stored. -/
structure Grows (h h1 : Heap) (field old n size answer : Nat) : Prop where
  grown : Grown h h1 field old ((n + 1) * size) answer
  rows : old ≠ 0 → ∀ i, i < n * size → h1.storage (answer + i) = h.storage (old + i)
  count : word h1.storage (field + 4) = n
  range : answer + n * size + size ≤ 2147483648

theorem Described.grow (described : Described h field old n size room)
    (keeping : Keeping h answer old ((n + 1) * size)) :
    ∃ h1, growArray h field size answer = .ok (answer, h1) ∧
      Grows h h1 field old n size answer := by
  obtain ⟨x, live, lo, hi⟩ := described.owner
  have block : old = 0 ∨ (old, room) ∈ h.live := described.array.imp And.left And.left
  have enough : old ≠ 0 → n * size ≤ room := fun some =>
    (described.array.resolve_left fun none => some none.1).2
  obtain ⟨h1, grew, grown, rows⟩ := growArray_keeping described.sane described.pointer
    described.count block enough ⟨x, live, lo, by omega⟩ keeping
  have range := keeping.1.1.2.2
  simp only [Nat.add_mul] at range
  refine ⟨h1, grew, grown, rows, ?_, by omega⟩
  exact (grown.word_kept live (by omega) (by omega) (by omega)).trans described.count

/-- A copy of an element in another block is added at the end of the array. -/
theorem appendCopy_extends (debug : Bool) {element : Nat}
    (described : Described h field old n size room) (keeping : Keeping h answer old ((n + 1) * size))
    (positive : 0 < size) (source : ∃ x ∈ h.live, x.1 ≤ element ∧ element + size ≤ x.1 + x.2)
    (apart : element + size ≤ field ∨ field + 8 ≤ element) :
    ∃ h', appendCopy debug h field element size answer = .ok (answer + n * size, h') ∧
      Extended h h' field old n size answer fun i => h.storage (element + i) := by
  obtain ⟨h1, grew, grows⟩ := described.grow keeping
  have notNull : answer ≠ 0 := Nat.ne_of_gt keeping.1.1.1
  obtain ⟨next, returned, extended⟩ := grows.grown.copied positive described.count grows.rows
    described.owner source apart rfl
  obtain ⟨y, yLive, ylo, yhi⟩ := source
  have range := grows.range
  have proper := described.sane.proper y yLive
  have ofElement := keeping.1.2 y yLive
  simp only [Apart, Proper, Nat.add_mul] at ofElement proper
  refine ⟨_, ?_, extended⟩
  rw [appendCopy, grew, Outcome.ok_bind]
  dsimp only
  rw [Outcome.check_of notNull, Outcome.ok_bind, next]
  dsimp only
  rw [keCopyMemory_eq debug _ (by omega) (by omega) (by omega) (by omega), Outcome.ok_bind]
  exact congrArg (fun a => Outcome.ok (a, _)) returned

theorem keCreateFsDriver_extends (described : Described h field old n 56 room)
    (keeping : Keeping h answer old ((n + 1) * 56)) :
    ∃ h', keCreateFsDriver field h answer = .ok (answer + n * 56, h') ∧
      Extended h h' field old n 56 answer fun _ => 0 := by
  obtain ⟨h1, grew, grows⟩ := described.grow keeping
  have range := grows.range
  have notNull : answer ≠ 0 := Nat.ne_of_gt keeping.1.1.1
  refine ⟨⟨(h1.storage.setWord (field + 4) (n + 1)).fill (answer + n * 56) 0 56, h1.live⟩, ?_,
    extended_of_grown grows.grown described.owner (by omega) grows.rows
      (fun i hi => fill_inside _ hi) fun x outside => fill_outside _ outside⟩
  rw [keCreateFsDriver, grew, Outcome.ok_bind]
  dsimp only
  rw [if_neg notNull, nextElement_of grows.grown.pointer grows.count (by decide) (by omega)]

/-- A node is added at the end of the array of its driver, before it gets the driver. -/
theorem keAddFsNodeToDriver_extends (debug : Bool) {node : Nat}
    (described : Described h field old n 4 room) (keeping : Keeping h answer old ((n + 1) * 4))
    (some : field ≠ 0) (someNode : node ≠ 0) (low : node < 4294967296) :
    ∃ h', keAddFsNodeToDriver debug h field node answer =
        .ok (0, ⟨h'.storage.setWord (node + 8) field, h'.live⟩) ∧
      Extended h h' field old n 4 answer (fun i => h'.storage (answer + n * 4 + i)) ∧
      word h'.storage (answer + n * 4) = node := by
  obtain ⟨h1, grew, grows⟩ := described.grow keeping
  obtain ⟨x, live, lo, hi⟩ := described.owner
  have range := grows.range
  have notNull : answer ≠ 0 := Nat.ne_of_gt keeping.1.1.1
  have apart := keeping.1.2 x live
  simp only [Apart, Nat.add_mul] at apart
  have row : u32 (answer + n * 4) = answer + n * 4 := u32_eq_self (by omega)
  have next : u32 (n + 1) = n + 1 := u32_eq_self (by omega)
  have counted : word (h1.storage.setWord (answer + n * 4) node) (field + 4) = n :=
    (word_setWord_other _ (by omega)).trans grows.count
  refine ⟨⟨(h1.storage.setWord (answer + n * 4) node).setWord (field + 4) (n + 1), h1.live⟩, ?_,
    extended_of_grown grows.grown described.owner (by omega) grows.rows (fun i _ => rfl)
      fun x outside => setWord_congr (setWord_outside _ outside),
    (word_setWord_other _ (by omega)).trans (word_setWord _ _ low)⟩
  rw [keAddFsNodeToDriver, Outcome.check_of (fun _ => ⟨some, someNode⟩), Outcome.ok_bind, grew,
    Outcome.ok_bind]
  simp only [if_neg notNull, grows.grown.pointer, grows.count, row, counted, next]

/-- A copy of the request is added at the end of the queue. -/
theorem cssSendRequest_extends (debug : Bool) {req : Nat}
    (described : Described h field old n 16 room) (keeping : Keeping h answer old ((n + 1) * 16))
    (source : ∃ x ∈ h.live, x.1 ≤ req ∧ req + 16 ≤ x.1 + x.2)
    (apart : req + 16 ≤ field ∨ field + 8 ≤ req) :
    ∃ h', cssSendRequest debug field h req answer = .ok h' ∧
      Extended h h' field old n 16 answer fun i => h.storage (req + i) := by
  obtain ⟨h1, grew, grows⟩ := described.grow keeping
  obtain ⟨x, live, lo, hi⟩ := described.owner
  obtain ⟨y, yLive, ylo, yhi⟩ := source
  have range := grows.range
  have notNull : answer ≠ 0 := Nat.ne_of_gt keeping.1.1.1
  have proper := described.sane.proper y yLive
  have ofRecord := keeping.1.2 y yLive
  have ofField := keeping.1.2 x live
  simp only [Apart, Proper, Nat.add_mul] at ofRecord ofField proper
  have row : u32 (answer + n * 16) = answer + n * 16 := u32_eq_self (by omega)
  have next : u32 (n + 1) = n + 1 := u32_eq_self (by omega)
  set m := h1.storage.copyUp (answer + n * 16) req 16 with copied
  have counted : word m (field + 4) = n :=
    (word_congr fun i hi => copyUp_outside _ (by omega)).trans grows.count
  have content : ∀ i, i < 16 → m.setWord (field + 4) (n + 1) (answer + n * 16 + i) =
      h.storage (req + i) := by
    intro i hi
    refine (setWord_outside _ (by omega)).trans ((copyUp_inside _ (by omega) hi).trans ?_)
    exact grows.grown.kept _ ⟨y, yLive, by omega, by omega⟩ (by omega)
  refine ⟨⟨m.setWord (field + 4) (n + 1), h1.live⟩, ?_,
    extended_of_grown grows.grown described.owner (by omega) grows.rows content
      fun x outside => setWord_congr (copyUp_outside _ outside)⟩
  rw [cssSendRequest, grew, Outcome.ok_bind]
  dsimp only
  rw [if_neg notNull, grows.count, row,
    keCopyMemory_eq debug _ (by omega) (by omega) (by omega) (by omega)]
  simp only [Outcome.ok_bind, ← copied, counted, next]

end

end TableAppend
