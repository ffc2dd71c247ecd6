import UDos.Kernel.Mm
import UDos.Library.Arena

/-!
# Allocation on a heap

The functions of `mm.c` on a heap, with the block that `MmAllocatePhysical`
answers as an argument, 0 for NULL. An array that grows by one element is
described in storage by its address and behind it its length, as all tables of
the kernel are.
-/

namespace MmHeap

open KernelMemory Heap Storage

/-- The allocator's search is left to the answer, and with it the alignment. -/
def mmAllocatePhysical (h : Heap) (answer size : Nat) : Outcome (Nat × Heap) := do
  Outcome.check (size ≠ 0) "Invalid size\r\n"
  .ok (answer, if answer = 0 then h else h.hold (answer, size))

def mmAllocate (h : Heap) (answer size : Nat) : Outcome (Nat × Heap) :=
  mmAllocatePhysical h answer size

def mmFree (h : Heap) (ptr : Nat) : Outcome Heap :=
  if ptr = 0 then .ok h else h.free ptr

def mmAllocateZero (h : Heap) (answer size : Nat) : Outcome (Nat × Heap) := do
  let (ptr, h) ← mmAllocate h answer size
  Outcome.check (ptr ≠ 0) "Out of memory\r\n"
  .ok (ptr, { h with storage := h.storage.fill ptr 0 size })

def mmAllocateZeroArray (h : Heap) (answer n size : Nat) : Outcome (Nat × Heap) :=
  mmAllocateZero h answer (u32 (n * size))

def mmReallocate (h : Heap) (answer ptr size : Nat) : Outcome (Nat × Heap) := do
  let (p, allocated) ← mmAllocate h answer size
  let r := Mm.mmReallocate h.storage p ptr size
  let h ← mmFree { allocated with storage := r.storage } r.freed
  .ok (r.ptr, h)

def mmReallocateArray (h : Heap) (answer ptr n size : Nat) : Outcome (Nat × Heap) :=
  mmReallocate h answer ptr (u32 (n * size))

/-- `x->a = MmReallocateArray(x->a, x->n + 1, size)`, with the address and the
length of the array at the field and behind it. -/
def growArray (h : Heap) (field size answer : Nat) : Outcome (Nat × Heap) := do
  let (ptr, h) ← mmReallocateArray h answer (word h.storage field)
    (word h.storage (field + 4) + 1) size
  .ok (ptr, { h with storage := h.storage.setWord field ptr })

/-- `&x->a[x->n++]`: the address behind the last element, which is now counted. -/
def nextElement (h : Heap) (field size : Nat) : Nat × Heap :=
  let n := word h.storage (field + 4)
  let m := h.storage.setWord (field + 4) (u32 (n + 1))
  (u32 (word m field + n * size), { h with storage := m })

/-- The body shared by the functions that add a copy of an element to an array:
the growth, `KeCopyMemory(&x->a[x->n++], element, size)` and `&x->a[x->n - 1]`. -/
def appendCopy (debug : Bool) (h : Heap) (field element size answer : Nat) :
    Outcome (Nat × Heap) := do
  let (ptr, h) ← growArray h field size answer
  Outcome.check (ptr ≠ 0) "Out of memory"
  let (next, h) := nextElement h field size
  let (_, m) ← keCopyMemory debug h.storage next element size
  let last := u32 (word m (field + 4) + 4294967295)
  .ok (u32 (word m field + last * size), { h with storage := m })

/-- The body shared by the functions that add a cleared element to an array: the
growth, `&x->a[x->n++]` and `KeSetMemory(element, 0, size)`. -/
def appendZero (h : Heap) (field size answer : Nat) : Outcome (Nat × Heap) := do
  let (ptr, h) ← growArray h field size answer
  Outcome.check (ptr ≠ 0) "Out of memory"
  let (next, h) := nextElement h field size
  .ok (next, { h with storage := h.storage.fill next 0 size })

/-- The answer is NULL or a fresh block, below the one that it replaces, if any.
`KeMoveMemory` moves upwards by one byte too far. -/
def Placed (h : Heap) (answer old size : Nat) : Prop :=
  answer = 0 ∨ h.Fresh (answer, size) ∧ (old = 0 ∨ answer < old)

instance (h : Heap) (answer old size : Nat) : Decidable (Placed h answer old size) :=
  inferInstanceAs (Decidable (_ ∨ _))

variable {h : Heap}

theorem Placed.of_live {h' : Heap} {answer old size : Nat} (placed : Placed h answer old size)
    (live : h'.live = h.live) : Placed h' answer old size := by
  rcases placed with null | ⟨fresh, below⟩
  · exact Or.inl null
  · exact Or.inr ⟨⟨fresh.1, by rw [live]; exact fresh.2⟩, below⟩

theorem mmAllocatePhysical_sound (h : Heap) (answer size : Nat) :
    Outcome.Sound (fun r => size ≠ 0 ∧ r.1 = answer ∧ (answer ≠ 0 → r.2 = h.hold (answer, size)))
      (mmAllocatePhysical h answer size) :=
  (Outcome.sound_check _).bind fun _ some => ⟨some, rfl, fun notNull => if_neg notNull⟩

theorem mmAllocate_sound (h : Heap) (answer size : Nat) :
    Outcome.Sound (fun r => r.1 = answer ∧ (answer ≠ 0 → r.2 = h.hold (answer, size)))
      (mmAllocate h answer size) :=
  (mmAllocatePhysical_sound h answer size).mono fun _ allocated => allocated.2

theorem mmAllocateZero_sound (h : Heap) (answer size : Nat) :
    Outcome.Sound (fun r => answer ≠ 0 ∧ size ≠ 0 ∧
      r = (answer, ⟨h.storage.fill answer 0 size, (answer, size) :: h.live⟩))
      (mmAllocateZero h answer size) := by
  refine (mmAllocatePhysical_sound h answer size).bind ?_
  rintro ⟨ptr, after⟩ ⟨some, rfl, held⟩
  refine (Outcome.sound_check _).bind fun _ notNull => ⟨notNull, some, ?_⟩
  have same : after = h.hold (ptr, size) := held notNull
  rw [same]
  rfl

theorem mmFree_of_mem {n ptr : Nat} (sane : h.Sane) (live : (ptr, n) ∈ h.live) :
    mmFree h ptr = .ok { h with live := h.live.filter fun x => x.1 ≠ ptr } := by
  have positive := (sane.proper _ live).1
  rw [mmFree, if_neg (by simp only at positive; omega)]
  exact Heap.free_of_mem live

/-- A reallocation frees exactly the old block, wherever the new one is. -/
theorem mmReallocate_eq {answer old n size : Nat} {m : Storage} (live : (old, n) ∈ h.live)
    (notOld : old ≠ 0) (placed : answer ≠ 0) (newSize : 0 < size)
    (moved : (keMoveMemory h.storage answer old size).2 = m) :
    mmReallocate h answer old size =
      .ok (answer, ⟨m, ((answer, size) :: h.live).filter fun x => x.1 ≠ old⟩) := by
  have freed : ∀ m, mmFree ⟨m, (answer, size) :: h.live⟩ old =
      .ok ⟨m, ((answer, size) :: h.live).filter fun x => x.1 ≠ old⟩ := fun m => by
    have inUse : (old, n) ∈ Heap.live ⟨m, (answer, size) :: h.live⟩ :=
      List.mem_cons_of_mem _ live
    rw [mmFree, if_neg notOld]
    exact Heap.free_of_mem inUse
  rw [mmReallocate, mmAllocate, mmAllocatePhysical, Outcome.check_of (by omega)]
  simp only [Outcome.ok_bind, if_neg placed, Mm.mmReallocate, if_neg notOld, Heap.hold, moved,
    freed]

/-- The reallocation of an array to a fresh block below. -/
theorem mmReallocate_moves {answer old n size : Nat} (sane : h.Sane)
    (live : (old, n) ∈ h.live) (placed : h.Fresh (answer, size)) (below : answer < old) :
    mmReallocate h answer old size =
      .ok (answer, ⟨h.storage.copyUp answer old size,
        (answer, size) :: h.live.filter fun x => x.1 ≠ old⟩) := by
  have block := sane.proper _ live
  have fresh := placed.1
  simp only [Proper] at block fresh
  have copied : (keMoveMemory h.storage answer old size).2 = h.storage.copyUp answer old size :=
    keMoveMemory_below h.storage below (by omega) (by omega)
  have kept : ((answer, size) :: h.live).filter (fun x => decide (x.1 ≠ old)) =
      (answer, size) :: h.live.filter fun x => decide (x.1 ≠ old) :=
    List.filter_cons_of_pos (by simp; omega)
  rw [mmReallocate_eq live (by omega) (by omega) (by omega) copied, kept]

theorem mmReallocate_hold {answer size : Nat} (placed : answer ≠ 0) (newSize : 0 < size) :
    mmReallocate h answer 0 size = .ok (answer, h.hold (answer, size)) := by
  rw [mmReallocate, mmAllocate, mmAllocatePhysical, Outcome.check_of (by omega)]
  simp [Mm.mmReallocate, mmFree, placed, Heap.hold]

theorem mmReallocate_first {answer size : Nat} (placed : h.Fresh (answer, size)) :
    mmReallocate h answer 0 size = .ok (answer, h.hold (answer, size)) :=
  mmReallocate_hold (Nat.ne_of_gt placed.1.1) placed.1.2.1

theorem mmReallocate_null (h : Heap) (old size : Nat) :
    Outcome.Sound (fun r => r = (0, h)) (mmReallocate h 0 old size) := by
  have allocated : Outcome.Sound (fun r => r = (0, h)) (mmAllocate h 0 size) :=
    (Outcome.sound_check _).bind fun _ _ => rfl
  refine allocated.bind ?_
  rintro _ rfl
  by_cases first : old = 0
  · simp [Mm.mmReallocate, first, mmFree, Outcome.Sound]
  · simp [Mm.mmReallocate, first, mmFree, Outcome.Sound]

/-- The block that a field pointed to, if any, has been replaced by a fresh one. -/
structure Grown (h h' : Heap) (field old room b : Nat) : Prop where
  pointer : word h'.storage field = b
  kept : ∀ x, h.Held x → x < field ∨ field + 4 ≤ x → h'.storage x = h.storage x
  live : ∀ x, x ∈ h'.live ↔ x = (b, room) ∨ x ∈ h.live ∧ x.1 ≠ old
  sane : h'.Sane
  fresh : h.Fresh (b, room)

theorem Grown.word_kept {h' : Heap} {field old room b : Nat} (grown : Grown h h' field old room b)
    {x : Nat × Nat} (hx : x ∈ h.live) {a : Nat} (lo : x.1 ≤ a) (hi : a + 4 ≤ x.1 + x.2)
    (apart : a + 4 ≤ field ∨ field + 4 ≤ a) : word h'.storage a = word h.storage a :=
  word_congr fun i _ => grown.kept (a + i) ⟨x, hx, by omega, by omega⟩ (by omega)

theorem grown_first {field room answer : Nat} (sane : h.Sane)
    (fresh : h.Fresh (answer, room)) :
    Grown h ⟨h.storage.setWord field answer, (answer, room) :: h.live⟩ field 0 room answer := by
  have range := fresh.1.2.2
  refine ⟨word_setWord _ _ (by simp only at range; omega), fun a _ outside =>
    setWord_outside _ outside, ?_, (sane.hold fresh).write _, fresh⟩
  intro y
  have notNull : y ∈ h.live → y.1 ≠ 0 := fun hy => Nat.ne_of_gt (sane.proper y hy).1
  simp only [List.mem_cons]
  exact or_congr_right ⟨fun hy => ⟨hy, notNull hy⟩, fun hy => hy.1⟩

/-- The growth of an array at an address, with what the block held. -/
theorem grown_moved {field old room answer : Nat} (sane : h.Sane)
    (fresh : h.Fresh (answer, room)) :
    Grown h ⟨(h.storage.copyUp answer old room).setWord field answer,
      (answer, room) :: h.live.filter fun x => x.1 ≠ old⟩ field old room answer := by
  have range := fresh.1.2.2
  have others : Heap.Fresh { h with live := h.live.filter fun x => x.1 ≠ old } (answer, room) :=
    ⟨fresh.1, fun x hx => fresh.2 x (List.mem_of_mem_filter hx)⟩
  refine ⟨word_setWord _ _ (by simp only at range; omega), ?_, ?_,
    ((sane.filter _).hold others).write _, fresh⟩
  · intro a inUse outside
    refine (setWord_outside _ outside).trans ?_
    exact copyUp_outside _ (fresh.not_held inUse)
  · intro y
    simp [List.mem_filter]

/-- An array that is described in storage grows by an element, or no storage is
left for it. -/
theorem growArray_sound {field old n size answer : Nat} (sane : h.Sane)
    (pointer : word h.storage field = old) (count : word h.storage (field + 4) = n)
    (array : old = 0 ∨ ∃ room, (old, room) ∈ h.live)
    (owner : ∃ x ∈ h.live, x.1 ≤ field ∧ field + 4 ≤ x.1 + x.2)
    (placed : Placed h answer old ((n + 1) * size)) :
    Outcome.Sound (fun r => r.1 = answer ∧
      (answer = 0 → r.2 = ⟨h.storage.setWord field 0, h.live⟩) ∧
      (answer ≠ 0 → Grown h r.2 field old ((n + 1) * size) answer ∧
        (old ≠ 0 → ∀ i, i < n * size → r.2.storage (answer + i) = h.storage (old + i))))
      (growArray h field size answer) := by
  rw [growArray, mmReallocateArray, pointer, count]
  by_cases null : answer = 0
  · subst null
    refine (mmReallocate_null h old _).bind ?_
    rintro _ rfl
    exact ⟨rfl, fun _ => rfl, fun some => absurd rfl some⟩
  · obtain ⟨fresh, below⟩ := placed.resolve_left null
    have range := fresh.1.2.2
    have exact32 : u32 ((n + 1) * size) = (n + 1) * size := u32_eq_self (by omega)
    rw [exact32]
    rcases array with rfl | ⟨room, live⟩
    · rw [mmReallocate_first fresh]
      exact ⟨rfl, fun zero => absurd zero null, fun _ =>
        ⟨grown_first sane fresh, fun some => absurd rfl some⟩⟩
    · have old0 := (sane.proper _ live).1
      have less : answer < old := below.resolve_left (by simp only at old0; omega)
      rw [mmReallocate_moves sane live fresh less]
      refine ⟨rfl, fun zero => absurd zero null, fun _ => ⟨grown_moved sane fresh, ?_⟩⟩
      intro _ i hi
      have rows : i < (n + 1) * size := by
        rw [Nat.add_mul]
        omega
      obtain ⟨x, xLive, lo, hi'⟩ := owner
      have apart : answer + i < field ∨ field + 4 ≤ answer + i := by
        by_contra inside
        have held : h.Held (answer + i) := ⟨x, xLive, by omega, by omega⟩
        have owned := fresh.not_held held
        simp only at owned
        omega
      refine (setWord_outside _ apart).trans ?_
      exact copyUp_inside _ (Or.inl (Nat.le_of_lt less)) rows

theorem nextElement_of {field ptr n size : Nat} (pointer : word h.storage field = ptr)
    (count : word h.storage (field + 4) = n) (positive : 0 < size)
    (range : ptr + n * size < 2147483648) :
    nextElement h field size =
      (ptr + n * size, ⟨h.storage.setWord (field + 4) (n + 1), h.live⟩) := by
  have few : n ≤ n * size := Nat.le_mul_of_pos_right _ positive
  have next : u32 (n + 1) = n + 1 := u32_eq_self (by omega)
  have row : u32 (ptr + n * size) = ptr + n * size := u32_eq_self (by omega)
  have kept : word (h.storage.setWord (field + 4) (n + 1)) field = ptr :=
    (word_setWord_other _ (Or.inl (Nat.le_refl _))).trans pointer
  rw [nextElement, count]
  simp only [next, kept, row]

theorem keCopyMemory_sound (debug : Bool) (m : Storage) (dest src n : Nat) :
    Outcome.Sound (fun r => r = (dest, m.copyUp dest src n)) (keCopyMemory debug m dest src n) :=
  (Outcome.sound_check _).bind fun _ _ => rfl

/-- The block that a field described has been replaced by a fresh one, and the
word behind the field is the new length. What is in the new block is not said. -/
structure Counted (h h' : Heap) (field old room b n : Nat) : Prop where
  pointer : word h'.storage field = b
  count : word h'.storage (field + 4) = n
  kept : ∀ x, h.Held x → x < field ∨ field + 8 ≤ x → h'.storage x = h.storage x
  live : ∀ x, x ∈ h'.live ↔ x = (b, room) ∨ x ∈ h.live ∧ x.1 ≠ old
  sane : h'.Sane
  fresh : h.Fresh (b, room)

/-- Stores into the new block and behind the field complete a growth. -/
theorem Grown.counted {h1 : Heap} {m : Storage} {field old room b n : Nat}
    (grown : Grown h h1 field old room b)
    (owner : ∃ x ∈ h.live, x.1 ≤ field ∧ field + 8 ≤ x.1 + x.2) (few : n < 4294967296)
    (same : ∀ x, x < b ∨ b + room ≤ x → m x = h1.storage.setWord (field + 4) n x) :
    Counted h ⟨m, h1.live⟩ field old room b n := by
  obtain ⟨x, xLive, lo, hi⟩ := owner
  have outside : ∀ {y}, h.Held y → m y = h1.storage.setWord (field + 4) n y := fun held => by
    have apart := grown.fresh.not_held held
    exact same _ apart
  have described : ∀ o, o + 4 ≤ 8 → word m (field + o) =
      word (h1.storage.setWord (field + 4) n) (field + o) := fun o _ =>
    word_congr fun i _ => outside ⟨x, xLive, by omega, by omega⟩
  refine ⟨?_, ?_, ?_, grown.live, grown.sane.write m, grown.fresh⟩
  · refine (described 0 (by omega)).trans ?_
    exact (word_setWord_other _ (by omega)).trans grown.pointer
  · exact (described 4 (by omega)).trans (word_setWord _ _ few)
  · intro y held away
    refine (outside held).trans ?_
    exact (setWord_outside _ (by omega)).trans (grown.kept y held (by omega))

theorem Counted.word_kept {h' : Heap} {field old room b n : Nat}
    (counted : Counted h h' field old room b n) {x : Nat × Nat} (hx : x ∈ h.live) {a : Nat}
    (lo : x.1 ≤ a) (hi : a + 4 ≤ x.1 + x.2) (apart : a + 4 ≤ field ∨ field + 8 ≤ a) :
    word h'.storage a = word h.storage a :=
  word_congr fun i _ => counted.kept (a + i) ⟨x, hx, by omega, by omega⟩ (by omega)

theorem Counted.stays {h' : Heap} {field old room b n : Nat}
    (counted : Counted h h' field old room b n) (sane : h.Sane) {x : Nat × Nat} (hx : x ∈ h.live)
    (other : old ≠ 0 → old ≠ x.1) : x ∈ h'.live := by
  refine (counted.live x).mpr (Or.inr ⟨hx, fun same => ?_⟩)
  have positive := (sane.proper x hx).1
  exact other (by omega) same.symm

/-- The array has one element more, behind the old ones. -/
structure Extended (h h' : Heap) (field old n size b : Nat) (content : Nat → UInt8) : Prop
    extends Counted h h' field old ((n + 1) * size) b (n + 1) where
  rows : old ≠ 0 → ∀ i, i < n * size → h'.storage (b + i) = h.storage (old + i)
  row : ∀ i, i < size → h'.storage (b + n * size + i) = content i

/-- The element of a grown array is counted, and a copy of an element that lies in
another block is put there. -/
theorem Grown.copied {h1 : Heap} {field old n size element answer : Nat}
    (grown : Grown h h1 field old ((n + 1) * size) answer) (positive : 0 < size)
    (count : word h.storage (field + 4) = n)
    (rows : old ≠ 0 → ∀ i, i < n * size → h1.storage (answer + i) = h.storage (old + i))
    (owner : ∃ x ∈ h.live, x.1 ≤ field ∧ field + 8 ≤ x.1 + x.2)
    (source : ∃ x ∈ h.live, x.1 ≤ element ∧ element + size ≤ x.1 + x.2)
    (apart : element + size ≤ field ∨ field + 8 ≤ element) {m : Storage}
    (copied : m = (h1.storage.setWord (field + 4) (n + 1)).copyUp (answer + n * size) element size) :
    nextElement h1 field size =
        (answer + n * size, ⟨h1.storage.setWord (field + 4) (n + 1), h1.live⟩) ∧
      u32 (word m field + u32 (word m (field + 4) + 4294967295) * size) = answer + n * size ∧
      Extended h ⟨m, h1.live⟩ field old n size answer fun i => h.storage (element + i) := by
  obtain ⟨x, xLive, lo, hi⟩ := owner
  have counted1 : word h1.storage (field + 4) = n := by
    rw [← count]
    exact grown.word_kept xLive (by omega) (by omega) (by omega)
  have fresh := grown.fresh.1
  simp only [Heap.Proper, Nat.add_mul] at fresh
  have few : n ≤ n * size := Nat.le_mul_of_pos_right _ positive
  have counted : Counted h ⟨m, h1.live⟩ field old ((n + 1) * size) answer (n + 1) :=
    grown.counted ⟨x, xLive, lo, hi⟩ (by omega) fun y outside => by
      rw [copied]
      exact copyUp_outside _ (by simp only [Nat.add_mul] at outside; omega)
  obtain ⟨e, eLive, elo, ehi⟩ := source
  have elementFresh := grown.fresh.2 e eLive
  have fieldFresh := grown.fresh.2 x xLive
  simp only [Heap.Apart, Nat.add_mul] at elementFresh fieldFresh
  have last : u32 (n + 1 + 4294967295) = n := u32_pred (Nat.succ_pos n) (by omega)
  refine ⟨nextElement_of grown.pointer counted1 positive (by omega), ?_, counted, ?_, ?_⟩
  · rw [counted.pointer, counted.count, last]
    exact u32_eq_self (by omega)
  · intro some i hi
    simp only [copied]
    refine (copyUp_outside _ (Or.inl (by omega))).trans ?_
    exact (setWord_outside _ (by omega)).trans (rows some i hi)
  · intro i hi
    simp only [copied]
    refine (copyUp_inside _ (by omega) hi).trans ?_
    refine (setWord_outside _ (by omega)).trans ?_
    exact grown.kept _ ⟨e, eLive, by omega, by omega⟩ (by omega)

/-- Adding a copy of an element that lies in another block. -/
theorem appendCopy_sound {field old n size element answer : Nat} (debug : Bool) (sane : h.Sane)
    (positive : 0 < size) (pointer : word h.storage field = old)
    (count : word h.storage (field + 4) = n) (array : old = 0 ∨ ∃ room, (old, room) ∈ h.live)
    (owner : ∃ x ∈ h.live, x.1 ≤ field ∧ field + 8 ≤ x.1 + x.2)
    (source : ∃ x ∈ h.live, x.1 ≤ element ∧ element + size ≤ x.1 + x.2)
    (apart : element + size ≤ field ∨ field + 8 ≤ element)
    (placed : Placed h answer old ((n + 1) * size)) :
    Outcome.Sound (fun r => r.1 = answer + n * size ∧
        Extended h r.2 field old n size answer fun i => h.storage (element + i))
      (appendCopy debug h field element size answer) := by
  obtain ⟨x, xLive, lo, hi⟩ := owner
  refine (growArray_sound sane pointer count array ⟨x, xLive, lo, by omega⟩ placed).bind ?_
  rintro ⟨ptr, h1⟩ ⟨same, -, grew⟩
  obtain rfl : answer = ptr := same.symm
  refine (Outcome.sound_check _).bind fun _ notNull => ?_
  obtain ⟨grown, rows⟩ := grew notNull
  obtain ⟨next, returned, extended⟩ :=
    grown.copied positive count rows ⟨x, xLive, lo, hi⟩ source apart rfl
  rw [next]
  refine (keCopyMemory_sound debug _ _ _ _).bind ?_
  rintro _ rfl
  exact ⟨returned, extended⟩

section
open Arena
variable {κ : Type} [DecidableEq κ] {L : Layout κ} {top : κ} {root : Nat} {log : Log κ}
  {base : Option Nat × κ → Nat} {p : Option Nat} {k l : κ} {off answer : Nat}

/-- Growing the array of a record's children of one kind. -/
theorem growArray_moved (laid : Laid L top root h log base) (known : kindOf top log p = some k)
    (field : L.field k l = some off)
    (placed : Placed h answer (base (p, l)) ((log.count (p, l) + 1) * L.width l)) :
    Outcome.Sound (fun r => r.1 = answer ∧ (answer ≠ 0 →
        Moved h r.2 (place L root log base p + off) (base (p, l)) (log.count (p, l))
          (L.width l) answer))
      (growArray h (place L root log base p + off) (L.width l) answer) := by
  have array : base (p, l) = 0 ∨ ∃ room, (base (p, l), room) ∈ h.live := by
    by_cases member : (p, l) ∈ log
    · exact Or.inr ⟨_, laid.held _ member⟩
    · exact Or.inl (laid.null _ member)
  obtain ⟨n, live, lo, hi⟩ := laid.in_block known
  have room := L.fits field
  have owner : ∃ x ∈ h.live, x.1 ≤ place L root log base p + off ∧
      place L root log base p + off + 4 ≤ x.1 + x.2 :=
    ⟨_, live, by simp only; omega, by simp only; omega⟩
  refine (growArray_sound laid.sane (laid.pointer known field) (laid.count known field) array owner
    placed).mono fun r grown => ⟨grown.1, fun some => ?_⟩
  obtain ⟨grown, moved⟩ := grown.2.2 some
  refine ⟨grown.pointer, ?_, grown.kept, grown.live, grown.sane, grown.fresh⟩
  by_cases member : (p, l) ∈ log
  · exact moved (Nat.ne_of_gt (laid.base_pos member))
  · intro i hi
    rw [List.count_eq_zero_of_not_mem member] at hi
    omega

theorem described_apart {h' : Heap} {i : Nat} (laid : Laid L top root h log base)
    (known : kindOf top log p = some k) (field : L.field k l = some off)
    (moved : Moved h h' (place L root log base p + off) (base (p, l)) (log.count (p, l))
      (L.width l) answer) (hi : i < 8) :
    h.Held (place L root log base p + off + i) ∧
      (place L root log base p + off + i < answer ∨
        answer + (log.count (p, l) + 1) * L.width l ≤ place L root log base p + off + i) := by
  obtain ⟨n, live, lo, hi'⟩ := laid.in_block known
  have room := L.fits field
  have held : h.Held (place L root log base p + off + i) :=
    ⟨_, live, by simp only; omega, by simp only; omega⟩
  exact ⟨held, moved.fresh.not_held held⟩

theorem moved_count {h' : Heap} (laid : Laid L top root h log base)
    (known : kindOf top log p = some k) (field : L.field k l = some off)
    (moved : Moved h h' (place L root log base p + off) (base (p, l)) (log.count (p, l))
      (L.width l) answer) :
    word h'.storage (place L root log base p + off + 4) = log.count (p, l) := by
  rw [← laid.count known field]
  apply word_congr
  intro i hi
  rw [Nat.add_assoc _ 4 i]
  exact moved.kept _ (described_apart laid known field moved (by omega)).1 (by omega)

theorem nextElement_eq {h1 : Heap} (laid : Laid L top root h log base)
    (known : kindOf top log p = some k) (field : L.field k l = some off)
    (moved : Moved h h1 (place L root log base p + off) (base (p, l)) (log.count (p, l))
      (L.width l) answer) :
    nextElement h1 (place L root log base p + off) (L.width l) =
      (answer + log.count (p, l) * L.width l,
        ⟨h1.storage.setWord (place L root log base p + off + 4) (log.count (p, l) + 1),
          h1.live⟩) := by
  have fresh := moved.fresh.1
  simp only [Proper, Nat.add_mul] at fresh
  have positive := L.positive l
  exact nextElement_of moved.pointer (moved_count laid known field moved) positive (by omega)

/-- Storage that differs from this in the new row alone has one element more. -/
theorem appended_of_row {h1 : Heap} {m : Storage} (laid : Laid L top root h log base)
    (known : kindOf top log p = some k) (field : L.field k l = some off)
    (moved : Moved h h1 (place L root log base p + off) (base (p, l)) (log.count (p, l))
      (L.width l) answer)
    (same : ∀ x, x < answer + log.count (p, l) * L.width l ∨
      answer + (log.count (p, l) + 1) * L.width l ≤ x →
      m x = h1.storage.setWord (place L root log base p + off + 4) (log.count (p, l) + 1) x) :
    Appended h1 m (place L root log base p + off) (log.count (p, l)) (L.width l) answer ∧
      word m (place L root log base p + off) = answer := by
  have fresh := moved.fresh.1
  simp only [Proper, Nat.add_mul] at fresh same
  have few : log.count (p, l) ≤ log.count (p, l) * L.width l :=
    Nat.le_mul_of_pos_right _ (L.positive l)
  have described : ∀ o, o + 4 ≤ 8 → word m (place L root log base p + off + o) =
      word (h1.storage.setWord (place L root log base p + off + 4) (log.count (p, l) + 1))
        (place L root log base p + off + o) := by
    intro o ho
    apply word_congr
    intro i hi
    have apart := (described_apart (i := o + i) laid known field moved (by omega)).2
    simp only [Nat.add_mul] at apart
    rw [Nat.add_assoc]
    exact same _ (by omega)
  refine ⟨⟨(described 4 (by omega)).trans (word_setWord _ _ (by omega)), ?_⟩, ?_⟩
  · intro x outside outsideRow
    simp only [Nat.add_mul] at outsideRow
    rw [same x (by omega), setWord_outside _ (by omega)]
  · rw [← moved.pointer]
    exact (described 0 (by omega)).trans (word_setWord_other _ (by omega))

/-- Adding a copy of an element that lies outside the tree. -/
theorem appendCopy_added {element : Nat} (debug : Bool) (laid : Laid L top root h log base)
    (known : kindOf top log p = some k) (field : L.field k l = some off)
    (source : Outside root h log base (element, L.width l))
    (clear : ∀ l' off', L.field l l' = some off' → ∀ i, i < 8 →
      h.storage (element + (off' + i)) = 0)
    (placed : Placed h answer (base (p, l)) ((log.count (p, l) + 1) * L.width l)) :
    Outcome.Sound (fun r => r.1 = answer + log.count (p, l) * L.width l ∧
        Added L top root h r.2 log base p l off answer fun i => h.storage (element + i))
      (appendCopy debug h (place L root log base p + off) element (L.width l) answer) := by
  refine (growArray_moved laid known field placed).bind ?_
  rintro ⟨ptr, h1⟩ ⟨rfl, grown⟩
  refine (Outcome.sound_check _).bind fun _ notNull => ?_
  have moved := grown notNull
  rw [nextElement_eq laid known field moved]
  refine (keCopyMemory_sound debug _ _ _ _).bind ?_
  rintro _ rfl
  have fresh := moved.fresh.1
  have few : log.count (p, l) ≤ log.count (p, l) * L.width l :=
    Nat.le_mul_of_pos_right _ (L.positive l)
  simp only [Proper, Nat.add_mul] at fresh
  set m := (h1.storage.setWord (place L root log base p + off + 4) (log.count (p, l) + 1)).copyUp
    (ptr + log.count (p, l) * L.width l) element (L.width l) with hm
  have row := appended_of_row (m := m) laid known field moved fun x outside => by
    simp only [Nat.add_mul] at outside
    exact copyUp_outside _ (by omega)
  have last : u32 (log.count (p, l) + 1 + 4294967295) = log.count (p, l) :=
    u32_pred (Nat.succ_pos _) (by omega)
  have dest : u32 (ptr + log.count (p, l) * L.width l) = ptr + log.count (p, l) * L.width l :=
    u32_eq_self (by omega)
  have elementApart := laid.outside_apart known source
  have elementFresh := moved.fresh.2 _ source.live
  have room := L.fits field
  simp only [Apart, Nat.add_mul] at elementApart elementFresh
  have content : ∀ i, i < L.width l →
      m (ptr + log.count (p, l) * L.width l + i) = h.storage (element + i) := by
    intro i hi
    rw [hm, copyUp_inside _ (by omega) hi, setWord_outside _ (by omega)]
    exact moved.kept _ ⟨_, source.live, by simp only; omega, by simp only; omega⟩ (by omega)
  have added : Added L top root h ⟨m, h1.live⟩ log base p l off ptr
      fun i => h.storage (element + i) := laid.added known field moved row.1 content clear
  have returned : u32 (word m (place L root log base p + off) +
      u32 (word m (place L root log base p + off + 4) + 4294967295) * L.width l) =
      ptr + log.count (p, l) * L.width l := by
    rw [row.2, row.1.count, last, dest]
  exact ⟨returned, added⟩

/-- Adding a cleared element. -/
theorem appendZero_added (laid : Laid L top root h log base)
    (known : kindOf top log p = some k) (field : L.field k l = some off)
    (placed : Placed h answer (base (p, l)) ((log.count (p, l) + 1) * L.width l)) :
    Outcome.Sound (fun r => r.1 = answer + log.count (p, l) * L.width l ∧
        Added L top root h r.2 log base p l off answer fun _ => 0)
      (appendZero h (place L root log base p + off) (L.width l) answer) := by
  refine (growArray_moved laid known field placed).bind ?_
  rintro ⟨ptr, h1⟩ ⟨rfl, grown⟩
  refine (Outcome.sound_check _).bind fun _ notNull => ?_
  have moved := grown notNull
  rw [nextElement_eq laid known field moved]
  set m := (h1.storage.setWord (place L root log base p + off + 4) (log.count (p, l) + 1)).fill
    (ptr + log.count (p, l) * L.width l) 0 (L.width l) with hm
  have row := appended_of_row (m := m) laid known field moved fun x outside => by
    simp only [Nat.add_mul] at outside
    exact fill_outside _ (by omega)
  have added : Added L top root h ⟨m, h1.live⟩ log base p l off ptr fun _ => 0 :=
    laid.added known field moved row.1 (fun i hi => fill_inside _ hi) fun _ _ _ _ _ => rfl
  exact ⟨rfl, added⟩

end

end MmHeap
