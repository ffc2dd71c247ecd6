import UDos.Kernel.Irq
import UDos.Kernel.TableAppend

/-!
# How large the blocks of arrays are

The array functions of `mm.c` multiply the number of elements by their size in a
register and allocate the product. `KeCreateIrqRange` then uses the lines of a
range by their number.
-/

namespace MmArrays

open KernelMemory Heap MmHeap Storage Irq TableAppend

def mmAllocateArray (h : Heap) (answer n size : Nat) : Outcome (Nat × Heap) :=
  mmAllocate h answer (u32 (n * size))

/-- A pointer that is returned is NULL or that of a block with room for n elements. -/
def LargeEnough (n size : Nat) (x : Outcome (Nat × Heap)) : Prop :=
  ∀ ptr h', x = .ok (ptr, h') → ptr = 0 ∨ ∃ room, (ptr, room) ∈ h'.live ∧ n * size ≤ room

/-- The lines of a range that is returned are all in the block of its lines. -/
def LinesInside (nLines : Nat) (x : Outcome (Nat × Heap)) : Prop :=
  ∀ range h', x = .ok (range, h') → ∃ room, (word h'.storage range, room) ∈ h'.live ∧
    ∀ i < nLines, lineAt h'.storage range i + 12 ≤ word h'.storage range + room

/-- The product does not wrap, or it is 0 in a register and stops the system, or
the allocator has no room. -/
def NotWrapped (n size answer : Nat) : Prop :=
  n * size < 4294967296 ∨ u32 (n * size) = 0 ∨ answer = 0

instance (n size answer : Nat) : Decidable (NotWrapped n size answer) :=
  inferInstanceAs (Decidable (_ ∨ _))

section
variable {h : Heap} {answer ptr n size : Nat}

/-- A block of the size that is left in the register is large enough exactly when
the product is the same number. -/
theorem largeEnough_iff {x : Outcome (Nat × Heap)}
    (fails : u32 (n * size) = 0 ∨ answer = 0 → ∀ p h', x = .ok (p, h') → p = 0)
    (returns : u32 (n * size) ≠ 0 → answer ≠ 0 → ∃ h', x = .ok (answer, h') ∧
      ∀ room, (answer, room) ∈ h'.live ↔ room = u32 (n * size)) :
    LargeEnough n size x ↔ NotWrapped n size answer := by
  constructor
  · intro large
    by_contra wrapped
    obtain ⟨wraps, some, placed⟩ := (not_or.mp wrapped).imp_right not_or.mp
    obtain ⟨h', returned, block⟩ := returns some placed
    obtain ⟨room, live, enough⟩ := (large answer h' returned).resolve_left placed
    have same := (block room).mp live
    unfold u32 at same
    omega
  · intro fits p h' returned
    by_cases failed : u32 (n * size) = 0 ∨ answer = 0
    · exact Or.inl (fails failed p h' returned)
    · obtain ⟨some, placed⟩ := not_or.mp failed
      have whole : u32 (n * size) = n * size :=
        u32_eq_self ((fits.resolve_right failed))
      obtain ⟨h'', returned', block⟩ := returns some placed
      rw [returned'] at returned
      cases returned
      exact Or.inr ⟨_, (block _).mpr rfl, Nat.le_of_eq whole.symm⟩

theorem hold_room (sane : h.Sane) {s : Nat} (fresh : h.Fresh (answer, s)) (room : Nat) :
    (answer, room) ∈ (answer, s) :: h.live ↔ room = s := by
  rw [List.mem_cons]
  constructor
  · rintro (same | old)
    · exact congrArg Prod.snd same
    · exact absurd (show (answer, room).1 = answer from rfl) (fresh.start_ne old sane)
  · rintro rfl
    exact Or.inl rfl

theorem mmAllocate_ok {s : Nat} (some : s ≠ 0) :
    mmAllocate h answer s = .ok (answer, if answer = 0 then h else h.hold (answer, s)) := by
  rw [mmAllocate, mmAllocatePhysical, Outcome.check_of some]
  rfl

theorem mmAllocateZero_ok {s : Nat} (some : s ≠ 0) (placed : answer ≠ 0) :
    mmAllocateZero h answer s =
      .ok (answer, ⟨h.storage.fill answer 0 s, (answer, s) :: h.live⟩) := by
  rw [mmAllocateZero, mmAllocate_ok some, if_neg placed, Outcome.ok_bind]
  dsimp only
  rw [Outcome.check_of placed]
  rfl

theorem mmReallocate_fails {s : Nat} (failed : s = 0 ∨ answer = 0) {r : Nat × Heap}
    (returned : mmReallocate h answer ptr s = .ok r) : r.1 = 0 := by
  rcases failed with rfl | rfl
  · cases returned
  · rw [(mmReallocate_null h ptr s).after _ returned]

section
variable (sane : h.Sane) (answered : answer = 0 ∨ h.Fresh (answer, u32 (n * size)))
include sane answered

theorem mmAllocateArray_large_iff :
    LargeEnough n size (mmAllocateArray h answer n size) ↔ NotWrapped n size answer := by
  refine largeEnough_iff (fun failed p h' returned => ?_) fun some placed => ?_
  · obtain ⟨some, same, _⟩ := (mmAllocatePhysical_sound h answer (u32 (n * size))).after _ returned
    exact same.trans (failed.resolve_left some)
  · refine ⟨_, mmAllocate_ok some, fun room => ?_⟩
    rw [if_neg placed]
    exact hold_room sane (answered.resolve_left placed) room

theorem mmAllocateZeroArray_large_iff :
    LargeEnough n size (mmAllocateZeroArray h answer n size) ↔ NotWrapped n size answer := by
  refine largeEnough_iff (fun failed p h' returned => ?_) fun some placed => ?_
  · obtain ⟨placed, some, _⟩ := (mmAllocateZero_sound h answer (u32 (n * size))).after _ returned
    exact absurd (failed.resolve_left some) placed
  · exact ⟨_, mmAllocateZero_ok some placed,
      fun room => hold_room sane (answered.resolve_left placed) room⟩

theorem mmReallocateArray_large_iff (block : ptr = 0 ∨ ∃ old, (ptr, old) ∈ h.live) :
    LargeEnough n size (mmReallocateArray h answer ptr n size) ↔ NotWrapped n size answer := by
  refine largeEnough_iff (fun failed p h' returned => mmReallocate_fails failed returned)
    fun some placed => ?_
  have fresh := answered.resolve_left placed
  have inUse : ∃ old, ptr = 0 ∨ (ptr, old) ∈ h.live := by
    rcases block with null | ⟨old, live⟩
    · exact ⟨0, Or.inl null⟩
    · exact ⟨old, Or.inr live⟩
  obtain ⟨old, block⟩ := inUse
  obtain ⟨h', returned, live⟩ := mmReallocate_some block placed (Nat.pos_of_ne_zero some)
  refine ⟨h', returned, fun room => (live _).trans ?_⟩
  have other : ptr = 0 ∨ answer ≠ ptr :=
    block.imp_right fun old => (fresh.start_ne old sane).symm
  rw [and_iff_left other, ← List.mem_cons]
  exact hold_room sane fresh room

end

end

/-- Storage and blocks when the range is added: its record and lines are filled in. -/
def prepared (h : Heap) (answers : Answers) (start nLines alloc free : UInt32) : Heap :=
  ⟨((((((h.storage.fill answers.record 0 20).setWord (answers.record + 4) nLines.toNat).setWord
      (answers.record + 8) start.toNat).fill answers.lines 0 (u32 (nLines.toNat * 12))).setWord
      answers.record answers.lines).setWord (answers.record + 12) alloc.toNat).setWord
      (answers.record + 16) free.toNat,
    (answers.lines, u32 (nLines.toNat * 12)) :: (answers.record, 20) :: h.live⟩

/-- The answers are NULL or blocks that overlap none in use, and the array of
ranges is moved without the loss of bytes. -/
def SuppliedLines (table : Nat) (h : Heap) (answers : Answers)
    (start nLines alloc free : UInt32) : Prop :=
  answers.record = 0 ∨ h.Fresh (answers.record, 20) ∧
    (u32 (nLines.toNat * 12) = 0 ∨ answers.lines = 0 ∨
      (h.hold (answers.record, 20)).Fresh (answers.lines, u32 (nLines.toNat * 12)) ∧
        (answers.array = 0 ∨ Keeping (prepared h answers start nLines alloc free) answers.array
          (word h.storage table) ((word h.storage (table + 4) + 1) * 20)))

instance (table : Nat) (h : Heap) (answers : Answers) (start nLines alloc free : UInt32) :
    Decidable (SuppliedLines table h answers start nLines alloc free) :=
  inferInstanceAs (Decidable (_ ∨ _))

/-- The size of the lines does not wrap, or some allocation stops the system. -/
def LinesFit (answers : Answers) (nLines : UInt32) : Prop :=
  NotWrapped nLines.toNat 12 answers.lines ∨ answers.record = 0 ∨ answers.array = 0

instance (answers : Answers) (nLines : UInt32) : Decidable (LinesFit answers nLines) :=
  inferInstanceAs (Decidable (_ ∨ _))

section
variable {debug : Bool} {table room : Nat} {h : Heap} {answers : Answers}
  {start nLines alloc free : UInt32}

theorem appendCopy_null {field element size : Nat} {r : Nat × Heap} :
    appendCopy debug h field element size 0 ≠ .ok r := by
  intro returned
  obtain ⟨⟨ptr, grown⟩, grew, rest⟩ := Outcome.bind_eq_ok.mp returned
  obtain ⟨⟨p, h'⟩, moved, same⟩ := Outcome.bind_eq_ok.mp grew
  have null := (mmReallocate_null h _ _).after _ moved
  cases null
  cases same
  cases rest

theorem keCreateIrqRange_add (record : answers.record ≠ 0)
    (some : u32 (nLines.toNat * 12) ≠ 0) (lines : answers.lines ≠ 0) :
    keCreateIrqRange debug table h answers start nLines alloc free =
      keAddIrqRange debug table (prepared h answers start nLines alloc free) answers.record
        answers.array := by
  rw [keCreateIrqRange, mmAllocateZero_ok (by decide) record, Outcome.ok_bind]
  dsimp only
  rw [Outcome.check_of record, Outcome.ok_bind, prepared_count _ _ _ _ nLines.toNat_lt,
    mmAllocateZeroArray, mmAllocateZero_ok some lines, Outcome.ok_bind]
  dsimp only
  rw [Outcome.check_of lines, Outcome.ok_bind]
  rfl

theorem keCreateIrqRange_returned {r : Nat × Heap}
    (returned : keCreateIrqRange debug table h answers start nLines alloc free = .ok r) :
    answers.record ≠ 0 ∧ u32 (nLines.toNat * 12) ≠ 0 ∧ answers.lines ≠ 0 ∧ answers.array ≠ 0 := by
  obtain ⟨_, cleared, rest⟩ := Outcome.bind_eq_ok.mp returned
  obtain ⟨record, _, rfl⟩ := (mmAllocateZero_sound _ _ _).after _ cleared
  obtain ⟨_, _, rest⟩ := Outcome.bind_eq_ok.mp rest
  obtain ⟨_, filled, _⟩ := Outcome.bind_eq_ok.mp rest
  rw [prepared_count _ _ _ _ nLines.toNat_lt] at filled
  obtain ⟨lines, some, _⟩ := (mmAllocateZero_sound _ _ _).after _ filled
  refine ⟨record, some, lines, fun null => ?_⟩
  rw [keCreateIrqRange_add record some lines, keAddIrqRange, null] at returned
  exact appendCopy_null returned

/-- The table of ranges is described as it was when the range is added. -/
theorem prepared_described (described : Described h table (word h.storage table)
      (word h.storage (table + 4)) 20 room) (freshRecord : h.Fresh (answers.record, 20))
    (freshLines : (h.hold (answers.record, 20)).Fresh (answers.lines, u32 (nLines.toNat * 12))) :
    Described (prepared h answers start nLines alloc free) table (word h.storage table)
      (word h.storage (table + 4)) 20 room := by
  obtain ⟨x, live, lo, hi⟩ := described.owner
  have stores := prepared_stores start.toNat alloc.toNat free.toNat freshRecord freshLines
    nLines.toNat_lt
  have longer : ∀ y ∈ h.live, y ∈ (prepared h answers start nLines alloc free).live :=
    fun y hy => List.mem_cons_of_mem _ (List.mem_cons_of_mem _ hy)
  have kept : ∀ o, o + 4 ≤ 8 → word (prepared h answers start nLines alloc free).storage
      (table + o) = word h.storage (table + o) := fun o _ =>
    word_congr fun i _ => stores.kept _ ⟨x, live, by omega, by omega⟩
  refine ⟨((described.sane.hold freshRecord).hold freshLines).write _, kept 0 (by omega),
    kept 4 (by omega), ?_, x, longer x live, lo, hi⟩
  exact described.array.imp_right fun inUse => ⟨longer _ inUse.1, inUse.2⟩

section
variable (described : Described h table (word h.storage table) (word h.storage (table + 4)) 20 room)
  (supplied : SuppliedLines table h answers start nLines alloc free)
include described supplied

/-- The range that is returned has its lines in a block of the size in the register. -/
theorem keCreateIrqRange_room (record : answers.record ≠ 0)
    (some : u32 (nLines.toNat * 12) ≠ 0) (lines : answers.lines ≠ 0) (array : answers.array ≠ 0) :
    ∃ range h', keCreateIrqRange debug table h answers start nLines alloc free = .ok (range, h') ∧
      word h'.storage range = answers.lines ∧
      ∀ room, (answers.lines, room) ∈ h'.live ↔ room = u32 (nLines.toNat * 12) := by
  obtain ⟨freshRecord, supplied⟩ := supplied.resolve_left record
  obtain ⟨freshLines, supplied⟩ := (supplied.resolve_left some).resolve_left lines
  have keeping := supplied.resolve_left array
  have before := @prepared_described table room h answers start nLines alloc free described
    freshRecord freshLines
  have stores := prepared_stores start.toNat alloc.toNat free.toNat freshRecord freshLines
    nLines.toNat_lt
  have saneRecord := described.sane.hold freshRecord
  have apart : answers.record + 20 ≤ table ∨ table + 8 ≤ answers.record := by
    obtain ⟨x, live, lo, hi⟩ := described.owner
    have apart := freshRecord.2 x live
    simp only [Apart] at apart
    omega
  obtain ⟨h', appended, extended⟩ := appendCopy_extends debug before keeping (by decide)
    ⟨_, List.mem_cons_of_mem _ List.mem_cons_self, Nat.le_refl _, Nat.le_refl _⟩ apart
  refine ⟨_, h', (keCreateIrqRange_add record some lines).trans appended, ?_, fun room => ?_⟩
  · exact (word_congr fun i hi => extended.row i (by omega)).trans stores.pointer
  · have notArray : answers.lines ≠ answers.array :=
      keeping.1.start_ne List.mem_cons_self before.sane
    have notOld : answers.lines ≠ word h.storage table := by
      rcases described.array with none0 | inUse
      · rw [none0.1]
        exact lines
      · exact (freshLines.start_ne (List.mem_cons_of_mem _ inUse.1) saneRecord).symm
    have only := hold_room saneRecord freshLines room
    rw [extended.live, ← only]
    constructor
    · rintro (same | old)
      · exact absurd (congrArg Prod.fst same) notArray
      · exact old.1
    · exact fun live => Or.inr ⟨live, notOld⟩

theorem keCreateIrqRange_lines_iff :
    LinesInside nLines.toNat (keCreateIrqRange debug table h answers start nLines alloc free) ↔
      LinesFit answers nLines := by
  constructor
  · intro inside
    by_contra wrapped
    obtain ⟨wraps, record, array⟩ := (not_or.mp wrapped).imp_right not_or.mp
    obtain ⟨wraps, some, lines⟩ := (not_or.mp wraps).imp_right not_or.mp
    obtain ⟨range, h', returned, pointer, only⟩ :=
      @keCreateIrqRange_room debug table room h answers start nLines alloc free described supplied
        record some lines array
    obtain ⟨size, live, each⟩ := inside range h' returned
    rw [pointer] at live
    have last := each (nLines.toNat - 1) (by omega)
    rw [lineAt, (only size).mp live] at last
    unfold u32 at last
    omega
  · intro fits range h' returned
    obtain ⟨record, some, lines, array⟩ := keCreateIrqRange_returned returned
    have whole : u32 (nLines.toNat * 12) = nLines.toNat * 12 :=
      u32_eq_self (((fits.resolve_right (not_or.mpr ⟨record, array⟩))).resolve_right
        (not_or.mpr ⟨some, lines⟩))
    obtain ⟨range', after, returned', pointer, only⟩ :=
      @keCreateIrqRange_room debug table room h answers start nLines alloc free described supplied
        record some lines array
    rw [returned'] at returned
    cases returned
    rw [whole] at only
    refine ⟨nLines.toNat * 12, pointer ▸ (only _).mpr rfl, fun i hi => ?_⟩
    rw [lineAt]
    omega

end

end

/-- The array functions return blocks that are large enough, and the lines of a new
range are in the block of its lines, exactly when the product does not wrap or
the call does not come to return a block. -/
theorem array_allocations_iff {h : Heap} {answer ptr : Nat} {n size : UInt32}
    (answered : answer = 0 ∨ h.Fresh (answer, u32 (n.toNat * size.toNat)))
    (block : ptr = 0 ∨ ∃ old, (ptr, old) ∈ h.live) (debug : Bool) {table room : Nat}
    {answers : Answers} {start nLines alloc free : UInt32}
    (described : Described h table (word h.storage table) (word h.storage (table + 4)) 20 room)
    (supplied : SuppliedLines table h answers start nLines alloc free) :
    (LargeEnough n.toNat size.toNat (mmAllocateArray h answer n.toNat size.toNat) ↔
        NotWrapped n.toNat size.toNat answer) ∧
      (LargeEnough n.toNat size.toNat (mmAllocateZeroArray h answer n.toNat size.toNat) ↔
        NotWrapped n.toNat size.toNat answer) ∧
      (LargeEnough n.toNat size.toNat (mmReallocateArray h answer ptr n.toNat size.toNat) ↔
        NotWrapped n.toNat size.toNat answer) ∧
      (LinesInside nLines.toNat (keCreateIrqRange debug table h answers start nLines alloc free) ↔
        LinesFit answers nLines) :=
  ⟨mmAllocateArray_large_iff described.sane answered,
    mmAllocateZeroArray_large_iff described.sane answered,
    mmReallocateArray_large_iff described.sane answered block,
    keCreateIrqRange_lines_iff described supplied⟩

/-- Blocks for the record, the lines and the array of ranges. -/
def threeBlocks : Answers := ⟨5000, 4000, 3000⟩

theorem booted_described :
    Described booted 100 (word booted.storage 100) (word booted.storage (100 + 4)) 20 0 :=
  ⟨booted_sane, rfl, rfl, Or.inl ⟨rfl, rfl⟩, (100, 8), List.mem_cons_self, by decide, by decide⟩

theorem two_lines_inside :
    LargeEnough 2 12 (mmAllocateZeroArray booted 4000 2 12) ∧
      LinesInside 2 (keCreateIrqRange false 100 booted threeBlocks 16 2 0x1234 0x5678) := by
  obtain ⟨_, zeroed, _, lines⟩ := @array_allocations_iff booted 4000 0 2 12 (by decide) (Or.inl rfl)
    false 100 0 threeBlocks 16 2 0x1234 0x5678 booted_described (by decide +kernel)
  exact ⟨zeroed.mpr (by decide), lines.mpr (by decide)⟩

/-- The size of so many lines is 8 in a register. -/
theorem wrapped_lines_outside :
    ¬ LargeEnough 0x15555556 12 (mmAllocateZeroArray booted 4000 0x15555556 12) ∧
      ¬ LinesInside 0x15555556
        (keCreateIrqRange false 100 booted threeBlocks 16 0x15555556 0x1234 0x5678) :=
  ⟨mt (mmAllocateZeroArray_large_iff booted_sane (by decide)).mp (by decide),
    mt (keCreateIrqRange_lines_iff booted_described (by decide +kernel)).mp (by decide)⟩

end MmArrays
