import UDos.Kernel.MmHeap
import UDos.Library.Runs

/-!
# IRQ ranges

`irq.c` with its tables in storage: the static `g_irq_table` describes the
array of ranges, every range the array of its lines, and every line the array
of its handlers. `KeFreeIrq` returns the block of the handlers and keeps the
pointer to it.
-/

namespace Irq

open KernelMemory MmHeap Storage

def irqTypeShared : Nat := 0
def irqTypePrivate : Nat := 1

/-- `(irq_t)-1`. -/
def noIrq : Nat := 4294967295

/-- `&g_irq_table.ranges[i]`, a record of 20 bytes: `lines`, `n_lines`,
`start`, `alloc` and `free`. -/
def rangeAt (m : Storage) (table i : Nat) : Nat := word m table + i * 20

/-- `&range->lines[i]`, a record of 12 bytes: `type`, `handlers` and `n_handlers`. -/
def lineAt (m : Storage) (range i : Nat) : Nat := word m range + i * 12

def keAddIrqRange (debug : Bool) (table : Nat) (h : Heap) (range answer : Nat) :
    Outcome (Nat × Heap) := appendCopy debug h table range 20 answer

/-- The blocks that the allocations of `KeCreateIrqRange` are answered with. -/
structure Answers where
  record : Nat
  lines : Nat
  array : Nat

def keCreateIrqRange (debug : Bool) (table : Nat) (h : Heap) (answers : Answers)
    (start nLines alloc free : UInt32) : Outcome (Nat × Heap) := do
  let (range, h) ← mmAllocateZero h answers.record 20
  Outcome.check (range ≠ 0) "Out of memory"
  let m := h.storage.setWord (range + 4) nLines.toNat
  let m := m.setWord (range + 8) start.toNat
  let (lines, h) ← mmAllocateZeroArray { h with storage := m } answers.lines (word m (range + 4)) 12
  let m := h.storage.setWord range lines
  Outcome.check (lines ≠ 0) "Out of memory"
  let m := m.setWord (range + 12) alloc.toNat
  let m := m.setWord (range + 16) free.toNat
  keAddIrqRange debug table { h with storage := m } range answers.array

/-- The array of handlers grows by the size of a line, and its elements have 4 bytes. -/
def keAddHandlerToIrqLine (debug : Bool) (h : Heap) (line handler answer : Nat) :
    Outcome (Nat × Heap) := do
  let (handlers, h) ← growArray h (line + 4) 12 answer
  Outcome.check (handlers ≠ 0) "Out of memory"
  let (next, h) := nextElement h (line + 4) 4
  let (_, m) ← keCopyMemory debug h.storage next handler 4
  let last := u32 (word m (line + 8) + 4294967295)
  .ok (u32 (word m (line + 4) + last * 4), { h with storage := m })

/-- The line that the loop of `KeAllocateIrqFromRange` stops at. -/
def sharedLine (m : Storage) (range : Nat) : Option Nat :=
  (List.range (word m (range + 4))).find? fun i => word m (lineAt m range i) ≠ irqTypePrivate

def keAllocateIrqFromRange (debug : Bool) (h : Heap) (range handler answer : Nat) :
    Outcome (Nat × Heap) :=
  match sharedLine h.storage range with
  | none => .ok (noIrq, h)
  | some i => do
    let (_, h) ← keAddHandlerToIrqLine debug h (lineAt h.storage range i) handler answer
    .ok (u32 (i + word h.storage (range + 8)), h)

/-- The loop of `KeAllocateIrq` from range i on, with the number of ranges left.
The callbacks return and leave the tables alone. -/
def allocateFrom (debug : Bool) (table handler : Nat) (answers : List Nat) :
    Nat → Nat → Heap → Outcome (Nat × Heap)
  | 0, _, h => .ok (noIrq, h)
  | left + 1, i, h => do
    let range := rangeAt h.storage table i
    let (irq, h) ← keAllocateIrqFromRange debug h range handler (answers.getD i 0)
    if irq = noIrq then allocateFrom debug table handler answers left (i + 1) h
    else do
      Outcome.check (word h.storage (range + 12) ≠ 0) "IRQ range has no allocator handler"
      .ok (irq, h)

/-- The answers are those for the ranges whose lines get the handler. -/
def keAllocateIrq (debug : Bool) (table : Nat) (h : Heap) (answers : List Nat) (handler : Nat) :
    Outcome (Nat × Heap) :=
  allocateFrom debug table handler answers (word h.storage (table + 4)) 0 h

/-- The comparison of `KeFreeIrq`, which takes the end for an id of the range. -/
def covers (m : Storage) (range irq : Nat) : Prop :=
  word m (range + 8) ≤ irq ∧ irq ≤ u32 (word m (range + 8) + word m (range + 4))

instance (m : Storage) (range irq : Nat) : Decidable (covers m range irq) :=
  inferInstanceAs (Decidable (_ ∧ _))

/-- The range that the loop of `KeFreeIrq` stops at. -/
def rangeOf (m : Storage) (table irq : Nat) : Option Nat :=
  ((List.range (word m (table + 4))).find? fun i => covers m (rangeAt m table i) irq).map
    (rangeAt m table)

/-- The body of that loop for a line of the range. -/
def freeLine (h : Heap) (range line : Nat) : Outcome Heap := do
  let h ← mmFree h (word h.storage (line + 4))
  let m := h.storage.setWord (line + 8) 0
  let m := m.setWord line irqTypeShared
  Outcome.check (word m (range + 16) ≠ 0) "IRQ range has no deallocator handler"
  .ok { h with storage := m }

def keFreeIrq (table : Nat) (h : Heap) (irq : Nat) : Outcome Heap :=
  match rangeOf h.storage table irq with
  | none => .ok h
  | some range => freeLine h range (lineAt h.storage range (irq - word h.storage (range + 8)))

inductive Op where
  | create (answers : Answers) (start nLines alloc free : UInt32)
  | allocate (answers : List Nat) (handler : Nat)
  | free (irq : UInt32)

@[irreducible] def step (debug : Bool) (table : Nat) (h : Heap) (op : Op) : Outcome Heap :=
  match op with
  | .create answers start nLines alloc free => do
    let (_, h) ← keCreateIrqRange debug table h answers start nLines alloc free
    .ok h
  | .allocate answers handler => do
    let (_, h) ← keAllocateIrq debug table h answers handler
    .ok h
  | .free irq => keFreeIrq table h irq.toNat

/-- The address is that of a line of some range. -/
def IsLine (table : Nat) (m : Storage) (line : Nat) : Prop :=
  ∃ r, r < word m (table + 4) ∧ ∃ i, i < word m (rangeAt m table r + 4) ∧
    line = lineAt m (rangeAt m table r) i

/-- Every line's handlers are NULL or a block in use with room for them, which
no other line has. -/
def Owned (table : Nat) (h : Heap) : Prop :=
  ∀ line, IsLine table h.storage line → word h.storage (line + 4) = 0 ∨
    (∃ room, (word h.storage (line + 4), room) ∈ h.live ∧ word h.storage (line + 8) * 4 ≤ room) ∧
      ∀ other, IsLine table h.storage other → other ≠ line →
        word h.storage (other + 4) ≠ word h.storage (line + 4)

/-- The answers for a range are NULL or fresh blocks, and the array of ranges is
placed below the one it replaces. -/
def SuppliedRange (table : Nat) (h : Heap) (answers : Answers) (nLines : UInt32) : Prop :=
  answers.record = 0 ∨ h.Fresh (answers.record, 20) ∧
    (nLines.toNat * 12 = 0 ∨ answers.lines = 0 ∨
      (h.hold (answers.record, 20)).Fresh (answers.lines, nLines.toNat * 12) ∧
        Placed ((h.hold (answers.record, 20)).hold (answers.lines, nLines.toNat * 12))
          answers.array (word h.storage table) ((word h.storage (table + 4) + 1) * 20))

/-- The answer for a handler is NULL or fresh, and below the array it replaces. -/
def SuppliedHandler (h : Heap) (range answer : Nat) : Prop :=
  ∀ i ∈ sharedLine h.storage range, Placed h answer
    (word h.storage (lineAt h.storage range i + 4))
    ((word h.storage (lineAt h.storage range i + 8) + 1) * 12)

/-- So are the answers for all ranges that the loop of `KeAllocateIrq` goes through. -/
def SuppliedFrom (debug : Bool) (table handler : Nat) (answers : List Nat) :
    Nat → Nat → Heap → Prop
  | 0, _, _ => True
  | left + 1, i, h =>
    SuppliedHandler h (rangeAt h.storage table i) (answers.getD i 0) ∧
      Outcome.After (fun r => r.1 = noIrq →
          SuppliedFrom debug table handler answers left (i + 1) r.2)
        (keAllocateIrqFromRange debug h (rangeAt h.storage table i) handler (answers.getD i 0))

def Supplied (debug : Bool) (table : Nat) (h : Heap) : Op → Prop
  | .create answers _ nLines _ _ => SuppliedRange table h answers nLines
  | .allocate answers handler =>
    SuppliedFrom debug table handler answers (word h.storage (table + 4)) 0 h
  | .free _ => True

/-- The size of the lines is less than 2^32, and an id that is freed is in no
range, or is that of a line without handlers, or its range has no callback. -/
def NothingFreed (table : Nat) (h : Heap) : Op → Prop
  | .create _ _ nLines _ _ => nLines.toNat * 12 < 4294967296
  | .allocate _ _ => True
  | .free irq => ∀ range ∈ rangeOf h.storage table irq.toNat,
      irq.toNat - word h.storage (range + 8) < word h.storage (range + 4) ∧
        (word h.storage (lineAt h.storage range
          (irq.toNat - word h.storage (range + 8)) + 4) = 0 ∨
          word h.storage (range + 16) = 0)

def Clear (debug : Bool) (table : Nat) (h : Heap) (op : Op) : Prop :=
  NothingFreed table h op ∧ Supplied debug table h op

instance (table : Nat) (h : Heap) (answers : Answers) (nLines : UInt32) :
    Decidable (SuppliedRange table h answers nLines) := inferInstanceAs (Decidable (_ ∨ _))

instance (h : Heap) (range answer : Nat) : Decidable (SuppliedHandler h range answer) :=
  inferInstanceAs (Decidable (∀ i ∈ sharedLine h.storage range, Placed h answer _ _))

instance decidableSuppliedFrom (debug : Bool) (table handler : Nat) (answers : List Nat) :
    (left i : Nat) → (h : Heap) → Decidable (SuppliedFrom debug table handler answers left i h)
  | 0, _, _ => isTrue trivial
  | left + 1, i, _ =>
    have _rest := decidableSuppliedFrom debug table handler answers left (i + 1)
    inferInstanceAs (Decidable (_ ∧ _))

instance (debug : Bool) (table : Nat) (h : Heap) (op : Op) :
    Decidable (Supplied debug table h op) :=
  match op with
  | .create answers _ nLines _ _ =>
    inferInstanceAs (Decidable (SuppliedRange table h answers nLines))
  | .allocate answers handler => decidableSuppliedFrom debug table handler answers _ 0 h
  | .free _ => isTrue trivial

instance (table : Nat) (h : Heap) (op : Op) : Decidable (NothingFreed table h op) :=
  match op with
  | .create _ _ nLines _ _ => inferInstanceAs (Decidable (nLines.toNat * 12 < 4294967296))
  | .allocate _ _ => isTrue trivial
  | .free irq => inferInstanceAs (Decidable (∀ range ∈ rangeOf h.storage table irq.toNat, _ ∧ _))

instance (debug : Bool) (table : Nat) (h : Heap) (op : Op) :
    Decidable (Clear debug table h op) := inferInstanceAs (Decidable (_ ∧ _))

section
variable {debug : Bool} {table : Nat} {h h' : Heap} {line other : Nat}

/-- The address is the start of a block that holds ranges or lines. -/
def Fixed (table : Nat) (m : Storage) (a : Nat) : Prop :=
  a = table ∨ a = word m table ∨
    ∃ r, r < word m (table + 4) ∧ a = word m (rangeAt m table r)

/-- The tables are in blocks of their own. -/
structure Tabled (table : Nat) (h : Heap) : Prop where
  sane : h.Sane
  tableHeld : (table, 8) ∈ h.live
  ranges : word h.storage table = 0 ∧ word h.storage (table + 4) = 0 ∨
    (word h.storage table, word h.storage (table + 4) * 20) ∈ h.live ∧
      word h.storage table ≠ table
  lines : ∀ r, r < word h.storage (table + 4) →
    (word h.storage (rangeAt h.storage table r),
      word h.storage (rangeAt h.storage table r + 4) * 12) ∈ h.live ∧
      word h.storage (rangeAt h.storage table r) ≠ table ∧
      word h.storage (rangeAt h.storage table r) ≠ word h.storage table
  linesApart : ∀ r r', r < word h.storage (table + 4) → r' < word h.storage (table + 4) →
    word h.storage (rangeAt h.storage table r) = word h.storage (rangeAt h.storage table r') →
      r = r'

/-- What every state reached holds: the tables are in blocks of their own, and
the handlers of each line are NULL or in a block of theirs. -/
structure Holds (table : Nat) (h : Heap) : Prop extends tabled : Tabled table h where
  owned : ∀ line, IsLine table h.storage line → word h.storage (line + 4) = 0 ∨
    (∃ room, (word h.storage (line + 4), room) ∈ h.live ∧ word h.storage (line + 8) * 4 ≤ room) ∧
      ¬ Fixed table h.storage (word h.storage (line + 4))
  unshared : ∀ line other, IsLine table h.storage line → IsLine table h.storage other →
    other ≠ line → word h.storage (line + 4) ≠ 0 →
      word h.storage (other + 4) ≠ word h.storage (line + 4)

theorem Holds.isOwned (holds : Holds table h) : Owned table h := by
  intro line isLine
  rcases holds.owned line isLine with null | ⟨block, -⟩
  · exact Or.inl null
  · have notNull : word h.storage (line + 4) ≠ 0 := by
      obtain ⟨room, live, -⟩ := block
      exact Nat.ne_of_gt (holds.sane.proper _ live).1
    exact Or.inr ⟨block, fun other isOther differ =>
      holds.unshared line other isLine isOther differ notNull⟩

theorem Tabled.range_held (tabled : Tabled table h) {r : Nat}
    (hr : r < word h.storage (table + 4)) :
    ∃ x ∈ h.live, x.1 = word h.storage table ∧ x.1 ≠ table ∧ x.1 ≤ rangeAt h.storage table r ∧
      rangeAt h.storage table r + 20 ≤ x.1 + x.2 := by
  obtain ⟨array, notTable⟩ := tabled.ranges.resolve_left fun none => by omega
  refine ⟨_, array, rfl, notTable, Nat.le_add_right _ _, ?_⟩
  simp only [rangeAt]
  omega

theorem Tabled.line_held (tabled : Tabled table h) (isLine : IsLine table h.storage line) :
    ∃ x ∈ h.live, Fixed table h.storage x.1 ∧ x.1 ≠ table ∧ x.1 ≠ word h.storage table ∧
      x.1 ≤ line ∧ line + 12 ≤ x.1 + x.2 := by
  obtain ⟨r, hr, i, hi, rfl⟩ := isLine
  obtain ⟨live, notTable, notArray⟩ := tabled.lines r hr
  refine ⟨_, live, Or.inr (Or.inr ⟨r, hr, rfl⟩), notTable, notArray, Nat.le_add_right _ _, ?_⟩
  simp only [lineAt]
  omega

/-- Different lines do not overlap. -/
theorem Tabled.lines_apart (tabled : Tabled table h) (isLine : IsLine table h.storage line)
    (isOther : IsLine table h.storage other) (differ : other ≠ line) :
    other + 12 ≤ line ∨ line + 12 ≤ other := by
  obtain ⟨r, hr, i, hi, rfl⟩ := isLine
  obtain ⟨r', hr', i', hi', rfl⟩ := isOther
  by_cases same : r = r'
  · subst same
    simp only [lineAt] at differ ⊢
    omega
  · obtain ⟨live, -⟩ := tabled.lines r hr
    obtain ⟨live', -⟩ := tabled.lines r' hr'
    have starts := fun eq => same (tabled.linesApart r r' hr hr' eq)
    have apart := tabled.sane.apart_of_start live live' starts
    simp only [Heap.Apart] at apart
    simp only [lineAt]
    omega

theorem Tabled.line_apart_range (tabled : Tabled table h) (isLine : IsLine table h.storage line)
    {r : Nat} (hr : r < word h.storage (table + 4)) :
    line + 12 ≤ rangeAt h.storage table r ∨ rangeAt h.storage table r + 20 ≤ line := by
  obtain ⟨x, live, -, -, notArray, lo, hi⟩ := tabled.line_held isLine
  obtain ⟨y, array, start, -, ylo, yhi⟩ := tabled.range_held hr
  have apart := tabled.sane.apart_of_start live array (by rw [start]; exact notArray)
  simp only [Heap.Apart] at apart
  omega

/-- The storage has the same ranges with the same lines. -/
structure Same (table : Nat) (m m' : Storage) : Prop where
  pointer : word m' table = word m table
  count : word m' (table + 4) = word m (table + 4)
  lines : ∀ r, r < word m (table + 4) →
    word m' (rangeAt m table r) = word m (rangeAt m table r)
  nLines : ∀ r, r < word m (table + 4) →
    word m' (rangeAt m table r + 4) = word m (rangeAt m table r + 4)

theorem Same.rangeAt_eq {m m' : Storage} (same : Same table m m') (r : Nat) :
    rangeAt m' table r = rangeAt m table r := by
  simp only [rangeAt, same.pointer]

theorem Same.trans {m m' m'' : Storage} (first : Same table m m') (second : Same table m' m'') :
    Same table m m'' := by
  refine ⟨second.pointer.trans first.pointer, second.count.trans first.count, fun r hr => ?_,
    fun r hr => ?_⟩
  · rw [← first.rangeAt_eq, second.lines r (first.count.symm ▸ hr), first.rangeAt_eq]
    exact first.lines r hr
  · rw [← first.rangeAt_eq, second.nLines r (first.count.symm ▸ hr), first.rangeAt_eq]
    exact first.nLines r hr

theorem Same.lineAt_eq {m m' : Storage} (same : Same table m m') {r : Nat}
    (hr : r < word m (table + 4)) (i : Nat) :
    lineAt m' (rangeAt m' table r) i = lineAt m (rangeAt m table r) i := by
  rw [lineAt, lineAt, same.rangeAt_eq, same.lines r hr]

theorem Same.isLine {m m' : Storage} (same : Same table m m') :
    IsLine table m' line ↔ IsLine table m line := by
  simp only [IsLine, same.count, same.rangeAt_eq, lineAt]
  refine exists_congr fun r => and_congr_right fun hr => ?_
  rw [same.lines r hr, same.nLines r hr]

theorem Same.fixed {m m' : Storage} (same : Same table m m') {a : Nat} :
    Fixed table m' a ↔ Fixed table m a := by
  simp only [Fixed, same.pointer, same.count, same.rangeAt_eq]
  refine or_congr_right (or_congr_right (exists_congr fun r => and_congr_right fun hr => ?_))
  rw [same.lines r hr]

/-- A heap with the same ranges and lines has the tables in their blocks still. -/
theorem Tabled.keep (tabled : Tabled table h) (same : Same table h.storage h'.storage)
    (sane : h'.Sane) (live : ∀ x ∈ h.live, Fixed table h.storage x.1 → x ∈ h'.live) :
    Tabled table h' := by
  refine ⟨sane, live _ tabled.tableHeld (Or.inl rfl), ?_, ?_, ?_⟩
  · rw [same.pointer, same.count]
    rcases tabled.ranges with none | ⟨array, notTable⟩
    · exact Or.inl none
    · exact Or.inr ⟨live _ array (Or.inr (Or.inl rfl)), notTable⟩
  · intro r hr
    rw [same.count] at hr
    obtain ⟨block, apart⟩ := tabled.lines r hr
    rw [same.rangeAt_eq, same.nLines r hr, same.pointer, same.lines r hr]
    exact ⟨live _ block (Or.inr (Or.inr ⟨r, hr, rfl⟩)), apart⟩
  · intro r r' hr hr'
    rw [same.count] at hr hr'
    rw [same.rangeAt_eq, same.rangeAt_eq, same.lines r hr, same.lines r' hr']
    exact tabled.linesApart r r' hr hr'

/-- A heap with the same ranges and lines keeps the invariant when it keeps the
ownership of handlers. -/
theorem Holds.keep (holds : Holds table h) (same : Same table h.storage h'.storage)
    (sane : h'.Sane) (live : ∀ x ∈ h.live, Fixed table h.storage x.1 → x ∈ h'.live)
    (owned : ∀ line, IsLine table h.storage line → word h'.storage (line + 4) = 0 ∨
      (∃ room, (word h'.storage (line + 4), room) ∈ h'.live ∧
        word h'.storage (line + 8) * 4 ≤ room) ∧
        ¬ Fixed table h.storage (word h'.storage (line + 4)))
    (unshared : ∀ line other, IsLine table h.storage line → IsLine table h.storage other →
      other ≠ line → word h'.storage (line + 4) ≠ 0 →
        word h'.storage (other + 4) ≠ word h'.storage (line + 4)) :
    Holds table h' := by
  refine ⟨holds.tabled.keep same sane live, ?_, ?_⟩
  · intro line isLine
    rw [same.isLine] at isLine
    rw [same.fixed]
    exact owned line isLine
  · intro line other isLine isOther
    rw [same.isLine] at isLine isOther
    exact unshared line other isLine isOther

/-- A change within a line keeps the ranges. -/
theorem Tabled.same_of_line {m : Storage} (tabled : Tabled table h)
    (isLine : IsLine table h.storage line)
    (kept : ∀ x, h.Held x → x < line ∨ line + 12 ≤ x → m x = h.storage x) :
    Same table h.storage m := by
  obtain ⟨x, live, -, notTable, -, lo, hi⟩ := tabled.line_held isLine
  have tableKept : ∀ o, o + 4 ≤ 8 → word m (table + o) = word h.storage (table + o) :=
    fun o ho => word_congr fun i hi' => by
      have apart := tabled.sane.apart_of_start live tabled.tableHeld notTable
      simp only [Heap.Apart] at apart
      exact kept _ ⟨_, tabled.tableHeld, by simp only; omega, by simp only; omega⟩ (by omega)
  have rowKept : ∀ r, r < word h.storage (table + 4) → ∀ o, o + 4 ≤ 20 →
      word m (rangeAt h.storage table r + o) =
        word h.storage (rangeAt h.storage table r + o) := fun r hr o ho => by
    obtain ⟨y, array, -, -, ylo, yhi⟩ := tabled.range_held hr
    have apart := tabled.line_apart_range isLine hr
    exact word_congr fun i hi' => kept _ ⟨y, array, by omega, by omega⟩ (by omega)
  refine ⟨tableKept 0 (by decide), tableKept 4 (by decide), fun r hr => ?_, fun r hr =>
    rowKept r hr 4 (by decide)⟩
  simpa only [Nat.add_zero] using rowKept r hr 0 (by decide)

/-- The tables and the other lines stay when a line gets a new block of handlers. -/
theorem Tabled.counted (tabled : Tabled table h) (isLine : IsLine table h.storage line)
    {room b n : Nat} (counted : Counted h h' (line + 4) (word h.storage (line + 4)) room b n)
    (notFixed : word h.storage (line + 4) ≠ 0 → ¬ Fixed table h.storage (word h.storage (line + 4))) :
    Tabled table h' ∧ Same table h.storage h'.storage ∧
      ∀ other, IsLine table h.storage other → other ≠ line → ∀ o, o + 4 ≤ 12 →
        word h'.storage (other + o) = word h.storage (other + o) := by
  obtain ⟨x, xLive, xFixed, -, -, lo, hi⟩ := tabled.line_held isLine
  have same : Same table h.storage h'.storage := tabled.same_of_line isLine fun y held away =>
    counted.kept y held (by omega)
  refine ⟨tabled.keep same counted.sane ?_, same, fun other isOther differ o ho => ?_⟩
  · exact fun y live isFixed => counted.stays tabled.sane live fun some eq =>
      notFixed some (eq ▸ isFixed)
  · obtain ⟨y, yLive, -, -, -, ylo, yhi⟩ := tabled.line_held isOther
    have apart := tabled.lines_apart isLine isOther differ
    exact counted.word_kept yLive (by omega) (by omega) (by omega)

theorem Tabled.fixed_live (tabled : Tabled table h) {a : Nat} (isFixed : Fixed table h.storage a) :
    a = 0 ∨ ∃ n, (a, n) ∈ h.live := by
  rcases isFixed with rfl | rfl | ⟨r, hr, rfl⟩
  · exact Or.inr ⟨_, tabled.tableHeld⟩
  · exact tabled.ranges.imp And.left fun array => ⟨_, array.1⟩
  · exact Or.inr ⟨_, (tabled.lines r hr).1⟩

theorem Tabled.fresh_not_fixed (tabled : Tabled table h) {b room : Nat}
    (fresh : h.Fresh (b, room)) : ¬ Fixed table h.storage b := by
  intro isFixed
  have positive := fresh.1.1
  rcases tabled.fixed_live isFixed with zero | ⟨n, live⟩
  · simp only at positive
    omega
  · exact fresh.start_ne live tabled.sane rfl

/-- A line gets a handler in a fresh block. -/
theorem Holds.counted (holds : Holds table h) (isLine : IsLine table h.storage line)
    {room b n : Nat} (counted : Counted h h' (line + 4) (word h.storage (line + 4)) room b n)
    (fits : n * 4 ≤ room) :
    Holds table h' ∧ word h'.storage (table + 4) = word h.storage (table + 4) := by
  obtain ⟨tabled, same, others⟩ := holds.tabled.counted isLine counted fun some =>
    ((holds.owned line isLine).resolve_left some).2
  have fresh : ∀ y ∈ h.live, y.1 ≠ b := fun y live => counted.fresh.start_ne live holds.sane
  have positive : 0 < b := counted.fresh.1.1
  refine ⟨⟨tabled, ?_, ?_⟩, same.count⟩
  · intro o isOther
    rw [same.isLine] at isOther
    rw [same.fixed]
    by_cases own : o = line
    · subst own
      refine Or.inr ⟨⟨room, ?_, ?_⟩, ?_⟩
      · rw [counted.pointer]
        exact (counted.live _).mpr (Or.inl rfl)
      · have count := counted.count
        rw [Nat.add_assoc] at count
        rw [count]
        exact fits
      · rw [counted.pointer]
        exact holds.tabled.fresh_not_fixed counted.fresh
    · rw [others o isOther own 4 (by decide), others o isOther own 8 (by decide)]
      refine (holds.owned o isOther).imp_right fun ⟨⟨room, live, enough⟩, away⟩ =>
        ⟨⟨room, counted.stays holds.sane live fun some eq => ?_, enough⟩, away⟩
      exact holds.unshared line o isLine isOther own some eq.symm
  · intro o p isO isP differ some
    rw [same.isLine] at isO isP
    have inUse : ∀ q, IsLine table h.storage q → word h.storage (q + 4) ≠ b := fun q isQ eq => by
      rcases holds.owned q isQ with zero | ⟨⟨room, live, -⟩, -⟩
      · omega
      · exact fresh _ live eq
    by_cases ownO : o = line
    · subst ownO
      rw [counted.pointer, others p isP differ 4 (by decide)]
      exact inUse p isP
    · rw [others o isO ownO 4 (by decide)] at some ⊢
      by_cases ownP : p = line
      · subst ownP
        rw [counted.pointer]
        exact (inUse o isO).symm
      · rw [others p isP ownP 4 (by decide)]
        exact holds.unshared o p isO isP differ some

/-- What holds when the array has grown and the handler is copied behind it holds
of what `KeAddHandlerToIrqLine` returns. -/
theorem keAddHandlerToIrqLine_sound {good : Nat × Heap → Prop} {handler answer : Nat}
    (held : ∃ x ∈ h.live, x.1 ≤ line ∧ line + 12 ≤ x.1 + x.2)
    (grows : Outcome.Sound (fun r => r.1 = answer ∧
        (answer = 0 → r.2 = ⟨h.storage.setWord (line + 4) 0, h.live⟩) ∧
        (answer ≠ 0 → Grown h r.2 (line + 4) (word h.storage (line + 4))
          ((word h.storage (line + 8) + 1) * 12) answer ∧
          (word h.storage (line + 4) ≠ 0 → ∀ i, i < word h.storage (line + 8) * 12 →
            r.2.storage (answer + i) = h.storage (word h.storage (line + 4) + i))))
      (growArray h (line + 4) 12 answer))
    (added : ∀ (h1 : Heap) (m : Storage) (entry : Nat),
      Grown h h1 (line + 4) (word h.storage (line + 4))
        ((word h.storage (line + 8) + 1) * 12) answer →
      (word h.storage (line + 4) ≠ 0 → ∀ i, i < word h.storage (line + 8) * 12 →
        h1.storage (answer + i) = h.storage (word h.storage (line + 4) + i)) →
      m = (h1.storage.setWord (line + 4 + 4) (word h.storage (line + 8) + 1)).copyUp
        (answer + word h.storage (line + 8) * 4) handler 4 →
      Counted h ⟨m, h1.live⟩ (line + 4) (word h.storage (line + 4))
        ((word h.storage (line + 8) + 1) * 12) answer (word h.storage (line + 8) + 1) →
      good (entry, ⟨m, h1.live⟩)) :
    Outcome.Sound good (keAddHandlerToIrqLine debug h line handler answer) := by
  obtain ⟨x, xLive, lo, hi⟩ := held
  refine grows.bind ?_
  rintro ⟨ptr, h1⟩ ⟨same, -, grew⟩
  obtain rfl : answer = ptr := same.symm
  refine (Outcome.sound_check _).bind fun _ notNull => ?_
  obtain ⟨grown, rows⟩ := grew notNull
  have fresh := grown.fresh.1
  simp only [Heap.Proper, Nat.add_mul] at fresh
  have count : word h1.storage (line + 4 + 4) = word h.storage (line + 8) :=
    (grown.word_kept xLive (by omega) (by omega) (by omega)).trans (by rw [Nat.add_assoc])
  rw [nextElement_of grown.pointer count (by decide) (by omega)]
  refine (keCopyMemory_sound debug _ _ _ _).bind ?_
  rintro _ rfl
  refine added h1 _ _ grown rows rfl (grown.counted ⟨x, xLive, by omega, by omega⟩ (by omega) ?_)
  intro y outside
  simp only [Nat.add_mul] at outside
  exact copyUp_outside _ (by omega)

theorem keAddHandlerToIrqLine_holds (holds : Holds table h) (isLine : IsLine table h.storage line)
    {handler answer : Nat} (placed : Placed h answer (word h.storage (line + 4))
      ((word h.storage (line + 8) + 1) * 12)) :
    Outcome.Sound (fun r => Holds table r.2 ∧
        word r.2.storage (table + 4) = word h.storage (table + 4))
      (keAddHandlerToIrqLine debug h line handler answer) := by
  obtain ⟨x, xLive, -, -, -, lo, hi⟩ := holds.tabled.line_held isLine
  have array : word h.storage (line + 4) = 0 ∨
      ∃ room, (word h.storage (line + 4), room) ∈ h.live :=
    (holds.owned line isLine).imp_right fun block => by
      obtain ⟨⟨room, live, -⟩, -⟩ := block
      exact ⟨room, live⟩
  have behind : word h.storage (line + 4 + 4) = word h.storage (line + 8) := by
    rw [Nat.add_assoc]
  have grows := growArray_sound holds.sane rfl behind array ⟨x, xLive, by omega, by omega⟩ placed
  refine keAddHandlerToIrqLine_sound ⟨x, xLive, lo, hi⟩ grows ?_
  intro h1 m entry grown _ _ counted
  have fresh := grown.fresh.1
  simp only [Heap.Proper, Nat.add_mul] at fresh
  exact holds.counted isLine counted (by omega)

/-- The first shared line of a range gets the handler. -/
theorem keAllocateIrqFromRange_holds (holds : Holds table h) {r handler answer : Nat}
    (hr : r < word h.storage (table + 4))
    (supplied : SuppliedHandler h (rangeAt h.storage table r) answer) :
    Outcome.Sound (fun q => Holds table q.2 ∧
        word q.2.storage (table + 4) = word h.storage (table + 4))
      (keAllocateIrqFromRange debug h (rangeAt h.storage table r) handler answer) := by
  rw [keAllocateIrqFromRange]
  cases found : sharedLine h.storage (rangeAt h.storage table r) with
  | none => exact ⟨holds, rfl⟩
  | some i =>
    have placed := supplied i found
    have hi : i < word h.storage (rangeAt h.storage table r + 4) :=
      List.mem_range.mp (List.mem_of_find?_eq_some found)
    have isLine : IsLine table h.storage (lineAt h.storage (rangeAt h.storage table r) i) :=
      ⟨r, hr, i, hi, rfl⟩
    exact (keAddHandlerToIrqLine_holds holds isLine placed).bind fun _ kept => kept

theorem allocateFrom_holds {handler left i : Nat} {answers : List Nat} (holds : Holds table h)
    (inTable : i + left ≤ word h.storage (table + 4))
    (supplied : SuppliedFrom debug table handler answers left i h) :
    Outcome.Sound (fun r => Holds table r.2) (allocateFrom debug table handler answers left i h) := by
  induction left generalizing i h with
  | zero => exact holds
  | succ left ih =>
    obtain ⟨now, later⟩ := supplied
    refine ((keAllocateIrqFromRange_holds holds (by omega) now).strengthen fun r ran kept =>
      And.intro kept (later r ran)).bind ?_
    rintro ⟨irq, h1⟩ ⟨⟨holds1, count⟩, rest⟩
    by_cases missed : irq = noIrq
    · simp only [missed, if_true]
      simp only at count
      exact ih holds1 (by omega) (rest missed)
    · simp only [missed, if_false]
      exact (Outcome.sound_check _).bind fun _ _ => holds1

theorem Holds.rangeOf_eq {irq range : Nat} (found : rangeOf h.storage table irq = some range) :
    ∃ r, r < word h.storage (table + 4) ∧ range = rangeAt h.storage table r := by
  obtain ⟨r, first, rfl⟩ := Option.map_eq_some_iff.mp found
  exact ⟨r, List.mem_range.mp (List.mem_of_find?_eq_some first), rfl⟩

/-- A line without handlers is cleared. -/
theorem Holds.cleared (holds : Holds table h) (isLine : IsLine table h.storage line)
    (null : word h.storage (line + 4) = 0) :
    Holds table { h with storage := (h.storage.setWord (line + 8) 0).setWord line 0 } := by
  have kept : ∀ x, x < line ∨ line + 12 ≤ x ∨ line + 4 ≤ x ∧ x < line + 8 →
      (h.storage.setWord (line + 8) 0).setWord line 0 x = h.storage x := fun x outside => by
    rw [setWord_outside _ (by omega), setWord_outside _ (by omega)]
  have same : Same table h.storage ((h.storage.setWord (line + 8) 0).setWord line 0) :=
    holds.tabled.same_of_line isLine fun x _ away => kept x (by omega)
  have pointers : ∀ o, IsLine table h.storage o →
      word ((h.storage.setWord (line + 8) 0).setWord line 0) (o + 4) = word h.storage (o + 4) :=
    fun o isOther => by
      by_cases own : o = line
      · subst own
        exact word_congr fun i hi => kept _ (by omega)
      · have apart := holds.tabled.lines_apart isLine isOther own
        exact word_congr fun i hi => kept _ (by omega)
  refine holds.keep same (holds.sane.write _) (fun _ live _ => live) ?_ ?_
  · intro o isOther
    by_cases own : o = line
    · subst own
      exact Or.inl ((pointers o isOther).trans null)
    · have apart := holds.tabled.lines_apart isLine isOther own
      have count : word ((h.storage.setWord (line + 8) 0).setWord line 0) (o + 8) =
          word h.storage (o + 8) := word_congr fun i hi => kept _ (by omega)
      simp only [pointers o isOther, count]
      exact holds.owned o isOther
  · intro o p isO isP differ some
    simp only [pointers o isO, pointers p isP] at some ⊢
    exact holds.unshared o p isO isP differ some

/-- Nothing is freed, or the call panics. -/
theorem freeLine_holds (holds : Holds table h) (isLine : IsLine table h.storage line) {r : Nat}
    (hr : r < word h.storage (table + 4)) (quiet : word h.storage (line + 4) = 0 ∨
      word h.storage (rangeAt h.storage table r + 16) = 0) :
    Outcome.Sound (Holds table) (freeLine h (rangeAt h.storage table r) line) := by
  rw [freeLine]
  by_cases null : word h.storage (line + 4) = 0
  · rw [mmFree, if_pos null, Outcome.ok_bind]
    exact (Outcome.sound_check _).bind fun _ _ => holds.cleared isLine null
  · have noCallback := quiet.resolve_left null
    obtain ⟨⟨room, live, -⟩, -⟩ := (holds.owned line isLine).resolve_left null
    have apart := holds.tabled.line_apart_range isLine hr
    have callback : word ((h.storage.setWord (line + 8) 0).setWord line irqTypeShared)
        (rangeAt h.storage table r + 16) = 0 :=
      ((word_setWord_other _ (by omega)).trans (word_setWord_other _ (by omega))).trans noCallback
    rw [mmFree_of_mem holds.sane live, Outcome.ok_bind]
    exact (Outcome.sound_check _).bind fun _ some => absurd callback some

theorem keFreeIrq_holds (holds : Holds table h) {irq : UInt32}
    (nothing : NothingFreed table h (.free irq)) :
    Outcome.Sound (Holds table) (keFreeIrq table h irq.toNat) := by
  rw [keFreeIrq]
  cases found : rangeOf h.storage table irq.toNat with
  | none => exact holds
  | some range =>
    obtain ⟨r, hr, rfl⟩ := Holds.rangeOf_eq found
    obtain ⟨hi, quiet⟩ := nothing _ found
    exact freeLine_holds holds ⟨r, hr, _, hi, rfl⟩ hr quiet

/-- A cleared block that no range and no line has yet. -/
structure Spare (table : Nat) (h : Heap) (lines n : Nat) : Prop where
  held : (lines, n * 12) ∈ h.live
  notFixed : ¬ Fixed table h.storage lines
  notHandlers : ∀ line, IsLine table h.storage line → word h.storage (line + 4) ≠ lines
  clear : ∀ x, lines ≤ x → x < lines + n * 12 → h.storage x = 0

/-- A larger heap with the same bytes in the blocks in use has the same tables. -/
theorem Tabled.extend (tabled : Tabled table h) (sane : h'.Sane)
    (live : ∀ x ∈ h.live, x ∈ h'.live) (kept : ∀ x, h.Held x → h'.storage x = h.storage x) :
    Tabled table h' ∧ Same table h.storage h'.storage ∧
      ∀ line, IsLine table h.storage line → ∀ o, o + 4 ≤ 12 →
        word h'.storage (line + o) = word h.storage (line + o) := by
  have wordKept : ∀ {x : Nat × Nat} {a : Nat}, x ∈ h.live → x.1 ≤ a → a + 4 ≤ x.1 + x.2 →
      word h'.storage a = word h.storage a := fun {x a} hx lo hi =>
    word_congr fun i _ => kept _ ⟨x, hx, by omega, by omega⟩
  have same : Same table h.storage h'.storage := by
    refine ⟨wordKept tabled.tableHeld (Nat.le_refl _) (by simp only; omega),
      wordKept tabled.tableHeld (Nat.le_add_right _ _) (by simp only; omega), ?_, ?_⟩
    · intro r hr
      obtain ⟨y, array, -, -, lo, hi⟩ := tabled.range_held hr
      exact wordKept array lo (by omega)
    · intro r hr
      obtain ⟨y, array, -, -, lo, hi⟩ := tabled.range_held hr
      exact wordKept array (by omega) (by omega)
  refine ⟨tabled.keep same sane fun x hx _ => live x hx, same, fun o isLine d hd => ?_⟩
  obtain ⟨x, hx, -, -, -, lo, hi⟩ := tabled.line_held isLine
  exact wordKept hx (by omega) (by omega)

theorem Holds.extend (holds : Holds table h) (sane : h'.Sane) (live : ∀ x ∈ h.live, x ∈ h'.live)
    (kept : ∀ x, h.Held x → h'.storage x = h.storage x) : Holds table h' := by
  obtain ⟨-, same, lineKept⟩ := holds.tabled.extend sane live kept
  refine holds.keep same sane (fun x hx _ => live x hx) ?_ ?_
  · intro o isLine
    rw [lineKept o isLine 4 (by decide), lineKept o isLine 8 (by decide)]
    exact (holds.owned o isLine).imp_right fun ⟨⟨room, inUse, enough⟩, away⟩ =>
      ⟨⟨room, live _ inUse, enough⟩, away⟩
  · intro o q isO isQ differ some
    rw [lineKept o isO 4 (by decide)] at some ⊢
    rw [lineKept q isQ 4 (by decide)]
    exact holds.unshared o q isO isQ differ some

/-- The storage has the same ranges, and behind them one more with n lines. -/
structure Longer (table : Nat) (m m' : Storage) (lines n : Nat) : Prop where
  count : word m' (table + 4) = word m (table + 4) + 1
  oldLines : ∀ r, r < word m (table + 4) →
    word m' (rangeAt m' table r) = word m (rangeAt m table r)
  oldCount : ∀ r, r < word m (table + 4) →
    word m' (rangeAt m' table r + 4) = word m (rangeAt m table r + 4)
  newLines : word m' (rangeAt m' table (word m (table + 4))) = lines
  newCount : word m' (rangeAt m' table (word m (table + 4)) + 4) = n

theorem Longer.isLine {m m' : Storage} {lines n : Nat} (longer : Longer table m m' lines n)
    (isLine : IsLine table m' line) :
    IsLine table m line ∨ ∃ i, i < n ∧ line = lines + i * 12 := by
  obtain ⟨r, hr, i, hi, rfl⟩ := isLine
  rw [longer.count] at hr
  rcases Nat.lt_succ_iff_lt_or_eq.mp hr with old | rfl
  · rw [longer.oldCount r old] at hi
    refine Or.inl ⟨r, old, i, hi, ?_⟩
    rw [lineAt, lineAt, longer.oldLines r old]
  · rw [longer.newCount] at hi
    refine Or.inr ⟨i, hi, ?_⟩
    rw [lineAt, longer.newLines]

theorem Longer.fixed {m m' : Storage} {lines n a : Nat} (longer : Longer table m m' lines n)
    (isFixed : Fixed table m' a) :
    a = word m' table ∨ a = lines ∨ Fixed table m a := by
  rcases isFixed with rfl | rfl | ⟨r, hr, rfl⟩
  · exact Or.inr (Or.inr (Or.inl rfl))
  · exact Or.inl rfl
  · rw [longer.count] at hr
    rcases Nat.lt_succ_iff_lt_or_eq.mp hr with old | rfl
    · exact Or.inr (Or.inr (Or.inr (Or.inr ⟨r, old, longer.oldLines r old⟩)))
    · exact Or.inr (Or.inl longer.newLines)

/-- The lines of a new range are no other's. -/
theorem Longer.linesApart {lines n : Nat} (longer : Longer table h.storage h'.storage lines n)
    (tabled : Tabled table h) (notFixed : ¬ Fixed table h.storage lines) {r r' : Nat}
    (hr : r < word h'.storage (table + 4)) (hr' : r' < word h'.storage (table + 4))
    (same : word h'.storage (rangeAt h'.storage table r) =
      word h'.storage (rangeAt h'.storage table r')) : r = r' := by
  rw [longer.count] at hr hr'
  rcases Nat.lt_succ_iff_lt_or_eq.mp hr with old | rfl
  · rcases Nat.lt_succ_iff_lt_or_eq.mp hr' with old' | rfl
    · rw [longer.oldLines r old, longer.oldLines r' old'] at same
      exact tabled.linesApart r r' old old' same
    · rw [longer.oldLines r old, longer.newLines] at same
      exact absurd (Or.inr (Or.inr ⟨r, old, same.symm⟩)) notFixed
  · rcases Nat.lt_succ_iff_lt_or_eq.mp hr' with old' | new
    · rw [longer.oldLines r' old', longer.newLines] at same
      exact absurd (Or.inr (Or.inr ⟨r', old', same⟩)) notFixed
    · exact new.symm

section
variable {lines n b : Nat} {content : Nat → UInt8}

theorem Tabled.longer (tabled : Tabled table h)
    (extended : Extended h h' table (word h.storage table) (word h.storage (table + 4)) 20 b content)
    (pointer : word h'.storage (b + word h.storage (table + 4) * 20) = lines)
    (count : word h'.storage (b + word h.storage (table + 4) * 20 + 4) = n) :
    Longer table h.storage h'.storage lines n := by
  have oldRow : ∀ r, r < word h.storage (table + 4) → ∀ o, o + 4 ≤ 20 →
      word h'.storage (rangeAt h'.storage table r + o) =
        word h.storage (rangeAt h.storage table r + o) := by
    intro r hr o ho
    obtain ⟨array, -⟩ := tabled.ranges.resolve_left fun none => by omega
    have notNull := Nat.ne_of_gt (tabled.sane.proper _ array).1
    simp only [rangeAt, extended.pointer]
    refine word_congr fun i hi => ?_
    have moved := extended.rows notNull (r * 20 + o + i) (by omega)
    simpa only [Nat.add_assoc] using moved
  refine ⟨extended.count, fun r hr => ?_, fun r hr => oldRow r hr 4 (by decide), ?_, ?_⟩
  · simpa only [Nat.add_zero] using oldRow r hr 0 (by decide)
  · simp only [rangeAt, extended.pointer]
    exact pointer
  · simp only [rangeAt, extended.pointer]
    exact count

theorem Tabled.kept_by (tabled : Tabled table h)
    (extended : Extended h h' table (word h.storage table) (word h.storage (table + 4)) 20 b content)
    {x : Nat × Nat} {a : Nat} (live : x ∈ h.live) (other : x.1 ≠ table) (lo : x.1 ≤ a)
    (hi : a < x.1 + x.2) : h'.storage a = h.storage a := by
  have apart := tabled.sane.apart_of_start live tabled.tableHeld other
  simp only [Heap.Apart] at apart
  exact extended.kept a ⟨x, live, lo, hi⟩ (by omega)

/-- A range was added: the lines that there were are as they were, and those
that were added are cleared. -/
structure Created (table : Nat) (h h' : Heap) (lines n : Nat) : Prop where
  longer : Longer table h.storage h'.storage lines n
  kept : ∀ line, IsLine table h.storage line → ∀ o, o + 4 ≤ 12 →
    word h'.storage (line + o) = word h.storage (line + o)
  clear : ∀ i, i < n → ∀ o, o + 4 ≤ 12 → word h'.storage (lines + i * 12 + o) = 0
  stays : ∀ x ∈ h.live, x.1 ≠ word h.storage table → x ∈ h'.live
  newArray : ∀ x ∈ h.live, x.1 ≠ word h'.storage table

/-- The array of ranges gets a range with these lines. -/
theorem Tabled.created (tabled : Tabled table h) (spare : Spare table h lines n)
    (extended : Extended h h' table (word h.storage table) (word h.storage (table + 4)) 20 b content)
    (pointer : word h'.storage (b + word h.storage (table + 4) * 20) = lines)
    (count : word h'.storage (b + word h.storage (table + 4) * 20 + 4) = n) :
    Created table h h' lines n := by
  have linesTable : lines ≠ table := fun same => spare.notFixed (Or.inl same)
  refine ⟨tabled.longer extended pointer count, fun line isLine o ho => ?_, fun i hi o ho => ?_,
    fun x live other => extended.stays tabled.sane live fun _ same => other same.symm,
    fun x live => ?_⟩
  · obtain ⟨x, live, -, other, -, lo, hi⟩ := tabled.line_held isLine
    exact word_congr fun i _ => tabled.kept_by extended live other (by omega) (by omega)
  · refine word_zero fun j hj => ?_
    rw [tabled.kept_by extended spare.held linesTable (by simp only; omega) (by simp only; omega)]
    exact spare.clear _ (by omega) (by omega)
  · rw [extended.pointer]
    exact extended.fresh.start_ne live tabled.sane

theorem Tabled.added (tabled : Tabled table h) (spare : Spare table h lines n)
    (extended : Extended h h' table (word h.storage table) (word h.storage (table + 4)) 20 b content)
    (created : Created table h h' lines n) : Tabled table h' := by
  have longer := created.longer
  have linesTable : lines ≠ table := fun same => spare.notFixed (Or.inl same)
  have linesArray : lines ≠ word h.storage table := fun same => spare.notFixed (Or.inr (Or.inl same))
  refine ⟨extended.sane, ?_, ?_, ?_, ?_⟩
  · exact extended.stays tabled.sane tabled.tableHeld fun some =>
      (tabled.ranges.resolve_left fun none => some none.1).2
  · have new := (extended.live _).mpr (Or.inl rfl)
    rw [← extended.pointer, ← extended.count] at new
    exact Or.inr ⟨new, (created.newArray _ tabled.tableHeld).symm⟩
  · intro r hr
    rw [extended.count] at hr
    rcases Nat.lt_succ_iff_lt_or_eq.mp hr with old | rfl
    · obtain ⟨live, other, notArray⟩ := tabled.lines r old
      rw [longer.oldLines r old, longer.oldCount r old]
      exact ⟨created.stays _ live notArray, other, created.newArray _ live⟩
    · rw [longer.newLines, longer.newCount]
      exact ⟨created.stays _ spare.held linesArray, linesTable, created.newArray _ spare.held⟩
  · exact fun r r' hr hr' same => longer.linesApart tabled spare.notFixed hr hr' same

theorem Holds.added (holds : Holds table h) (spare : Spare table h lines n)
    (created : Created table h h' lines n) (tabled : Tabled table h') : Holds table h' := by
  have longer := created.longer
  refine ⟨tabled, ?_, ?_⟩
  · intro o isLine
    rcases longer.isLine isLine with old | ⟨i, hi, rfl⟩
    · rw [created.kept o old 4 (by decide), created.kept o old 8 (by decide)]
      rcases holds.owned o old with unused | ⟨⟨room, live, enough⟩, away⟩
      · exact Or.inl unused
      refine Or.inr ⟨⟨room, created.stays _ live fun same => away (Or.inr (Or.inl same)), enough⟩,
        fun isFixed => ?_⟩
      rcases longer.fixed isFixed with new | spareLines | wasFixed
      · exact created.newArray _ live new
      · exact spare.notHandlers o old spareLines
      · exact away wasFixed
    · exact Or.inl (created.clear i hi 4 (by decide))
  · intro o q isO isQ differ some
    rcases longer.isLine isO with old | ⟨i, hi, rfl⟩
    · rw [created.kept o old 4 (by decide)] at some ⊢
      rcases longer.isLine isQ with oldQ | ⟨i, hi, rfl⟩
      · rw [created.kept q oldQ 4 (by decide)]
        exact holds.unshared o q old oldQ differ some
      · rw [created.clear i hi 4 (by decide)]
        exact some.symm
    · exact absurd (created.clear i hi 4 (by decide)) some

end

/-- A fresh cleared block is spare. -/
theorem Holds.spare (holds : Holds table h) {lines n : Nat} (fresh : h.Fresh (lines, n * 12))
    (clear : ∀ x, lines ≤ x → x < lines + n * 12 → h.storage x = 0) :
    Spare table (h.hold (lines, n * 12)) lines n := by
  have notLive : ∀ y ∈ h.live, y.1 ≠ lines := fun y live => fresh.start_ne live holds.sane
  have positive : 0 < lines := fresh.1.1
  refine ⟨List.mem_cons_self, ?_, ?_, clear⟩
  · rintro (table | array | ⟨r, hr, range⟩)
    · exact notLive _ holds.tableHeld table.symm
    · rcases holds.ranges with none | inUse
      · have zero := array.trans none.1
        omega
      · exact notLive _ inUse.1 array.symm
    · exact notLive _ (holds.lines r hr).1 range.symm
  · intro line isLine
    rcases holds.owned line isLine with null | ⟨⟨room, live, -⟩, -⟩
    · exact fun same => by
        have zero := same.symm.trans null
        omega
    · exact notLive _ live

/-- The storage of a new range before it is added: its record and its lines are
filled in, and what was in use is kept. -/
structure Prepared (h : Heap) (m : Storage) (record lines n size : Nat) : Prop where
  kept : ∀ x, h.Held x → m x = h.storage x
  pointer : word m record = lines
  count : word m (record + 4) = n
  clear : ∀ x, lines ≤ x → x < lines + size → m x = 0

theorem prepared_stores {record lines n size : Nat} (start alloc free : Nat)
    (freshRecord : h.Fresh (record, 20))
    (freshLines : (h.hold (record, 20)).Fresh (lines, size)) (range : n < 4294967296) :
    Prepared h ((((((((h.storage.fill record 0 20).setWord (record + 4) n).setWord (record + 8)
      start).fill lines 0 size).setWord record lines).setWord (record + 12) alloc).setWord
      (record + 16) free)) record lines n size := by
  have apart := freshLines.2 (record, 20) List.mem_cons_self
  have proper := freshLines.1
  simp only [Heap.Apart, Heap.Proper] at apart proper
  refine ⟨?_, ?_, ?_, ?_⟩
  · intro x inUse
    have offRecord := freshRecord.not_held inUse
    have offLines := freshLines.not_held (inUse.hold (b := (record, 20)))
    simp only at offRecord offLines
    rw [setWord_outside _ (by omega), setWord_outside _ (by omega), setWord_outside _ (by omega),
      fill_outside _ offLines, setWord_outside _ (by omega), setWord_outside _ (by omega),
      fill_outside _ offRecord]
  · rw [word_setWord_other _ (by omega), word_setWord_other _ (by omega)]
    exact word_setWord _ _ (by omega)
  · rw [word_setWord_other _ (by omega), word_setWord_other _ (by omega),
      word_setWord_other _ (by omega), word_fill_other _ (by omega),
      word_setWord_other _ (by omega)]
    exact word_setWord _ _ range
  · intro x lo hi
    obtain ⟨i, rfl⟩ := Nat.exists_eq_add_of_le lo
    rw [setWord_outside _ (by omega), setWord_outside _ (by omega), setWord_outside _ (by omega)]
    exact fill_inside _ (by omega)

theorem prepared_count (m : Storage) (record start n : Nat) (range : n < 4294967296) :
    word (((m.fill record 0 20).setWord (record + 4) n).setWord (record + 8) start) (record + 4) =
      n := by
  rw [word_setWord_other _ (by omega)]
  exact word_setWord _ _ range

/-- `KeCreateIrqRange` is sound when the addition of a prepared range is. -/
theorem keCreateIrqRange_sound {good : Nat × Heap → Prop} {placed : Prop} {answers : Answers}
    {start nLines alloc free : UInt32}
    (supplied : answers.record = 0 ∨ h.Fresh (answers.record, 20) ∧
      (u32 (nLines.toNat * 12) = 0 ∨ answers.lines = 0 ∨
        (h.hold (answers.record, 20)).Fresh (answers.lines, u32 (nLines.toNat * 12)) ∧ placed))
    (added : ∀ m, Prepared h m answers.record answers.lines nLines.toNat (u32 (nLines.toNat * 12)) →
      h.Fresh (answers.record, 20) →
      (h.hold (answers.record, 20)).Fresh (answers.lines, u32 (nLines.toNat * 12)) → placed →
      Outcome.Sound good (keAddIrqRange debug table
        ⟨m, (answers.lines, u32 (nLines.toNat * 12)) :: (answers.record, 20) :: h.live⟩
        answers.record answers.array)) :
    Outcome.Sound good (keCreateIrqRange debug table h answers start nLines alloc free) := by
  refine (mmAllocateZero_sound _ _ _).bind ?_
  rintro _ ⟨notNull, -, rfl⟩
  obtain ⟨freshRecord, supplied⟩ := supplied.resolve_left notNull
  refine (Outcome.sound_check _).bind fun _ _ => ?_
  dsimp only
  rw [prepared_count _ _ _ _ nLines.toNat_lt, mmAllocateZeroArray]
  refine (mmAllocateZero_sound _ _ _).bind ?_
  rintro _ ⟨notNull', someLines, rfl⟩
  obtain ⟨freshLines, placed⟩ := (supplied.resolve_left someLines).resolve_left notNull'
  refine (Outcome.sound_check _).bind fun _ _ => ?_
  exact added _ (prepared_stores start.toNat alloc.toNat free.toNat freshRecord freshLines
    nLines.toNat_lt) freshRecord freshLines placed

/-- The storage before the range is added has the lines that there were. -/
theorem Created.of_same {h1 : Heap} {lines n : Nat} (created : Created table h1 h' lines n)
    (same : Same table h.storage h1.storage)
    (kept : ∀ line, IsLine table h.storage line → ∀ o, o + 4 ≤ 12 →
      word h1.storage (line + o) = word h.storage (line + o))
    (live : ∀ x ∈ h.live, x ∈ h1.live) : Created table h h' lines n := by
  have longer := created.longer
  refine ⟨⟨?_, fun r hr => ?_, fun r hr => ?_, ?_, ?_⟩, fun line isLine o ho => ?_, created.clear,
    fun x hx other => created.stays x (live x hx) ?_, fun x hx => created.newArray x (live x hx)⟩
  · rw [longer.count, same.count]
  · rw [← same.count] at hr
    rw [longer.oldLines r hr, same.rangeAt_eq, same.lines r (same.count ▸ hr)]
  · rw [← same.count] at hr
    rw [longer.oldCount r hr, same.rangeAt_eq, same.nLines r (same.count ▸ hr)]
  · rw [← same.count]
    exact longer.newLines
  · rw [← same.count]
    exact longer.newCount
  · rw [created.kept line (same.isLine.mpr isLine) o ho]
    exact kept line isLine o ho
  · rw [same.pointer]
    exact other

/-- A prepared range is added to the array of ranges. -/
theorem Holds.add (holds : Holds table h) {m : Storage} {record lines n array : Nat}
    (prepared : Prepared h m record lines n (n * 12)) (freshRecord : h.Fresh (record, 20))
    (freshLines : (h.hold (record, 20)).Fresh (lines, n * 12))
    (placed : Placed ((h.hold (record, 20)).hold (lines, n * 12)) array
      (word h.storage table) ((word h.storage (table + 4) + 1) * 20)) :
    Outcome.Sound (fun r => Holds table r.2 ∧ Created table h r.2 lines n)
      (keAddIrqRange debug table ⟨m, (lines, n * 12) :: (record, 20) :: h.live⟩ record array) := by
  have saneRecord : Heap.Sane ⟨m, (record, 20) :: h.live⟩ := (holds.sane.hold freshRecord).write m
  have saneLines : Heap.Sane ⟨m, (lines, n * 12) :: (record, 20) :: h.live⟩ :=
    ((holds.sane.hold freshRecord).hold freshLines).write m
  have live : ∀ x ∈ h.live, x ∈ (lines, n * 12) :: (record, 20) :: h.live :=
    fun x hx => List.mem_cons_of_mem _ (List.mem_cons_of_mem _ hx)
  have holdsRecord : Holds table ⟨m, (record, 20) :: h.live⟩ :=
    holds.extend saneRecord (fun x hx => List.mem_cons_of_mem _ hx) prepared.kept
  have holdsLines : Holds table ⟨m, (lines, n * 12) :: (record, 20) :: h.live⟩ :=
    holds.extend saneLines live prepared.kept
  have tabledLines := holdsLines.tabled
  obtain ⟨-, same, lineKept⟩ := holds.tabled.extend saneLines live prepared.kept
  have spare : Spare table ⟨m, (lines, n * 12) :: (record, 20) :: h.live⟩ lines n :=
    holdsRecord.spare freshLines prepared.clear
  have pointer : word m table = word h.storage table := same.pointer
  have count : word m (table + 4) = word h.storage (table + 4) := same.count
  have recordHeld : (record, 20) ∈ (lines, n * 12) :: (record, 20) :: h.live :=
    List.mem_cons_of_mem _ List.mem_cons_self
  have recordTable : record ≠ table := (freshRecord.start_ne holds.tableHeld holds.sane).symm
  have apart := saneLines.apart_of_start recordHeld holdsLines.tableHeld recordTable
  have block : word m table = 0 ∨
      ∃ room, (word m table, room) ∈ (lines, n * 12) :: (record, 20) :: h.live :=
    holdsLines.ranges.imp And.left fun inUse => ⟨_, inUse.1⟩
  have placed' : Placed ⟨m, (lines, n * 12) :: (record, 20) :: h.live⟩ array (word m table)
      ((word m (table + 4) + 1) * 20) := by
    rw [pointer, count]
    exact placed.of_live rfl
  refine (appendCopy_sound debug saneLines (show 0 < 20 by decide) rfl rfl block
    ⟨_, holdsLines.tableHeld, Nat.le_refl _, Nat.le_refl _⟩
    ⟨_, recordHeld, Nat.le_refl _, Nat.le_refl _⟩ (by
      simp only [Heap.Apart] at apart
      omega) placed').mono ?_
  rintro ⟨_, h'⟩ ⟨-, extended⟩
  have created := tabledLines.created spare extended
    ((word_congr fun i hi => extended.row i (by omega)).trans prepared.pointer)
    ((word_congr fun i hi => by
      have copied := extended.row (4 + i) (by omega)
      simpa only [Nat.add_assoc] using copied).trans prepared.count)
  exact ⟨holdsLines.added spare created (tabledLines.added spare extended created),
    created.of_same same lineKept live⟩

theorem keCreateIrqRange_created (holds : Holds table h) {answers : Answers}
    {start nLines alloc free : UInt32} (few : nLines.toNat * 12 < 4294967296)
    (supplied : SuppliedRange table h answers nLines) :
    Outcome.Sound (fun r => Holds table r.2 ∧ Created table h r.2 answers.lines nLines.toNat)
      (keCreateIrqRange debug table h answers start nLines alloc free) := by
  have size : u32 (nLines.toNat * 12) = nLines.toNat * 12 := u32_eq_self few
  unfold SuppliedRange at supplied
  rw [← size] at supplied
  refine keCreateIrqRange_sound supplied fun m prepared freshRecord freshLines placed => ?_
  rw [size] at prepared freshLines placed ⊢
  exact holds.add prepared freshRecord freshLines placed

theorem step_holds (holds : Holds table h) (op : Op) (clear : Clear debug table h op) :
    Outcome.Sound (Holds table) (step debug table h op) := by
  obtain ⟨nothing, supplied⟩ := clear
  cases op with
  | create answers start nLines alloc free =>
    rw [step]
    exact (keCreateIrqRange_created holds nothing supplied).bind fun _ kept => kept.1
  | allocate answers handler =>
    rw [step]
    exact (allocateFrom_holds holds (by omega) supplied).bind fun _ kept => kept
  | free irq =>
    rw [step]
    exact keFreeIrq_holds holds nothing

/-- A table without ranges is in order. -/
theorem cleared_holds (sane : h.Sane) (static : (table, 8) ∈ h.live)
    (cleared : word h.storage table = 0 ∧ word h.storage (table + 4) = 0) : Holds table h := by
  have none : ∀ r, ¬ r < word h.storage (table + 4) := fun r => by
    rw [cleared.2]
    exact Nat.not_lt_zero r
  exact ⟨⟨sane, static, Or.inl cleared, fun r hr => absurd hr (none r),
    fun r _ hr => absurd hr (none r)⟩, fun line ⟨r, hr, _⟩ => absurd hr (none r),
    fun line _ ⟨r, hr, _⟩ => absurd hr (none r)⟩

/-- Handlers stay owned by their lines in every run in which no call frees
handlers or goes past the lines of a range. -/
theorem handlers_owned {h : Heap} (sane : h.Sane) (static : (table, 8) ∈ h.live)
    (cleared : word h.storage table = 0 ∧ word h.storage (table + 4) = 0) (ops : List Op)
    (clear : Runs.Meets (step debug table) (Clear debug table) h ops) :
    Outcome.Sound (Owned table) (Runs.run (step debug table) h ops) := by
  have start := cleared_holds sane static cleared
  have keep : ∀ h op, Holds table h → Clear debug table h op →
      Outcome.Sound (Holds table) (step debug table h op) := fun h op holds ok =>
    step_holds holds op ok
  exact (Runs.run_sound keep start clear).mono fun h holds => holds.isOwned

end

/-- Cleared storage with `g_irq_table` at 100. -/
def booted : Heap := ⟨fun _ => 0, [(100, 8)]⟩

theorem booted_sane : booted.Sane := ⟨by decide, by decide⟩

/-- Two lines with the ids 16 and 17. -/
def createTwo : Op := .create ⟨3000, 2900, 2800⟩ 16 2 0x1234 0x5678

def allocateFirst : Op := .allocate [2700] 50

/-- The second line has no handlers when it is freed. -/
theorem free_without_handlers_owned :
    ∃ h, Runs.run (step false 100) booted
        [createTwo, allocateFirst, .allocate [2600] 50, .free 17] = .ok h ∧ Owned 100 h :=
  (handlers_owned booted_sane (by decide) (by decide)
    [createTwo, allocateFirst, .allocate [2600] 50, .free 17] (by decide +kernel)).returned
    (by decide +kernel)

/-- Freeing an id twice passes its handlers to `MmFree` twice. -/
theorem free_twice_faults :
    Runs.Meets (step false 100) (Supplied false 100) booted
        [createTwo, allocateFirst, .free 16, .free 16] ∧
      ¬ Outcome.Sound (Owned 100)
        (Runs.run (step false 100) booted [createTwo, allocateFirst, .free 16, .free 16]) := by
  refine ⟨by decide +kernel, fun owned => ?_⟩
  have noFault : Outcome.Sound (fun _ => True) (Runs.run (step false 100) booted
      [createTwo, allocateFirst, .free 16, .free 16]) := owned.mono fun _ _ => trivial
  exact absurd noFault (by decide +kernel)

end Irq
