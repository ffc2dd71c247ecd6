import UDos.Kernel.IrqHandlers
import UDos.Kernel.RegistryDestroy

/-!
# Destroying IRQ ranges

`KeDestroyIrqRange` returns the lines and the record of a range to the
allocator. The record is an element of the array of ranges, which stays as long
as it was.
-/

namespace IrqDestroy

open KernelMemory MmHeap Storage Irq IrqHandlers
open Pmm (Env PmmRegion)
open RegistryDestroy (Memory InUse mmFree mmFree_storage)

def keDestroyIrqRange (env : Env) (s : Memory) (range : Nat) : Outcome Memory := do
  let s ← mmFree env s (word s.storage range)
  mmFree env s range

structure Creation where
  answers : Answers
  start : UInt32
  nLines : UInt32
  alloc : UInt32
  free : UInt32

/-- The heap and the pointers that the calls returned. -/
structure State where
  heap : Heap
  pointers : List Nat

def create (debug : Bool) (table : Nat) (s : State) (c : Creation) : Outcome State := do
  let (range, heap) ← keCreateIrqRange debug table s.heap c.answers c.start c.nLines c.alloc c.free
  .ok ⟨heap, s.pointers ++ [range]⟩

/-- The answers are NULL or fresh blocks, and the array of ranges is placed
below the one it replaces. The size of the lines wraps. -/
def Supplied (table : Nat) (s : State) (c : Creation) : Prop :=
  c.answers.record = 0 ∨ s.heap.Fresh (c.answers.record, 20) ∧
    (u32 (c.nLines.toNat * 12) = 0 ∨ c.answers.lines = 0 ∨
      (s.heap.hold (c.answers.record, 20)).Fresh (c.answers.lines, u32 (c.nLines.toNat * 12)) ∧
        Placed ((s.heap.hold (c.answers.record, 20)).hold
            (c.answers.lines, u32 (c.nLines.toNat * 12)))
          c.answers.array (word s.heap.storage table)
          ((word s.heap.storage (table + 4) + 1) * 20))

instance (table : Nat) (s : State) (c : Creation) : Decidable (Supplied table s c) :=
  inferInstanceAs (Decidable (_ ∨ _))

/-- A range with its lines. -/
structure RangeEntry where
  start : Nat
  alloc : Nat
  free : Nat
  lines : List LineEntry
deriving DecidableEq

def rangeEntry (m : Storage) (range : Nat) : RangeEntry :=
  ⟨word m (range + 8), word m (range + 12), word m (range + 16),
    (List.range (word m (range + 4))).map fun i => lineEntry m (lineAt m range i)⟩

def rangesOf (m : Storage) (table : Nat) : List RangeEntry :=
  (List.range (word m (table + 4))).map fun i => rangeEntry m (rangeAt m table i)

/-- Range i is gone from the table and the others are as they were, with their
records and lines in use, and no handler gets registered on its lines. -/
structure DestroysCleanly (table i : Nat) (before after : Memory) : Prop where
  others : rangesOf after.storage table = (rangesOf before.storage table).eraseIdx i
  inUse : ∀ r, r < word after.storage (table + 4) →
    InUse after.regions (rangeAt after.storage table r) 20 ∧
      InUse after.regions (word after.storage (rangeAt after.storage table r))
        (word after.storage (rangeAt after.storage table r + 4) * 12)
  later : ∀ debug live answers handler r,
    keAllocateIrq debug table ⟨after.storage, live⟩ answers handler = .ok r →
      ∀ x, x < word before.storage (rangeAt before.storage table i + 4) →
        lineEntry r.2.storage (lineAt before.storage (rangeAt before.storage table i) x) =
          lineEntry before.storage (lineAt before.storage (rangeAt before.storage table i) x)

section
variable {debug : Bool} {table i : Nat} {env : Env} {s t : Memory}

theorem destroy_storage {range : Nat} (destroyed : keDestroyIrqRange env s range = .ok t) :
    t.storage = s.storage := by
  obtain ⟨lines, freedLines, freed⟩ := Outcome.bind_eq_ok.mp destroyed
  exact (mmFree_storage freed).trans (mmFree_storage freedLines)

theorem destroy_keeps {range : Nat} (destroyed : keDestroyIrqRange env s range = .ok t) :
    rangesOf t.storage table = rangesOf s.storage table ∧
      firstShared t.storage table = firstShared s.storage table := by
  rw [destroy_storage destroyed]
  exact ⟨rfl, rfl⟩

/-- So a range of the table is not destroyed, for any pointer and any state of
the allocator. -/
theorem not_destroys (inTable : i < word s.storage (table + 4)) (range : Nat) :
    ¬ ∃ t, keDestroyIrqRange env s range = .ok t ∧ DestroysCleanly table i s t := by
  rintro ⟨t, destroyed, clean⟩
  have lengths := congrArg List.length clean.others
  have inList : i < (rangesOf s.storage table).length := by simpa [rangesOf] using inTable
  rw [(destroy_keeps destroyed).1, List.length_eraseIdx_of_lt inList] at lengths
  omega

/-- Every call has added a range to the table. -/
structure Counts (table : Nat) (s : State) : Prop where
  sane : s.heap.Sane
  tableHeld : (table, 8) ∈ s.heap.live
  array : word s.heap.storage table = 0 ∨
    ∃ room, (word s.heap.storage table, room) ∈ s.heap.live ∧ word s.heap.storage table ≠ table
  count : word s.heap.storage (table + 4) = s.pointers.length

/-- A prepared range is counted. -/
theorem Counts.add {s : State} (counts : Counts table s) {m : Storage}
    {record lines n size array : Nat} (prepared : Prepared s.heap m record lines n size)
    (freshRecord : s.heap.Fresh (record, 20))
    (freshLines : (s.heap.hold (record, 20)).Fresh (lines, size))
    (placed : Placed ((s.heap.hold (record, 20)).hold (lines, size)) array
      (word s.heap.storage table) ((word s.heap.storage (table + 4) + 1) * 20)) :
    Outcome.Sound (fun r => Counts table ⟨r.2, s.pointers ++ [r.1]⟩)
      (keAddIrqRange debug table ⟨m, (lines, size) :: (record, 20) :: s.heap.live⟩ record array) := by
  have sane : Heap.Sane ⟨m, (lines, size) :: (record, 20) :: s.heap.live⟩ :=
    ((counts.sane.hold freshRecord).hold freshLines).write m
  have live : ∀ x ∈ s.heap.live, x ∈ (lines, size) :: (record, 20) :: s.heap.live :=
    fun x hx => List.mem_cons_of_mem _ (List.mem_cons_of_mem _ hx)
  have kept : ∀ o, o + 4 ≤ 8 → word m (table + o) = word s.heap.storage (table + o) :=
    fun o ho => word_congr fun i hi =>
      prepared.kept _ ⟨_, counts.tableHeld, by simp only; omega, by simp only; omega⟩
  have pointer : word m table = word s.heap.storage table := kept 0 (by decide)
  have count : word m (table + 4) = word s.heap.storage (table + 4) := kept 4 (by decide)
  have recordHeld : (record, 20) ∈ (lines, size) :: (record, 20) :: s.heap.live :=
    List.mem_cons_of_mem _ List.mem_cons_self
  have tableHeld := live _ counts.tableHeld
  have recordTable : record ≠ table := (freshRecord.start_ne counts.tableHeld counts.sane).symm
  have apart := sane.apart_of_start recordHeld tableHeld recordTable
  simp only [Heap.Apart] at apart
  have block : word m table = 0 ∨
      ∃ room, (word m table, room) ∈ (lines, size) :: (record, 20) :: s.heap.live := by
    rw [pointer]
    refine counts.array.imp_right fun some => ?_
    obtain ⟨room, inUse, _⟩ := some
    exact ⟨room, live _ inUse⟩
  have placed' : Placed ⟨m, (lines, size) :: (record, 20) :: s.heap.live⟩ array (word m table)
      ((word m (table + 4) + 1) * 20) := by
    rw [pointer, count]
    exact placed.of_live rfl
  refine (appendCopy_sound debug sane (show 0 < 20 by decide) rfl rfl block
    ⟨_, tableHeld, Nat.le_refl _, Nat.le_refl _⟩ ⟨_, recordHeld, Nat.le_refl _, Nat.le_refl _⟩
    (by omega) placed').mono ?_
  rintro ⟨range, h'⟩ ⟨-, extended⟩
  have notTable : array ≠ table := fun same =>
    extended.fresh.start_ne tableHeld sane same.symm
  have inUse := (extended.live _).mpr (Or.inl rfl)
  have moved : word h'.storage table = array := extended.pointer
  refine ⟨extended.sane, ?_, Or.inr ?_, ?_⟩
  · refine extended.stays sane tableHeld fun some same => ?_
    obtain ⟨_, _, other⟩ := counts.array.resolve_left (by rw [← pointer]; exact some)
    exact other (pointer.symm.trans same)
  · simp only [moved]
    exact ⟨_, inUse, notTable⟩
  · rw [extended.count, count, counts.count, List.length_append, List.length_singleton]

theorem create_counts {s : State} (counts : Counts table s) (c : Creation)
    (supplied : Supplied table s c) : Outcome.Sound (Counts table) (create debug table s c) := by
  have added : Outcome.Sound (fun r => Counts table ⟨r.2, s.pointers ++ [r.1]⟩)
      (keCreateIrqRange debug table s.heap c.answers c.start c.nLines c.alloc c.free) := by
    refine keCreateIrqRange_sound supplied fun m prepared freshRecord freshLines placed => ?_
    exact counts.add prepared freshRecord freshLines placed
  exact added.bind fun r kept => kept

/-- In every run of creations, destroying a range through the pointer that its
creation returned does not remove it. -/
theorem keDestroyIrqRange_never_clean {h : Heap} {s : State} {calls : List Creation} {pointer : Nat}
    (sane : h.Sane) (static : (table, 8) ∈ h.live)
    (cleared : word h.storage table = 0 ∧ word h.storage (table + 4) = 0)
    (supplied : Runs.Meets (create debug table) (Supplied table) ⟨h, []⟩ calls)
    (ran : Runs.run (create debug table) ⟨h, []⟩ calls = .ok s)
    (made : s.pointers[i]? = some pointer) (regions : List PmmRegion) :
    ¬ ∃ t, keDestroyIrqRange env ⟨s.heap.storage, regions⟩ pointer = .ok t ∧
      DestroysCleanly table i ⟨s.heap.storage, regions⟩ t := by
  have start : Counts table ⟨h, []⟩ := ⟨sane, static, Or.inl cleared.1, cleared.2⟩
  have keep : ∀ s c, Counts table s → Supplied table s c →
      Outcome.Sound (Counts table) (create debug table s c) := fun _ c counts ok =>
    create_counts counts c ok
  have counts : Counts table s := (Runs.run_sound keep start supplied).after s ran
  refine not_destroys ?_ pointer
  rw [counts.count]
  exact (List.getElem?_eq_some_iff.mp made).1

end

/-- The regions of the allocator when it has handed out the record, the lines
and the array of one range. -/
def threeHanded : List PmmRegion :=
  let calls := [20, 24, 20].map (Pmm.Call.allocate Pmm.quiet)
  match Runs.run Pmm.step Pmm.smallTable calls with
  | .ok s => s.regions
  | _ => []

def createInRegion : Creation := ⟨⟨6124, 6100, 6080⟩, 16, 2, 0x1234, 0x5678⟩

/-- A range that is the only one of the table. -/
theorem only_range_never_clean :
    ∃ s, Runs.run (create false 100) ⟨booted, []⟩ [createInRegion] = .ok s ∧
      s.pointers = [6080] ∧
      ¬ ∃ t, keDestroyIrqRange Pmm.quiet ⟨s.heap.storage, threeHanded⟩ 6080 = .ok t ∧
        DestroysCleanly 100 0 ⟨s.heap.storage, threeHanded⟩ t := by
  have pointers : Outcome.Sound (fun s => s.pointers = [6080])
      (Runs.run (create false 100) ⟨booted, []⟩ [createInRegion]) := by decide +kernel
  obtain ⟨s, ran, made⟩ := pointers.returned (by decide +kernel)
  refine ⟨s, ran, made, keDestroyIrqRange_never_clean (i := 0) booted_sane (by decide) (by decide)
    (by decide +kernel) ran ?_ threeHanded⟩
  rw [made]
  rfl

/-- It is found in the table as before, in an array that is not in use any more. -/
theorem only_range_released :
    ∃ s t, Runs.run (create false 100) ⟨booted, []⟩ [createInRegion] = .ok s ∧
      keDestroyIrqRange Pmm.quiet ⟨s.heap.storage, threeHanded⟩ 6080 = .ok t ∧
      rangesOf t.storage 100 = [⟨16, 0x1234, 0x5678, [⟨0, []⟩, ⟨0, []⟩]⟩] ∧
      rangeAt t.storage 100 0 = 6080 ∧ ¬ InUse t.regions 6080 20 ∧
      ¬ DestroysCleanly 100 0 ⟨s.heap.storage, threeHanded⟩ t := by
  have facts : Outcome.Sound (fun s =>
        rangesOf s.heap.storage 100 = [⟨16, 0x1234, 0x5678, [⟨0, []⟩, ⟨0, []⟩]⟩] ∧
        rangeAt s.heap.storage 100 0 = 6080 ∧ word s.heap.storage (100 + 4) = 1 ∧
        (keDestroyIrqRange Pmm.quiet ⟨s.heap.storage, threeHanded⟩ 6080).returns = true ∧
        Outcome.Sound (fun t => ¬ InUse t.regions 6080 20)
          (keDestroyIrqRange Pmm.quiet ⟨s.heap.storage, threeHanded⟩ 6080))
      (Runs.run (create false 100) ⟨booted, []⟩ [createInRegion]) := by decide +kernel
  obtain ⟨s, ran, ranges, array, count, returns, released⟩ := facts.returned (by decide +kernel)
  obtain ⟨t, destroyed⟩ := Outcome.returns_iff.mp returns
  have same : t.storage = s.heap.storage := destroy_storage destroyed
  rw [← same] at ranges array
  have inTable : 0 < word s.heap.storage (100 + 4) := by
    rw [count]
    decide
  have stays : ¬ DestroysCleanly 100 0 ⟨s.heap.storage, threeHanded⟩ t := fun clean =>
    @not_destroys 100 0 Pmm.quiet ⟨s.heap.storage, threeHanded⟩ inTable 6080 ⟨t, destroyed, clean⟩
  exact ⟨s, t, ran, destroyed, ranges, array, released.after t destroyed, stays⟩

end IrqDestroy
