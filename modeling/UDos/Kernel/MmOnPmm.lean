import UDos.Kernel.MmHeap
import UDos.Kernel.PmmRuns
import UDos.Library.Simulation

/-!
# The heap that the memory manager keeps

The functions of `mm.c` with the descriptors of `pmm.c` under them. The modules above
take the kernel's storage for a heap that hands out a fresh block wherever it likes.
That is what the two files together come to, as long as no release meets the end of a
block: every run of them is a run on such a heap, with the same results and the same
storage.
-/

namespace MmOnPmm

open KernelMemory Storage Heap Pmm

/-- The table of regions, and the bytes of storage. -/
structure System where
  regions : List PmmRegion
  storage : Storage

section
variable (env : Env)

def mmAllocate (s : System) (size : Nat) : Outcome (Nat × System) := do
  let (ptr, regions) ← mmAllocatePhysical env s.regions size 0
  .ok (ptr, { s with regions := regions })

def mmFree (s : System) (ptr : Nat) : Outcome System :=
  if ptr = 0 then .ok s
  else do
    let regions ← mmFreePhysical env s.regions ptr
    .ok { s with regions := regions }

def mmAllocateZero (s : System) (size : Nat) : Outcome (Nat × System) := do
  let (ptr, s) ← mmAllocate env s size
  Outcome.check (ptr ≠ 0) "Out of memory\r\n"
  .ok (ptr, { s with storage := s.storage.fill ptr 0 size })

def mmReallocate (s : System) (oldPtr size : Nat) : Outcome (Nat × System) :=
  if oldPtr = 0 then mmAllocate env s size
  else do
    let (ptr, s) ← mmAllocate env s size
    if ptr = 0 then .ok (0, s)
    else do
      let moved := (keMoveMemory s.storage ptr oldPtr size).2
      let s ← mmFree env { s with storage := moved } oldPtr
      .ok (ptr, s)

end

/-- A call of `mm.c`; the sizes of arrays are products of 32 bits. A caller may also
store something. -/
inductive Call where
  | allocate (size : UInt32)
  | allocateZero (size : UInt32)
  | reallocate (ptr : Nat) (size : UInt32)
  | free (ptr : Nat)
  | store (write : Storage → Storage)

/-- The pointer that a call returns, and what it leaves. -/
def call (env : Env) (s : System) : Call → Outcome (Nat × System)
  | .allocate size => mmAllocate env s size.toNat
  | .allocateZero size => mmAllocateZero env s size.toNat
  | .reallocate ptr size => mmReallocate env s ptr size.toNat
  | .free ptr => do
    let s ← mmFree env s ptr
    .ok (0, s)
  | .store write => .ok (0, { s with storage := write s.storage })

/-- The same call on a heap, with the block that it is to be answered with. -/
def heapCall (h : Heap) (answer : Nat) : Call → Outcome (Nat × Heap)
  | .allocate size => MmHeap.mmAllocate h answer size.toNat
  | .allocateZero size => MmHeap.mmAllocateZero h answer size.toNat
  | .reallocate ptr size => MmHeap.mmReallocate h answer ptr size.toNat
  | .free ptr => do
    let h ← MmHeap.mmFree h ptr
    .ok (0, h)
  | .store write => .ok (0, { h with storage := write h.storage })

/-- The blocks that the callers hold behind a call. -/
def held (blocks : List (Nat × Nat)) (ptr : Nat) : Call → List (Nat × Nat)
  | .allocate size | .allocateZero size =>
    if ptr = 0 then blocks else (ptr, size.toNat) :: blocks
  | .reallocate old size =>
    if ptr = 0 then blocks
    else (ptr, size.toNat) :: blocks.filter fun x => x.1 ≠ old
  | .free old => blocks.filter fun x => x.1 ≠ old
  | .store _ => blocks

/-- The system, the blocks that its callers hold, and the pointers returned so far. -/
structure Clients where
  system : System
  blocks : List (Nat × Nat)
  returned : List Nat

def step (env : Env) (c : Clients) (x : Call) : Outcome Clients := do
  let (ptr, s) ← call env c.system x
  .ok ⟨s, held c.blocks ptr x, c.returned ++ [ptr]⟩

def heapStep (c : Heap × List Nat) (x : Call × Nat) : Outcome (Heap × List Nat) := do
  let (ptr, h) ← heapCall c.1 x.2 x.1
  .ok (h, c.2 ++ [ptr])

/-- Callers release what they hold, and where they do neither a block nor the descriptor
table ends. A reallocation releases its old block when the new one is there. -/
def Clear (env : Env) (c : Clients) : Call → Prop
  | .free ptr => ptr = 0 ∨ (∃ x ∈ c.blocks, x.1 = ptr) ∧
      Apart ⟨c.system.regions, c.blocks⟩ (.free env ptr)
  | .reallocate old size => old = 0 ∨ (∃ x ∈ c.blocks, x.1 = old) ∧
      Outcome.After (fun done => done.1 ≠ 0 →
        Apart ⟨done.2, (done.1, size.toNat) :: c.blocks⟩ (.free env old))
        (mmAllocatePhysical env c.system.regions size.toNat 0)
  | _ => True

instance (env : Env) (c : Clients) (x : Call) : Decidable (Clear env c x) :=
  match x with
  | .free _ => inferInstanceAs (Decidable (_ ∨ _ ∧ _))
  | .reallocate _ _ => inferInstanceAs (Decidable (_ ∨ _ ∧ Outcome.After _ _))
  | .allocate _ | .allocateZero _ | .store _ => isTrue trivial

section
variable {base size : Nat} {regions : List PmmRegion} {blocks : List (Nat × Nat)}

/-- The blocks of the callers are those in use in the region, and none is empty. -/
structure Kept (base size : Nat) (regions : List PmmRegion) (blocks : List (Nat × Nat)) :
    Prop where
  tracked : Tracked base size ⟨regions, blocks⟩
  some : ∀ x ∈ blocks, 0 < x.2

theorem Kept.sane (kept : Kept base size regions blocks) (low : base + size ≤ 2147483648)
    (m : Storage) : Sane ⟨m, blocks⟩ := by
  have separated := kept.tracked.separated
  obtain ⟨r, others, tail, same, alone, rfl, rfl, -⟩ := kept.tracked
  obtain ⟨q, rest, same', base, -, -, inside⟩ := separated.region
  obtain ⟨rfl, -⟩ := List.cons.inj (same.symm.trans same')
  have table := alone.wellFormed.tablePositive
  refine ⟨separated.disjoint, fun x hx => ?_⟩
  have range := inside x hx
  have positive := kept.some x hx
  simp only [sizeofPmmBlock] at table
  simp only [Proper]
  omega

theorem erase_eq_filter (starts : blocks.Pairwise fun x y => x.1 ≠ y.1) (ptr : Nat) :
    (blocks.eraseP fun x => x.1 = ptr) = blocks.filter fun x => x.1 ≠ ptr := by
  induction blocks with
  | nil => rfl
  | cons x rest ih =>
    obtain ⟨differ, later⟩ := List.pairwise_cons.mp starts
    by_cases same : x.1 = ptr
    · have others : ∀ y ∈ rest, decide (y.1 ≠ ptr) = true := fun y hy => by
        simpa [same] using (differ y hy).symm
      rw [List.eraseP_cons_of_pos (by simpa using same),
        List.filter_cons_of_neg (by simpa using same), List.filter_eq_self.mpr others]
    · rw [List.eraseP_cons_of_neg (by simpa using same),
        List.filter_cons_of_pos (by simpa using same), ih later]

theorem Kept.starts (kept : Kept base size regions blocks) :
    blocks.Pairwise fun x y => x.1 ≠ y.1 := by
  refine kept.tracked.separated.disjoint.imp_of_mem fun {x y} hx hy apart same => ?_
  have first := kept.some x hx
  have second := kept.some y hy
  omega

theorem sound_of_map {α β : Type} {x : Outcome α} {f : α → β} {good : β → Prop}
    (sound : Outcome.Sound good (x >>= fun a => .ok (f a))) :
    Outcome.Sound (fun a => good (f a)) x := by
  cases x with
  | ok a => exact sound
  | panic message => trivial
  | fault => exact sound
  | diverge => exact sound

theorem Kept.allocate (kept : Kept base size regions blocks) (env : Env) (n : UInt32) :
    Outcome.Sound (fun done => n.toNat ≠ 0 ∧ Kept base size done.2
      (if done.1 = 0 then blocks else (done.1, n.toNat) :: blocks))
      (mmAllocatePhysical env regions n.toNat 0) := by
  by_cases empty : n.toNat = 0
  · rw [mmAllocatePhysical, Outcome.check, if_neg (by omega)]
    trivial
  have positive : n ≠ 0 := fun zero => empty (by rw [zero]; rfl)
  have stepped := step_tracked ⟨regions, blocks⟩ (.allocate env n) kept.tracked ⟨positive, trivial⟩
  refine (sound_of_map stepped).mono fun done tracked => ⟨empty, tracked, fun x hx => ?_⟩
  by_cases null : done.1 = 0
  · rw [if_pos null] at hx
    exact kept.some x hx
  · rw [if_neg null] at hx
    rcases List.mem_cons.mp hx with rfl | old
    · exact Nat.pos_of_ne_zero empty
    · exact kept.some x old

theorem Kept.free (kept : Kept base size regions blocks) (env : Env) {ptr : Nat}
    (inUse : ∃ x ∈ blocks, x.1 = ptr) (apart : Apart ⟨regions, blocks⟩ (.free env ptr)) :
    Outcome.Sound (fun after => Kept base size after (blocks.filter fun x => x.1 ≠ ptr))
      (mmFreePhysical env regions ptr) := by
  have stepped := step_tracked ⟨regions, blocks⟩ (.free env ptr) kept.tracked ⟨inUse, apart⟩
  refine (sound_of_map stepped).mono fun after tracked => ?_
  rw [erase_eq_filter kept.starts] at tracked
  exact ⟨tracked, fun x hx => kept.some x (List.mem_of_mem_filter hx)⟩

theorem Kept.filter_null (kept : Kept base size regions blocks) (low : base + size ≤ 2147483648) :
    (blocks.filter fun x => x.1 ≠ 0) = blocks := by
  apply List.filter_eq_self.mpr
  intro x hx
  have proper := ((kept.sane low fun _ => 0).proper x hx).1
  exact decide_eq_true (Nat.ne_of_gt proper)

end

/-- The allocator answers with NULL or with a block that nobody holds. -/
def Answered (c : Heap × List Nat) (x : Call × Nat) : Prop :=
  match x.1 with
  | .allocate size | .allocateZero size | .reallocate _ size =>
    x.2 = 0 ∨ c.1.Fresh (x.2, size.toNat)
  | .free _ | .store _ => True

section
variable {base size : Nat} {regions : List PmmRegion} {blocks : List (Nat × Nat)}

theorem Kept.newest_fresh {ptr n : Nat} (kept : Kept base size regions ((ptr, n) :: blocks))
    (low : base + size ≤ 2147483648) (m : Storage) : Fresh ⟨m, blocks⟩ (ptr, n) := by
  have sane := kept.sane low m
  constructor
  · exact sane.proper _ List.mem_cons_self
  · exact (List.pairwise_cons.mp sane.apart).1

theorem Kept.fresh {ptr n : Nat}
    (kept : Kept base size regions (if ptr = 0 then blocks else (ptr, n) :: blocks))
    (low : base + size ≤ 2147483648) (m : Storage) :
    ptr = 0 ∨ Fresh ⟨m, blocks⟩ (ptr, n) := by
  by_cases null : ptr = 0
  · exact Or.inl null
  · rw [if_neg null] at kept
    exact Or.inr (kept.newest_fresh low m)

theorem mmReallocate_of (env : Env) {s : System} {old n ptr : Nat} {regions : List PmmRegion}
    {m : Storage} (ran : mmAllocate env s n = .ok (ptr, ⟨regions, m⟩)) (notNull : old ≠ 0) :
    mmReallocate env s old n =
      if ptr = 0 then .ok (0, ⟨regions, m⟩)
      else mmFree env ⟨regions, (keMoveMemory m ptr old n).2⟩ old >>= fun s => .ok (ptr, s) := by
  rw [mmReallocate, if_neg notNull, ran, Outcome.ok_bind]

theorem heap_allocates {n : Nat} (some : n ≠ 0) (m : Storage) (ptr : Nat) :
    MmHeap.mmAllocate ⟨m, blocks⟩ ptr n =
      .ok (ptr, ⟨m, if ptr = 0 then blocks else (ptr, n) :: blocks⟩) := by
  rw [MmHeap.mmAllocate, MmHeap.mmAllocatePhysical, Outcome.check_of some]
  by_cases null : ptr = 0
  · simp only [Outcome.ok_bind, if_pos null]
  · simp only [Outcome.ok_bind, if_neg null, hold]

/-- What a call and its answer have in common with the same call on the heap. -/
def Matched (base size : Nat) (s : System) (blocks : List (Nat × Nat)) (x : Call)
    (done : Nat × System) : Prop :=
  ∃ answer, Answered (⟨s.storage, blocks⟩, []) (x, answer) ∧
    heapCall ⟨s.storage, blocks⟩ answer x = .ok (done.1, ⟨done.2.storage, held blocks done.1 x⟩) ∧
    Kept base size done.2.regions (held blocks done.1 x)

variable {s : System} (env : Env)

theorem freed_kept {ptr : Nat} (kept : Kept base size s.regions blocks) (notNull : ptr ≠ 0)
    (inUse : ∃ x ∈ blocks, x.1 = ptr) (apart : Apart ⟨s.regions, blocks⟩ (.free env ptr)) :
    Outcome.Sound (fun after => after.storage = s.storage ∧
      Kept base size after.regions (blocks.filter fun x => x.1 ≠ ptr)) (mmFree env s ptr) := by
  rw [mmFree, if_neg notNull]
  refine (kept.free env inUse apart).bind ?_
  intro after next
  exact ⟨rfl, next⟩

theorem reallocate_null_matched {old : Nat} {n : UInt32} {after : List PmmRegion}
    (notNull : old ≠ 0) (some : n.toNat ≠ 0) (next : Kept base size after blocks)
    (ran : mmAllocate env s n.toNat = .ok (0, ⟨after, s.storage⟩)) :
    Outcome.Sound (Matched base size s blocks (.reallocate old n))
      (call env s (.reallocate old n)) := by
  rw [call, mmReallocate_of env ran notNull, if_pos rfl]
  refine ⟨0, Or.inl rfl, ?_, next⟩
  rw [heapCall, MmHeap.mmReallocate, heap_allocates some, Outcome.ok_bind]
  simp only [Mm.mmReallocate, if_neg notNull, if_true, MmHeap.mmFree, Outcome.ok_bind, held]

/-- A reallocation moves the block and releases the old one. -/
theorem reallocate_moves_matched {start k ptr : Nat} {n : UInt32} {after : List PmmRegion}
    (low : base + size ≤ 2147483648) (notNull : start ≠ 0) (some : n.toNat ≠ 0)
    (placed : ptr ≠ 0) (member : (start, k) ∈ blocks)
    (next : Kept base size after ((ptr, n.toNat) :: blocks))
    (ran : mmAllocate env s n.toNat = .ok (ptr, ⟨after, s.storage⟩))
    (apart : Apart ⟨after, (ptr, n.toNat) :: blocks⟩ (.free env start)) :
    Outcome.Sound (Matched base size s blocks (.reallocate start n))
      (call env s (.reallocate start n)) := by
  have fresh := next.newest_fresh low s.storage
  have other : ptr ≠ start := fun same => (List.pairwise_cons.mp next.starts).1 _ member same
  have keeps : ((ptr, n.toNat) :: blocks).filter (fun x => decide (x.1 ≠ start)) =
      (ptr, n.toNat) :: blocks.filter fun x => decide (x.1 ≠ start) :=
    List.filter_cons_of_pos (decide_eq_true other)
  have left : held blocks ptr (.reallocate start n) =
      ((ptr, n.toNat) :: blocks).filter fun x => decide (x.1 ≠ start) := by
    rw [keeps, held, if_neg placed]
  rw [call, mmReallocate_of env ran notNull, if_neg placed]
  generalize moved : keMoveMemory s.storage ptr start n.toNat = result
  obtain ⟨_, m⟩ := result
  have kept' : Kept base size (System.regions ⟨after, m⟩) ((ptr, n.toNat) :: blocks) := next
  refine (freed_kept env kept' notNull ⟨_, List.mem_cons_of_mem _ member, rfl⟩ apart).bind ?_
  rintro ⟨regions, m⟩ ⟨rfl, last⟩
  refine ⟨ptr, Or.inr fresh, ?_, left ▸ last⟩
  rw [left, heapCall]
  exact MmHeap.mmReallocate_eq member notNull placed (Nat.pos_of_ne_zero some) (by rw [moved])

variable (kept : Kept base size s.regions blocks) (low : base + size ≤ 2147483648)

include kept

theorem allocated_kept (n : UInt32) :
    Outcome.Sound (fun done => n.toNat ≠ 0 ∧ done.2.storage = s.storage ∧
      Kept base size done.2.regions
        (if done.1 = 0 then blocks else (done.1, n.toNat) :: blocks))
      (mmAllocate env s n.toNat) := by
  refine (kept.allocate env n).bind ?_
  rintro ⟨ptr, after⟩ ⟨some, next⟩
  exact ⟨some, rfl, next⟩

include low

theorem allocate_matched (n : UInt32) :
    Outcome.Sound (Matched base size s blocks (.allocate n)) (call env s (.allocate n)) := by
  refine (allocated_kept env kept n).mono ?_
  rintro ⟨ptr, after, m⟩ ⟨some, rfl, next⟩
  refine ⟨ptr, next.fresh low s.storage, ?_, next⟩
  rw [heapCall, heap_allocates some]
  rfl

theorem allocateZero_matched (n : UInt32) :
    Outcome.Sound (Matched base size s blocks (.allocateZero n))
      (call env s (.allocateZero n)) := by
  refine (allocated_kept env kept n).bind ?_
  rintro ⟨ptr, after, m⟩ ⟨some, rfl, next⟩
  refine (Outcome.sound_check _).bind fun _ notNull => ?_
  refine ⟨ptr, next.fresh low s.storage, ?_, next⟩
  rw [heapCall, MmHeap.mmAllocateZero, heap_allocates some]
  simp only [Outcome.ok_bind, Outcome.check_of notNull, held]

theorem reallocate_first_matched (n : UInt32) :
    Outcome.Sound (Matched base size s blocks (.reallocate 0 n))
      (call env s (.reallocate 0 n)) := by
  rw [call, mmReallocate, if_pos rfl]
  refine (allocated_kept env kept n).mono ?_
  rintro ⟨ptr, after, m⟩ ⟨some, rfl, next⟩
  have left : held blocks ptr (.reallocate 0 n) =
      if ptr = 0 then blocks else (ptr, n.toNat) :: blocks := by
    rw [held, kept.filter_null low]
  refine ⟨ptr, next.fresh low s.storage, ?_, left ▸ next⟩
  rw [heapCall, MmHeap.mmReallocate, heap_allocates some, left]
  simp only [Outcome.ok_bind, Mm.mmReallocate, if_true, MmHeap.mmFree]

theorem reallocate_matched {old : Nat} {n : UInt32} {returned : List Nat} (notNull : old ≠ 0)
    (clear : Clear env ⟨s, blocks, returned⟩ (.reallocate old n)) :
    Outcome.Sound (Matched base size s blocks (.reallocate old n))
      (call env s (.reallocate old n)) := by
  obtain ⟨⟨⟨start, k⟩, member, rfl⟩, apart⟩ := clear.resolve_left notNull
  have found := allocated_kept env kept n
  cases ran : mmAllocate env s n.toNat with
  | ok done =>
    obtain ⟨ptr, after, m⟩ := done
    rw [ran] at found
    obtain ⟨some, rfl, next⟩ := found
    obtain ⟨⟨p, regions⟩, searched, same⟩ := Outcome.bind_eq_ok.mp ran
    cases same
    by_cases null : ptr = 0
    · subst null
      exact reallocate_null_matched env notNull some next ran
    · have next' : Kept base size after ((ptr, n.toNat) :: blocks) := by
        simpa only [if_neg null] using next
      exact reallocate_moves_matched env low notNull some null member next' ran
        (apart (ptr, after) searched null)
  | panic message =>
    rw [call, mmReallocate, if_neg notNull, ran]
    trivial
  | fault =>
    rw [ran] at found
    exact found.elim
  | diverge =>
    rw [ran] at found
    exact found.elim

theorem free_matched {ptr : Nat} {returned : List Nat}
    (clear : Clear env ⟨s, blocks, returned⟩ (.free ptr)) :
    Outcome.Sound (Matched base size s blocks (.free ptr)) (call env s (.free ptr)) := by
  by_cases null : ptr = 0
  · subst null
    have all := kept.filter_null low
    refine ⟨0, trivial, ?_, ?_⟩
    · simp only [heapCall, MmHeap.mmFree, if_true, Outcome.ok_bind, held, all]
    · rw [held, all]
      exact kept
  · obtain ⟨inUse, apart⟩ := clear.resolve_left null
    refine (freed_kept env kept null inUse apart).bind ?_
    rintro ⟨regions, m⟩ ⟨rfl, next⟩
    obtain ⟨⟨start, k⟩, member, rfl⟩ := inUse
    refine ⟨0, trivial, ?_, next⟩
    rw [heapCall, MmHeap.mmFree_of_mem (kept.sane low s.storage) member]
    rfl

theorem call_matched {returned : List Nat} (x : Call) (clear : Clear env ⟨s, blocks, returned⟩ x) :
    Outcome.Sound (Matched base size s blocks x) (call env s x) := by
  cases x with
  | allocate n => exact allocate_matched env kept low n
  | allocateZero n => exact allocateZero_matched env kept low n
  | reallocate old n =>
    by_cases null : old = 0
    · subst null
      exact reallocate_first_matched env kept low n
    · exact reallocate_matched env kept low null clear
  | free ptr => exact free_matched env kept low clear
  | store write => exact ⟨0, trivial, rfl, kept⟩

end

/-- The callers of one system are those of the other, with the same results. -/
def Same (base size : Nat) (c : Clients) (d : Heap × List Nat) : Prop :=
  Kept base size c.system.regions c.blocks ∧
    d = (⟨c.system.storage, c.blocks⟩, c.returned)

theorem step_simulated {base size : Nat} {env : Env} (low : base + size ≤ 2147483648)
    (c : Clients) (d : Heap × List Nat) (x : Call) (same : Same base size c d)
    (clear : Clear env c x) :
    Outcome.Sound (fun c' => ∃ y d', x = y.1 ∧ Answered d y ∧ heapStep d y = .ok d' ∧
      Same base size c' d') (step env c x) := by
  obtain ⟨kept, rfl⟩ := same
  refine (call_matched env kept low x clear).bind ?_
  rintro ⟨ptr, after⟩ ⟨answer, answered, ran, next⟩
  refine ⟨(x, answer), _, rfl, answered, ?_, next, rfl⟩
  rw [heapStep, ran]
  rfl

/-- The heap that the memory manager keeps in a region is one that hands out fresh
blocks: every run in which no release meets the end of a block is a run on it, with the
same pointers returned and the same storage. -/
theorem run_refines {env : Env} {base size : Nat} {table : Nat → PmmBlock}
    {regions : List PmmRegion} (large : 2048 ≤ size) (low : base + size ≤ 2147483648)
    (created : mmCreateRegion env base size table noRegions = .ok regions) (m : Storage)
    (calls : List Call) (clear : Runs.Meets (step env) (Clear env) ⟨⟨regions, m⟩, [], []⟩ calls) :
    Outcome.Sound (fun c => ∃ answered : List (Call × Nat), answered.map Prod.fst = calls ∧
      Runs.Meets heapStep Answered (⟨m, []⟩, []) answered ∧
      Runs.run heapStep (⟨m, []⟩, []) answered =
        .ok (⟨c.system.storage, c.blocks⟩, c.returned) ∧
      Sane ⟨c.system.storage, c.blocks⟩)
      (Runs.run (step env) ⟨⟨regions, m⟩, [], []⟩ calls) := by
  have start : Same base size ⟨⟨regions, m⟩, [], []⟩ (⟨m, []⟩, []) :=
    ⟨⟨mmCreateRegion_tracked large (by omega) created, List.forall_mem_nil _⟩, rfl⟩
  refine (Runs.run_simulated (step_simulated low) start clear).mono ?_
  rintro c ⟨answered, d, paired, allowed, ran, kept, rfl⟩
  refine ⟨answered, ?_, allowed, ran, kept.sane low _⟩
  have equal : List.Forall₂ Eq calls (answered.map Prod.fst) :=
    List.forall₂_map_right_iff.mpr paired
  rw [List.forall₂_eq_eq_eq] at equal
  exact equal.symm

/-- Two blocks, the lower of which is released and replaced by a smaller one. -/
def twoBlocks : List Call :=
  [.allocate 16, .allocateZero 16, .store fun m => m.setWord 6128 7, .free 6112,
    .reallocate 0 8]

theorem twoBlocks_refines : Outcome.Sound (fun c => ∃ answered : List (Call × Nat),
    answered.map Prod.fst = twoBlocks ∧
    Runs.Meets heapStep Answered (⟨fun _ => 0, []⟩, []) answered ∧
    Runs.run heapStep (⟨fun _ => 0, []⟩, []) answered =
      .ok (⟨c.system.storage, c.blocks⟩, c.returned) ∧
    Sane ⟨c.system.storage, c.blocks⟩)
    (Runs.run (step quiet) ⟨⟨smallTable.regions, fun _ => 0⟩, [], []⟩ twoBlocks) :=
  run_refines (by decide) (by decide) smallTable_created _ _ (by decide +kernel)

/-- A new block right below the old one ends where that one starts. -/
example : ¬ Runs.Meets (step quiet) (Clear quiet) ⟨⟨smallTable.regions, fun _ => 0⟩, [], []⟩
    [.allocate 16, .reallocate 6128 32] := by
  decide +kernel

end MmOnPmm
