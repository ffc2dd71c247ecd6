import UDos.Kernel.PmmCoalesce

/-!
# What the allocator finds in a new region

`MmCreateRegion` writes two descriptors into a table whose length it takes from
the size of the region. Below 2048 bytes the table has room for one.
-/

namespace Pmm

open KernelMemory

/-- The free block of a new region when `MmAllocatePhysical` creates a block: it
may have cut the free block, and marked it. -/
def cutFirst (r : PmmRegion) (left : Nat) (flags : UInt8) : PmmRegion :=
  r.setBlock 1 { r.heap 1 with size := left, flags := flags }

/-- The table is inside of the region and holds both descriptors, the size behind
it does not wrap, and the next block is in the table and not block 1. -/
structure Established (r : PmmRegion) : Prop where
  inRegion : (r.heap 0).size ≤ r.size
  holdsBoth : 2 * sizeofPmmBlock ≤ (r.heap 0).size
  noWrap : (r.heap 0).size + (r.heap 1).size = r.size
  next : ∀ left flags, left ≤ (r.heap 1).size → (flags = blockFree ∨ flags = blockUsed) →
    ∀ n blockFlags next j q, mmCreateBlock (cutFirst r left flags) n blockFlags next = .ok (j, q) →
      j ≠ 1 ∧ j < (q.heap 0).size / sizeofPmmBlock

section
variable {env : Env} {base size left : Nat} {flags : UInt8} {storage : Nat → PmmBlock}
  {r : PmmRegion}

theorem createIn_table (bounded : size < 4294967296)
    (made : createIn env base size storage = .ok r) :
    (r.heap 0).size = (size / 2048 + 1) * 12 := by
  obtain ⟨_, _, built⟩ := Outcome.bind_eq_ok.mp made
  cases built
  exact u32_eq_self (by simp only [sizeofPmmBlock]; omega)

theorem WellFormed.cutFirst (wf : WellFormed r [1] 0) (less : left ≤ (r.heap 1).size)
    (marked : flags = blockFree ∨ flags = blockUsed) :
    WellFormed (cutFirst r left flags) [1] ((r.heap 1).size - left) := by
  have cut : left + ((r.heap 1).size - left) = (r.heap 1).size + 0 := by omega
  exact @WellFormed.setBlock r [] [] 1 0 wf { r.heap 1 with size := left, flags := flags } rfl
    marked _ cut

theorem WellFormed.next_slot (wf : WellFormed r [1] 0) (less : left ≤ (r.heap 1).size)
    (marked : flags = blockFree ∨ flags = blockUsed) {n j : Nat} {blockFlags : UInt8}
    {next : Option Nat} {q : PmmRegion}
    (created : mmCreateBlock (Pmm.cutFirst r left flags) n blockFlags next = .ok (j, q)) :
    j ≠ 1 ∧ j < (q.heap 0).size / sizeofPmmBlock := by
  have sound := mmCreateBlock_sound (wf.cutFirst less marked) n blockFlags next
  rw [created] at sound
  have new : Created _ q [1] j n blockFlags next _ := sound
  refine ⟨fun same => new.new ?_, new.inTable⟩
  rw [same]
  exact List.mem_cons_of_mem 0 (List.mem_singleton.mpr rfl)

theorem established_of_large (large : 2048 ≤ size) (bounded : size < 4294967296)
    (room : base + size ≤ 4294967296) (made : createIn env base size storage = .ok r) :
    Established r := by
  have table := createIn_table bounded made
  obtain ⟨wf, _, rfl, rfl⟩ := createIn_fresh large (by omega) bounded made
  have total := wf.total
  have whole : (r.heap 0).size + (r.heap 1).size = r.size := by
    rwa [pieces_cons, Extents.width_cons, piece] at total
  refine ⟨by omega, ?_, whole, ?_⟩
  · rw [table, sizeofPmmBlock]
    omega
  · intro left flags less marked n blockFlags next j q created
    exact wf.next_slot less marked created

theorem not_established_of_small (small : size < 2048)
    (made : createIn env base size storage = .ok r) : ¬ Established r := by
  intro established
  have table := createIn_table (by omega) made
  have two := established.holdsBoth
  rw [table, sizeofPmmBlock] at two
  omega

end

/-- A region that `MmCreateRegion` returns is as the allocator needs it exactly
when it has 2048 bytes or more. -/
theorem mmCreateRegion_establishes_iff {env : Env} {base size : Nat} {storage : Nat → PmmBlock}
    {before regions : List PmmRegion} (bounded : size < 4294967296)
    (room : base + size ≤ 4294967296)
    (created : mmCreateRegion env base size storage before = .ok regions) :
    ∃ front old r back, before = front ++ old :: back ∧ regions = front ++ r :: back ∧
      r.base = base ∧ r.size = size ∧ (Established r ↔ 2048 ≤ size) := by
  obtain ⟨front, old, r, back, was, now, made⟩ := mmCreateRegion_place created
  have fields : r.base = base ∧ r.size = size := by
    obtain ⟨_, _, built⟩ := Outcome.bind_eq_ok.mp made
    cases built
    exact ⟨rfl, rfl⟩
  refine ⟨front, old, r, back, was, now, fields.1, fields.2, ?_, ?_⟩
  · intro established
    by_contra small
    exact not_established_of_small (Nat.lt_of_not_le small) made established
  · intro large
    exact established_of_large large bounded room made

theorem smallTable_established : ∃ r ∈ smallTable.regions, r.size = 2048 ∧ Established r := by
  obtain ⟨front, _, r, back, _, now, _, size, exact⟩ :=
    mmCreateRegion_establishes_iff (by decide) (by decide) smallTable_created
  refine ⟨r, ?_, size, exact.mpr (Nat.le_refl 2048)⟩
  rw [now]
  exact List.mem_append_right front List.mem_cons_self

/-- The table of a region of 1024 bytes has room for one descriptor. -/
def tinyRegion : PmmRegion :=
  match createIn quiet 4096 1024 fun _ => zeroBlock with
  | .ok r => r
  | _ => ⟨0, 0, regionNotPresent, fun _ => zeroBlock⟩

theorem tinyRegion_made : createIn quiet 4096 1024 (fun _ => zeroBlock) = .ok tinyRegion := rfl

/-- The next block takes the descriptor of the free block. -/
theorem tinyRegion_overwritten : ¬ Established tinyRegion ∧
    ∃ q, mmCreateBlock tinyRegion 100 blockUsed none = .ok (1, q) :=
  ⟨not_established_of_small (by decide) tinyRegion_made, _, rfl⟩

end Pmm
