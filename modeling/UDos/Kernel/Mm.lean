import UDos.Kernel.Memory
import UDos.Library.Words

/-!
# Allocation of cleared blocks and reallocation

`MmAllocateZero` and `MmReallocate` of `mm.c` on byte storage. The block that `MmAllocate` returns
is an argument, 0 for NULL, so that statements can range over every placement;
the block passed to `MmFree` is part of the result.
-/

namespace Mm

open KernelMemory

def mmAllocateZero (m : Storage) (allocated size : Nat) : Outcome (Nat × Storage) := do
  Outcome.check (allocated ≠ 0) "Out of memory\r\n"
  .ok (allocated, m.fill allocated 0 size)

/-- The result of `MmReallocate`; `freed` is 0 when nothing is passed to `MmFree`. -/
structure Reallocated where
  ptr : Nat
  freed : Nat
  storage : Storage

def mmReallocate (m : Storage) (allocated ptr size : Nat) : Reallocated :=
  if ptr = 0 then ⟨allocated, 0, m⟩
  else if allocated = 0 then ⟨0, 0, m⟩
  else ⟨allocated, ptr, (keMoveMemory m allocated ptr size).2⟩

theorem mmReallocate_ptr (m : Storage) {allocated ptr size : Nat} :
    (mmReallocate m allocated ptr size).ptr = allocated := by
  unfold mmReallocate
  split
  · rfl
  · split
    · exact Eq.symm ‹allocated = 0›
    · rfl

theorem mmReallocate_below (m : Storage) {allocated ptr size : Nat} (live : ptr ≠ 0)
    (placed : allocated ≠ 0) (below : allocated < ptr) (low : ptr < 2147483648)
    (room : ptr + size ≤ 4294967296) :
    (mmReallocate m allocated ptr size).storage = m.copyUp allocated ptr size := by
  have moved := keMoveMemory_below m below low room
  simp only [mmReallocate, if_neg live, if_neg placed, moved]

theorem mmReallocate_outside (m : Storage) {allocated ptr size x : Nat}
    (placed : allocated ≠ 0) (below : ptr = 0 ∨ allocated < ptr) (low : ptr < 2147483648)
    (room : ptr + size ≤ 4294967296) (outside : x < allocated ∨ allocated + size ≤ x) :
    (mmReallocate m allocated ptr size).storage x = m x := by
  by_cases live : ptr = 0
  · rw [mmReallocate, if_pos live]
  · rw [mmReallocate_below m live placed (below.resolve_left live) low room]
    exact Storage.copyUp_outside m outside

theorem mmReallocate_bytes (m : Storage) {allocated ptr size old : Nat} (live : ptr ≠ 0)
    (placed : allocated ≠ 0) (below : allocated < ptr) (low : ptr < 2147483648)
    (room : ptr + size ≤ 4294967296) (fits : old ≤ size) :
    (mmReallocate m allocated ptr size).storage.bytes allocated old = m.bytes ptr old := by
  rw [mmReallocate_below m live placed below low room]
  apply Storage.bytes_congr
  intro i hi
  exact Storage.copyUp_inside m (Or.inl (Nat.le_of_lt below)) (by omega)

end Mm
