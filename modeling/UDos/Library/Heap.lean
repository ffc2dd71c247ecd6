import Mathlib.Data.List.Pairwise
import UDos.Library.Outcome
import UDos.Library.Words

/-!
# Storage with the blocks that are in use

A heap is byte storage with the blocks handed out and not yet returned. What an
allocator answers is not fixed: a block may be handed out wherever it is fresh,
and only a block in use can be returned.
-/

structure Heap where
  storage : Storage
  live : List (Nat × Nat)

namespace Heap

/-- Two blocks, each an address and a length, do not overlap. -/
def Apart (x y : Nat × Nat) : Prop := x.1 + x.2 ≤ y.1 ∨ y.1 + y.2 ≤ x.1

instance (x y : Nat × Nat) : Decidable (Apart x y) := inferInstanceAs (Decidable (_ ∨ _))

instance : Std.Symm Apart := ⟨fun _ _ => Or.symm⟩

/-- The block is not empty, lies in the 31-bit address space and behind address 0. -/
def Proper (b : Nat × Nat) : Prop := 0 < b.1 ∧ 0 < b.2 ∧ b.1 + b.2 ≤ 2147483648

instance (b : Nat × Nat) : Decidable (Proper b) := inferInstanceAs (Decidable (_ ∧ _))

/-- The block may be handed out: it overlaps no block in use. -/
def Fresh (h : Heap) (b : Nat × Nat) : Prop := Proper b ∧ ∀ x ∈ h.live, Apart b x

instance (h : Heap) (b : Nat × Nat) : Decidable (Fresh h b) :=
  inferInstanceAs (Decidable (_ ∧ _))

/-- The blocks in use do not overlap. -/
structure Sane (h : Heap) : Prop where
  apart : h.live.Pairwise Apart
  proper : ∀ x ∈ h.live, Proper x

/-- The address belongs to a block in use. -/
def Held (h : Heap) (a : Nat) : Prop := ∃ x ∈ h.live, x.1 ≤ a ∧ a < x.1 + x.2

def hold (h : Heap) (b : Nat × Nat) : Heap := { h with live := b :: h.live }

/-- Return the block at an address. Returning what is not in use is a fault. -/
def free (h : Heap) (p : Nat) : Outcome Heap :=
  if p ∈ h.live.map Prod.fst then .ok { h with live := h.live.filter fun x => x.1 ≠ p }
  else .fault

variable {h : Heap} {b x y : Nat × Nat} {a p : Nat}

theorem Sane.apart_of_start (sane : h.Sane) (hx : x ∈ h.live) (hy : y ∈ h.live)
    (differ : x.1 ≠ y.1) : Apart x y :=
  sane.apart.forall hx hy fun same => differ (congrArg Prod.fst same)

theorem Sane.words_apart (sane : h.Sane) (hx : x ∈ h.live) (hy : y ∈ h.live) (differ : x.1 ≠ y.1)
    {i j : Nat} (hi : i + 4 ≤ x.2) (hj : j + 4 ≤ y.2) :
    x.1 + i + 4 ≤ y.1 + j ∨ y.1 + j + 4 ≤ x.1 + i := by
  have apart := sane.apart_of_start hx hy differ
  simp only [Apart] at apart
  omega

theorem Fresh.start_ne (fresh : h.Fresh b) (hx : x ∈ h.live) (sane : h.Sane) : x.1 ≠ b.1 := by
  have apart := fresh.2 x hx
  have properB := fresh.1
  have properX := sane.proper x hx
  simp only [Apart, Proper] at apart properB properX
  omega

theorem Sane.hold (sane : h.Sane) (fresh : h.Fresh b) : (h.hold b).Sane := by
  refine ⟨List.pairwise_cons.mpr ⟨fresh.2, sane.apart⟩, ?_⟩
  intro x hx
  rcases List.mem_cons.mp hx with rfl | old
  · exact fresh.1
  · exact sane.proper x old

theorem Held.hold (held : h.Held a) : (h.hold b).Held a := by
  obtain ⟨x, hx, range⟩ := held
  exact ⟨x, List.mem_cons_of_mem b hx, range⟩

theorem Fresh.front {n n' : Nat} (fresh : h.Fresh (a, n)) (some : 0 < n') (le : n' ≤ n) :
    h.Fresh (a, n') := by
  obtain ⟨proper, apart⟩ := fresh
  simp only [Proper, Apart] at proper apart
  refine ⟨⟨proper.1, some, by simp only; omega⟩, fun x hx => ?_⟩
  have := apart x hx
  simp only [Apart]
  omega

theorem Fresh.not_held (fresh : h.Fresh b) (held : h.Held a) : a < b.1 ∨ b.1 + b.2 ≤ a := by
  obtain ⟨x, hx, range⟩ := held
  have apart := fresh.2 x hx
  simp only [Apart] at apart
  omega

theorem free_of_mem (hx : x ∈ h.live) :
    h.free x.1 = .ok { h with live := h.live.filter fun y => y.1 ≠ x.1 } :=
  if_pos (List.mem_map_of_mem hx)

theorem Sane.filter (sane : h.Sane) (keep : Nat × Nat → Bool) :
    Sane { h with live := h.live.filter keep } :=
  ⟨sane.apart.filter keep, fun x hx => sane.proper x (List.mem_of_mem_filter hx)⟩

theorem Sane.write (sane : h.Sane) (m : Storage) : Sane { h with storage := m } :=
  ⟨sane.apart, sane.proper⟩

end Heap
