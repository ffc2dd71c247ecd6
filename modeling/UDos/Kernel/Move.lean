import UDos.Kernel.Memory
import UDos.Library.CopyOrder

/-!
# What moving storage does

`KeMoveMemory` byte by byte, for every pair of ranges. The loops are copies of
the positions in ascending and in descending order; the descending one is
shifted by one byte, so the byte at `dest` is not written and the byte behind
the range is.
-/

namespace KernelMemory

open Storage

variable {m : Storage} {dest src n i x : Nat}

def above (a i : Nat) : Nat := u32 (a + i)

def aboveNext (a i : Nat) : Nat := u32 (a + 1 + i)

theorem moveUp_copyAlong (m : Storage) (dest src n : Nat) :
    (moveUp m (u32 dest) (u32 src) n).2 =
      copyAlong m (above dest) (above src) (List.range n) := by
  induction n generalizing m dest src with
  | zero => rfl
  | succ n ih =>
    have next : ∀ a, u32 (u32 a + 1) = u32 (a + 1) := fun a => by
      unfold u32
      omega
    have shift : ∀ a i, above a (i + 1) = above (a + 1) i := fun a i => by
      unfold above u32
      omega
    rw [moveUp, next, next, ih, List.range_succ_eq_map, copyAlong_cons]
    simp only [copyAlong, List.foldl_map, shift]
    rfl

theorem moveDown_copyAlong (m : Storage) (dest src n : Nat) :
    (moveDown m (u32 (dest + n)) (u32 (src + n)) n).2 =
      copyAlong m (aboveNext dest) (aboveNext src) (List.range n).reverse := by
  induction n generalizing m with
  | zero => rfl
  | succ n ih =>
    have next : ∀ a, u32 (u32 (a + (n + 1)) + 4294967295) = u32 (a + n) := fun a => by
      unfold u32
      omega
    have top : ∀ a, u32 (a + (n + 1)) = aboveNext a n := fun a => by
      unfold aboveNext u32
      omega
    rw [moveDown, next, next, ih, List.range_succ, List.reverse_concat, copyAlong_cons]
    simp only [top]

theorem above_inside (room : dest + n ≤ 4294967296) (inside : i < n) :
    above dest i = dest + i := u32_eq_self (by omega)

theorem aboveNext_inside (room : dest + n ≤ 4294967296) (inside : i + 1 < n) :
    aboveNext dest i = dest + 1 + i := u32_eq_self (by omega)

theorem moveUp_outside (room : dest + n ≤ 4294967296) (outside : x < dest ∨ dest + n ≤ x) :
    copyAlong m (above dest) (above src) (List.range n) x = m x := by
  refine copyAlong_outside fun i member => ?_
  have inside := List.mem_range.mp member
  rw [above_inside room inside]
  omega

theorem moveUp_read (room : dest + n ≤ 4294967296) (inside : i < n)
    (unwritten : ∀ j, j < i → above src i ≠ dest + j) :
    copyAlong m (above dest) (above src) (List.range n) (dest + i) = m (above src i) := by
  have here : above dest i = dest + i := above_inside room inside
  rw [← here]
  refine copyAlong_read List.pairwise_lt_range (List.mem_range.mpr inside) ?_ ?_
  · intro j member later
    rw [here, above_inside room (List.mem_range.mp member)]
    omega
  · intro j member earlier
    rw [above_inside room (List.mem_range.mp member)]
    exact unwritten j earlier

theorem moveUp_chase (room : dest + n ≤ 4294967296) (roomSrc : src + n ≤ 4294967296)
    (inside : i < n) (above_source : src < dest) :
    copyAlong m (above dest) (above src) (List.range n) (dest + i) =
      copyAlong m (above dest) (above src) (List.range n) (src + i) := by
  have here : above dest i = dest + i := above_inside room inside
  have there : above src i = src + i := above_inside roomSrc inside
  rw [← here, ← there]
  refine copyAlong_chase List.pairwise_lt_range (List.mem_range.mpr inside) ?_ ?_ ?_
  · intro j member later
    rw [here, above_inside room (List.mem_range.mp member)]
    omega
  · omega
  · intro j member later
    rw [there, above_inside room (List.mem_range.mp member)]
    omega

/-- The source is at the destination and no other byte has changed. -/
def Moved (m m' : Storage) (dest src n : Nat) : Prop :=
  (∀ i, i < n → m' (dest + i) = m (src + i)) ∧ ∀ x, x < dest ∨ dest + n ≤ x → m' x = m x

/-- Upwards a range is moved rightly unless the destination starts inside the
source, and then exactly when the source repeats with their distance. -/
theorem moveUp_moved_iff (room : dest + n ≤ 4294967296) (roomSrc : src + n ≤ 4294967296) :
    Moved m (copyAlong m (above dest) (above src) (List.range n)) dest src n ↔
      Periodic m src (dest - src) n := by
  set c := copyAlong m (above dest) (above src) (List.range n) with hc
  by_cases above_source : src < dest
  · have chase : ∀ i, i < n → c (dest + i) = c (src + i) := fun i inside =>
      moveUp_chase room roomSrc inside above_source
    have outside : ∀ x, x < dest ∨ dest + n ≤ x → c x = m x := fun x => moveUp_outside room
    constructor
    · rintro ⟨moved, _⟩ i inside
      calc m (src + i + (dest - src)) = c (dest + (i + (dest - src))) :=
            ((moved _ inside).trans (by rw [Nat.add_assoc])).symm
        _ = c (src + (i + (dest - src))) := chase _ inside
        _ = c (dest + i) := by congr 1; omega
        _ = m (src + i) := moved i (by omega)
    · intro periodic
      refine ⟨fun i => ?_, outside⟩
      induction i using Nat.strong_induction_on with
      | _ i ih =>
        intro inside
        rw [chase i inside]
        by_cases early : src + i < dest
        · exact outside _ (Or.inl early)
        · have back := ih (i - (dest - src)) (by omega) (by omega)
          have again := periodic (i - (dest - src)) (by omega)
          rw [show dest + (i - (dest - src)) = src + i by omega] at back
          rw [show src + (i - (dest - src)) + (dest - src) = src + i by omega] at again
          exact back.trans again.symm
  · rw [show dest - src = 0 by omega]
    refine iff_of_true ⟨fun i inside => ?_, fun x => moveUp_outside room⟩ (periodic_zero m src n)
    have there : above src i = src + i := above_inside roomSrc inside
    rw [hc, moveUp_read room inside fun j _ => by omega, there]

theorem pairwise_gt_range_reverse (n : Nat) : (List.range n).reverse.Pairwise (· > ·) :=
  List.pairwise_reverse.mpr List.pairwise_lt_range

theorem mem_range_reverse : i ∈ (List.range n).reverse ↔ i < n :=
  List.mem_reverse.trans List.mem_range

theorem moveDown_outside (room : dest + n ≤ 4294967296) (behind : x ≠ u32 (dest + n))
    (outside : x ≤ dest ∨ dest + n ≤ x) :
    copyAlong m (aboveNext dest) (aboveNext src) (List.range n).reverse x = m x := by
  refine copyAlong_outside fun i member => ?_
  have inside := mem_range_reverse.mp member
  by_cases last : i + 1 = n
  · have top : aboveNext dest i = u32 (dest + n) := by
      rw [aboveNext, show dest + 1 + i = dest + n by omega]
    rw [top]
    exact behind
  · rw [aboveNext_inside room (by omega)]
    omega

theorem moveDown_once {j : Nat} (room : dest + n ≤ 4294967296) (inside : i < n) (later : j < i) :
    aboveNext dest i ≠ aboveNext dest j := by
  rw [aboveNext_inside room (show j + 1 < n by omega)]
  unfold aboveNext u32
  omega

theorem moveDown_read (room : dest + n ≤ 4294967296) (inside : i < n)
    (unwritten : ∀ j, i < j → j < n → aboveNext src i ≠ aboveNext dest j) :
    copyAlong m (aboveNext dest) (aboveNext src) (List.range n).reverse (aboveNext dest i) =
      m (aboveNext src i) := by
  refine copyAlong_read (pairwise_gt_range_reverse n) (mem_range_reverse.mpr inside) ?_ ?_
  · exact fun j _ later => moveDown_once room inside later
  · exact fun j member earlier => unwritten j earlier (mem_range_reverse.mp member)

theorem moveDown_chase (room : dest + n ≤ 4294967296) (inside : i < n)
    (unwritten : ∀ j, j ≤ i → aboveNext src i ≠ aboveNext dest j) :
    copyAlong m (aboveNext dest) (aboveNext src) (List.range n).reverse (aboveNext dest i) =
      copyAlong m (aboveNext dest) (aboveNext src) (List.range n).reverse (aboveNext src i) := by
  refine copyAlong_chase (pairwise_gt_range_reverse n) (mem_range_reverse.mpr inside) ?_ ?_ ?_
  · exact fun j _ later => moveDown_once room inside later
  · exact unwritten i (Nat.le_refl i)
  · exact fun j _ later => unwritten j (Nat.le_of_lt later)

theorem moveDown_behind (room : dest + n ≤ 4294967296) (positive : 0 < n) :
    copyAlong m (aboveNext dest) (aboveNext src) (List.range n).reverse (u32 (dest + n)) =
      m (u32 (src + n)) := by
  have top : ∀ a, aboveNext a (n - 1) = u32 (a + n) := fun a => by
    rw [aboveNext, show a + 1 + (n - 1) = a + n by omega]
  have last : copyAlong m (aboveNext dest) (aboveNext src) (List.range n).reverse
      (aboveNext dest (n - 1)) = m (aboveNext src (n - 1)) :=
    moveDown_read room (by omega) fun j later inside => by omega
  rwa [top, top] at last

theorem moveDown_chained (room : dest + n ≤ 4294967296) (roomSrc : src + n ≤ 4294967296)
    (below : dest < src) (inside : i + 1 < n) :
    copyAlong m (aboveNext dest) (aboveNext src) (List.range n).reverse (dest + 1 + i) =
      copyAlong m (aboveNext dest) (aboveNext src) (List.range n).reverse (src + 1 + i) := by
  have place : aboveNext dest i = dest + 1 + i := aboveNext_inside room inside
  have source : aboveNext src i = src + 1 + i := aboveNext_inside roomSrc inside
  rw [← place, ← source]
  refine moveDown_chase room (by omega) fun j le => ?_
  have earlier : aboveNext dest j = dest + 1 + j := aboveNext_inside room (by omega)
  rw [source, earlier]
  omega

/-- A range moved rightly repeats with the distance of the ranges, from its
second byte on. -/
theorem moveDown_periodic (room : dest + n ≤ 4294967296) (roomSrc : src + n ≤ 4294967296)
    (moved : Moved m (copyAlong m (aboveNext dest) (aboveNext src) (List.range n).reverse)
      dest src n) : Periodic m (src + 1) (src - dest) (n - 1) := by
  intro i inside
  by_cases below : dest < src
  · have chained : copyAlong m (aboveNext dest) (aboveNext src) (List.range n).reverse
        (dest + 1 + i) =
        copyAlong m (aboveNext dest) (aboveNext src) (List.range n).reverse (src + 1 + i) :=
      moveDown_chained room roomSrc below (by omega)
    set c := copyAlong m (aboveNext dest) (aboveNext src) (List.range n).reverse
    calc m (src + 1 + i + (src - dest)) = c (dest + (1 + i + (src - dest))) :=
          ((moved.1 _ (by omega)).trans (by congr 1; omega)).symm
      _ = c (src + 1 + i) := by congr 1; omega
      _ = c (dest + 1 + i) := chained.symm
      _ = m (src + 1 + i) := by
          rw [Nat.add_assoc, Nat.add_assoc]
          exact moved.1 (1 + i) (by omega)
  · rw [show src - dest = 0 by omega]
    rfl

/-- What repeats is moved, but for the first byte. -/
theorem moveDown_moves (room : dest + n ≤ 4294967296) (roomSrc : src + n ≤ 4294967296)
    (kept : ∀ x, dest + n ≤ x →
      copyAlong m (aboveNext dest) (aboveNext src) (List.range n).reverse x = m x)
    (periodic : Periodic m (src + 1) (src - dest) (n - 1)) (k : Nat) (total : i + 1 + k = n - 1) :
    copyAlong m (aboveNext dest) (aboveNext src) (List.range n).reverse (dest + 1 + i) =
      m (src + 1 + i) := by
  induction k using Nat.strong_induction_on generalizing i with
  | _ k ih =>
    by_cases below : dest < src
    · rw [moveDown_chained room roomSrc below (by omega)]
      by_cases far : dest + n ≤ src + 1 + i
      · exact kept _ far
      · have next := ih (k - (src - dest)) (by omega) (i := i + (src - dest)) (by omega)
        have again := periodic i (by omega)
        rw [show dest + 1 + (i + (src - dest)) = src + 1 + i by omega, ← Nat.add_assoc] at next
        exact next.trans again
    · have place : aboveNext dest i = dest + 1 + i := aboveNext_inside room (by omega)
      have source : aboveNext src i = src + 1 + i := aboveNext_inside roomSrc (by omega)
      rw [← place, ← source]
      refine moveDown_read room (by omega) fun j later inside => ?_
      rw [source]
      unfold aboveNext u32
      omega

/-- Downwards a range is moved rightly exactly when its first byte is there
already, the two bytes behind the ranges are the same, and the rest repeats with
the distance of the ranges when the source starts inside the destination. -/
theorem moveDown_moved_iff (room : dest + n ≤ 4294967296) (roomSrc : src + n ≤ 4294967296)
    (size : n < 4294967296) :
    Moved m (copyAlong m (aboveNext dest) (aboveNext src) (List.range n).reverse) dest src n ↔
      n = 0 ∨ m dest = m src ∧ m (u32 (dest + n)) = m (u32 (src + n)) ∧
        Periodic m (src + 1) (src - dest) (n - 1) := by
  by_cases empty : n = 0
  · subst empty
    exact iff_of_true ⟨fun i hi => absurd hi (Nat.not_lt_zero i), fun _ _ => rfl⟩ (Or.inl rfl)
  have behind_outside : u32 (dest + n) < dest ∨ dest + n ≤ u32 (dest + n) := by
    unfold u32
    omega
  have behind : copyAlong m (aboveNext dest) (aboveNext src) (List.range n).reverse
      (u32 (dest + n)) = m (u32 (src + n)) := moveDown_behind room (Nat.pos_of_ne_zero empty)
  have first_kept : copyAlong m (aboveNext dest) (aboveNext src) (List.range n).reverse dest =
      m dest := moveDown_outside room (by omega) (Or.inl (Nat.le_refl dest))
  constructor
  · rintro ⟨moved, kept⟩
    refine Or.inr ⟨?_, ?_, ?_⟩
    · exact first_kept.symm.trans (moved 0 (by omega))
    · exact (kept _ behind_outside).symm.trans behind
    · exact moveDown_periodic room roomSrc ⟨moved, kept⟩
  · rintro (zero | ⟨first, last, periodic⟩)
    · exact absurd zero empty
    have kept : ∀ x, x ≤ dest ∨ dest + n ≤ x →
        copyAlong m (aboveNext dest) (aboveNext src) (List.range n).reverse x = m x := by
      intro x outside
      by_cases here : x = u32 (dest + n)
      · rw [here, behind, last]
      · exact moveDown_outside room here outside
    refine ⟨fun i inside => ?_, fun x outside => kept x (by omega)⟩
    cases i with
    | zero => exact first_kept.trans first
    | succ i =>
      have moved := moveDown_moves room roomSrc (fun x far => kept x (Or.inr far)) periodic
        (n - 1 - (i + 1)) (i := i) (by omega)
      rwa [Nat.add_assoc, Nat.add_assoc, Nat.add_comm 1 i] at moved

/-- When `KeMoveMemory` is right: going up, the source repeats with the distance
to a destination that starts inside it; going down, the byte at the destination
and the one behind it are already those of the source as well. -/
def Movable (m : Storage) (dest src n : Nat) : Prop :=
  (signed32 dest < signed32 src → Periodic m src (dest - src) n) ∧
  (¬ signed32 dest < signed32 src →
    n = 0 ∨ m dest = m src ∧ m (u32 (dest + n)) = m (u32 (src + n)) ∧
      Periodic m (src + 1) (src - dest) (n - 1))

theorem keMoveMemory_zero (m : Storage) (dest src : Nat) : (keMoveMemory m dest src 0).2 = m := by
  by_cases signed : signed32 dest < signed32 src
  · rw [keMoveMemory, if_pos signed]
    rfl
  · rw [keMoveMemory, if_neg signed]
    rfl

theorem movable_zero (m : Storage) (dest src : Nat) : Movable m dest src 0 :=
  ⟨fun _ => periodic_of_le (Nat.zero_le _), fun _ => Or.inl rfl⟩

theorem keMoveMemory_moved_iff (room : dest + n ≤ 4294967296) (roomSrc : src + n ≤ 4294967296)
    (size : n < 4294967296) :
    Moved m (keMoveMemory m dest src n).2 dest src n ↔ Movable m dest src n := by
  by_cases empty : n = 0
  · rw [empty, keMoveMemory_zero]
    refine iff_of_true ⟨fun i hi => absurd hi (Nat.not_lt_zero i), fun _ _ => rfl⟩ ?_
    exact movable_zero m dest src
  · have destSelf : u32 dest = dest := u32_eq_self (by omega)
    have srcSelf : u32 src = src := u32_eq_self (by omega)
    by_cases signed : signed32 dest < signed32 src
    · have loop := moveUp_copyAlong m dest src n
      rw [destSelf, srcSelf] at loop
      rw [keMoveMemory, if_pos signed, loop, moveUp_moved_iff room roomSrc]
      exact ⟨fun right => ⟨fun _ => right, fun not => absurd signed not⟩, fun right => right.1 signed⟩
    · rw [keMoveMemory, if_neg signed, moveDown_copyAlong, moveDown_moved_iff room roomSrc size]
      exact ⟨fun right => ⟨fun up => absurd up signed, fun _ => right⟩, fun right => right.2 signed⟩

end KernelMemory
