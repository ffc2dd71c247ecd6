import Mathlib.Data.List.Basic
import UDos.Library.Storage

/-!
# Copies byte by byte in any order

A copy writes the bytes of a list of positions one after the other, each at its
place and read from where it comes from at that moment. What a byte is at the
end depends on whether its source has been overwritten before it was read.
-/

namespace Storage

variable {m : Storage} {dst src : Nat → Nat} {order : List Nat} {R : Nat → Nat → Prop} {i x : Nat}

/-- Copy the byte at `src i` to `dst i` for every position in turn. -/
def copyAlong (m : Storage) (dst src : Nat → Nat) (order : List Nat) : Storage :=
  order.foldl (fun m i => m.write (dst i) (m (src i))) m

@[simp] theorem copyAlong_cons (m : Storage) (dst src : Nat → Nat) (i : Nat) (order : List Nat) :
    copyAlong m dst src (i :: order) = copyAlong (m.write (dst i) (m (src i))) dst src order := rfl

theorem copyAlong_append (m : Storage) (dst src : Nat → Nat) (before after : List Nat) :
    copyAlong m dst src (before ++ after) =
      copyAlong (copyAlong m dst src before) dst src after := List.foldl_append

theorem copyAlong_outside (outside : ∀ i ∈ order, x ≠ dst i) :
    copyAlong m dst src order x = m x := by
  induction order generalizing m with
  | nil => rfl
  | cons i order ih =>
    rw [copyAlong_cons, ih fun j hj => outside j (List.mem_cons_of_mem i hj)]
    exact write_other m _ (outside i List.mem_cons_self)

theorem order_split (sorted : order.Pairwise R) (member : i ∈ order) :
    ∃ before after, order = before ++ i :: after ∧ (∀ j ∈ before, R j i) ∧
      ∀ j ∈ after, R i j := by
  obtain ⟨before, after, rfl⟩ := List.append_of_mem member
  obtain ⟨_, later, earlier⟩ := List.pairwise_append.mp sorted
  refine ⟨before, after, rfl, fun j hj => ?_, fun j hj => ?_⟩
  · exact earlier j hj i List.mem_cons_self
  · exact List.rel_of_pairwise_cons later hj

theorem copyAlong_read (sorted : order.Pairwise R) (member : i ∈ order)
    (once : ∀ j ∈ order, R i j → dst i ≠ dst j) (unwritten : ∀ j ∈ order, R j i → src i ≠ dst j) :
    copyAlong m dst src order (dst i) = m (src i) := by
  obtain ⟨before, after, rfl, smaller, greater⟩ := order_split sorted member
  have later : ∀ j ∈ after, j ∈ before ++ i :: after := fun j hj =>
    List.mem_append_right _ (List.mem_cons_of_mem i hj)
  have fresh : copyAlong m dst src before (src i) = m (src i) := copyAlong_outside fun j hj =>
    unwritten j (List.mem_append_left _ hj) (smaller j hj)
  rw [copyAlong_append, copyAlong_cons, fresh]
  refine (copyAlong_outside fun j hj => once j (later j hj) (greater j hj)).trans ?_
  exact write_same _ _ _

theorem copyAlong_chase (sorted : order.Pairwise R) (member : i ∈ order)
    (once : ∀ j ∈ order, R i j → dst i ≠ dst j) (apart : src i ≠ dst i)
    (unwritten : ∀ j ∈ order, R i j → src i ≠ dst j) :
    copyAlong m dst src order (dst i) = copyAlong m dst src order (src i) := by
  obtain ⟨before, after, rfl, smaller, greater⟩ := order_split sorted member
  have later : ∀ j ∈ after, j ∈ before ++ i :: after := fun j hj =>
    List.mem_append_right _ (List.mem_cons_of_mem i hj)
  rw [copyAlong_append, copyAlong_cons]
  have written : ∀ w : Storage, copyAlong w dst src after (dst i) = w (dst i) := fun w =>
    copyAlong_outside fun j hj => once j (later j hj) (greater j hj)
  have kept : ∀ w : Storage, copyAlong w dst src after (src i) = w (src i) := fun w =>
    copyAlong_outside fun j hj => unwritten j (later j hj) (greater j hj)
  rw [written, kept, write_same, write_other _ _ apart]

/-- From address a on the bytes repeat with distance d, up to the n-th. -/
def Periodic (m : Storage) (a d n : Nat) : Prop :=
  ∀ i, i + d < n → m (a + i + d) = m (a + i)

theorem periodic_zero (m : Storage) (a n : Nat) : Periodic m a 0 n := fun _ _ => rfl

theorem periodic_of_le {a d n : Nat} (le : n ≤ d) : Periodic m a d n := fun _ _ => by omega

end Storage
