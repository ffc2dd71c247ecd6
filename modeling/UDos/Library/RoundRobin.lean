import Mathlib.Data.List.Basic
import Mathlib.Logic.Function.Iterate
import UDos.Library.Rotation

/-!
# Tables that are served in turn

A table with a cursor gives the entry at the cursor its turn and moves the cursor
by one place, wrapping before it is used. Which entry has turn k, and how often it
has had one before, follows from k alone. What a slot holds is what was stored in
it last, and what it held at first when nothing was.
-/

namespace RoundRobin

open Rotation

universe u

variable {α : Type u}

structure Table (α : Type u) where
  entries : List α
  cursor : Nat

namespace Table

/-- The place whose turn it is. -/
def place (t : Table α) : Nat := wrap t.entries.length t.cursor

/-- The entry at the cursor is changed, and the cursor moves past it. -/
def turn (f : α → α) (t : Table α) : Table α := ⟨t.entries.modify t.place f, t.place + 1⟩

variable {f : α → α} {t : Table α}

@[simp] theorem turn_length (f : α → α) (t : Table α) :
    (t.turn f).entries.length = t.entries.length := by
  simp [turn]

theorem turn_cursor (positive : 0 < t.entries.length) :
    (t.turn f).cursor ≤ (t.turn f).entries.length := by
  rw [turn_length]
  exact wrap_lt positive

theorem place_eq (inRange : t.cursor ≤ t.entries.length) :
    t.place = t.cursor % t.entries.length :=
  wrap_eq_mod inRange

theorem same_place_iff {n c k : Nat} : (c + (k + 1)) % n = c % n ↔ n ∣ k + 1 := by
  constructor
  · intro same
    have congruent : c + (k + 1) ≡ c + 0 [MOD n] := same
    exact (Nat.modEq_zero_iff_dvd).mp (Nat.ModEq.add_left_cancel' c congruent)
  · rintro ⟨d, whole⟩
    rw [whole]
    exact Nat.add_mul_mod_self_left c n d

/-- Turn k is that of place (c + k) mod n, and its entry has had k / n turns before. -/
theorem turns_place (positive : 0 < t.entries.length) (inRange : t.cursor ≤ t.entries.length)
    (k : Nat) :
    ((turn f)^[k] t).place = (t.cursor + k) % t.entries.length ∧
      ((turn f)^[k] t).entries[(t.cursor + k) % t.entries.length]? =
        (t.entries[(t.cursor + k) % t.entries.length]?).map f^[k / t.entries.length] := by
  induction k generalizing t with
  | zero => exact ⟨place_eq inRange, by simp⟩
  | succ k ih =>
    have length := turn_length f t
    obtain ⟨place, entry⟩ := ih (t := t.turn f) (by rw [length]; exact positive)
      (turn_cursor positive)
    have next : ((t.turn f).cursor + k) % t.entries.length =
        (t.cursor + (k + 1)) % t.entries.length := by
      have here : (t.turn f).cursor = t.cursor % t.entries.length + 1 := by
        rw [← place_eq inRange]
        rfl
      rw [here, Nat.add_assoc, Nat.mod_add_mod, Nat.add_comm 1 k]
    rw [length, next] at place entry
    refine ⟨place, ?_⟩
    rw [Function.iterate_succ_apply, entry]
    have at_place : (t.turn f).entries[(t.cursor + (k + 1)) % t.entries.length]? =
        if t.cursor % t.entries.length = (t.cursor + (k + 1)) % t.entries.length then
          (t.entries[(t.cursor + (k + 1)) % t.entries.length]?).map f
        else t.entries[(t.cursor + (k + 1)) % t.entries.length]? := by
      rw [← place_eq inRange]
      simp only [turn, List.getElem?_modify]
      split <;> rename_i same
      · rfl
      · simp
    rw [at_place]
    by_cases again : t.entries.length ∣ k + 1
    · have quotient : (k + 1) / t.entries.length = k / t.entries.length + 1 :=
        Nat.succ_div_of_dvd again
      rw [if_pos (same_place_iff.mpr again).symm, quotient, Option.map_map]
      rfl
    · have quotient : (k + 1) / t.entries.length = k / t.entries.length :=
        Nat.succ_div_of_not_dvd again
      rw [if_neg fun same => again (same_place_iff.mp same.symm), quotient]

end Table

section
variable {ι : Type u} {κ : Type u} {slots : Nat → ι → κ} {target : Nat → ι} {value : Nat → κ}

/-- At every time one slot takes a value, and the others keep theirs. -/
def Stores (slots : Nat → ι → κ) (target : Nat → ι) (value : Nat → κ) (k : Nat) : Prop :=
  ∀ i < k, slots (i + 1) (target i) = value i ∧ ∀ x, x ≠ target i → slots (i + 1) x = slots i x

variable {k : Nat} (stores : Stores slots target value k)
include stores

theorem holds_until {i j : Nat} {x : ι} (le : i ≤ j) (inside : j ≤ k)
    (quiet : ∀ l, i ≤ l → l < j → target l ≠ x) : slots j x = slots i x := by
  induction j, le using Nat.le_induction with
  | base => rfl
  | succ j le ih =>
    have kept := (stores j (by omega)).2 x fun same => quiet j le (Nat.lt_succ_self j) same.symm
    rw [kept]
    exact ih (by omega) fun l hl below => quiet l hl (Nat.lt_succ_of_lt below)

theorem holds_last {i j : Nat} (before : i < j) (inside : j ≤ k)
    (quiet : ∀ l, i < l → l < j → target l ≠ target i) : slots j (target i) = value i := by
  rw [holds_until stores (Nat.succ_le_of_lt before) inside fun l hl => quiet l hl]
  exact (stores i (by omega)).1

end

end RoundRobin
