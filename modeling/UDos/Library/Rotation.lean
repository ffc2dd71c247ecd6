import Mathlib.Data.List.Nodup
import Mathlib.Data.List.Perm.Subperm
import Mathlib.Data.Nat.ModEq
import Mathlib.Data.Nat.Prime.Basic

/-!
# Walking around a circle with a fixed stride

Positions 0 to n-1 are arranged in a circle and a cursor moves d places at a
time. After n moves it has stood on every position exactly when d and n have
no common factor; otherwise it stays on one class of positions for ever.
-/

namespace Rotation

/-- The positions of the first n visits, starting at c. -/
def visits (n d c : Nat) : List Nat :=
  (List.range n).map fun k => (c + d * k) % n

/-- A wrap test before use keeps a cursor that is at most n on the circle. -/
def wrap (n c : Nat) : Nat :=
  if c ≥ n then 0 else c

theorem wrap_eq_mod {n c : Nat} (h : c ≤ n) : wrap n c = c % n := by
  unfold wrap
  split
  · have same : c = n := by omega
    rw [same, Nat.mod_self]
  · exact (Nat.mod_eq_of_lt (by omega)).symm

theorem wrap_lt {n c : Nat} (h : 0 < n) : wrap n c < n := by
  unfold wrap
  split <;> omega

theorem wrap_succ_eq_self {n i : Nat} (h : i < n) : wrap n (i + 1) = i ↔ n = 1 := by
  unfold wrap
  split
  · constructor <;> intro <;> omega
  · constructor <;> intro <;> omega

theorem visits_length (n d c : Nat) : (visits n d c).length = n := by
  simp [visits]

theorem visits_lt {n d c x : Nat} (h : x ∈ visits n d c) : x < n := by
  obtain ⟨k, hk, rfl⟩ := List.mem_map.mp h
  have hk' := List.mem_range.mp hk
  exact Nat.mod_lt _ (by omega)

theorem visits_nodup {n d : Nat} (c : Nat) (coprime : Nat.Coprime d n) :
    (visits n d c).Nodup := by
  refine List.Nodup.map_on ?_ List.nodup_range
  intro j hj k hk same
  have hj' := List.mem_range.mp hj
  have hk' := List.mem_range.mp hk
  have shifted : c + d * j ≡ c + d * k [MOD n] := same
  have scaled : d * j ≡ d * k [MOD n] := Nat.ModEq.add_left_cancel' c shifted
  have equal : j ≡ k [MOD n] :=
    Nat.ModEq.cancel_left_of_coprime (by rwa [Nat.coprime_comm] at coprime) scaled
  exact Nat.ModEq.eq_of_lt_of_lt equal hj' hk'

theorem visits_perm {n d : Nat} (c : Nat) (coprime : Nat.Coprime d n) :
    (visits n d c).Perm (List.range n) := by
  have inside : visits n d c ⊆ List.range n :=
    fun x hx => List.mem_range.mpr (visits_lt hx)
  exact ((visits_nodup c coprime).subperm inside).perm_of_length_le
    (by rw [visits_length, List.length_range])

theorem coprime_of_all_visited {n d c : Nat} (hn : 0 < n)
    (all : ∀ x, x < n → x ∈ visits n d c) : Nat.Coprime d n := by
  obtain ⟨k, _, hk⟩ := List.mem_map.mp (all ((c + 1) % n) (Nat.mod_lt _ hn))
  have shifted : c + d * k ≡ c + 1 [MOD n] := hk
  exact Nat.coprime_of_mul_modEq_one k (Nat.ModEq.add_left_cancel' c shifted)

theorem visits_once_iff {n d c : Nat} (hn : 0 < n) :
    (∀ x, x < n → (visits n d c).count x = 1) ↔ Nat.Coprime d n := by
  constructor
  · intro once
    apply coprime_of_all_visited hn
    intro x hx
    exact List.count_pos_iff.mp (by rw [once x hx]; exact Nat.one_pos)
  · intro coprime x hx
    rw [(visits_perm c coprime).count_eq x]
    exact List.count_eq_one_of_mem List.nodup_range (List.mem_range.mpr hx)

end Rotation
