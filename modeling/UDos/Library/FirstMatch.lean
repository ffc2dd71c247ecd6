import Mathlib.Data.List.Basic

/-!
# First matches under a coarser test

A search that accepts more than it is meant to returns the intended index
exactly when each element it accepts has an intended one at or before it, and
nothing after the intended range is accepted in place of an absent element.
-/

namespace FirstMatch

universe u

variable {α : Type u} {coarse exact : α → Bool}

/-- The search by the coarse test, over a list and what follows it, agrees
with the search of the list by the exact test. -/
theorem findIdx?_append_eq_iff (finer : ∀ a, exact a → coarse a) (l rest : List α) :
    (l ++ rest).findIdx? coarse = l.findIdx? exact ↔
      (∀ (i : Nat) (a : α), l[i]? = some a → coarse a →
        ∃ (j : Nat) (b : α), j ≤ i ∧ l[j]? = some b ∧ exact b) ∧
      ((∀ a ∈ l, ¬ exact a) → ∀ a ∈ rest, ¬ coarse a) := by
  cases found : l.findIdx? exact with
  | none =>
    have absent : ∀ a ∈ l, ¬ exact a := by
      simpa [List.findIdx?_eq_none_iff] using found
    have coarseAbsent : (l ++ rest).findIdx? coarse = none ↔ ∀ a ∈ l ++ rest, ¬ coarse a := by
      rw [List.findIdx?_eq_none_iff]
      simp only [Bool.not_eq_true]
    rw [coarseAbsent]
    constructor
    · intro none
      refine ⟨fun i a ha accepted => ?_, fun _ a ha => none a (List.mem_append_right l ha)⟩
      exact absurd accepted (none a (List.mem_append_left rest (List.mem_of_getElem? ha)))
    · rintro ⟨covered, after⟩ a ha accepted
      rcases List.mem_append.mp ha with inside | behind
      · obtain ⟨i, hi⟩ := List.mem_iff_getElem?.mp inside
        obtain ⟨j, b, _, hb, hit⟩ := covered i a hi accepted
        exact absent b (List.mem_of_getElem? hb) hit
      · exact after absent a behind accepted
  | some k =>
    obtain ⟨hk, hit, before⟩ := List.findIdx?_eq_some_iff_getElem.mp found
    have present : ¬ ∀ a ∈ l, ¬ exact a := fun absent => absent l[k] (List.getElem_mem hk) hit
    have whole : (l ++ rest).findIdx? coarse = some k ↔
        ∀ (i : Nat) (a : α), i < k → l[i]? = some a → ¬ coarse a := by
      rw [List.findIdx?_eq_some_iff_getElem]
      constructor
      · rintro ⟨_, _, earlier⟩ i a hi ha
        obtain ⟨inside, rfl⟩ := List.getElem?_eq_some_iff.mp ha
        simpa [List.getElem_append, inside] using earlier i hi
      · intro earlier
        refine ⟨by simp; omega, ?_, fun i hi => ?_⟩
        · simpa [List.getElem_append, hk] using finer _ hit
        · have inside : i < l.length := by omega
          simpa [List.getElem_append, inside] using
            earlier i l[i] hi (List.getElem?_eq_getElem inside)
    rw [whole]
    constructor
    · intro earlier
      refine ⟨fun i a ha accepted => ?_, fun absent => absurd absent present⟩
      have later : k ≤ i := by
        by_contra sooner
        exact earlier i a (by omega) ha accepted
      exact ⟨k, l[k], later, List.getElem?_eq_getElem hk, hit⟩
    · rintro ⟨covered, _⟩ i a hi ha accepted
      obtain ⟨j, b, hj, hb, exactHit⟩ := covered i a ha accepted
      obtain ⟨_, rfl⟩ := List.getElem?_eq_some_iff.mp hb
      exact before j (by omega) exactHit

/-- Searching the indices and searching for an index is the same. -/
theorem findIdx?_range (n : Nat) (p : Nat → Bool) :
    (List.range n).findIdx? p = (List.range n).find? p := by
  ext i
  rw [List.findIdx?_eq_some_iff_getElem, List.find?_range_eq_some]
  simp only [List.length_range, List.getElem_range, List.mem_range, exists_prop,
    Bool.not_eq_true, Bool.not_eq_true']
  exact and_left_comm

end FirstMatch
