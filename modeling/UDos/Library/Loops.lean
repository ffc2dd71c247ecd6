import Mathlib.Computability.StateTransition
import Mathlib.Data.Fintype.Pigeonhole
import UDos.Library.Outcome

/-!
# Loops that may not end

A loop is the function that gives the next state, or none when the loop is
left. A loop with an infinite chain of states does not end, and on finitely many
states only a state that leads back to itself keeps it from ending.
-/

namespace Loops

open StateTransition

universe u v

variable {σ : Type u} {next : σ → Option σ} {s t : σ}

/-- The loop comes to an end from this state. -/
def Ends (next : σ → Option σ) (s : σ) : Prop := (eval next s).Dom

theorem ends_iff : Ends next s ↔ ∃ t, Reaches next s t ∧ next t = none := by
  constructor
  · intro ends
    exact ⟨_, mem_eval.mp (Part.get_mem ends)⟩
  · rintro ⟨t, reached⟩
    exact Part.dom_iff_mem.mpr ⟨t, mem_eval.mpr reached⟩

theorem ends_of_none (left : next s = none) : Ends next s :=
  ends_iff.mpr ⟨s, Relation.ReflTransGen.refl, left⟩

theorem ends_iff_of_reaches (reached : Reaches next s t) : Ends next s ↔ Ends next t := by
  rw [Ends, Ends, reaches_eval reached]

theorem ends_iff_of_next (step : next s = some t) : Ends next s ↔ Ends next t :=
  ends_iff_of_reaches (Relation.ReflTransGen.single step)

theorem ends_congr (same : next s = next t) : Ends next s ↔ Ends next t := by
  cases step : next t with
  | none => exact iff_of_true (ends_of_none (same.trans step)) (ends_of_none step)
  | some u => rw [ends_iff_of_next (same.trans step), ends_iff_of_next step]

theorem exists_first {one : Nat → Prop} (some : ∃ k, one k) : ∃ k, one k ∧ ∀ j < k, ¬ one j := by
  classical
  exact ⟨Nat.find some, Nat.find_spec some, fun j hj => Nat.find_min some hj⟩

section
variable {chain : Nat → σ} {pass : Nat → Prop}

theorem not_ends_of_chain (leads : ∀ i, Reaches₁ next (chain i) (chain (i + 1))) :
    ¬ Ends next (chain 0) := by
  intro ends
  have never : ∀ i, ¬ Reaches next (chain 0) (chain i) := by
    refine evalInduction (Part.get_mem ends) fun s _ later i reached => ?_
    have further : Reaches₁ next s (chain (i + 1)) := Relation.TransGen.trans_right reached (leads i)
    obtain ⟨t, step, _⟩ := Relation.TransGen.head'_iff.mp further
    exact later t step (i + 1) (reaches₁_fwd further step)
  exact never 0 Relation.ReflTransGen.refl

variable (leads : ∀ i, pass i → Reaches₁ next (chain i) (chain (i + 1)))
include leads

theorem reaches_of_pass {k : Nat} (passed : ∀ i < k, pass i) :
    Reaches next (chain 0) (chain k) := by
  induction k with
  | zero => exact Relation.ReflTransGen.refl
  | succ k ih =>
    have before := ih fun i hi => passed i (Nat.lt_succ_of_lt hi)
    exact before.trans (leads k (passed k (Nat.lt_succ_self k))).to_reflTransGen

theorem ends_iff_of_chain : Ends next (chain 0) ↔
    ∃ k, (∀ i < k, pass i) ∧ ¬ pass k ∧ Ends next (chain k) := by
  constructor
  · intro ends
    have some : ∃ k, ¬ pass k := by
      by_contra all
      exact not_ends_of_chain (fun i => leads i (not_not.mp fun no => all ⟨i, no⟩)) ends
    obtain ⟨k, stuck, before⟩ := exists_first some
    have passed : ∀ i < k, pass i := fun i hi => not_not.mp (before i hi)
    exact ⟨k, passed, stuck, (ends_iff_of_reaches (reaches_of_pass leads passed)).mp ends⟩
  · rintro ⟨k, passed, _, ends⟩
    exact (ends_iff_of_reaches (reaches_of_pass leads passed)).mpr ends

end

/-- The one happens, and the other does not happen before it. -/
def Before (one other : Nat → Prop) : Prop := ∃ k, one k ∧ ∀ j < k, ¬ other j

section
variable {one other : Nat → Prop}

theorem Before.first (before : Before one other) :
    ∃ k, one k ∧ ∀ j < k, ¬ one j ∧ ¬ other j := by
  obtain ⟨k, happens, quiet⟩ := before
  obtain ⟨i, here, earlier⟩ := exists_first ⟨k, happens⟩
  have le : i ≤ k := Nat.le_of_not_lt fun less => earlier k less happens
  exact ⟨i, here, fun j hj => ⟨earlier j hj, quiet j (Nat.lt_of_lt_of_le hj le)⟩⟩

theorem before_or_before {k : Nat} (happens : one k ∨ other k) :
    Before one other ∨ Before other one := by
  have some : ∃ k, one k ∨ other k := ⟨k, happens⟩
  obtain ⟨i, here, quiet⟩ := exists_first some
  rcases here with here | here
  · exact Or.inl ⟨i, here, fun j hj => (not_or.mp (quiet j hj)).2⟩
  · exact Or.inr ⟨i, here, fun j hj => (not_or.mp (quiet j hj)).1⟩

end

/-- The state after a number of turns, the last one when the loop has ended. -/
def after (next : σ → Option σ) (s : σ) : Nat → σ
  | 0 => s
  | k + 1 => (next (after next s k)).getD (after next s k)

theorem reaches_after (next : σ → Option σ) (s : σ) (k : Nat) : Reaches next s (after next s k) := by
  induction k with
  | zero => exact Relation.ReflTransGen.refl
  | succ k ih =>
    rw [after]
    cases step : next (after next s k) with
    | none => exact ih
    | some t => exact ih.tail step

/-- On finitely many states a loop ends exactly when none of the states it comes
to leads back to itself. -/
theorem ends_iff_of_finite [Finite σ] :
    Ends next s ↔ ∀ t, Reaches next s t → ¬ Reaches₁ next t t := by
  constructor
  · intro ends t reached back
    exact @not_ends_of_chain σ next (fun _ => t) (fun _ => back)
      ((ends_iff_of_reaches reached).mp ends)
  · intro noReturn
    by_contra endless
    have goes : ∀ k, next (after next s k) = some (after next s (k + 1)) := fun k => by
      cases step : next (after next s k) with
      | none => exact absurd (ends_iff.mpr ⟨_, reaches_after next s k, step⟩) endless
      | some t => rw [after, step, Option.getD_some]
    have further : ∀ i d, Reaches₁ next (after next s i) (after next s (i + d + 1)) := fun i d => by
      induction d with
      | zero => exact Relation.TransGen.single (goes i)
      | succ d ih => exact ih.tail (goes (i + d + 1))
    have again : ∃ i j, i < j ∧ after next s i = after next s j := by
      obtain ⟨i, j, differ, same⟩ := Finite.exists_ne_map_eq_of_infinite (after next s)
      rcases Nat.lt_or_gt_of_ne differ with less | less
      · exact ⟨i, j, less, same⟩
      · exact ⟨j, i, less, same.symm⟩
    obtain ⟨i, j, less, same⟩ := again
    obtain ⟨d, rfl⟩ := Nat.exists_eq_add_of_lt less
    have back := further i d
    rw [← same] at back
    exact noReturn _ (reaches_after next s i) back

/-- A loop with a budget, which carries more along than the state that decides
how it goes on, comes to an end with some budget exactly when it ends. -/
theorem ends_iff_budget {ρ : Type v} {α : Type u} {loop : Nat → σ → ρ → Outcome α}
    (zero : ∀ s r, loop 0 s r = .diverge)
    (more : ∀ s t r, next s = some t → ∃ r', ∀ fuel, loop (fuel + 1) s r = loop fuel t r')
    (last : ∀ fuel s r, next s = none → loop (fuel + 1) s r ≠ .diverge) (s : σ) (r : ρ) :
    (∃ fuel, loop fuel s r ≠ .diverge) ↔ Ends next s := by
  constructor
  · rintro ⟨fuel, stops⟩
    induction fuel generalizing s r with
    | zero => exact absurd (zero s r) stops
    | succ fuel ih =>
      cases step : next s with
      | none => exact ends_of_none step
      | some t =>
        obtain ⟨r', same⟩ := more s t r step
        rw [same] at stops
        exact (ends_iff_of_next step).mpr (ih t r' stops)
  · intro ends
    obtain ⟨t, reached, left⟩ := ends_iff.mp ends
    clear ends
    induction reached using Relation.ReflTransGen.head_induction_on generalizing r with
    | refl => exact ⟨1, last 0 t r left⟩
    | head step _ ih =>
      obtain ⟨r', same⟩ := more _ _ r step
      obtain ⟨fuel, stops⟩ := ih r'
      exact ⟨fuel + 1, by rw [same]; exact stops⟩

end Loops
