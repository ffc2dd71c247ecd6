import Mathlib.Logic.Relator

/-!
# Descending a tree

Steps along a relation in which nothing has two predecessors. Chains of the
same length with the same end have the same start, and below a start without
predecessors the number of steps to an element does not depend on the chain.
-/

namespace Descent

universe u

variable {α : Type u} {R : α → α → Prop} {m n : Nat} {a b c root : α}

/-- A chain of n steps. -/
inductive Steps (R : α → α → Prop) : Nat → α → α → Prop
  | refl (a : α) : Steps R 0 a a
  | step {n : Nat} {a b c : α} (first : R a b) (later : Steps R n b c) : Steps R (n + 1) a c

theorem Steps.trans (first : Steps R m a b) (second : Steps R n b c) : Steps R (m + n) a c := by
  induction first with
  | refl a => rwa [Nat.zero_add]
  | step edge _ ih =>
    rw [Nat.add_right_comm]
    exact .step edge (ih second)

theorem Steps.last (steps : Steps R (n + 1) a c) : ∃ b, Steps R n a b ∧ R b c := by
  induction n generalizing a with
  | zero =>
    cases steps with
    | step first later =>
      cases later
      exact ⟨a, .refl a, first⟩
  | succ n ih =>
    cases steps with
    | step first later =>
      obtain ⟨b, front, edge⟩ := ih later
      exact ⟨b, .step first front, edge⟩

theorem Steps.start_unique (unique : Relator.LeftUnique R) (first : Steps R n a c)
    (second : Steps R n b c) : a = b := by
  induction n generalizing c with
  | zero =>
    cases first
    cases second
    rfl
  | succ n ih =>
    obtain ⟨p, front, edge⟩ := first.last
    obtain ⟨q, front', edge'⟩ := second.last
    obtain rfl := unique edge edge'
    exact ih front front'

theorem Steps.depth_unique (unique : Relator.LeftUnique R) (top : ∀ a, ¬ R a root)
    (first : Steps R m root c) (second : Steps R n root c) : m = n := by
  induction m generalizing n c with
  | zero =>
    cases first
    cases n with
    | zero => rfl
    | succ n =>
      obtain ⟨p, _, edge⟩ := second.last
      exact absurd edge (top p)
  | succ m ih =>
    obtain ⟨p, front, edge⟩ := first.last
    cases n with
    | zero =>
      cases second
      exact absurd edge (top p)
    | succ n =>
      obtain ⟨q, front', edge'⟩ := second.last
      obtain rfl := unique edge edge'
      rw [ih front front']

theorem Steps.no_return (unique : Relator.LeftUnique R) (top : ∀ a, ¬ R a root)
    (down : Steps R m root a) (back : Steps R n a a) : n = 0 := by
  have same := Steps.depth_unique unique top down (down.trans back)
  omega

end Descent
