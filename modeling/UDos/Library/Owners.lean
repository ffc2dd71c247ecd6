import Mathlib.Logic.Function.Basic
import UDos.Library.Heap

/-!
# Blocks with owners

Every owner has at most one block of a heap, and no two owners have the same.
Handing a block out, returning it and losing it change what one owner has, so
what the blocks of all others hold is kept.
-/

namespace Heap

variable {ι : Type} {h : Heap} {block : ι → Option (Nat × Nat)} {i j : ι} {b b' : Nat × Nat}

/-- The blocks of the owners are in use, and each has one owner. -/
structure Owns (h : Heap) (block : ι → Option (Nat × Nat)) : Prop where
  sane : h.Sane
  held : ∀ {i b}, block i = some b → b ∈ h.live
  single : ∀ {i j b b'}, block i = some b → block j = some b' → b.1 = b'.1 → i = j

theorem Owns.apart (owns : h.Owns block) (mine : block i = some b) (other : block j = some b')
    (differ : i ≠ j) : Apart b b' :=
  owns.sane.apart_of_start (owns.held mine) (owns.held other) fun same =>
    differ (owns.single mine other same)

theorem Owns.write (owns : h.Owns block) (m : Storage) : Owns { h with storage := m } block :=
  ⟨owns.sane.write m, owns.held, owns.single⟩

theorem Owns.weaken {block' : ι → Option (Nat × Nat)} (owns : h.Owns block)
    (less : ∀ {i b}, block' i = some b → block i = some b) : h.Owns block' :=
  ⟨owns.sane, fun mine => owns.held (less mine), fun mine other => owns.single (less mine) (less other)⟩

theorem Owns.fresh_ne (owns : h.Owns block) (fresh : h.Fresh b) (mine : block i = some b') :
    b'.1 ≠ b.1 :=
  fresh.start_ne (owns.held mine) owns.sane

/-- An owner gets a fresh block, and the block that it had may be returned. -/
theorem Owns.replace [DecidableEq ι] {h' : Heap} (owns : h.Owns block) (sane : h'.Sane)
    (fresh : h.Fresh b) (inUse : b ∈ h'.live)
    (stays : ∀ {j b'}, block j = some b' → j ≠ i → b' ∈ h'.live) :
    h'.Owns (Function.update block i (some b)) := by
  have others : ∀ {j b'}, Function.update block i (some b) j = some b' → j ≠ i →
      block j = some b' := fun found differ => by
    rwa [Function.update_of_ne differ] at found
  have own : ∀ {b'}, Function.update block i (some b) i = some b' → b' = b := fun found => by
    rw [Function.update_self] at found
    exact (Option.some.inj found).symm
  refine ⟨sane, ?_, ?_⟩
  · intro j b' found
    by_cases same : j = i
    · subst same
      rw [own found]
      exact inUse
    · exact stays (others found same) same
  · intro j k b' b'' found found' start
    by_cases mine : j = i
    · by_cases other : k = i
      · rw [mine, other]
      · subst mine
        rw [own found] at start
        exact absurd start.symm (owns.fresh_ne fresh (others found' other))
    · by_cases other : k = i
      · subst other
        rw [own found'] at start
        exact absurd start (owns.fresh_ne fresh (others found mine))
      · exact owns.single (others found mine) (others found' other) start

theorem Owns.hold [DecidableEq ι] (owns : h.Owns block) (fresh : h.Fresh b) :
    (h.hold b).Owns (Function.update block i (some b)) :=
  owns.replace (owns.sane.hold fresh) fresh List.mem_cons_self fun found _ =>
    List.mem_cons_of_mem _ (owns.held found)

/-- An owner's block is returned. -/
theorem Owns.free [DecidableEq ι] (owns : h.Owns block) (mine : block i = some b) :
    Owns { h with live := h.live.filter fun x => x.1 ≠ b.1 } (Function.update block i none) := by
  have others : ∀ {j b'}, Function.update block i none j = some b' →
      block j = some b' ∧ j ≠ i := fun {j b'} found => by
    by_cases same : j = i
    · subst same
      rw [Function.update_self] at found
      cases found
    · rw [Function.update_of_ne same] at found
      exact ⟨found, same⟩
  refine ⟨owns.sane.filter _, ?_, ?_⟩
  · intro j b' found
    obtain ⟨old, differ⟩ := others found
    refine List.mem_filter.mpr ⟨owns.held old, ?_⟩
    exact decide_eq_true fun same => differ (owns.single old mine same)
  · exact fun found found' => owns.single (others found).1 (others found').1

end Heap
