import Mathlib.Data.List.Basic

/-!
# Segments of linked lists

A segment follows `next` from a start through the nodes of a list to an end.
Putting a node behind another one, or taking the successor of a node out,
changes the list and the two or three links involved and nothing else.
-/

namespace Linked

universe u

variable {α : Type u}

def Segment (next : α → Option α) : Option α → List α → Option α → Prop
  | o, [], e => o = e
  | o, a :: l, e => o = some a ∧ Segment next (next a) l e

variable {next next' : α → Option α} {o e : Option α}

theorem segment_append {l1 l2 : List α} :
    Segment next o (l1 ++ l2) e ↔ ∃ m, Segment next o l1 m ∧ Segment next m l2 e := by
  induction l1 generalizing o with
  | nil =>
    constructor
    · exact fun rest => ⟨o, rfl, rest⟩
    · rintro ⟨m, rfl, rest⟩
      exact rest
  | cons a l1 ih =>
    rw [List.cons_append, Segment, ih]
    constructor
    · rintro ⟨start, m, first, rest⟩
      exact ⟨m, ⟨start, first⟩, rest⟩
    · rintro ⟨m, ⟨start, first⟩, rest⟩
      exact ⟨start, m, first, rest⟩

theorem Segment.congr {l : List α} (segment : Segment next o l e)
    (same : ∀ a ∈ l, next' a = next a) : Segment next' o l e := by
  induction l generalizing o with
  | nil => exact segment
  | cons a l ih =>
    obtain ⟨start, rest⟩ := segment
    refine ⟨start, ?_⟩
    rw [same a List.mem_cons_self]
    exact ih rest fun b hb => same b (List.mem_cons_of_mem a hb)

theorem Segment.insert {l1 l2 : List α} {b i : α} (segment : Segment next o (l1 ++ b :: l2) e)
    (same : ∀ a, a ∈ l1 ∨ a ∈ l2 → next' a = next a) (hb : next' b = some i)
    (hi : next' i = next b) : Segment next' o (l1 ++ b :: i :: l2) e := by
  obtain ⟨m, first, start, rest⟩ := segment_append.mp segment
  refine segment_append.mpr ⟨m, first.congr fun a ha => same a (Or.inl ha), start, hb, ?_⟩
  rw [hi]
  exact rest.congr fun a ha => same a (Or.inr ha)

theorem Segment.remove {l1 l2 : List α} {a b : α}
    (segment : Segment next o (l1 ++ a :: b :: l2) e)
    (same : ∀ c, c ∈ l1 ∨ c ∈ l2 → next' c = next c) (ha : next' a = next b) :
    Segment next' o (l1 ++ a :: l2) e := by
  obtain ⟨m, first, start, _, rest⟩ := segment_append.mp segment
  refine segment_append.mpr ⟨m, first.congr fun c hc => same c (Or.inl hc), start, ?_⟩
  rw [ha]
  exact rest.congr fun c hc => same c (Or.inr hc)

theorem Segment.next_eq {l1 l2 : List α} {b : α} (segment : Segment next o (l1 ++ b :: l2) e) :
    Segment next (next b) l2 e := by
  obtain ⟨_, _, _, rest⟩ := segment_append.mp segment
  exact rest

/-- The nodes that `next` leads through, at most as many as the budget. -/
def trace (next : α → Option α) : Nat → Option α → List α
  | _, none => []
  | 0, some _ => []
  | fuel + 1, some a => a :: trace next fuel (next a)

theorem Segment.trace_eq {l : List α} {fuel : Nat} (segment : Segment next o l none)
    (enough : l.length ≤ fuel) : trace next fuel o = l := by
  induction l generalizing o fuel with
  | nil =>
    cases segment
    rw [trace]
  | cons a l ih =>
    obtain ⟨rfl, rest⟩ := segment
    rw [List.length_cons] at enough
    obtain ⟨fuel, rfl⟩ : ∃ k, fuel = k + 1 := ⟨fuel - 1, by omega⟩
    rw [trace, ih rest (by omega)]

end Linked
