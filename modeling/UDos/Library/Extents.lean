import Mathlib.Algebra.Ring.Nat
import Mathlib.Data.List.Basic
import Mathlib.Data.List.Chain
import Mathlib.Data.List.Perm.Basic

/-!
# Adjacent extents

A range of addresses is divided into adjacent pieces, each with a size and a
holder or free. The extents of the held pieces do not overlap, and they stay
where they are when free pieces are split or merged, and when the first piece
grows at the cost of a free second one.
-/

namespace Extents

universe u

variable {α : Type u}

/-- A size, and who holds the piece. -/
abbrev Piece (α : Type u) := Nat × Option α

def width (ps : List (Piece α)) : Nat := (ps.map Prod.fst).sum

/-- The holder, address and size of each held piece, when the first piece is at start. -/
def held (start : Nat) : List (Piece α) → List (α × Nat × Nat)
  | [] => []
  | (n, some a) :: ps => (a, start, n) :: held (start + n) ps
  | (n, none) :: ps => held (start + n) ps

@[simp] theorem width_nil : width ([] : List (Piece α)) = 0 := rfl

@[simp] theorem width_cons (p : Piece α) (ps : List (Piece α)) :
    width (p :: ps) = p.1 + width ps := by
  simp [width]

@[simp] theorem width_append (ps qs : List (Piece α)) :
    width (ps ++ qs) = width ps + width qs := by
  simp [width]

theorem held_append (start : Nat) (ps qs : List (Piece α)) :
    held start (ps ++ qs) = held start ps ++ held (start + width ps) qs := by
  induction ps generalizing start with
  | nil => simp [held]
  | cons p ps ih =>
    obtain ⟨n, holder⟩ := p
    cases holder with
    | some a => simp [held, ih, Nat.add_assoc]
    | none => simp [held, ih, Nat.add_assoc]

theorem held_bounds {start s n : Nat} {a : α} {ps : List (Piece α)}
    (member : (a, s, n) ∈ held start ps) : start ≤ s ∧ s + n ≤ start + width ps := by
  induction ps generalizing start with
  | nil => cases member
  | cons p ps ih =>
    obtain ⟨k, holder⟩ := p
    rw [width_cons]
    cases holder with
    | some b =>
      rcases List.mem_cons.mp member with same | later
      · cases same
        omega
      · have bounds := ih later
        omega
    | none =>
      have bounds := ih member
      omega

theorem held_pairwise (start : Nat) (ps : List (Piece α)) :
    (held start ps).Pairwise fun x y => x.2.1 + x.2.2 ≤ y.2.1 := by
  induction ps generalizing start with
  | nil => exact List.Pairwise.nil
  | cons p ps ih =>
    obtain ⟨n, holder⟩ := p
    cases holder with
    | some a =>
      refine List.pairwise_cons.mpr ⟨fun y hy => ?_, ih (start + n)⟩
      exact (held_bounds (show (y.1, y.2.1, y.2.2) ∈ held (start + n) ps from hy)).1
    | none => exact ih (start + n)

theorem held_take (start n : Nat) (a : α) (ps qs : List (Piece α)) :
    (held start (ps ++ (n, some a) :: qs)).Perm
      ((a, start + width ps, n) :: held start (ps ++ (n, none) :: qs)) := by
  simp only [held_append, held]
  exact List.perm_middle

theorem held_merge (start m n : Nat) (ps qs : List (Piece α)) :
    held start (ps ++ (m, none) :: (n, none) :: qs) =
      held start (ps ++ (m + n, none) :: qs) := by
  simp [held_append, held, Nat.add_assoc]

/-- Take k from the first piece. -/
def shrinkFirst (k : Nat) : List (Piece α) → List (Piece α)
  | [] => []
  | (n, holder) :: ps => (n - k, holder) :: ps

/-- The first piece has k bytes to give away. -/
def Yields (k : Nat) : List (Piece α) → Prop
  | [] => k = 0
  | (n, holder) :: _ => k ≤ n ∧ (k = 0 ∨ holder = none)

theorem shrinkFirst_append {k : Nat} {ps : List (Piece α)} (some : ps ≠ []) (qs : List (Piece α)) :
    shrinkFirst k (ps ++ qs) = shrinkFirst k ps ++ qs := by
  cases ps with
  | nil => exact absurd rfl some
  | cons p ps => rfl

theorem Yields.append {k : Nat} {ps : List (Piece α)} (yields : Yields k ps)
    (some : ps ≠ []) (qs : List (Piece α)) : Yields k (ps ++ qs) := by
  cases ps with
  | nil => exact absurd rfl some
  | cons p ps => exact yields

theorem shrinkFirst_concat (k : Nat) (ps : List (Piece α)) (n : Nat) (holder : Option α) :
    shrinkFirst k (ps ++ [(n, holder)]) =
      shrinkFirst k ps ++ [(n - (if ps.isEmpty then k else 0), holder)] := by
  cases ps with
  | nil => rfl
  | cons p ps => rfl

theorem held_shrinkFirst {k : Nat} {ps : List (Piece α)} (yields : Yields k ps) (start : Nat) :
    held (start + k) (shrinkFirst k ps) = held start ps := by
  cases ps with
  | nil => rfl
  | cons p ps =>
    obtain ⟨n, holder⟩ := p
    obtain ⟨room, free⟩ := yields
    have ends : start + k + (n - k) = start + n := by omega
    rcases free with rfl | rfl
    · rfl
    · simp only [shrinkFirst, held, ends]

theorem width_shrinkFirst {k : Nat} {ps : List (Piece α)} (yields : Yields k ps) :
    width (shrinkFirst k ps) + k = width ps := by
  cases ps with
  | nil =>
    cases yields
    rfl
  | cons p ps =>
    have room := yields.1
    simp only [shrinkFirst, width_cons]
    omega

def vacant : List (Piece α) → Nat
  | [] => 0
  | (_, some _) :: ps => vacant ps
  | (n, none) :: ps => n + vacant ps

theorem vacant_append (ps qs : List (Piece α)) : vacant (ps ++ qs) = vacant ps + vacant qs := by
  induction ps with
  | nil => simp [vacant]
  | cons p ps ih =>
    obtain ⟨n, holder⟩ := p
    cases holder with
    | some a => exact ih
    | none => simp [vacant, ih, Nat.add_assoc]

theorem vacant_merge (m n : Nat) (ps qs : List (Piece α)) :
    vacant (ps ++ (m, none) :: (n, none) :: qs) = vacant (ps ++ (m + n, none) :: qs) := by
  simp only [vacant_append, vacant, Nat.add_assoc]

theorem vacant_shrinkFirst {k : Nat} {ps : List (Piece α)} (yields : Yields k ps) :
    vacant (shrinkFirst k ps) + k = vacant ps := by
  cases ps with
  | nil =>
    cases yields
    rfl
  | cons p ps =>
    obtain ⟨n, holder⟩ := p
    obtain ⟨room, rfl | rfl⟩ := yields
    · rfl
    · simp only [shrinkFirst, vacant]
      omega

/-- No two neighbours are both free. -/
def Settled (ps : List (Piece α)) : Prop :=
  (ps.map Prod.snd).IsChain fun x y => x = none → y ≠ none

theorem settled_shrinkFirst {k : Nat} {ps : List (Piece α)} :
    Settled (shrinkFirst k ps) ↔ Settled ps := by
  cases ps with
  | nil => rfl
  | cons p ps => rfl

theorem settled_append {ps qs : List (Piece α)} : Settled (ps ++ qs) ↔ Settled ps ∧ Settled qs ∧
    ∀ x ∈ (ps.map Prod.snd).getLast?, ∀ y ∈ (qs.map Prod.snd).head?, x = none → y ≠ none := by
  rw [Settled, List.map_append, List.isChain_append]
  rfl

theorem Settled.take {ps qs : List (Piece α)} {n m : Nat} {a : α}
    (settled : Settled (ps ++ (n, none) :: qs)) : Settled (ps ++ (m, some a) :: qs) := by
  obtain ⟨before, behind, _⟩ := settled_append.mp settled
  refine settled_append.mpr ⟨before, ?_, ?_⟩
  · rw [Settled, List.map_cons, List.isChain_cons] at behind ⊢
    exact ⟨fun _ _ free => (nomatch free), behind.2⟩
  · rintro x _ y hy _ rfl
    exact nomatch hy

theorem Settled.split {ps qs : List (Piece α)} {n left m : Nat} {a : α}
    (settled : Settled (ps ++ (n, none) :: qs)) :
    Settled (ps ++ (left, none) :: (m, some a) :: qs) := by
  obtain ⟨before, behind, between⟩ := settled_append.mp settled
  refine settled_append.mpr ⟨before, ?_, between⟩
  rw [Settled, List.map_cons, List.isChain_cons] at behind ⊢
  refine ⟨fun y hy _ free => ?_, ?_⟩
  · subst free
    exact nomatch hy
  · rw [List.map_cons, List.isChain_cons]
    exact ⟨fun _ _ free => (nomatch free), behind.2⟩

/-- A free piece joins a free one behind it. -/
def joinFirst (n : Nat) : List (Piece α) → List (Piece α)
  | (k, none) :: qs => (n + k, none) :: qs
  | qs => (n, none) :: qs

/-- A piece of n bytes between two lists becomes free, and joins the free ones next to it. -/
def release (n : Nat) (qs : List (Piece α)) : List (Piece α) → List (Piece α)
  | [] => joinFirst n qs
  | [(k, none)] => joinFirst (k + n) qs
  | p :: ps => p :: release n qs ps

theorem release_behind_free (n k : Nat) (ps qs : List (Piece α)) :
    release n qs (ps ++ [(k, none)]) = ps ++ joinFirst (k + n) qs := by
  induction ps with
  | nil => rfl
  | cons p ps ih =>
    have more : ps ++ [((k, none) : Piece α)] ≠ [] := by simp
    rw [List.cons_append, release.eq_3 _ _ _ _ fun _ _ empty => more empty, ih, List.cons_append]

theorem release_behind_held (n k : Nat) (a : α) (ps qs : List (Piece α)) :
    release n qs (ps ++ [(k, some a)]) = ps ++ (k, some a) :: joinFirst n qs := by
  induction ps with
  | nil => rfl
  | cons p ps ih =>
    have more : ps ++ [((k, some a) : Piece α)] ≠ [] := by simp
    rw [List.cons_append, release.eq_3 _ _ _ _ fun _ _ empty => more empty, ih, List.cons_append]

theorem last_cases (ps : List (Piece α)) : ps = [] ∨
    (∃ front k, ps = front ++ [(k, none)]) ∨ ∃ front k a, ps = front ++ [(k, some a)] := by
  rcases List.eq_nil_or_concat ps with rfl | ⟨front, ⟨k, _ | a⟩, rfl⟩
  · exact Or.inl rfl
  · exact Or.inr (Or.inl ⟨front, k, List.concat_eq_append⟩)
  · exact Or.inr (Or.inr ⟨front, k, a, List.concat_eq_append⟩)

theorem held_joinFirst (start n : Nat) (qs : List (Piece α)) :
    held start (joinFirst n qs) = held start ((n, none) :: qs) := by
  rcases qs with _ | ⟨⟨k, _ | a⟩, qs⟩
  · rfl
  · simp only [joinFirst, held, Nat.add_assoc]
  · rfl

theorem joinFirst_add (k n : Nat) (qs : List (Piece α)) :
    joinFirst (k + n) qs = joinFirst k (joinFirst n qs) := by
  rcases qs with _ | ⟨⟨m, _ | a⟩, qs⟩
  · rfl
  · simp only [joinFirst, Nat.add_assoc]
  · rfl

theorem held_release (start n : Nat) (ps qs : List (Piece α)) :
    held start (release n qs ps) = held start (ps ++ (n, none) :: qs) := by
  rcases last_cases ps with rfl | ⟨front, k, rfl⟩ | ⟨front, k, a, rfl⟩
  · exact held_joinFirst start n qs
  · rw [release_behind_free, held_append, held_joinFirst, List.append_assoc, held_append]
    simp only [List.cons_append, List.nil_append, held, Nat.add_assoc]
  · rw [release_behind_held, held_append, List.append_assoc, held_append]
    simp only [List.cons_append, List.nil_append, held, held_joinFirst]

theorem Settled.joinFirst {qs : List (Piece α)} (settled : Settled qs) (n : Nat) :
    Settled (joinFirst n qs) := by
  rcases qs with _ | ⟨⟨k, _ | a⟩, qs⟩
  · exact List.isChain_singleton none
  · exact settled
  · rw [Settled, List.map_cons, List.isChain_cons] at settled
    refine List.isChain_cons_cons.mpr ⟨fun _ held => (nomatch held), ?_⟩
    exact List.isChain_cons.mpr settled

theorem joinFirst_head (n : Nat) (qs : List (Piece α)) :
    ∀ y ∈ ((Extents.joinFirst n qs).map Prod.snd).head?, y = none := by
  rcases qs with _ | ⟨⟨k, _ | a⟩, qs⟩
  · rintro _ ⟨⟩
    rfl
  · rintro _ ⟨⟩
    rfl
  · rintro _ ⟨⟩
    rfl

/-- Where no two neighbours were free, none are after a release. -/
theorem Settled.release {ps qs : List (Piece α)} {n : Nat} {a : α}
    (settled : Settled (ps ++ (n, some a) :: qs)) : Settled (release n qs ps) := by
  obtain ⟨before, behind, _⟩ := settled_append.mp settled
  rw [Settled, List.map_cons, List.isChain_cons] at behind
  have rest : Settled qs := behind.2
  rcases last_cases ps with rfl | ⟨front, k, rfl⟩ | ⟨front, k, b, rfl⟩
  · exact rest.joinFirst n
  · rw [release_behind_free]
    obtain ⟨first, _, between⟩ := settled_append.mp before
    refine settled_append.mpr ⟨first, rest.joinFirst (k + n), fun x hx y hy => ?_⟩
    rw [joinFirst_head (k + n) qs y hy]
    exact between x hx none rfl
  · rw [release_behind_held]
    obtain ⟨first, _, between⟩ := settled_append.mp before
    refine settled_append.mpr ⟨first, ?_, fun x _ y hy _ => ?_⟩
    · rw [Settled, List.map_cons, List.isChain_cons]
      exact ⟨fun _ _ held => (nomatch held), rest.joinFirst n⟩
    · cases hy
      exact Option.some_ne_none b

/-- Every held extent is that of a held piece. -/
theorem held_mem_split {start s n : Nat} {a : α} {ps : List (Piece α)}
    (member : (a, s, n) ∈ held start ps) :
    ∃ before after, ps = before ++ (n, some a) :: after ∧ s = start + width before := by
  induction ps generalizing start with
  | nil => cases member
  | cons p ps ih =>
    obtain ⟨k, holder⟩ := p
    have behind : (a, s, n) ∈ held (start + k) ps →
        ∃ before after, (k, holder) :: ps = before ++ (n, some a) :: after ∧
          s = start + width before := by
      intro later
      obtain ⟨before, after, rfl, rfl⟩ := ih later
      exact ⟨(k, holder) :: before, after, rfl, by rw [width_cons, Nat.add_assoc]⟩
    cases holder with
    | some b =>
      rcases List.mem_cons.mp member with same | later
      · cases same
        exact ⟨[], ps, rfl, rfl⟩
      · exact behind later
    | none => exact behind member

/-- No free piece of these has n bytes. -/
def Below (n : Nat) (ps : List (Piece α)) : Prop := ∀ p ∈ ps, p.2 = none → p.1 < n

/-- What is left of a free piece, unless nothing is. -/
def remains (n : Nat) : List (Piece α) := if n = 0 then [] else [(n, none)]

@[simp] theorem width_remains (n : Nat) : width (remains n : List (Piece α)) = n := by
  unfold remains
  by_cases nothing : n = 0
  · rw [if_pos nothing, width_nil, nothing]
  · rw [if_neg nothing, width_cons, width_nil, Nat.add_zero]

section
variable {n k size : Nat} {ps qs front front' : List (Piece α)}

theorem below_append : Below n (ps ++ qs) ↔ Below n ps ∧ Below n qs := by
  constructor
  · intro below
    exact ⟨fun p hp => below p (List.mem_append_left _ hp),
      fun p hp => below p (List.mem_append_right _ hp)⟩
  · rintro ⟨first, second⟩ p hp
    exact (List.mem_append.mp hp).elim (first p) (second p)

theorem below_held (n k : Nat) (a : α) : Below n [(k, some a)] := by
  intro p hp free
  obtain rfl := List.mem_singleton.mp hp
  exact nomatch free

theorem Below.shrinkFirst (below : Below n ps) (k : Nat) : Below n (shrinkFirst k ps) := by
  cases ps with
  | nil => exact below
  | cons p ps =>
    obtain ⟨m, holder⟩ := p
    intro q hq free
    rcases List.mem_cons.mp hq with rfl | later
    · exact Nat.lt_of_le_of_lt (Nat.sub_le _ _) (below _ List.mem_cons_self free)
    · exact below q (List.mem_cons_of_mem _ later) free

theorem Below.dropLast (below : Below n ps) : Below n ps.dropLast :=
  fun p hp => below p (List.dropLast_subset ps hp)

/-- There is one first piece that fits. -/
theorem Below.first_unique (below : Below size front) (below' : Below size front')
    (fits : size ≤ n) (fits' : size ≤ k) {back back' : List (Piece α)}
    (same : front ++ (n, none) :: back = front' ++ (k, none) :: back') :
    front = front' ∧ n = k ∧ back = back' := by
  induction front generalizing front' with
  | nil =>
    cases front' with
    | nil =>
      cases same
      exact ⟨rfl, rfl, rfl⟩
    | cons p front' =>
      cases same
      exact absurd (below' _ List.mem_cons_self rfl) (Nat.not_lt.mpr fits)
  | cons p front ih =>
    cases front' with
    | nil =>
      cases same
      exact absurd (below _ List.mem_cons_self rfl) (Nat.not_lt.mpr fits')
    | cons p' front' =>
      obtain ⟨rfl, rest⟩ := List.cons.inj same
      obtain ⟨rfl, rfl, rfl⟩ := ih (fun q hq => below q (List.mem_cons_of_mem _ hq))
        (fun q hq => below' q (List.mem_cons_of_mem _ hq)) rest
      exact ⟨rfl, rfl, rfl⟩

/-- Pieces that do not fit, and held ones, are passed over. -/
theorem Below.passed (below : Below size front) (fits : size ≤ k) {a : α}
    {back back' : List (Piece α)}
    (same : front ++ (n, some a) :: back = front' ++ (k, none) :: back') :
    ∃ more, front' = front ++ (n, some a) :: more := by
  induction front generalizing front' with
  | nil =>
    cases front' with
    | nil => cases same
    | cons p front' =>
      obtain ⟨rfl, _⟩ := List.cons.inj same
      exact ⟨front', rfl⟩
  | cons p front ih =>
    cases front' with
    | nil =>
      cases same
      exact absurd (below _ List.mem_cons_self rfl) (Nat.not_lt.mpr fits)
    | cons p' front' =>
      obtain ⟨rfl, rest⟩ := List.cons.inj same
      obtain ⟨more, rfl⟩ := ih (fun q hq => below q (List.mem_cons_of_mem _ hq)) rest
      exact ⟨more, rfl⟩

/-- A piece that is released behind pieces that do not fit, the last of them
perhaps apart, is in the first one that fits, at its end. -/
theorem release_fits {a : α} (below : Below size ps.dropLast) (back : List (Piece α)) :
    ∃ front n, release size ((k, some a) :: back) ps = front ++ (n, none) :: (k, some a) :: back ∧
      Below size front ∧ size ≤ n ∧ width front + n = width ps + size := by
  rcases last_cases ps with rfl | ⟨front, m, rfl⟩ | ⟨front, m, b, rfl⟩
  · exact ⟨[], size, rfl, below, Nat.le_refl _, rfl⟩
  · rw [List.dropLast_concat] at below
    rw [release_behind_free]
    refine ⟨front, m + size, rfl, below, Nat.le_add_left _ _, ?_⟩
    rw [width_append, width_cons, width_nil, Nat.add_zero, Nat.add_assoc]
  · rw [List.dropLast_concat] at below
    rw [release_behind_held]
    refine ⟨front ++ [(m, some b)], size, ?_, ?_, Nat.le_refl _, rfl⟩
    · rw [List.append_assoc, List.singleton_append]
      rfl
    · exact below_append.mpr ⟨below, below_held size m b⟩

end

end Extents
