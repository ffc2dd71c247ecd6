import Mathlib.Data.List.Chain
import Mathlib.Data.List.TakeWhile
import UDos.Kernel.Strings

/-!
# Fields and separators

`KeSpanString` and `KeBreakCharPtrString` of `memory.c` on strings in storage. The
one counts the accepted characters at the front of a string, the other passes the
ones that are not, and used in turn they take a string apart.
-/

namespace Tokens

open KernelMemory KernelStrings

/-- The two functions in turn up to the end of the string: where the separators
start, where the field behind them starts, and where it ends. -/
def split (budget : Nat) (m : Storage) (accept : Nat) :
    Nat → Nat → Outcome (List (Nat × Nat × Nat))
  | 0, _ => .diverge
  | fuel + 1, s =>
    if m s ≠ 0 then do
      let spn ← keSpanString budget m s accept
      let field := u32 (s + spn)
      let stop ← keBreakCharPtrString budget m field accept
      let rest ← split budget m accept fuel stop
      .ok ((s, field, stop) :: rest)
    else .ok []

/-- Separators and the field behind them. -/
structure Piece where
  separators : List UInt8
  field : List UInt8

/-- Where pieces are that follow each other from an address on. -/
def places : Nat → List Piece → List (Nat × Nat × Nat)
  | _, [] => []
  | a, piece :: rest =>
    let field := u32 (a + piece.separators.length)
    let stop := u32 (field + piece.field.length)
    (a, field, stop) :: places stop rest

/-- The pieces are the whole string. Separators consist of accepted characters and
fields of the others, and a field or separators can be missing at the two ends only. -/
structure Alternates (accept s : List UInt8) (pieces : List Piece) : Prop where
  whole : (pieces.map fun piece => piece.separators ++ piece.field).flatten = s
  separators : ∀ piece ∈ pieces, ∀ c ∈ piece.separators, c ∈ accept
  fields : ∀ piece ∈ pieces, ∀ c ∈ piece.field, c ∉ accept
  some : ∀ piece ∈ pieces, piece.separators ++ piece.field ≠ []
  alternate : pieces.IsChain fun piece next => piece.field ≠ [] ∧ next.separators ≠ []

/-- What the two functions return for a string and accepted characters. -/
structure Exact (m : Storage) (a b : Nat) (s accept : List UInt8) : Prop where
  span : ∃ n ≤ s.length, (∀ fuel, s.length + accept.length < fuel →
      keSpanString fuel m a b = .ok n) ∧
    (∀ c ∈ s.take n, c ∈ accept) ∧
    ∀ k ≤ s.length, (∀ c ∈ s.take k, c ∈ accept) → k ≤ n
  stop : ∃ k ≤ s.length, (∀ fuel, s.length + accept.length < fuel →
      keBreakCharPtrString fuel m a b = .ok (u32 (a + k))) ∧
    (∀ c ∈ s.take k, c ∉ accept) ∧ (∀ c, s[k]? = some c → c ∈ accept) ∧
    ((∀ i ≤ s.length, u32 (a + i) ≠ 0) → u32 (a + k) ≠ 0)
  pieces : ∃ pieces, Alternates accept s pieces ∧
    ∀ fuel, s.length + accept.length < fuel → split fuel m b fuel a = .ok (places a pieces)

section
variable {m : Storage} {a b budget fuel spn k : Nat} {s t : List UInt8}

theorem keSpanStringLoop_spells (first : Spells m a s) (second : Spells m b t)
    (pointer : b < 4294967296) (known : t.length < budget) (enough : s.length < fuel)
    (small : spn + s.length < 4294967296) :
    keSpanStringLoop budget m b fuel a spn = .ok (spn + (s.takeWhile (· ∈ t)).length) := by
  induction s generalizing a fuel spn with
  | nil =>
    obtain ⟨fuel, rfl⟩ : ∃ f, fuel = f + 1 := ⟨fuel - 1, by omega⟩
    have ends : m a = 0 := first
    rw [keSpanStringLoop, if_neg (not_not.mpr ends)]
    rfl
  | cons c s ih =>
    obtain ⟨fuel, rfl⟩ : ∃ f, fuel = f + 1 := ⟨fuel - 1, by omega⟩
    have search := @keAcceptLoop_spells m b budget budget 0 t (m a) second pointer
      (second.short pointer) known (Nat.zero_le _) (by omega)
    rw [keSpanStringLoop, if_pos (first.1 ▸ first.2.1), search, Outcome.ok_bind, List.drop_zero,
      first.1, List.takeWhile_cons]
    rw [List.length_cons] at small enough
    by_cases found : c ∈ t
    · have next : u32 (spn + 1) = spn + 1 := u32_eq_self (by omega)
      have rest := ih first.2.2 (Nat.lt_of_succ_lt_succ enough) (by omega : spn + 1 + s.length < _)
      simp only [found, decide_true, if_true, next, List.length_cons, rest]
      exact congrArg Outcome.ok (by omega)
    · simp only [found, decide_false, Bool.false_eq_true, if_false]
      rfl

theorem keBreakCharPtrStringLoop_spells (first : Spells m a s) (second : Spells m b t)
    (pointerA : a < 4294967296) (pointerB : b < 4294967296) (known : t.length < budget)
    (enough : s.length < fuel) :
    keBreakCharPtrStringLoop budget m b fuel a =
      .ok (u32 (a + (s.takeWhile (· ∉ t)).length)) := by
  induction s generalizing a fuel with
  | nil =>
    obtain ⟨fuel, rfl⟩ : ∃ f, fuel = f + 1 := ⟨fuel - 1, by omega⟩
    have ends : m a = 0 := first
    rw [keBreakCharPtrStringLoop, if_neg (not_not.mpr ends)]
    exact congrArg Outcome.ok (u32_eq_self pointerA).symm
  | cons c s ih =>
    obtain ⟨fuel, rfl⟩ : ∃ f, fuel = f + 1 := ⟨fuel - 1, by omega⟩
    have search := @keAcceptLoop_spells m b budget budget 0 t (m a) second pointerB
      (second.short pointerB) known (Nat.zero_le _) (by omega)
    rw [keBreakCharPtrStringLoop, if_pos (first.1 ▸ first.2.1), search, Outcome.ok_bind,
      List.drop_zero, first.1, List.takeWhile_cons]
    by_cases found : c ∈ t
    · simp only [found, decide_true, if_true, not_true_eq_false, decide_false, Bool.false_eq_true,
        if_false, List.length_nil, Nat.add_zero]
      exact congrArg Outcome.ok (u32_eq_self pointerA).symm
    · have rest := ih first.2.2 (Nat.mod_lt _ (by decide)) (Nat.lt_of_succ_lt_succ enough)
      simp only [found, decide_false, Bool.false_eq_true, if_false, not_false_eq_true, decide_true,
        if_true, List.length_cons, rest, u32_next]

section
variable (first : Spells m a s) (second : Spells m b t) (pointerA : a < 4294967296)
  (pointerB : b < 4294967296)
include first second pointerA pointerB

theorem keSpanString_spells (known : t.length < fuel) (enough : s.length < fuel) :
    keSpanString fuel m a b = .ok (s.takeWhile (· ∈ t)).length := by
  have short := first.short pointerA
  have counted := @keSpanStringLoop_spells m a b fuel fuel 0 s t first second pointerB known enough
    (by omega)
  rwa [Nat.zero_add] at counted

theorem keBreakCharPtrString_spells (known : t.length < fuel) (enough : s.length < fuel) :
    keBreakCharPtrString fuel m a b = .ok (u32 (a + (s.takeWhile (· ∉ t)).length)) :=
  keBreakCharPtrStringLoop_spells first second pointerA pointerB known enough

end

end

section
variable {p : UInt8 → Bool} {s : List UInt8} {k : Nat}

theorem take_front (p : UInt8 → Bool) (s : List UInt8) :
    s.take (s.takeWhile p).length = s.takeWhile p :=
  (List.prefix_iff_eq_take.mp (List.takeWhile_prefix p)).symm

theorem drop_front (p : UInt8 → Bool) (s : List UInt8) :
    s.drop (s.takeWhile p).length = s.dropWhile p := by
  have dropped := @List.drop_left _ (s.takeWhile p) (s.dropWhile p)
  rwa [List.takeWhile_append_dropWhile] at dropped

theorem mem_of_front {t : List UInt8} {c : UInt8} (member : c ∈ s.takeWhile (· ∈ t)) : c ∈ t :=
  of_decide_eq_true (List.mem_takeWhile_imp (p := fun c => decide (c ∈ t)) member)

theorem not_mem_of_front {t : List UInt8} {c : UInt8} (member : c ∈ s.takeWhile (· ∉ t)) : c ∉ t :=
  of_decide_eq_true (List.mem_takeWhile_imp (p := fun c => decide (c ∉ t)) member)

theorem le_front (inside : k ≤ s.length) (all : ∀ c ∈ s.take k, p c) :
    k ≤ (s.takeWhile p).length := by
  have same : (s.takeWhile p).take k = s.take k := by
    rw [List.take_takeWhile, List.takeWhile_eq_self_iff.mpr all]
  have lengths := congrArg List.length same
  rw [List.length_take, List.length_take] at lengths
  omega

theorem dropWhile_head {c : UInt8} (behind : (s.dropWhile p).head? = some c) : p c = false := by
  have stop := List.head?_dropWhile_not p s
  rw [behind] at stop
  exact stop

theorem behind_front {c : UInt8} (behind : s[(s.takeWhile p).length]? = some c) :
    p c = false := by
  rw [← List.head?_drop, drop_front] at behind
  exact dropWhile_head behind

end

/-- The separators at the front of a string, and the field behind them. -/
def frontPiece (accept s : List UInt8) : Piece :=
  ⟨s.takeWhile (· ∈ accept), (s.dropWhile (· ∈ accept)).takeWhile (· ∉ accept)⟩

/-- What is behind them. -/
def behindPiece (accept s : List UInt8) : List UInt8 :=
  (s.dropWhile (· ∈ accept)).dropWhile (· ∉ accept)

section
variable {m : Storage} {a b budget fuel : Nat} {s t : List UInt8}

theorem frontPiece_whole (t s : List UInt8) :
    (frontPiece t s).separators ++ (frontPiece t s).field ++ behindPiece t s = s := by
  rw [frontPiece, behindPiece, List.append_assoc, List.takeWhile_append_dropWhile,
    List.takeWhile_append_dropWhile]

theorem frontPiece_some (more : s ≠ []) :
    (frontPiece t s).separators ++ (frontPiece t s).field ≠ [] := by
  cases s with
  | nil => exact absurd rfl more
  | cons c s =>
    by_cases found : c ∈ t
    · simp [frontPiece, found]
    · simp [frontPiece, found]

theorem behindPiece_shorter (more : s ≠ []) : (behindPiece t s).length < s.length := by
  have lengths := congrArg List.length (frontPiece_whole t s)
  rw [List.length_append] at lengths
  have positive := List.length_pos_iff.mpr (@frontPiece_some s t more)
  omega

/-- Where something is behind a piece, its field is not missing and separators follow. -/
theorem behindPiece_next (more : behindPiece t s ≠ []) :
    (frontPiece t s).field ≠ [] ∧ (frontPiece t (behindPiece t s)).separators ≠ [] := by
  constructor
  · cases rest : s.dropWhile (· ∈ t) with
    | nil =>
      rw [behindPiece, rest] at more
      exact absurd rfl more
    | cons c later =>
      have plain : c ∉ t := of_decide_eq_false (dropWhile_head (congrArg List.head? rest))
      simp [frontPiece, rest, plain]
  · cases rest : behindPiece t s with
    | nil => exact absurd rest more
    | cons c later =>
      have stop : decide (c ∉ t) = false := dropWhile_head (congrArg List.head? rest)
      have found : c ∈ t := not_not.mp (of_decide_eq_false stop)
      simp [frontPiece, found]

theorem alternates_nil (t : List UInt8) : Alternates t [] [] := by
  refine ⟨rfl, ?_, ?_, ?_, List.isChain_nil⟩
  · exact fun piece member => absurd member List.not_mem_nil
  · exact fun piece member => absurd member List.not_mem_nil
  · exact fun piece member => absurd member List.not_mem_nil

/-- A piece in front of those of the rest. -/
theorem Alternates.cons {pieces : List Piece} (more : s ≠ [])
    (rest : Alternates t (behindPiece t s) pieces)
    (front : ∀ piece ∈ pieces.head?, behindPiece t s ≠ [] ∧
      piece = frontPiece t (behindPiece t s)) :
    Alternates t s (frontPiece t s :: pieces) := by
  refine ⟨?_, ?_, ?_, ?_, ?_⟩
  · rw [List.map_cons, List.flatten_cons, rest.whole, frontPiece_whole]
  · refine List.forall_mem_cons.mpr ⟨fun c member => ?_, rest.separators⟩
    exact mem_of_front member
  · refine List.forall_mem_cons.mpr ⟨fun c member => ?_, rest.fields⟩
    exact not_mem_of_front member
  · exact List.forall_mem_cons.mpr ⟨frontPiece_some more, rest.some⟩
  · refine List.isChain_cons.mpr ⟨fun piece first => ?_, rest.alternate⟩
    obtain ⟨further, same⟩ := front piece first
    rw [same]
    exact behindPiece_next further

theorem spells_field (first : Spells m a s) (pointer : a < 4294967296) (t : List UInt8) :
    Spells m (u32 (a + (frontPiece t s).separators.length)) (s.dropWhile (· ∈ t)) := by
  have dropped := first.drop pointer (List.takeWhile_prefix (· ∈ t)).length_le
  rwa [drop_front] at dropped

theorem spells_behind (first : Spells m a s) (pointer : a < 4294967296) (t : List UInt8) :
    Spells m (u32 (u32 (a + (frontPiece t s).separators.length) + (frontPiece t s).field.length))
      (behindPiece t s) := by
  have dropped := (spells_field first pointer t).drop (Nat.mod_lt _ (by decide))
    (List.takeWhile_prefix (· ∉ t)).length_le
  rwa [drop_front] at dropped

/-- The turns of the loop take one piece each. -/
theorem split_spells (first : Spells m a s) (second : Spells m b t) (pointerA : a < 4294967296)
    (pointerB : b < 4294967296) :
    ∃ pieces, Alternates t s pieces ∧
      (∀ piece ∈ pieces.head?, s ≠ [] ∧ piece = frontPiece t s) ∧
      ∀ budget fuel, t.length < budget → s.length < budget → s.length < fuel →
        split budget m b fuel a = .ok (places a pieces) := by
  induction long : s.length using Nat.strong_induction_on generalizing a s with
  | _ n ih =>
    by_cases nonempty : s = []
    · subst nonempty
      have ends : m a = 0 := first
      refine ⟨[], alternates_nil t, fun piece none0 => absurd none0 (Option.not_mem_none piece),
        fun budget fuel _ _ enough => ?_⟩
      obtain ⟨fuel, rfl⟩ : ∃ f, fuel = f + 1 := ⟨fuel - 1, by omega⟩
      rw [split, if_neg (not_not.mpr ends)]
      rfl
    · have more : m a ≠ 0 := by
        cases s with
        | nil => exact absurd rfl nonempty
        | cons c later => exact first.1 ▸ first.2.1
      have shorter := @behindPiece_shorter s t nonempty
      have least : (s.dropWhile (· ∈ t)).length ≤ s.length := (List.dropWhile_suffix _).length_le
      obtain ⟨pieces, alternates, front, taken⟩ := ih _ (long ▸ shorter)
        (spells_behind first pointerA t) (Nat.mod_lt _ (by decide)) rfl
      refine ⟨frontPiece t s :: pieces, alternates.cons nonempty front, fun piece here => ?_,
        fun budget fuel known room enough => ?_⟩
      · cases here
        exact ⟨nonempty, rfl⟩
      · obtain ⟨fuel, rfl⟩ : ∃ f, fuel = f + 1 := ⟨fuel - 1, by omega⟩
        have spanned : keSpanString budget m a b = .ok (frontPiece t s).separators.length :=
          keSpanString_spells first second pointerA pointerB known (by omega)
        have broken : keBreakCharPtrString budget m
            (u32 (a + (frontPiece t s).separators.length)) b =
            .ok (u32 (u32 (a + (frontPiece t s).separators.length) +
              (frontPiece t s).field.length)) :=
          keBreakCharPtrString_spells (spells_field first pointerA t) second
            (Nat.mod_lt _ (by decide)) pointerB known (by omega)
        have rest := taken budget fuel known (by omega) (by omega)
        rw [split, if_pos more]
        simp only [spanned, broken, rest, Outcome.ok_bind]
        rfl

/-- For all strings the span is the longest accepted front, the break the first
accepted character or the end, and the two in turn take the string apart. -/
theorem tokens_exact (first : Spells m a s) (second : Spells m b t) (pointerA : a < 4294967296)
    (pointerB : b < 4294967296) : Exact m a b s t := by
  refine ⟨⟨(s.takeWhile (· ∈ t)).length, ?_, fun fuel enough => ?_, ?_, ?_⟩,
    ⟨(s.takeWhile (· ∉ t)).length, ?_, fun fuel enough => ?_, ?_, ?_, ?_⟩, ?_⟩
  · exact (List.takeWhile_prefix _).length_le
  · exact keSpanString_spells first second pointerA pointerB (by omega) (by omega)
  · intro c member
    rw [take_front] at member
    exact mem_of_front member
  · exact fun k inside all => le_front inside fun c member => decide_eq_true (all c member)
  · exact (List.takeWhile_prefix _).length_le
  · exact keBreakCharPtrString_spells first second pointerA pointerB (by omega) (by omega)
  · intro c member
    rw [take_front] at member
    exact not_mem_of_front member
  · intro c behind
    have stop : decide (c ∉ t) = false := behind_front behind
    exact not_not.mp (of_decide_eq_false stop)
  · exact fun notNull => notNull _ (List.takeWhile_prefix _).length_le
  · obtain ⟨pieces, alternates, _, taken⟩ := split_spells first second pointerA pointerB
    exact ⟨pieces, alternates, fun fuel enough => taken fuel fuel (by omega) (by omega) (by omega)⟩

end

/-- A path at 1 and the characters that part it at 8, in EBCDIC. -/
def slashed : Storage := fun a =>
  ([0, 0x61, 0x81, 0x82, 0x61, 0x83, 0, 0, 0x61, 0x4B, 0] : List UInt8).getD a 0

theorem slashed_exact : Exact slashed 1 8 [0x61, 0x81, 0x82, 0x61, 0x83] [0x61, 0x4B] :=
  tokens_exact (by decide) (by decide) (by decide) (by decide)

example : split 10 slashed 8 10 1 = .ok [(1, 2, 4), (4, 5, 6)] := by decide

end Tokens
