import UDos.Kernel.Strings
import UDos.Library.Runs

/-!
# Copies and concatenations of strings

What `KeCopyString`, `KeCopyStringEx`, `KeConcatString` and `KeConcatStringEx` leave in
storage, and when they return at all: a copy that comes to the end of its own source
has no end. A string that is built in a buffer by any sequence of them is the list that
the same sequence of list operations gives, as long as it fits.
-/

namespace KernelStrings

open KernelMemory

theorem pointer_u32 (n : Nat) : u32 n < 4294967296 := Nat.mod_lt n (by decide)

/-- The characters and the NUL behind them, stored from an address on. -/
def put (m : Storage) (a : Nat) : List UInt8 → Storage
  | [] => m.write a 0
  | c :: s => put (m.write a c) (u32 (a + 1)) s

section
variable {m m' : Storage} {a b s1 s2 x : Nat} {s t : List UInt8}

theorem put_outside (pointer : a < 4294967296) (outside : ∀ i ≤ s.length, x ≠ u32 (a + i)) :
    put m a s x = m x := by
  have start : x ≠ a := by
    have first := outside 0 (Nat.zero_le _)
    rw [Nat.add_zero, u32_eq_self pointer] at first
    exact first
  induction s generalizing m a with
  | nil => exact Storage.write_other m 0 start
  | cons c s ih =>
    have later : ∀ i ≤ s.length, x ≠ u32 (u32 (a + 1) + i) := by
      intro i le
      rw [u32_next]
      exact outside (i + 1) (Nat.succ_le_succ le)
    have next : x ≠ u32 (a + 1) := by
      have first := later 0 (Nat.zero_le _)
      rw [Nat.add_zero, u32_eq_self (pointer_u32 _)] at first
      exact first
    rw [put, ih (pointer_u32 _) later next]
    exact Storage.write_other m c start

theorem put_spells (pointer : a < 4294967296) (noNul : 0 ∉ s) (short : s.length < 4294967296) :
    Spells (put m a s) a s := by
  induction s generalizing m a with
  | nil => exact Storage.write_same m a 0
  | cons c s ih =>
    rw [List.length_cons] at short
    refine ⟨?_, fun nul => noNul (List.mem_cons.mpr (Or.inl nul.symm)), ?_⟩
    · have apart : ∀ i ≤ s.length, a ≠ u32 (u32 (a + 1) + i) := by
        intro i le
        simp only [u32]
        omega
      rw [put, put_outside (pointer_u32 _) apart]
      exact Storage.write_same m a c
    · exact ih (pointer_u32 _) (fun nul => noNul (List.mem_cons_of_mem c nul))
        (Nat.lt_of_succ_lt short)

/-- A string is where it was when its bytes are. -/
theorem Spells.congr (spelled : Spells m a s) (pointer : a < 4294967296)
    (same : ∀ i ≤ s.length, m' (u32 (a + i)) = m (u32 (a + i))) : Spells m' a s := by
  have start : m' a = m a := by
    have first := same 0 (Nat.zero_le _)
    rw [Nat.add_zero, u32_eq_self pointer] at first
    exact first
  induction s generalizing a with
  | nil => exact start.trans spelled
  | cons c s ih =>
    have later : ∀ i ≤ s.length, m' (u32 (u32 (a + 1) + i)) = m (u32 (u32 (a + 1) + i)) := by
      intro i le
      rw [u32_next]
      exact same (i + 1) (Nat.succ_le_succ le)
    refine ⟨start.trans spelled.1, spelled.2.1, ?_⟩
    apply ih spelled.2.2 (pointer_u32 _) later
    have first := later 0 (Nat.zero_le _)
    rw [Nat.add_zero, u32_eq_self (pointer_u32 _)] at first
    exact first

/-- How far the destination is ahead of the source, around the address space. -/
def ahead (dest src : Nat) : Nat := u32 (dest + (4294967296 - src))

theorem ahead_next (dest src : Nat) (pointer : src < 4294967296) :
    ahead (u32 (dest + 1)) (u32 (src + 1)) = ahead dest src := by
  simp only [ahead, u32]
  omega

theorem write_apart (spelled : Spells m s2 s) (source : s2 < 4294967296) (c : UInt8)
    (apart : ∀ i ≤ s.length, s1 ≠ u32 (s2 + i)) : Spells (m.write s1 c) s2 s :=
  spelled.congr source fun i le => Storage.write_other m c fun same => apart i le same.symm

/-- Storing the first character leaves the rest of the string, as far away as before. -/
theorem rest_behind {c : UInt8} (spelled : Spells m s2 (c :: s)) (source : s2 < 4294967296)
    (clear : ahead s1 s2 = 0 ∨ (c :: s).length < ahead s1 s2) :
    Spells (m.write s1 c) (u32 (s2 + 1)) s ∧
      (ahead (u32 (s1 + 1)) (u32 (s2 + 1)) = 0 ∨
        s.length < ahead (u32 (s1 + 1)) (u32 (s2 + 1))) := by
  have short := spelled.short source
  rw [List.length_cons] at clear short
  have apart : ∀ i ≤ s.length, s1 ≠ u32 (u32 (s2 + 1) + i) := by
    intro i le
    simp only [ahead, u32] at clear ⊢
    omega
  refine ⟨write_apart spelled.2.2 (pointer_u32 _) c apart, ?_⟩
  rw [ahead_next s1 s2 source]
  omega

/-- The copy of a string that does not contain its destination, behind its start. -/
theorem keCopyString_put (spelled : Spells m s2 s) (source : s2 < 4294967296)
    (clear : ahead s1 s2 = 0 ∨ s.length < ahead s1 s2) (fuel : Nat) :
    keCopyString fuel m s1 s2 =
      if s.length < fuel then .ok (u32 (s1 + s.length + 1), put m s1 s) else .diverge := by
  induction s generalizing m s1 s2 fuel with
  | nil =>
    cases fuel with
    | zero => rfl
    | succ fuel =>
      have ends : m s2 = 0 := spelled
      have enough : ([] : List UInt8).length < fuel + 1 := Nat.succ_pos fuel
      rw [keCopyString, if_neg (by simp [ends]), if_pos enough]
      rfl
  | cons c s ih =>
    cases fuel with
    | zero => rfl
    | succ fuel =>
      obtain ⟨kept, further⟩ := rest_behind spelled source clear
      obtain ⟨char, notNul, -⟩ := spelled
      have pointer : u32 (u32 (s1 + 1) + s.length + 1) = u32 (s1 + (c :: s).length + 1) := by
        simp only [u32, List.length_cons]
        omega
      rw [keCopyString, if_pos (by rw [char]; exact notNul), char,
        ih kept (pointer_u32 _) further fuel, pointer]
      simp only [List.length_cons, Nat.add_lt_add_iff_right, put]

/-- The bounded copy stores the first n characters, and a NUL. -/
theorem keCopyStringEx_put (spelled : Spells m s2 s) (source : s2 < 4294967296)
    (clear : ahead s1 s2 = 0 ∨ s.length < ahead s1 s2) (n : Nat) :
    keCopyStringEx m s1 s2 n = (u32 (s1 + (s.take n).length + 1), put m s1 (s.take n)) := by
  induction n generalizing m s1 s2 s with
  | zero => rfl
  | succ n ih =>
    cases s with
    | nil =>
      have ends : m s2 = 0 := spelled
      rw [keCopyStringEx, if_neg (by simp [ends])]
      rfl
    | cons c s =>
      obtain ⟨kept, further⟩ := rest_behind spelled source clear
      obtain ⟨char, notNul, -⟩ := spelled
      have pointer : u32 (u32 (s1 + 1) + (s.take n).length + 1) =
          u32 (s1 + ((c :: s).take (n + 1)).length + 1) := by
        simp only [u32, List.take_succ_cons, List.length_cons]
        omega
      rw [keCopyStringEx, if_pos (by rw [char]; exact notNul), char,
        ih kept (pointer_u32 _) further, pointer]
      rfl

/-- From a destination inside its source on, a copy finds only what it stored. -/
theorem keCopyString_endless {gap : Nat} (source : s2 < 4294967296) (positive : 0 < gap)
    (few : gap < 4294967296) (full : ∀ i < gap, m (u32 (s2 + i)) ≠ 0) (fuel : Nat) :
    keCopyString fuel m (u32 (s2 + gap)) s2 = .diverge := by
  induction fuel generalizing m s2 with
  | zero => rfl
  | succ fuel ih =>
    have first : m s2 ≠ 0 := by
      have start := full 0 positive
      rw [Nat.add_zero, u32_eq_self source] at start
      exact start
    have dest : u32 (u32 (s2 + gap) + 1) = u32 (u32 (s2 + 1) + gap) := by
      simp only [u32]
      omega
    have still : ∀ i < gap, m.write (u32 (s2 + gap)) (m s2) (u32 (u32 (s2 + 1) + i)) ≠ 0 := by
      intro i below
      by_cases last : i + 1 = gap
      · have here : u32 (u32 (s2 + 1) + i) = u32 (s2 + gap) := by
          rw [u32_next, last]
        rw [here, Storage.write_same]
        exact first
      · have other : u32 (u32 (s2 + 1) + i) ≠ u32 (s2 + gap) := by
          simp only [u32]
          omega
        rw [Storage.write_other _ _ other, u32_next]
        exact full (i + 1) (by omega)
    rw [keCopyString, if_pos first, dest]
    exact ih (pointer_u32 _) still

theorem keStringEnd_eq (spelled : Spells m a s) (pointer : a < 4294967296) (fuel : Nat) :
    keStringEnd m fuel a = if s.length < fuel then .ok (u32 (a + s.length)) else .diverge := by
  induction s generalizing a fuel with
  | nil =>
    cases fuel with
    | zero => rfl
    | succ fuel =>
      have ends : m a = 0 := spelled
      have enough : ([] : List UInt8).length < fuel + 1 := Nat.succ_pos fuel
      rw [keStringEnd, if_neg (by simp [ends]), if_pos enough, List.length_nil, Nat.add_zero,
        u32_eq_self pointer]
  | cons c s ih =>
    cases fuel with
    | zero => rfl
    | succ fuel =>
      obtain ⟨char, notNul, rest⟩ := spelled
      rw [keStringEnd, if_pos (by rw [char]; exact notNul), ih rest (pointer_u32 _) fuel, u32_next]
      simp only [List.length_cons, Nat.add_lt_add_iff_right]

/-- The characters from an address on, those of two strings in a row. -/
theorem put_append (pointer : a < 4294967296) (noNul : 0 ∉ s) (noNul' : 0 ∉ t)
    (short : s.length + t.length < 4294967296)
    (chars : ∀ i (inside : i < s.length), m (u32 (a + i)) = s[i]) :
    Spells (put m (u32 (a + s.length)) t) a (s ++ t) := by
  induction s generalizing a with
  | nil =>
    rw [List.length_nil, Nat.add_zero, u32_eq_self pointer]
    exact put_spells pointer noNul' (by omega)
  | cons c s ih =>
    rw [List.length_cons] at short
    have first := chars 0 (Nat.succ_pos _)
    rw [Nat.add_zero, u32_eq_self pointer] at first
    have outside : ∀ i ≤ t.length, a ≠ u32 (u32 (a + (c :: s).length) + i) := by
      intro i le
      simp only [u32, List.length_cons]
      omega
    refine ⟨?_, fun nul => noNul (List.mem_cons.mpr (Or.inl nul.symm)), ?_⟩
    · rw [put_outside (pointer_u32 _) outside]
      exact first
    · have later : ∀ i (inside : i < s.length), m (u32 (u32 (a + 1) + i)) = s[i] := by
        intro i inside
        rw [u32_next]
        exact chars (i + 1) (Nat.succ_lt_succ inside)
      have tail := ih (pointer_u32 _) (fun nul => noNul (List.mem_cons_of_mem c nul)) (by omega)
        later
      rw [u32_next] at tail
      exact tail

/-- The destination of a concatenation is inside the string that is appended. -/
def RunsInto (a b : Nat) (s t : List UInt8) : Prop :=
  0 < ahead (u32 (a + s.length)) b ∧ ahead (u32 (a + s.length)) b ≤ t.length

theorem keConcatString_eq (first : Spells m a s) (second : Spells m b t) (pointer : a < 4294967296)
    (source : b < 4294967296) (clear : ¬ RunsInto a b s t) (fuel : Nat) :
    keConcatString fuel m a b = if s.length < fuel ∧ t.length < fuel then
      .ok (u32 (a + s.length + t.length + 1), put m (u32 (a + s.length)) t) else .diverge := by
  have gap : ahead (u32 (a + s.length)) b = 0 ∨ t.length < ahead (u32 (a + s.length)) b := by
    simp only [RunsInto] at clear
    omega
  have pointer' : u32 (u32 (a + s.length) + t.length + 1) = u32 (a + s.length + t.length + 1) := by
    simp only [u32]
    omega
  rw [keConcatString, keStringEnd_eq first pointer]
  by_cases enough : s.length < fuel
  · rw [if_pos enough, Outcome.ok_bind, keCopyString_put second source gap, pointer']
    simp only [enough, true_and]
  · rw [if_neg enough, if_neg fun both => enough both.1]
    rfl

/-- `KeConcatString` returns exactly when the end of its first string is not inside the
second, behind its start. Then the first has the second at its end, and no byte besides
those of the second and its NUL is stored. -/
theorem keConcatString_exact (m : Storage) (a b : Nat) (s t : List UInt8)
    (first : Spells m a s) (second : Spells m b t) (pointer : a < 4294967296)
    (source : b < 4294967296) (short : s.length + t.length < 4294967296) :
    ((∃ fuel r, keConcatString fuel m a b = .ok r) ↔ ¬ RunsInto a b s t) ∧
      ∀ fuel r, keConcatString fuel m a b = .ok r →
        r.1 = u32 (a + s.length + t.length + 1) ∧ Spells r.2 a (s ++ t) ∧
          ∀ x, (∀ i ≤ t.length, x ≠ u32 (a + s.length + i)) → r.2 x = m x := by
  have endless : RunsInto a b s t → ∀ fuel r, keConcatString fuel m a b ≠ .ok r := by
    rintro ⟨positive, inside⟩ fuel r ran
    rw [keConcatString, keStringEnd_eq first pointer] at ran
    split at ran
    · have dest : u32 (a + s.length) = u32 (b + ahead (u32 (a + s.length)) b) := by
        simp only [ahead, u32]
        omega
      have full : ∀ i < ahead (u32 (a + s.length)) b, m (u32 (b + i)) ≠ 0 := by
        intro i below nul
        have char := second.char source (by omega : i < t.length)
        rw [nul] at char
        exact second.noNul (char ▸ List.getElem_mem _)
      rw [Outcome.ok_bind, dest,
        keCopyString_endless source positive (pointer_u32 _) full fuel] at ran
      cases ran
    · cases ran
  refine ⟨⟨?_, fun clear => ?_⟩, ?_⟩
  · rintro ⟨fuel, r, ran⟩ into
    exact endless into fuel r ran
  · refine ⟨s.length + t.length + 1,
      (u32 (a + s.length + t.length + 1), put m (u32 (a + s.length)) t), ?_⟩
    rw [keConcatString_eq first second pointer source clear, if_pos (by omega)]
  · intro fuel r ran
    have clear : ¬ RunsInto a b s t := fun into => endless into fuel r ran
    rw [keConcatString_eq first second pointer source clear] at ran
    split at ran
    · cases ran
      refine ⟨rfl, ?_, ?_⟩
      · exact put_append pointer first.noNul second.noNul short fun i inside =>
          first.char pointer inside
      · intro x outside
        apply put_outside (pointer_u32 _)
        intro i le
        have same : u32 (u32 (a + s.length) + i) = u32 (a + s.length + i) := by
          simp only [u32]
          omega
        rw [same]
        exact outside i le
    · cases ran

end

/-- "AB" at 100 and "C" at 200. -/
def twoStrings : Storage := ((Storage.write (fun _ => 0) 100 0xC1).write 101 0xC2).write 200 0xC3

theorem twoStrings_concat :
    ((∃ fuel r, keConcatString fuel twoStrings 100 200 = .ok r) ↔
        ¬ RunsInto 100 200 [0xC1, 0xC2] [0xC3]) ∧
      ∀ fuel r, keConcatString fuel twoStrings 100 200 = .ok r →
        r.1 = u32 (100 + 2 + 1 + 1) ∧ Spells r.2 100 [0xC1, 0xC2, 0xC3] ∧
          ∀ x, (∀ i ≤ 1, x ≠ u32 (100 + 2 + i)) → r.2 x = twoStrings x :=
  keConcatString_exact twoStrings 100 200 [0xC1, 0xC2] [0xC3] (by decide) (by decide) (by decide)
    (by decide) (by decide)

/-- The calls that store a string into a buffer; s2 is the address of their source. -/
inductive Edit where
  | copy (s2 : Nat)
  | copyEx (s2 n : Nat)
  | concat (s2 : Nat)
  | concatEx (s2 n : Nat)
deriving DecidableEq, Repr

def Edit.source : Edit → Nat
  | .copy s2 | .copyEx s2 _ | .concat s2 | .concatEx s2 _ => s2

/-- The call, with the buffer as its first argument. -/
def edit (fuel buf : Nat) (m : Storage) : Edit → Outcome Storage
  | .copy s2 => keCopyString fuel m buf s2 >>= fun r => .ok r.2
  | .copyEx s2 n => .ok (keCopyStringEx m buf s2 n).2
  | .concat s2 => keConcatString fuel m buf s2 >>= fun r => .ok r.2
  | .concatEx s2 n => keConcatStringEx fuel m buf s2 n >>= fun r => .ok r.2

/-- What the call is for: the text that the buffer holds after it. -/
def Edit.text (piece old : List UInt8) : Edit → List UInt8
  | .copy _ => piece
  | .copyEx _ n => piece.take n
  | .concat _ => old ++ piece
  | .concatEx _ n => old ++ piece.take n

section
variable (literal : Nat → List UInt8)

/-- The text after each of the calls in turn is shorter than the buffer. -/
def Fits (size : Nat) : List UInt8 → List Edit → Prop
  | _, [] => True
  | old, e :: rest =>
    (e.text (literal e.source) old).length < size ∧ Fits size (e.text (literal e.source) old) rest

/-- The strings that the calls read are in storage, and none of them in the buffer. -/
def Sources (m : Storage) (buf size : Nat) (edits : List Edit) : Prop :=
  ∀ e ∈ edits, e.source < 4294967296 ∧ Spells m e.source (literal e.source) ∧
    ∀ i ≤ (literal e.source).length,
      u32 (e.source + i) < buf ∨ buf + size ≤ u32 (e.source + i)

variable {literal} {m : Storage} {buf size fuel : Nat} {old : List UInt8}

theorem clear_of_outside {s : List UInt8} {s1 s2 : Nat} (inside : buf ≤ s1)
    (below : s1 < buf + size) (room : buf + size ≤ 4294967296) (source : s2 < 4294967296)
    (outside : ∀ i ≤ s.length, u32 (s2 + i) < buf ∨ buf + size ≤ u32 (s2 + i)) :
    ahead s1 s2 = 0 ∨ s.length < ahead s1 s2 := by
  by_contra inFront
  have le : ahead s1 s2 ≤ s.length := by omega
  have here := outside _ le
  have same : u32 (s2 + ahead s1 s2) = s1 := by
    simp only [ahead, u32]
    omega
  rw [same] at here
  omega

/-- One call leaves the text that it is for, and nothing outside the buffer changes. -/
theorem edit_spells (e : Edit) (spelled : Spells m buf old) (room : buf + size ≤ 4294967296)
    (nonempty : old.length < size) (sources : Sources literal m buf size [e])
    (fits : (e.text (literal e.source) old).length < size) (budget : 4294967296 ≤ fuel) :
    ∃ m', edit fuel buf m e = .ok m' ∧ Spells m' buf (e.text (literal e.source) old) ∧
      ∀ x, x < buf ∨ buf + size ≤ x → m' x = m x := by
  obtain ⟨source, piece, outside⟩ := sources e (List.mem_singleton_self e)
  have pointer : buf < 4294967296 := by omega
  have short := piece.short source
  have atStart : ahead buf e.source = 0 ∨ (literal e.source).length < ahead buf e.source :=
    clear_of_outside le_rfl (by omega) room source outside
  have frame : ∀ {a : Nat} {s : List UInt8}, buf ≤ a → a + s.length < buf + size →
      ∀ x, x < buf ∨ buf + size ≤ x → put m a s x = m x := by
    intro a s above below x apart
    refine put_outside (by omega) fun i le => ?_
    rw [u32_eq_self (by omega)]
    omega
  have ending : u32 (buf + old.length) = buf + old.length := u32_eq_self (by omega)
  have atEnd : ahead (buf + old.length) e.source = 0 ∨
      (literal e.source).length < ahead (buf + old.length) e.source :=
    clear_of_outside (Nat.le_add_right _ _) (by omega) room source outside
  have found : keStringEnd m fuel buf = .ok (buf + old.length) := by
    rw [keStringEnd_eq spelled pointer, if_pos (by omega), ending]
  cases e with
  | copy s2 =>
    dsimp only [Edit.source, Edit.text] at piece source atStart atEnd short fits ⊢
    refine ⟨put m buf (literal s2), ?_, ?_, ?_⟩
    · rw [edit, keCopyString_put piece source atStart, if_pos (Nat.lt_of_lt_of_le short budget)]
      rfl
    · exact put_spells pointer piece.noNul short
    · exact frame le_rfl (Nat.add_lt_add_left fits buf)
  | copyEx s2 n =>
    dsimp only [Edit.source, Edit.text] at piece source atStart atEnd short fits ⊢
    have free : 0 ∉ (literal s2).take n := fun nul => piece.noNul (List.mem_of_mem_take nul)
    refine ⟨put m buf ((literal s2).take n), ?_, ?_, ?_⟩
    · rw [edit, keCopyStringEx_put piece source atStart]
    · exact put_spells pointer free (by omega)
    · exact frame le_rfl (Nat.add_lt_add_left fits buf)
  | concat s2 =>
    dsimp only [Edit.source, Edit.text] at piece source atStart atEnd short fits ⊢
    rw [List.length_append] at fits
    refine ⟨put m (buf + old.length) (literal s2), ?_, ?_, ?_⟩
    · rw [edit, keConcatString, found, Outcome.ok_bind, keCopyString_put piece source atEnd,
        if_pos (Nat.lt_of_lt_of_le short budget)]
      rfl
    · rw [← ending]
      exact put_append pointer spelled.noNul piece.noNul (by omega) fun i inside =>
        spelled.char pointer inside
    · exact frame (Nat.le_add_right _ _) (by omega)
  | concatEx s2 n =>
    dsimp only [Edit.source, Edit.text] at piece source atStart atEnd short fits ⊢
    have free : 0 ∉ (literal s2).take n := fun nul => piece.noNul (List.mem_of_mem_take nul)
    rw [List.length_append] at fits
    refine ⟨put m (buf + old.length) ((literal s2).take n), ?_, ?_, ?_⟩
    · rw [edit, keConcatStringEx, found, Outcome.ok_bind, Outcome.ok_bind,
        keCopyStringEx_put piece source atEnd]
    · rw [← ending]
      exact put_append pointer spelled.noNul free (by omega) fun i inside =>
        spelled.char pointer inside
    · exact frame (Nat.le_add_right _ _) (by omega)

theorem Sources.kept {m' : Storage} {edits : List Edit} (sources : Sources literal m buf size edits)
    (same : ∀ x, x < buf ∨ buf + size ≤ x → m' x = m x) : Sources literal m' buf size edits := by
  intro e member
  obtain ⟨source, piece, outside⟩ := sources e member
  exact ⟨source, piece.congr source fun i le => same _ (outside i le), outside⟩

/-- Any sequence of copies and concatenations into a buffer, from strings outside it,
leaves the text that the same sequence of list operations gives, and changes nothing
outside the buffer, if every text on the way is shorter than the buffer. -/
theorem edits_spell (literal : Nat → List UInt8) (m : Storage) (buf size fuel : Nat)
    (old : List UInt8) (edits : List Edit) (spelled : Spells m buf old)
    (room : buf + size ≤ 4294967296) (nonempty : old.length < size)
    (sources : Sources literal m buf size edits) (fits : Fits literal size old edits)
    (budget : 4294967296 ≤ fuel) :
    ∃ m', Runs.run (edit fuel buf) m edits = .ok m' ∧
      Spells m' buf (edits.foldl (fun text e => e.text (literal e.source) text) old) ∧
      ∀ x, x < buf ∨ buf + size ≤ x → m' x = m x := by
  induction edits generalizing m old with
  | nil => exact ⟨m, rfl, spelled, fun _ _ => rfl⟩
  | cons e rest ih =>
    obtain ⟨now, later⟩ := fits
    have only : Sources literal m buf size [e] := by
      intro e' member
      rw [List.mem_singleton.mp member]
      exact sources e List.mem_cons_self
    obtain ⟨m1, made, text, kept⟩ := edit_spells e spelled room nonempty only now budget
    have rest' : Sources literal m buf size rest := fun e' member =>
      sources e' (List.mem_cons_of_mem e member)
    obtain ⟨m', ran, spells, kept'⟩ := ih m1 _ text now (rest'.kept kept) later
    refine ⟨m', ?_, spells, fun x apart => (kept' x apart).trans (kept x apart)⟩
    rw [Runs.run_cons, made, Outcome.ok_bind]
    exact ran

/-- "AB" is copied to 100 again, and the first character of "C" put behind it. -/
theorem twoStrings_edits :
    ∃ m', Runs.run (edit 4294967296 300) twoStrings [.copy 100, .concatEx 200 1] = .ok m' ∧
      Spells m' 300 [0xC1, 0xC2, 0xC3] ∧ ∀ x, x < 300 ∨ 304 ≤ x → m' x = twoStrings x := by
  have sources : Sources (fun a => if a = 100 then [0xC1, 0xC2] else [0xC3]) twoStrings 300 4
      [.copy 100, .concatEx 200 1] := by
    intro e member
    have two : e = .copy 100 ∨ e = .concatEx 200 1 := by simpa using member
    rcases two with rfl | rfl <;> decide
  exact edits_spell (fun a => if a = 100 then [0xC1, 0xC2] else [0xC3]) twoStrings 300 4
    4294967296 [] [.copy 100, .concatEx 200 1] (by decide) (by decide) (by decide) sources
    ⟨by decide, by decide, trivial⟩ le_rfl

end

end KernelStrings
