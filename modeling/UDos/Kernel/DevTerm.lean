import Mathlib.Data.List.Forall2
import UDos.Kernel.Memory
import UDos.Library.Buffer

/-!
# Writing to a terminal

Before `DevWriteTerm` hands a message to the channel it rewrites the line ends
in the buffer of its caller: a carriage return and the character behind it
become a line feed and a carriage return, whatever that character is.
-/

namespace DevTerm

open KernelMemory

/-- The loop over the buffer, with index r. An access outside the n bytes of the
buffer is a fault. -/
def newlineLoop (n : Nat) : Nat → List UInt8 → Nat → Outcome (List UInt8)
  | 0, _, _ => .diverge
  | fuel + 1, buf, r =>
    if (r : Int) < signed32 n then
      match buf[r]? with
      | none => .fault
      | some c =>
        if c = 0x0D then do
          let buf ← Buffer.store buf r 0x0A
          let buf ← Buffer.store buf (r + 1) 0x0D
          newlineLoop n fuel buf (r + 2)
        else newlineLoop n fuel buf (r + 1)
    else .ok buf

/-- What `DevWriteTerm` makes of the message before it is written. -/
def devWriteTermNewlines (buf : List UInt8) : Outcome (List UInt8) :=
  newlineLoop buf.length (buf.length + 1) buf 0

/-- The text after the loop; there is none when it runs off the buffer. -/
def rewritten : List UInt8 → Option (List UInt8)
  | [] => some []
  | [c] => if c = 0x0D then none else some [c]
  | c :: d :: text =>
    if c = 0x0D then (rewritten text).map fun out => 0x0A :: 0x0D :: out
    else (rewritten (d :: text)).map fun out => c :: out

/-- Carriage return, and the codes of a line feed: the one that the loop stores,
the newline of the character set and the line feed of the device. -/
def IsLineEnd (c : UInt8) : Prop := c = 0x0D ∨ c = 0x0A ∨ c = 0x15 ∨ c = 0x25

instance (c : UInt8) : Decidable (IsLineEnd c) := inferInstanceAs (Decidable (_ ∨ _))

/-- A character that may be altered is a carriage return or a line feed. -/
def Spared (c c' : UInt8) : Prop := c' = c ∨ IsLineEnd c

/-- From the left, with a carriage return and the character behind it taken
together: behind each carriage return there is another one or a line feed. -/
def Paired : List UInt8 → Prop
  | [] => True
  | [c] => c ≠ 0x0D
  | c :: d :: text => if c = 0x0D then IsLineEnd d ∧ Paired text else Paired (d :: text)

instance decidablePaired : (text : List UInt8) → Decidable (Paired text)
  | [] => isTrue trivial
  | [c] => inferInstanceAs (Decidable (c ≠ 0x0D))
  | c :: d :: text =>
    have := decidablePaired text
    have := decidablePaired (d :: text)
    inferInstanceAs (Decidable (if c = 0x0D then _ else _))

section
variable {n fuel : Nat} {done : List UInt8}

theorem newlineLoop_stop (reached : n = done.length) (natural : n < 2147483648) :
    newlineLoop n (fuel + 1) done done.length = .ok done := by
  have positive : signed32 n = n := signed32_eq_self (by omega) (by omega)
  have stop : ¬ (done.length : Int) < n := by omega
  rw [newlineLoop, positive, if_neg stop]

theorem newlineLoop_plain {c : UInt8} {text : List UInt8} (inside : done.length < n)
    (natural : n < 2147483648) (plain : c ≠ 0x0D) :
    newlineLoop n (fuel + 1) (done ++ c :: text) done.length =
      newlineLoop n fuel (done ++ [c] ++ text) (done ++ [c]).length := by
  have positive : signed32 n = n := signed32_eq_self (by omega) (by omega)
  have more : (done.length : Int) < n := by omega
  rw [newlineLoop, positive, if_pos more, List.getElem?_append_right le_rfl]
  simp [plain]

theorem newlineLoop_last (inside : done.length < n) (natural : n < 2147483648) :
    newlineLoop n (fuel + 1) (done ++ [0x0D]) done.length = .fault := by
  have positive : signed32 n = n := signed32_eq_self (by omega) (by omega)
  have more : (done.length : Int) < n := by omega
  rw [newlineLoop, positive, if_pos more, List.getElem?_append_right le_rfl]
  simp [Buffer.store]

theorem newlineLoop_return {d : UInt8} {text : List UInt8} (inside : done.length < n)
    (natural : n < 2147483648) :
    newlineLoop n (fuel + 1) (done ++ 0x0D :: d :: text) done.length =
      newlineLoop n fuel (done ++ [0x0A, 0x0D] ++ text) (done ++ [0x0A, 0x0D]).length := by
  have positive : signed32 n = n := signed32_eq_self (by omega) (by omega)
  have more : (done.length : Int) < n := by omega
  rw [newlineLoop, positive, if_pos more, List.getElem?_append_right le_rfl]
  simp [Buffer.store]

end

/-- The loop rewrites the text in front of it, or runs off the buffer. -/
theorem newlineLoop_eq (done text : List UInt8) {n fuel : Nat}
    (length : n = done.length + text.length) (natural : n < 2147483648)
    (enough : text.length ≤ fuel) :
    newlineLoop n (fuel + 1) (done ++ text) done.length =
      match rewritten text with
      | some out => .ok (done ++ out)
      | none => .fault := by
  induction text using rewritten.induct generalizing done fuel with
  | case1 =>
    rw [List.append_nil, newlineLoop_stop length natural]
    simp [rewritten]
  | case2 =>
    simp only [List.length_singleton] at length
    rw [newlineLoop_last (by omega) natural, rewritten, if_pos rfl]
  | case3 c plain =>
    simp only [List.length_singleton] at length enough
    obtain ⟨fuel, rfl⟩ := Nat.exists_eq_succ_of_ne_zero (show fuel ≠ 0 by omega)
    have reached : n = (done ++ [c]).length := by simp [length]
    rw [newlineLoop_plain (by omega) natural plain, List.append_nil,
      newlineLoop_stop reached natural, rewritten, if_neg plain]
  | case4 d text ih =>
    simp only [List.length_cons] at length enough
    obtain ⟨fuel, rfl⟩ := Nat.exists_eq_succ_of_ne_zero (show fuel ≠ 0 by omega)
    have further : n = (done ++ [0x0A, 0x0D]).length + text.length := by
      simp only [List.length_append, List.length_cons, List.length_nil]
      omega
    rw [newlineLoop_return (by omega) natural, ih _ further (by omega), rewritten, if_pos rfl]
    cases rewritten text with
    | none => rfl
    | some out => simp
  | case5 c d text plain ih =>
    simp only [List.length_cons] at length enough
    obtain ⟨fuel, rfl⟩ := Nat.exists_eq_succ_of_ne_zero (show fuel ≠ 0 by omega)
    have further : n = (done ++ [c]).length + (d :: text).length := by
      simp only [List.length_append, List.length_cons, List.length_nil]
      omega
    have room : (d :: text).length ≤ fuel := by
      rw [List.length_cons]
      omega
    rw [newlineLoop_plain (by omega) natural plain, ih _ further room, rewritten, if_neg plain]
    cases rewritten (d :: text) with
    | none => rfl
    | some out => simp

/-- The text that is written differs from the message in line ends only. -/
theorem rewritten_spares_iff (text : List UInt8) :
    (∃ out, rewritten text = some out ∧ List.Forall₂ Spared text out) ↔ Paired text := by
  induction text using rewritten.induct with
  | case1 => exact iff_of_true ⟨[], rfl, List.Forall₂.nil⟩ trivial
  | case2 => simp [rewritten, Paired]
  | case3 c plain =>
    refine iff_of_true ⟨[c], by rw [rewritten, if_neg plain], ?_⟩ plain
    exact List.Forall₂.cons (Or.inl rfl) List.Forall₂.nil
  | case4 d text ih =>
    rw [rewritten, if_pos rfl, Paired, if_pos rfl, ← ih]
    constructor
    · rintro ⟨out, made, spares⟩
      obtain ⟨tail, rest, rfl⟩ := Option.map_eq_some_iff.mp made
      cases spares with
      | cons _ spares =>
        cases spares with
        | cons behind spares =>
          refine ⟨?_, tail, rest, spares⟩
          rcases behind with rfl | lineEnd
          · exact Or.inl rfl
          · exact lineEnd
    · rintro ⟨lineEnd, tail, rest, spares⟩
      refine ⟨_, Option.map_eq_some_iff.mpr ⟨tail, rest, rfl⟩, ?_⟩
      exact .cons (Or.inr (Or.inl rfl)) (.cons (Or.inr lineEnd) spares)
  | case5 c d text plain ih =>
    rw [rewritten, if_neg plain, Paired, if_neg plain, ← ih]
    constructor
    · rintro ⟨out, made, spares⟩
      obtain ⟨tail, rest, rfl⟩ := Option.map_eq_some_iff.mp made
      cases spares with
      | cons _ spares => exact ⟨tail, rest, spares⟩
    · rintro ⟨tail, rest, spares⟩
      exact ⟨_, Option.map_eq_some_iff.mpr ⟨tail, rest, rfl⟩, .cons (Or.inl rfl) spares⟩

/-- The loop stays in the buffer and alters carriage returns and line feeds only
exactly when behind each carriage return that it finds there is another one or a
line feed; a length that is negative as an `int` makes it do nothing. -/
theorem devWriteTermNewlines_spares_iff (buf : List UInt8) (size : buf.length < 4294967296) :
    (∃ out, devWriteTermNewlines buf = .ok out ∧ List.Forall₂ Spared buf out) ↔
      2147483648 ≤ buf.length ∨ Paired buf := by
  rcases Nat.lt_or_ge buf.length 2147483648 with natural | large
  · have ran : devWriteTermNewlines buf = _ :=
      newlineLoop_eq [] buf (Nat.zero_add _).symm natural le_rfl
    rw [ran, ← rewritten_spares_iff]
    have small : ¬ 2147483648 ≤ buf.length := Nat.not_le.mpr natural
    cases rewritten buf with
    | none => simp [small]
    | some out => simp [small]
  · have negative : ¬ ((0 : Nat) : Int) < signed32 buf.length := by
      unfold signed32
      omega
    have ran : devWriteTermNewlines buf = .ok buf := by
      rw [devWriteTermNewlines, newlineLoop, if_neg negative]
    refine iff_of_true ⟨buf, ran, ?_⟩ (Or.inl large)
    exact List.forall₂_same.mpr fun c _ => Or.inl rfl

theorem devWriteTermNewlines_spares_crLf :
    (∃ out, devWriteTermNewlines [0xC1, 0x0D, 0x15] = .ok out ∧
        List.Forall₂ Spared [0xC1, 0x0D, 0x15] out) ↔
      2147483648 ≤ [(0xC1 : UInt8), 0x0D, 0x15].length ∨ Paired [0xC1, 0x0D, 0x15] :=
  devWriteTermNewlines_spares_iff [0xC1, 0x0D, 0x15] (by decide)

/-- A letter behind a carriage return is lost, and a carriage return at the end
is followed by a store outside the buffer. -/
theorem letter_lost :
    ¬ (∃ out, devWriteTermNewlines [0x0D, 0xC1] = .ok out ∧
        List.Forall₂ Spared [0x0D, 0xC1] out) ∧
      devWriteTermNewlines [0x0D] = .fault := by
  refine ⟨?_, by decide⟩
  rintro ⟨out, ran, spares⟩
  have made : devWriteTermNewlines [0x0D, 0xC1] = .ok [0x0A, 0x0D] := by decide
  rw [made] at ran
  cases ran
  cases spares with
  | cons _ spares =>
    cases spares with
    | cons behind _ => exact absurd behind (by unfold Spared; decide)

end DevTerm
