import UDos.Kernel.Move
import UDos.Library.Words

/-!
# Strings in storage

The functions of `memory.c` on pointers. A pointer wraps at the end of the
address space, NULL is 0, and a loop that looks for the end of a string runs on
an iteration budget. Those that are given elsewhere on ranges of bytes or on
lists of characters are connected to these at the end.
-/

namespace KernelStrings

open KernelMemory

def keCopyMemory (debug : Bool) (m : Storage) (dest src n : Nat) : Outcome (Nat × Storage) := do
  Outcome.check (debug = true → ¬ copyGap dest src < n)
    "Assertion !(abs((ptrdiff_t)dest - (ptrdiff_t)src) < n) failed!: Overlapping memory\r\n"
  .ok (dest, (moveUp m dest src n).2)

def keSetMemoryLoop (m : Storage) (s : Nat) (c : UInt8) : Nat → Storage
  | 0 => m
  | n + 1 => keSetMemoryLoop (m.write s c) (u32 (s + 1)) c n

def keSetMemory (m : Storage) (s : Nat) (c : UInt8) (n : Nat) : Nat × Storage :=
  (s, keSetMemoryLoop m s c n)

def keCompareMemoryLoop (m : Storage) (s1 s2 : Nat) (diff : Int) : Nat → Int
  | 0 => diff
  | n + 1 =>
    keCompareMemoryLoop m (u32 (s1 + 1)) (u32 (s2 + 1))
      (signed32 (diff + ((m s1).toNat - (m s2).toNat))) n

def keCompareMemory (m : Storage) (s1 s2 n : Nat) : Int := keCompareMemoryLoop m s1 s2 0 n

def keStringLengthLoop (m : Storage) : Nat → Nat → Nat → Outcome Nat
  | 0, _, _ => .diverge
  | fuel + 1, s, i =>
    if m s ≠ 0 then keStringLengthLoop m fuel (u32 (s + 1)) (u32 (i + 1)) else .ok i

def keStringLength (fuel : Nat) (m : Storage) (s : Nat) : Outcome Nat :=
  keStringLengthLoop m fuel s 0

/-- The loop of both comparisons: n, the two pointers and the sum at its end. -/
def keCompareLoop (m : Storage) : Nat → Nat → Nat → Int → Nat × Nat × Nat × Int
  | n + 1, s1, s2, diff =>
    if m s1 ≠ 0 ∧ m s2 ≠ 0 then
      keCompareLoop m n (u32 (s1 + 1)) (u32 (s2 + 1))
        (signed32 (diff + ((m s1).toNat - (m s2).toNat)))
    else (n + 1, s1, s2, diff)
  | 0, s1, s2, diff => (0, s1, s2, diff)

def keCompareString (fuel : Nat) (m : Storage) (s1 s2 : Nat) : Outcome Int := do
  let n ← keStringLength fuel m s1
  let (_, s1, s2, diff) := keCompareLoop m n s1 s2 0
  .ok (if m s1 ≠ m s2 then -1 else diff)

def keCompareStringEx (m : Storage) (s1 s2 n : Nat) : Int :=
  let (n, s1, s2, diff) := keCompareLoop m n s1 s2 0
  if m s1 ≠ m s2 ∧ n > 0 then -1 else diff

def keGetCharPtrString (m : Storage) : Nat → Nat → UInt8 → Outcome Nat
  | 0, _, _ => .diverge
  | fuel + 1, s, c =>
    if m s ≠ 0 ∧ m s ≠ c then keGetCharPtrString m fuel (u32 (s + 1)) c
    else .ok (if m s = 0 then 0 else s)

/-- The inner loop over `accept` from index i on, for the character c: whether it
is found. The length of `accept` is taken again on every turn. -/
def keAcceptLoop (budget : Nat) (m : Storage) (accept : Nat) (c : UInt8) : Nat → Nat → Outcome Bool
  | 0, _ => .diverge
  | fuel + 1, i => do
    let length ← keStringLength budget m accept
    if i < length then
      if c ≠ m (u32 (accept + i)) then keAcceptLoop budget m accept c fuel (i + 1)
      else .ok true
    else .ok false

def keSpanStringLoop (budget : Nat) (m : Storage) (accept : Nat) : Nat → Nat → Nat → Outcome Nat
  | 0, _, _ => .diverge
  | fuel + 1, s, spn =>
    if m s ≠ 0 then do
      let isMatch ← keAcceptLoop budget m accept (m s) budget 0
      if isMatch then keSpanStringLoop budget m accept fuel (u32 (s + 1)) (u32 (spn + 1))
      else .ok spn
    else .ok spn

def keSpanString (fuel : Nat) (m : Storage) (s accept : Nat) : Outcome Nat :=
  keSpanStringLoop fuel m accept fuel s 0

def keBreakCharPtrStringLoop (budget : Nat) (m : Storage) (accept : Nat) :
    Nat → Nat → Outcome Nat
  | 0, _ => .diverge
  | fuel + 1, s =>
    if m s ≠ 0 then do
      let isMatch ← keAcceptLoop budget m accept (m s) budget 0
      if isMatch then .ok s
      else keBreakCharPtrStringLoop budget m accept fuel (u32 (s + 1))
    else .ok s

def keBreakCharPtrString (fuel : Nat) (m : Storage) (s accept : Nat) : Outcome Nat :=
  keBreakCharPtrStringLoop fuel m accept fuel s

def keFindStringStringLoop (m : Storage) (needle needleLen : Nat) : Nat → Nat → Outcome Nat
  | 0, _ => .diverge
  | fuel + 1, haystack =>
    if m haystack ≠ 0 then
      if m haystack = m needle ∧ keCompareStringEx m haystack needle needleLen = 0 then
        .ok haystack
      else keFindStringStringLoop m needle needleLen fuel (u32 (haystack + 1))
    else .ok 0

def keFindStringString (fuel : Nat) (m : Storage) (haystack needle : Nat) : Outcome Nat := do
  let needleLen ← keStringLength fuel m needle
  keFindStringStringLoop m needle needleLen fuel haystack

def keCopyString : Nat → Storage → Nat → Nat → Outcome (Nat × Storage)
  | 0, _, _, _ => .diverge
  | fuel + 1, m, s1, s2 =>
    if m s2 ≠ 0 then keCopyString fuel (m.write s1 (m s2)) (u32 (s1 + 1)) (u32 (s2 + 1))
    else .ok (u32 (s1 + 1), m.write s1 0)

def keCopyStringEx (m : Storage) (s1 s2 : Nat) : Nat → Nat × Storage
  | 0 => (u32 (s1 + 1), m.write s1 0)
  | n + 1 =>
    if m s2 ≠ 0 then keCopyStringEx (m.write s1 (m s2)) (u32 (s1 + 1)) (u32 (s2 + 1)) n
    else (u32 (s1 + 1), m.write s1 0)

/-- The loop of the concatenations to the end of their first string. -/
def keStringEnd (m : Storage) : Nat → Nat → Outcome Nat
  | 0, _ => .diverge
  | fuel + 1, s1 => if m s1 ≠ 0 then keStringEnd m fuel (u32 (s1 + 1)) else .ok s1

def keConcatString (fuel : Nat) (m : Storage) (s1 s2 : Nat) : Outcome (Nat × Storage) := do
  let s1 ← keStringEnd m fuel s1
  keCopyString fuel m s1 s2

def keConcatStringEx (fuel : Nat) (m : Storage) (s1 s2 n : Nat) : Outcome (Nat × Storage) := do
  let s1 ← keStringEnd m fuel s1
  .ok (keCopyStringEx m s1 s2 n)

/-- The digits have the character codes F0 to F9. -/
def keDigitsLoop (m : Storage) : Nat → Nat → Int → Outcome Int
  | 0, _, _ => .diverge
  | fuel + 1, s, num =>
    if 0xF0 ≤ m s ∧ m s ≤ 0xF9 then
      keDigitsLoop m fuel (u32 (s + 1))
        (signed32 (signed32 (num * 10) + ((m s).toNat - 0xF0)))
    else .ok num

/-- `KeConvertStringToInt`; `blanks` is where its string literal is in storage. -/
def keConvertStringToInt (fuel : Nat) (m : Storage) (blanks s : Nat) : Outcome Int := do
  let spn ← keSpanString fuel m s blanks
  let s := u32 (s + spn)
  let isNeg : Bool := m s = 0x60
  let s := if isNeg then u32 (s + 1) else s
  let num ← keDigitsLoop m fuel s 0
  .ok (if isNeg then signed32 (-num) else num)

/-- The code returns the value: some budget is enough for its loops. -/
def Returns {α : Type} (f : Nat → Outcome α) (value : α) : Prop := ∃ fuel, f fuel = .ok value

section
variable {m : Storage} {fuel more s : Nat}

theorem keStringLength_cases (fuel : Nat) (m : Storage) (s : Nat) :
    keStringLength fuel m s = .diverge ∨ ∃ length, keStringLength fuel m s = .ok length := by
  have loop : ∀ i, keStringLengthLoop m fuel s i = .diverge ∨
      ∃ length, keStringLengthLoop m fuel s i = .ok length := by
    induction fuel generalizing s with
    | zero => exact fun _ => Or.inl rfl
    | succ fuel ih =>
      intro i
      by_cases ends : m s = 0
      · exact Or.inr ⟨i, by rw [keStringLengthLoop, if_neg (not_not.mpr ends)]⟩
      · rw [keStringLengthLoop, if_pos ends]
        exact ih _ _
  exact loop 0

theorem keStringLength_mono (le : fuel ≤ more) {length : Nat}
    (returned : keStringLength fuel m s = .ok length) : keStringLength more m s = .ok length := by
  have loop : ∀ i, keStringLengthLoop m fuel s i = .ok length →
      keStringLengthLoop m more s i = .ok length := by
    clear returned
    induction fuel generalizing s more with
    | zero => exact fun _ returned => nomatch returned
    | succ fuel ih =>
      intro i returned
      obtain ⟨more, rfl⟩ : ∃ k, more = k + 1 := ⟨more - 1, by omega⟩
      rw [keStringLengthLoop] at returned ⊢
      by_cases ends : m s = 0
      · rw [if_neg (not_not.mpr ends)] at returned ⊢
        exact returned
      · rw [if_pos ends] at returned ⊢
        exact ih (by omega) _ returned
  exact loop 0 returned

/-- Pointers wrap, so the end of some string ends them all. -/
theorem keStringLength_stops {z : Nat} (ends : m z = 0) (pointer : z < 4294967296)
    (start : s < 4294967296) : ∃ fuel length, keStringLength fuel m s = .ok length := by
  have loop : ∀ k s i, u32 (s + k) = z → s < 4294967296 →
      ∃ fuel length, keStringLengthLoop m fuel s i = .ok length := by
    intro k
    induction k with
    | zero =>
      intro s i here low
      rw [Nat.add_zero, u32_eq_self low] at here
      exact ⟨1, i, by rw [keStringLengthLoop, here, if_neg (not_not.mpr ends)]⟩
    | succ k ih =>
      intro s i there low
      by_cases stop : m s = 0
      · exact ⟨1, i, by rw [keStringLengthLoop, if_neg (not_not.mpr stop)]⟩
      · have next : u32 (u32 (s + 1) + k) = z := by
          unfold u32 at there ⊢
          omega
        obtain ⟨fuel, length, returned⟩ := ih (u32 (s + 1)) (u32 (i + 1)) next
          (Nat.mod_lt _ (by decide))
        exact ⟨fuel + 1, length, by rw [keStringLengthLoop, if_pos stop, returned]⟩
  refine loop (z + 4294967296 - s) s 0 ?_ start
  unfold u32
  omega

theorem keFindStringStringLoop_mono {needle length found : Nat} (le : fuel ≤ more)
    (returned : keFindStringStringLoop m needle length fuel s = .ok found) :
    keFindStringStringLoop m needle length more s = .ok found := by
  induction fuel generalizing s more with
  | zero => exact nomatch returned
  | succ fuel ih =>
    obtain ⟨more, rfl⟩ : ∃ k, more = k + 1 := ⟨more - 1, by omega⟩
    rw [keFindStringStringLoop] at returned ⊢
    by_cases ends : m s = 0
    · rw [if_neg (not_not.mpr ends)] at returned ⊢
      exact returned
    · rw [if_pos ends] at returned ⊢
      by_cases here : m s = m needle ∧ keCompareStringEx m s needle length = 0
      · rw [if_pos here] at returned ⊢
        exact returned
      · rw [if_neg here] at returned ⊢
        exact ih (by omega) returned

end

/-- The string at an address: its characters and the NUL behind them. -/
def Spells (m : Storage) : Nat → List UInt8 → Prop
  | a, [] => m a = 0
  | a, c :: s => m a = c ∧ c ≠ 0 ∧ Spells m (u32 (a + 1)) s

instance (m : Storage) (a : Nat) (s : List UInt8) : Decidable (Spells m a s) :=
  match s with
  | [] => inferInstanceAs (Decidable (m a = 0))
  | _ :: s =>
    have := instDecidableSpells m (u32 (a + 1)) s
    inferInstanceAs (Decidable (_ ∧ _ ∧ _))

/-- The blanks that come before a number: a space and a tabulator. -/
def blanksLiteral : List UInt8 := [0x40, 0x05]

section
variable {m : Storage} {a b fuel budget i n : Nat} {s t : List UInt8} {c : UInt8}

theorem Spells.noNul (spelled : Spells m a s) : 0 ∉ s := by
  induction s generalizing a with
  | nil => exact List.not_mem_nil
  | cons c s ih =>
    intro member
    rcases List.mem_cons.mp member with same | later
    · exact spelled.2.1 same.symm
    · exact ih spelled.2.2 later

theorem Spells.char (spelled : Spells m a s) (pointer : a < 4294967296) (inside : i < s.length) :
    m (u32 (a + i)) = s[i] := by
  induction s generalizing a i with
  | nil => exact absurd inside (Nat.not_lt_zero i)
  | cons c s ih =>
    cases i with
    | zero =>
      rw [Nat.add_zero, u32_eq_self pointer]
      exact spelled.1
    | succ i =>
      have rest := ih spelled.2.2 (Nat.mod_lt _ (by decide)) (Nat.lt_of_succ_lt_succ inside)
      rw [← u32_next]
      exact rest

theorem Spells.ends (spelled : Spells m a s) (pointer : a < 4294967296) :
    m (u32 (a + s.length)) = 0 := by
  induction s generalizing a with
  | nil =>
    rw [List.length_nil, Nat.add_zero, u32_eq_self pointer]
    exact spelled
  | cons c s ih =>
    rw [List.length_cons, ← u32_next]
    exact ih spelled.2.2 (Nat.mod_lt _ (by decide))

theorem Spells.short (spelled : Spells m a s) (pointer : a < 4294967296) :
    s.length < 4294967296 := by
  by_contra long
  have inside : s.length - 4294967296 < s.length := by omega
  have same : u32 (a + (s.length - 4294967296)) = u32 (a + s.length) := by
    unfold u32
    omega
  have char := spelled.char pointer inside
  rw [same, spelled.ends pointer] at char
  exact spelled.noNul (char ▸ List.getElem_mem inside)

theorem Spells.drop (spelled : Spells m a s) (pointer : a < 4294967296) (inside : i ≤ s.length) :
    Spells m (u32 (a + i)) (s.drop i) := by
  induction i generalizing a s with
  | zero =>
    rw [Nat.add_zero, u32_eq_self pointer]
    exact spelled
  | succ i ih =>
    cases s with
    | nil => exact absurd inside (Nat.not_succ_le_zero i)
    | cons c s =>
      rw [← u32_next, List.drop_succ_cons]
      exact ih spelled.2.2 (Nat.mod_lt _ (by decide)) (Nat.le_of_succ_le_succ inside)

/-- The length of a string is found when the budget exceeds it, and only then. -/
theorem keStringLength_spells (spelled : Spells m a s) (fuel : Nat) :
    keStringLength fuel m a = if s.length < fuel then .ok (u32 s.length) else .diverge := by
  have loop : ∀ i, i < 4294967296 → keStringLengthLoop m fuel a i =
      if s.length < fuel then .ok (u32 (i + s.length)) else .diverge := by
    induction s generalizing a fuel with
    | nil =>
      intro i counted
      cases fuel with
      | zero => rfl
      | succ fuel =>
        have ends : m a = 0 := spelled
        have short : ([] : List UInt8).length < fuel + 1 := Nat.succ_pos fuel
        rw [keStringLengthLoop, if_neg (not_not.mpr ends), if_pos short]
        exact congrArg Outcome.ok (u32_eq_self counted).symm
    | cons c s ih =>
      intro i counted
      cases fuel with
      | zero => rfl
      | succ fuel =>
        have more : m a ≠ 0 := spelled.1 ▸ spelled.2.1
        have rest := ih spelled.2.2 fuel (u32 (i + 1)) (Nat.mod_lt _ (by decide))
        rw [keStringLengthLoop, if_pos more, rest, u32_next]
        simp only [List.length_cons, Nat.succ_lt_succ_iff]
  have whole := loop 0 (by decide)
  rwa [Nat.zero_add] at whole

/-- A search for a character does not depend on where the accepted ones are. -/
theorem keAcceptLoop_congr (first : Spells m a s) (second : Spells m b s)
    (pointerA : a < 4294967296) (pointerB : b < 4294967296) :
    keAcceptLoop budget m a c fuel i = keAcceptLoop budget m b c fuel i := by
  induction fuel generalizing i with
  | zero => rfl
  | succ fuel ih =>
    rw [keAcceptLoop, keAcceptLoop, keStringLength_spells first, keStringLength_spells second]
    by_cases short : s.length < budget
    · simp only [if_pos short, Outcome.ok_bind]
      by_cases inside : i < u32 s.length
      · have inString : i < s.length := Nat.lt_of_lt_of_le inside (Nat.mod_le _ _)
        rw [if_pos inside, if_pos inside, first.char pointerA inString,
          second.char pointerB inString, ih]
      · rw [if_neg inside, if_neg inside]
    · rw [if_neg short]
      rfl

theorem keSpanString_congr (first : Spells m a s) (second : Spells m b s)
    (pointerA : a < 4294967296) (pointerB : b < 4294967296) (p : Nat) :
    keSpanString fuel m p a = keSpanString fuel m p b := by
  have loop : ∀ budget spn, keSpanStringLoop budget m a fuel p spn =
      keSpanStringLoop budget m b fuel p spn := by
    induction fuel generalizing p with
    | zero => exact fun _ _ => rfl
    | succ fuel ih =>
      intro budget spn
      simp only [keSpanStringLoop, keAcceptLoop_congr first second pointerA pointerB, ih]
  exact loop fuel 0

/-- The comparison loop on strings in storage is that on lists of characters. -/
theorem keCompareLoop_spells (first : Spells m a s) (second : Spells m b t) (n : Nat)
    (diff : Int) :
    ∃ a' b', keCompareLoop m n a b diff = ((compareLoop n s t diff).1, a', b',
        (compareLoop n s t diff).2.2.2) ∧
      Spells m a' (compareLoop n s t diff).2.1 ∧ Spells m b' (compareLoop n s t diff).2.2.1 := by
  induction n generalizing a b s t diff with
  | zero =>
    rw [keCompareLoop, compareLoop]
    · exact ⟨a, b, rfl, first, second⟩
    · intro _ _ _ _ _ zero
      cases zero
  | succ n ih =>
    cases s with
    | nil =>
      have ends : m a = 0 := first
      rw [keCompareLoop, if_neg fun both => both.1 ends, compareLoop]
      · exact ⟨a, b, rfl, first, second⟩
      · intro _ _ _ _ _ _ more
        cases more
    | cons c s =>
      cases t with
      | nil =>
        have ends : m b = 0 := second
        rw [keCompareLoop, if_neg fun both => both.2 ends, compareLoop]
        · exact ⟨a, b, rfl, first, second⟩
        · intro _ _ _ _ _ _ _ more
          cases more
      | cons d t =>
        have more : m a ≠ 0 ∧ m b ≠ 0 := ⟨first.1 ▸ first.2.1, second.1 ▸ second.2.1⟩
        have step := ih first.2.2 second.2.2 (signed32 (diff + (c.toNat - d.toNat)))
        rw [keCompareLoop, if_pos more, first.1, second.1, compareLoop]
        exact step

theorem Spells.first (spelled : Spells m a s) : m a = first s := by
  cases s with
  | nil => exact spelled
  | cons c s => exact spelled.1

theorem keCompareStringEx_spells (first : Spells m a s) (second : Spells m b t) (n : Nat) :
    keCompareStringEx m a b n = KernelMemory.keCompareStringEx s t n := by
  obtain ⟨a', b', loop, restA, restB⟩ := keCompareLoop_spells first second n 0
  simp only [keCompareStringEx, KernelMemory.keCompareStringEx, loop, restA.first, restB.first]

theorem keCompareString_spells (first : Spells m a s) (second : Spells m b t)
    (short : s.length < 4294967296) (enough : s.length < fuel) :
    keCompareString fuel m a b = .ok (KernelMemory.keCompareString s t) := by
  obtain ⟨a', b', loop, restA, restB⟩ := keCompareLoop_spells first second s.length 0
  rw [keCompareString, keStringLength_spells first, if_pos enough, Outcome.ok_bind,
    u32_eq_self short, loop]
  simp only [KernelMemory.keCompareString, restA.first, restB.first]

/-- A search for an accepted character is membership. -/
theorem keAcceptLoop_spells (spelled : Spells m a s) (pointer : a < 4294967296)
    (short : s.length < 4294967296) (known : s.length < budget) (inside : i ≤ s.length)
    (enough : s.length < fuel + i) :
    keAcceptLoop budget m a c fuel i = .ok (decide (c ∈ s.drop i)) := by
  induction fuel generalizing i with
  | zero => exact absurd enough (by omega)
  | succ fuel ih =>
    rw [keAcceptLoop, keStringLength_spells spelled, if_pos known, Outcome.ok_bind,
      u32_eq_self short]
    by_cases more : i < s.length
    · have listed : c ∈ s.drop i ↔ c = s[i] ∨ c ∈ s.drop (i + 1) := by
        rw [List.drop_eq_getElem_cons more, List.mem_cons]
      rw [if_pos more, spelled.char pointer more]
      by_cases here : c = s[i]
      · rw [if_neg (not_not.mpr here), decide_eq_true (listed.mpr (Or.inl here))]
      · rw [if_pos here, ih more (by omega)]
        simp only [listed, here, false_or]
    · rw [if_neg more, List.drop_of_length_le (by omega)]
      simp

/-- The break is found where the list of characters splits. -/
theorem keBreakCharPtrString_spells (first : Spells m a s) (second : Spells m b t)
    (accepts : b < 4294967296) (short : t.length < 4294967296) (known : t.length < fuel)
    (enough : s.length < fuel) :
    ∃ p, keBreakCharPtrString fuel m a b = .ok p ∧
      Spells m p (KernelMemory.keBreakCharPtrString s t) := by
  have loop : ∀ budget, t.length < budget → ∃ p,
      keBreakCharPtrStringLoop budget m b fuel a = .ok p ∧
        Spells m p (KernelMemory.keBreakCharPtrString s t) := by
    clear known
    intro budget known
    induction fuel generalizing a s with
    | zero => exact absurd enough (Nat.not_lt_zero _)
    | succ fuel ih =>
      rw [keBreakCharPtrStringLoop]
      cases s with
      | nil =>
        have ends : m a = 0 := first
        rw [if_neg (not_not.mpr ends)]
        exact ⟨a, rfl, first⟩
      | cons c s =>
        have more : m a ≠ 0 := first.1 ▸ first.2.1
        have search := keAcceptLoop_spells (c := c) second accepts short known (Nat.zero_le _)
          (by omega)
        rw [if_pos more, first.1, search, Outcome.ok_bind, List.drop_zero,
          KernelMemory.keBreakCharPtrString]
        by_cases found : c ∈ t
        · simp only [found, decide_true, if_true]
          exact ⟨a, rfl, first⟩
        · simp only [found, decide_false, if_false, Bool.false_eq_true]
          exact ih first.2.2 (Nat.lt_of_succ_lt_succ enough)
  exact loop fuel known

end

section
variable {m : Storage} {dest src s s1 s2 n : Nat} {c : UInt8}

/-- Where no pointer wraps, the functions on bytes are those on ranges. -/
theorem keCopyMemory_inRange (debug : Bool) (roomDest : dest + n ≤ 4294967296)
    (roomSrc : src + n ≤ 4294967296) :
    keCopyMemory debug m dest src n = KernelMemory.keCopyMemory debug m dest src n := by
  rw [keCopyMemory, KernelMemory.keCopyMemory, moveUp_storage m roomDest roomSrc]

theorem keSetMemory_inRange (room : s + n ≤ 4294967296) :
    keSetMemory m s c n = (s, m.fill s c n) := by
  have loop : keSetMemoryLoop m s c n = m.fill s c n := by
    induction n generalizing m s with
    | zero => rfl
    | succ n ih =>
      rw [keSetMemoryLoop, Storage.fill]
      by_cases last : n = 0
      · subst last
        rfl
      · have next : u32 (s + 1) = s + 1 := u32_eq_self (by omega)
        rw [next]
        exact ih (by omega)
  rw [keSetMemory, loop]

theorem keCompareMemory_inRange (room1 : s1 + n ≤ 4294967296) (room2 : s2 + n ≤ 4294967296) :
    keCompareMemory m s1 s2 n =
      KernelMemory.keCompareMemory (m.bytes s1 n) (m.bytes s2 n) := by
  have loop : ∀ diff, keCompareMemoryLoop m s1 s2 diff n =
      (List.zipWith (fun (a b : UInt8) => (a.toNat - b.toNat : Int)) (m.bytes s1 n)
        (m.bytes s2 n)).foldl (fun diff d => signed32 (diff + d)) diff := by
    induction n generalizing s1 s2 with
    | zero => exact fun _ => rfl
    | succ n ih =>
      intro diff
      rw [keCompareMemoryLoop, Storage.bytes_succ, Storage.bytes_succ, List.zipWith_cons_cons,
        List.foldl_cons]
      by_cases last : n = 0
      · subst last
        rfl
      · have next1 : u32 (s1 + 1) = s1 + 1 := u32_eq_self (by omega)
        have next2 : u32 (s2 + 1) = s2 + 1 := u32_eq_self (by omega)
        rw [next1, next2]
        exact ih (by omega) (by omega) _
  exact loop 0

end

end KernelStrings
