import UDos.Kernel.Strings

/-!
# Storage and string functions of the runtime library

The functions of the library's own `memory.c`, and that each does to storage
what its twin in the kernel does and returns the same.
-/

namespace RtlMemory

open KernelMemory (u32 signed32 moveUp moveDown keMoveMemory copyGap Moved Movable
  keMoveMemory_moved_iff)
open KernelStrings

/-- The upward loop of `RtlCopyMemory` and `RtlMoveMemory`: `c_dest` at its end. -/
def rtlUpLoop (m : Storage) (dest src : Nat) : Nat → Nat × Storage
  | 0 => (dest, m)
  | n + 1 => rtlUpLoop (m.write dest (m src)) (u32 (dest + 1)) (u32 (src + 1)) n

/-- The downward loop of `RtlMoveMemory`. -/
def rtlDownLoop (m : Storage) (dest src : Nat) : Nat → Nat × Storage
  | 0 => (dest, m)
  | n + 1 =>
    rtlDownLoop (m.write dest (m src)) (u32 (dest + 4294967295)) (u32 (src + 4294967295)) n

def rtlCopyMemory (m : Storage) (dest src n : Nat) : Nat × Storage :=
  (dest, (rtlUpLoop m dest src n).2)

def rtlMoveMemory (m : Storage) (dest src n : Nat) : Nat × Storage :=
  if signed32 dest < signed32 src then rtlUpLoop m dest src n
  else rtlDownLoop m (u32 (dest + n)) (u32 (src + n)) n

def rtlSetMemoryLoop (m : Storage) (s : Nat) (c : UInt8) : Nat → Storage
  | 0 => m
  | n + 1 => rtlSetMemoryLoop (m.write s c) (u32 (s + 1)) c n

def rtlSetMemory (m : Storage) (s : Nat) (c : UInt8) (n : Nat) : Nat × Storage :=
  (s, rtlSetMemoryLoop m s c n)

def rtlCompareMemoryLoop (m : Storage) (s1 s2 : Nat) (diff : Int) : Nat → Int
  | 0 => diff
  | n + 1 =>
    rtlCompareMemoryLoop m (u32 (s1 + 1)) (u32 (s2 + 1))
      (signed32 (diff + ((m s1).toNat - (m s2).toNat))) n

def rtlCompareMemory (m : Storage) (s1 s2 n : Nat) : Int := rtlCompareMemoryLoop m s1 s2 0 n

def rtlStringLengthLoop (m : Storage) : Nat → Nat → Nat → Outcome Nat
  | 0, _, _ => .diverge
  | fuel + 1, s, i =>
    if m s ≠ 0 then rtlStringLengthLoop m fuel (u32 (s + 1)) (u32 (i + 1)) else .ok i

def rtlStringLength (fuel : Nat) (m : Storage) (s : Nat) : Outcome Nat :=
  rtlStringLengthLoop m fuel s 0

/-- The loop of both comparisons: n, the two pointers and the sum at its end. -/
def rtlCompareLoop (m : Storage) : Nat → Nat → Nat → Int → Nat × Nat × Nat × Int
  | n + 1, s1, s2, diff =>
    if m s1 ≠ 0 ∧ m s2 ≠ 0 then
      rtlCompareLoop m n (u32 (s1 + 1)) (u32 (s2 + 1))
        (signed32 (diff + ((m s1).toNat - (m s2).toNat)))
    else (n + 1, s1, s2, diff)
  | 0, s1, s2, diff => (0, s1, s2, diff)

def rtlCompareString (fuel : Nat) (m : Storage) (s1 s2 : Nat) : Outcome Int := do
  let n ← rtlStringLength fuel m s1
  let (_, s1, s2, diff) := rtlCompareLoop m n s1 s2 0
  .ok (if m s1 ≠ m s2 then -1 else diff)

def rtlCompareStringEx (m : Storage) (s1 s2 n : Nat) : Int :=
  let (n, s1, s2, diff) := rtlCompareLoop m n s1 s2 0
  if m s1 ≠ m s2 ∧ n > 0 then -1 else diff

def rtlGetCharPtrString (m : Storage) : Nat → Nat → UInt8 → Outcome Nat
  | 0, _, _ => .diverge
  | fuel + 1, s, c =>
    if m s ≠ 0 ∧ m s ≠ c then rtlGetCharPtrString m fuel (u32 (s + 1)) c
    else .ok (if m s = 0 then 0 else s)

/-- The inner loop over `accept` from index i on, for the character c: whether it
is found. The length of `accept` is taken again on every turn. -/
def rtlAcceptLoop (budget : Nat) (m : Storage) (accept : Nat) (c : UInt8) : Nat → Nat → Outcome Bool
  | 0, _ => .diverge
  | fuel + 1, i => do
    let length ← rtlStringLength budget m accept
    if i < length then
      if c ≠ m (u32 (accept + i)) then rtlAcceptLoop budget m accept c fuel (i + 1)
      else .ok true
    else .ok false

def rtlSpanStringLoop (budget : Nat) (m : Storage) (accept : Nat) : Nat → Nat → Nat → Outcome Nat
  | 0, _, _ => .diverge
  | fuel + 1, s, spn =>
    if m s ≠ 0 then do
      let isMatch ← rtlAcceptLoop budget m accept (m s) budget 0
      if isMatch then rtlSpanStringLoop budget m accept fuel (u32 (s + 1)) (u32 (spn + 1))
      else .ok spn
    else .ok spn

def rtlSpanString (fuel : Nat) (m : Storage) (s accept : Nat) : Outcome Nat :=
  rtlSpanStringLoop fuel m accept fuel s 0

def rtlBreakCharPtrStringLoop (budget : Nat) (m : Storage) (accept : Nat) :
    Nat → Nat → Outcome Nat
  | 0, _ => .diverge
  | fuel + 1, s =>
    if m s ≠ 0 then do
      let isMatch ← rtlAcceptLoop budget m accept (m s) budget 0
      if isMatch then .ok s
      else rtlBreakCharPtrStringLoop budget m accept fuel (u32 (s + 1))
    else .ok s

def rtlBreakCharPtrString (fuel : Nat) (m : Storage) (s accept : Nat) : Outcome Nat :=
  rtlBreakCharPtrStringLoop fuel m accept fuel s

/-- The length of the needle is taken again at every character that starts it. -/
def rtlFindStringStringLoop (budget : Nat) (m : Storage) (needle : Nat) :
    Nat → Nat → Outcome Nat
  | 0, _ => .diverge
  | fuel + 1, haystack =>
    if m haystack ≠ 0 then
      if m haystack = m needle then do
        let needleLen ← rtlStringLength budget m needle
        if rtlCompareStringEx m haystack needle needleLen = 0 then .ok haystack
        else rtlFindStringStringLoop budget m needle fuel (u32 (haystack + 1))
      else rtlFindStringStringLoop budget m needle fuel (u32 (haystack + 1))
    else .ok 0

def rtlFindStringString (fuel : Nat) (m : Storage) (haystack needle : Nat) : Outcome Nat :=
  rtlFindStringStringLoop fuel m needle fuel haystack

def rtlCopyString : Nat → Storage → Nat → Nat → Outcome (Nat × Storage)
  | 0, _, _, _ => .diverge
  | fuel + 1, m, s1, s2 =>
    if m s2 ≠ 0 then rtlCopyString fuel (m.write s1 (m s2)) (u32 (s1 + 1)) (u32 (s2 + 1))
    else .ok (u32 (s1 + 1), m.write s1 0)

def rtlCopyStringEx (m : Storage) (s1 s2 : Nat) : Nat → Nat × Storage
  | 0 => (u32 (s1 + 1), m.write s1 0)
  | n + 1 =>
    if m s2 ≠ 0 then rtlCopyStringEx (m.write s1 (m s2)) (u32 (s1 + 1)) (u32 (s2 + 1)) n
    else (u32 (s1 + 1), m.write s1 0)

/-- The loop of the concatenations to the end of their first string. -/
def rtlStringEnd (m : Storage) : Nat → Nat → Outcome Nat
  | 0, _ => .diverge
  | fuel + 1, s1 => if m s1 ≠ 0 then rtlStringEnd m fuel (u32 (s1 + 1)) else .ok s1

def rtlConcatString (fuel : Nat) (m : Storage) (s1 s2 : Nat) : Outcome (Nat × Storage) := do
  let s1 ← rtlStringEnd m fuel s1
  rtlCopyString fuel m s1 s2

def rtlConcatStringEx (fuel : Nat) (m : Storage) (s1 s2 n : Nat) : Outcome (Nat × Storage) := do
  let s1 ← rtlStringEnd m fuel s1
  .ok (rtlCopyStringEx m s1 s2 n)

/-- The digits have the character codes F0 to F9. -/
def rtlDigitsLoop (m : Storage) : Nat → Nat → Int → Outcome Int
  | 0, _, _ => .diverge
  | fuel + 1, s, num =>
    if 0xF0 ≤ m s ∧ m s ≤ 0xF9 then
      rtlDigitsLoop m fuel (u32 (s + 1))
        (signed32 (signed32 (num * 10) + ((m s).toNat - 0xF0)))
    else .ok num

/-- `RtlConvertStringToInt`; `blanks` is where its string literal is in storage. -/
def rtlConvertStringToInt (fuel : Nat) (m : Storage) (blanks s : Nat) : Outcome Int := do
  let spn ← rtlSpanString fuel m s blanks
  let s := u32 (s + spn)
  let isNeg : Bool := m s = 0x60
  let s := if isNeg then u32 (s + 1) else s
  let num ← rtlDigitsLoop m fuel s 0
  .ok (if isNeg then signed32 (-num) else num)

section
variable (m : Storage) (fuel budget n s s1 s2 : Nat)

theorem rtlUpLoop_eq : rtlUpLoop m s1 s2 n = moveUp m s1 s2 n := by
  induction n generalizing m s1 s2 with
  | zero => rfl
  | succ n ih => exact ih _ _ _

theorem rtlDownLoop_eq : rtlDownLoop m s1 s2 n = moveDown m s1 s2 n := by
  induction n generalizing m s1 s2 with
  | zero => rfl
  | succ n ih => exact ih _ _ _

theorem rtlMoveMemory_eq : rtlMoveMemory m s1 s2 n = keMoveMemory m s1 s2 n := by
  rw [rtlMoveMemory, keMoveMemory, rtlUpLoop_eq, rtlDownLoop_eq]

theorem rtlSetMemory_eq (c : UInt8) : rtlSetMemory m s c n = keSetMemory m s c n := by
  have loop : rtlSetMemoryLoop m s c n = keSetMemoryLoop m s c n := by
    induction n generalizing m s with
    | zero => rfl
    | succ n ih => exact ih _ _
  rw [rtlSetMemory, keSetMemory, loop]

theorem rtlCompareMemory_eq : rtlCompareMemory m s1 s2 n = keCompareMemory m s1 s2 n := by
  have loop : ∀ diff, rtlCompareMemoryLoop m s1 s2 diff n = keCompareMemoryLoop m s1 s2 diff n := by
    induction n generalizing s1 s2 with
    | zero => exact fun _ => rfl
    | succ n ih => exact fun _ => ih _ _ _
  exact loop 0

theorem rtlStringLength_eq : rtlStringLength fuel m s = keStringLength fuel m s := by
  have loop : ∀ i, rtlStringLengthLoop m fuel s i = keStringLengthLoop m fuel s i := by
    induction fuel generalizing s with
    | zero => exact fun _ => rfl
    | succ fuel ih =>
      intro i
      rw [rtlStringLengthLoop, keStringLengthLoop, ih]
  exact loop 0

theorem rtlCompareLoop_eq (diff : Int) :
    rtlCompareLoop m n s1 s2 diff = keCompareLoop m n s1 s2 diff := by
  induction n generalizing s1 s2 diff with
  | zero => rfl
  | succ n ih => rw [rtlCompareLoop, keCompareLoop, ih]

theorem rtlCompareString_eq : rtlCompareString fuel m s1 s2 = keCompareString fuel m s1 s2 := by
  simp only [rtlCompareString, keCompareString, rtlStringLength_eq, rtlCompareLoop_eq]

theorem rtlCompareStringEx_eq : rtlCompareStringEx m s1 s2 n = keCompareStringEx m s1 s2 n := by
  simp only [rtlCompareStringEx, keCompareStringEx, rtlCompareLoop_eq]

theorem rtlGetCharPtrString_eq (c : UInt8) :
    rtlGetCharPtrString m fuel s c = keGetCharPtrString m fuel s c := by
  induction fuel generalizing s with
  | zero => rfl
  | succ fuel ih => rw [rtlGetCharPtrString, keGetCharPtrString, ih]

theorem rtlAcceptLoop_eq (accept i : Nat) (c : UInt8) :
    rtlAcceptLoop budget m accept c fuel i = keAcceptLoop budget m accept c fuel i := by
  induction fuel generalizing i with
  | zero => rfl
  | succ fuel ih => simp only [rtlAcceptLoop, keAcceptLoop, rtlStringLength_eq, ih]

theorem rtlSpanString_eq (accept : Nat) :
    rtlSpanString fuel m s accept = keSpanString fuel m s accept := by
  have loop : ∀ budget spn, rtlSpanStringLoop budget m accept fuel s spn =
      keSpanStringLoop budget m accept fuel s spn := by
    induction fuel generalizing s with
    | zero => exact fun _ _ => rfl
    | succ fuel ih =>
      intro budget spn
      simp only [rtlSpanStringLoop, keSpanStringLoop, rtlAcceptLoop_eq, ih]
  exact loop fuel 0

theorem rtlBreakCharPtrString_eq (accept : Nat) :
    rtlBreakCharPtrString fuel m s accept = keBreakCharPtrString fuel m s accept := by
  have loop : ∀ budget, rtlBreakCharPtrStringLoop budget m accept fuel s =
      keBreakCharPtrStringLoop budget m accept fuel s := by
    induction fuel generalizing s with
    | zero => exact fun _ => rfl
    | succ fuel ih =>
      intro budget
      simp only [rtlBreakCharPtrStringLoop, keBreakCharPtrStringLoop, rtlAcceptLoop_eq, ih]
  exact loop fuel

theorem rtlCopyString_eq : rtlCopyString fuel m s1 s2 = keCopyString fuel m s1 s2 := by
  induction fuel generalizing m s1 s2 with
  | zero => rfl
  | succ fuel ih => rw [rtlCopyString, keCopyString, ih]

theorem rtlCopyStringEx_eq : rtlCopyStringEx m s1 s2 n = keCopyStringEx m s1 s2 n := by
  induction n generalizing m s1 s2 with
  | zero => rfl
  | succ n ih => rw [rtlCopyStringEx, keCopyStringEx, ih]

theorem rtlStringEnd_eq : rtlStringEnd m fuel s = keStringEnd m fuel s := by
  induction fuel generalizing s with
  | zero => rfl
  | succ fuel ih => rw [rtlStringEnd, keStringEnd, ih]

theorem rtlConcatString_eq : rtlConcatString fuel m s1 s2 = keConcatString fuel m s1 s2 := by
  simp only [rtlConcatString, keConcatString, rtlStringEnd_eq, rtlCopyString_eq]

theorem rtlConcatStringEx_eq :
    rtlConcatStringEx fuel m s1 s2 n = keConcatStringEx fuel m s1 s2 n := by
  simp only [rtlConcatStringEx, keConcatStringEx, rtlStringEnd_eq, rtlCopyStringEx_eq]

theorem rtlConvertStringToInt_eq {blanks own : Nat} {text : List UInt8}
    (kernel : Spells m blanks text) (library : Spells m own text) (low : blanks < 4294967296)
    (lowOwn : own < 4294967296) :
    rtlConvertStringToInt fuel m own s = keConvertStringToInt fuel m blanks s := by
  have loop : ∀ s num, rtlDigitsLoop m fuel s num = keDigitsLoop m fuel s num := by
    induction fuel with
    | zero => exact fun _ _ => rfl
    | succ fuel ih =>
      intro s num
      rw [rtlDigitsLoop, keDigitsLoop, ih]
  have span : keSpanString fuel m s own = keSpanString fuel m s blanks :=
    keSpanString_congr library kernel lowOwn low s
  simp only [rtlConvertStringToInt, keConvertStringToInt, rtlSpanString_eq, span, loop]

end

section
variable {m : Storage} {fuel budget needle haystack found length : Nat}

/-- With the length of the needle the two loops are the same. -/
theorem rtlFindStringStringLoop_of_length
    (known : keStringLength budget m needle = .ok length) :
    rtlFindStringStringLoop budget m needle fuel haystack =
      keFindStringStringLoop m needle length fuel haystack := by
  induction fuel generalizing haystack with
  | zero => rfl
  | succ fuel ih =>
    rw [rtlFindStringStringLoop, keFindStringStringLoop, rtlStringLength_eq, known]
    simp only [Outcome.ok_bind, rtlCompareStringEx_eq, ih]
    by_cases start : m haystack = m needle
    · by_cases here : keCompareStringEx m haystack needle length = 0
      · simp [start, here]
      · simp [start, here]
    · simp [start]

/-- A search that never took the length of the needle ran into the end of the
haystack, and would have with any length. -/
theorem rtlFindStringStringLoop_of_diverge
    (unknown : keStringLength budget m needle = .diverge) (low : haystack < 4294967296)
    (returned : rtlFindStringStringLoop budget m needle fuel haystack = .ok found) :
    (∃ z, m z = 0 ∧ z < 4294967296) ∧
      ∀ length, keFindStringStringLoop m needle length fuel haystack = .ok found := by
  induction fuel generalizing haystack with
  | zero => cases returned
  | succ fuel ih =>
    rw [rtlFindStringStringLoop, rtlStringLength_eq, unknown] at returned
    by_cases ends : m haystack = 0
    · rw [if_neg (not_not.mpr ends)] at returned
      refine ⟨⟨haystack, ends, low⟩, fun length => ?_⟩
      rw [keFindStringStringLoop, if_neg (not_not.mpr ends)]
      exact returned
    · rw [if_pos ends] at returned
      by_cases start : m haystack = m needle
      · rw [if_pos start] at returned
        cases returned
      · rw [if_neg start] at returned
        obtain ⟨stops, same⟩ := ih (Nat.mod_lt _ (by decide)) returned
        refine ⟨stops, fun length => ?_⟩
        rw [keFindStringStringLoop, if_pos ends, if_neg fun both => start both.1]
        exact same length

/-- The kernel takes the length of the needle before its loop, the library in
it; they return the same, if not on the same budget. -/
theorem rtlFindStringString_iff (low : haystack < 4294967296) (lowNeedle : needle < 4294967296) :
    Returns (fun fuel => keFindStringString fuel m haystack needle) found ↔
      Returns (fun fuel => rtlFindStringString fuel m haystack needle) found := by
  constructor
  · rintro ⟨fuel, returned⟩
    obtain ⟨length, known, rest⟩ := Outcome.bind_eq_ok.mp returned
    exact ⟨fuel, (rtlFindStringStringLoop_of_length known).trans rest⟩
  · rintro ⟨fuel, returned⟩
    rcases keStringLength_cases fuel m needle with unknown | ⟨length, known⟩
    · obtain ⟨⟨z, ends, pointer⟩, same⟩ :=
        rtlFindStringStringLoop_of_diverge unknown low returned
      obtain ⟨enough, length, known⟩ := keStringLength_stops ends pointer lowNeedle
      have longer := keStringLength_mono (Nat.le_max_right fuel enough) known
      have found := keFindStringStringLoop_mono (Nat.le_max_left fuel enough) (same length)
      exact ⟨max fuel enough, Outcome.bind_eq_ok.mpr ⟨length, longer, found⟩⟩
    · exact ⟨fuel, Outcome.bind_eq_ok.mpr
        ⟨length, known, (rtlFindStringStringLoop_of_length known).symm.trans returned⟩⟩

end

/-- The kernel and the runtime library have the same storage and string
functions: on every storage and every arguments they return the same and leave
the same storage. Each has its own copy of the literal of blanks. -/
theorem twins_agree :
    (∀ debug m dest src n, (debug = true → ¬ copyGap dest src < n) →
      keCopyMemory debug m dest src n = .ok (rtlCopyMemory m dest src n)) ∧
    (∀ m dest src n, keMoveMemory m dest src n = rtlMoveMemory m dest src n) ∧
    (∀ m s c n, keSetMemory m s c n = rtlSetMemory m s c n) ∧
    (∀ m s1 s2 n, keCompareMemory m s1 s2 n = rtlCompareMemory m s1 s2 n) ∧
    (∀ fuel m s, keStringLength fuel m s = rtlStringLength fuel m s) ∧
    (∀ fuel m s1 s2, keCompareString fuel m s1 s2 = rtlCompareString fuel m s1 s2) ∧
    (∀ m s1 s2 n, keCompareStringEx m s1 s2 n = rtlCompareStringEx m s1 s2 n) ∧
    (∀ fuel m s c, keGetCharPtrString m fuel s c = rtlGetCharPtrString m fuel s c) ∧
    (∀ fuel m s accept, keSpanString fuel m s accept = rtlSpanString fuel m s accept) ∧
    (∀ fuel m s accept,
      keBreakCharPtrString fuel m s accept = rtlBreakCharPtrString fuel m s accept) ∧
    (∀ fuel m s1 s2, keCopyString fuel m s1 s2 = rtlCopyString fuel m s1 s2) ∧
    (∀ m s1 s2 n, keCopyStringEx m s1 s2 n = rtlCopyStringEx m s1 s2 n) ∧
    (∀ fuel m s1 s2, keConcatString fuel m s1 s2 = rtlConcatString fuel m s1 s2) ∧
    (∀ fuel m s1 s2 n, keConcatStringEx fuel m s1 s2 n = rtlConcatStringEx fuel m s1 s2 n) ∧
    (∀ (m : Storage) (haystack needle : Fin 4294967296) (found : Nat),
      Returns (fun fuel => keFindStringString fuel m haystack needle) found ↔
        Returns (fun fuel => rtlFindStringString fuel m haystack needle) found) ∧
    ∀ (fuel : Nat) (m : Storage) (blanks own : Fin 4294967296) (s : Nat),
      Spells m blanks blanksLiteral → Spells m own blanksLiteral →
        keConvertStringToInt fuel m blanks s = rtlConvertStringToInt fuel m own s := by
  refine ⟨?_, fun m dest src n => (rtlMoveMemory_eq m n dest src).symm,
    fun m s c n => (rtlSetMemory_eq m n s c).symm,
    fun m s1 s2 n => (rtlCompareMemory_eq m n s1 s2).symm,
    fun fuel m s => (rtlStringLength_eq m fuel s).symm,
    fun fuel m s1 s2 => (rtlCompareString_eq m fuel s1 s2).symm,
    fun m s1 s2 n => (rtlCompareStringEx_eq m n s1 s2).symm,
    fun fuel m s c => (rtlGetCharPtrString_eq m fuel s c).symm,
    fun fuel m s accept => (rtlSpanString_eq m fuel s accept).symm,
    fun fuel m s accept => (rtlBreakCharPtrString_eq m fuel s accept).symm,
    fun fuel m s1 s2 => (rtlCopyString_eq m fuel s1 s2).symm,
    fun m s1 s2 n => (rtlCopyStringEx_eq m n s1 s2).symm,
    fun fuel m s1 s2 => (rtlConcatString_eq m fuel s1 s2).symm,
    fun fuel m s1 s2 n => (rtlConcatStringEx_eq m fuel n s1 s2).symm, ?_, ?_⟩
  · intro debug m dest src n apart
    rw [keCopyMemory, Outcome.check_of apart, rtlCopyMemory, rtlUpLoop_eq]
    rfl
  · intro m haystack needle found
    exact rtlFindStringString_iff haystack.isLt needle.isLt
  · intro fuel m blanks own s kernel library
    exact (rtlConvertStringToInt_eq m fuel s kernel library blanks.isLt own.isLt).symm

/-- " -12" behind the two literals. -/
def numberStorage : Storage := fun a =>
  if a = 1 ∨ a = 4 ∨ a = 7 then 0x40 else if a = 2 ∨ a = 5 then 0x05 else if a = 8 then 0x60
  else if a = 9 then 0xF1 else if a = 10 then 0xF2 else 0

theorem twins_agree_number :
    keConvertStringToInt 9 numberStorage (1 : Fin 4294967296) 7 =
      rtlConvertStringToInt 9 numberStorage (4 : Fin 4294967296) 7 ∧
    keConvertStringToInt 9 numberStorage 1 7 = .ok (-12) := by
  obtain ⟨-, -, -, -, -, -, -, -, -, -, -, -, -, -, -, convert⟩ := twins_agree
  exact ⟨convert 9 numberStorage 1 4 7 (by decide) (by decide), by decide⟩

/-- Both functions move a range rightly in the same cases. -/
theorem moves_iff {m : Storage} {dest src n : Nat} (room : dest + n ≤ 4294967296)
    (roomSrc : src + n ≤ 4294967296) (size : n < 4294967296) :
    (Moved m (keMoveMemory m dest src n).2 dest src n ↔ Movable m dest src n) ∧
      (Moved m (rtlMoveMemory m dest src n).2 dest src n ↔ Movable m dest src n) := by
  have kernel := keMoveMemory_moved_iff (m := m) room roomSrc size
  rw [rtlMoveMemory_eq]
  exact ⟨kernel, kernel⟩

/-- The byte at each address is the address. -/
def counting : Storage := fun a => UInt8.ofNat a

theorem moves_iff_below :
    (Moved counting (keMoveMemory counting 8 10 4).2 8 10 4 ↔ Movable counting 8 10 4) ∧
      (Moved counting (rtlMoveMemory counting 8 10 4).2 8 10 4 ↔ Movable counting 8 10 4) :=
  moves_iff (by decide) (by decide) (by decide)

/-- To a destination above, even far above, the first byte is not moved. -/
theorem not_moved_above :
    ¬ Moved counting (keMoveMemory counting 32 16 4).2 32 16 4 ∧
      ¬ Moved counting (rtlMoveMemory counting 32 16 4).2 32 16 4 := by
  constructor
  · intro moved
    exact absurd (moved.1 0 (by decide)) (by decide)
  · intro moved
    exact absurd (moved.1 0 (by decide)) (by decide)

end RtlMemory
