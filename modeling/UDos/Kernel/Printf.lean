import Mathlib
import UDos.Kernel.Memory
import UDos.Library.Buffer

/-!
# Formatting

`kvsnprintf` and the number conversions of `printf.c` on a buffer in which an
access outside its n bytes is a fault, as is an access behind the terminator of
the format and a directive without its argument. The argument strings lie apart
from the buffer, so the overlap assertion of `KeCopyMemory` holds. Characters are
those of the EBCDIC execution set; `int`, `long` and `size_t` have 32 bits.
-/

namespace Printf

open KernelMemory Buffer

def percent : UInt8 := 0x6C
def minus : UInt8 := 0x60

/-- The character of a remainder: `rem - 10 + 'A'` or `rem + '0'`. -/
def digitChar (rem : Int) : UInt8 :=
  UInt8.ofNat ((if rem ≥ 10 then rem - 10 + 0xC1 else rem + 0xF0) % 256).toNat

/-- The loop that fills `numbuf`, lowest digit first, with this many elements left. -/
def fillNumbuf (base : Int) : Nat → Int → Outcome (List UInt8)
  | 0, val => if val = 0 then .ok [] else .fault
  | left + 1, val =>
    if val = 0 then .ok []
    else do
      let rest ← fillNumbuf base left (val.tdiv base)
      .ok (digitChar (val.tmod base) :: rest)

/-- The body shared by the functions that `NUMBER_TO_STRING` defines: the
characters before the terminator. The sign of the lowest value stays after its
negation. -/
def numberToString (isSigned : Bool) (val : Int) (base : Int) : Outcome (List UInt8) :=
  if val = 0 then .ok [0xF0]
  else if isSigned ∧ val < 0 then do
    let numbuf ← fillNumbuf base 24 (signed32 (-val))
    .ok (minus :: numbuf.reverse)
  else do
    let numbuf ← fillNumbuf base 24 val
    .ok numbuf.reverse

/-- A 32-bit argument as the function's parameter type reads it. -/
def itoa (word : UInt32) (base : Int) : Outcome (List UInt8) :=
  numberToString true (signed32 word.toNat) base

def ltoa (word : UInt32) (base : Int) : Outcome (List UInt8) :=
  numberToString false word.toNat base

def uptrtoa (word : UInt32) (base : Int) : Outcome (List UInt8) :=
  numberToString false word.toNat base

def usizetoa (word : UInt32) (base : Int) : Outcome (List UInt8) :=
  numberToString false word.toNat base

/-- An argument of the list: a string or NULL, or a word. -/
inductive Arg where
  | string (str : Option CString)
  | word (value : UInt32)

inductive Directive where
  | string
  | number (toString : UInt32 → Outcome (List UInt8))
  | unknown

/-- The directive that the comparisons find behind a percent sign, and how
many characters it has. -/
def directive (fmt : List UInt8) : Directive × Nat :=
  if keCompareStringEx fmt [0xA2] 1 = 0 then (.string, 1)
  else if keCompareStringEx fmt [0xA9, 0xA4] 2 = 0 then (.number (usizetoa · 10), 2)
  else if keCompareStringEx fmt [0xA4] 1 = 0 then (.number (ltoa · 10), 1)
  else if keCompareStringEx fmt [0x97] 1 = 0 then (.number (uptrtoa · 16), 1)
  else if keCompareStringEx fmt [0xA7] 1 = 0 then (.number (ltoa · 16), 1)
  else if keCompareStringEx fmt [0x89] 1 = 0 then (.number (itoa · 10), 1)
  else (.unknown, 1)

/-- The string of a `%s`, "NULL" for a null pointer. -/
def stringText : Option CString → List UInt8
  | none => [0xD5, 0xE4, 0xD3, 0xD3]
  | some str => str.chars

/-- The branch of a directive, with the text of the buffer ending at i. -/
def convert (n : Nat) (s : List UInt8) (i : Nat) : Directive → List Arg →
    Outcome (List UInt8 × List Arg)
  | .string, .string str :: args => do
    let text := stringText str
    let len := if text.length ≥ n - i then n - i else text.length
    let last ← textLength s
    let s ← storeAll s last (text.take len)
    .ok (s, args)
  | .number toString, .word value :: args => do
    let text ← toString value
    let s ← storeAll s i (text ++ [0])
    .ok (s, args)
  | .unknown, args => .ok (s, args)
  | _, _ => .fault

/-- The main loop: what is left of the format, and the i it was left with. -/
def formatLoop (n : UInt32) (fmt : List UInt8) (i : Nat) (s : List UInt8) (args : List Arg) :
    Outcome (List UInt8) :=
  match fmt with
  | [] => .ok s
  | c :: rest =>
    if i < (n - 1).toNat then do
      let i ← textLength s
      if c = percent then do
        let (s, args) ← convert n.toNat s i (directive rest).1 args
        -- past the terminator the loop condition reads what is not the format's
        if (directive rest).2 ≤ rest.length then
          formatLoop n (rest.drop (directive rest).2) i s args
        else .fault
      else do
        let s ← store s i c
        let s ← store s (i + 1) 0
        formatLoop n rest (i + 1) s args
    else .ok s
termination_by fmt.length

/-- `kvsnprintf` on a buffer of n bytes: the buffer it leaves. -/
def kvsnprintf (n : UInt32) (fmt : CString) (args : List Arg) : Outcome (List UInt8) :=
  formatLoop n fmt.chars 0 (List.replicate n.toNat 0) args

theorem digitChar_ne_zero {rem : Int} (lo : -16 < rem) (hi : rem < 16) : digitChar rem ≠ 0 := by
  intro zero
  have value := congrArg UInt8.toNat zero
  rw [digitChar, UInt8.toNat_ofNat'] at value
  simp only [UInt8.toNat_zero] at value
  split at value <;> omega

/-- `numbuf` is long enough for every value below a power of ten. -/
theorem fillNumbuf_ok {base : Int} (lo : 10 ≤ base) (hi : base ≤ 16) (left : Nat) {val : Int}
    (small : val.natAbs < 10 ^ left) :
    ∃ numbuf, fillNumbuf base left val = .ok numbuf ∧ 0 ∉ numbuf := by
  induction left generalizing val with
  | zero =>
    have zero : val = 0 := by
      simp only [Nat.pow_zero] at small
      omega
    exact ⟨[], by simp [fillNumbuf, zero], by simp⟩
  | succ left ih =>
    by_cases zero : val = 0
    · exact ⟨[], by simp [fillNumbuf, zero], by simp⟩
    · have quotient : (val.tdiv base).natAbs < 10 ^ left := by
        rw [Int.natAbs_tdiv]
        apply Nat.div_lt_of_lt_mul
        have le : 10 * 10 ^ left ≤ base.natAbs * 10 ^ left :=
          Nat.mul_le_mul_right _ (by omega)
        rw [Nat.pow_succ] at small
        omega
      obtain ⟨rest, hrest, noNul⟩ := ih quotient
      refine ⟨digitChar (val.tmod base) :: rest, ?_, ?_⟩
      · rw [fillNumbuf, if_neg zero, hrest]
        rfl
      · have above := Int.lt_tmod_of_pos val (show 0 < base by omega)
        have below := Int.tmod_lt_of_pos val (show 0 < base by omega)
        have nonzero : digitChar (val.tmod base) ≠ 0 :=
          digitChar_ne_zero (by omega) (by omega)
        simp [noNul, nonzero.symm]

theorem numberToString_ok {isSigned : Bool} {val base : Int} (lo : 10 ≤ base) (hi : base ≤ 16)
    (low : val.natAbs ≤ 4294967296) :
    ∃ text, numberToString isSigned val base = .ok text ∧ 0 ∉ text := by
  have wide : 4294967296 < 10 ^ 24 := by decide
  rw [numberToString]
  by_cases zero : val = 0
  · exact ⟨[0xF0], if_pos zero, by decide⟩
  · rw [if_neg zero]
    by_cases negative : isSigned ∧ val < 0
    · rw [if_pos negative]
      have small : (signed32 (-val)).natAbs < 10 ^ 24 := by
        unfold signed32
        omega
      obtain ⟨numbuf, filled, noNul⟩ := fillNumbuf_ok lo hi 24 small
      rw [filled]
      exact ⟨minus :: numbuf.reverse, rfl, by simpa [minus] using noNul⟩
    · rw [if_neg negative]
      obtain ⟨numbuf, filled, noNul⟩ := fillNumbuf_ok lo hi 24 (Nat.lt_of_le_of_lt low wide)
      rw [filled]
      exact ⟨numbuf.reverse, rfl, by simpa using noNul⟩

theorem directive_number {fmt : List UInt8} {toString : UInt32 → Outcome (List UInt8)}
    (number : (directive fmt).1 = .number toString) (value : UInt32) :
    ∃ text, toString value = .ok text ∧ 0 ∉ text := by
  have range := UInt32.toNat_lt value
  have natural : ∀ base : Int, 10 ≤ base → base ≤ 16 →
      ∃ text, numberToString false value.toNat base = .ok text ∧ 0 ∉ text :=
    fun base lo hi => numberToString_ok lo hi (by omega)
  have integer : ∃ text, itoa value 10 = .ok text ∧ 0 ∉ text := by
    rw [itoa]
    refine numberToString_ok (by omega) (by omega) ?_
    unfold signed32
    omega
  rw [directive] at number
  split at number
  · cases number
  split at number
  · cases number
    exact natural 10 (by omega) (by omega)
  split at number
  · cases number
    exact natural 10 (by omega) (by omega)
  split at number
  · cases number
    exact natural 16 (by omega) (by omega)
  split at number
  · cases number
    exact natural 16 (by omega) (by omega)
  by_cases signed : keCompareStringEx fmt [0x89] 1 = 0
  · rw [if_pos signed] at number
    have same : (itoa · 10) = toString := Directive.number.inj number
    rw [← same]
    exact integer
  · rw [if_neg signed] at number
    cases number

/-- What one turn of the loop puts into the buffer: a character of the format,
the text of a directive, or nothing because the format ends behind its percent
sign or the directive has no argument. -/
inductive Piece where
  | literal (c : UInt8)
  | expansion (text : List UInt8)
  | invalid

def Piece.width : Piece → Nat
  | .literal _ => 1
  | .expansion text => text.length
  | .invalid => 0

def Piece.text : Piece → List UInt8
  | .literal c => [c]
  | .expansion text => text
  | .invalid => []

theorem Piece.text_length (p : Piece) : p.text.length = p.width := by
  cases p <;> rfl

/-- The text of a directive and the arguments behind its own. -/
def expand : Directive → List Arg → Option (List UInt8 × List Arg)
  | .string, .string str :: args => some (stringText str, args)
  | .number toString, .word value :: args =>
    match toString value with
    | .ok text => some (text, args)
    | _ => none
  | .unknown, args => some ([], args)
  | _, _ => none

/-- The pieces of a format with its arguments, up to the first invalid one. -/
def pieces (fmt : List UInt8) (args : List Arg) : List Piece :=
  match fmt with
  | [] => []
  | c :: rest =>
    if c = percent then
      match expand (directive rest).1 args with
      | none => [.invalid]
      | some (text, args) =>
        if (directive rest).2 ≤ rest.length then
          .expansion text :: pieces (rest.drop (directive rest).2) args
        else [.invalid]
    else .literal c :: pieces rest args
termination_by fmt.length

/-- The length of the text of some pieces. -/
def textWidth (ps : List Piece) : Nat := (ps.map Piece.width).sum

/-- The `i` that the loop condition tests after some pieces: the end of the
text after a character, and its end before the piece after a directive. -/
def cursor (before : List Piece) : Nat :=
  match before.getLast? with
  | none => 0
  | some (.literal _) => textWidth before
  | some _ => textWidth before.dropLast

/-- Every piece that the loop condition lets start is valid and leaves room
for a terminator behind its whole text. -/
def Fits (n : Nat) (ps : List Piece) : Prop :=
  ∀ (before : List Piece) (p : Piece) (after : List Piece), ps = before ++ p :: after →
    cursor before + 1 < n → p ≠ .invalid ∧ textWidth before + p.width < n

/-- The `i` that a piece leaves when it starts behind a text of this length. -/
def Piece.next (p : Piece) (length : Nat) : Nat :=
  match p with
  | .literal _ => length + 1
  | _ => length

/-- The same from a cursor and a text length on, piece by piece. -/
def FitsFrom (n : Nat) : Nat → Nat → List Piece → Prop
  | _, _, [] => True
  | i, length, p :: rest => i + 1 < n → p ≠ .invalid ∧ length + p.width < n ∧
      FitsFrom n (p.next length) (length + p.width) rest

/-- The `i` that the loop condition tests after pieces that follow a state. -/
def cursorFrom (i length : Nat) (before : List Piece) : Nat :=
  match before.getLast? with
  | none => i
  | some (.literal _) => length + textWidth before
  | some _ => length + textWidth before.dropLast

@[simp] theorem textWidth_nil : textWidth [] = 0 := rfl

@[simp] theorem textWidth_cons (p : Piece) (ps : List Piece) :
    textWidth (p :: ps) = p.width + textWidth ps := by
  simp [textWidth]

theorem cursorFrom_cons (i length : Nat) (q : Piece) (before : List Piece) :
    cursorFrom i length (q :: before) =
      cursorFrom (q.next length) (length + q.width) before := by
  cases before with
  | nil => cases q <;> rfl
  | cons r before =>
    have last : (q :: r :: before).getLast? = (r :: before).getLast? := by simp
    obtain ⟨p, hp⟩ : ∃ p, (r :: before).getLast? = some p :=
      ⟨_, List.getLast?_eq_some_getLast (List.cons_ne_nil r before)⟩
    simp only [cursorFrom, last, hp, List.dropLast_cons_cons]
    cases p with
    | literal c => simp only [textWidth_cons, Nat.add_assoc]
    | expansion text => simp only [textWidth_cons, Nat.add_assoc]
    | invalid => simp only [textWidth_cons, Nat.add_assoc]

theorem le_cursorFrom {i length : Nat} (le : i ≤ length) (before : List Piece) :
    i ≤ cursorFrom i length before := by
  unfold cursorFrom
  split
  · exact Nat.le_refl i
  · omega
  · omega

/-- Once the cursor is at the end of the buffer it stays there, so the pieces
after the loop has stopped put no condition of their own. -/
theorem fitsFrom_iff {n i length : Nat} (le : i ≤ length) (ps : List Piece) :
    FitsFrom n i length ps ↔
      ∀ (before : List Piece) (p : Piece) (after : List Piece), ps = before ++ p :: after →
        cursorFrom i length before + 1 < n →
        p ≠ .invalid ∧ length + textWidth before + p.width < n := by
  induction ps generalizing i length with
  | nil =>
    refine iff_of_true trivial fun before p after same => ?_
    simp at same
  | cons q rest ih =>
    have later : q.next length ≤ length + q.width := by
      cases q <;> simp [Piece.next, Piece.width]
    have below : i ≤ q.next length := by
      cases q with
      | literal c => exact Nat.le_succ_of_le le
      | expansion text => exact le
      | invalid => exact le
    rw [FitsFrom, ih later]
    constructor
    · intro fits before p after same starts
      cases before with
      | nil =>
        cases same
        obtain ⟨valid, room, _⟩ := fits starts
        exact ⟨valid, by simpa using room⟩
      | cons q' before =>
        cases same
        rw [cursorFrom_cons] at starts
        have start := le_cursorFrom later before
        obtain ⟨_, _, fits⟩ := fits (by omega)
        obtain ⟨valid, room⟩ := fits before p after rfl starts
        refine ⟨valid, ?_⟩
        rw [textWidth_cons]
        omega
    · intro fits starts
      obtain ⟨valid, room⟩ := fits [] q rest rfl starts
      refine ⟨valid, by simpa using room, fun before p after same starts => ?_⟩
      have next := fits (q :: before) p after (by rw [same, List.cons_append])
        (by rwa [cursorFrom_cons])
      rw [textWidth_cons] at next
      exact ⟨next.1, by omega⟩

theorem fits_iff (n : Nat) (ps : List Piece) : FitsFrom n 0 0 ps ↔ Fits n ps := by
  rw [fitsFrom_iff (Nat.le_refl 0)]
  have same : ∀ before, cursorFrom 0 0 before = cursor before := by
    intro before
    simp only [cursorFrom, cursor, Nat.zero_add]
  simp only [same, Nat.zero_add, Fits]

theorem expand_noNul {fmt : List UInt8} {args rest : List Arg} {text : List UInt8}
    (expands : expand (directive fmt).1 args = some (text, rest)) : 0 ∉ text := by
  cases d : (directive fmt).1 with
  | unknown =>
    rw [d] at expands
    cases expands
    simp
  | string =>
    rw [d] at expands
    match args with
    | [] => cases expands
    | .word value :: args => cases expands
    | .string none :: args =>
      cases expands
      decide
    | .string (some str) :: args =>
      cases expands
      exact str.noNul
  | number toString =>
    rw [d] at expands
    match args with
    | [] => cases expands
    | .string str :: args => cases expands
    | .word value :: args =>
      obtain ⟨chars, ok, noNul⟩ := directive_number d value
      simp only [expand, ok] at expands
      cases expands
      exact noNul

/-- A directive whose text leaves room for a terminator is put behind the text. -/
theorem convert_fits {n : Nat} {text more : List UInt8} {d : Directive} {args rest : List Arg}
    (noNul : 0 ∉ text) (expands : expand d args = some (more, rest))
    (room : text.length + more.length < n) :
    convert n (padded n text) text.length d args = .ok (padded n (text ++ more), rest) := by
  cases d with
  | unknown =>
    cases expands
    simp [convert]
  | string =>
    match args with
    | [] => cases expands
    | .word value :: args => cases expands
    | .string str :: args =>
      cases expands
      have short : ¬ (stringText str).length ≥ n - text.length := by omega
      have whole : storeAll (padded n text) text.length (stringText str) =
          .ok (padded n (text ++ stringText str)) := storeAll_padded (by omega)
      simp only [convert, if_neg short, List.take_length]
      rw [textLength_padded noNul (by omega), Outcome.ok_bind, whole]
      rfl
  | number toString =>
    match args with
    | [] => cases expands
    | .string str :: args => cases expands
    | .word value :: args =>
      cases ok : toString value with
      | ok chars =>
        simp only [expand, ok] at expands
        cases expands
        have whole : storeAll (padded n text) text.length (more ++ [0]) =
            .ok (padded n (text ++ (more ++ [0]))) := storeAll_padded (by simp; omega)
        rw [← List.append_assoc, padded_terminated (by simp; omega)] at whole
        simp only [convert, ok, Outcome.ok_bind, whole]
      | panic message => simp [expand, ok] at expands
      | fault => simp [expand, ok] at expands
      | diverge => simp [expand, ok] at expands

/-- A directive whose text is too long fills the buffer or runs off its end. -/
theorem convert_overflows {n : Nat} {text more : List UInt8} {d : Directive}
    {args rest : List Arg} (noNul : 0 ∉ text) (noNul' : 0 ∉ more)
    (expands : expand d args = some (more, rest)) (start : text.length < n)
    (long : n ≤ text.length + more.length) :
    convert n (padded n text) text.length d args = .fault ∨
      ∃ s, convert n (padded n text) text.length d args = .ok (s, rest) ∧ 0 ∉ s := by
  cases d with
  | unknown =>
    cases expands
    simp only [List.length_nil] at long
    omega
  | string =>
    cases args with
    | nil => cases expands
    | cons arg args =>
      cases arg with
      | word value => cases expands
      | string str =>
        cases expands
        have cut : (stringText str).length ≥ n - text.length := by omega
        have taken : ((stringText str).take (n - text.length)).length = n - text.length := by
          rw [List.length_take]
          omega
        have filled : storeAll (padded n text) text.length
            ((stringText str).take (n - text.length)) =
            .ok (padded n (text ++ (stringText str).take (n - text.length))) :=
          storeAll_padded (by omega)
        refine Or.inr ⟨padded n (text ++ (stringText str).take (n - text.length)), ?_, ?_⟩
        · simp only [convert, if_pos cut]
          rw [textLength_padded noNul start, Outcome.ok_bind, filled]
          rfl
        · have full : n - (text ++ (stringText str).take (n - text.length)).length = 0 := by
            rw [List.length_append]
            omega
          rw [padded, full, List.replicate_zero, List.append_nil, List.mem_append]
          exact fun member => member.elim noNul fun inside => noNul' (List.mem_of_mem_take inside)
  | number toString =>
    cases args with
    | nil => cases expands
    | cons arg args =>
      cases arg with
      | string str => cases expands
      | word value =>
        cases ok : toString value with
        | ok chars =>
          simp only [expand, ok] at expands
          cases expands
          have overrun : storeAll (padded n text) text.length (more ++ [0]) = .fault := by
            refine storeAll_overflow (by simp) ?_
            rw [padded_length (by omega), List.length_append, List.length_singleton]
            omega
          refine Or.inl ?_
          simp only [convert, ok, Outcome.ok_bind, overrun]
          rfl
        | panic message => simp [expand, ok] at expands
        | fault => simp [expand, ok] at expands
        | diverge => simp [expand, ok] at expands

theorem convert_of_expand_none {n i : Nat} {s : List UInt8} {d : Directive} {args : List Arg}
    (none : expand d args = none) (result : List UInt8 × List Arg) :
    convert n s i d args ≠ .ok result := by
  intro converts
  cases d with
  | unknown => cases none
  | string =>
    match args with
    | [] => cases converts
    | .word value :: args => cases converts
    | .string str :: args => cases none
  | number toString =>
    match args with
    | [] => cases converts
    | .string str :: args => cases converts
    | .word value :: args =>
      obtain ⟨text, ok, _⟩ := Outcome.bind_eq_ok.mp converts
      simp only [expand, ok] at none
      cases none

/-- A buffer without a terminator never gets one again. -/
theorem formatLoop_full {n : UInt32} {fmt : List UInt8} {i : Nat} {s t : List UInt8}
    {args : List Arg} (noNul : 0 ∉ s) (ok : formatLoop n fmt i s args = .ok t) : 0 ∉ t := by
  cases fmt with
  | nil =>
    rw [formatLoop] at ok
    cases ok
    exact noNul
  | cons c rest =>
    rw [formatLoop] at ok
    split at ok
    · rw [textLength_full noNul] at ok
      cases ok
    · cases ok
      exact noNul

/-- The call returns, so every access was inside its object, and there is a
terminator in the buffer. -/
def Bounded (result : Outcome (List UInt8)) : Prop :=
  ∃ s, result = .ok s ∧ 0 ∈ s

theorem not_bounded_fault : ¬ Bounded .fault := by
  rintro ⟨s, ok, _⟩
  cases ok

/-- One character of the format fits with a terminator behind it or not at all. -/
theorem storeLiteral {n : Nat} {text : List UInt8} (room : text.length < n) (c : UInt8)
    (rest : List UInt8 → Outcome (List UInt8)) :
    (do
      let s ← store (padded n text) text.length c
      let s ← store s (text.length + 1) 0
      rest s) =
    if text.length + 1 < n then rest (padded n (text ++ [c])) else .fault := by
  rw [store_padded room, Outcome.ok_bind]
  by_cases more : text.length + 1 < n
  · have longer : (text ++ [c]).length < n := by simpa using more
    have terminator := store_padded longer 0
    rw [padded_terminated longer, List.length_append, List.length_singleton] at terminator
    rw [terminator, Outcome.ok_bind, if_pos more]
  · rw [store, padded_length (by simp; omega), if_neg more, if_neg more]
    rfl

/-- A turn of the loop writes the next piece behind the text, whole, and goes on
with the rest of the format. -/
structure Turn (n : UInt32) (c : UInt8) (rest : List UInt8) (i : Nat) (args : List Arg)
    (text : List UInt8) (p : Piece) (rest' : List UInt8) (args' : List Arg) : Prop where
  split : pieces (c :: rest) args = p :: pieces rest' args'
  valid : p ≠ .invalid
  shorter : rest'.length < (c :: rest).length
  noNulRest : 0 ∉ rest'
  noNul : 0 ∉ text ++ p.text
  room : text.length + p.width < n.toNat
  goes : formatLoop n (c :: rest) i (padded n.toNat text) args =
    formatLoop n rest' (p.next text.length) (padded n.toNat (text ++ p.text)) args'

/-- A turn whose piece is invalid or has no room does not end well. -/
theorem formatLoop_cons {n : UInt32} {c : UInt8} {rest text : List UInt8} {i : Nat}
    (args : List Arg) (noNulFmt : 0 ∉ c :: rest) (noNul : 0 ∉ text) (room : text.length < n.toNat)
    (starts : i < (n - 1).toNat) :
    (∃ p rest' args', Turn n c rest i args text p rest' args') ∨
      (∃ p after, pieces (c :: rest) args = p :: after ∧
        (p ≠ .invalid → n.toNat ≤ text.length + p.width)) ∧
      ¬ Bounded (formatLoop n (c :: rest) i (padded n.toNat text) args) := by
  have nonzero : c ≠ 0 := fun zero => noNulFmt (zero ▸ List.mem_cons_self)
  have noNulRest : 0 ∉ rest := fun member => noNulFmt (List.mem_cons_of_mem c member)
  rw [formatLoop, if_pos starts, textLength_padded noNul room, Outcome.ok_bind]
  by_cases directs : c = percent
  · rw [if_pos directs]
    cases expands : expand (directive rest).1 args with
    | none =>
      refine Or.inr ⟨⟨.invalid, [], ?_, fun valid => absurd rfl valid⟩, ?_⟩
      · rw [pieces, if_pos directs, expands]
      · rintro ⟨s, ok, _⟩
        obtain ⟨result, converts, _⟩ := Outcome.bind_eq_ok.mp ok
        exact convert_of_expand_none expands result converts
    | some expansion =>
      obtain ⟨more, behind⟩ := expansion
      have noNulMore := expand_noNul expands
      by_cases ends : (directive rest).2 ≤ rest.length
      · have split : pieces (c :: rest) args =
            .expansion more :: pieces (rest.drop (directive rest).2) behind := by
          rw [pieces, if_pos directs, expands]
          simp only [if_pos ends]
        simp only [if_pos ends]
        by_cases fits : text.length + more.length < n.toNat
        · refine Or.inl ⟨.expansion more, rest.drop (directive rest).2, behind, split, by simp, ?_,
            fun member => noNulRest (List.mem_of_mem_drop member), ?_, fits, ?_⟩
          · rw [List.length_drop, List.length_cons]
            omega
          · simp [Piece.text, noNul, noNulMore]
          · rw [formatLoop, if_pos starts, textLength_padded noNul room, Outcome.ok_bind,
              if_pos directs, convert_fits noNul expands fits, Outcome.ok_bind]
            simp only [if_pos ends, Piece.text, Piece.next]
        · refine Or.inr ⟨⟨_, _, split, fun _ => Nat.le_of_not_lt fits⟩, ?_⟩
          rcases convert_overflows noNul noNulMore expands room (by omega) with
            fault | ⟨s, ok, full⟩
          · rw [fault]
            exact not_bounded_fault
          · rw [ok, Outcome.ok_bind]
            rintro ⟨t, runs, zero⟩
            exact formatLoop_full full runs zero
      · simp only [if_neg ends]
        refine Or.inr ⟨⟨.invalid, [], ?_, fun valid => absurd rfl valid⟩, ?_⟩
        · rw [pieces, if_pos directs, expands]
          simp only [if_neg ends]
        · rintro ⟨s, ok, _⟩
          obtain ⟨result, _, fault⟩ := Outcome.bind_eq_ok.mp ok
          cases fault
  · have split : pieces (c :: rest) args = .literal c :: pieces rest args := by
      rw [pieces, if_neg directs]
    rw [if_neg directs, storeLiteral room]
    by_cases fits : text.length + 1 < n.toNat
    · refine Or.inl ⟨.literal c, rest, args, split, by simp, Nat.lt_succ_self _, noNulRest, ?_,
        fits, ?_⟩
      · simp [Piece.text, noNul, nonzero.symm]
      · rw [formatLoop, if_pos starts, textLength_padded noNul room, Outcome.ok_bind,
          if_neg directs, storeLiteral room, if_pos fits]
        rfl
    · rw [if_neg fits]
      exact Or.inr ⟨⟨_, _, split, fun _ => Nat.le_of_not_lt fits⟩, not_bounded_fault⟩

/-- From a text with zeros behind it, the loop stays in its objects and leaves
a terminator exactly when the pieces fit. -/
theorem formatLoop_iff {n : UInt32} (positive : 0 < n.toNat) {fmt text : List UInt8} (i : Nat)
    (args : List Arg) (noNulFmt : 0 ∉ fmt) (noNul : 0 ∉ text) (room : text.length < n.toNat) :
    Bounded (formatLoop n fmt i (padded n.toNat text) args) ↔
      FitsFrom n.toNat i text.length (pieces fmt args) := by
  have limit : (n - 1).toNat = n.toNat - 1 := by
    apply UInt32.toNat_sub_of_le
    exact UInt32.le_iff_toNat_le.mpr positive
  induction fmt using (measure List.length).wf.induction generalizing i text args with
  | _ fmt ih =>
    cases fmt with
    | nil =>
      rw [formatLoop, pieces]
      exact iff_of_true ⟨_, rfl, zero_mem_padded room⟩ trivial
    | cons c rest =>
      by_cases starts : i < (n - 1).toNat
      · have goes : i + 1 < n.toNat := by omega
        rcases formatLoop_cons args noNulFmt noNul room starts with
          ⟨p, rest', args', turn⟩ | ⟨⟨p, after, split, stops⟩, notBounded⟩
        · have longer : (text ++ p.text).length = text.length + p.width := by
            rw [List.length_append, p.text_length]
          have tail := ih rest' turn.shorter (p.next text.length) args' turn.noNulRest turn.noNul
            (longer ▸ turn.room)
          rw [longer] at tail
          rw [turn.goes, turn.split]
          refine tail.trans ?_
          exact ⟨fun later _ => ⟨turn.valid, turn.room, later⟩, fun whole => (whole goes).2.2⟩
        · rw [split]
          refine iff_of_false notBounded fun whole => ?_
          exact absurd (whole goes).2.1 (Nat.not_lt.mpr (stops (whole goes).1))
      · rw [formatLoop, if_neg starts]
        refine iff_of_true ⟨_, rfl, zero_mem_padded room⟩ ?_
        cases pieces (c :: rest) args with
        | nil => trivial
        | cons p ps => exact fun goes => absurd goes (by omega)

/-- For every buffer size from 1 on, format and argument list, the call stays
inside the buffer, the format and the arguments and leaves a terminator exactly
when every piece that starts with the cursor before the last byte is valid and
leaves room for a terminator behind its whole text. -/
theorem kvsnprintf_bounded_iff (n : UInt32) (positive : 0 < n.toNat) (fmt : CString)
    (args : List Arg) :
    Bounded (kvsnprintf n fmt args) ↔ Fits n.toNat (pieces fmt.chars args) := by
  have empty : (0 : UInt8) ∉ ([] : List UInt8) := by simp
  have run := formatLoop_iff positive 0 args fmt.noNul empty positive
  rw [List.length_nil, fits_iff] at run
  exact run

/-- "%s". -/
def formatS : CString := ⟨[0x6C, 0xA2], by decide⟩

/-- "ABCD". -/
def nameABCD : CString := ⟨[0xC1, 0xC2, 0xC3, 0xC4], by decide⟩

theorem kvsnprintf_bounded_of_eight :
    0 < (8 : UInt32).toNat ∧ (Bounded (kvsnprintf 8 formatS [.string (some nameABCD)]) ↔
      Fits 8 (pieces formatS.chars [.string (some nameABCD)])) :=
  ⟨by decide, kvsnprintf_bounded_iff 8 (by decide) formatS [.string (some nameABCD)]⟩

/-- A string as long as the buffer fills it, and no terminator is left. -/
theorem kvsnprintf_fills_buffer : ¬ Bounded (kvsnprintf 4 formatS [.string (some nameABCD)]) := by
  have full : kvsnprintf 4 formatS [.string (some nameABCD)] = .ok [0xC1, 0xC2, 0xC3, 0xC4] := by
    decide +kernel
  rw [full]
  rintro ⟨s, ok, zero⟩
  cases ok
  exact absurd zero (by decide)

end Printf
