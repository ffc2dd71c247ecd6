import UDos.Kernel.Printf

/-!
# What a format means

The text that a format and its arguments stand for, and when `kvsnprintf`
leaves it in the buffer. Two characters behind a percent sign are taken for
"zu" when their codes have its sum, so a directive of one character together
with a certain character behind it is not recognised.
-/

namespace Printf

open KernelMemory Buffer

/-- The directives that take a word. -/
inductive Numeral where
  | u | zu | x | p | i
deriving DecidableEq

def Numeral.chars : Numeral → List UInt8
  | .u => [0xA4]
  | .zu => [0xA9, 0xA4]
  | .x => [0xA7]
  | .p => [0x97]
  | .i => [0x89]

/-- A character of the format, or a directive with its argument. -/
inductive Item where
  | literal (c : UInt8) (notPercent : c ≠ percent) (notNul : c ≠ 0)
  | string (str : Option CString)
  | number (d : Numeral) (value : UInt32)
deriving DecidableEq

/-- What the item is in the format. -/
def Item.chars : Item → List UInt8
  | .literal c _ _ => [c]
  | .string _ => [percent, 0xA2]
  | .number d _ => percent :: d.chars

def Item.arg : Item → Option Arg
  | .literal _ _ _ => none
  | .string str => some (.string str)
  | .number _ value => some (.word value)

theorem Numeral.chars_noNul (d : Numeral) : 0 ∉ percent :: d.chars := by
  cases d with
  | u => decide
  | zu => decide
  | x => decide
  | p => decide
  | i => decide

theorem Item.chars_noNul (item : Item) : 0 ∉ item.chars := by
  cases item with
  | literal c notPercent notNul => exact fun member => notNul (List.mem_singleton.mp member).symm
  | string str => exact show (0 : UInt8) ∉ [percent, 0xA2] by decide
  | number d value => exact d.chars_noNul

def formatChars (items : List Item) : List UInt8 := items.flatMap Item.chars

/-- The format that the items make up. -/
def format (items : List Item) : CString where
  chars := formatChars items
  noNul := fun member => by
    obtain ⟨item, _, inside⟩ := List.mem_flatMap.mp member
    exact item.chars_noNul inside

/-- The arguments of the directives, in order. -/
def arguments (items : List Item) : List Arg := items.filterMap Item.arg

/-- The character of a digit, upper case from ten on. -/
def digitCode (digit : Nat) : UInt8 :=
  UInt8.ofNat (if digit < 10 then 0xF0 + digit else 0xC1 + (digit - 10))

/-- The numeral of a number, highest digit first. -/
def numeral (base value : Nat) : List UInt8 :=
  if value = 0 then [digitCode 0] else ((Nat.digits base value).map digitCode).reverse

/-- The numeral of a 32-bit signed number. -/
def signedNumeral (value : UInt32) : List UInt8 :=
  if value.toNat < 2147483648 then numeral 10 value.toNat
  else minus :: numeral 10 (4294967296 - value.toNat)

def Numeral.text : Numeral → UInt32 → List UInt8
  | .u, value => numeral 10 value.toNat
  | .zu, value => numeral 10 value.toNat
  | .x, value => numeral 16 value.toNat
  | .p, value => numeral 16 value.toNat
  | .i, value => signedNumeral value

def Item.expansion : Item → List UInt8
  | .literal c _ _ => [c]
  | .string str => stringText str
  | .number d value => d.text value

/-- The expansion: every directive replaced by the string or the numeral of its argument. -/
def expansion (items : List Item) : List UInt8 := items.flatMap Item.expansion

/-- The directive and the character behind it have the sum of "zu". -/
def Misread (d : Numeral) : List Item → Prop
  | .literal c _ _ :: _ => d ≠ .zu ∧ charSum d.chars + c.toNat = charSum Numeral.zu.chars
  | _ => False

instance (d : Numeral) (rest : List Item) : Decidable (Misread d rest) :=
  match rest with
  | [] => isFalse id
  | .literal c _ _ :: _ =>
    inferInstanceAs (Decidable (d ≠ .zu ∧ charSum d.chars + c.toNat = charSum Numeral.zu.chars))
  | .string _ :: _ => isFalse id
  | .number _ _ :: _ => isFalse id

/-- No directive is misread, and no `%i` has the lowest number. -/
def Clear : List Item → Prop
  | [] => True
  | .number d value :: rest =>
    ¬ Misread d rest ∧ (d = .i → value ≠ 0x80000000) ∧ Clear rest
  | .literal _ _ _ :: rest => Clear rest
  | .string _ :: rest => Clear rest

theorem digitChar_digitCode {digit : Nat} (small : digit < 16) :
    digitChar digit = digitCode digit := by
  unfold digitChar digitCode
  by_cases decimal : digit < 10
  · rw [if_neg (by omega), if_pos decimal]
    congr 1
    omega
  · rw [if_pos (by omega), if_neg decimal]
    congr 1
    omega

/-- The loop over the remainders finds the digits. -/
theorem fillNumbuf_digits (base : Nat) (lo : 1 < base) (hi : base ≤ 16) (left : Nat) {value : Nat}
    (small : value < base ^ left) :
    fillNumbuf base left value = .ok ((Nat.digits base value).map digitCode) := by
  induction left generalizing value with
  | zero =>
    have zero : value = 0 := by simpa using small
    subst zero
    simp [fillNumbuf]
  | succ left ih =>
    by_cases zero : value = 0
    · subst zero
      simp [fillNumbuf]
    · have quotient : value / base < base ^ left :=
        Nat.div_lt_of_lt_mul (by rwa [Nat.pow_succ, Nat.mul_comm] at small)
      have rest := ih quotient
      have digit : digitChar (Int.tmod value base) = digitCode (value % base) :=
        digitChar_digitCode (Nat.lt_of_lt_of_le (Nat.mod_lt value (by omega)) hi)
      rw [fillNumbuf, if_neg (by omega)]
      change (do
        let rest ← fillNumbuf base left (Int.ofNat (value / base))
        Outcome.ok (digitChar (Int.tmod value base) :: rest)) = _
      rw [show Int.ofNat (value / base) = ((value / base : Nat) : Int) from rfl, rest, digit,
        Nat.digits_of_two_le_of_pos lo (Nat.pos_of_ne_zero zero)]
      rfl

theorem numberToString_numeral (base : Nat) (lo : 10 ≤ base) (hi : base ≤ 16) {value : Nat}
    (small : value < 4294967296) :
    numberToString false value base = .ok (numeral base value) := by
  have wide : 4294967296 ≤ base ^ 24 :=
    Nat.le_trans (show 4294967296 ≤ 10 ^ 24 by decide) (Nat.pow_le_pow_left lo 24)
  have filled := fillNumbuf_digits base (by omega) hi 24 (Nat.lt_of_lt_of_le small wide)
  rw [numberToString, numeral]
  by_cases zero : value = 0
  · rw [if_pos (by omega), if_pos zero]
    rfl
  · rw [if_neg (by omega), if_neg (by simp), filled, if_neg zero]
    rfl

/-- What `itoa` makes of the lowest number: its digits are below the character '0'. -/
def lowestText : List UInt8 :=
  [minus, 0xEE, 0xEF, 0xEC, 0xE9, 0xEC, 0xE8, 0xED, 0xEA, 0xEC, 0xE8]

theorem itoa_lowest : itoa 0x80000000 10 = .ok lowestText := by decide +kernel

theorem itoa_signedNumeral {value : UInt32} (notLowest : value ≠ 0x80000000) :
    itoa value 10 = .ok (signedNumeral value) := by
  have range := UInt32.toNat_lt value
  have differ : value.toNat ≠ 2147483648 := fun same => notLowest (UInt32.toNat_inj.mp same)
  rw [itoa, signedNumeral]
  by_cases natural : value.toNat < 2147483648
  · have self : signed32 value.toNat = value.toNat := signed32_eq_self (by omega) (by omega)
    have text := numberToString_numeral 10 (by omega) (by omega) range
    have same : numberToString true value.toNat 10 = numberToString false value.toNat 10 := by
      rw [numberToString, numberToString, if_neg (c := (true : Bool) ∧ _) (by omega)]
      simp
    rw [if_pos natural, self, same]
    exact text
  · have self : signed32 value.toNat = (value.toNat : Int) - 4294967296 := by
      unfold signed32
      omega
    have negated : signed32 (-((value.toNat : Int) - 4294967296)) =
        ((4294967296 - value.toNat : Nat) : Int) := by
      unfold signed32
      omega
    have wide : 4294967296 - value.toNat < 10 ^ 24 :=
      Nat.lt_of_le_of_lt (Nat.sub_le _ _) (by decide)
    have filled := fillNumbuf_digits 10 (by omega) (by omega) 24 wide
    rw [if_neg natural, self, numberToString, if_neg (by omega), if_pos ⟨rfl, by omega⟩, negated,
      numeral, if_neg (by omega)]
    rw [show ((10 : Nat) : Int) = 10 from rfl] at filled
    rw [filled]
    rfl

theorem digitCode_decimal {digit : Nat} (decimal : digit < 10) :
    0xF0 ≤ digitCode digit ∧ digitCode digit ≤ 0xF9 := by
  rw [digitCode, if_pos decimal, UInt8.le_iff_toNat_le, UInt8.le_iff_toNat_le, UInt8.toNat_ofNat']
  simp only [UInt8.reduceToNat]
  omega

theorem numeral_decimal {value : Nat} {c : UInt8} (member : c ∈ numeral 10 value) :
    0xF0 ≤ c ∧ c ≤ 0xF9 := by
  rw [numeral] at member
  by_cases zero : value = 0
  · rw [if_pos zero] at member
    rw [List.mem_singleton.mp member]
    exact digitCode_decimal (by decide)
  · rw [if_neg zero, List.mem_reverse, List.mem_map] at member
    obtain ⟨digit, inside, rfl⟩ := member
    exact digitCode_decimal (Nat.digits_lt_base (by decide) inside)

theorem numeral_ne_nil (base value : Nat) : numeral base value ≠ [] := by
  rw [numeral]
  by_cases zero : value = 0
  · simp [zero]
  · rw [if_neg zero, List.reverse_ne_nil_iff]
    exact fun empty => zero (Nat.digits_eq_nil_iff_eq_zero.mp (List.map_eq_nil_iff.mp empty))

theorem numeral_length_le (value : Nat) :
    (numeral 16 value).length ≤ (numeral 10 value).length := by
  rw [numeral, numeral]
  by_cases zero : value = 0
  · rw [if_pos zero, if_pos zero]
  · rw [if_neg zero, if_neg zero]
    simp only [List.length_reverse, List.length_map]
    rw [Nat.digits_length_le_iff (by decide)]
    have below := Nat.lt_base_pow_length_digits (b := 10) (m := value) (by decide)
    exact Nat.lt_of_lt_of_le below (Nat.pow_le_pow_left (by decide) _)

/-- Together with the first character of the rest, the character has the sum of "zu". -/
def Collides (a : UInt8) (rest : List UInt8) : Prop :=
  match rest with
  | [] => False
  | c :: _ => a.toNat + c.toNat = charSum Numeral.zu.chars

instance (a : UInt8) (rest : List UInt8) : Decidable (Collides a rest) :=
  match rest with
  | [] => isFalse id
  | c :: _ => inferInstanceAs (Decidable (a.toNat + c.toNat = charSum Numeral.zu.chars))

theorem compare_one (a x : UInt8) (rest : List UInt8) :
    keCompareStringEx (a :: rest) [x] 1 = 0 ↔ a = x := by
  rw [keCompareStringEx_eq_zero_iff (by simp) (by simp)]
  simp only [LooksLike, List.take_succ_cons, List.take_zero, charSum_cons, charSum_nil, u32,
    List.length_singleton, true_and, ← UInt8.toNat_inj]
  have ha := UInt8.toNat_lt a
  have hx := UInt8.toNat_lt x
  omega

theorem compare_zu {a : UInt8} {rest : List UInt8} (noNul : 0 ∉ a :: rest) :
    keCompareStringEx (a :: rest) [0xA9, 0xA4] 2 = 0 ↔ Collides a rest := by
  rw [keCompareStringEx_take noNul (by decide)]
  cases rest with
  | nil => simp [LooksLike, Collides]
  | cons c rest =>
    have ha := UInt8.toNat_lt a
    have hc := UInt8.toNat_lt c
    simp only [LooksLike, Collides, Numeral.chars, List.take_succ_cons, List.take_zero,
      charSum_cons, charSum_nil, u32, List.length_cons, List.length_nil, true_and,
      UInt8.reduceToNat]
    omega

theorem directive_cons {a : UInt8} {rest : List UInt8} (noNul : 0 ∉ a :: rest) :
    directive (a :: rest) =
      if a = 0xA2 then (.string, 1)
      else if Collides a rest then (.number (usizetoa · 10), 2)
      else if a = 0xA4 then (.number (ltoa · 10), 1)
      else if a = 0x97 then (.number (uptrtoa · 16), 1)
      else if a = 0xA7 then (.number (ltoa · 16), 1)
      else if a = 0x89 then (.number (itoa · 10), 1)
      else (.unknown, 1) := by
  simp only [directive, compare_one, compare_zu noNul]

/-- The function that converts the argument of a directive. -/
def Numeral.toString : Numeral → UInt32 → Outcome (List UInt8)
  | .u => (ltoa · 10)
  | .zu => (usizetoa · 10)
  | .x => (ltoa · 16)
  | .p => (uptrtoa · 16)
  | .i => (itoa · 10)

/-- The text that a directive gives when it is recognised. -/
def Numeral.shown (d : Numeral) (value : UInt32) : List UInt8 :=
  if d = .i ∧ value = 0x80000000 then lowestText else d.text value

theorem Numeral.toString_shown (d : Numeral) (value : UInt32) :
    d.toString value = .ok (d.shown value) := by
  have range := UInt32.toNat_lt value
  cases d with
  | u => exact numberToString_numeral 10 (by decide) (by decide) range
  | zu => exact numberToString_numeral 10 (by decide) (by decide) range
  | x => exact numberToString_numeral 16 (by decide) (by decide) range
  | p => exact numberToString_numeral 16 (by decide) (by decide) range
  | i =>
    by_cases lowest : value = 0x80000000
    · rw [lowest]
      exact itoa_lowest
    · rw [Numeral.shown, if_neg fun both => lowest both.2]
      exact itoa_signedNumeral lowest

theorem formatChars_noNul (items : List Item) : 0 ∉ formatChars items := (format items).noNul

/-- A directive of one character is misread exactly when it collides with the
character behind it; a percent sign never collides. -/
theorem collides_iff {d : Numeral} {a : UInt8} (single : d.chars = [a]) (items : List Item) :
    Collides a (formatChars items) ↔ Misread d items := by
  have letter : a ∈ [0xA4, 0xA7, 0x97, 0x89] ∧ d ≠ .zu := by
    cases d <;> simp_all [Numeral.chars]
  have apart : a.toNat + percent.toNat ≠ charSum Numeral.zu.chars := by
    have every : ∀ a ∈ ([0xA4, 0xA7, 0x97, 0x89] : List UInt8),
        a.toNat + percent.toNat ≠ charSum Numeral.zu.chars := by decide +kernel
    exact every a letter.1
  cases items with
  | nil => exact Iff.rfl
  | cons item items =>
    cases item with
    | literal c notPercent notNul =>
      simp [formatChars, Item.chars, Collides, Misread, letter.2, single]
    | string str =>
      simp only [formatChars, List.flatMap_cons, Item.chars, List.cons_append, Collides, Misread]
      exact iff_of_false apart id
    | number d' value =>
      simp only [formatChars, List.flatMap_cons, Item.chars, List.cons_append, Collides, Misread]
      exact iff_of_false apart id

/-- A directive that does not collide is recognised. -/
theorem directive_clear {d : Numeral} {items : List Item} (clear : ¬ Misread d items) :
    directive (d.chars ++ formatChars items) = (.number d.toString, d.chars.length) := by
  have noNul := formatChars_noNul items
  have single : ∀ a : UInt8, d.chars = [a] → ¬ Collides a (formatChars items) := fun a single =>
    fun collides => clear ((collides_iff single items).mp collides)
  cases d with
  | zu =>
    have noNul' : (0 : UInt8) ∉ 0xA9 :: (0xA4 :: formatChars items) := by simp [noNul]
    have collides : Collides 0xA9 (0xA4 :: formatChars items) := by
      simp [Collides, Numeral.chars]
    change directive (0xA9 :: (0xA4 :: formatChars items)) = _
    rw [directive_cons noNul', if_neg (by decide), if_pos collides]
    rfl
  | u =>
    change directive (0xA4 :: formatChars items) = _
    rw [directive_cons (by simp [noNul]), if_neg (by decide), if_neg (single _ rfl)]
    rfl
  | x =>
    change directive (0xA7 :: formatChars items) = _
    rw [directive_cons (by simp [noNul]), if_neg (by decide), if_neg (single _ rfl)]
    rfl
  | p =>
    change directive (0x97 :: formatChars items) = _
    rw [directive_cons (by simp [noNul]), if_neg (by decide), if_neg (single _ rfl)]
    rfl
  | i =>
    change directive (0x89 :: formatChars items) = _
    rw [directive_cons (by simp [noNul]), if_neg (by decide), if_neg (single _ rfl)]
    rfl

/-- A directive that collides is taken for "zu", together with the character behind it. -/
theorem directive_misread {d : Numeral} {items : List Item} (misread : Misread d items) :
    directive (d.chars ++ formatChars items) = (.number (usizetoa · 10), 2) ∧
      d.chars.length = 1 := by
  have single : ∃ a, d.chars = [a] ∧ a ≠ 0xA2 ∧ a ≠ 0 := by
    cases d with
    | u => exact ⟨_, rfl, by decide, by decide⟩
    | zu =>
      cases items with
      | nil => exact misread.elim
      | cons item rest =>
        cases item with
        | literal c notPercent notNul => exact absurd rfl misread.1
        | string str => exact misread.elim
        | number d' value => exact misread.elim
    | x => exact ⟨_, rfl, by decide, by decide⟩
    | p => exact ⟨_, rfl, by decide, by decide⟩
    | i => exact ⟨_, rfl, by decide, by decide⟩
  obtain ⟨a, single, notString, notNul⟩ := single
  have collides := (collides_iff single items).mpr misread
  have noNul : 0 ∉ a :: formatChars items := fun member =>
    (List.mem_cons.mp member).elim (fun same => notNul same.symm) (formatChars_noNul items)
  rw [single, List.singleton_append, directive_cons noNul, if_neg notString, if_pos collides]
  exact ⟨rfl, rfl⟩

def textOf (ps : List Piece) : List UInt8 := ps.flatMap Piece.text

theorem textOf_length (ps : List Piece) : (textOf ps).length = textWidth ps := by
  induction ps with
  | nil => rfl
  | cons p ps ih =>
    rw [textWidth_cons, ← ih, textOf, List.flatMap_cons, List.length_append, p.text_length]
    rfl

/-- The pieces that `kvsnprintf` makes of the items. -/
def piecesOf (items : List Item) : List Piece := pieces (formatChars items) (arguments items)

section
variable {c : UInt8} {notPercent : c ≠ percent} {notNul : c ≠ 0} {str : Option CString}
variable {d : Numeral} {value : UInt32} {rest : List Item}

theorem piecesOf_literal :
    piecesOf (.literal c notPercent notNul :: rest) = .literal c :: piecesOf rest := by
  change pieces (c :: formatChars rest) (arguments rest) = _
  rw [pieces, if_neg notPercent]
  rfl

theorem piecesOf_string :
    piecesOf (.string str :: rest) = .expansion (stringText str) :: piecesOf rest := by
  have noNul : (0 : UInt8) ∉ 0xA2 :: formatChars rest := by simp [formatChars_noNul rest]
  change pieces (percent :: 0xA2 :: formatChars rest) (.string str :: arguments rest) = _
  rw [pieces, if_pos rfl, directive_cons noNul, if_pos rfl]
  simp [expand, piecesOf]

theorem piecesOf_number (clear : ¬ Misread d rest) :
    piecesOf (.number d value :: rest) = .expansion (d.shown value) :: piecesOf rest := by
  change pieces (percent :: (d.chars ++ formatChars rest)) (.word value :: arguments rest) = _
  rw [pieces, if_pos rfl, directive_clear clear]
  simp [expand, d.toString_shown, piecesOf]

theorem piecesOf_misread (misread : Misread d (.literal c notPercent notNul :: rest)) :
    piecesOf (.number d value :: .literal c notPercent notNul :: rest) =
      .expansion (numeral 10 value.toNat) :: piecesOf rest := by
  obtain ⟨found, single⟩ := directive_misread misread
  have text : usizetoa value 10 = .ok (numeral 10 value.toNat) :=
    numberToString_numeral 10 (by decide) (by decide) (UInt32.toNat_lt value)
  have behind : (d.chars ++ formatChars (.literal c notPercent notNul :: rest)).drop 2 =
      formatChars rest := by
    rw [show 2 = d.chars.length + 1 by omega, List.drop_append]
    simp [formatChars, Item.chars]
  change pieces (percent :: (d.chars ++ formatChars (.literal c notPercent notNul :: rest)))
    (.word value :: arguments rest) = _
  rw [pieces, if_pos rfl, found]
  simp only [expand, text, behind]
  have long : 2 ≤ (d.chars ++ formatChars (.literal c notPercent notNul :: rest)).length := by
    rw [List.length_append, single, formatChars, List.flatMap_cons, List.length_append]
    exact Nat.add_le_add_left (Nat.le_add_right 1 _) 1
  rw [if_pos long]
  rfl

theorem Misread.literal {items : List Item} (misread : Misread d items) :
    ∃ c notPercent notNul rest, items = .literal c notPercent notNul :: rest := by
  cases items with
  | nil => exact misread.elim
  | cons item rest =>
    cases item with
    | literal c notPercent notNul => exact ⟨c, notPercent, notNul, rest, rfl⟩
    | string str => exact misread.elim
    | number d' value => exact misread.elim

end

/-- No format of items ends in the middle of a directive or lacks an argument. -/
theorem piecesOf_valid (items : List Item) : Piece.invalid ∉ piecesOf items := by
  induction items using (measure List.length).wf.induction with
  | _ items ih =>
    cases items with
    | nil =>
      rw [piecesOf, formatChars, List.flatMap_nil, pieces]
      exact List.not_mem_nil
    | cons item rest =>
      have later := ih rest (Nat.lt_succ_self rest.length)
      cases item with
      | literal c notPercent notNul =>
        rw [piecesOf_literal]
        simp [later]
      | string str =>
        rw [piecesOf_string]
        simp [later]
      | number d value =>
        by_cases misread : Misread d rest
        · obtain ⟨c, notPercent, notNul, rest, rfl⟩ := misread.literal
          have shorter : rest.length <
              (Item.number d value :: .literal c notPercent notNul :: rest).length := by
            simp only [List.length_cons]
            omega
          have last := ih rest shorter
          rw [piecesOf_misread misread]
          simp [last]
        · rw [piecesOf_number misread]
          simp [later]

theorem append_shift {α : Type} {c : α} {t x y : List α} (same : t ++ x = c :: (t ++ y)) :
    x = c :: y := by
  induction t with
  | nil => exact same
  | cons b t ih =>
    obtain ⟨rfl, rest⟩ := List.cons.inj same
    exact ih rest

/-- The character that a directive collides with is not the start of a decimal number. -/
theorem Misread.not_decimal {d : Numeral} {c : UInt8} {notPercent : c ≠ percent}
    {notNul : c ≠ 0} {rest : List Item} (misread : Misread d (.literal c notPercent notNul :: rest)) :
    ¬ (0xF0 ≤ c ∧ c ≤ 0xF9) ∧ c ≠ minus := by
  obtain ⟨notSize, sum⟩ := misread
  have letters : charSum d.chars ∈ [0xA4, 0xA7, 0x97, 0x89] := by
    cases d with
    | zu => exact absurd rfl notSize
    | u => decide
    | x => decide
    | p => decide
    | i => decide
  have total : charSum Numeral.zu.chars = 0x14D := by decide
  rw [total] at sum
  simp only [List.mem_cons, List.not_mem_nil, or_false] at letters
  rw [UInt8.le_iff_toNat_le, UInt8.le_iff_toNat_le, minus, ne_eq, ← UInt8.toNat_inj]
  simp only [UInt8.reduceToNat]
  omega

theorem Numeral.shown_cases (d : Numeral) (value : UInt32) :
    d.shown value = d.text value ∨ d = .i ∧ value = 0x80000000 ∧ d.shown value = lowestText := by
  by_cases lowest : d = .i ∧ value = 0x80000000
  · exact Or.inr ⟨lowest.1, lowest.2, if_pos lowest⟩
  · exact Or.inl (if_neg lowest)

/-- A lost character is never made up for by the pieces behind it. -/
theorem textOf_ne_cons {c : UInt8} (notDigit : ¬ (0xF0 ≤ c ∧ c ≤ 0xF9)) (notMinus : c ≠ minus)
    (items : List Item) : textOf (piecesOf items) ≠ c :: expansion items := by
  induction items with
  | nil =>
    rw [piecesOf, formatChars, List.flatMap_nil, pieces]
    intro same
    cases same
  | cons item rest ih =>
    intro same
    cases item with
    | literal b notPercent notNul =>
      rw [piecesOf_literal] at same
      exact ih (append_shift (t := [b]) same)
    | string str =>
      rw [piecesOf_string] at same
      exact ih (append_shift (t := stringText str) same)
    | number d value =>
      by_cases misread : Misread d rest
      · obtain ⟨b, notPercent, notNul, rest, rfl⟩ := misread.literal
        rw [piecesOf_misread misread] at same
        obtain ⟨digit, digits, text⟩ := List.exists_cons_of_ne_nil (numeral_ne_nil 10 value.toNat)
        have first : digit ∈ numeral 10 value.toNat := text ▸ List.mem_cons_self
        change numeral 10 value.toNat ++ _ = _ at same
        rw [text] at same
        have start : digit = c := (List.cons.inj same).1
        exact notDigit (start ▸ numeral_decimal first)
      · rw [piecesOf_number misread] at same
        change d.shown value ++ textOf (piecesOf rest) = c :: (d.text value ++ expansion rest) at same
        rcases d.shown_cases value with shown | ⟨_, _, lowest⟩
        · rw [shown] at same
          exact ih (append_shift same)
        · rw [lowest] at same
          exact notMinus (List.cons.inj same).1.symm

/-- Before a character that is no digit, the decimal numeral stands for the
hexadecimal one only where they are the same. -/
theorem append_of_hexadecimal {value : Nat} {c : UInt8} {x y : List UInt8}
    (notDigit : ¬ (0xF0 ≤ c ∧ c ≤ 0xF9))
    (same : numeral 10 value ++ x = numeral 16 value ++ c :: y) : x = c :: y := by
  rcases List.append_eq_append_iff.mp same with ⟨more, longer, behind⟩ | ⟨more, longer, behind⟩
  · have lengths := congrArg List.length longer
    rw [List.length_append] at lengths
    have short := numeral_length_le value
    have empty : more = [] := List.length_eq_zero_iff.mp (by omega)
    rwa [empty] at behind
  · cases more with
    | nil => exact behind.symm
    | cons digit more =>
      have start : c = digit := (List.cons.inj behind).1
      have inside : digit ∈ numeral 10 value := longer ▸ List.mem_append_right _ List.mem_cons_self
      exact absurd (numeral_decimal inside) (start ▸ notDigit)

/-- The text of a misread directive is not that of the directive and the character. -/
theorem misread_ne {d : Numeral} {c : UInt8} {notPercent : c ≠ percent} {notNul : c ≠ 0}
    {rest : List Item} (misread : Misread d (.literal c notPercent notNul :: rest))
    (value : UInt32) :
    numeral 10 value.toNat ++ textOf (piecesOf rest) ≠ d.text value ++ c :: expansion rest := by
  intro same
  obtain ⟨notDigit, notMinus⟩ := misread.not_decimal
  have lost := textOf_ne_cons notDigit notMinus rest
  cases d with
  | u => exact lost (List.append_cancel_left same)
  | zu => exact misread.1 rfl
  | x => exact lost (append_of_hexadecimal notDigit same)
  | p => exact lost (append_of_hexadecimal notDigit same)
  | i =>
    change _ = signedNumeral value ++ _ at same
    rw [signedNumeral] at same
    by_cases natural : value.toNat < 2147483648
    · rw [if_pos natural] at same
      exact lost (List.append_cancel_left same)
    · rw [if_neg natural] at same
      obtain ⟨digit, digits, text⟩ := List.exists_cons_of_ne_nil (numeral_ne_nil 10 value.toNat)
      have inside : digit ∈ numeral 10 value.toNat := text ▸ List.mem_cons_self
      rw [text] at same
      have start : digit = minus := (List.cons.inj same).1
      exact absurd (start ▸ numeral_decimal inside) (by decide)

theorem lowestText_ne (x y : List UInt8) :
    lowestText ++ x ≠ Numeral.text .i 0x80000000 ++ y := by
  intro same
  have text : Numeral.text .i 0x80000000 =
      [minus, 0xF2, 0xF1, 0xF4, 0xF7, 0xF4, 0xF8, 0xF3, 0xF6, 0xF4, 0xF8] := by decide
  rw [text] at same
  have second := (List.cons.inj (List.cons.inj same).2).1
  exact absurd second (by decide)

/-- The pieces give the expansion exactly when every directive is recognised and
no `%i` has the lowest number. -/
theorem textOf_eq_iff (items : List Item) :
    textOf (piecesOf items) = expansion items ↔ Clear items := by
  induction items with
  | nil =>
    rw [piecesOf, formatChars, List.flatMap_nil, pieces]
    exact iff_of_true rfl trivial
  | cons item rest ih =>
    cases item with
    | literal c notPercent notNul =>
      rw [piecesOf_literal, Clear, ← ih]
      exact List.append_right_inj [c]
    | string str =>
      rw [piecesOf_string, Clear, ← ih]
      exact List.append_right_inj (stringText str)
    | number d value =>
      rw [Clear, ← ih]
      by_cases misread : Misread d rest
      · obtain ⟨c, notPercent, notNul, rest, rfl⟩ := misread.literal
        rw [piecesOf_misread misread]
        exact iff_of_false (misread_ne misread value) fun clear => clear.1 misread
      · rw [piecesOf_number misread]
        change d.shown value ++ textOf (piecesOf rest) = d.text value ++ expansion rest ↔ _
        rcases d.shown_cases value with shown | ⟨rfl, rfl, lowest⟩
        · have notLowest : d = .i → value ≠ 0x80000000 := by
            rintro rfl rfl
            rw [Numeral.shown, if_pos ⟨rfl, rfl⟩] at shown
            exact lowestText_ne [] [] (congrArg (· ++ []) shown)
          rw [shown, List.append_right_inj]
          exact ⟨fun same => ⟨misread, notLowest, same⟩, fun clear => clear.2.2⟩
        · rw [lowest]
          exact iff_of_false (lowestText_ne _ _) fun clear => clear.2.1 rfl rfl

theorem fitsFrom_of_textWidth {n : Nat} {ps : List Piece} (i length : Nat)
    (valid : Piece.invalid ∉ ps) (room : length + textWidth ps < n) : FitsFrom n i length ps := by
  induction ps generalizing i length with
  | nil => trivial
  | cons p ps ih =>
    rw [textWidth_cons] at room
    intro _
    refine ⟨fun same => valid (same ▸ List.mem_cons_self), by omega, ?_⟩
    exact ih _ _ (fun member => valid (List.mem_cons_of_mem p member)) (by omega)

/-- A buffer that still has a terminator holds the text of the first pieces, of
all unless the text has reached the last byte. -/
theorem formatLoop_text {n : UInt32} {fmt text s : List UInt8} {i : Nat} {args : List Arg}
    (noNulFmt : 0 ∉ fmt) (noNul : 0 ∉ text) (room : text.length < n.toNat)
    (le : i ≤ text.length) (ok : formatLoop n fmt i (padded n.toNat text) args = .ok s)
    (zero : 0 ∈ s) :
    ∃ before after, pieces fmt args = before ++ after ∧ 0 ∉ text ++ textOf before ∧
      s = padded n.toNat (text ++ textOf before) ∧
      (text ++ textOf before).length < n.toNat ∧
      (after = [] ∨ n.toNat ≤ (text ++ textOf before).length + 1) := by
  have limit : (n - 1).toNat = n.toNat - 1 := by
    apply UInt32.toNat_sub_of_le
    exact UInt32.le_iff_toNat_le.mpr (show 1 ≤ n.toNat by omega)
  induction fmt using (measure List.length).wf.induction generalizing i text args with
  | _ fmt ih =>
    cases fmt with
    | nil =>
      rw [formatLoop] at ok
      cases ok
      refine ⟨[], [], ?_, ?_⟩
      · rw [pieces]
        rfl
      · simp [textOf, noNul, room]
    | cons c rest =>
      by_cases starts : i < (n - 1).toNat
      · rcases formatLoop_cons args noNulFmt noNul room starts with
          ⟨p, rest', args', turn⟩ | ⟨_, notBounded⟩
        · have longer : (text ++ p.text).length = text.length + p.width := by
            rw [List.length_append, p.text_length]
          have place : p.next text.length ≤ (text ++ p.text).length := by
            cases p <;> simp [Piece.next, Piece.text]
          rw [turn.goes] at ok
          obtain ⟨before, after, split, later⟩ := ih rest' turn.shorter turn.noNulRest turn.noNul
            (longer ▸ turn.room) place ok
          refine ⟨p :: before, after, ?_, ?_⟩
          · rw [turn.split, split]
            rfl
          · simpa [textOf, List.append_assoc] using later
        · exact absurd ⟨s, ok, zero⟩ notBounded
      · rw [formatLoop, if_neg starts] at ok
        cases ok
        refine ⟨[], pieces (c :: rest) args, rfl, ?_⟩
        simp only [textOf, List.flatMap_nil, List.append_nil]
        exact ⟨noNul, trivial, room, Or.inr (by omega)⟩

theorem digitCode_ne_zero {digit : Nat} (small : digit < 16) : digitCode digit ≠ 0 := by
  interval_cases digit <;> decide

theorem numeral_noNul {base : Nat} (lo : 1 < base) (hi : base ≤ 16) (value : Nat) :
    0 ∉ numeral base value := by
  intro member
  rw [numeral] at member
  by_cases zero : value = 0
  · rw [if_pos zero] at member
    exact absurd member (by decide)
  · rw [if_neg zero, List.mem_reverse, List.mem_map] at member
    obtain ⟨digit, inside, code⟩ := member
    have below := Nat.digits_lt_base lo inside
    exact digitCode_ne_zero (by omega) code

theorem Numeral.text_noNul (d : Numeral) (value : UInt32) : 0 ∉ d.text value := by
  cases d with
  | u => exact numeral_noNul (by decide) (by decide) _
  | zu => exact numeral_noNul (by decide) (by decide) _
  | x => exact numeral_noNul (by decide) (by decide) _
  | p => exact numeral_noNul (by decide) (by decide) _
  | i =>
    rw [Numeral.text, signedNumeral]
    by_cases natural : value.toNat < 2147483648
    · rw [if_pos natural]
      exact numeral_noNul (by decide) (by decide) _
    · rw [if_neg natural]
      intro member
      rcases List.mem_cons.mp member with same | later
      · exact absurd same (by decide)
      · exact numeral_noNul (by decide) (by decide) _ later

theorem expansion_noNul (items : List Item) : 0 ∉ expansion items := by
  intro member
  obtain ⟨item, _, inside⟩ := List.mem_flatMap.mp member
  cases item with
  | literal c notPercent notNul => exact notNul (List.mem_singleton.mp inside).symm
  | string str =>
    cases str with
    | none => exact absurd inside (by decide)
    | some str => exact str.noNul inside
  | number d value => exact d.text_noNul value inside

theorem text_unique {a b x y : List UInt8} (ha : 0 ∉ a) (hb : 0 ∉ b)
    (same : a ++ 0 :: x = b ++ 0 :: y) : a = b := by
  have lengthA := textLength_append ha x
  rw [same, textLength_append hb y] at lengthA
  exact (List.append_inj same (Outcome.ok.inj lengthA).symm).1

/-- A format that is read as it is meant leaves its expansion in the buffer. -/
theorem kvsnprintf_of_clear {n : UInt32} {items : List Item} (clear : Clear items)
    (room : (expansion items).length + 12 < n.toNat) :
    kvsnprintf n (format items) (arguments items) = .ok (padded n.toNat (expansion items)) := by
  have positive : 0 < n.toNat := by omega
  have empty : (0 : UInt8) ∉ ([] : List UInt8) := List.not_mem_nil
  have start : List.replicate n.toNat 0 = padded n.toNat [] := by simp [padded]
  have same : textOf (piecesOf items) = expansion items := (textOf_eq_iff items).mpr clear
  have fits : FitsFrom n.toNat 0 0 (piecesOf items) := by
    refine fitsFrom_of_textWidth 0 0 (piecesOf_valid items) ?_
    rw [← textOf_length, same]
    omega
  obtain ⟨s, ok, zero⟩ :=
    (formatLoop_iff positive 0 (arguments items) (format items).noNul empty positive).mpr fits
  obtain ⟨before, after, split, noNul, buffer, short, stops⟩ :=
    formatLoop_text (format items).noNul empty positive (Nat.le_refl 0) ok zero
  rw [List.nil_append] at noNul buffer short stops
  have total : textOf before ++ textOf after = expansion items := by
    have appended : textOf before ++ textOf after = textOf (before ++ after) :=
      List.flatMap_append.symm
    rw [← same, appended]
    exact congrArg textOf split.symm
  have lengths := congrArg List.length total
  rw [List.length_append] at lengths
  have whole : after = [] := stops.resolve_right (by omega)
  rw [whole, show textOf [] = [] from rfl, List.append_nil] at total
  rw [kvsnprintf, start, ok, buffer, total]

/-- `kvsnprintf` leaves the expansion of its format in the buffer exactly when
no directive of one character is followed by the character that makes it look
like "zu" and no `%i` has the lowest number. -/
theorem kvsnprintf_expands_iff (n : UInt32) (items : List Item)
    (room : (expansion items).length + 12 < n.toNat) :
    (∃ s rest, kvsnprintf n (format items) (arguments items) = .ok s ∧
      s = expansion items ++ 0 :: rest) ↔ Clear items := by
  have positive : 0 < n.toNat := by omega
  have empty : (0 : UInt8) ∉ ([] : List UInt8) := List.not_mem_nil
  have start : List.replicate n.toNat 0 = padded n.toNat [] := by simp [padded]
  constructor
  · rintro ⟨s, rest, ok, text⟩
    rw [kvsnprintf, start] at ok
    have zero : 0 ∈ s := by simp [text]
    obtain ⟨before, after, split, noNul, buffer, short, stops⟩ :=
      formatLoop_text (format items).noNul empty positive (Nat.le_refl 0) ok zero
    rw [List.nil_append] at noNul buffer short stops
    rw [buffer, padded_cons short] at text
    have same := text_unique noNul (expansion_noNul items) text
    have whole : after = [] := stops.resolve_right (by rw [same]; omega)
    rw [whole, List.append_nil] at split
    rw [← textOf_eq_iff, piecesOf, ← same]
    exact congrArg textOf split
  · intro clear
    have left := kvsnprintf_of_clear clear room
    rw [padded_cons (by omega)] at left
    exact ⟨_, _, left, rfl⟩

/-- "%u;" and "%uz" with the argument 5. -/
def counted : List Item := [.number .u 5, .literal 0x5E (by decide) (by decide)]
def countedZ : List Item := [.number .u 5, .literal 0xA9 (by decide) (by decide)]

theorem counted_expands :
    (∃ s rest, kvsnprintf 16 (format counted) (arguments counted) = .ok s ∧
      s = expansion counted ++ 0 :: rest) ↔ Clear counted :=
  kvsnprintf_expands_iff 16 counted (by decide)

/-- The z behind a `%u` is lost. -/
theorem countedZ_loses :
    (expansion countedZ).length + 12 < (16 : UInt32).toNat ∧
    ¬ ∃ s rest, kvsnprintf 16 (format countedZ) (arguments countedZ) = .ok s ∧
      s = expansion countedZ ++ 0 :: rest := by
  refine ⟨by decide, ?_⟩
  rintro ⟨s, rest, ok, text⟩
  have left : kvsnprintf 16 (format countedZ) (arguments countedZ) =
      .ok (0xF5 :: List.replicate 15 0) := by decide +kernel
  have meant : expansion countedZ = [0xF5, 0xA9] := by decide
  rw [left] at ok
  cases ok
  rw [meant] at text
  exact absurd (List.cons.inj (List.cons.inj text).2).1 (by decide)

end Printf
