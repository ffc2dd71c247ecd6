import UDos.Kernel.PrintfMeaning
import UDos.Kernel.Strings

/-!
# Printing and parsing numbers

`KeConvertStringToInt` on the text that `itoa` makes of a number. The lowest
number is not changed by its negation: its remainders are negative, their
characters lie below '0', and the parser stops at the first of them.
-/

namespace Printf

open KernelMemory KernelStrings

/-- The number that the digits are parsed to, without a bound. -/
def digitsValue (digits : List UInt8) (num : Int) : Int :=
  digits.foldl (fun num c => num * 10 + (c.toNat - 0xF0)) num

/-- The loop over the digits wraps, and so does its result. -/
theorem keDigitsLoop_spells {m : Storage} {fuel s : Nat} {digits : List UInt8}
    (spelled : Spells m s digits) (decimal : ∀ c ∈ digits, 0xF0 ≤ c ∧ c ≤ 0xF9)
    (enough : digits.length < fuel) (num : Int) :
    keDigitsLoop m fuel s (signed32 num) = .ok (signed32 (digitsValue digits num)) := by
  induction digits generalizing fuel s num with
  | nil =>
    obtain ⟨fuel, rfl⟩ : ∃ k, fuel = k + 1 :=
      ⟨fuel - 1, (Nat.sub_add_cancel (Nat.lt_of_le_of_lt (Nat.zero_le _) enough)).symm⟩
    have ends : m s = 0 := spelled
    rw [keDigitsLoop, ends, if_neg (by decide)]
    rfl
  | cons c digits ih =>
    obtain ⟨fuel, rfl⟩ : ∃ k, fuel = k + 1 := ⟨fuel - 1, by omega⟩
    have digit := decimal c List.mem_cons_self
    have wraps : signed32 (signed32 (signed32 num * 10) + ((c.toNat : Int) - 0xF0)) =
        signed32 (num * 10 + (c.toNat - 0xF0)) := by
      unfold signed32
      omega
    rw [keDigitsLoop, spelled.1, if_pos digit, wraps]
    exact ih spelled.2.2 (fun d hd => decimal d (List.mem_cons_of_mem c hd))
      (Nat.lt_of_succ_lt_succ enough) _

theorem digitCode_value {digit : Nat} (decimal : digit < 10) :
    (((digitCode digit).toNat : Int) - 0xF0) = digit := by
  rw [digitCode, if_pos decimal, UInt8.toNat_ofNat']
  omega

/-- The numeral of a number is parsed to it. -/
theorem digitsValue_numeral (value : Nat) : digitsValue (numeral 10 value) 0 = value := by
  have loop : ∀ digits : List Nat, (∀ digit ∈ digits, digit < 10) →
      digitsValue (digits.map digitCode).reverse 0 = (Nat.ofDigits 10 digits : Nat) := by
    intro digits
    induction digits with
    | nil => exact fun _ => rfl
    | cons digit digits ih =>
      intro decimal
      have rest := ih fun d hd => decimal d (List.mem_cons_of_mem digit hd)
      have last := digitCode_value (decimal digit List.mem_cons_self)
      rw [digitsValue] at rest ⊢
      rw [List.map_cons, List.reverse_cons, List.foldl_append, rest, List.foldl_cons,
        List.foldl_nil, last, Nat.ofDigits_cons]
      push_cast
      ring
  rw [numeral]
  by_cases zero : value = 0
  · rw [if_pos zero, zero]
    decide
  · rw [if_neg zero, loop _ fun digit inside => Nat.digits_lt_base (by decide) inside,
      Nat.ofDigits_digits]

/-- Wherever the text and the literal of the blanks are, the text is parsed to the number. -/
def ParsesTo (text : List UInt8) (value : Int) : Prop :=
  ∀ (m : Storage) (blanks s : Nat), blanks < 4294967296 → s < 4294967296 →
    Spells m blanks blanksLiteral → Spells m s text →
    Returns (fun fuel => keConvertStringToInt fuel m blanks s) value

section
variable {m : Storage} {blanks s fuel : Nat} {c : UInt8} {text : List UInt8}

/-- Nothing is skipped in front of a character that is no blank. -/
theorem keConvertStringToInt_front (pointer : blanks < 4294967296) (pointer' : s < 4294967296)
    (literal : Spells m blanks blanksLiteral) (spelled : Spells m s (c :: text))
    (plain : c ∉ blanksLiteral) (enough : 2 < fuel) :
    keConvertStringToInt fuel m blanks s =
      if c = minus then do
        let num ← keDigitsLoop m fuel (u32 (s + 1)) 0
        .ok (signed32 (-num))
      else keDigitsLoop m fuel s 0 := by
  have search := keAcceptLoop_spells (c := c) literal pointer (by decide) enough (Nat.zero_le _)
    enough
  rw [List.drop_zero, decide_eq_false plain] at search
  have span : keSpanString fuel m s blanks = .ok 0 := by
    obtain ⟨more, rfl⟩ : ∃ k, fuel = k + 1 := ⟨fuel - 1, by omega⟩
    have more : m s ≠ 0 := spelled.1 ▸ spelled.2.1
    rw [keSpanString, keSpanStringLoop, if_pos more, spelled.1, search]
    rfl
  have start : u32 (s + 0) = s := u32_eq_self pointer'
  simp only [keConvertStringToInt, span, Outcome.ok_bind, start, spelled.1]
  by_cases sign : c = minus
  · rw [if_pos sign, sign]
    simp [minus]
  · have other : c ≠ 0x60 := sign
    simp only [if_neg sign, other, decide_false, Bool.false_eq_true, if_false]
    cases keDigitsLoop m fuel s 0 with
    | ok num => rfl
    | panic message => rfl
    | fault => rfl
    | diverge => rfl

theorem digit_plain (digit : 0xF0 ≤ c) : c ∉ blanksLiteral ∧ c ≠ minus := by
  rw [UInt8.le_iff_toNat_le] at digit
  constructor
  · intro member
    rcases List.mem_cons.mp member with rfl | member
    · exact absurd digit (by decide)
    · rcases List.mem_cons.mp member with rfl | member
      · exact absurd digit (by decide)
      · exact absurd member List.not_mem_nil
  · rintro rfl
    exact absurd digit (by decide)

theorem parsesTo_digits (some : text ≠ []) (decimal : ∀ c ∈ text, 0xF0 ≤ c ∧ c ≤ 0xF9) :
    ParsesTo text (signed32 (digitsValue text 0)) := by
  intro m blanks s pointer pointer' literal spelled
  obtain ⟨c, rest, rfl⟩ := List.exists_cons_of_ne_nil some
  obtain ⟨plain, sign⟩ := digit_plain (decimal c List.mem_cons_self).1
  refine ⟨(c :: rest).length + 3, ?_⟩
  dsimp only
  rw [keConvertStringToInt_front pointer pointer' literal spelled plain (by omega), if_neg sign]
  exact keDigitsLoop_spells spelled decimal (by omega) 0

theorem parsesTo_minus (decimal : ∀ c ∈ text, 0xF0 ≤ c ∧ c ≤ 0xF9) :
    ParsesTo (minus :: text) (signed32 (-signed32 (digitsValue text 0))) := by
  intro m blanks s pointer pointer' literal spelled
  refine ⟨text.length + 3, ?_⟩
  have digits := keDigitsLoop_spells spelled.2.2 decimal
    (show text.length < text.length + 3 by omega) 0
  rw [show signed32 0 = 0 from rfl] at digits
  dsimp only
  rw [keConvertStringToInt_front pointer pointer' literal spelled (by decide) (by omega),
    if_pos rfl, digits]
  rfl

end

/-- A minus sign and digits, or digits, without a leading zero. -/
def DecimalText (text : List UInt8) : Prop :=
  ∃ digits, (text = digits ∨ text = minus :: digits) ∧ digits ≠ [] ∧
    (∀ c ∈ digits, 0xF0 ≤ c ∧ c ≤ 0xF9) ∧ (digits.head? = some 0xF0 → text = [0xF0])

/-- The conversion to a string stays inside `numbuf`, its text is a decimal
numeral, and the number is parsed back from it. -/
def RoundTrips (v : UInt32) : Prop :=
  ∃ text, itoa v 10 = .ok text ∧ DecimalText text ∧ ParsesTo text (signed32 v.toNat)

theorem numeral_head {value : Nat} (positive : value ≠ 0) :
    (numeral 10 value).head? ≠ some 0xF0 := by
  have highest := Nat.getLast_digit_ne_zero 10 positive
  have decimal : (Nat.digits 10 value).getLast (Nat.digits_ne_nil_iff_ne_zero.mpr positive) < 10 :=
    Nat.digits_lt_base (by decide) (List.getLast_mem _)
  rw [numeral, if_neg positive, List.head?_reverse, List.getLast?_map,
    List.getLast?_eq_getLast_of_ne_nil (Nat.digits_ne_nil_iff_ne_zero.mpr positive)]
  intro same
  have code := digitCode_value decimal
  rw [Option.some.inj same] at code
  simp only [UInt8.reduceToNat] at code
  omega

theorem numeral_decimalText (value : Nat) : DecimalText (numeral 10 value) := by
  refine ⟨_, Or.inl rfl, numeral_ne_nil 10 value, fun c => numeral_decimal, fun zero => ?_⟩
  by_cases positive : value = 0
  · rw [positive]
    rfl
  · exact absurd zero (numeral_head positive)

theorem lowestText_not_decimal : ¬ DecimalText lowestText := by
  rintro ⟨digits, shape, _, decimal, _⟩
  have member : (0xEE : UInt8) ∈ digits := by
    rcases shape with rfl | shape
    · decide
    · rw [← (List.cons.inj shape).2]
      decide
  exact absurd (decimal _ member).1 (by decide)

/-- A number survives the conversion to a string and back unless it is the lowest. -/
theorem itoa_round_trips_iff (v : UInt32) : RoundTrips v ↔ v ≠ 0x80000000 := by
  constructor
  · rintro ⟨text, made, decimal, _⟩ rfl
    rw [itoa_lowest] at made
    cases made
    exact lowestText_not_decimal decimal
  · intro notLowest
    refine ⟨signedNumeral v, itoa_signedNumeral notLowest, ?_⟩
    have range := UInt32.toNat_lt v
    have digits : ∀ value, ∀ c ∈ numeral 10 value, 0xF0 ≤ c ∧ c ≤ 0xF9 :=
      fun value c => numeral_decimal
    rw [signedNumeral]
    by_cases natural : v.toNat < 2147483648
    · rw [if_pos natural]
      have parsed := parsesTo_digits (numeral_ne_nil 10 v.toNat) (digits _)
      rw [digitsValue_numeral] at parsed
      exact ⟨numeral_decimalText _, parsed⟩
    · rw [if_neg natural]
      have parsed := parsesTo_minus (digits (4294967296 - v.toNat))
      have back : signed32 (-signed32 ((4294967296 - v.toNat : Nat) : Int)) =
          signed32 v.toNat := by
        unfold signed32
        omega
      rw [digitsValue_numeral, back] at parsed
      refine ⟨⟨_, Or.inr rfl, numeral_ne_nil 10 _, digits _, fun zero => ?_⟩, parsed⟩
      exact absurd zero (numeral_head (by omega))

theorem lowest_parses_to_zero : ParsesTo lowestText 0 := by
  intro m blanks s pointer pointer' literal spelled
  refine ⟨3, ?_⟩
  have stops : keDigitsLoop m 3 (u32 (s + 1)) 0 = .ok 0 := by
    rw [keDigitsLoop, spelled.2.2.1, if_neg (by decide)]
  dsimp only
  rw [keConvertStringToInt_front pointer pointer' literal spelled (by decide) (by omega),
    if_pos rfl, stops]
  rfl

/-- The blanks at address 1 and the text of the lowest number at address 4. -/
def lowestStorage : Storage := fun a => ([0, 0x40, 0x05, 0] ++ lowestText).getD a 0

/-- -2147483648 becomes a text without digits, which is parsed to zero. -/
theorem lowest_does_not_round_trip :
    itoa 0x80000000 10 = .ok lowestText ∧ ¬ DecimalText lowestText ∧
      Returns (fun fuel => keConvertStringToInt fuel lowestStorage 1 4) 0 ∧
      ¬ RoundTrips 0x80000000 := by
  have literal : Spells lowestStorage 1 blanksLiteral := by decide
  have spelled : Spells lowestStorage 4 lowestText := by decide
  refine ⟨itoa_lowest, lowestText_not_decimal,
    lowest_parses_to_zero lowestStorage 1 4 (by decide) (by decide) literal spelled, ?_⟩
  rintro ⟨text, made, decimal, _⟩
  rw [itoa_lowest] at made
  cases made
  exact lowestText_not_decimal decimal

end Printf
