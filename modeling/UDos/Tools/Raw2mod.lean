import Mathlib.Data.List.Basic
import UDos.Kernel.Memory

/-!
# Card decks from binaries

`bin2rec` of `raw2mod.c` on a file given by its bytes. `fread` sets the
end-of-file indicator when it is asked for more bytes than are left, so a last
block of fewer than 56 bytes is read and then dropped for the END record.
-/

namespace Raw2mod

open KernelMemory

def ebcdicTxt : List UInt8 := [0xE3, 0xE7, 0xE3]
def ebcdicEnd : List UInt8 := [0xC5, 0xD5, 0xC4]

def zero (n : Nat) : List UInt8 := List.replicate n 0

/-- The bytes of `b_addr` after the first: the low 24 bits of the address. -/
def cardAddress (addr : Nat) : List UInt8 :=
  [UInt8.ofNat (addr / 65536 % 256), UInt8.ofNat (addr / 256 % 256), UInt8.ofNat (addr % 256)]

/-- `cpu_to_be16(56)` -/
def cardLength : List UInt8 := [0, 56]

/-- A punchcard line for 56 bytes at an address. -/
def txtRecord (addr : Nat) (tmp : List UInt8) : List UInt8 :=
  [0x02] ++ ebcdicTxt ++ zero 1 ++ cardAddress addr ++ zero 2 ++ cardLength ++ zero (16 - 12) ++
    tmp ++ zero (80 - 72)

/-- The last line; `line_len` does not count its three characters. -/
def endRecord : List UInt8 := [0x02] ++ ebcdicEnd ++ zero (80 - 1)

/-- The loop of `bin2rec`: the output from here on, when `rest` is not yet read
and the end-of-file indicator is not set. -/
def records (endAddr addr : Nat) (rest : List UInt8) : List UInt8 :=
  let tmp := rest.take 56
  let feof := rest.length < 56
  if endAddr ≤ addr ∨ feof then endRecord
  else txtRecord addr tmp ++ records endAddr (u32 (addr + 56)) (rest.drop 56)
termination_by rest.length
decreasing_by
  rw [List.length_drop]
  omega

/-- `bin2rec` -/
def bin2rec (file : List UInt8) : List UInt8 := records (u32 file.length) 0 file

/-- The address and data of a card with a TXT record. -/
def readCard (card : List UInt8) : Option (Nat × List UInt8) :=
  if (card.drop 1).take 3 = ebcdicTxt then
    let at' (i : Nat) := (card.getD i 0).toNat
    some ((at' 5 * 256 + at' 6) * 256 + at' 7, (card.drop 16).take (at' 10 * 256 + at' 11))
  else none

/-- The addresses and data of the TXT records of a deck of 80-column cards. -/
def readDeck (deck : List UInt8) : List (Nat × List UInt8) :=
  if deck.length < 80 then []
  else (readCard (deck.take 80)).toList ++ readDeck (deck.drop 80)
termination_by deck.length
decreasing_by
  rw [List.length_drop]
  omega

/-- Every byte of the file is on a card, and what a card says about the file is so. -/
def Reproduces (file deck : List UInt8) : Prop :=
  (∀ i, i < file.length → ∃ card ∈ readDeck deck, card.1 ≤ i ∧ i < card.1 + card.2.length) ∧
  ∀ card ∈ readDeck deck, ∀ j, j < card.2.length → card.1 + j < file.length →
    card.2[j]? = file[card.1 + j]?

/-- The whole blocks of 56 bytes, with their addresses. -/
def blocks (addr : Nat) (rest : List UInt8) : List (Nat × List UInt8) :=
  if rest.length < 56 then []
  else (addr, rest.take 56) :: blocks (addr + 56) (rest.drop 56)
termination_by rest.length
decreasing_by
  rw [List.length_drop]
  omega

theorem txtRecord_length {addr : Nat} {tmp : List UInt8} (full : tmp.length = 56) :
    (txtRecord addr tmp).length = 80 := by
  simp [txtRecord, ebcdicTxt, cardAddress, cardLength, zero, full]

theorem readCard_txtRecord {addr : Nat} {tmp : List UInt8} (full : tmp.length = 56)
    (low : addr < 16777216) : readCard (txtRecord addr tmp) = some (addr, tmp) := by
  have front : txtRecord addr tmp = [0x02, 0xE3, 0xE7, 0xE3, 0,
      UInt8.ofNat (addr / 65536 % 256), UInt8.ofNat (addr / 256 % 256), UInt8.ofNat (addr % 256),
      0, 0, 0, 56, 0, 0, 0, 0] ++ (tmp ++ zero 8) := by
    simp [txtRecord, ebcdicTxt, cardAddress, cardLength, zero]
  have data : (tmp ++ zero 8).take 56 = tmp := by
    rw [← full, List.take_left']
    rfl
  have address : (UInt8.ofNat (addr / 65536 % 256)).toNat * 256 * 256 +
      (UInt8.ofNat (addr / 256 % 256)).toNat * 256 + (UInt8.ofNat (addr % 256)).toNat = addr := by
    simp only [UInt8.toNat_ofNat']
    omega
  rw [front]
  set card : List UInt8 := [0x02, 0xE3, 0xE7, 0xE3, 0, UInt8.ofNat (addr / 65536 % 256),
    UInt8.ofNat (addr / 256 % 256), UInt8.ofNat (addr % 256), 0, 0, 0, 56, 0, 0, 0, 0] ++
      (tmp ++ zero 8)
  have isTxt : (card.drop 1).take 3 = ebcdicTxt := rfl
  have behind : card.drop 16 = tmp ++ zero 8 := rfl
  have length : (card.getD 10 0).toNat * 256 + (card.getD 11 0).toNat = 56 := by
    have first : card.getD 10 0 = 0 := rfl
    have second : card.getD 11 0 = 56 := rfl
    rw [first, second]
    decide
  have located : ((card.getD 5 0).toNat * 256 + (card.getD 6 0).toNat) * 256 +
      (card.getD 7 0).toNat = addr := by
    rw [Nat.add_mul]
    exact address
  rw [readCard, if_pos isTxt]
  simp only [length, located, behind, data]

theorem readCard_endRecord : readCard (endRecord.take 80) = none := by decide

theorem readDeck_append {card rest : List UInt8} (length : card.length = 80) :
    readDeck (card ++ rest) = (readCard card).toList ++ readDeck rest := by
  have long : ¬ (card ++ rest).length < 80 := by
    rw [List.length_append]
    omega
  rw [readDeck, if_neg long, ← length, List.take_left, List.drop_left]

theorem readDeck_endRecord : readDeck endRecord = [] := by
  have long : ¬ endRecord.length < 80 := by decide
  have short : (endRecord.drop 80).length < 80 := by decide
  rw [readDeck, if_neg long, readCard_endRecord, readDeck, if_pos short]
  rfl

/-- The deck holds the whole blocks of the file and nothing else. -/
theorem readDeck_records {endAddr addr : Nat} {rest : List UInt8}
    (ends : endAddr = addr + rest.length) (low : endAddr ≤ 16777216) :
    readDeck (records endAddr addr rest) = blocks addr rest := by
  induction h : rest.length using Nat.strongRecOn generalizing addr rest with
  | ind n ih =>
    rw [records, blocks]
    by_cases short : rest.length < 56
    · simp only [if_pos (Or.inr short), if_pos short]
      exact readDeck_endRecord
    · have full : (rest.take 56).length = 56 := by
        rw [List.length_take]
        omega
      have next : u32 (addr + 56) = addr + 56 := u32_eq_self (by omega)
      have more : ¬ (endAddr ≤ addr ∨ rest.length < 56) := by omega
      simp only [if_neg more, if_neg short]
      rw [readDeck_append (txtRecord_length full), readCard_txtRecord full (by omega), next]
      have shorter : (rest.drop 56).length < n := by
        rw [List.length_drop]
        omega
      have later := ih _ shorter (show endAddr = addr + 56 + (rest.drop 56).length by
        rw [List.length_drop]
        omega) rfl
      rw [later]
      rfl

/-- The whole blocks cover the file up to the last multiple of 56. -/
theorem blocks_cover {addr i : Nat} {rest : List UInt8} :
    (∃ card ∈ blocks addr rest, card.1 ≤ i ∧ i < card.1 + card.2.length) ↔
      addr ≤ i ∧ i < addr + rest.length / 56 * 56 := by
  induction h : rest.length using Nat.strongRecOn generalizing addr rest with
  | ind n ih =>
    rw [blocks]
    by_cases short : rest.length < 56
    · simp only [if_pos short, List.not_mem_nil, false_and, exists_false, false_iff]
      omega
    · have full : (rest.take 56).length = 56 := by
        rw [List.length_take]
        omega
      have length : (rest.drop 56).length = n - 56 := by
        rw [List.length_drop]
        omega
      have later : (∃ card ∈ blocks (addr + 56) (rest.drop 56),
          card.1 ≤ i ∧ i < card.1 + card.2.length) ↔
          addr + 56 ≤ i ∧ i < addr + 56 + (n - 56) / 56 * 56 := ih (n - 56) (by omega) length
      simp only [if_neg short, List.mem_cons, exists_eq_or_imp, full]
      rw [later]
      clear later
      omega

theorem blocks_data {addr : Nat} {rest : List UInt8} {card : Nat × List UInt8}
    (member : card ∈ blocks addr rest) {j : Nat} (hj : j < card.2.length) :
    addr ≤ card.1 ∧ card.2[j]? = rest[card.1 - addr + j]? := by
  induction h : rest.length using Nat.strongRecOn generalizing addr rest with
  | ind n ih =>
    rw [blocks] at member
    by_cases short : rest.length < 56
    · rw [if_pos short] at member
      cases member
    · rw [if_neg short] at member
      rcases List.mem_cons.mp member with rfl | later
      · refine ⟨Nat.le_refl _, ?_⟩
        simp only [List.length_take] at hj
        rw [Nat.sub_self, Nat.zero_add, List.getElem?_take_of_lt (by omega)]
      · have shorter : (rest.drop 56).length < n := by
          rw [List.length_drop]
          omega
        obtain ⟨le, data⟩ := ih _ shorter later rfl
        refine ⟨by omega, ?_⟩
        rw [data, List.getElem?_drop]
        congr 1
        omega

/-- The deck of a file within 24 bits reproduces it if and only if its length
is a multiple of 56. -/
theorem bin2rec_reproduces_iff (file : List UInt8) (addressable : file.length ≤ 16777216) :
    Reproduces file (bin2rec file) ↔ 56 ∣ file.length := by
  have ends : u32 file.length = 0 + file.length := by
    rw [u32_eq_self (by omega), Nat.zero_add]
  have deck : readDeck (bin2rec file) = blocks 0 file :=
    readDeck_records ends (by omega)
  rw [Reproduces, deck]
  constructor
  · rintro ⟨covered, _⟩
    by_contra notWhole
    have last := blocks_cover.mp (covered (file.length - 1) (by omega))
    omega
  · intro whole
    refine ⟨fun i hi => blocks_cover.mpr (by omega), ?_⟩
    intro card member j hj _
    have data := (blocks_data member hj).2
    rwa [Nat.sub_zero] at data

theorem one_block_reproduces :
    Reproduces (List.replicate 56 7) (bin2rec (List.replicate 56 7)) ↔
      56 ∣ (List.replicate 56 (7 : UInt8)).length :=
  bin2rec_reproduces_iff _ (by simp)

/-- The deck of a file of one byte has no TXT record. -/
theorem one_byte_lost : bin2rec [7] = endRecord ∧ ¬ Reproduces [7] (bin2rec [7]) := by
  have deck : bin2rec [7] = endRecord := by decide +kernel
  refine ⟨deck, fun reproduces => ?_⟩
  obtain ⟨card, member, _⟩ := reproduces.1 0 (by decide)
  rw [deck, readDeck_endRecord] at member
  cases member

def IsTxt (card : List UInt8) : Prop := card.take 4 = [0x02] ++ ebcdicTxt

def IsEnd (card : List UInt8) : Prop := card.take 4 = [0x02] ++ ebcdicEnd

/-- Cards of 80 columns: any number with a TXT record, and then one with the END record. -/
def EightyColumns (deck : List UInt8) : Prop :=
  ∃ (cards : List (List UInt8)) (last : List UInt8), deck = cards.flatten ++ last ∧
    (∀ card ∈ cards, card.length = 80 ∧ IsTxt card) ∧ last.length = 80 ∧ IsEnd last

/-- The deck is cards of 80 columns with TXT records, and the END record. -/
theorem records_cards (endAddr addr : Nat) (rest : List UInt8) :
    ∃ cards : List (List UInt8), records endAddr addr rest = cards.flatten ++ endRecord ∧
      ∀ card ∈ cards, card.length = 80 ∧ IsTxt card := by
  induction h : rest.length using Nat.strongRecOn generalizing addr rest with
  | ind n ih =>
    rw [records]
    by_cases done : endAddr ≤ addr ∨ rest.length < 56
    · simp only [if_pos done]
      exact ⟨[], rfl, fun card member => (nomatch member)⟩
    · rw [not_or, Nat.not_lt] at done
      have full : (rest.take 56).length = 56 := by
        rw [List.length_take]
        omega
      have shorter : (rest.drop 56).length < n := by
        rw [List.length_drop]
        omega
      obtain ⟨cards, deck, columns⟩ := ih _ shorter (u32 (addr + 56)) _ rfl
      refine ⟨txtRecord addr (rest.take 56) :: cards, ?_, ?_⟩
      · simp only [if_neg (not_or.mpr ⟨done.1, Nat.not_lt.mpr done.2⟩)]
        rw [deck, List.flatten_cons, List.append_assoc]
      · intro card member
        rcases List.mem_cons.mp member with rfl | later
        · exact ⟨txtRecord_length full, rfl⟩
        · exact columns card later

theorem flatten_length {cards : List (List UInt8)} (columns : ∀ card ∈ cards, card.length = 80) :
    cards.flatten.length = 80 * cards.length := by
  induction cards with
  | nil => rfl
  | cons card cards ih =>
    rw [List.flatten_cons, List.length_append, columns card List.mem_cons_self,
      ih fun c member => columns c (List.mem_cons_of_mem card member), List.length_cons]
    omega

theorem EightyColumns.length {deck : List UInt8} (columns : EightyColumns deck) :
    deck.length % 80 = 0 := by
  obtain ⟨cards, last, rfl, txt, length, _⟩ := columns
  rw [List.length_append, flatten_length fun card member => (txt card member).1, length]
  omega

theorem bin2rec_length (file : List UInt8) : (bin2rec file).length % 80 = 3 := by
  obtain ⟨cards, deck, txt⟩ := records_cards (u32 file.length) 0 file
  have last : endRecord.length = 83 := rfl
  rw [bin2rec, deck, List.length_append, flatten_length fun card member => (txt card member).1,
    last]
  omega

theorem bin2rec_trimmed (file : List UInt8) :
    EightyColumns ((bin2rec file).take ((bin2rec file).length - 3)) := by
  obtain ⟨cards, deck, txt⟩ := records_cards (u32 file.length) 0 file
  have last : endRecord.length = 83 := rfl
  have fits : cards.flatten.length ≤ cards.flatten.length + endRecord.length - 3 := by
    rw [last]
    omega
  refine ⟨cards, endRecord.take 80, ?_, txt, rfl, rfl⟩
  rw [bin2rec, deck, List.length_append, List.take_append, List.take_of_length_le fits, last]
  congr 2
  omega

/-- No file makes a deck of cards of 80 columns. Without its last three characters
every deck is one. -/
theorem bin2rec_never_eighty (file : List UInt8) : ¬ EightyColumns (bin2rec file) ∧
    EightyColumns ((bin2rec file).take ((bin2rec file).length - 3)) := by
  refine ⟨fun columns => ?_, bin2rec_trimmed file⟩
  have whole := columns.length
  rw [bin2rec_length] at whole
  exact absurd whole (by decide)

/-- The deck of the empty file is one record of 83 columns. -/
theorem empty_file_overlong : (bin2rec []).length = 83 ∧ ¬ EightyColumns (bin2rec []) := by
  have length : (bin2rec []).length = 83 := by
    rw [bin2rec, records]
    rfl
  refine ⟨length, fun columns => ?_⟩
  have whole := columns.length
  rw [length] at whole
  exact absurd whole (by decide)

end Raw2mod
