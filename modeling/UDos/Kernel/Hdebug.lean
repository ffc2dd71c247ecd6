import UDos.Library.Buffer

/-!
# The debug channel

`ModWriteHercDebug` sends a message to the log of the emulator. It builds the
command in a buffer of its own, and two loops that share an index bring the
text into a form fit for the log. Where the first of them stops is also the
length that is sent. Characters are EBCDIC.
-/

namespace Hdebug

/-- The three runs of lower-case letters; other characters stay. -/
def upperCased (c : UInt8) : UInt8 :=
  if c ≥ 0x81 ∧ c ≤ 0x89 then 0xC1 + (c - 0x81)
  else if c ≥ 0x91 ∧ c ≤ 0x99 then 0xD1 + (c - 0x91)
  else if c ≥ 0xA2 ∧ c ≤ 0xA9 then 0xE2 + (c - 0xA2)
  else c

def blanked (c : UInt8) : UInt8 :=
  if c = 0x0D ∨ c = 0x15 then 0x40 else c

/-- The command of the monitor: "MSG * ". -/
def cmd : List UInt8 := [0xD4, 0xE2, 0xC7, 0x40, 0x5C, 0x40]

/-- `tmpbuf` is what the 56 bytes of the stack held before; the text that
`__DIAG8` is called with is returned. -/
def modWriteHercDebug (tmpbuf buf : List UInt8) : Outcome (List UInt8) := do
  let n := if buf.length ≥ 50 then 50 else buf.length
  let tmpbuf ← Buffer.storeAll tmpbuf 0 cmd
  let tmpbuf ← Buffer.storeAll tmpbuf 6 (buf.take n)
  let (tmpbuf, i) ← Buffer.mapUpTo upperCased (6 + n - 1) tmpbuf.length tmpbuf 6
  let (tmpbuf, _) ← Buffer.mapUpTo blanked i tmpbuf.length tmpbuf 0
  .ok (tmpbuf.take i)

/-- A character as the log shows it. -/
def logged (c : UInt8) : UInt8 := blanked (upperCased c)

def lowerLetters : List UInt8 :=
  [0x81, 0x82, 0x83, 0x84, 0x85, 0x86, 0x87, 0x88, 0x89, 0x91, 0x92, 0x93, 0x94, 0x95, 0x96, 0x97,
    0x98, 0x99, 0xA2, 0xA3, 0xA4, 0xA5, 0xA6, 0xA7, 0xA8, 0xA9]

def upperLetters : List UInt8 :=
  [0xC1, 0xC2, 0xC3, 0xC4, 0xC5, 0xC6, 0xC7, 0xC8, 0xC9, 0xD1, 0xD2, 0xD3, 0xD4, 0xD5, 0xD6, 0xD7,
    0xD8, 0xD9, 0xE2, 0xE3, 0xE4, 0xE5, 0xE6, 0xE7, 0xE8, 0xE9]

theorem upperCased_letters : lowerLetters.map upperCased = upperLetters := by decide

theorem upperCased_other {c : UInt8} (other : c ∉ lowerLetters) : upperCased c = c := by
  have every : ∀ n : Fin 256, UInt8.ofNat n ∉ lowerLetters →
      upperCased (UInt8.ofNat n) = UInt8.ofNat n := by decide +kernel
  have here := every ⟨c.toNat, c.toNat_lt⟩
  simp only [UInt8.ofNat_toNat] at here
  exact here other

/-- The first loop stops one character before the end of the message. -/
theorem upperCase_loop (message rest : List UInt8) {fuel : Nat} (enough : message.length < fuel) :
    Buffer.mapUpTo upperCased (6 + message.length - 1) fuel (cmd ++ message ++ rest) 6 =
      .ok (cmd ++ message.dropLast.map upperCased ++ (message.drop (message.length - 1) ++ rest),
        6 + (message.length - 1)) := by
  cases message with
  | nil => exact Buffer.mapUpTo_stop upperCased _ (by decide) enough
  | cons c text =>
    have shorter : (c :: text).dropLast.length = (c :: text).length - 1 := List.length_dropLast
    have split : (c :: text).dropLast ++ (c :: text).drop ((c :: text).length - 1) = c :: text := by
      rw [List.dropLast_eq_take]
      exact List.take_append_drop _ _
    have limit : 6 + (c :: text).length - 1 = cmd.length + (c :: text).dropLast.length := by
      rw [shorter, List.length_cons]
      rfl
    have less : (c :: text).dropLast.length < fuel := by omega
    have ran := Buffer.mapUpTo_append upperCased cmd (c :: text).dropLast
      ((c :: text).drop ((c :: text).length - 1) ++ rest) less
    rw [← limit, List.append_assoc cmd, ← List.append_assoc _ _ rest, split,
      ← List.append_assoc] at ran
    exact ran

/-- What is sent: the command, and the message without its last character. -/
theorem modWriteHercDebug_eq (tmpbuf buf : List UInt8) (size : tmpbuf.length = 56) :
    modWriteHercDebug tmpbuf buf = .ok (cmd ++ (buf.take 50).dropLast.map logged) := by
  have cut : (if buf.length ≥ 50 then 50 else buf.length) = (buf.take 50).length := by
    rw [List.length_take]
    split <;> omega
  have taken : buf.take (buf.take 50).length = buf.take 50 := by
    rw [List.length_take, ← List.take_take, List.take_length]
  have short : (buf.take 50).length ≤ 50 := List.length_take_le _ _
  simp only [modWriteHercDebug, cut, taken]
  generalize buf.take 50 = message at short ⊢
  obtain ⟨old, rest, rfl, six⟩ : ∃ old rest, tmpbuf = old ++ rest ∧ old.length = 6 :=
    ⟨_, _, (List.take_append_drop 6 tmpbuf).symm, by simp [size]⟩
  have size' : rest.length = 50 := by
    rw [List.length_append] at size
    omega
  obtain ⟨place, rest, rfl, room⟩ : ∃ place rest', rest = place ++ rest' ∧
      place.length = message.length :=
    ⟨_, _, (List.take_append_drop message.length rest).symm, by simp [size', short]⟩
  have commanded : Buffer.storeAll (old ++ (place ++ rest)) 0 cmd = .ok (cmd ++ (place ++ rest)) :=
    Buffer.storeAll_append [] old cmd (place ++ rest) six
  have stored : Buffer.storeAll (cmd ++ (place ++ rest)) 6 message =
      .ok (cmd ++ message ++ rest) := by
    rw [← List.append_assoc]
    exact Buffer.storeAll_append cmd place message rest room
  have enough : message.length < (cmd ++ message ++ rest).length := by
    simp only [List.length_append, show cmd.length = 6 from rfl]
    omega
  rw [commanded, Outcome.ok_bind, stored, Outcome.ok_bind, upperCase_loop message rest enough,
    Outcome.ok_bind]
  have behindPos : 0 < (message.drop (message.length - 1) ++ rest).length := by
    simp only [List.length_append, List.length_drop]
    simp only [List.length_append] at size'
    omega
  generalize message.drop (message.length - 1) ++ rest = behind at behindPos ⊢
  have length : (cmd ++ message.dropLast.map upperCased).length = 6 + (message.length - 1) := by
    simp only [List.length_append, List.length_map, List.length_dropLast]
    rfl
  have within : (cmd ++ message.dropLast.map upperCased).length <
      (cmd ++ message.dropLast.map upperCased ++ behind).length :=
    lt_of_lt_of_eq (Nat.lt_add_of_pos_right behindPos) List.length_append.symm
  have blanks := Buffer.mapUpTo_append blanked [] (cmd ++ message.dropLast.map upperCased) behind
    within
  simp only [List.length_nil, Nat.zero_add, List.nil_append, length] at blanks
  simp only [blanks, Outcome.ok_bind]
  have sent : ((cmd ++ message.dropLast.map upperCased).map blanked).length =
      6 + (message.length - 1) := by rw [List.length_map, length]
  rw [List.take_left' sent, List.map_append, List.map_map]
  rfl

/-- The message is sent as it should be exactly when it is empty: of every
other message the last of the characters that fit is left out. -/
theorem message_exact_iff (tmpbuf buf : List UInt8) (size : tmpbuf.length = 56) :
    modWriteHercDebug tmpbuf buf = .ok (cmd ++ (buf.take 50).map logged) ↔ buf = [] := by
  rw [modWriteHercDebug_eq tmpbuf buf size]
  constructor
  · intro same
    have lengths := congrArg List.length (Outcome.ok.inj same)
    simp only [List.length_append, List.length_map, List.length_dropLast, List.length_take]
      at lengths
    apply List.eq_nil_of_length_eq_zero
    omega
  · rintro rfl
    rfl

theorem message_exact_iff_of_letter :
    modWriteHercDebug (List.replicate 56 0) [0x81] = .ok (cmd ++ ([0x81].take 50).map logged) ↔
      [(0x81 : UInt8)] = [] :=
  message_exact_iff (List.replicate 56 0) [0x81] (by decide)

/-- Of "ab" the "A" is sent. -/
theorem message_cut :
    modWriteHercDebug (List.replicate 56 0) [0x81, 0x82] = .ok (cmd ++ [0xC1]) ∧
      modWriteHercDebug (List.replicate 56 0) [0x81, 0x82] ≠
        .ok (cmd ++ ([0x81, 0x82].take 50).map logged) :=
  ⟨by decide, by decide⟩

end Hdebug
