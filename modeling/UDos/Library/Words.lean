import UDos.Library.Storage

/-!
# Words in byte storage

Big-endian words and halfwords, and the fill loop. What is read at an address
depends on the bytes there, so a store elsewhere does not change it, and a
copied record reads like the original.
-/

namespace Storage

def half (m : Storage) (a : Nat) : Nat := (m a).toNat * 256 + (m (a + 1)).toNat

def word (m : Storage) (a : Nat) : Nat := half m a * 65536 + half m (a + 2)

def setWord (m : Storage) (a v : Nat) : Storage :=
  (((m.write a (UInt8.ofNat (v / 16777216 % 256))).write (a + 1)
    (UInt8.ofNat (v / 65536 % 256))).write (a + 2) (UInt8.ofNat (v / 256 % 256))).write (a + 3)
    (UInt8.ofNat (v % 256))

/-- Store a byte n times, lowest address first. -/
def fill (m : Storage) (a : Nat) (c : UInt8) : Nat → Storage
  | 0 => m
  | n + 1 => fill (m.write a c) (a + 1) c n

/-- Store bytes one after the other. -/
def store (m : Storage) (a : Nat) : List UInt8 → Storage
  | [] => m
  | c :: cs => store (m.write a c) (a + 1) cs

/-- The characters of a string before its terminator, at most this many. -/
def text (m : Storage) : Nat → Nat → List UInt8
  | 0, _ => []
  | n + 1, a => if m a = 0 then [] else m a :: text m n (a + 1)

variable {m m' : Storage} {a b : Nat}

theorem half_lt (m : Storage) (a : Nat) : half m a < 65536 := by
  have hi := (m a).toNat_lt
  have lo := (m (a + 1)).toNat_lt
  unfold half
  omega

theorem word_lt (m : Storage) (a : Nat) : word m a < 4294967296 := by
  have hi := half_lt m a
  have lo := half_lt m (a + 2)
  unfold word
  omega

theorem word_congr (same : ∀ i, i < 4 → m' (b + i) = m (a + i)) : word m' b = word m a := by
  have s0 : m' b = m a := same 0 (by omega)
  have s1 := same 1 (by omega)
  have s2 := same 2 (by omega)
  have s3 := same 3 (by omega)
  simp only [word, half, Nat.add_assoc, Nat.reduceAdd, s0, s1, s2, s3]

theorem word_within {n o : Nat} (same : ∀ i, i < n → m' (b + i) = m (a + i)) (inside : o + 4 ≤ n) :
    word m' (b + o) = word m (a + o) := by
  refine word_congr fun i hi => ?_
  rw [Nat.add_assoc, Nat.add_assoc]
  exact same (o + i) (by omega)

theorem word_zero {m : Storage} {a : Nat} (zero : ∀ i, i < 4 → m (a + i) = 0) : word m a = 0 := by
  have z0 : m a = 0 := zero 0 (by omega)
  have z1 := zero 1 (by omega)
  have z2 := zero 2 (by omega)
  have z3 := zero 3 (by omega)
  simp [word, half, Nat.add_assoc, z0, z1, z2, z3]

theorem setWord_outside (m : Storage) {a v x : Nat} (outside : x < a ∨ a + 4 ≤ x) :
    setWord m a v x = m x := by
  unfold setWord
  rw [write_other _ _ (by omega), write_other _ _ (by omega), write_other _ _ (by omega),
    write_other _ _ (by omega)]

theorem setWord_congr {a v x : Nat} (same : m' x = m x) : setWord m' a v x = setWord m a v x := by
  simp only [setWord, write, same]

theorem word_setWord (m : Storage) (a : Nat) {v : Nat} (range : v < 4294967296) :
    word (setWord m a v) a = v := by
  have b0 : setWord m a v a = UInt8.ofNat (v / 16777216 % 256) := by simp [setWord, write]
  have b1 : setWord m a v (a + 1) = UInt8.ofNat (v / 65536 % 256) := by simp [setWord, write]
  have b2 : setWord m a v (a + 2) = UInt8.ofNat (v / 256 % 256) := by simp [setWord, write]
  have b3 : setWord m a v (a + 2 + 1) = UInt8.ofNat (v % 256) := by simp [setWord, write]
  simp only [word, half, b0, b1, b2, b3, UInt8.toNat_ofNat']
  omega

theorem word_setWord_other (m : Storage) {a b v : Nat} (apart : b + 4 ≤ a ∨ a + 4 ≤ b) :
    word (setWord m a v) b = word m b :=
  word_congr fun _ _ => setWord_outside m (by omega)

theorem ofNat_byte {c : UInt8} {n : Nat} (same : n % 256 = c.toNat) : UInt8.ofNat (n % 256) = c := by
  rw [same, UInt8.ofNat_toNat]

/-- Storing the word that is there changes nothing. -/
theorem setWord_word (m : Storage) (a : Nat) : setWord m a (word m a) = m := by
  have b0 := (m a).toNat_lt
  have b1 := (m (a + 1)).toNat_lt
  have b2 := (m (a + 2)).toNat_lt
  have b3 := (m (a + 3)).toNat_lt
  have read : word m a = ((m a).toNat * 256 + (m (a + 1)).toNat) * 65536 +
      ((m (a + 2)).toNat * 256 + (m (a + 3)).toNat) := rfl
  have s0 : UInt8.ofNat (word m a / 16777216 % 256) = m a := ofNat_byte (by omega)
  have s1 : UInt8.ofNat (word m a / 65536 % 256) = m (a + 1) := ofNat_byte (by omega)
  have s2 : UInt8.ofNat (word m a / 256 % 256) = m (a + 2) := ofNat_byte (by omega)
  have s3 : UInt8.ofNat (word m a % 256) = m (a + 3) := ofNat_byte (by omega)
  have kept : ∀ x, m.write x (m x) = m := fun x => funext fun y => by
    by_cases here : y = x
    · rw [here, write_same]
    · exact write_other _ _ here
  rw [setWord, s0, s1, s2, s3, kept, kept, kept, kept]

theorem setWord_setWord (m : Storage) (a v w : Nat) :
    setWord (setWord m a v) a w = setWord m a w := by
  funext x
  simp only [setWord, write]
  split
  · rfl
  · split
    · rfl
    · split
      · rfl
      · split <;> rfl

theorem fill_outside (m : Storage) {a n x : Nat} {c : UInt8} (outside : x < a ∨ a + n ≤ x) :
    fill m a c n x = m x := by
  induction n generalizing m a with
  | zero => rfl
  | succ n ih =>
    rw [fill, ih _ (by omega)]
    exact write_other m _ (by omega)

theorem fill_inside (m : Storage) {a n i : Nat} {c : UInt8} (hi : i < n) :
    fill m a c n (a + i) = c := by
  induction n generalizing m a i with
  | zero => omega
  | succ n ih =>
    rw [fill]
    cases i with
    | zero =>
      rw [fill_outside _ (by omega)]
      exact write_same m a c
    | succ i =>
      have next : fill (m.write a c) (a + 1) c n (a + 1 + i) = c := ih _ (by omega)
      simpa only [Nat.add_assoc, Nat.add_comm 1 i] using next

theorem word_fill_other (m : Storage) {a b n : Nat} {c : UInt8} (apart : b + 4 ≤ a ∨ a + n ≤ b) :
    word (fill m a c n) b = word m b :=
  word_congr fun _ _ => fill_outside m (by omega)

theorem word_fill_zero (m : Storage) {a i n : Nat} (hi : i + 4 ≤ n) :
    word (fill m a 0 n) (a + i) = 0 :=
  word_zero fun j _ => by
    rw [Nat.add_assoc]
    exact fill_inside m (by omega)

theorem store_outside (m : Storage) {a x : Nat} {cs : List UInt8}
    (outside : x < a ∨ a + cs.length ≤ x) : store m a cs x = m x := by
  induction cs generalizing m a with
  | nil => rfl
  | cons c cs ih =>
    rw [List.length_cons] at outside
    rw [store, ih _ (by omega)]
    exact write_other m _ (by omega)

theorem store_inside (m : Storage) {a i : Nat} {cs : List UInt8} (hi : i < cs.length) :
    store m a cs (a + i) = cs[i] := by
  induction cs generalizing m a i with
  | nil => cases hi
  | cons c cs ih =>
    rw [store]
    cases i with
    | zero =>
      rw [store_outside _ (by omega)]
      exact write_same m a c
    | succ i =>
      have inner : i < cs.length := Nat.lt_of_succ_lt_succ hi
      have next : store (m.write a c) (a + 1) cs (a + 1 + i) = cs[i] := ih _ inner
      simpa only [Nat.add_assoc, Nat.add_comm 1 i, List.getElem_cons_succ] using next

theorem text_eq {m : Storage} {a n : Nat} {s : List UInt8}
    (chars : m.bytes a (s.length + 1) = s ++ [0]) (noNul : 0 ∉ s) (fits : s.length < n) :
    text m n a = s := by
  induction s generalizing a n with
  | nil =>
    obtain ⟨n, rfl⟩ : ∃ k, n = k + 1 := ⟨n - 1, by simp at fits; omega⟩
    have first : m a = 0 := by simpa [bytes] using chars
    simp [text, first]
  | cons c s ih =>
    obtain ⟨n, rfl⟩ : ∃ k, n = k + 1 := ⟨n - 1, by simp at fits; omega⟩
    rw [List.length_cons, Nat.add_right_comm, Nat.add_comm _ 1, bytes_add] at chars
    have first : m a = c := by
      have := congrArg List.head? chars
      simpa [bytes] using this
    have rest : m.bytes (a + 1) (s.length + 1) = s ++ [0] := by
      have := congrArg List.tail chars
      simpa [bytes] using this
    have notEnd : m a ≠ 0 := by
      rw [first]
      rintro rfl
      exact noNul List.mem_cons_self
    rw [text, if_neg notEnd, first,
      ih rest (fun later => noNul (List.mem_cons_of_mem c later)) (by simpa using fits)]

theorem store_bytes (m : Storage) (a : Nat) (cs : List UInt8) :
    (store m a cs).bytes a cs.length = cs := by
  apply List.ext_getElem (by simp)
  intro i _ hi
  simp only [bytes, List.getElem_map, List.getElem_range]
  exact store_inside m hi

end Storage
