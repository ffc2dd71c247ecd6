import UDos.Library.Words

/-!
# Numbers added to words in storage

A patch adds a number to the big-endian word at an address, modulo 2^32. Two
patches of the same word add up, and patches of words that do not overlap come
to the same in either order. A list of bytes is patched like the storage that
holds it.
-/

namespace Storage

variable {m m' : Storage} {z z' x : Nat} {r s : Int} {zs : List Nat}

/-- The sum modulo 2^32. -/
def plus32 (v : Nat) (r : Int) : Nat := (((v : Int) + r) % 4294967296).toNat

def patch (m : Storage) (z : Nat) (r : Int) : Storage := setWord m z (plus32 (word m z) r)

/-- The same number is added to the words at several addresses, one after the other. -/
def patchAll (m : Storage) (zs : List Nat) (r : Int) : Storage :=
  zs.foldl (fun m z => patch m z r) m

/-- Two words are the same one, or they have no byte in common. -/
def WordsApart (z z' : Nat) : Prop := z = z' ∨ z + 4 ≤ z' ∨ z' + 4 ≤ z

instance (z z' : Nat) : Decidable (WordsApart z z') :=
  inferInstanceAs (Decidable (z = z' ∨ z + 4 ≤ z' ∨ z' + 4 ≤ z))

theorem plus32_lt (v : Nat) (r : Int) : plus32 v r < 4294967296 := by
  unfold plus32
  omega

theorem plus32_plus32 (v : Nat) (r s : Int) : plus32 (plus32 v r) s = plus32 v (r + s) := by
  unfold plus32
  omega

theorem plus32_zero {v : Nat} (range : v < 4294967296) : plus32 v 0 = v := by
  unfold plus32
  omega

theorem patch_outside (m : Storage) (r : Int) (outside : x < z ∨ z + 4 ≤ x) :
    patch m z r x = m x :=
  setWord_outside m outside

theorem word_patch (m : Storage) (z : Nat) (r : Int) :
    word (patch m z r) z = plus32 (word m z) r :=
  word_setWord m z (plus32_lt _ r)

theorem word_patch_other (m : Storage) (r : Int) (apart : z' + 4 ≤ z ∨ z + 4 ≤ z') :
    word (patch m z r) z' = word m z' :=
  word_setWord_other m apart

theorem patch_zero (m : Storage) (z : Nat) : patch m z 0 = m := by
  unfold patch
  rw [plus32_zero (word_lt m z)]
  exact setWord_word m z

theorem patch_patch (m : Storage) (z : Nat) (r s : Int) :
    patch (patch m z r) z s = patch m z (r + s) := by
  have sum : plus32 (word (patch m z r) z) s = plus32 (word m z) (r + s) := by
    rw [word_patch]
    exact plus32_plus32 _ r s
  calc patch (patch m z r) z s
      = setWord (setWord m z (plus32 (word m z) r)) z (plus32 (word m z) (r + s)) := by
        rw [patch, sum]
        rfl
    _ = patch m z (r + s) := setWord_setWord m z _ _

theorem setWord_comm (m : Storage) {v w : Nat} (apart : z + 4 ≤ z' ∨ z' + 4 ≤ z) :
    setWord (setWord m z v) z' w = setWord (setWord m z' w) z v := by
  funext x
  by_cases first : z ≤ x ∧ x < z + 4
  · have kept : setWord m z' w x = m x := setWord_outside m (by omega)
    have here : setWord (setWord m z v) z' w x = setWord m z v x := setWord_outside _ (by omega)
    rw [here]
    exact (setWord_congr kept).symm
  · have kept : setWord m z v x = m x := setWord_outside m (by omega)
    have here : setWord (setWord m z' w) z v x = setWord m z' w x := setWord_outside _ (by omega)
    rw [here]
    exact setWord_congr kept

theorem patch_comm (m : Storage) (r s : Int) (apart : WordsApart z z') :
    patch (patch m z r) z' s = patch (patch m z' s) z r := by
  rcases apart with rfl | apart
  · rw [patch_patch, patch_patch, Int.add_comm]
  · have second : word (patch m z r) z' = word m z' := word_patch_other m r (by omega)
    have first : word (patch m z' s) z = word m z := word_patch_other m s (by omega)
    calc patch (patch m z r) z' s
        = setWord (patch m z r) z' (plus32 (word m z') s) := by rw [patch, second]
      _ = setWord (patch m z' s) z (plus32 (word m z) r) := setWord_comm m apart
      _ = patch (patch m z' s) z r := by
        rw [← first]
        rfl

@[simp] theorem patchAll_nil (m : Storage) (r : Int) : patchAll m [] r = m := rfl

@[simp] theorem patchAll_cons (m : Storage) (z : Nat) (zs : List Nat) (r : Int) :
    patchAll m (z :: zs) r = patchAll (patch m z r) zs r := rfl

theorem patchAll_append (m : Storage) (zs zs' : List Nat) (r : Int) :
    patchAll m (zs ++ zs') r = patchAll (patchAll m zs r) zs' r :=
  List.foldl_append

theorem patchAll_outside (m : Storage) (r : Int) (outside : ∀ z ∈ zs, x < z ∨ z + 4 ≤ x) :
    patchAll m zs r x = m x := by
  induction zs generalizing m with
  | nil => rfl
  | cons z zs ih =>
    rw [patchAll_cons, ih (patch m z r) fun z' later => outside z' (List.mem_cons_of_mem z later)]
    exact patch_outside m r (outside z List.mem_cons_self)

theorem patch_patchAll (m : Storage) (r s : Int) (apart : ∀ z' ∈ zs, WordsApart z z') :
    patch (patchAll m zs r) z s = patchAll (patch m z s) zs r := by
  induction zs generalizing m with
  | nil => rfl
  | cons z' zs ih =>
    have swapped : patch (patch m z s) z' r = patch (patch m z' r) z s :=
      patch_comm m s r (apart z' List.mem_cons_self)
    rw [patchAll_cons, patchAll_cons, swapped]
    exact ih (patch m z' r) fun z'' later => apart z'' (List.mem_cons_of_mem z' later)

theorem patchAll_patchAll (m : Storage) (r s : Int) (apart : zs.Pairwise WordsApart) :
    patchAll (patchAll m zs r) zs s = patchAll m zs (r + s) := by
  induction zs generalizing m with
  | nil => rfl
  | cons z zs ih =>
    obtain ⟨now, later⟩ := List.pairwise_cons.mp apart
    calc patchAll (patchAll m (z :: zs) r) (z :: zs) s
        = patchAll (patch (patchAll (patch m z r) zs r) z s) zs s := rfl
      _ = patchAll (patchAll (patch (patch m z r) z s) zs r) zs s := by
        rw [patch_patchAll (patch m z r) r s now]
      _ = patchAll (patch (patch m z r) z s) zs (r + s) := ih _ later
      _ = patchAll m (z :: zs) (r + s) := by rw [patch_patch, patchAll_cons]

/-- The bytes from address 0 on, and zeros behind them. -/
def ofBytes (bs : List UInt8) : Storage := fun i => bs.getD i 0

variable {bs cs : List UInt8}

theorem ofBytes_bytes {a n i : Nat} (inside : i < n) : ofBytes (bytes m a n) i = m (a + i) := by
  simp [ofBytes, bytes, inside]

theorem bytes_ofBytes (bs : List UInt8) : bytes (ofBytes bs) 0 bs.length = bs := by
  apply List.ext_getElem (bytes_length _ _ _)
  intro i _ inside
  simp [bytes, ofBytes, inside]

theorem ofBytes_append {i : Nat} (inside : i < bs.length) :
    ofBytes (bs ++ cs) i = ofBytes bs i := by
  simp [ofBytes, List.getElem?_append_left inside]

/-- The word at an offset of a list of bytes with a number added to it. -/
def patchBytes (bs : List UInt8) (z : Nat) (r : Int) : List UInt8 :=
  bytes (patch (ofBytes bs) z r) 0 bs.length

def patchAllBytes (bs : List UInt8) (zs : List Nat) (r : Int) : List UInt8 :=
  bytes (patchAll (ofBytes bs) zs r) 0 bs.length

@[simp] theorem patchBytes_length (bs : List UInt8) (z : Nat) (r : Int) :
    (patchBytes bs z r).length = bs.length :=
  bytes_length _ _ _

@[simp] theorem patchAllBytes_length (bs : List UInt8) (zs : List Nat) (r : Int) :
    (patchAllBytes bs zs r).length = bs.length :=
  bytes_length _ _ _

theorem word_shift {a n : Nat} (inside : z + 4 ≤ n) (same : ∀ i, i < n → m' i = m (a + i)) :
    word m' z = word m (a + z) :=
  word_congr fun i hi => by
    rw [same (z + i) (by omega), Nat.add_assoc]

theorem patch_shift {a n i : Nat} (inside : z + 4 ≤ n) (same : ∀ i, i < n → m' i = m (a + i))
    (hi : i < n) : patch m' z r i = patch m (a + z) r (a + i) := by
  have read : word m' z = word m (a + z) := word_shift inside same
  rw [patch, patch, read]
  by_cases here : z ≤ i ∧ i < z + 4
  · obtain ⟨k, rfl⟩ := Nat.exists_eq_add_of_le here.1
    have byte : ∀ v, setWord m' z v (z + k) = setWord m (a + z) v (a + (z + k)) := fun v => by
      simp only [setWord, write]
      have sides : ∀ j, z + k = z + j ↔ a + (z + k) = a + z + j := fun j => by omega
      have first : z + k = z ↔ a + (z + k) = a + z := by omega
      simp only [sides, first, same _ hi]
    exact byte _
  · rw [setWord_outside m' (by omega), setWord_outside m (by omega)]
    exact same i hi

theorem bytes_patch {a n : Nat} (inside : z + 4 ≤ n) (r : Int) :
    bytes (patch m (a + z) r) a n = patchBytes (bytes m a n) z r := by
  rw [patchBytes, bytes_length]
  refine bytes_congr fun i hi => ?_
  rw [Nat.zero_add]
  exact (patch_shift inside (fun j hj => ofBytes_bytes hj) hi).symm

/-- What is patched in front of an append is patched alone. -/
theorem patchBytes_append (inside : z + 4 ≤ bs.length) (r : Int) :
    patchBytes (bs ++ cs) z r = patchBytes bs z r ++ cs := by
  have front : bytes (patch (ofBytes (bs ++ cs)) z r) 0 bs.length = patchBytes bs z r := by
    refine bytes_congr fun i hi => ?_
    rw [Nat.zero_add]
    have same : ∀ j, j < bs.length → ofBytes bs j = ofBytes (bs ++ cs) (0 + j) := fun j hj => by
      rw [Nat.zero_add]
      exact (ofBytes_append hj).symm
    have shifted := @patch_shift (ofBytes (bs ++ cs)) (ofBytes bs) z r 0 bs.length i inside same hi
    rw [Nat.zero_add, Nat.zero_add] at shifted
    exact shifted.symm
  have back : bytes (patch (ofBytes (bs ++ cs)) z r) (0 + bs.length) cs.length = cs := by
    apply List.ext_getElem (bytes_length _ _ _)
    intro i _ hi
    have kept : patch (ofBytes (bs ++ cs)) z r (bs.length + i) = ofBytes (bs ++ cs) (bs.length + i) :=
      patch_outside _ r (by omega)
    simp only [bytes, List.getElem_map, List.getElem_range, Nat.zero_add, kept]
    simp [ofBytes, hi]
  rw [patchBytes, List.length_append, bytes_add, front, back]

theorem ofBytes_patchAllBytes (bs : List UInt8) {zs : List Nat} (r : Int)
    (inside : ∀ z ∈ zs, z + 4 ≤ bs.length) :
    ofBytes (patchAllBytes bs zs r) = patchAll (ofBytes bs) zs r := by
  funext i
  by_cases hi : i < bs.length
  · rw [patchAllBytes, ofBytes_bytes hi, Nat.zero_add]
  · have kept : patchAll (ofBytes bs) zs r i = ofBytes bs i :=
      patchAll_outside _ r fun z member => by
        have := inside z member
        omega
    have behind : ∀ l : List UInt8, l.length ≤ i → ofBytes l i = 0 := fun l le => by
      simp [ofBytes, le]
    rw [kept, behind bs (by omega)]
    exact behind _ (by rw [patchAllBytes_length]; omega)

theorem patchAllBytes_snoc (bs : List UInt8) (zs : List Nat) (z : Nat) (r : Int)
    (inside : ∀ z' ∈ zs, z' + 4 ≤ bs.length) :
    patchAllBytes bs (zs ++ [z]) r = patchBytes (patchAllBytes bs zs r) z r := by
  rw [patchBytes, ofBytes_patchAllBytes bs r inside, patchAllBytes_length, patchAllBytes,
    patchAll_append, patchAll_cons, patchAll_nil]

theorem patchAllBytes_patchAllBytes (bs : List UInt8) {zs : List Nat} (r s : Int)
    (inside : ∀ z ∈ zs, z + 4 ≤ bs.length) (apart : zs.Pairwise WordsApart) :
    patchAllBytes (patchAllBytes bs zs r) zs s = patchAllBytes bs zs (r + s) := by
  rw [patchAllBytes, ofBytes_patchAllBytes bs r inside, patchAllBytes_length,
    patchAll_patchAll _ r s apart]
  rfl

end Storage
