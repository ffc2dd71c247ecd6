import Mathlib.Data.List.Basic

/-!
# Byte storage and byte-by-byte copies

Storage is a byte for every address. The two copy loops move one byte at a
time, upwards or downwards, and read a source byte only when its turn comes,
so overlapping ranges behave as on the machine.
-/

abbrev Storage := Nat → UInt8

namespace Storage

def write (m : Storage) (a : Nat) (v : UInt8) : Storage :=
  fun x => if x = a then v else m x

/-- Copy n bytes, lowest address first. -/
def copyUp (m : Storage) (dest src : Nat) : Nat → Storage
  | 0 => m
  | n + 1 => copyUp (m.write dest (m src)) (dest + 1) (src + 1) n

/-- Copy n bytes, from the given addresses downwards. -/
def copyDown (m : Storage) (dest src : Nat) : Nat → Storage
  | 0 => m
  | n + 1 => copyDown (m.write dest (m src)) (dest - 1) (src - 1) n

/-- The n bytes from address a on. -/
def bytes (m : Storage) (a n : Nat) : List UInt8 :=
  (List.range n).map fun i => m (a + i)

@[simp] theorem write_same (m : Storage) (a : Nat) (v : UInt8) : m.write a v a = v := by
  simp [write]

@[simp] theorem write_other (m : Storage) {a x : Nat} (v : UInt8) (h : x ≠ a) :
    m.write a v x = m x := by
  simp [write, h]

theorem copyUp_outside (m : Storage) {dest src n x : Nat}
    (outside : x < dest ∨ dest + n ≤ x) : copyUp m dest src n x = m x := by
  induction n generalizing m dest src with
  | zero => rfl
  | succ n ih =>
    rw [copyUp, ih _ (by omega)]
    exact write_other m _ (by omega)

/-- An upward copy is right when the destination does not start inside the
source: no byte is overwritten before it has been read. -/
theorem copyUp_inside (m : Storage) {dest src n i : Nat}
    (safe : dest ≤ src ∨ src + n ≤ dest) (hi : i < n) :
    copyUp m dest src n (dest + i) = m (src + i) := by
  induction n generalizing m dest src i with
  | zero => omega
  | succ n ih =>
    rw [copyUp]
    cases i with
    | zero =>
      rw [copyUp_outside _ (by omega)]
      exact write_same m dest _
    | succ i =>
      have next : copyUp (m.write dest (m src)) (dest + 1) (src + 1) n (dest + 1 + i) =
          m.write dest (m src) (src + 1 + i) := ih _ (by omega) (by omega)
      have kept : m.write dest (m src) (src + 1 + i) = m (src + 1 + i) :=
        write_other m _ (by omega)
      rw [kept] at next
      simpa only [Nat.add_assoc, Nat.add_comm 1 i] using next

/-- Copying what is there already changes nothing. -/
theorem copyUp_same (m : Storage) {dest src n : Nat}
    (same : ∀ i, i < n → m (src + i) = m (dest + i)) : copyUp m dest src n = m := by
  induction n generalizing dest src with
  | zero => rfl
  | succ n ih =>
    have first : m.write dest (m src) = m := by
      funext x
      by_cases here : x = dest
      · rw [here, write_same]
        exact same 0 (Nat.succ_pos n)
      · exact write_other m _ here
    rw [copyUp, first]
    refine ih fun i hi => ?_
    have next := same (i + 1) (Nat.succ_lt_succ hi)
    simpa only [Nat.add_assoc, Nat.add_comm 1 i] using next

@[simp] theorem bytes_length (m : Storage) (a n : Nat) : (bytes m a n).length = n := by
  simp [bytes]

theorem bytes_congr {m m' : Storage} {a b n : Nat}
    (same : ∀ i, i < n → m (a + i) = m' (b + i)) : bytes m a n = bytes m' b n := by
  apply List.map_congr_left
  intro i hi
  exact same i (List.mem_range.mp hi)

theorem bytes_replicate {m : Storage} {a n : Nat} {c : UInt8}
    (same : ∀ i, i < n → m (a + i) = c) : bytes m a n = List.replicate n c := by
  refine List.eq_replicate_iff.mpr ⟨bytes_length m a n, fun b hb => ?_⟩
  obtain ⟨i, hi, rfl⟩ := List.mem_map.mp hb
  exact same i (List.mem_range.mp hi)

theorem bytes_at {m m' : Storage} {a b n i : Nat} (same : bytes m a n = bytes m' b n)
    (hi : i < n) : m (a + i) = m' (b + i) := by
  have inner := congrArg (fun l : List UInt8 => l[i]?) same
  simpa [bytes, hi] using inner

theorem bytes_add (m : Storage) (a n k : Nat) :
    bytes m a (n + k) = bytes m a n ++ bytes m (a + n) k := by
  simp [bytes, List.range_add, Nat.add_assoc]

theorem bytes_succ (m : Storage) (a n : Nat) : bytes m a (n + 1) = m a :: bytes m (a + 1) n := by
  rw [Nat.add_comm n 1, bytes_add]
  rfl

theorem take_bytes (m : Storage) (a : Nat) {n k : Nat} (le : k ≤ n) :
    (bytes m a n).take k = bytes m a k := by
  obtain ⟨d, rfl⟩ := Nat.exists_eq_add_of_le le
  rw [bytes_add]
  exact List.take_left' (bytes_length m a k)

theorem drop_bytes (m : Storage) (a : Nat) {n k : Nat} (le : k ≤ n) :
    (bytes m a n).drop k = bytes m (a + k) (n - k) := by
  obtain ⟨d, rfl⟩ := Nat.exists_eq_add_of_le le
  rw [bytes_add, Nat.add_sub_cancel_left]
  exact List.drop_left' (bytes_length m a k)

/-- Replace everything outside one range by the bytes of another storage. -/
def outsideFrom (m other : Storage) (a n : Nat) : Storage :=
  fun x => if a ≤ x ∧ x < a + n then m x else other x

theorem outsideFrom_inside (m other : Storage) {a n i : Nat} (hi : i < n) :
    outsideFrom m other a n (a + i) = m (a + i) := by
  simp [outsideFrom, hi]

theorem outsideFrom_bytes (m other : Storage) (a n : Nat) :
    bytes (outsideFrom m other a n) a n = bytes m a n :=
  bytes_congr fun _ hi => outsideFrom_inside m other hi

end Storage
