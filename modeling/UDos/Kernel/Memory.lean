import Mathlib.Data.List.Basic
import Mathlib.Tactic.Ring
import UDos.Library.Outcome
import UDos.Library.Storage

/-!
# Storage and string functions of the kernel

The functions of `memory.c` on byte storage and on C strings. A C string is
the list of its characters before the terminator; reading at the end of the
list gives the terminator. `int` and `ptrdiff_t` have 32 bits and wrap, and
`char` is unsigned, as the EBCDIC character set needs.
-/

namespace KernelMemory

/-- Reduce to the range of a 32-bit signed integer. -/
def signed32 (x : Int) : Int :=
  (x + 2147483648) % 4294967296 - 2147483648

/-- Reduce to the range of a 32-bit unsigned integer. -/
def u32 (n : Nat) : Nat := n % 4294967296

theorem signed32_eq_self {x : Int} (lo : -2147483648 ≤ x) (hi : x < 2147483648) :
    signed32 x = x := by
  unfold signed32
  omega

theorem signed32_eq_zero_iff {x : Int} : signed32 x = 0 ↔ x % 4294967296 = 0 := by
  unfold signed32
  omega

theorem signed32_signed32_add (x y : Int) : signed32 (signed32 x + y) = signed32 (x + y) := by
  unfold signed32
  omega

theorem u32_eq_self {n : Nat} (h : n < 4294967296) : u32 n = n := Nat.mod_eq_of_lt h

theorem u32_next (a i : Nat) : u32 (u32 (a + 1) + i) = u32 (a + (i + 1)) := by
  unfold u32
  omega

theorem u32_pred {n : Nat} (positive : 0 < n) (few : n < 4294967296) :
    u32 (n + 4294967295) = n - 1 := by
  unfold u32
  omega

/-- The distance tested by the overlap assertion. The macro `abs` puts its
minus sign before an argument without parentheses, so a negative difference
`dest - src` becomes `-dest - src`. -/
def copyGap (dest src : Nat) : Nat :=
  let d := signed32 dest
  let s := signed32 src
  let gap := if signed32 (d - s) < 0 then signed32 (-d - s) else signed32 (d - s)
  (gap % 4294967296).toNat

/-- `KeCopyMemory`: the destination is returned and the storage changed. -/
def keCopyMemory (debug : Bool) (m : Storage) (dest src n : Nat) : Outcome (Nat × Storage) := do
  Outcome.check (debug = true → ¬ copyGap dest src < n)
    "Assertion !(abs((ptrdiff_t)dest - (ptrdiff_t)src) < n) failed!: Overlapping memory\r\n"
  .ok (dest, m.copyUp dest src n)

/-- The upward loop: what `c_dest` is at its end and the storage. Pointers wrap
at the end of the address space. -/
def moveUp (m : Storage) (dest src : Nat) : Nat → Nat × Storage
  | 0 => (dest, m)
  | n + 1 => moveUp (m.write dest (m src)) (u32 (dest + 1)) (u32 (src + 1)) n

/-- The downward loop. Going down by one is adding 2^32 - 1. -/
def moveDown (m : Storage) (dest src : Nat) : Nat → Nat × Storage
  | 0 => (dest, m)
  | n + 1 =>
    moveDown (m.write dest (m src)) (u32 (dest + 4294967295)) (u32 (src + 4294967295)) n

/-- `KeMoveMemory`. The downward loop starts at `dest + n` and `src + n`, one
past the last byte, and so moves the bytes 1 to n in place of 0 to n-1. -/
def keMoveMemory (m : Storage) (dest src n : Nat) : Nat × Storage :=
  if signed32 dest < signed32 src then moveUp m dest src n
  else moveDown m (u32 (dest + n)) (u32 (src + n)) n

theorem moveUp_storage (m : Storage) {dest src n : Nat} (roomDest : dest + n ≤ 4294967296)
    (roomSrc : src + n ≤ 4294967296) : (moveUp m dest src n).2 = m.copyUp dest src n := by
  induction n generalizing m dest src with
  | zero => rfl
  | succ n ih =>
    rw [moveUp, Storage.copyUp]
    by_cases last : n = 0
    · subst last
      rfl
    · have nextDest : u32 (dest + 1) = dest + 1 := u32_eq_self (by omega)
      have nextSrc : u32 (src + 1) = src + 1 := u32_eq_self (by omega)
      rw [nextDest, nextSrc]
      exact ih _ (by omega) (by omega)

theorem copyGap_of_le {dest src : Nat} (le : src ≤ dest) (low : dest < 2147483648) :
    copyGap dest src = dest - src := by
  have hd : signed32 dest = dest := signed32_eq_self (by omega) (by omega)
  have hs : signed32 src = src := signed32_eq_self (by omega) (by omega)
  have gap : signed32 ((dest : Int) - src) = dest - src := signed32_eq_self (by omega) (by omega)
  simp only [copyGap, hd, hs, gap]
  rw [if_neg (by omega)]
  omega

theorem copyGap_of_lt {dest src : Nat} (lt : dest < src) (low : src < 2147483648) :
    copyGap dest src = 4294967296 - dest - src := by
  have hd : signed32 dest = dest := signed32_eq_self (by omega) (by omega)
  have hs : signed32 src = src := signed32_eq_self (by omega) (by omega)
  have gap : signed32 ((dest : Int) - src) = dest - src := signed32_eq_self (by omega) (by omega)
  simp only [copyGap, hd, hs, gap]
  rw [if_pos (by omega)]
  unfold signed32
  omega

theorem keCopyMemory_eq (debug : Bool) (m : Storage) {dest src n : Nat}
    (disjoint : dest + n ≤ src ∨ src + n ≤ dest) (lowDest : dest < 2147483648)
    (lowSrc : src < 2147483648) (room : dest + src + n ≤ 4294967296) :
    keCopyMemory debug m dest src n = .ok (dest, m.copyUp dest src n) := by
  have gap : ¬ copyGap dest src < n := by
    by_cases le : src ≤ dest
    · rw [copyGap_of_le le lowDest]
      omega
    · rw [copyGap_of_lt (by omega) lowSrc]
      omega
  rw [keCopyMemory, Outcome.check_of (fun _ => gap)]
  rfl

/-- The ranges of the two copies have a byte in common. -/
def Overlap (dest src n : Nat) : Prop :=
  ∃ a, dest ≤ a ∧ a < dest + n ∧ src ≤ a ∧ a < src + n

theorem overlap_iff {dest src n : Nat} : Overlap dest src n ↔ dest < src + n ∧ src < dest + n := by
  constructor
  · rintro ⟨a, inDest⟩
    omega
  · intro near
    exact ⟨max dest src, by omega, by omega, by omega, by omega⟩

theorem keCopyMemory_panics_iff (m : Storage) (dest src n : Nat) :
    (∃ message, keCopyMemory true m dest src n = .panic message) ↔ copyGap dest src < n := by
  rw [keCopyMemory]
  by_cases near : copyGap dest src < n
  · have failed : ¬ (true = true → ¬ copyGap dest src < n) := fun passes => passes rfl near
    refine iff_of_true ?_ near
    rw [Outcome.check, if_neg failed]
    exact ⟨_, rfl⟩
  · refine iff_of_false ?_ near
    rw [Outcome.check_of (fun _ => near)]
    rintro ⟨message, panicked⟩
    cases panicked

/-- Going down the assertion is exact. Going up it takes the sum of the two
addresses for their difference, and is right where both give the same answer. -/
theorem keCopyMemory_exact_iff (m : Storage) {dest src : Nat} (n : Nat)
    (lowDest : dest < 2147483648) (lowSrc : src < 2147483648) :
    ((∃ message, keCopyMemory true m dest src n = .panic message) ↔
        0 < n ∧ Overlap dest src n) ↔
      src ≤ dest ∨ n ≤ min (src - dest) (4294967296 - (dest + src)) ∨
        max (src - dest) (4294967296 - (dest + src)) < n := by
  rw [keCopyMemory_panics_iff, overlap_iff]
  by_cases le : src ≤ dest
  · rw [copyGap_of_le le lowDest]
    omega
  · rw [copyGap_of_lt (by omega) lowSrc]
    omega

theorem copy_onto_itself_panics :
    (∃ message, keCopyMemory true (fun _ => 0) 100 100 1 = .panic message) ↔
      0 < 1 ∧ Overlap 100 100 1 :=
  (keCopyMemory_exact_iff (fun _ => 0) 1 (by decide) (by decide)).mpr (Or.inl (Nat.le_refl 100))

/-- Two bytes are copied one byte down and the assertion lets them pass. -/
theorem overlap_passes : Overlap 100 101 2 ∧
    ¬ ∃ message, keCopyMemory true (fun _ => 0) 100 101 2 = .panic message := by
  refine ⟨⟨101, by decide, by decide, by decide, by decide⟩, ?_⟩
  rw [keCopyMemory_panics_iff, copyGap_of_lt (by decide) (by decide)]
  decide

theorem keMoveMemory_below (m : Storage) {dest src n : Nat} (below : dest < src)
    (low : src < 2147483648) (room : src + n ≤ 4294967296) :
    (keMoveMemory m dest src n).2 = m.copyUp dest src n := by
  have signed : signed32 dest < signed32 src := by
    rw [signed32_eq_self (by omega) (by omega), signed32_eq_self (by omega) (by omega)]
    omega
  rw [keMoveMemory, if_pos signed]
  exact moveUp_storage m (by omega) room

/-- A C string: its characters, none of which is the terminator. -/
structure CString where
  chars : List UInt8
  noNul : 0 ∉ chars
deriving DecidableEq

/-- The character at the front of a string, the terminator at its end. -/
def first (s : List UInt8) : UInt8 := s.headD 0

/-- The comparison loop shared by the two string comparisons: what is left of
n and of the strings when it stops, and the running sum of the differences. -/
def compareLoop : Nat → List UInt8 → List UInt8 → Int → Nat × List UInt8 × List UInt8 × Int
  | n + 1, a :: s1, b :: s2, diff =>
    compareLoop n s1 s2 (signed32 (diff + (a.toNat - b.toNat)))
  | n, s1, s2, diff => (n, s1, s2, diff)

def keCompareString (s1 s2 : List UInt8) : Int :=
  let (_, s1, s2, diff) := compareLoop s1.length s1 s2 0
  if first s1 ≠ first s2 then -1 else diff

def keCompareStringEx (s1 s2 : List UInt8) (n : Nat) : Int :=
  let (n, s1, s2, diff) := compareLoop n s1 s2 0
  if first s1 ≠ first s2 ∧ n > 0 then -1 else diff

/-- `KeCompareMemory` on two ranges of the same length. -/
def keCompareMemory (s1 s2 : List UInt8) : Int :=
  (List.zipWith (fun (a b : UInt8) => (a.toNat - b.toNat : Int)) s1 s2).foldl
    (fun diff d => signed32 (diff + d)) 0

def charSum (s : List UInt8) : Nat := (s.map UInt8.toNat).sum

/-- The two strings cannot be told apart by the comparison functions. -/
def LooksLike (s t : List UInt8) : Prop :=
  s.length = t.length ∧ u32 (charSum s) = u32 (charSum t)

instance (s t : List UInt8) : Decidable (LooksLike s t) :=
  inferInstanceAs (Decidable (_ ∧ _))

theorem looksLike_refl (s : List UInt8) : LooksLike s s := ⟨rfl, rfl⟩

@[simp] theorem charSum_nil : charSum [] = 0 := rfl

@[simp] theorem charSum_cons (a : UInt8) (s : List UInt8) :
    charSum (a :: s) = a.toNat + charSum s := by
  simp [charSum]

/-- The loop stops at the end of the shorter string or when n is used up. -/
theorem compareLoop_eq (n : Nat) (s1 s2 : List UInt8) (diff : Int) (k : Nat)
    (hk : k = min n (min s1.length s2.length)) (inRange : signed32 diff = diff) :
    compareLoop n s1 s2 diff = (n - k, s1.drop k, s2.drop k,
      signed32 (diff + (charSum (s1.take k) - charSum (s2.take k)))) := by
  induction n generalizing s1 s2 diff k with
  | zero =>
    have zero : k = 0 := by omega
    subst zero
    simp [compareLoop, inRange]
  | succ n ih =>
    cases s1 with
    | nil =>
      have zero : k = 0 := by simpa using hk
      subst zero
      simp [compareLoop, inRange]
    | cons a s1 =>
      cases s2 with
      | nil =>
        have zero : k = 0 := by simpa using hk
        subst zero
        simp [compareLoop, inRange]
      | cons b s2 =>
        obtain ⟨j, rfl⟩ : ∃ j, k = j + 1 := ⟨k - 1, by simp at hk; omega⟩
        have hj : j = min n (min s1.length s2.length) := by simp at hk; omega
        have again : signed32 (signed32 (diff + (a.toNat - b.toNat))) =
            signed32 (diff + (a.toNat - b.toNat)) := by
          simpa using signed32_signed32_add (diff + (a.toNat - b.toNat)) 0
        rw [compareLoop, ih s1 s2 _ j hj again, signed32_signed32_add]
        simp only [List.drop_succ_cons, List.take_succ_cons, charSum_cons, Prod.mk.injEq,
          true_and]
        refine ⟨by omega, ?_⟩
        congr 1
        push_cast
        ring

theorem signed32_sub_eq_zero_iff {a b : Nat} :
    signed32 ((a : Int) - b) = 0 ↔ u32 a = u32 b := by
  rw [signed32_eq_zero_iff, u32, u32]
  omega

@[simp] theorem first_nil : first [] = 0 := rfl

theorem first_drop_ne_zero {s : List UInt8} {k : Nat} (noNul : 0 ∉ s) (hk : k < s.length) :
    first (s.drop k) ≠ 0 := by
  intro zero
  apply noNul
  rw [List.drop_eq_getElem_cons hk] at zero
  have member : s[k] ∈ s := List.getElem_mem hk
  rwa [show s[k] = 0 from zero] at member

theorem keCompareString_of_length_eq {s t : List UInt8} (same : s.length = t.length) :
    keCompareString s t = signed32 (charSum s - charSum t) := by
  have loop := compareLoop_eq s.length s t 0 s.length (by omega) rfl
  have rest : t.drop s.length = [] := by simp [same]
  have whole : t.take s.length = t := by simp [same]
  rw [rest, whole] at loop
  simp [keCompareString, loop]

theorem first_drop_differ {s t : List UInt8} (hs : 0 ∉ s) (ht : 0 ∉ t)
    (differ : s.length ≠ t.length) :
    first (s.drop (min s.length t.length)) ≠ first (t.drop (min s.length t.length)) := by
  by_cases shorter : s.length < t.length
  · have short : s.drop (min s.length t.length) = [] := List.drop_eq_nil_of_le (by omega)
    rw [short]
    exact (first_drop_ne_zero ht (by omega)).symm
  · have short : t.drop (min s.length t.length) = [] := List.drop_eq_nil_of_le (by omega)
    rw [short]
    exact first_drop_ne_zero hs (by omega)

theorem keCompareString_of_length_ne {s t : List UInt8} (hs : 0 ∉ s) (ht : 0 ∉ t)
    (differ : s.length ≠ t.length) : keCompareString s t = -1 := by
  have loop := compareLoop_eq s.length s t 0 (min s.length t.length) (by omega) rfl
  have ends := first_drop_differ hs ht differ
  simp [keCompareString, loop, ends]

/-- Two strings compare as equal exactly when they have the same length and
their characters have the same sum. -/
theorem keCompareString_eq_zero_iff {s t : List UInt8} (hs : 0 ∉ s) (ht : 0 ∉ t) :
    keCompareString s t = 0 ↔ LooksLike s t := by
  by_cases same : s.length = t.length
  · rw [keCompareString_of_length_eq same, signed32_sub_eq_zero_iff]
    simp [LooksLike, same]
  · rw [keCompareString_of_length_ne hs ht same]
    simp [LooksLike, same]

/-- "AD" and "BC" in EBCDIC, which look alike. -/
def nameAD : CString := ⟨[0xC1, 0xC4], by decide⟩
def nameBC : CString := ⟨[0xC2, 0xC3], by decide⟩

example : LooksLike nameAD.chars nameBC.chars := by decide

/-- A bounded comparison of strings that are both long enough looks at the
bounded parts only. -/
theorem keCompareStringEx_eq_zero_iff {s t : List UInt8} {n : Nat} (hs : n ≤ s.length)
    (ht : n ≤ t.length) :
    keCompareStringEx s t n = 0 ↔ LooksLike (s.take n) (t.take n) := by
  have loop := compareLoop_eq n s t 0 n (by omega) rfl
  have value : keCompareStringEx s t n =
      signed32 (charSum (s.take n) - charSum (t.take n)) := by
    simp [keCompareStringEx, loop]
  rw [value, signed32_sub_eq_zero_iff]
  simp [LooksLike, hs, ht]

/-- A bounded comparison of any two strings compares their fronts. -/
theorem keCompareStringEx_take {s t : List UInt8} (hs : 0 ∉ s) (ht : 0 ∉ t) (n : Nat) :
    keCompareStringEx s t n = 0 ↔ LooksLike (s.take n) (t.take n) := by
  by_cases long : n ≤ s.length ∧ n ≤ t.length
  · exact keCompareStringEx_eq_zero_iff long.1 long.2
  have loop := compareLoop_eq n s t 0 (min s.length t.length) (by omega) rfl
  by_cases same : s.length = t.length
  · have short : s.length < n := by omega
    have restS : s.drop t.length = [] := by simp [same]
    have value : keCompareStringEx s t n = signed32 (charSum s - charSum t) := by
      simp [keCompareStringEx, loop, same, restS]
      rw [← same, List.take_length]
    rw [value, signed32_sub_eq_zero_iff, List.take_of_length_le (by omega),
      List.take_of_length_le (by omega)]
    simp [LooksLike, same]
  · have ends := first_drop_differ hs ht same
    have value : keCompareStringEx s t n = -1 := by
      simp only [keCompareStringEx, loop]
      rw [if_pos ⟨ends, by omega⟩]
    have differ : (s.take n).length ≠ (t.take n).length := by
      simp only [List.length_take]
      omega
    rw [value]
    constructor
    · intro zero
      exact absurd zero (by decide)
    · intro alike
      exact absurd alike.1 differ

theorem foldl_differences (s t : List UInt8) (same : s.length = t.length) (diff : Int) :
    (List.zipWith (fun (a b : UInt8) => (a.toNat - b.toNat : Int)) s t).foldl
      (fun diff d => signed32 (diff + d)) (signed32 diff) =
      signed32 (diff + (charSum s - charSum t)) := by
  induction s generalizing t diff with
  | nil =>
    have none : t = [] := List.length_eq_zero_iff.mp same.symm
    subst none
    simp
  | cons a s ih =>
    obtain ⟨b, t, rfl⟩ := List.exists_cons_of_length_eq_add_one same.symm
    have rest := ih t (Nat.succ_injective same) (diff + (a.toNat - b.toNat))
    rw [List.zipWith_cons_cons, List.foldl_cons, signed32_signed32_add, rest]
    congr 1
    simp only [charSum_cons]
    push_cast
    ring

theorem keCompareMemory_eq_zero_iff {s t : List UInt8} (same : s.length = t.length) :
    keCompareMemory s t = 0 ↔ u32 (charSum s) = u32 (charSum t) := by
  have value := foldl_differences s t same 0
  rw [keCompareMemory, show (0 : Int) = signed32 0 from rfl, value, Int.zero_add,
    ← signed32_sub_eq_zero_iff]
  rfl

/-- The comparisons tell two buffers or strings apart exactly when these differ
in length or in the sum of their bytes. -/
theorem comparisons_decide_iff (m : Storage) (a b : Nat) (s t : CString) (n : Nat) :
    ((keCompareMemory (m.bytes a n) (m.bytes b n) = 0 ↔ m.bytes a n = m.bytes b n) ↔
        m.bytes a n = m.bytes b n ∨
          u32 (charSum (m.bytes a n)) ≠ u32 (charSum (m.bytes b n))) ∧
    ((keCompareString s.chars t.chars = 0 ↔ s = t) ↔
      s = t ∨ ¬ LooksLike s.chars t.chars) ∧
    ((keCompareStringEx s.chars t.chars n = 0 ↔ s.chars.take n = t.chars.take n) ↔
      s.chars.take n = t.chars.take n ∨
        ¬ LooksLike (s.chars.take n) (t.chars.take n)) := by
  refine ⟨?_, ?_, ?_⟩
  · rw [keCompareMemory_eq_zero_iff (by simp)]
    by_cases same : m.bytes a n = m.bytes b n
    · simp [same]
    · simp [same]
  · rw [keCompareString_eq_zero_iff s.noNul t.noNul]
    by_cases same : s = t
    · simp [same, looksLike_refl]
    · simp [same]
  · rw [keCompareStringEx_take s.noNul t.noNul]
    by_cases same : s.chars.take n = t.chars.take n
    · simp [same, looksLike_refl]
    · simp [same]

theorem nameAD_is_nameBC :
    ¬ (keCompareString nameAD.chars nameBC.chars = 0 ↔ nameAD = nameBC) := by
  decide

/-- `KeBreakCharPtrString`, as the part of the string from the result on; the
end of the string, not NULL, when no character is found. -/
def keBreakCharPtrString : List UInt8 → List UInt8 → List UInt8
  | [], _ => []
  | c :: rest, accept => if c ∈ accept then c :: rest else keBreakCharPtrString rest accept

theorem keBreakCharPtrString_free {s accept : List UInt8} (free : ∀ c ∈ s, c ∉ accept) :
    keBreakCharPtrString s accept = [] := by
  induction s with
  | nil => rfl
  | cons c s ih =>
    rw [keBreakCharPtrString, if_neg (free c List.mem_cons_self)]
    exact ih fun d hd => free d (List.mem_cons_of_mem c hd)

theorem keBreakCharPtrString_front {s accept : List UInt8} (free : ∀ c ∈ s, c ∉ accept) {c : UInt8}
    (found : c ∈ accept) (rest : List UInt8) :
    keBreakCharPtrString (s ++ c :: rest) accept = c :: rest := by
  induction s with
  | nil => rw [List.nil_append, keBreakCharPtrString, if_pos found]
  | cons d s ih =>
    rw [List.cons_append, keBreakCharPtrString, if_neg (free d List.mem_cons_self)]
    exact ih fun e he => free e (List.mem_cons_of_mem d he)

/-- What is before the result has none of the characters, and the result starts
with one of them or is the end of the string. -/
theorem keBreakCharPtrString_split (s accept : List UInt8) :
    ∃ front, s = front ++ keBreakCharPtrString s accept ∧ (∀ c ∈ front, c ∉ accept) ∧
      ∀ c ∈ (keBreakCharPtrString s accept).head?, c ∈ accept := by
  induction s with
  | nil => exact ⟨[], rfl, fun c member => absurd member List.not_mem_nil, fun c member =>
      absurd member (Option.not_mem_none c)⟩
  | cons c s ih =>
    by_cases found : c ∈ accept
    · rw [keBreakCharPtrString, if_pos found]
      refine ⟨[], rfl, fun d member => absurd member List.not_mem_nil, fun d member => ?_⟩
      cases member
      exact found
    · rw [keBreakCharPtrString, if_neg found]
      obtain ⟨front, whole, free, stops⟩ := ih
      refine ⟨c :: front, congrArg (c :: ·) whole, fun d member => ?_, stops⟩
      rcases List.mem_cons.mp member with rfl | later
      · exact found
      · exact free d later

end KernelMemory
