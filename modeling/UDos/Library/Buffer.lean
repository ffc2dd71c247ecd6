import Mathlib.Data.List.Basic
import UDos.Library.Outcome

/-!
# Bounded buffers with text

A buffer has a fixed length, and an access outside it is a fault. Its text ends
at the first zero byte; a buffer that holds nothing but zeros behind its text
keeps that form when text is stored at its end.
-/

namespace Buffer

def store (s : List UInt8) (i : Nat) (c : UInt8) : Outcome (List UInt8) :=
  if i < s.length then .ok (s.set i c) else .fault

/-- Store the bytes one after the other, from index i on. -/
def storeAll (s : List UInt8) (i : Nat) : List UInt8 → Outcome (List UInt8)
  | [] => .ok s
  | c :: cs => do
    let s ← store s i c
    storeAll s (i + 1) cs

/-- The length of the text; looking for its end may run off the buffer. -/
def textLength : List UInt8 → Outcome Nat
  | [] => .fault
  | c :: s =>
    if c = 0 then .ok 0
    else do
      let len ← textLength s
      .ok (len + 1)

/-- A buffer of n bytes with this text and zeros behind it. -/
def padded (n : Nat) (text : List UInt8) : List UInt8 :=
  text ++ List.replicate (n - text.length) 0

theorem textLength_append {text : List UInt8} (noNul : 0 ∉ text) (rest : List UInt8) :
    textLength (text ++ 0 :: rest) = .ok text.length := by
  induction text with
  | nil => rfl
  | cons c text ih =>
    have nonzero : c ≠ 0 := fun zero => noNul (zero ▸ List.mem_cons_self)
    rw [List.cons_append, textLength, if_neg nonzero,
      ih fun member => noNul (List.mem_cons_of_mem c member)]
    rfl

theorem textLength_full {s : List UInt8} (noNul : 0 ∉ s) : textLength s = .fault := by
  induction s with
  | nil => rfl
  | cons c s ih =>
    have nonzero : c ≠ 0 := fun zero => noNul (zero ▸ List.mem_cons_self)
    rw [textLength, if_neg nonzero, ih fun member => noNul (List.mem_cons_of_mem c member)]
    rfl

theorem padded_length {n : Nat} {text : List UInt8} (room : text.length ≤ n) :
    (padded n text).length = n := by
  simp only [padded, List.length_append, List.length_replicate]
  omega

theorem padded_cons {n : Nat} {text : List UInt8} (room : text.length < n) :
    padded n text = text ++ 0 :: List.replicate (n - text.length - 1) 0 := by
  have zeros : List.replicate (n - text.length) (0 : UInt8) =
      0 :: List.replicate (n - text.length - 1) 0 := by
    rw [← List.replicate_succ]
    congr 1
    omega
  rw [padded, zeros]

theorem textLength_padded {n : Nat} {text : List UInt8} (noNul : 0 ∉ text)
    (room : text.length < n) : textLength (padded n text) = .ok text.length := by
  rw [padded_cons room, textLength_append noNul]

theorem zero_mem_padded {n : Nat} {text : List UInt8} (room : text.length < n) :
    0 ∈ padded n text := by
  simp [padded_cons room]

theorem padded_terminated {n : Nat} {text : List UInt8} (room : text.length < n) :
    padded n (text ++ [0]) = padded n text := by
  rw [padded_cons room, padded, List.length_append, List.length_singleton, Nat.sub_add_eq]
  simp

theorem store_padded {n : Nat} {text : List UInt8} (room : text.length < n) (c : UInt8) :
    store (padded n text) text.length c = .ok (padded n (text ++ [c])) := by
  rw [store, if_pos (by rw [padded_length (by omega)]; exact room), padded_cons room]
  simp [padded, Nat.sub_add_eq]

theorem storeAll_padded {n : Nat} {text cs : List UInt8} (room : text.length + cs.length ≤ n) :
    storeAll (padded n text) text.length cs = .ok (padded n (text ++ cs)) := by
  induction cs generalizing text with
  | nil => simp [storeAll]
  | cons c cs ih =>
    simp only [List.length_cons] at room
    have next : storeAll (padded n (text ++ [c])) (text ++ [c]).length cs =
        .ok (padded n (text ++ [c] ++ cs)) := ih (by simp; omega)
    rw [List.length_append, List.length_singleton, List.append_assoc, List.singleton_append]
      at next
    rw [storeAll, store_padded (by omega) c, Outcome.ok_bind, next]

/-- Bytes that do not fit into the buffer run off its end. -/
theorem storeAll_overflow {s cs : List UInt8} {i : Nat} (some : cs ≠ [])
    (overrun : s.length < i + cs.length) : storeAll s i cs = .fault := by
  induction cs generalizing s i with
  | nil => exact absurd rfl some
  | cons c cs ih =>
    simp only [List.length_cons] at overrun
    rw [storeAll]
    by_cases inside : i < s.length
    · rw [store, if_pos inside, Outcome.ok_bind]
      apply ih
      · rintro rfl
        simp only [List.length_nil] at overrun
        omega
      · rw [List.length_set]
        omega
    · rw [store, if_neg inside]
      rfl

theorem storeAll_append (done old cs rest : List UInt8) (same : old.length = cs.length) :
    storeAll (done ++ old ++ rest) done.length cs = .ok (done ++ cs ++ rest) := by
  induction cs generalizing done old with
  | nil => simp [storeAll, List.eq_nil_of_length_eq_zero same]
  | cons c cs ih =>
    obtain ⟨x, old, rfl⟩ := List.exists_cons_of_length_eq_add_one same
    have next := ih (done ++ [c]) old (Nat.succ.inj same)
    have inside : done.length < (done ++ x :: old ++ rest).length := by simp
    rw [storeAll, store, if_pos inside]
    simpa using next

/-- Every byte from index i on, as long as the index is less than the limit, is
replaced by its image; the last index is returned with the buffer. -/
def mapUpTo (f : UInt8 → UInt8) (limit : Nat) : Nat → List UInt8 → Nat → Outcome (List UInt8 × Nat)
  | 0, _, _ => .diverge
  | fuel + 1, s, i =>
    if i < limit then
      match s[i]? with
      | none => .fault
      | some c => mapUpTo f limit fuel (s.set i (f c)) (i + 1)
    else .ok (s, i)

theorem mapUpTo_append (f : UInt8 → UInt8) {fuel : Nat} (done text rest : List UInt8)
    (enough : text.length < fuel) :
    mapUpTo f (done.length + text.length) fuel (done ++ text ++ rest) done.length =
      .ok (done ++ text.map f ++ rest, done.length + text.length) := by
  induction text generalizing done fuel with
  | nil =>
    obtain ⟨fuel, rfl⟩ := Nat.exists_eq_succ_of_ne_zero (Nat.ne_of_gt enough)
    simp [mapUpTo]
  | cons c text ih =>
    obtain ⟨fuel, rfl⟩ := Nat.exists_eq_succ_of_ne_zero (Nat.ne_of_gt (Nat.zero_lt_of_lt enough))
    have next := ih (done ++ [f c]) (Nat.lt_of_succ_lt_succ enough)
    have length : (done ++ [f c]).length + text.length = done.length + (c :: text).length := by
      simp only [List.length_append, List.length_cons, List.length_nil]
      omega
    have inside : done.length < done.length + (c :: text).length := by simp
    rw [length] at next
    rw [mapUpTo, if_pos inside]
    simpa using next

theorem mapUpTo_stop (f : UInt8 → UInt8) {limit fuel i : Nat} (s : List UInt8) (stop : limit ≤ i)
    (enough : 0 < fuel) : mapUpTo f limit fuel s i = .ok (s, i) := by
  obtain ⟨fuel, rfl⟩ := Nat.exists_eq_succ_of_ne_zero (Nat.ne_of_gt enough)
  rw [mapUpTo, if_neg (Nat.not_lt.mpr stop)]

end Buffer
