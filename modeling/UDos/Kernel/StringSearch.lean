import UDos.Kernel.Strings
import UDos.Library.Traced
import UDos.Library.Loops

/-!
# The search for a string

`KeFindStringString` with the bytes it reads. It takes the first place where the
first character is right and the bounded comparison cannot tell the strings
apart. All that it reads is in the two strings or at their ends.
-/

namespace StringSearch

open KernelMemory KernelStrings Loops

def keStringLengthLoop (m : Storage) : Nat → Nat → Nat → Traced Nat
  | 0, _, _ => Traced.lift .diverge
  | fuel + 1, s, i => do
    let c ← Traced.read s 1 (m s)
    if c ≠ 0 then keStringLengthLoop m fuel (u32 (s + 1)) (u32 (i + 1)) else pure i

def keStringLength (fuel : Nat) (m : Storage) (s : Nat) : Traced Nat :=
  keStringLengthLoop m fuel s 0

/-- The characters are read for the test and again for the difference. -/
def keCompareLoop (m : Storage) : Nat → Nat → Nat → Int → Traced (Nat × Nat × Nat × Int)
  | n + 1, s1, s2, diff => do
    let c ← Traced.read s1 1 (m s1)
    if c ≠ 0 then do
      let d ← Traced.read s2 1 (m s2)
      if d ≠ 0 then do
        let c ← Traced.read s1 1 (m s1)
        let d ← Traced.read s2 1 (m s2)
        keCompareLoop m n (u32 (s1 + 1)) (u32 (s2 + 1))
          (signed32 (diff + (c.toNat - d.toNat)))
      else pure (n + 1, s1, s2, diff)
    else pure (n + 1, s1, s2, diff)
  | 0, s1, s2, diff => pure (0, s1, s2, diff)

def keCompareStringEx (m : Storage) (s1 s2 n : Nat) : Traced Int := do
  let (n, s1, s2, diff) ← keCompareLoop m n s1 s2 0
  let c ← Traced.read s1 1 (m s1)
  let d ← Traced.read s2 1 (m s2)
  pure (if c ≠ d ∧ n > 0 then -1 else diff)

def keFindStringStringLoop (m : Storage) (needle needleLen : Nat) : Nat → Nat → Traced Nat
  | 0, _ => Traced.lift .diverge
  | fuel + 1, haystack => do
    let c ← Traced.read haystack 1 (m haystack)
    if c ≠ 0 then do
      let c ← Traced.read haystack 1 (m haystack)
      let d ← Traced.read needle 1 (m needle)
      if c = d then do
        let diff ← keCompareStringEx m haystack needle needleLen
        if diff = 0 then pure haystack
        else keFindStringStringLoop m needle needleLen fuel (u32 (haystack + 1))
      else keFindStringStringLoop m needle needleLen fuel (u32 (haystack + 1))
    else pure 0

def keFindStringString (fuel : Nat) (m : Storage) (haystack needle : Nat) : Traced Nat := do
  let needleLen ← keStringLength fuel m needle
  keFindStringStringLoop m needle needleLen fuel haystack

/-- The byte is a character of the string at an address, or its end. -/
def InString (a : Nat) (s : List UInt8) (r : Nat × Nat) : Prop :=
  r.2 = 1 ∧ ∃ i ≤ s.length, r.1 = u32 (a + i)

/-- The string is at this place of the other one. -/
def OccursAt (s t : List UInt8) (k : Nat) : Prop := t <+: s.drop k

/-- The part of the other string at this place starts with the right character
and cannot be told apart from the string. -/
def SeemsAt (s t : List UInt8) (k : Nat) : Prop :=
  first (s.drop k) = first t ∧ LooksLike ((s.drop k).take t.length) t

/-- This place is the right answer: the string is here and it is not NULL, or the
string is nowhere and it is NULL. -/
def RightAt (a : Nat) (s t : List UInt8) (k : Nat) : Prop :=
  OccursAt s t k ∧ u32 (a + k) ≠ 0 ∨ (∀ i, ¬ OccursAt s t i) ∧ u32 (a + k) = 0

instance (s t : List UInt8) (k : Nat) : Decidable (OccursAt s t k) :=
  inferInstanceAs (Decidable (_ <+: _))

instance (s t : List UInt8) (k : Nat) : Decidable (SeemsAt s t k) :=
  inferInstanceAs (Decidable (_ ∧ _))

/-- The search finds the first place where the string is, finds nothing exactly
when it is at none, and stays within the two strings. -/
structure Exact (m : Storage) (a b : Nat) (s t : List UInt8) : Prop where
  finds : ∀ k, OccursAt s t k → (∀ j < k, ¬ OccursAt s t j) →
    Returns (fun fuel => (keFindStringString fuel m a b).result) (u32 (a + k))
  null : Returns (fun fuel => (keFindStringString fuel m a b).result) 0 ↔ ∀ k, ¬ OccursAt s t k
  stays : ∀ fuel, Traced.Within (fun r => InString a s r ∨ InString b t r)
    (keFindStringString fuel m a b)

section
variable {m : Storage} {a b n fuel : Nat} {s t : List UInt8} {k : Nat}

theorem keStringLength_result (fuel : Nat) (m : Storage) (a : Nat) :
    (keStringLength fuel m a).result = KernelStrings.keStringLength fuel m a := by
  have loop : ∀ i, (keStringLengthLoop m fuel a i).result =
      KernelStrings.keStringLengthLoop m fuel a i := by
    induction fuel generalizing a with
    | zero => exact fun _ => rfl
    | succ fuel ih =>
      intro i
      rw [keStringLengthLoop, Traced.bind_result, Traced.read_result, Outcome.ok_bind,
        KernelStrings.keStringLengthLoop]
      by_cases more : m a ≠ 0
      · rw [if_pos more, if_pos more, ih]
      · rw [if_neg more, if_neg more, Traced.pure_result]
  exact loop 0

theorem keCompareLoop_result (m : Storage) (n a b : Nat) (diff : Int) :
    (keCompareLoop m n a b diff).result = .ok (KernelStrings.keCompareLoop m n a b diff) := by
  induction n generalizing a b diff with
  | zero => rfl
  | succ n ih =>
    rw [keCompareLoop, KernelStrings.keCompareLoop, Traced.bind_result, Traced.read_result,
      Outcome.ok_bind]
    by_cases moreA : m a ≠ 0
    · rw [if_pos moreA, Traced.bind_result, Traced.read_result, Outcome.ok_bind]
      by_cases moreB : m b ≠ 0
      · rw [if_pos moreB, if_pos ⟨moreA, moreB⟩]
        simp only [Traced.bind_result, Traced.read_result, Outcome.ok_bind, ih]
      · rw [if_neg moreB, if_neg fun both => moreB both.2, Traced.pure_result]
    · rw [if_neg moreA, if_neg fun both => moreA both.1, Traced.pure_result]

theorem keCompareStringEx_result (m : Storage) (a b n : Nat) :
    (keCompareStringEx m a b n).result = .ok (KernelStrings.keCompareStringEx m a b n) := by
  simp only [keCompareStringEx, KernelStrings.keCompareStringEx, Traced.bind_result,
    keCompareLoop_result, Traced.read_result, Traced.pure_result, Outcome.ok_bind]

theorem keFindStringStringLoop_result (m : Storage) (needle n fuel a : Nat) :
    (keFindStringStringLoop m needle n fuel a).result =
      KernelStrings.keFindStringStringLoop m needle n fuel a := by
  induction fuel generalizing a with
  | zero => rfl
  | succ fuel ih =>
    rw [keFindStringStringLoop, KernelStrings.keFindStringStringLoop, Traced.bind_result,
      Traced.read_result, Outcome.ok_bind]
    by_cases more : m a ≠ 0
    · rw [if_pos more, if_pos more]
      simp only [Traced.bind_result, Traced.read_result, Outcome.ok_bind]
      by_cases right : m a = m needle
      · rw [if_pos right, Traced.bind_result, keCompareStringEx_result, Outcome.ok_bind]
        by_cases same : KernelStrings.keCompareStringEx m a needle n = 0
        · rw [if_pos same, if_pos ⟨right, same⟩, Traced.pure_result]
        · rw [if_neg same, if_neg fun both => same both.2, ih]
      · rw [if_neg right, if_neg fun both => right both.1, ih]
    · rw [if_neg more, if_neg more, Traced.pure_result]

theorem keFindStringString_result (fuel : Nat) (m : Storage) (a b : Nat) :
    (keFindStringString fuel m a b).result = KernelStrings.keFindStringString fuel m a b := by
  rw [keFindStringString, KernelStrings.keFindStringString, Traced.bind_result,
    keStringLength_result]
  simp only [keFindStringStringLoop_result]

end

/-- Reading the string or its end is allowed. -/
def Readable (inside : Nat × Nat → Prop) (a : Nat) (s : List UInt8) : Prop :=
  ∀ i ≤ s.length, inside (u32 (a + i), 1)

section
variable {m : Storage} {inside : Nat × Nat → Prop} {a b : Nat} {s t : List UInt8} {c : UInt8}

theorem Readable.here (readable : Readable inside a s) (pointer : a < 4294967296) :
    inside (a, 1) := by
  have start := readable 0 (Nat.zero_le _)
  rwa [Nat.add_zero, u32_eq_self pointer] at start

theorem Readable.next (readable : Readable inside a (c :: s)) : Readable inside (u32 (a + 1)) s := by
  intro i le
  rw [u32_next]
  exact readable (i + 1) (Nat.succ_le_succ le)

theorem keStringLength_within (spelled : Spells m a s) (pointer : a < 4294967296)
    (readable : Readable inside a s) (fuel : Nat) :
    Traced.Within inside (keStringLength fuel m a) := by
  have loop : ∀ i, Traced.Within inside (keStringLengthLoop m fuel a i) := by
    induction fuel generalizing a s with
    | zero => exact fun _ => Traced.within_lift _
    | succ fuel ih =>
      intro i
      rw [keStringLengthLoop, Traced.within_read_bind]
      refine ⟨readable.here pointer, ?_⟩
      cases s with
      | nil =>
        have ends : m a = 0 := spelled
        rw [if_neg (not_not.mpr ends)]
        exact Traced.within_pure i
      | cons c s =>
        rw [if_pos (spelled.1 ▸ spelled.2.1)]
        exact ih spelled.2.2 (Nat.mod_lt _ (by decide)) readable.next (u32 (i + 1))
  exact loop 0

/-- The comparison stays in both strings, and so do the places where it stops. -/
theorem keCompareStringEx_within (first : Spells m a s) (second : Spells m b t)
    (pointerA : a < 4294967296) (pointerB : b < 4294967296) (readA : Readable inside a s)
    (readB : Readable inside b t) (n : Nat) :
    Traced.Within inside (keCompareStringEx m a b n) := by
  have loop : ∀ diff, Traced.Within inside (keCompareLoop m n a b diff) ∧
      inside ((KernelStrings.keCompareLoop m n a b diff).2.1, 1) ∧
      inside ((KernelStrings.keCompareLoop m n a b diff).2.2.1, 1) := by
    induction n generalizing a b s t with
    | zero => exact fun diff => ⟨Traced.within_pure _, readA.here pointerA, readB.here pointerB⟩
    | succ n ih =>
      intro diff
      have hereA := readA.here pointerA
      have hereB := readB.here pointerB
      rw [keCompareLoop, Traced.within_read_bind, KernelStrings.keCompareLoop]
      cases s with
      | nil =>
        have ends : m a = 0 := first
        rw [if_neg (not_not.mpr ends), if_neg fun both => both.1 ends]
        exact ⟨⟨hereA, Traced.within_pure _⟩, hereA, hereB⟩
      | cons c s =>
        have moreA : m a ≠ 0 := first.1 ▸ first.2.1
        rw [if_pos moreA, Traced.within_read_bind]
        cases t with
        | nil =>
          have ends : m b = 0 := second
          rw [if_neg (not_not.mpr ends), if_neg fun both => both.2 ends]
          exact ⟨⟨hereA, hereB, Traced.within_pure _⟩, hereA, hereB⟩
        | cons d t =>
          have moreB : m b ≠ 0 := second.1 ▸ second.2.1
          obtain ⟨rest, stops⟩ := ih first.2.2 second.2.2 (Nat.mod_lt _ (by decide))
            (Nat.mod_lt _ (by decide)) readA.next readB.next
            (signed32 (diff + ((m a).toNat - (m b).toNat)))
          rw [if_pos moreB, if_pos ⟨moreA, moreB⟩, Traced.within_read_bind,
            Traced.within_read_bind]
          exact ⟨⟨hereA, hereB, hereA, hereB, rest⟩, stops⟩
  obtain ⟨within, stopA, stopB⟩ := loop 0
  rw [keCompareStringEx, Traced.within_bind]
  refine ⟨within, fun stop stopped => ?_⟩
  rw [keCompareLoop_result] at stopped
  cases stopped
  rw [Traced.within_read_bind, Traced.within_read_bind]
  exact ⟨stopA, stopB, Traced.within_pure _⟩

theorem keFindStringString_within (first : Spells m a s) (second : Spells m b t)
    (pointerA : a < 4294967296) (pointerB : b < 4294967296) (readA : Readable inside a s)
    (readB : Readable inside b t) (fuel : Nat) :
    Traced.Within inside (keFindStringString fuel m a b) := by
  have loop : ∀ n, Traced.Within inside (keFindStringStringLoop m b n fuel a) := by
    intro n
    induction fuel generalizing a s with
    | zero => exact Traced.within_lift _
    | succ fuel ih =>
      have hereA := readA.here pointerA
      rw [keFindStringStringLoop, Traced.within_read_bind]
      refine ⟨hereA, ?_⟩
      cases s with
      | nil =>
        have ends : m a = 0 := first
        rw [if_neg (not_not.mpr ends)]
        exact Traced.within_pure 0
      | cons c s =>
        have later := ih first.2.2 (Nat.mod_lt _ (by decide)) readA.next
        rw [if_pos (first.1 ▸ first.2.1), Traced.within_read_bind, Traced.within_read_bind]
        refine ⟨hereA, readB.here pointerB, ?_⟩
        by_cases right : m a = m b
        · rw [if_pos right, Traced.within_bind]
          refine ⟨keCompareStringEx_within first second pointerA pointerB readA readB n,
            fun diff _ => ?_⟩
          by_cases same : diff = 0
          · rw [if_pos same]
            exact Traced.within_pure a
          · rw [if_neg same]
            exact later
        · rw [if_neg right]
          exact later
  rw [keFindStringString, Traced.within_bind]
  exact ⟨keStringLength_within second pointerB readB fuel, fun n _ => loop n⟩

end

section
variable {m : Storage} {a b fuel more k : Nat} {s t : List UInt8}

theorem seemsAt_front (first : Spells m a s) (second : Spells m b t) :
    SeemsAt s t 0 ↔ m a = m b ∧ KernelStrings.keCompareStringEx m a b t.length = 0 := by
  have compared := keCompareStringEx_take first.noNul second.noNul t.length
  rw [List.take_length] at compared
  rw [SeemsAt, List.drop_zero, keCompareStringEx_spells first second, compared, first.first,
    second.first]

theorem SeemsAt.inside (seems : SeemsAt s t k) (some : t ≠ []) : k < s.length := by
  by_contra outside
  have same := seems.2.1
  rw [List.drop_of_length_le (Nat.le_of_not_lt outside), List.take_nil] at same
  exact some (List.length_eq_zero_iff.mp same.symm)

theorem OccursAt.seems (occurs : OccursAt s t k) (some : t ≠ []) : SeemsAt s t k := by
  obtain ⟨rest, whole⟩ := occurs
  rw [SeemsAt, ← whole, List.take_left]
  refine ⟨?_, looksLike_refl t⟩
  cases t with
  | nil => exact absurd rfl some
  | cons c t => rfl

theorem keFindStringStringLoop_seems (first : Spells m a s) (second : Spells m b t)
    (pointer : a < 4294967296) (some : t ≠ []) (seems : SeemsAt s t k)
    (before : ∀ j < k, ¬ SeemsAt s t j) (enough : k < fuel) :
    KernelStrings.keFindStringStringLoop m b t.length fuel a = .ok (u32 (a + k)) := by
  induction k generalizing a s fuel with
  | zero =>
    obtain ⟨fuel, rfl⟩ : ∃ f, fuel = f + 1 := ⟨fuel - 1, by omega⟩
    have inside := seems.inside some
    cases s with
    | nil => exact absurd inside (Nat.not_lt_zero _)
    | cons c s =>
      rw [KernelStrings.keFindStringStringLoop, if_pos (first.1 ▸ first.2.1),
        if_pos ((seemsAt_front first second).mp seems), Nat.add_zero, u32_eq_self pointer]
  | succ k ih =>
    obtain ⟨fuel, rfl⟩ : ∃ f, fuel = f + 1 := ⟨fuel - 1, by omega⟩
    have inside := seems.inside some
    cases s with
    | nil => exact absurd inside (Nat.not_lt_zero _)
    | cons c s =>
      have notHere := mt (seemsAt_front first second).mpr (before 0 (Nat.succ_pos k))
      rw [KernelStrings.keFindStringStringLoop, if_pos (first.1 ▸ first.2.1), if_neg notHere,
        ← u32_next a k]
      exact ih first.2.2 (Nat.mod_lt _ (by decide)) seems
        (fun j hj => before (j + 1) (Nat.succ_lt_succ hj)) (Nat.lt_of_succ_lt_succ enough)

theorem keFindStringStringLoop_none (first : Spells m a s) (second : Spells m b t)
    (nowhere : ∀ k, ¬ SeemsAt s t k) (enough : s.length < fuel) :
    KernelStrings.keFindStringStringLoop m b t.length fuel a = .ok 0 := by
  induction s generalizing a fuel with
  | nil =>
    obtain ⟨fuel, rfl⟩ : ∃ f, fuel = f + 1 := ⟨fuel - 1, by omega⟩
    have ends : m a = 0 := first
    rw [KernelStrings.keFindStringStringLoop, if_neg (not_not.mpr ends)]
  | cons c s ih =>
    obtain ⟨fuel, rfl⟩ : ∃ f, fuel = f + 1 := ⟨fuel - 1, by omega⟩
    have notHere := mt (seemsAt_front first second).mpr (nowhere 0)
    rw [KernelStrings.keFindStringStringLoop, if_pos (first.1 ▸ first.2.1), if_neg notHere]
    exact ih first.2.2 (fun k => nowhere (k + 1)) (Nat.lt_of_succ_lt_succ enough)

/-- Two budgets that are enough for the search give the same place. -/
theorem keFindStringString_unique {x y : Nat}
    (one : Returns (fun fuel => (keFindStringString fuel m a b).result) x)
    (other : Returns (fun fuel => (keFindStringString fuel m a b).result) y) : x = y := by
  have mono : ∀ {fuel more z : Nat}, fuel ≤ more →
      KernelStrings.keFindStringString fuel m a b = .ok z →
      KernelStrings.keFindStringString more m a b = .ok z := by
    intro fuel more z le returned
    obtain ⟨length, counted, searched⟩ := Outcome.bind_eq_ok.mp returned
    rw [KernelStrings.keFindStringString, keStringLength_mono le counted]
    exact keFindStringStringLoop_mono le searched
  obtain ⟨fuel, returned⟩ := one
  obtain ⟨more, returned'⟩ := other
  have first := (keFindStringString_result fuel m a b).symm.trans returned
  have second := (keFindStringString_result more m a b).symm.trans returned'
  have same := (mono (Nat.le_max_left fuel more) first).symm.trans
    (mono (Nat.le_max_right fuel more) second)
  exact Outcome.ok.inj same

theorem keFindStringString_loop (second : Spells m b t) (pointerB : b < 4294967296)
    (enough : t.length < fuel) :
    (keFindStringString fuel m a b).result =
      KernelStrings.keFindStringStringLoop m b t.length fuel a := by
  rw [keFindStringString_result, KernelStrings.keFindStringString, keStringLength_spells second,
    if_pos enough, Outcome.ok_bind, u32_eq_self (second.short pointerB)]

theorem returns_null (first : Spells m a s) (second : Spells m b t) (pointerB : b < 4294967296)
    (nowhere : ∀ k, ¬ SeemsAt s t k) :
    Returns (fun fuel => (keFindStringString fuel m a b).result) 0 := by
  refine ⟨t.length + s.length + 1, (keFindStringString_loop second pointerB (by omega)).trans ?_⟩
  exact keFindStringStringLoop_none first second nowhere (by omega)

section
variable (first : Spells m a s) (second : Spells m b t) (pointerA : a < 4294967296)
  (pointerB : b < 4294967296)
include first second pointerA pointerB

theorem returns_seems (some : t ≠ []) (seems : SeemsAt s t k)
    (before : ∀ j < k, ¬ SeemsAt s t j) :
    Returns (fun fuel => (keFindStringString fuel m a b).result) (u32 (a + k)) := by
  refine ⟨t.length + k + 1, (keFindStringString_loop second pointerB (by omega)).trans ?_⟩
  exact keFindStringStringLoop_seems first second pointerA some seems before (by omega)

theorem stays_in_strings (fuel : Nat) :
    Traced.Within (fun r => InString a s r ∨ InString b t r) (keFindStringString fuel m a b) :=
  keFindStringString_within first second pointerA pointerB
    (fun i le => Or.inl ⟨rfl, i, le, rfl⟩) (fun i le => Or.inr ⟨rfl, i, le, rfl⟩) fuel

variable (some : t ≠ [])
include some

/-- When what comes back for the first place that seems to be right is right, the
search is. -/
theorem exact_of_first
    (right : ∀ k, SeemsAt s t k → (∀ j < k, ¬ SeemsAt s t j) → RightAt a s t k) :
    Exact m a b s t := by
  have stays := stays_in_strings first second pointerA pointerB
  by_cases seems : ∃ k, SeemsAt s t k
  · obtain ⟨k, here, before⟩ := exists_first seems
    have found := returns_seems first second pointerA pointerB some here before
    rcases right k here before with ⟨occurs, notNull⟩ | ⟨nowhere, null⟩
    · refine ⟨fun i there earlier => ?_, ⟨fun isNull => ?_, fun nowhere => ?_⟩, stays⟩
      · have notBefore : k ≤ i := Nat.le_of_not_lt fun less => before i less (there.seems some)
        have notBehind : i ≤ k := Nat.le_of_not_lt fun less => earlier k less occurs
        obtain rfl : k = i := Nat.le_antisymm notBefore notBehind
        exact found
      · exact absurd (keFindStringString_unique found isNull) notNull
      · exact absurd occurs (nowhere k)
    · rw [null] at found
      exact ⟨fun i there => absurd there (nowhere i), iff_of_true found nowhere, stays⟩
  · have nowhere : ∀ k, ¬ OccursAt s t k := fun k occurs => seems ⟨k, occurs.seems some⟩
    have null := returns_null first second pointerB fun k here => seems ⟨k, here⟩
    exact ⟨fun k occurs => absurd occurs (nowhere k), iff_of_true null nowhere, stays⟩

/-- The first place that seems to be right comes back, so it has to be right. -/
theorem Exact.first_right (exact : Exact m a b s t) (seems : SeemsAt s t k)
    (before : ∀ j < k, ¬ SeemsAt s t j) : RightAt a s t k := by
  have here := returns_seems first second pointerA pointerB some seems before
  by_cases occurs : ∃ i, OccursAt s t i
  · obtain ⟨i, there, earlier⟩ := exists_first occurs
    have same := keFindStringString_unique here (exact.finds i there earlier)
    have insideK := seems.inside some
    have insideI := (there.seems some).inside some
    have short := first.short pointerA
    have equal : k = i := by
      unfold u32 at same
      omega
    subst equal
    refine Or.inl ⟨there, fun null => ?_⟩
    rw [null] at here
    exact exact.null.mp here k there
  · have nowhere : ∀ i, ¬ OccursAt s t i := fun i there => occurs ⟨i, there⟩
    exact Or.inr ⟨nowhere, keFindStringString_unique here (exact.null.mpr nowhere)⟩

/-- The search is right exactly when what comes back for the first place where the
string seems to be, if there is one, is right. -/
theorem keFindStringString_exact_iff : Exact m a b s t ↔
    ∀ k, SeemsAt s t k → (∀ j < k, ¬ SeemsAt s t j) → RightAt a s t k := by
  constructor
  · exact fun exact k => exact.first_right first second pointerA pointerB some
  · exact exact_of_first first second pointerA pointerB some

end

end

/-- The strings abc at 1 and bc at 5, in EBCDIC. -/
def present : Storage := fun a => ([0, 0x81, 0x82, 0x83, 0, 0x82, 0x83, 0] : List UInt8).getD a 0

/-- The strings xbc at 1 and xad at 5. -/
def mistaken : Storage := fun a =>
  ([0, 0xA7, 0x82, 0x83, 0, 0xA7, 0x81, 0x84, 0] : List UInt8).getD a 0

theorem present_found : Exact present 1 5 [0x81, 0x82, 0x83] [0x82, 0x83] := by
  have first : Spells present 1 [0x81, 0x82, 0x83] := by decide
  have second : Spells present 5 [0x82, 0x83] := by decide
  have some : ([0x82, 0x83] : List UInt8) ≠ [] := List.cons_ne_nil _ _
  have right : ∀ k < 3, SeemsAt [0x81, 0x82, 0x83] [0x82, 0x83] k →
      OccursAt [0x81, 0x82, 0x83] [0x82, 0x83] k ∧ u32 (1 + k) ≠ 0 := by decide
  exact (keFindStringString_exact_iff first second (by decide) (by decide) some).mpr
    fun k seems _ => Or.inl (right k (seems.inside some) seems)

/-- The string is at no place of the other one and is found at its front. -/
theorem mistaken_found : Spells mistaken 1 [0xA7, 0x82, 0x83] ∧
    Spells mistaken 5 [0xA7, 0x81, 0x84] ∧
    (keFindStringString 4 mistaken 1 5).result = .ok 1 ∧
    ¬ Exact mistaken 1 5 [0xA7, 0x82, 0x83] [0xA7, 0x81, 0x84] := by
  have first : Spells mistaken 1 [0xA7, 0x82, 0x83] := by decide
  have second : Spells mistaken 5 [0xA7, 0x81, 0x84] := by decide
  have seems : SeemsAt [0xA7, 0x82, 0x83] [0xA7, 0x81, 0x84] 0 := ⟨by decide, by decide⟩
  refine ⟨first, second, by decide, fun exact => ?_⟩
  rcases exact.first_right first second (by decide) (by decide) (List.cons_ne_nil _ _) seems
    (fun j hj => absurd hj (Nat.not_lt_zero j)) with ⟨occurs, _⟩ | ⟨_, null⟩
  · exact absurd occurs (by decide)
  · exact absurd null (by decide)

end StringSearch
