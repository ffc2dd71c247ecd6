import Mathlib.Data.List.Nodup
import UDos.Kernel.FsPaths

/-!
# Fast indexing and the alphabet

The letters are in three ranges of the execution character set, and
`KeGetFsDrive` numbers each range from zero. The walk along letters is followed
with the numbers of the children it takes.
-/

namespace FsTree

open KernelMemory

/-- The capital and the small letters in the order of the alphabet. -/
def capitals : List UInt8 :=
  [0xC1, 0xC2, 0xC3, 0xC4, 0xC5, 0xC6, 0xC7, 0xC8, 0xC9,
   0xD1, 0xD2, 0xD3, 0xD4, 0xD5, 0xD6, 0xD7, 0xD8, 0xD9,
   0xE2, 0xE3, 0xE4, 0xE5, 0xE6, 0xE7, 0xE8, 0xE9]

def smallLetters : List UInt8 :=
  [0x81, 0x82, 0x83, 0x84, 0x85, 0x86, 0x87, 0x88, 0x89,
   0x91, 0x92, 0x93, 0x94, 0x95, 0x96, 0x97, 0x98, 0x99,
   0xA2, 0xA3, 0xA4, 0xA5, 0xA6, 0xA7, 0xA8, 0xA9]

/-- The position of a letter in the alphabet, from 0 for A to 25 for Z. -/
def alphabetPosition (c : UInt8) : Nat :=
  if c ∈ capitals then capitals.idxOf c else smallLetters.idxOf c

example : capitals.map alphabetPosition = List.range 26 ∧
    smallLetters.map alphabetPosition = List.range 26 := by decide

/-- A walk along letters numbered in some way: the numbers of the children
taken, and the node reached, none where a child is missing. -/
def walkBy (number : UInt8 → Nat) (t : Tree) (id : NodeId) :
    List UInt8 → Outcome (List Nat × Option NodeId)
  | [] => .ok ([], some id)
  | c :: letters => do
    let children ← t.childrenOf id
    match children[number c]? with
    | none => .ok ([], none)
    | some i => do
      let (numbers, reached) ← walkBy number t (.created i) letters
      .ok (number c :: numbers, reached)

/-- Every letter up to the first without a child is one of A to I, or finds no
child under the number that its range gives it. -/
def FirstRange (t : Tree) : NodeId → List UInt8 → Prop
  | _, [] => True
  | id, c :: letters => ∀ children, t.childrenOf id = .ok children →
      children.length ≤ keGetFsDrive c ∨
      alphabetPosition c < 9 ∧
        ∀ i, children[keGetFsDrive c]? = some i → FirstRange t (.created i) letters

theorem driveLetter_iff {c : UInt8} : isDriveLetter c ↔ c ∈ capitals ∨ c ∈ smallLetters := by
  have every : ∀ n : Fin 256, isDriveLetter (UInt8.ofNat n) =
      (capitals ++ smallLetters).any (fun d => d.toNat == n) := by decide +kernel
  have here := every ⟨c.toNat, UInt8.toNat_lt c⟩
  simp only [UInt8.ofNat_toNat] at here
  rw [here, List.any_eq_true, ← List.mem_append]
  simp [UInt8.toNat_inj]

/-- The number of a letter in its range is its position for the letters of the
first range, and below it for the others. -/
theorem keGetFsDrive_position {c : UInt8} (letter : isDriveLetter c) :
    keGetFsDrive c ≤ alphabetPosition c ∧
      (keGetFsDrive c = alphabetPosition c ↔ alphabetPosition c < 9) := by
  have every : ∀ c ∈ capitals ++ smallLetters, keGetFsDrive c ≤ alphabetPosition c ∧
      (keGetFsDrive c = alphabetPosition c ↔ alphabetPosition c < 9) := by decide +kernel
  exact every c (List.mem_append.mpr (driveLetter_iff.mp letter))

section
variable {t : Tree} {id : NodeId} {letters : List UInt8}

section
variable {number : UInt8 → Nat} {children : List Nat} {c : UInt8} {i : Nat}

theorem walkBy_missing (ok : t.childrenOf id = .ok children) (select : children[number c]? = none) :
    walkBy number t id (c :: letters) = .ok ([], none) := by
  rw [walkBy, ok, Outcome.ok_bind, select]

theorem walkBy_taken {numbers : List Nat} {reached : Option NodeId}
    (ok : t.childrenOf id = .ok children) (select : children[number c]? = some i)
    (walk : walkBy number t (.created i) letters = .ok (numbers, reached)) :
    walkBy number t id (c :: letters) = .ok (number c :: numbers, reached) := by
  rw [walkBy, ok, Outcome.ok_bind, select]
  simp only [walk, Outcome.ok_bind]

end

/-- The fast-indexing loop is the walk by the numbers of `KeGetFsDrive`. -/
theorem fastIndex_walk (inRange : t.InRange) (valid : Valid t id)
    (all : ∀ c ∈ letters, isFsLetter c) (text : List UInt8) :
    ∃ numbers reached, walkBy keGetFsDrive t id letters = .ok (numbers, reached) ∧
      fastIndex t id (letters ++ text) =
        match reached with
        | none => .ok .missing
        | some mid => fastIndex t mid text := by
  induction letters generalizing id with
  | nil => exact ⟨[], some id, rfl, rfl⟩
  | cons c letters ih =>
    obtain ⟨children, ok⟩ := valid.childrenOf
    have letter := all c List.mem_cons_self
    rw [List.cons_append, fastIndex, if_pos letter, ok, Outcome.ok_bind]
    cases select : children[keGetFsDrive c]? with
    | none => exact ⟨[], none, walkBy_missing ok select, rfl⟩
    | some i =>
      obtain ⟨numbers, reached, walk, rest⟩ :=
        ih (inRange.valid ok (List.mem_of_getElem? select))
          fun d hd => all d (List.mem_cons_of_mem c hd)
      exact ⟨keGetFsDrive c :: numbers, reached, walkBy_taken ok select walk, rest⟩

theorem walkBy_returns (number : UInt8 → Nat) (inRange : t.InRange) (valid : Valid t id)
    (letters : List UInt8) : ∃ walk, walkBy number t id letters = .ok walk := by
  induction letters generalizing id with
  | nil => exact ⟨_, rfl⟩
  | cons c letters ih =>
    obtain ⟨children, ok⟩ := valid.childrenOf
    cases select : children[number c]? with
    | none => exact ⟨_, walkBy_missing ok select⟩
    | some i =>
      obtain ⟨walk, later⟩ := ih (inRange.valid ok (List.mem_of_getElem? select))
      exact ⟨_, walkBy_taken ok select later⟩

theorem firstRange_cons {children : List Nat} {c : UInt8} (ok : t.childrenOf id = .ok children) :
    FirstRange t id (c :: letters) ↔ children.length ≤ keGetFsDrive c ∨
      alphabetPosition c < 9 ∧
        ∀ i, children[keGetFsDrive c]? = some i → FirstRange t (.created i) letters := by
  constructor
  · exact fun first => first children ok
  · intro first children' ok'
    cases ok.symm.trans ok'
    exact first

/-- Both numberings take the same children exactly when only letters of the
first range find any. -/
theorem walkBy_eq_iff (inRange : t.InRange) (valid : Valid t id)
    (all : ∀ c ∈ letters, isDriveLetter c) :
    walkBy keGetFsDrive t id letters = walkBy alphabetPosition t id letters ↔
      FirstRange t id letters := by
  induction letters generalizing id with
  | nil => exact iff_of_true rfl trivial
  | cons c letters ih =>
    obtain ⟨children, ok⟩ := valid.childrenOf
    obtain ⟨le, same_iff⟩ := keGetFsDrive_position (all c List.mem_cons_self)
    rw [firstRange_cons ok]
    cases select : children[keGetFsDrive c]? with
    | none =>
      have few := List.getElem?_eq_none_iff.mp select
      rw [walkBy_missing ok select, walkBy_missing ok (List.getElem?_eq_none (few.trans le))]
      exact iff_of_true rfl (Or.inl few)
    | some i =>
      have enough := (List.getElem?_eq_some_iff.mp select).1
      have child := inRange.valid ok (List.mem_of_getElem? select)
      obtain ⟨⟨numbers, reached⟩, walk⟩ := walkBy_returns keGetFsDrive inRange child letters
      rw [or_iff_right (Nat.not_le.mpr enough), walkBy_taken ok select walk]
      by_cases low : alphabetPosition c < 9
      · -- the child is the same, and so is everything below it or not
        have number := same_iff.mpr low
        obtain ⟨⟨numbers', reached'⟩, walk'⟩ :=
          walkBy_returns alphabetPosition inRange child letters
        have deeper := ih child fun d hd => all d (List.mem_cons_of_mem c hd)
        rw [walk, walk'] at deeper
        rw [walkBy_taken ok (number ▸ select) walk', number, and_iff_right low]
        simp only [Outcome.ok.injEq, Prod.mk.injEq, List.cons.injEq, true_and] at deeper ⊢
        rw [deeper]
        constructor
        · intro first j same
          cases same
          exact first
        · exact fun first => first i rfl
      · have differ : keGetFsDrive c ≠ alphabetPosition c := mt same_iff.mp low
        refine iff_of_false (fun same => ?_) fun first => low first.1
        cases select' : children[alphabetPosition c]? with
        | none =>
          rw [walkBy_missing ok select'] at same
          cases same
        | some j =>
          obtain ⟨⟨numbers', reached'⟩, walk'⟩ := walkBy_returns alphabetPosition inRange
            (inRange.valid ok (List.mem_of_getElem? select')) letters
          rw [walkBy_taken ok select' walk'] at same
          simp only [Outcome.ok.injEq, Prod.mk.injEq, List.cons.injEq] at same
          exact differ same.1.1

end

/-- The search of letters, a colon and a separator goes on from the node that
the letters lead to. It takes the children that the places of the letters in
the alphabet number, and finds nothing exactly where one of them is missing, if
and only if only letters of the first range select a child. -/
theorem fast_index_alphabet_iff (t : Tree) (inRange : t.InRange) (letters : List UInt8)
    (all : ∀ c ∈ letters, isDriveLetter c) (separator : UInt8) (sep : isSeparator separator)
    (path : List UInt8) :
    ∃ numbers reached, walkBy keGetFsDrive t .root letters = .ok (numbers, reached) ∧
      arrive t (letters ++ colon :: separator :: path) =
        (match reached with
        | none => .ok .missing
        | some id => findFile t id path) ∧
      (walkBy alphabetPosition t .root letters = .ok (numbers, reached) ↔
        FirstRange t .root letters) := by
  have start : Valid t .root := trivial
  have fsLetters : ∀ c ∈ letters, isFsLetter c := fun c member =>
    fsLetter_of_driveLetter (all c member)
  obtain ⟨numbers, reached, walk, rest⟩ :=
    fastIndex_walk inRange start fsLetters (colon :: separator :: path)
  refine ⟨numbers, reached, walk, ?_, ?_⟩
  · have begins : arrive t (letters ++ colon :: separator :: path) =
        fastIndex t .root (letters ++ colon :: separator :: path) := by
      cases letters with
      | nil => rw [List.nil_append, arrive, colon_not_separator, if_neg Bool.false_ne_true]
      | cons c letters =>
        rw [List.cons_append, arrive, driveLetter_not_separator (all c List.mem_cons_self),
          if_neg Bool.false_ne_true]
    rw [begins, rest]
    cases reached with
    | none => rfl
    | some id =>
      simp only
      rw [fastIndex, colon_not_letter, if_neg Bool.false_ne_true, afterLetters_colon sep]
  · rw [← walkBy_eq_iff inRange start all, walk]
    exact eq_comm

theorem oneNode_follows_alphabet :
    ∃ numbers reached, walkBy keGetFsDrive oneNode .root [0xC1] = .ok (numbers, reached) ∧
      arrive oneNode ([0xC1] ++ colon :: 0x61 :: []) =
        (match reached with
        | none => .ok .missing
        | some id => findFile oneNode id []) ∧
      (walkBy alphabetPosition oneNode .root [0xC1] = .ok (numbers, reached) ↔
        FirstRange oneNode .root [0xC1]) :=
  fast_index_alphabet_iff oneNode oneNode_isTree.toInRange [0xC1] (by decide +kernel) 0x61
    (by decide) []

/-- "J:/" resolves to the first child of the root, which has no tenth. -/
theorem tenth_letter_selects_first_child :
    keResolveFsPath oneNode [0xD1, colon, 0x61] = .ok (some (.created 0)) ∧
      walkBy keGetFsDrive oneNode .root [0xD1] = .ok ([0], some (.created 0)) ∧
      walkBy alphabetPosition oneNode .root [0xD1] = .ok ([], none) :=
  ⟨by decide +kernel, by decide, by decide⟩

end FsTree
