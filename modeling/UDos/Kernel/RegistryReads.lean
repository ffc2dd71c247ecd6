import Mathlib.Data.List.TakeWhile
import UDos.Kernel.RegistryPath
import UDos.Kernel.MmHeap

/-!
# What the resolution of a registry path reads

`KeResolveRegistryPath` of `registry.c` with its buffers in storage: the copy
of the path, and a block for each component. The bytes that a buffer was given
are those that may be read, and reading any other byte is a fault. Groups and
keys are a tree, and a pointer to one is the list of indices that lead to it. A
name that ends in its buffer is looked up as on the list of its characters.
-/

namespace RegistryReads

open KernelMemory Heap RegistryPath

/-- The allocations of a call: what the request of this number and size is
answered with, 0 for NULL. Request 0 is for the copy of the path. -/
abbrev Allocator := Nat → Nat → Nat

/-- The ranges of the buffers that have been initialised, each an address and a
length. -/
structure Buffers where
  storage : Storage
  initialised : List (Nat × Nat)

def Readable (s : Buffers) (a : Nat) : Prop := ∃ x ∈ s.initialised, x.1 ≤ a ∧ a < x.1 + x.2

instance (s : Buffers) (a : Nat) : Decidable (Readable s a) :=
  inferInstanceAs (Decidable (∃ x ∈ s.initialised, _))

def Buffers.read (s : Buffers) (a : Nat) : Outcome UInt8 :=
  if Readable s a then .ok (s.storage a) else .fault

/-- How often a loop over a string may turn before it comes round to its start. -/
def addressSpace : Nat := 4294967296

/-- `KeStringLength`, for at most so many turns. -/
def keStringLength (s : Buffers) : Nat → Nat → Outcome Nat
  | 0, _ => .diverge
  | turns + 1, a => do
    let c ← s.read a
    if c = 0 then .ok 0
    else
      let length ← keStringLength s turns (u32 (a + 1))
      .ok (length + 1)

/-- `KeBreakCharPtrString` with the separators, for at most so many turns. -/
def keBreakCharPtrString (s : Buffers) : Nat → Nat → Outcome Nat
  | 0, _ => .diverge
  | turns + 1, a => do
    let c ← s.read a
    if c = 0 ∨ c ∈ separators then .ok a
    else keBreakCharPtrString s turns (u32 (a + 1))

/-- The loop of `KeCompareString`: what is left of the first string, the address
reached in the second one, and the sum of the differences. -/
def compareLoop (s : Buffers) : List UInt8 → Nat → Int → Outcome (List UInt8 × Nat × Int)
  | [], a, diff => .ok ([], a, diff)
  | c :: s1, a, diff => do
    let d ← s.read a
    if d = 0 then .ok (c :: s1, a, diff)
    else compareLoop s s1 (u32 (a + 1)) (signed32 (diff + (c.toNat - d.toNat)))

def keCompareString (s : Buffers) (s1 : CString) (s2 : Nat) : Outcome Int := do
  let (s1, s2, diff) ← compareLoop s s1.chars s2 0
  let d ← s.read s2
  .ok (if first s1 ≠ d then -1 else diff)

/-- `KeCopyMemory` from a buffer to a fresh one. -/
def copyComponent (debug : Bool) (s : Buffers) (dest src n : Nat) : Outcome Buffers := do
  let (_, storage) ← keCopyMemory debug s.storage dest src n
  if ∀ i < n, Readable s (src + i) then .ok ⟨storage, (dest, n) :: s.initialised⟩ else .fault

/-- `MmFree` of the buffer that was filled last. -/
def Buffers.drop (s : Buffers) : Buffers := { s with initialised := s.initialised.tail }

/-- The loop of the two lookups. -/
def firstNamed (s : Buffers) (name : Nat) : List CString → Outcome (Option Nat)
  | [] => .ok none
  | candidate :: others => do
    let diff ← keCompareString s candidate name
    if diff = 0 then .ok (some 0)
    else
      let place ← firstNamed s name others
      .ok (place.map (· + 1))

def keFindRegistryGroupInGroup (debug : Bool) (s : Buffers) (root : RegistryGroup) (name : Nat) :
    Outcome (Option Nat) := do
  Outcome.check (debug = true → name ≠ 0) "Assertion root != NULL && name != NULL failed!\r\n"
  let length ← keStringLength s addressSpace name
  Outcome.check (length < maxRegistryKey) "Length exceeds max registry key"
  firstNamed s name (root.groups.map RegistryGroup.name)

def keFindRegistryKeyInGroup (debug : Bool) (s : Buffers) (root : RegistryGroup) (name : Nat) :
    Outcome (Option Nat) := do
  Outcome.check (debug = true → name ≠ 0) "Assertion root != NULL && name != NULL failed!\r\n"
  let length ← keStringLength s addressSpace name
  Outcome.check (length < maxRegistryName) "Length exceeds max registry name"
  firstNamed s name (root.keys.map RegistryKey.name)

/-- `MmAllocate` -/
def mmAllocate (allocator : Allocator) (request size : Nat) : Outcome Nat := do
  Outcome.check (size ≠ 0) "Invalid size\r\n"
  .ok (allocator request size)

/-- The length of the component at buf when the search has stopped at next. -/
def componentLength (s : Buffers) (buf next : Nat) : Outcome Nat :=
  if next = 0 then keStringLength s addressSpace buf
  else do
    let length := u32 (next + (4294967296 - buf))
    Outcome.check (length ≠ 0) "Zero-lenght name"
    .ok length

/-- The loop, for at most so many turns. It goes one group down with each turn. -/
def resolveLoop (debug : Bool) (allocator : Allocator) :
    Nat → Nat → RegistryGroup → Buffers → Nat → Outcome (Option Place)
  | 0, _, _, _, _ => .diverge
  | turns + 1, request, group, s, buf => do
    let c ← s.read buf
    if c = 0 then .ok none
    else do
      let next ← keBreakCharPtrString s addressSpace buf
      let length ← componentLength s buf next
      let name ← mmAllocate allocator request (u32 (length + 1))
      Outcome.check (name ≠ 0) "Ouf of memory"
      let s ← copyComponent debug s name buf length
      match ← keFindRegistryGroupInGroup debug s group name with
      | some i =>
        match group.groups[i]? with
        | none => .fault
        | some subgroup => do
          -- the separator is skipped without a look at it
          let place ← resolveLoop debug allocator turns (request + 1) subgroup s.drop (u32 (next + 1))
          .ok (place.map fun p => (i :: p.1, p.2))
      | none =>
        match ← keFindRegistryKeyInGroup debug s group name with
        | none => .panic "Registry %s not found"
        | some j => .ok (some ([], j))

def keResolveRegistryPath (debug : Bool) (allocator : Allocator) (m : Storage)
    (root : RegistryGroup) (path : CString) : Outcome (Option Place) := do
  let length := path.chars.length
  Outcome.check (length < maxRegistryPath) "Length exceeds max registry path\r\n"
  Outcome.check (length ≠ 0) "Zero-length registry path\r\n"
  let tmpbuf ← mmAllocate allocator 0 (length + 1)
  Outcome.check (tmpbuf ≠ 0) "Out of memory\r\n"
  let s : Buffers := ⟨m.store tmpbuf (path.chars ++ [0]), [(tmpbuf, length + 1)]⟩
  resolveLoop debug allocator root.depth 1 root s tmpbuf

/-- The call reads initialised bytes of its buffers alone, and returns or panics. -/
def StaysInBuffers (debug : Bool) (allocator : Allocator) (m : Storage) (root : RegistryGroup)
    (path : CString) : Prop :=
  Outcome.Sound (fun _ => True) (keResolveRegistryPath debug allocator m root path)

instance (debug : Bool) (allocator : Allocator) (m : Storage) (root : RegistryGroup)
    (path : CString) : Decidable (StaysInBuffers debug allocator m root path) :=
  inferInstanceAs (Decidable (Outcome.Sound _ _))

/-- Blocks that are handed out lie in the 31-bit address space, and apart from
the copy of the path. -/
def Supplied (allocator : Allocator) (path : CString) : Prop :=
  let copy := (allocator 0 (path.chars.length + 1), path.chars.length + 1)
  (copy.1 = 0 ∨ Proper copy) ∧ ∀ request size, request ≠ 0 → size ≠ 0 →
    allocator request size = 0 ∨
      Proper (allocator request size, size) ∧ Apart (allocator request size, size) copy

/-- The characters before the first separator. -/
def firstComponent (path : CString) : List UInt8 := path.chars.takeWhile (· ∉ separators)

/-- The string at an address, all of it in the buffers and readable. -/
def Text (s : Buffers) : Nat → List UInt8 → Prop
  | a, [] => Readable s a ∧ s.storage a = 0
  | a, c :: chars => Readable s a ∧ s.storage a = c ∧ c ≠ 0 ∧ Text s (u32 (a + 1)) chars

section
variable {s : Buffers} {a n : Nat} {chars : List UInt8}

theorem read_of_readable (readable : Readable s a) : s.read a = .ok (s.storage a) :=
  if_pos readable

theorem read_of_unreadable (unreadable : ¬ Readable s a) : s.read a = .fault := if_neg unreadable

theorem Text.read (text : Text s a chars) : s.read a = .ok (first chars) := by
  cases chars with
  | nil => rw [read_of_readable text.1, text.2, first_nil]
  | cons c chars =>
    rw [read_of_readable text.1, text.2.1]
    rfl

theorem keStringLength_text (text : Text s a chars) (enough : chars.length < n) :
    keStringLength s n a = .ok chars.length := by
  induction chars generalizing a n with
  | nil =>
    obtain ⟨n, rfl⟩ := Nat.exists_eq_add_one.mpr enough
    rw [keStringLength, text.read, Outcome.ok_bind, first_nil, if_pos rfl]
    rfl
  | cons c chars ih =>
    obtain ⟨n, rfl⟩ := Nat.exists_eq_add_one.mpr (Nat.zero_lt_of_lt enough)
    have rest := ih text.2.2.2 (Nat.lt_of_succ_lt_succ enough)
    have char : first (c :: chars) ≠ 0 := text.2.2.1
    rw [keStringLength, text.read, Outcome.ok_bind, if_neg char, rest]
    rfl

theorem keBreakCharPtrString_text (text : Text s a chars) (enough : chars.length < n) :
    ∃ p, keBreakCharPtrString s n a = .ok p ∧
      Text s p (KernelMemory.keBreakCharPtrString chars separators) := by
  induction chars generalizing a n with
  | nil =>
    obtain ⟨n, rfl⟩ := Nat.exists_eq_add_one.mpr enough
    refine ⟨a, ?_, text⟩
    rw [keBreakCharPtrString, text.read, Outcome.ok_bind, first_nil, if_pos (Or.inl rfl)]
  | cons c chars ih =>
    obtain ⟨n, rfl⟩ := Nat.exists_eq_add_one.mpr (Nat.zero_lt_of_lt enough)
    have char : first (c :: chars) = c := rfl
    rw [keBreakCharPtrString, text.read, Outcome.ok_bind, KernelMemory.keBreakCharPtrString, char]
    by_cases found : c ∈ separators
    · rw [if_pos (Or.inr found), if_pos found]
      exact ⟨a, rfl, text⟩
    · rw [if_neg (not_or.mpr ⟨text.2.2.1, found⟩), if_neg found]
      exact ih text.2.2.2 (Nat.lt_of_succ_lt_succ enough)

theorem compareLoop_text (text : Text s a chars) (name : List UInt8) (diff : Int) :
    ∃ b, compareLoop s name a diff =
        .ok ((KernelMemory.compareLoop name.length name chars diff).2.1, b,
          (KernelMemory.compareLoop name.length name chars diff).2.2.2) ∧
      Text s b (KernelMemory.compareLoop name.length name chars diff).2.2.1 := by
  induction name generalizing a chars diff with
  | nil =>
    refine ⟨a, ?_, ?_⟩
    · simp [compareLoop, KernelMemory.compareLoop]
    · simpa [KernelMemory.compareLoop] using text
  | cons c name ih =>
    rw [compareLoop, text.read, Outcome.ok_bind]
    cases chars with
    | nil =>
      rw [first_nil, if_pos rfl]
      refine ⟨a, ?_, ?_⟩
      · simp [KernelMemory.compareLoop]
      · simpa [KernelMemory.compareLoop] using text
    | cons d chars =>
      have char : first (d :: chars) ≠ 0 := text.2.2.1
      rw [if_neg char]
      exact ih text.2.2.2 _

theorem keCompareString_text (text : Text s a chars) (name : CString) :
    keCompareString s name a = .ok (KernelMemory.keCompareString name.chars chars) := by
  obtain ⟨b, loop, rest⟩ := compareLoop_text text name.chars 0
  rw [keCompareString, loop, Outcome.ok_bind]
  simp only [rest.read, Outcome.ok_bind]
  rfl

theorem firstNamed_text (text : Text s a chars) (names : List CString) :
    firstNamed s a names =
      .ok (names.findIdx? fun name => KernelMemory.keCompareString name.chars chars = 0) := by
  induction names with
  | nil => rfl
  | cons name names ih =>
    rw [firstNamed, keCompareString_text text, Outcome.ok_bind, List.findIdx?_cons]
    by_cases same : KernelMemory.keCompareString name.chars chars = 0
    · simp only [same, decide_true, if_true]
    · rw [if_neg same, ih]
      simp only [same, decide_false]
      rfl

/-- A name that ends in its buffer is looked up as on the list of its characters. -/
theorem lookups_text (debug : Bool) (text : Text s a chars) (notNull : a ≠ 0)
    (short : chars.length < addressSpace) (root : RegistryGroup) :
    keFindRegistryGroupInGroup debug s root a =
        RegistryPath.keFindRegistryGroupInGroup root chars ∧
      keFindRegistryKeyInGroup debug s root a =
        RegistryPath.keFindRegistryKeyInGroup root chars := by
  constructor
  · rw [keFindRegistryGroupInGroup, RegistryPath.keFindRegistryGroupInGroup,
      Outcome.check_of (fun _ => notNull), Outcome.ok_bind, keStringLength_text text short,
      Outcome.ok_bind, firstNamed_text text, List.findIdx?_map]
    rfl
  · rw [keFindRegistryKeyInGroup, RegistryPath.keFindRegistryKeyInGroup,
      Outcome.check_of (fun _ => notNull), Outcome.ok_bind, keStringLength_text text short,
      Outcome.ok_bind, firstNamed_text text, List.findIdx?_map]
    rfl

end

section
variable {s : Buffers} {a k n : Nat}

/-- The characters before a byte that may not be read, from an address on. -/
structure Characters (s : Buffers) (a k : Nat) : Prop where
  readable : ∀ i < k, Readable s (a + i)
  low : a + k < 4294967296

theorem Characters.tail (chars : Characters s a (k + 1)) : Characters s (u32 (a + 1)) k := by
  have low := chars.low
  rw [u32_eq_self (by omega)]
  refine ⟨fun i hi => ?_, by omega⟩
  rw [Nat.add_assoc, Nat.add_comm 1 i]
  exact chars.readable (i + 1) (by omega)

theorem Characters.shift (chars : Characters s a (k + 1)) (i : Nat) :
    u32 (a + 1) + i = a + (i + 1) := by
  have low := chars.low
  rw [u32_eq_self (by omega)]
  omega

theorem Characters.first (chars : Characters s a (k + 1)) : Readable s a :=
  chars.readable 0 (Nat.succ_pos k)

/-- The length of characters with a byte behind them that may not be read. By
induction on the characters. -/
theorem keStringLength_fault (chars : Characters s a k) (nonzero : ∀ i < k, s.storage (a + i) ≠ 0)
    (unreadable : ¬ Readable s (a + k)) (enough : k < n) : keStringLength s n a = .fault := by
  induction k generalizing a n with
  | zero =>
    obtain ⟨n, rfl⟩ := Nat.exists_eq_add_one.mpr enough
    have atStart : s.read a = .fault := read_of_unreadable unreadable
    rw [keStringLength, atStart, Outcome.fault_bind]
  | succ k ih =>
    obtain ⟨n, rfl⟩ := Nat.exists_eq_add_one.mpr (Nat.zero_lt_of_lt enough)
    have rest : keStringLength s n (u32 (a + 1)) = .fault := by
      refine ih chars.tail (fun i hi => ?_) ?_ (Nat.lt_of_succ_lt_succ enough)
      · rw [chars.shift]
        exact nonzero (i + 1) (Nat.succ_lt_succ hi)
      · rwa [chars.shift]
    have char : s.storage a ≠ 0 := nonzero 0 (Nat.succ_pos k)
    rw [keStringLength, read_of_readable chars.first, Outcome.ok_bind, if_neg char, rest,
      Outcome.fault_bind]

/-- The search stops behind the characters that are not separators. -/
theorem keBreakCharPtrString_eq (chars : Characters s a (k + 1))
    (plain : ∀ i < k, ¬ (s.storage (a + i) = 0 ∨ s.storage (a + i) ∈ separators))
    (stops : s.storage (a + k) = 0 ∨ s.storage (a + k) ∈ separators) (enough : k < n) :
    keBreakCharPtrString s n a = .ok (a + k) := by
  induction k generalizing a n with
  | zero =>
    obtain ⟨n, rfl⟩ := Nat.exists_eq_add_one.mpr enough
    rw [keBreakCharPtrString, read_of_readable chars.first, Outcome.ok_bind]
    exact if_pos stops
  | succ k ih =>
    obtain ⟨n, rfl⟩ := Nat.exists_eq_add_one.mpr (Nat.zero_lt_of_lt enough)
    have rest : keBreakCharPtrString s n (u32 (a + 1)) = .ok (u32 (a + 1) + k) := by
      refine ih chars.tail (fun i hi => ?_) ?_ (Nat.lt_of_succ_lt_succ enough)
      · rw [chars.shift]
        exact plain (i + 1) (Nat.succ_lt_succ hi)
      · rwa [chars.shift]
    have char : ¬ (s.storage a = 0 ∨ s.storage a ∈ separators) := plain 0 (Nat.succ_pos k)
    rw [keBreakCharPtrString, read_of_readable chars.first, Outcome.ok_bind, if_neg char, rest,
      chars.shift]

end

theorem copyComponent_eq {s : Buffers} {dest src n : Nat} {m : Storage} (debug : Bool)
    (readable : ∀ i < n, Readable s (src + i))
    (copies : keCopyMemory debug s.storage dest src n = .ok (dest, m)) :
    copyComponent debug s dest src n = .ok ⟨m, (dest, n) :: s.initialised⟩ := by
  rw [copyComponent, copies]
  exact if_pos readable

section
variable {debug : Bool} {allocator : Allocator} {m : Storage} {root : RegistryGroup}
  {path : CString}

/-- A separator or the terminator is behind the first component, which has neither. -/
theorem firstComponent_split (path : CString) :
    (∀ c ∈ firstComponent path, ¬ (c = 0 ∨ c ∈ separators)) ∧ ∃ stop rest,
      path.chars ++ [0] = firstComponent path ++ stop :: rest ∧
        (stop = 0 ∨ stop ∈ separators) := by
  have whole : firstComponent path ++ path.chars.dropWhile (· ∉ separators) = path.chars :=
    List.takeWhile_append_dropWhile
  refine ⟨fun c inside => ?_, ?_⟩
  · have inPath : c ∈ path.chars := whole ▸ List.mem_append_left _ inside
    have plain : c ∉ separators := by simpa using List.mem_takeWhile_imp inside
    rintro (rfl | member)
    · exact path.noNul inPath
    · exact plain member
  · cases behind : path.chars.dropWhile (· ∉ separators) with
    | nil =>
      rw [behind, List.append_nil] at whole
      exact ⟨0, [], by rw [whole], Or.inl rfl⟩
    | cons stop rest =>
      rw [behind] at whole
      refine ⟨stop, rest ++ [0], ?_, Or.inr ?_⟩
      · conv => lhs; rw [← whole]
        simp
      · have first := List.head?_dropWhile_not (fun c => decide (c ∉ separators)) path.chars
        rw [behind] at first
        simpa using first

/-- The copy of the path in its block. -/
def copied (m : Storage) (path : CString) (tmpbuf : Nat) : Buffers :=
  ⟨m.store tmpbuf (path.chars ++ [0]), [(tmpbuf, path.chars.length + 1)]⟩

theorem copied_readable {tmpbuf a : Nat} :
    Readable (copied m path tmpbuf) a ↔ tmpbuf ≤ a ∧ a < tmpbuf + (path.chars.length + 1) := by
  simp [Readable, copied]

/-- The first component is in the copy, with what stops the search behind it. -/
theorem copied_component (m : Storage) (path : CString) (tmpbuf : Nat) :
    (∀ i < (firstComponent path).length,
      ¬ ((copied m path tmpbuf).storage (tmpbuf + i) = 0 ∨
        (copied m path tmpbuf).storage (tmpbuf + i) ∈ separators)) ∧
    ((copied m path tmpbuf).storage (tmpbuf + (firstComponent path).length) = 0 ∨
      (copied m path tmpbuf).storage (tmpbuf + (firstComponent path).length) ∈ separators) := by
  obtain ⟨plain, stop, rest, whole, stops⟩ := firstComponent_split path
  have inside : ∀ i (hi : i < (firstComponent path ++ stop :: rest).length),
      (copied m path tmpbuf).storage (tmpbuf + i) = (firstComponent path ++ stop :: rest)[i] := by
    intro i hi
    rw [copied, whole]
    exact Storage.store_inside m hi
  refine ⟨fun i hi => ?_, ?_⟩
  · rw [inside i (by rw [List.length_append]; omega), List.getElem_append_left hi]
    exact plain _ (List.getElem_mem hi)
  · rw [inside _ (by simp), List.getElem_append_right (Nat.le_refl _)]
    simpa using stops

theorem firstComponent_length (path : CString) :
    (firstComponent path).length ≤ path.chars.length :=
  (List.takeWhile_prefix _).length_le

/-- The search stops behind the first component, which must not be empty. -/
theorem first_component {tmpbuf : Nat} (proper : Proper (tmpbuf, path.chars.length + 1)) :
    keBreakCharPtrString (copied m path tmpbuf) addressSpace tmpbuf =
        .ok (tmpbuf + (firstComponent path).length) ∧
      componentLength (copied m path tmpbuf) tmpbuf (tmpbuf + (firstComponent path).length) =
        if (firstComponent path).length ≠ 0 then .ok (firstComponent path).length
        else .panic "Zero-lenght name" := by
  obtain ⟨plain, stops⟩ := copied_component m path tmpbuf
  have fits := firstComponent_length path
  simp only [Proper] at proper
  have chars : Characters (copied m path tmpbuf) tmpbuf ((firstComponent path).length + 1) :=
    ⟨fun i hi => copied_readable.mpr ⟨by omega, by omega⟩, by omega⟩
  have length : u32 (tmpbuf + (firstComponent path).length + (4294967296 - tmpbuf)) =
      (firstComponent path).length := by
    rw [u32]
    omega
  refine ⟨keBreakCharPtrString_eq chars plain stops (by rw [addressSpace]; omega), ?_⟩
  rw [componentLength, if_neg (by omega)]
  simp only [length, Outcome.check]
  split <;> rfl

/-- The component behind its copy has a byte that was not initialised, and the
lookup of the component reads it. -/
theorem find_faults {tmpbuf name : Nat} (group : RegistryGroup)
    (proper : Proper (name, (firstComponent path).length + 1))
    (apart : Apart (name, (firstComponent path).length + 1) (tmpbuf, path.chars.length + 1)) :
    keFindRegistryGroupInGroup debug
      ⟨(copied m path tmpbuf).storage.copyUp name tmpbuf (firstComponent path).length,
        (name, (firstComponent path).length) :: (copied m path tmpbuf).initialised⟩ group name =
      .fault := by
  obtain ⟨plain, -⟩ := copied_component m path tmpbuf
  have fits := firstComponent_length path
  simp only [Proper, Apart] at proper apart
  set s : Buffers :=
    ⟨(copied m path tmpbuf).storage.copyUp name tmpbuf (firstComponent path).length,
      (name, (firstComponent path).length) :: (copied m path tmpbuf).initialised⟩ with buffers
  have readable : ∀ a, Readable s a ↔
      (name ≤ a ∧ a < name + (firstComponent path).length) ∨ Readable (copied m path tmpbuf) a := by
    intro a
    simp [buffers, Readable]
  have chars : Characters s name (firstComponent path).length :=
    ⟨fun i hi => (readable _).mpr (Or.inl ⟨by omega, by omega⟩), by omega⟩
  have nonzero : ∀ i < (firstComponent path).length, s.storage (name + i) ≠ 0 := by
    intro i hi zero
    have copy : s.storage (name + i) = (copied m path tmpbuf).storage (tmpbuf + i) :=
      Storage.copyUp_inside _ (by omega) hi
    exact plain i hi (Or.inl (copy ▸ zero))
  have unreadable : ¬ Readable s (name + (firstComponent path).length) := by
    rw [readable, copied_readable]
    omega
  rw [keFindRegistryGroupInGroup, Outcome.check_of (fun _ => by omega), Outcome.ok_bind,
    keStringLength_fault chars nonzero unreadable (by rw [addressSpace]; omega), Outcome.fault_bind]

/-- The first turn panics, or reads a byte that was not initialised. -/
theorem resolveLoop_first (debug : Bool) (m : Storage) {tmpbuf request : Nat} (turns : Nat)
    (group : RegistryGroup)
    (nonempty : path.chars.length ≠ 0) (proper : Proper (tmpbuf, path.chars.length + 1))
    (supplied : allocator request ((firstComponent path).length + 1) = 0 ∨
      Proper (allocator request ((firstComponent path).length + 1),
          (firstComponent path).length + 1) ∧
        Apart (allocator request ((firstComponent path).length + 1),
          (firstComponent path).length + 1) (tmpbuf, path.chars.length + 1)) :
    Outcome.Sound (fun _ => True)
        (resolveLoop debug allocator (turns + 1) request group (copied m path tmpbuf) tmpbuf) ↔
      firstComponent path = [] ∨
        allocator request ((firstComponent path).length + 1) = 0 := by
  obtain ⟨searched, component⟩ := first_component (m := m) proper
  have fits := firstComponent_length path
  have low := proper.2.2
  simp only at low
  have first : (copied m path tmpbuf).storage tmpbuf ≠ 0 := by
    obtain ⟨c, rest, whole⟩ := List.exists_cons_of_length_pos (Nat.pos_of_ne_zero nonempty)
    have char : (copied m path tmpbuf).storage (tmpbuf + 0) = (path.chars ++ [0])[0] :=
      Storage.store_inside m (by simp)
    simp only [whole, Nat.add_zero, List.cons_append, List.getElem_cons_zero] at char
    rw [char]
    rintro rfl
    exact path.noNul (by rw [whole]; exact List.mem_cons_self)
  have atStart : Readable (copied m path tmpbuf) tmpbuf :=
    copied_readable.mpr ⟨Nat.le_refl _, by omega⟩
  have size : u32 ((firstComponent path).length + 1) = (firstComponent path).length + 1 :=
    u32_eq_self (by omega)
  rw [resolveLoop, read_of_readable atStart, Outcome.ok_bind, if_neg first, searched,
    Outcome.ok_bind, component]
  by_cases empty : firstComponent path = []
  · rw [empty]
    exact iff_of_true trivial (Or.inl rfl)
  rw [if_pos (by simpa using empty), Outcome.ok_bind, size, mmAllocate,
    Outcome.check_of (Nat.succ_ne_zero _), Outcome.ok_bind, Outcome.ok_bind]
  rcases supplied with null | ⟨properName, apart⟩
  · rw [null]
    exact iff_of_true trivial (Or.inr rfl)
  · have notNull := Nat.ne_of_gt properName.1
    have lowName := properName.2.2
    have disjoint := apart
    simp only [Apart] at disjoint lowName
    have all : ∀ i < (firstComponent path).length, Readable (copied m path tmpbuf) (tmpbuf + i) :=
      fun i hi => copied_readable.mpr ⟨by omega, by omega⟩
    have moves : keCopyMemory debug (copied m path tmpbuf).storage
        (allocator request ((firstComponent path).length + 1)) tmpbuf (firstComponent path).length =
          .ok (_, _) := keCopyMemory_eq debug _ (by omega) (by omega) (by omega) (by omega)
    have copies := copyComponent_eq debug all moves
    rw [Outcome.check_of notNull, Outcome.ok_bind, copies, Outcome.ok_bind,
      find_faults group properName apart, Outcome.fault_bind]
    exact iff_of_false id (by simp [empty, notNull])

/-- The resolution stays in its buffers exactly when it panics before the first
lookup: the path starts with a separator, or there is no block for its copy or
for its first component. -/
theorem staysInBuffers_iff (long : path.chars.length ≠ 0) (short : path.chars.length < 255)
    (supplied : Supplied allocator path) :
    StaysInBuffers debug allocator m root path ↔
      firstComponent path = [] ∨ allocator 0 (path.chars.length + 1) = 0 ∨
        allocator 1 ((firstComponent path).length + 1) = 0 := by
  obtain ⟨copy, components⟩ := supplied
  obtain ⟨turns, depth⟩ := Nat.exists_eq_add_one.mpr (depth_pos root)
  simp only [StaysInBuffers, keResolveRegistryPath]
  have inPath : path.chars.length < maxRegistryPath := short
  rw [Outcome.check_of inPath, Outcome.ok_bind, Outcome.check_of long, Outcome.ok_bind, mmAllocate,
    Outcome.check_of (Nat.succ_ne_zero _), Outcome.ok_bind, Outcome.ok_bind]
  rcases copy with null | proper
  · have null : allocator 0 (path.chars.length + 1) = 0 := null
    rw [null]
    exact iff_of_true trivial (Or.inr (Or.inl rfl))
  · have notNull : allocator 0 (path.chars.length + 1) ≠ 0 := Nat.ne_of_gt proper.1
    have first := resolveLoop_first debug m turns root long proper
      (components 1 _ Nat.one_ne_zero (Nat.succ_ne_zero _))
    rw [Outcome.check_of notNull, Outcome.ok_bind, depth]
    refine first.trans (or_congr_right ?_)
    simp [notNull]

end

/-- Blocks of up to 1000 bytes, that for the copy of a path apart from all others. -/
def twoBlocks : Allocator := fun request size =>
  if 1000 < size then 0 else if request = 0 then 4096 else 8192

theorem twoBlocks_supplied {path : CString} (short : path.chars.length < 255) :
    Supplied twoBlocks path := by
  have copy : twoBlocks 0 (path.chars.length + 1) = 4096 := by
    rw [twoBlocks, if_neg (by omega), if_pos rfl]
  simp only [Supplied, copy, Proper, Apart]
  refine ⟨by omega, fun request size later some => ?_⟩
  rw [twoBlocks, if_neg later]
  split <;> omega

/-- The path of a key in a group, and the same behind a separator. -/
theorem staysInBuffers_iff_twoBlocks :
    (StaysInBuffers true twoBlocks (fun _ => 0) oneGroup pathADBC ↔
      firstComponent pathADBC = [] ∨ twoBlocks 0 6 = 0 ∨ twoBlocks 1 3 = 0) ∧
    (StaysInBuffers true twoBlocks (fun _ => 0) oneGroup ⟨[0x6D, 0xC1], by decide⟩ ↔
      firstComponent ⟨[0x6D, 0xC1], by decide⟩ = [] ∨ twoBlocks 0 3 = 0 ∨ twoBlocks 1 1 = 0) :=
  ⟨staysInBuffers_iff (by decide) (by decide) (twoBlocks_supplied (by decide)),
    staysInBuffers_iff (by decide) (by decide) (twoBlocks_supplied (by decide))⟩

/-- In cleared storage too, the byte behind the first component is not one that
was initialised. -/
theorem pathADBC_leaves_buffers :
    ¬ StaysInBuffers false twoBlocks (fun _ => 0) oneGroup pathADBC := by
  decide

end RegistryReads
