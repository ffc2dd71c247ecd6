import UDos.Kernel.MmHeap
import UDos.Library.Runs

/-!
# Creating registry groups and keys

The functions of `registry.c` that create groups and keys, on storage. Groups
and keys are records of 20 bytes that live by value in the arrays of their
parent, and callers keep the pointers that the functions return. The name given
to a function lies apart from the blocks it allocates.
-/

namespace Registry

open KernelMemory MmHeap Arena Storage

/-- The blocks that the allocations of a call are answered with, 0 for NULL. -/
structure Answers where
  record : Nat
  name : Nat
  array : Nat

def keAddRegistryGroupToGroup (debug : Bool) (h : Heap) (answer root subgroup : Nat) :
    Outcome (Nat × Heap) := do
  Outcome.check (debug = true → root ≠ 0 ∧ subgroup ≠ 0)
    "Assertion root != NULL && subgroup != NULL failed!\r\n"
  appendCopy debug h (root + 4) subgroup 20 answer

def keAddRegistryKeyToGroup (debug : Bool) (h : Heap) (answer root key : Nat) :
    Outcome (Nat × Heap) := do
  Outcome.check (debug = true → root ≠ 0 ∧ key ≠ 0)
    "Assertion root != NULL && key != NULL failed!\r\n"
  appendCopy debug h (root + 12) key 20 answer

/-- The cleared record and the copy of the name that both functions make. -/
def newRecord (h : Heap) (answers : Answers) (name : CString) (message : String) :
    Outcome (Nat × Heap) := do
  let (record, h) ← mmAllocateZero h answers.record 20
  let (copy, h) ← mmAllocate h answers.name (name.chars.length + 1)
  Outcome.check (copy ≠ 0) message
  let m := h.storage.setWord record copy
  .ok (record, { h with storage := m.store copy (name.chars ++ [0]) })

def keCreateRegistryGroup (debug : Bool) (h : Heap) (answers : Answers) (root : Nat)
    (name : CString) : Outcome (Nat × Heap) := do
  Outcome.check (debug = true → root ≠ 0) "Assertion root != NULL && name != NULL failed!\r\n"
  Outcome.check (name.chars.length < 16) "Length exceeds max registry name\r\n"
  Outcome.check (name.chars.length ≠ 0) "Zero-length registry path\r\n"
  let (group, h) ← newRecord h answers name "Out of memory\r\n"
  if root ≠ 0 then keAddRegistryGroupToGroup debug h answers.array root group
  else .ok (group, h)

def keCreateRegistryKey (debug : Bool) (h : Heap) (answers : Answers) (root : Nat)
    (name : CString) : Outcome (Nat × Heap) := do
  Outcome.check (debug = true → root ≠ 0) "Assertion root != NULL && name != NULL failed!\r\n"
  Outcome.check (name.chars.length < 16) "Length exceeds max registry key"
  let (key, h) ← newRecord h answers name "Out of memory"
  if root ≠ 0 then keAddRegistryKeyToGroup debug h answers.array root key
  else .ok (key, h)

/-- "HKEY" in EBCDIC. -/
def hkey : CString := ⟨[0xC8, 0xD2, 0xC5, 0xE8], by decide⟩

def keInitRegistry (debug : Bool) (h : Heap) (answers : Answers) : Outcome (Nat × Heap) :=
  keCreateRegistryGroup debug h answers 0 hkey

inductive Kind where
  | group
  | key
deriving DecidableEq, Repr

/-- A group or key to be created in the group that the call before, by its
number, or `none` for the root group. -/
structure Creation where
  kind : Kind
  parent : Option Nat
  name : CString
deriving DecidableEq

structure Call where
  creation : Creation
  answers : Answers

/-- The heap, what was created, and the pointers that were returned for it. -/
structure State where
  heap : Heap
  made : List Creation
  pointers : List Nat

def logOf (made : List Creation) : Log Kind := made.map fun c => (c.parent, c.kind)

/-- The pointer that a call passes as its root. -/
def rootArgument (root : Nat) (s : State) : Option Nat → Nat
  | none => root
  | some i => s.pointers.getD i 0

/-- The function that a call is of. -/
def create (debug : Bool) (h : Heap) (call : Call) (argument : Nat) : Outcome (Nat × Heap) :=
  match call.creation.kind with
  | .group => keCreateRegistryGroup debug h call.answers argument call.creation.name
  | .key => keCreateRegistryKey debug h call.answers argument call.creation.name

@[irreducible] def step (debug : Bool) (root : Nat) (s : State) (call : Call) : Outcome State := do
  let (pointer, heap) ← create debug s.heap call (rootArgument root s call.creation.parent)
  .ok ⟨heap, s.made ++ [call.creation], s.pointers ++ [pointer]⟩

/-- A group: its name, its groups and the names of its keys. -/
inductive Group where
  | mk (name : List UInt8) (groups : List Group) (keys : List (List UInt8))

/-- The tree of groups that is found from a group record, to a depth. -/
def readGroup (m : Storage) : Nat → Nat → Group
  | 0, _ => .mk [] [] []
  | depth + 1, a => .mk (text m 16 (word m a))
      ((List.range (word m (a + 8))).map fun i => readGroup m depth (word m (a + 4) + i * 20))
      ((List.range (word m (a + 16))).map fun i =>
        text m 16 (word m (word m (a + 12) + i * 20)))

def nameOf (made : List Creation) : Option Nat → List UInt8
  | none => hkey.chars
  | some i => ((made[i]?).map fun c => c.name.chars).getD []

/-- The tree of what was created: each group holds what was created in it. -/
def created (made : List Creation) : Nat → Option Nat → Group
  | 0, _ => .mk [] [] []
  | depth + 1, p => .mk (nameOf made p)
      ((children (logOf made) p .group).map fun i => created made depth (some i))
      ((children (logOf made) p .key).map fun i => nameOf made (some i))

def layout : Layout Kind where
  width _ := 20
  field
    | .group, .group => some 4
    | .group, .key => some 12
    | .key, _ => none
  positive _ := by decide
  fits {k l off} h := by
    cases k with
    | group => cases l <;> cases h <;> decide
    | key => cases h
  fieldsApart {k l l' off off'} h h' differ := by
    cases k with
    | group => cases l <;> cases l' <;> cases h <;> cases h' <;> first | decide | exact absurd rfl differ
    | key => cases h

theorem behind_name {k l : Kind} {off : Nat} (field : layout.field k l = some off) : 4 ≤ off := by
  cases k with
  | group => cases l <;> cases field <;> decide
  | key => cases field

/-- What every state reached holds: the tree of what was created is in storage,
and pointers to the newest records of their arrays are right. -/
structure Holds (root : Nat) (s : State) (base : Option Nat × Kind → Nat) : Prop where
  laid : Laid layout .group root s.heap (logOf s.made) base
  tracked : Tracked layout root (logOf s.made) base s.pointers
  named : ∀ p k, kindOf .group (logOf s.made) p = some k →
    Named root s.heap (logOf s.made) base (place layout root (logOf s.made) base p)
      (nameOf s.made p)
  short : ∀ c ∈ s.made, c.name.chars.length < 16

theorem nameOf_short {s : State} {root : Nat} {base : Option Nat × Kind → Nat}
    (holds : Holds root s base) (p : Option Nat) :
    (nameOf s.made p).length < 16 ∧ 0 ∉ nameOf s.made p := by
  cases p with
  | none => exact (by decide : hkey.chars.length < 16 ∧ 0 ∉ hkey.chars)
  | some i =>
    rw [nameOf]
    cases here : s.made[i]? with
    | none => simp
    | some c => exact ⟨holds.short c (List.mem_of_getElem? here), c.name.noNul⟩

theorem Holds.text_eq {s : State} {root : Nat} {base : Option Nat × Kind → Nat} {p : Option Nat}
    {k : Kind} (holds : Holds root s base) (known : kindOf .group (logOf s.made) p = some k) :
    text s.heap.storage 16 (word s.heap.storage (place layout root (logOf s.made) base p)) =
      nameOf s.made p := by
  have short := nameOf_short holds p
  exact Storage.text_eq (holds.named p k known).chars short.2 short.1

/-- The tree that is found in storage is the tree of what was created. -/
theorem Holds.readGroup_eq {s : State} {root : Nat} {base : Option Nat × Kind → Nat}
    (holds : Holds root s base) (depth : Nat) {p : Option Nat}
    (known : kindOf .group (logOf s.made) p = some .group) :
    readGroup s.heap.storage depth (place layout root (logOf s.made) base p) =
      created s.made depth p := by
  induction depth generalizing p with
  | zero => rfl
  | succ depth ih =>
    have kind : ∀ i k, (logOf s.made)[i]? = some (p, k) →
        kindOf .group (logOf s.made) (some i) = some k := by
      intro i k here
      rw [kindOf, here]
      rfl
    have groups := map_children (readGroup s.heap.storage depth)
      (fun i => created s.made depth (some i)) fun i here => ih (kind i .group here)
    have keys := map_children (fun a => text s.heap.storage 16 (word s.heap.storage a))
      (fun i => nameOf s.made (some i)) fun i here => holds.text_eq (kind i .key here)
    have groupsAt := holds.laid.pointer known (l := .group) rfl
    have groupsCount := holds.laid.count known (l := .group) rfl
    have keysAt := holds.laid.pointer known (l := .key) rfl
    have keysCount := holds.laid.count known (l := .key) rfl
    simp only [Nat.add_assoc, Nat.reduceAdd] at groupsCount keysCount
    rw [readGroup, created, holds.text_eq known, groupsAt, groupsCount, keysAt, keysCount]
    exact congrArg₂ (Group.mk (nameOf s.made p)) groups keys

/-- The answers for the record and its name are NULL or fresh blocks. -/
def SuppliedRecord (h : Heap) (answers : Answers) (name : CString) : Prop :=
  answers.record = 0 ∨ h.Fresh (answers.record, 20) ∧
    (answers.name = 0 ∨ (h.hold (answers.record, 20)).Fresh (answers.name, name.chars.length + 1))

/-- A record and its name stand in fresh blocks, and nothing else has changed. -/
structure Prepared (h h' : Heap) (answers : Answers) (name : CString) : Prop where
  live : h'.live = (answers.name, name.chars.length + 1) :: (answers.record, 20) :: h.live
  freshRecord : h.Fresh (answers.record, 20)
  freshName : (h.hold (answers.record, 20)).Fresh (answers.name, name.chars.length + 1)
  kept : ∀ a, h.Held a → h'.storage a = h.storage a
  pointer : word h'.storage answers.record = answers.name
  clear : ∀ i, 4 ≤ i → i < 20 → h'.storage (answers.record + i) = 0
  chars : h'.storage.bytes answers.name (name.chars.length + 1) = name.chars ++ [0]

theorem newRecord_sound {h : Heap} {answers : Answers} {name : CString} (message : String)
    (supplied : SuppliedRecord h answers name) :
    Outcome.Sound (fun r => r.1 = answers.record ∧ Prepared h r.2 answers name)
      (newRecord h answers name message) := by
  refine (mmAllocateZero_sound h answers.record 20).bind ?_
  rintro ⟨_, _⟩ ⟨some, -, same⟩
  cases same
  obtain ⟨freshRecord, suppliedName⟩ := supplied.resolve_left some
  refine (mmAllocate_sound _ answers.name _).bind ?_
  rintro ⟨_, after⟩ ⟨rfl, held⟩
  refine (Outcome.sound_check _).bind fun _ someName => ⟨rfl, ?_⟩
  have freshName := suppliedName.resolve_left someName
  have heap : after = _ := held someName
  subst heap
  have apart := freshName.2 (answers.record, 20) List.mem_cons_self
  have range := freshName.1
  simp only [Heap.Apart, Heap.Proper] at apart range
  have text : ∀ x, x < answers.name ∨ answers.name + (name.chars.length + 1) ≤ x →
      Storage.store (setWord (fill h.storage answers.record 0 20) answers.record answers.name)
        answers.name (name.chars ++ [0]) x =
      setWord (fill h.storage answers.record 0 20) answers.record answers.name x := by
    intro x outside
    exact store_outside _ (by simpa using outside)
  refine ⟨rfl, freshRecord, freshName, ?_, ?_, ?_, ?_⟩
  · intro a inUse
    have offRecord := freshRecord.not_held inUse
    have offName := freshName.not_held (inUse.hold (b := (answers.record, 20)))
    simp only at offRecord offName
    refine (text a offName).trans ?_
    rw [setWord_outside _ (by omega), fill_outside _ offRecord]
  · refine (word_congr fun i hi => text _ (by omega)).trans ?_
    exact word_setWord _ _ (by omega)
  · intro i lo hi
    refine (text _ (by omega)).trans ?_
    rw [setWord_outside _ (by omega), fill_inside _ hi]
  · have stored := store_bytes (setWord (fill h.storage answers.record 0 20) answers.record
      answers.name) answers.name (name.chars ++ [0])
    rw [List.length_append, List.length_singleton] at stored
    exact stored

theorem Prepared.sane {h h' : Heap} {answers : Answers} {name : CString}
    (prepared : Prepared h h' answers name) (sane : h.Sane) : h'.Sane := by
  have both := (sane.hold prepared.freshRecord).hold prepared.freshName
  exact ⟨by rw [prepared.live]; exact both.apart, by rw [prepared.live]; exact both.proper⟩

section
variable {debug : Bool} {root : Nat} {s : State} {base : Option Nat × Kind → Nat}

/-- Preparing a record changes nothing in the tree. -/
theorem Holds.prepared {h' : Heap} {answers : Answers} {name : CString} (holds : Holds root s base)
    (prepared : Prepared s.heap h' answers name) : Holds root { s with heap := h' } base := by
  have live : ∀ x ∈ s.heap.live, x ∈ h'.live := by
    intro x hx
    rw [prepared.live]
    exact List.mem_cons_of_mem _ (List.mem_cons_of_mem _ hx)
  have touched : Touched layout s.heap h' (place layout root (logOf s.made) base none) .group :=
    ⟨prepared.sane holds.laid.sane, live, fun a held _ => prepared.kept a held⟩
  refine ⟨holds.laid.touched rfl touched, holds.tracked, ?_, holds.short⟩
  intro p k known
  refine (holds.named p k known).kept (fun i hi => ?_) fun x away =>
    holds.laid.touched_outside rfl touched away
  obtain ⟨n, block, lo, hi'⟩ := holds.laid.in_block known
  have width : layout.width k = 20 := rfl
  exact prepared.kept _ ⟨_, block, by simp only; omega, by simp only; omega⟩

theorem Prepared.outside_new {h' : Heap} {answers : Answers} {name : CString}
    (holds : Holds root s base) (prepared : Prepared s.heap h' answers name) :
    Outside root h' (logOf s.made) base (answers.record, 20) ∧
      Outside root h' (logOf s.made) base (answers.name, name.chars.length + 1) := by
  have laid := holds.laid
  have held := laid.sane.hold prepared.freshRecord
  refine ⟨⟨by rw [prepared.live]; simp, ?_, ?_⟩, ⟨by rw [prepared.live]; simp, ?_, ?_⟩⟩
  · exact (prepared.freshRecord.start_ne laid.rootHeld laid.sane).symm
  · exact fun e member => (prepared.freshRecord.start_ne (laid.held e member) laid.sane).symm
  · exact (prepared.freshName.start_ne (List.mem_cons_of_mem _ laid.rootHeld) held).symm
  · exact fun e member =>
      (prepared.freshName.start_ne (List.mem_cons_of_mem _ (laid.held e member)) held).symm

/-- Adding the prepared record to the arrays of its parent. -/
theorem Holds.add {h' : Heap} {answers : Answers} {c : Creation} {off : Nat}
    (holds : Holds root s base) (prepared : Prepared s.heap h' answers c.name)
    (known : kindOf .group (logOf s.made) c.parent = some .group)
    (field : layout.field .group c.kind = some off) (short : c.name.chars.length < 16)
    (placed : Placed h' answers.array (base (c.parent, c.kind))
      (((logOf s.made).count (c.parent, c.kind) + 1) * 20)) :
    Outcome.Sound (fun r => ∃ base',
        Holds root ⟨r.2, s.made ++ [c], s.pointers ++ [r.1]⟩ base')
      (appendCopy debug h' (place layout root (logOf s.made) base c.parent + off) answers.record 20
        answers.array) := by
  have before := holds.prepared prepared
  obtain ⟨record, copy⟩ := prepared.outside_new holds
  have clear : ∀ l' off', layout.field c.kind l' = some off' → ∀ i, i < 8 →
      h'.storage (answers.record + (off' + i)) = 0 := by
    intro l' off' field' i hi
    have fits := layout.fits field'
    have behindName := behind_name field'
    have width : layout.width c.kind = 20 := rfl
    exact prepared.clear _ (by omega) (by omega)
  refine (appendCopy_added debug before.laid known field record clear placed).mono ?_
  rintro ⟨pointer, h2⟩ ⟨rfl, added⟩
  refine ⟨Function.update base (c.parent, c.kind) answers.array, ?_⟩
  have log : logOf (s.made ++ [c]) = logOf s.made ++ [(c.parent, c.kind)] := by simp [logOf]
  refine ⟨by rw [log]; exact added.laid, by rw [log]; exact before.tracked.append _ _ _, ?_, ?_⟩
  · intro q k knownQ
    simp only [log] at knownQ ⊢
    rcases kindOf_snoc knownQ with old | ⟨rfl, rfl⟩
    · have sameName : nameOf (s.made ++ [c]) q = nameOf s.made q := by
        cases q with
        | none => rfl
        | some i =>
          have inLog : i < s.made.length := by simpa [logOf] using kindOf_lt old
          rw [nameOf, nameOf, List.getElem?_append_left inLog]
      rw [sameName]
      refine (before.named q k old).kept (fun i hi => ?_) fun x away => added.outside x away
      exact added.record old
        (by have : layout.width k = 20 := rfl
            omega)
        fun _ => Or.inl (Nat.lt_of_lt_of_le hi (behind_name field))
    · have newName : nameOf (s.made ++ [c]) (some (logOf s.made).length) = c.name.chars := by
        have length : (logOf s.made).length = s.made.length := by simp [logOf]
        rw [nameOf, length, List.getElem?_concat_length]
        rfl
      have pointer : word h2.storage (answers.array + (logOf s.made).count (c.parent, c.kind) * 20) =
          answers.name := by
        rw [← prepared.pointer]
        exact word_congr fun i hi => added.content i (by
          have : layout.width c.kind = 20 := rfl
          omega)
      obtain ⟨block, chars⟩ := added.outside _ copy
      rw [place_append_new, newName]
      refine ⟨pointer ▸ block, ?_⟩
      refine Eq.trans ?_ prepared.chars
      have at0 := congrArg (fun a => h2.storage.bytes a (c.name.chars.length + 1)) pointer
      refine at0.trans (bytes_congr fun i hi => ?_)
      exact chars _ (Nat.le_add_right _ _) (Nat.add_lt_add_left hi _)
  · intro d member
    rcases List.mem_append.mp member with old | new
    · exact holds.short d old
    · rw [List.mem_singleton.mp new]
      exact short

end

/-- Where a group describes the array of its groups, and that of its keys. -/
def arrayField : Kind → Nat
  | .group => 4
  | .key => 12

/-- The answers for a call are NULL or fresh blocks, and the one for the array
is placed below the array that it replaces. -/
def Supplied (s : State) (argument : Nat) (call : Call) : Prop :=
  let c := call.creation
  let field := argument + arrayField c.kind
  SuppliedRecord s.heap call.answers c.name ∧
    (call.answers.record ≠ 0 → call.answers.name ≠ 0 →
      Placed ((s.heap.hold (call.answers.record, 20)).hold
          (call.answers.name, c.name.chars.length + 1)) call.answers.array
        (word s.heap.storage field) ((word s.heap.storage (field + 4) + 1) * 20))

/-- The parent is the root or a group that was created. -/
def Allowed (s : State) (call : Call) : Prop :=
  kindOf .group (logOf s.made) call.creation.parent = some .group

/-- The parent is the root or the group that was last added to its array. -/
def FromNewest (s : State) (call : Call) : Prop :=
  ∀ i ∈ call.creation.parent, Newest (logOf s.made) i

instance (s : State) (call : Call) : Decidable (Allowed s call) :=
  inferInstanceAs (Decidable (_ = _))

instance (s : State) (call : Call) : Decidable (FromNewest s call) :=
  inferInstanceAs (Decidable (∀ i ∈ call.creation.parent, Newest (logOf s.made) i))

instance (h : Heap) (answers : Answers) (name : CString) :
    Decidable (SuppliedRecord h answers name) := inferInstanceAs (Decidable (_ ∨ _))

instance (s : State) (argument : Nat) (call : Call) : Decidable (Supplied s argument call) :=
  inferInstanceAs (Decidable (_ ∧ _))

/-- The condition on a call under which what it creates is found in the tree. -/
def Clear (root : Nat) (s : State) (call : Call) : Prop :=
  Allowed s call ∧ FromNewest s call ∧
    Supplied s (rootArgument root s call.creation.parent) call

instance (root : Nat) (s : State) (call : Call) : Decidable (Clear root s call) :=
  inferInstanceAs (Decidable (_ ∧ _))

section
variable {debug : Bool} {root : Nat} {s : State} {base : Option Nat × Kind → Nat}

theorem Holds.rootArgument_eq (holds : Holds root s base) {p : Option Nat}
    (known : kindOf .group (logOf s.made) p = some .group)
    (newest : ∀ i ∈ p, Newest (logOf s.made) i) :
    rootArgument root s p = place layout root (logOf s.made) base p := by
  cases p with
  | none => rfl
  | some i =>
    have inPointers : i < s.pointers.length := by
      rw [holds.tracked.length]
      exact kindOf_lt known
    have here := List.getElem?_eq_getElem inPointers
    rw [rootArgument, List.getD_eq_getElem?_getD, here]
    exact holds.tracked.right (newest i rfl) here

theorem place_ne_zero (holds : Holds root s base) {p : Option Nat} {k : Kind}
    (known : kindOf .group (logOf s.made) p = some k) :
    place layout root (logOf s.made) base p ≠ 0 := by
  obtain ⟨n, live, lo, -⟩ := holds.laid.in_block known
  have positive := (holds.laid.sane.proper _ live).1
  simp only at positive
  omega

theorem Holds.placed (holds : Holds root s base) {call : Call} (clear : Clear root s call)
    {h' : Heap} (prepared : Prepared s.heap h' call.answers call.creation.name) :
    Placed h' call.answers.array (base (call.creation.parent, call.creation.kind))
      (((logOf s.made).count (call.creation.parent, call.creation.kind) + 1) * 20) := by
  obtain ⟨known, newest, supplied, placed⟩ := clear
  have field : layout.field .group call.creation.kind =
      some (arrayField call.creation.kind) := by
    cases call.creation.kind with
    | group => rfl
    | key => rfl
  have record := prepared.freshRecord.1.1
  have name := prepared.freshName.1.1
  have given := placed (Nat.ne_of_gt record) (Nat.ne_of_gt name)
  rw [holds.rootArgument_eq known newest, holds.laid.pointer known field,
    holds.laid.count known field] at given
  exact given.of_live prepared.live

/-- Creating a group or key keeps the tree of what was created in storage. -/
theorem step_holds (holds : Holds root s base) (call : Call) (clear : Clear root s call) :
    Outcome.Sound (fun t => ∃ base', Holds root t base') (step debug root s call) := by
  have argument := holds.rootArgument_eq clear.1 clear.2.1
  have notNull := place_ne_zero holds clear.1
  have add : ∀ {off} (h' : Heap), Prepared s.heap h' call.answers call.creation.name →
      layout.field .group call.creation.kind = some off →
      call.creation.name.chars.length < 16 →
      Outcome.Sound (fun r => ∃ base', Holds root
          ⟨r.2, s.made ++ [call.creation], s.pointers ++ [r.1]⟩ base')
        (appendCopy debug h'
          (place layout root (logOf s.made) base call.creation.parent + off) call.answers.record
          20 call.answers.array) :=
    fun h' prepared field short => holds.add prepared clear.1 field short
      (holds.placed clear prepared)
  have supplied := clear.2.2.1
  obtain ⟨⟨kind, parent, name⟩, answers⟩ := call
  simp only at argument add supplied notNull
  simp only [step, create, argument]
  cases kind with
  | group =>
    have made : Outcome.Sound (fun r => ∃ base', Holds root
        ⟨r.2, s.made ++ [⟨.group, parent, name⟩], s.pointers ++ [r.1]⟩ base')
        (keCreateRegistryGroup debug s.heap answers
          (place layout root (logOf s.made) base parent) name) := by
      refine (Outcome.sound_check _).bind fun _ _ => ?_
      refine (Outcome.sound_check _).bind fun _ short => ?_
      refine (Outcome.sound_check _).bind fun _ _ => ?_
      refine (newRecord_sound _ supplied).bind ?_
      rintro ⟨_, h'⟩ ⟨rfl, prepared⟩
      dsimp only
      rw [if_pos notNull]
      exact (Outcome.sound_check _).bind fun _ _ => add h' prepared rfl short
    exact made.bind fun _ kept => kept
  | key =>
    have made : Outcome.Sound (fun r => ∃ base', Holds root
        ⟨r.2, s.made ++ [⟨.key, parent, name⟩], s.pointers ++ [r.1]⟩ base')
        (keCreateRegistryKey debug s.heap answers
          (place layout root (logOf s.made) base parent) name) := by
      refine (Outcome.sound_check _).bind fun _ _ => ?_
      refine (Outcome.sound_check _).bind fun _ short => ?_
      refine (newRecord_sound _ supplied).bind ?_
      rintro ⟨_, h'⟩ ⟨rfl, prepared⟩
      dsimp only
      rw [if_pos notNull]
      exact (Outcome.sound_check _).bind fun _ _ => add h' prepared rfl short
    exact made.bind fun _ kept => kept

theorem step_records (s : State) (call : Call) (t : State) (ran : step debug root s call = .ok t) :
    t.made = s.made ++ [call.creation] := by
  rw [step] at ran
  obtain ⟨r, -, last⟩ := Outcome.bind_eq_ok.mp ran
  cases last
  rfl

/-- The registry as it is initialised holds the tree of no creations. -/
theorem keInitRegistry_holds {h : Heap} {answers : Answers} (sane : h.Sane)
    (supplied : SuppliedRecord h answers hkey) :
    Outcome.Sound (fun r => Holds r.1 ⟨r.2, [], []⟩ fun _ => 0) (keInitRegistry debug h answers) := by
  refine (Outcome.sound_check _).bind fun _ _ => ?_
  refine (Outcome.sound_check _).bind fun _ _ => ?_
  refine (Outcome.sound_check _).bind fun _ _ => ?_
  refine (newRecord_sound _ supplied).bind ?_
  rintro ⟨_, h'⟩ ⟨rfl, prepared⟩
  have block : (answers.record, layout.width .group) ∈ h'.live := by
    rw [prepared.live]
    exact List.mem_cons_of_mem _ List.mem_cons_self
  have clear : ∀ off, 4 ≤ off → off + 4 ≤ 20 → word h'.storage (answers.record + off) = 0 := by
    intro off lo hi
    apply word_zero
    intro i small
    rw [Nat.add_assoc]
    exact prepared.clear _ (by omega) (by omega)
  have nameApart : answers.name ≠ answers.record :=
    (prepared.freshName.start_ne List.mem_cons_self (sane.hold prepared.freshRecord)).symm
  have pointer : word h'.storage answers.record = answers.name := prepared.pointer
  refine ⟨Laid.empty (prepared.sane sane) block ?_, Tracked.empty, ?_, ?_⟩
  · intro l off field
    have lo := behind_name field
    have hi : off + 8 ≤ 20 := layout.fits field
    exact ⟨clear off lo (by omega), clear (off + 4) (by omega) (by omega)⟩
  · intro p k known
    obtain ⟨rfl, rfl⟩ := kindOf_nil known
    refine ⟨⟨?_, ?_, fun e member => by cases member⟩, ?_⟩
    · rw [place, pointer, prepared.live]
      exact List.mem_cons_self
    · rw [place, pointer]
      exact nameApart
    · rw [place, pointer]
      exact prepared.chars
  · intro c member
    cases member

theorem run_holds {h h' : Heap} {answers : Answers} (sane : h.Sane)
    (supplied : SuppliedRecord h answers hkey)
    (initialised : keInitRegistry debug h answers = .ok (root, h')) {calls : List Call}
    (clear : Runs.Meets (step debug root) (Clear root) ⟨h', [], []⟩ calls) :
    Outcome.Sound (fun s => ∃ base, Holds root s base)
      (Runs.run (step debug root) ⟨h', [], []⟩ calls) := by
  have start : Outcome.Sound (fun r => Holds r.1 ⟨r.2, [], []⟩ fun _ => 0)
      (keInitRegistry debug h answers) := keInitRegistry_holds sane supplied
  rw [initialised] at start
  have keep : ∀ s call, (∃ base, Holds root s base) → Clear root s call →
      Outcome.Sound (fun t => ∃ base, Holds root t base) (step debug root s call) :=
    fun s call ⟨_, holds⟩ ok => step_holds holds call ok
  exact Runs.run_sound keep ⟨_, start⟩ clear

/-- The registry holds what was created: in every run of creations whose
parents are the root or the newest group of an array, and whose blocks are
fresh and below the arrays they replace, the tree that is found from the root
is the tree of all creations. -/
theorem registry_complete {h h' : Heap} {answers : Answers} (sane : h.Sane)
    (supplied : SuppliedRecord h answers hkey)
    (initialised : keInitRegistry debug h answers = .ok (root, h')) (calls : List Call)
    (clear : Runs.Meets (step debug root) (Clear root) ⟨h', [], []⟩ calls) :
    Outcome.Sound (fun s => ∀ depth,
        readGroup s.heap.storage depth root = created (calls.map Call.creation) depth none)
      (Runs.run (step debug root) ⟨h', [], []⟩ calls) := by
  refine (run_holds sane supplied initialised clear).strengthen fun s ran ⟨base, holds⟩ depth => ?_
  have made : s.made = calls.map Call.creation := Runs.run_records step_records ran
  rw [← made]
  exact holds.readGroup_eq depth (p := none) rfl

end

/-- Storage of which nothing is in use. -/
def unused : Heap := ⟨fun _ => 0, []⟩

/-- A release build with its root group at 1000. -/
def booted : Heap :=
  match keInitRegistry false unused ⟨1000, 900, 0⟩ with
  | .ok (_, h) => h
  | _ => unused

theorem booted_initialised : keInitRegistry false unused ⟨1000, 900, 0⟩ = .ok (1000, booted) := rfl

theorem unused_sane : unused.Sane := ⟨List.Pairwise.nil, fun x member => by cases member⟩

def nameA : CString := ⟨[0xC1], by decide⟩
def nameB : CString := ⟨[0xC2], by decide⟩
def nameK : CString := ⟨[0xD2], by decide⟩

def createA : Call := ⟨⟨.group, none, nameA⟩, ⟨800, 700, 600⟩⟩
def createB : Call := ⟨⟨.group, none, nameB⟩, ⟨500, 450, 400⟩⟩

/-- A key in the group that was created first. -/
def createK : Call := ⟨⟨.key, some 0, nameK⟩, ⟨300, 250, 200⟩⟩

/-- The key is created before the second group. -/
theorem key_before_group_complete :
    ∃ s, Runs.run (step false 1000) ⟨booted, [], []⟩ [createA, createK, createB] = .ok s ∧
      ∀ depth, readGroup s.heap.storage depth 1000 =
        created ([createA, createK, createB].map Call.creation) depth none :=
  (registry_complete unused_sane (by decide) booted_initialised [createA, createK, createB]
    (by decide +kernel)).returned (by decide +kernel)

def Group.keysOfFirst : Group → List (List UInt8)
  | .mk _ (.mk _ _ keys :: _) _ => keys
  | _ => []

/-- The second group moves the first one, and the key that is then created
through the pointer to the first one is in no group of the tree. -/
theorem key_after_group_lost :
    Runs.Meets (step false 1000) (fun s call => Allowed s call ∧
        Supplied s (rootArgument 1000 s call.creation.parent) call) ⟨booted, [], []⟩
        [createA, createB, createK] ∧
      ¬ Outcome.Sound (fun s => ∀ depth, readGroup s.heap.storage depth 1000 =
          created ([createA, createB, createK].map Call.creation) depth none)
        (Runs.run (step false 1000) ⟨booted, [], []⟩ [createA, createB, createK]) := by
  refine ⟨by decide +kernel, fun complete => ?_⟩
  have keys : Outcome.Sound (fun s => (readGroup s.heap.storage 2 1000).keysOfFirst =
      (created ([createA, createB, createK].map Call.creation) 2 none).keysOfFirst)
      (Runs.run (step false 1000) ⟨booted, [], []⟩ [createA, createB, createK]) :=
    complete.mono fun s same => congrArg Group.keysOfFirst (same 2)
  exact absurd keys (by decide +kernel)

end Registry
