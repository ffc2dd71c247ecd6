import UDos.Kernel.Memory
import UDos.Library.Buffer
import UDos.Library.Runs

/-!
# Lists of the runtime library

`LIST_PUSH` and `LIST_POP` of `list.h`. A block is the bytes it has, and an
access outside it is a fault. Both macros ask for as many bytes as there are to
be elements, and both use the element behind the last one.
-/

namespace RtlList

open KernelMemory (u32)

/-- A list: the block that `elems` points to, none for NULL, and the count. -/
structure ElemList where
  elems : Option (List UInt8)
  nElems : Nat

def ElemList.bytes (list : ElemList) : List UInt8 := list.elems.getD []

def emptyList : ElemList := ⟨none, 0⟩

/-- `RtlReallocateMemory` on a block and a number of bytes. -/
abbrev Reallocator := Option (List UInt8) → Nat → Option (List UInt8)

/-- It returns a block of that many bytes, which begins as the old one does. -/
def Reallocates (rtlReallocateMemory : Reallocator) : Prop :=
  ∀ old n, ∃ new, rtlReallocateMemory old n = some new ∧ new.length = n ∧
    new.take (old.getD []).length = (old.getD []).take n

/-- The n bytes of a block from index i on. -/
def load (s : List UInt8) (i n : Nat) : Outcome (List UInt8) :=
  if i + n ≤ s.length then .ok ((s.drop i).take n) else .fault

section
variable (rtlReallocateMemory : Reallocator) (size : Nat) (list : ElemList)

/-- `LIST_PUSH` of an element of this size; `fail_cb` is taken not to go on. -/
def listPush (newElem : List UInt8) : Outcome ElemList :=
  match rtlReallocateMemory list.elems (u32 (list.nElems + 1)) with
  | none => .panic "fail_cb"
  | some elems => do
    let elems ← Buffer.storeAll elems (list.nElems * size) newElem
    .ok ⟨some elems, u32 (list.nElems + 1)⟩

/-- `LIST_POP`: the element and the list. -/
def listPop : Outcome (List UInt8 × ElemList) := do
  let oldElem ← load list.bytes (list.nElems * size) size
  match rtlReallocateMemory list.elems (u32 (list.nElems + 4294967295)) with
  | none => .panic "fail_cb"
  | some elems => .ok (oldElem, ⟨some elems, u32 (list.nElems + 4294967295)⟩)

/-- The elements, one after the other. -/
def elements : List UInt8 := list.bytes.take (list.nElems * size)

/-- A push and a pop give the element back and leave the list as it was, with
all that they read and write inside its block. -/
def RoundTrips (e : List UInt8) : Prop :=
  ∃ pushed popped, listPush rtlReallocateMemory size list e = .ok pushed ∧
    pushed.nElems * size ≤ pushed.bytes.length ∧
    listPop rtlReallocateMemory size pushed = .ok (e, popped) ∧
    popped.nElems = list.nElems ∧ elements size popped = elements size list

end

section
variable {rtlReallocateMemory : Reallocator} {size : Nat} {list pushed : ElemList}
  {e : List UInt8}

theorem u32_le (n : Nat) : u32 n ≤ n := Nat.mod_le _ _

theorem size_of_fits {n : Nat} (positive : 0 < size) (fits : n * size + size ≤ u32 (n + 1)) :
    size = 1 ∧ n + 1 < 4294967296 := by
  have wraps := u32_le (n + 1)
  have single : size = 1 := by
    have bound : (n + 1) * size ≤ (n + 1) * 1 := by
      rw [Nat.succ_mul]
      omega
    have small := Nat.le_of_mul_le_mul_left bound (Nat.succ_pos n)
    omega
  refine ⟨single, ?_⟩
  rw [single, Nat.mul_one] at fits
  unfold u32 at fits
  omega

theorem storeAll_fits {s cs s' : List UInt8} {i : Nat} (some : cs ≠ [])
    (stored : Buffer.storeAll s i cs = .ok s') : i + cs.length ≤ s.length := by
  by_contra overrun
  rw [Buffer.storeAll_overflow some (Nat.not_le.mp overrun)] at stored
  exact nomatch stored

theorem store_last {s : List UInt8} {n : Nat} (length : s.length = n + 1) (b : UInt8) :
    Buffer.storeAll s n [b] = .ok (s.take n ++ [b]) := by
  have inside : n < s.length := by omega
  have last : s.set n b = s.take n ++ [b] := by
    rw [List.set_eq_take_append_cons_drop, if_pos inside, List.drop_eq_nil_of_le (by omega)]
  rw [Buffer.storeAll, Buffer.store, if_pos inside, last]
  rfl

theorem fits_of_listPush (reallocates : Reallocates rtlReallocateMemory) (positive : 0 < size)
    (same : e.length = size) (ran : listPush rtlReallocateMemory size list e = .ok pushed) :
    size = 1 ∧ list.nElems + 1 < 4294967296 := by
  obtain ⟨new, answer, length, _⟩ := reallocates list.elems (u32 (list.nElems + 1))
  have some : e ≠ [] := by
    rintro rfl
    rw [← same] at positive
    exact absurd positive (by decide)
  rw [listPush, answer] at ran
  obtain ⟨elems, stored, _⟩ := Outcome.bind_eq_ok.mp ran
  have fits := storeAll_fits some stored
  rw [length, same] at fits
  exact size_of_fits positive fits

theorem listPush_byte (reallocates : Reallocates rtlReallocateMemory)
    (low : list.nElems + 1 < 4294967296) (b : UInt8) :
    ∃ new : List UInt8, new.length = list.nElems + 1 ∧
      new.take list.bytes.length = list.bytes.take (list.nElems + 1) ∧
      listPush rtlReallocateMemory 1 list [b] =
        .ok ⟨some (new.take list.nElems ++ [b]), list.nElems + 1⟩ := by
  have count : u32 (list.nElems + 1) = list.nElems + 1 := Nat.mod_eq_of_lt low
  obtain ⟨new, answer, length, front⟩ := reallocates list.elems (list.nElems + 1)
  refine ⟨new, length, front, ?_⟩
  rw [listPush, count, answer]
  simp only
  rw [Nat.mul_one, store_last length b]
  rfl

/-- The block has as many bytes as the list has elements. -/
def Filled (list : ElemList) : Prop := list.bytes.length = list.nElems

theorem listPush_filled (reallocates : Reallocates rtlReallocateMemory) (positive : 0 < size)
    (same : e.length = size) (ran : listPush rtlReallocateMemory size list e = .ok pushed) :
    Filled pushed := by
  obtain ⟨rfl, low⟩ := fits_of_listPush reallocates positive same ran
  obtain ⟨b, rfl⟩ := List.length_eq_one_iff.mp same
  obtain ⟨new, length, _, made⟩ := listPush_byte reallocates low b
  cases made.symm.trans ran
  simp [Filled, ElemList.bytes, length]

theorem listPop_faults (positive : 0 < size) (filled : Filled list) :
    listPop rtlReallocateMemory size list = .fault := by
  have outside : ¬ list.nElems * size + size ≤ list.bytes.length := by
    have scaled := Nat.le_mul_of_pos_right list.nElems positive
    rw [filled]
    omega
  rw [listPop, load, if_neg outside]
  rfl

/-- No element makes the round trip through any list: the push leaves the block,
or the pop does. -/
theorem push_pop_faults (reallocates : Reallocates rtlReallocateMemory) (positive : 0 < size)
    (same : e.length = size) (list : ElemList) :
    ¬ ∃ pushed popped, listPush rtlReallocateMemory size list e = .ok pushed ∧
      listPop rtlReallocateMemory size pushed = .ok popped := by
  rintro ⟨pushed, popped, first, second⟩
  rw [listPop_faults positive (listPush_filled reallocates positive same first)] at second
  exact nomatch second

inductive Macro where
  | push (newElem : List UInt8)
  | pop

variable (rtlReallocateMemory size) in
def step (list : ElemList) : Macro → Outcome ElemList
  | .push newElem => listPush rtlReallocateMemory size list newElem
  | .pop => do
    let done ← listPop rtlReallocateMemory size list
    .ok done.2

/-- The elements pushed have the size that the list has been declared with. -/
def Typed (size : Nat) : Macro → Prop
  | .push newElem => newElem.length = size
  | .pop => True

/-- Every list that is built is filled. -/
theorem run_filled (reallocates : Reallocates rtlReallocateMemory) (positive : 0 < size)
    {macros : List Macro} (typed : ∀ m ∈ macros, Typed size m)
    (built : Runs.run (step rtlReallocateMemory size) emptyList macros = .ok list) :
    Filled list := by
  have keep : ∀ s m t, Filled s → Typed size m →
      step rtlReallocateMemory size s m = .ok t → Filled t := by
    intro s m t filled typed ran
    cases m with
    | push newElem => exact listPush_filled reallocates positive typed ran
    | pop =>
      rw [step, listPop_faults positive filled] at ran
      exact nomatch ran
  have start : Filled emptyList := rfl
  exact Runs.run_invariant_of_meets keep start (Runs.meets_of_forall typed) built

/-- No list and no element make the round trip, whatever the size of the element,
and a pop of a list that the macros built reads behind its block. -/
theorem push_pop_never (reallocates : Reallocates rtlReallocateMemory) (positive : 0 < size)
    (list : ElemList) (same : e.length = size) :
    ¬ RoundTrips rtlReallocateMemory size list e ∧
      ∀ macros, (∀ m ∈ macros, Typed size m) → ∀ built,
        Runs.run (step rtlReallocateMemory size) emptyList macros = .ok built →
          listPop rtlReallocateMemory size built = .fault := by
  refine ⟨?_, fun macros typed built ran =>
    listPop_faults positive (run_filled reallocates positive typed ran)⟩
  rintro ⟨pushed, popped, first, _, second, _⟩
  exact push_pop_faults reallocates positive same list ⟨pushed, _, first, second⟩

end

/-- A reallocation that fills up with zeros. -/
def resize : Reallocator := fun old n => some (Buffer.padded n ((old.getD []).take n))

theorem resize_reallocates : Reallocates resize := by
  intro old n
  have short : ((old.getD []).take n).length ≤ n := List.length_take_le _ _
  refine ⟨_, rfl, Buffer.padded_length short, ?_⟩
  rw [Buffer.padded, List.take_append]
  by_cases grows : (old.getD []).length ≤ n
  · simp [List.take_of_length_le grows]
  · have whole : ((old.getD []).take n).length = n := by
      rw [List.length_take]
      omega
    rw [whole, Nat.sub_self, List.replicate_zero, List.take_nil, List.append_nil]
    exact List.take_of_length_le (by rw [whole]; omega)

/-- A word does not make the round trip through the empty list. -/
theorem word_never : ¬ RoundTrips resize 4 emptyList [0, 0, 0, 7] :=
  (push_pop_never resize_reallocates (Nat.succ_pos 3) emptyList (e := [0, 0, 0, 7]) rfl).1

/-- The first byte pushed is put into the block, and the pop reads the one behind it. -/
theorem byte_lost : listPush resize 1 emptyList [7] = .ok ⟨some [7], 1⟩ ∧
    listPop resize 1 ⟨some [7], 1⟩ = .fault ∧ ¬ RoundTrips resize 1 emptyList [7] := by
  have single : ([7] : List UInt8).length = 1 := rfl
  refine ⟨rfl, rfl, ?_⟩
  rintro ⟨pushed, popped, first, _, second, _⟩
  exact push_pop_faults resize_reallocates (by decide) single emptyList ⟨pushed, _, first, second⟩

end RtlList
