import UDos.Kernel.MmHeap
import UDos.Kernel.Move

/-!
# Reallocation to a block anywhere

`MmReallocate` on a heap whose blocks may lie anywhere in the 32-bit address
space. The new block overlaps no block in use, but the copy is as long as the
new block and may read behind the old one.
-/

namespace MmHeap

open KernelMemory Heap Storage

variable {h : Heap} {m : Storage} {ptr old answer size : Nat}

theorem mmFree_storage {h' : Heap} (freed : mmFree h ptr = .ok h') : h'.storage = h.storage := by
  rw [mmFree] at freed
  by_cases null : ptr = 0
  · rw [if_pos null] at freed
    cases freed
    rfl
  · rw [if_neg null, Heap.free] at freed
    split at freed
    · cases freed
      rfl
    · cases freed

theorem mmReallocate_onStorage {r : Nat × Heap} (returned : mmReallocate h answer ptr size = .ok r) :
    r.1 = (Mm.mmReallocate h.storage answer ptr size).ptr ∧
      r.2.storage = (Mm.mmReallocate h.storage answer ptr size).storage := by
  obtain ⟨⟨p, allocated⟩, first, returned⟩ := Outcome.bind_eq_ok.mp returned
  obtain ⟨_, _, first⟩ := Outcome.bind_eq_ok.mp first
  cases first
  obtain ⟨h', freed, same⟩ := Outcome.bind_eq_ok.mp returned
  cases same
  exact ⟨rfl, mmFree_storage freed⟩

theorem mmReallocate_none (newSize : 0 < size) : mmReallocate h 0 ptr size = .ok (0, h) := by
  rw [mmReallocate, mmAllocate, mmAllocatePhysical, Outcome.check_of (by omega)]
  by_cases first : ptr = 0
  · simp [Mm.mmReallocate, first, mmFree]
  · simp [Mm.mmReallocate, first, mmFree]

theorem mmReallocate_some (block : ptr = 0 ∨ (ptr, old) ∈ h.live) (placed : answer ≠ 0)
    (newSize : 0 < size) :
    ∃ h', mmReallocate h answer ptr size = .ok (answer, h') ∧
      ∀ x, x ∈ h'.live ↔ (x = (answer, size) ∨ x ∈ h.live) ∧ (ptr = 0 ∨ x.1 ≠ ptr) := by
  by_cases first : ptr = 0
  · subst first
    refine ⟨_, mmReallocate_hold placed newSize, fun x => ?_⟩
    rw [and_iff_left (Or.inl rfl)]
    exact List.mem_cons
  · refine ⟨_, mmReallocate_eq (block.resolve_left first) first placed newSize rfl, fun x => ?_⟩
    rw [List.mem_filter, List.mem_cons, decide_eq_true_iff, or_iff_right first]

/-- What a reallocation returns: NULL on the heap as it was, or a block with the
contents of the old one at its front, the old one returned and every byte
outside the new one kept. -/
def Reallocates (h : Heap) (ptr old size : Nat) (r : Nat × Heap) : Prop :=
  r.1 = 0 ∧ r.2 = h ∨
  r.1 ≠ 0 ∧ (∀ i, i < min old size → r.2.storage (r.1 + i) = h.storage (ptr + i)) ∧
    (∀ x, x ∈ r.2.live ↔ x = (r.1, size) ∨ x ∈ h.live ∧ x.1 ≠ ptr) ∧
    ∀ a, a < r.1 ∨ r.1 + size ≤ a → r.2.storage a = h.storage a

/-- The allocator's answer: NULL, or a block apart from those in use. -/
def Answered (h : Heap) (answer size : Nat) : Prop :=
  answer = 0 ∨ answer + size ≤ 4294967296 ∧ ∀ x ∈ h.live, Apart (answer, size) x

instance (h : Heap) (answer size : Nat) : Decidable (Answered h answer size) :=
  inferInstanceAs (Decidable (_ ∨ _))

theorem moveUp_block (room : ptr + old ≤ 4294967296) (fits : answer + size ≤ 4294967296)
    (apart : Apart (answer, size) (ptr, old)) (oldSize : 0 < old) (newSize : 0 < size) :
    (∀ i, i < min old size → (moveUp m answer ptr size).2 (answer + i) = m (ptr + i)) ∧
      ∀ a, a < answer ∨ answer + size ≤ a → (moveUp m answer ptr size).2 a = m a := by
  have loop := moveUp_copyAlong m answer ptr size
  rw [u32_eq_self (show answer < 4294967296 by omega), u32_eq_self (show ptr < 4294967296 by omega)]
    at loop
  simp only [Apart] at apart
  rw [loop]
  refine ⟨fun i inside => ?_, fun a => moveUp_outside fits⟩
  have source : above ptr i = ptr + i := above_inside room (by omega)
  rw [moveUp_read fits (by omega) fun j earlier => by omega, source]

/-- Downwards it does exactly when its first byte is there already, and nothing
else changes exactly when the bytes behind the two blocks are the same. -/
theorem moveDown_block_iff (room : ptr + old ≤ 4294967296) (fits : answer + size ≤ 4294967296)
    (apart : Apart (answer, size) (ptr, old)) (oldSize : 0 < old) (newSize : 0 < size)
    (bounded : size < 4294967296) :
    ((∀ i, i < min old size →
        (moveDown m (u32 (answer + size)) (u32 (ptr + size)) size).2 (answer + i) = m (ptr + i)) ∧
      ∀ a, a < answer ∨ answer + size ≤ a →
        (moveDown m (u32 (answer + size)) (u32 (ptr + size)) size).2 a = m a) ↔
      m answer = m ptr ∧ m (u32 (answer + size)) = m (u32 (ptr + size)) := by
  have behind_outside : u32 (answer + size) < answer ∨ answer + size ≤ u32 (answer + size) := by
    unfold u32
    omega
  rw [moveDown_copyAlong]
  have behind : copyAlong m (aboveNext answer) (aboveNext ptr) (List.range size).reverse
      (u32 (answer + size)) = m (u32 (ptr + size)) := moveDown_behind fits newSize
  have first : copyAlong m (aboveNext answer) (aboveNext ptr) (List.range size).reverse answer =
      m answer := moveDown_outside fits (by omega) (Or.inl (Nat.le_refl answer))
  simp only [Apart] at apart
  constructor
  · rintro ⟨contents, kept⟩
    have start := contents 0 (by omega)
    exact ⟨first.symm.trans start, (kept _ behind_outside).symm.trans behind⟩
  · rintro ⟨start, last⟩
    refine ⟨fun i inside => ?_, fun a outside => ?_⟩
    · cases i with
      | zero => exact first.trans start
      | succ i =>
        have target : aboveNext answer i = answer + (i + 1) := by
          rw [aboveNext_inside fits (by omega)]
          omega
        have source : aboveNext ptr i = ptr + (i + 1) := by
          rw [aboveNext_inside room (by omega)]
          omega
        rw [← target, ← source]
        refine moveDown_read fits (by omega) fun j later inBlock => ?_
        rw [source]
        unfold aboveNext u32
        omega
    · by_cases here : a = u32 (answer + size)
      · rw [here, behind, last]
      · exact moveDown_outside fits here (by omega)

/-- The answer is a fresh block from which the contents of the old one are not
lost: it lies below, or the two bytes that a move upwards in storage gets wrong
are the same. -/
def Keeping (h : Heap) (answer old size : Nat) : Prop :=
  h.Fresh (answer, size) ∧
    (old = 0 ∨ answer < old ∨ h.storage answer = h.storage old ∧
      h.storage (answer + size) = h.storage (old + size))

instance (h : Heap) (answer old size : Nat) : Decidable (Keeping h answer old size) :=
  inferInstanceAs (Decidable (_ ∧ _))

/-- A reallocation to such a block: the old block is returned, its contents are
at the front of the new one, and nothing else changes. -/
theorem mmReallocate_keeping (sane : h.Sane) (live : (ptr, old) ∈ h.live)
    (keeping : Keeping h answer ptr size) :
    ∃ m, mmReallocate h answer ptr size =
        .ok (answer, ⟨m, (answer, size) :: h.live.filter fun x => x.1 ≠ ptr⟩) ∧
      (∀ i, i < min old size → m (answer + i) = h.storage (ptr + i)) ∧
      ∀ a, a < answer ∨ answer + size ≤ a → m a = h.storage a := by
  obtain ⟨fresh, right⟩ := keeping
  have block := sane.proper _ live
  have range := fresh.1
  have apart := fresh.2 _ live
  have differ := fresh.start_ne live sane
  simp only [Proper] at block range differ
  obtain ⟨after, hafter⟩ : ∃ after, (keMoveMemory h.storage answer ptr size).2 = after := ⟨_, rfl⟩
  have kept : ((answer, size) :: h.live).filter (fun x => decide (x.1 ≠ ptr)) =
      (answer, size) :: h.live.filter fun x => decide (x.1 ≠ ptr) :=
    List.filter_cons_of_pos (by simp; omega)
  have returned := mmReallocate_eq live (by omega) (by omega) (by omega) hafter
  rw [kept] at returned
  refine ⟨after, returned, ?_⟩
  have signs : signed32 answer < signed32 ptr ↔ answer < ptr := by
    rw [signed32_eq_self (by omega) (by omega), signed32_eq_self (by omega) (by omega)]
    omega
  by_cases below : answer < ptr
  · rw [keMoveMemory, if_pos (signs.mpr below)] at hafter
    rw [← hafter]
    exact moveUp_block (by omega) (by omega) apart (by omega) (by omega)
  · rw [keMoveMemory, if_neg (mt signs.mp below)] at hafter
    have bytes := (right.resolve_left (by omega)).resolve_left below
    rw [← hafter]
    refine (moveDown_block_iff (by omega) (by omega) apart (by omega) (by omega) (by omega)).mpr ?_
    rw [u32_eq_self (show answer + size < 4294967296 by omega),
      u32_eq_self (show ptr + size < 4294967296 by omega)]
    exact bytes

/-- The old block, if any, has been replaced by a fresh one with its contents. -/
structure Replaced (h h' : Heap) (ptr old size answer : Nat) : Prop where
  fresh : h.Fresh (answer, size)
  sane : h'.Sane
  live : ∀ x, x ∈ h'.live ↔ x = (answer, size) ∨ x ∈ h.live ∧ x.1 ≠ ptr
  contents : ptr ≠ 0 → ∀ i, i < min old size → h'.storage (answer + i) = h.storage (ptr + i)
  kept : ∀ a, a < answer ∨ answer + size ≤ a → h'.storage a = h.storage a

/-- A reallocation to a fresh block that keeps the contents replaces the old one. -/
theorem mmReallocate_replaces (sane : h.Sane) (block : ptr = 0 ∨ (ptr, old) ∈ h.live)
    (keeping : Keeping h answer ptr size) :
    ∃ h', mmReallocate h answer ptr size = .ok (answer, h') ∧
      Replaced h h' ptr old size answer := by
  have fresh := keeping.1
  by_cases first : ptr = 0
  · subst first
    refine ⟨_, mmReallocate_first fresh, fresh, sane.hold fresh, fun x => ?_,
      fun some => absurd rfl some, fun _ _ => rfl⟩
    have notNull : x ∈ h.live → x.1 ≠ 0 := fun hx => Nat.ne_of_gt (sane.proper x hx).1
    rw [Heap.hold, List.mem_cons]
    exact or_congr_right ⟨fun hx => ⟨hx, notNull hx⟩, fun hx => hx.1⟩
  · obtain ⟨m, returned, contents, kept⟩ :=
      mmReallocate_keeping sane (block.resolve_left first) keeping
    have others : Heap.Fresh { h with live := h.live.filter fun x => x.1 ≠ ptr } (answer, size) :=
      ⟨fresh.1, fun x hx => fresh.2 x (List.mem_of_mem_filter hx)⟩
    refine ⟨_, returned, fresh, ((sane.filter _).hold others).write m, fun x => ?_,
      fun _ => contents, kept⟩
    rw [List.mem_cons, List.mem_filter, decide_eq_true_iff]

/-- Bytes copied behind the contents of a replaced block. -/
theorem Replaced.copied {h' : Heap} {n buf : Nat} (replaced : Replaced h h' ptr old (old + n) answer)
    (apart : Apart (answer, old + n) (buf, n)) :
    (h'.storage.copyUp (answer + old) buf n).bytes answer (old + n) =
      h'.storage.bytes answer old ++ h.storage.bytes buf n := by
  simp only [Apart] at apart
  rw [bytes_add]
  congr 1
  · apply bytes_congr
    intro i hi
    exact copyUp_outside _ (by omega)
  · apply bytes_congr
    intro i hi
    rw [copyUp_inside _ (by omega) hi]
    exact replaced.kept _ (by omega)

/-- An array that is described in storage grows by an element, wherever its new block is. -/
theorem growArray_keeping {field n room : Nat} (sane : h.Sane)
    (pointer : word h.storage field = old) (count : word h.storage (field + 4) = n)
    (array : old = 0 ∨ (old, room) ∈ h.live) (enough : old ≠ 0 → n * size ≤ room)
    (owner : ∃ x ∈ h.live, x.1 ≤ field ∧ field + 4 ≤ x.1 + x.2)
    (keeping : Keeping h answer old ((n + 1) * size)) :
    ∃ h', growArray h field size answer = .ok (answer, h') ∧
      Grown h h' field old ((n + 1) * size) answer ∧
      (old ≠ 0 → ∀ i, i < n * size → h'.storage (answer + i) = h.storage (old + i)) := by
  obtain ⟨h1, returned, replaced⟩ := mmReallocate_replaces sane array keeping
  have range := replaced.fresh.1
  simp only [Proper, Nat.add_mul] at range
  have exact32 : u32 ((n + 1) * size) = (n + 1) * size := by
    rw [Nat.add_mul]
    exact u32_eq_self (by omega)
  refine ⟨{ h1 with storage := h1.storage.setWord field answer }, ?_, ?_, ?_⟩
  · rw [growArray, mmReallocateArray, pointer, count, exact32, returned]
    rfl
  · refine ⟨word_setWord _ _ (by omega), fun a held outside => ?_, replaced.live,
      replaced.sane.write _, replaced.fresh⟩
    refine (setWord_outside _ outside).trans ?_
    exact replaced.kept a (replaced.fresh.not_held held)
  · intro some i hi
    obtain ⟨x, live, lo, hi'⟩ := owner
    have apart := replaced.fresh.2 x live
    have less := enough some
    simp only [Apart, Nat.add_mul] at apart
    refine (setWord_outside _ (by omega)).trans ?_
    exact replaced.contents some i (by rw [Nat.add_mul]; omega)

/-- The growth of an array for any answer from which contents are not lost. -/
theorem growArray_answered {field n room : Nat} (sane : h.Sane)
    (pointer : word h.storage field = old) (count : word h.storage (field + 4) = n)
    (array : old = 0 ∨ (old, room) ∈ h.live) (enough : old ≠ 0 → n * size ≤ room)
    (owner : ∃ x ∈ h.live, x.1 ≤ field ∧ field + 4 ≤ x.1 + x.2)
    (answered : answer = 0 ∨ Keeping h answer old ((n + 1) * size)) :
    Outcome.Sound (fun r => r.1 = answer ∧
      (answer = 0 → r.2 = ⟨h.storage.setWord field 0, h.live⟩) ∧
      (answer ≠ 0 → Grown h r.2 field old ((n + 1) * size) answer ∧
        (old ≠ 0 → ∀ i, i < n * size → r.2.storage (answer + i) = h.storage (old + i))))
      (growArray h field size answer) := by
  rcases answered with rfl | keeping
  · rw [growArray, mmReallocateArray]
    refine (mmReallocate_null h _ _).bind ?_
    rintro _ rfl
    exact ⟨rfl, fun _ => rfl, fun some => absurd rfl some⟩
  · have positive := keeping.1.1.1
    obtain ⟨h', grew, grown, rows⟩ :=
      growArray_keeping sane pointer count array enough owner keeping
    rw [grew]
    exact ⟨rfl, fun zero => absurd zero (Nat.ne_of_gt positive), fun _ => ⟨grown, rows⟩⟩

theorem Placed.keeping (placed : Placed h answer old size) :
    answer = 0 ∨ Keeping h answer old size := by
  rcases placed with null | ⟨fresh, below⟩
  · exact Or.inl null
  · exact Or.inr ⟨fresh, below.imp_right Or.inl⟩

/-- `MmReallocate` keeps the contents of the old block and all other storage
exactly when there is no new block, or it is at a lower signed address, or the
byte at its start and the one behind its end are those of the old block already. -/
theorem mmReallocate_reallocates_iff (live : (ptr, old) ∈ h.live) (notNull : ptr ≠ 0)
    (oldSize : 0 < old) (room : ptr + old ≤ 4294967296) (newSize : 0 < size)
    (bounded : size < 4294967296) (answered : Answered h answer size) :
    (∃ r, mmReallocate h answer ptr size = .ok r ∧ Reallocates h ptr old size r) ↔
      answer = 0 ∨ signed32 answer < signed32 ptr ∨
        h.storage answer = h.storage ptr ∧
          h.storage (u32 (answer + size)) = h.storage (u32 (ptr + size)) := by
  by_cases none : answer = 0
  · subst none
    exact iff_of_true ⟨(0, h), mmReallocate_none newSize, Or.inl ⟨rfl, rfl⟩⟩ (Or.inl rfl)
  obtain ⟨fits, others⟩ := answered.resolve_left none
  have apart := others _ live
  have differ : answer ≠ ptr := by
    simp only [Apart] at apart
    omega
  have blocks : ∀ x, x ∈ ((answer, size) :: h.live).filter (fun x => x.1 ≠ ptr) ↔
      x = (answer, size) ∨ x ∈ h.live ∧ x.1 ≠ ptr := by
    intro x
    rw [List.mem_filter, List.mem_cons, decide_eq_true_iff, or_and_right]
    constructor
    · rintro (⟨rfl, _⟩ | other)
      · exact Or.inl rfl
      · exact Or.inr other
    · rintro (rfl | other)
      · exact Or.inl ⟨rfl, differ⟩
      · exact Or.inr other
  obtain ⟨after, hafter⟩ : ∃ after, (keMoveMemory h.storage answer ptr size).2 = after := ⟨_, rfl⟩
  have moved : (∃ r, mmReallocate h answer ptr size = .ok r ∧ Reallocates h ptr old size r) ↔
      (∀ i, i < min old size → after (answer + i) = h.storage (ptr + i)) ∧
        ∀ a, a < answer ∨ answer + size ≤ a → after a = h.storage a := by
    rw [mmReallocate_eq live notNull none newSize hafter]
    constructor
    · rintro ⟨r, returned, right⟩
      cases returned
      rcases right with null | ⟨_, contents, _, kept⟩
      · exact absurd null.1 none
      · exact ⟨contents, kept⟩
    · rintro ⟨contents, kept⟩
      exact ⟨_, rfl, Or.inr ⟨none, contents, blocks, kept⟩⟩
  rw [moved, or_iff_right none]
  by_cases signed : signed32 answer < signed32 ptr
  · rw [keMoveMemory, if_pos signed] at hafter
    rw [← hafter]
    exact iff_of_true (moveUp_block room fits apart oldSize newSize) (Or.inl signed)
  · rw [keMoveMemory, if_neg signed] at hafter
    rw [← hafter, or_iff_right signed]
    exact moveDown_block_iff room fits apart oldSize newSize bounded

/-- One block of four bytes, and the byte at each address is the address. -/
def numbered : Heap := ⟨fun a => UInt8.ofNat a, [(16, 4)]⟩

theorem numbered_reallocates :
    (∃ r, mmReallocate numbered 8 16 6 = .ok r ∧ Reallocates numbered 16 4 6 r) ↔
      8 = 0 ∨ signed32 8 < signed32 16 ∨ numbered.storage 8 = numbered.storage 16 ∧
        numbered.storage (u32 (8 + 6)) = numbered.storage (u32 (16 + 6)) :=
  mmReallocate_reallocates_iff (by decide) (by decide) (by decide) (by decide) (by decide)
    (by decide) (by decide)

/-- A new block above the old one does not get its first byte. -/
theorem numbered_reallocated_above :
    ¬ ∃ r, mmReallocate numbered 32 16 6 = .ok r ∧ Reallocates numbered 16 4 6 r := by
  rintro ⟨r, returned, right⟩
  have differs : ¬ Outcome.Sound (fun r => r.1 = 0 ∨ r.2.storage r.1 = 16)
      (mmReallocate numbered 32 16 6) := by decide
  rw [returned] at differs
  rcases right with null | ⟨_, contents, _⟩
  · exact differs (Or.inl null.1)
  · exact differs (Or.inr (contents 0 (by decide)))

end MmHeap
