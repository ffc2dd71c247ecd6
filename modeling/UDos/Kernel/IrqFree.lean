import Mathlib.Data.List.Find
import UDos.Kernel.IrqHandlers
import UDos.Library.Recorded

/-!
# Freeing IRQs

`KeFreeIrq` with what it accesses, and after `KeAllocateIrq`. It takes the first
range that starts at the id or before and ends at it or behind, and clears the
line without looking at who has registered on it.
-/

namespace IrqFree

open KernelMemory MmHeap Storage Irq IrqHandlers

/-- An access to a line of a range, by its index, and a call of the callback of
a range. -/
inductive Event where
  | line (range index : Nat)
  | callback (range irq : Nat)

def freeLineRecorded (h : Heap) (range index irq : Nat) : Recorded Event Heap := do
  let line := lineAt h.storage range index
  Recorded.emit (.line range index)
  let h ← Recorded.lift (mmFree h (word h.storage (line + 4)))
  Recorded.emit (.line range index)
  let m := h.storage.setWord (line + 8) 0
  Recorded.emit (.line range index)
  let m := m.setWord line irqTypeShared
  Recorded.lift (Outcome.check (word m (range + 16) ≠ 0) "IRQ range has no deallocator handler")
  Recorded.emit (.callback range irq)
  pure { h with storage := m }

def keFreeIrqRecorded (table : Nat) (h : Heap) (irq : Nat) : Recorded Event Heap :=
  match rangeOf h.storage table irq with
  | none => pure h
  | some range => freeLineRecorded h range (irq - word h.storage (range + 8)) irq

/-- The id is that of a line of the range. -/
def Contains (m : Storage) (range irq : Nat) : Prop :=
  word m (range + 8) ≤ irq ∧ irq < word m (range + 8) + word m (range + 4)

instance (m : Storage) (range irq : Nat) : Decidable (Contains m range irq) :=
  inferInstanceAs (Decidable (_ ∧ _))

def lineOf (m : Storage) (range irq : Nat) : Nat := lineAt m range (irq - word m (range + 8))

/-- The lines that `KeCreateIrqRange` allocates for this number of lines. -/
def allocatedLines (n : Nat) : Nat := u32 (n * 12) / 12

/-- The ranges do not share an id, and their ids do not wrap. -/
structure Disjoint (table : Nat) (m : Storage) : Prop where
  apart : ∀ r r' irq, r < word m (table + 4) → r' < word m (table + 4) →
    Contains m (rangeAt m table r) irq → Contains m (rangeAt m table r') irq → r = r'
  noWrap : ∀ r, r < word m (table + 4) →
    word m (rangeAt m table r + 8) + word m (rangeAt m table r + 4) < 4294967296

/-- The event is an access to the line of the id in its range, or the callback
of that range. -/
def Event.Right (table : Nat) (m : Storage) (irq : Nat) : Event → Prop
  | line range index => ∃ r, r < word m (table + 4) ∧ range = rangeAt m table r ∧
      Contains m range irq ∧ index = irq - word m (range + 8) ∧
      index < allocatedLines (word m (range + 4))
  | callback range id => ∃ r, r < word m (table + 4) ∧ range = rangeAt m table r ∧
      Contains m range irq ∧ id = irq

/-- What freeing an id should do: only its line is accessed, only the callback of
its range is called, bytes change in this line alone, only the block of its
handlers is returned, and an id of no range changes nothing. -/
structure HitsRightLine (table : Nat) (h : Heap) (irq : Nat) : Prop where
  events : Recorded.All (Event.Right table h.storage irq) (keFreeIrqRecorded table h irq)
  bytes : Outcome.After (fun h' => ∀ x, (∀ r, r < word h.storage (table + 4) →
      Contains h.storage (rangeAt h.storage table r) irq →
        x < lineOf h.storage (rangeAt h.storage table r) irq ∨
        lineOf h.storage (rangeAt h.storage table r) irq + 12 ≤ x) →
      h'.storage x = h.storage x) (keFreeIrq table h irq)
  blocks : Outcome.After (fun h' => ∀ x ∈ h.live, x ∉ h'.live →
      ∃ r, r < word h.storage (table + 4) ∧ Contains h.storage (rangeAt h.storage table r) irq ∧
        x.1 = word h.storage (lineOf h.storage (rangeAt h.storage table r) irq + 4))
    (keFreeIrq table h irq)
  none : (∀ r, r < word h.storage (table + 4) →
    ¬ Contains h.storage (rangeAt h.storage table r) irq) → keFreeIrq table h irq = .ok h

/-- No range that ends before the id stands in the table before the range of the
id, and the line of the id is in the block allocated for the lines. -/
def NoneEndsAt (table : Nat) (m : Storage) (irq : Nat) : Prop :=
  (∀ r, r < word m (table + 4) →
    word m (rangeAt m table r + 8) + word m (rangeAt m table r + 4) = irq →
    ∃ r', r' < r ∧ Contains m (rangeAt m table r') irq) ∧
  ∀ r, r < word m (table + 4) → Contains m (rangeAt m table r) irq →
    irq - word m (rangeAt m table r + 8) < allocatedLines (word m (rangeAt m table r + 4))

instance (table : Nat) (m : Storage) (irq : Nat) : Decidable (NoneEndsAt table m irq) :=
  inferInstanceAs (Decidable ((∀ r, r < word m (table + 4) → _ → ∃ r', r' < r ∧ _) ∧
    ∀ r, r < word m (table + 4) → _ → _))

section
variable {table irq range : Nat} {h h' : Heap} {m : Storage}

theorem cleared_result (checked : Outcome Unit) (access callback : Event) (h : Heap) :
    (do
      Recorded.emit access
      Recorded.emit access
      Recorded.lift checked
      Recorded.emit callback
      pure h : Recorded Event Heap).result = (checked >>= fun _ => .ok h) := by
  rw [Recorded.bind_result, Recorded.emit_result, Outcome.ok_bind, Recorded.bind_result,
    Recorded.emit_result, Outcome.ok_bind, Recorded.bind_result, Recorded.lift_result]
  refine congrArg (checked >>= ·) (funext fun _ => ?_)
  rw [Recorded.bind_result, Recorded.emit_result, Outcome.ok_bind, Recorded.pure_result]

theorem freeLineRecorded_result (h : Heap) (range index irq : Nat) :
    (freeLineRecorded h range index irq).result =
      freeLine h range (lineAt h.storage range index) := by
  rw [freeLineRecorded, Recorded.bind_result, Recorded.emit_result, Outcome.ok_bind,
    Recorded.bind_result, Recorded.lift_result, freeLine]
  refine congrArg (mmFree h _ >>= ·) (funext fun h1 => ?_)
  exact cleared_result _ _ _ _

theorem keFreeIrqRecorded_result (table : Nat) (h : Heap) (irq : Nat) :
    (keFreeIrqRecorded table h irq).result = keFreeIrq table h irq := by
  rw [keFreeIrqRecorded, keFreeIrq]
  cases rangeOf h.storage table irq with
  | none => rfl
  | some range => exact freeLineRecorded_result h range _ irq

theorem rangeAt_inj {r r' : Nat} (same : rangeAt m table r = rangeAt m table r') : r = r' := by
  simp only [rangeAt] at same
  omega

theorem disjoint_of_ends
    (ends : ∀ r < word m (table + 4), ∀ r' < word m (table + 4), r = r' ∨
      word m (rangeAt m table r + 8) + word m (rangeAt m table r + 4) ≤
        word m (rangeAt m table r' + 8) ∨
      word m (rangeAt m table r' + 8) + word m (rangeAt m table r' + 4) ≤
        word m (rangeAt m table r + 8))
    (noWrap : ∀ r < word m (table + 4),
      word m (rangeAt m table r + 8) + word m (rangeAt m table r + 4) < 4294967296) :
    Disjoint table m := by
  refine ⟨fun r r' id hr hr' inside inside' => ?_, noWrap⟩
  refine (ends r hr r' hr').resolve_right fun order => ?_
  simp only [Contains] at inside inside'
  omega

theorem covers_iff (disjoint : Disjoint table m) {r : Nat} (hr : r < word m (table + 4)) :
    covers m (rangeAt m table r) irq ↔ Contains m (rangeAt m table r) irq ∨
      word m (rangeAt m table r + 8) + word m (rangeAt m table r + 4) = irq := by
  have noWrap := disjoint.noWrap r hr
  rw [covers, u32_eq_self noWrap, Contains]
  omega

theorem rangeOf_first (found : rangeOf m table irq = some range) :
    ∃ r, r < word m (table + 4) ∧ range = rangeAt m table r ∧ covers m range irq ∧
      ∀ r', r' < r → ¬ covers m (rangeAt m table r') irq := by
  obtain ⟨r, first, rfl⟩ := Option.map_eq_some_iff.mp found
  obtain ⟨here, inTable, earlier⟩ := List.find?_range_eq_some.mp first
  exact ⟨r, List.mem_range.mp inTable, rfl, by simpa using here,
    fun r' before => by simpa using earlier r' before⟩

theorem rangeOf_none (missing : rangeOf m table irq = none) {r : Nat}
    (hr : r < word m (table + 4)) : ¬ covers m (rangeAt m table r) irq := by
  have all := List.find?_eq_none.mp (Option.map_eq_none_iff.mp missing)
  simpa using all r (List.mem_range.mpr hr)

theorem keFreeIrqRecorded_found (found : rangeOf h.storage table irq = some range) :
    keFreeIrqRecorded table h irq =
      freeLineRecorded h range (irq - word h.storage (range + 8)) irq := by
  rw [keFreeIrqRecorded, found]

theorem freeLineRecorded_all {good : Event → Prop} {index : Nat} (line : good (.line range index))
    (callback : good (.callback range irq)) :
    Recorded.All good (freeLineRecorded h range index irq) := by
  have access : Recorded.All good (Recorded.emit (Event.line range index)) :=
    (Recorded.all_emit _).mpr line
  rw [freeLineRecorded]
  refine Recorded.all_bind.mpr ⟨access, fun _ _ => ?_⟩
  refine Recorded.all_bind.mpr ⟨Recorded.all_lift _, fun h1 _ => ?_⟩
  refine Recorded.all_bind.mpr ⟨access, fun _ _ => ?_⟩
  refine Recorded.all_bind.mpr ⟨access, fun _ _ => ?_⟩
  refine Recorded.all_bind.mpr ⟨Recorded.all_lift _, fun _ _ => ?_⟩
  exact Recorded.all_bind.mpr ⟨(Recorded.all_emit _).mpr callback, fun _ _ => Recorded.all_pure _⟩

theorem freeLineRecorded_line {good : Event → Prop} {index : Nat}
    (all : Recorded.All good (freeLineRecorded h range index irq)) : good (.line range index) := by
  rw [freeLineRecorded] at all
  exact (Recorded.all_emit _).mp (Recorded.all_bind.mp all).1

theorem mmFree_block {ptr : Nat} {x : Nat × Nat} (freed : mmFree h ptr = .ok h')
    (live : x ∈ h.live) (gone : x ∉ h'.live) : x.1 = ptr := by
  rw [mmFree] at freed
  by_cases null : ptr = 0
  · rw [if_pos null] at freed
    cases freed
    exact absurd live gone
  · rw [if_neg null, Heap.free] at freed
    split at freed
    · cases freed
      by_contra other
      exact gone (List.mem_filter.mpr ⟨live, by simpa using other⟩)
    · cases freed

theorem contains_of_hits (hits : HitsRightLine table h irq)
    (found : rangeOf h.storage table irq = some range) :
    ∃ r, r < word h.storage (table + 4) ∧ range = rangeAt h.storage table r ∧
      Contains h.storage range irq ∧
      irq - word h.storage (range + 8) < allocatedLines (word h.storage (range + 4)) := by
  have events := hits.events
  rw [keFreeIrqRecorded_found found] at events
  obtain ⟨r, hr, same, contains, -, inBlock⟩ := freeLineRecorded_line events
  exact ⟨r, hr, same, contains, inBlock⟩

/-- With the range of the id found, everything is as it should be. -/
theorem hits_of_contains (found : rangeOf h.storage table irq = some range) {r : Nat}
    (hr : r < word h.storage (table + 4)) (here : range = rangeAt h.storage table r)
    (contains : Contains h.storage range irq)
    (inBlock : irq - word h.storage (range + 8) < allocatedLines (word h.storage (range + 4))) :
    HitsRightLine table h irq := by
  subst here
  have body : keFreeIrq table h irq = freeLine h (rangeAt h.storage table r)
      (lineOf h.storage (rangeAt h.storage table r) irq) := by
    rw [keFreeIrq, found]
    rfl
  refine ⟨?_, fun h' freed x outside => ?_, fun h' freed x live gone => ?_, fun none => ?_⟩
  · rw [keFreeIrqRecorded_found found]
    exact freeLineRecorded_all ⟨r, hr, rfl, contains, rfl, inBlock⟩ ⟨r, hr, rfl, contains, rfl⟩
  · rw [body] at freed
    rw [(freeLine_after freed).1]
    exact clearLine_outside _ (by have := outside r hr contains; omega)
  · rw [body] at freed
    obtain ⟨-, -, h1, returned, same⟩ := freeLine_after freed
    rw [same] at gone
    exact ⟨r, hr, contains, mmFree_block returned live gone⟩
  · exact absurd contains (none r hr)

/-- `KeFreeIrq` hits the right line exactly when no range that ends before the id
is found in place of its range. -/
theorem keFreeIrq_hitsRightLine_iff (disjoint : Disjoint table h.storage) :
    HitsRightLine table h irq ↔ NoneEndsAt table h.storage irq := by
  cases found : rangeOf h.storage table irq with
  | none =>
    have uncovered := fun r (hr : r < word h.storage (table + 4)) =>
      mt (covers_iff disjoint hr).mpr (rangeOf_none found hr)
    have body : keFreeIrq table h irq = .ok h := by rw [keFreeIrq, found]
    have record : keFreeIrqRecorded table h irq = pure h := by rw [keFreeIrqRecorded, found]
    refine iff_of_true ⟨?_, ?_, ?_, fun _ => body⟩ ⟨fun r hr ends => ?_, fun r hr contains => ?_⟩
    · rw [record]
      exact Recorded.all_pure h
    · rw [body]
      exact Outcome.after_ok fun x _ => rfl
    · rw [body]
      exact Outcome.after_ok fun x live gone => absurd live gone
    · exact absurd (Or.inr ends) (uncovered r hr)
    · exact absurd (Or.inl contains) (uncovered r hr)
  | some range =>
    obtain ⟨r, hr, here, covered, earlier⟩ := rangeOf_first found
    constructor
    · intro hits
      obtain ⟨r', hr', same, contains, inBlock⟩ := contains_of_hits hits found
      rw [here] at same contains inBlock
      cases rangeAt_inj same
      refine ⟨fun k hk ends => ⟨r, ?_, contains⟩, fun k hk other => ?_⟩
      · by_contra behind
        have notBefore : ¬ k < r := fun before =>
          earlier k before ((covers_iff disjoint hk).mpr (Or.inr ends))
        have own : k = r := by omega
        rw [own] at ends
        have inside := contains.2
        omega
      · cases disjoint.apart k r irq hk hr other contains
        exact inBlock
    · rintro ⟨ends, inBlock⟩
      rw [here] at covered
      have contains : Contains h.storage (rangeAt h.storage table r) irq := by
        refine ((covers_iff disjoint hr).mp covered).resolve_right fun last => ?_
        obtain ⟨k, before, contains⟩ := ends r hr last
        exact earlier k before ((covers_iff disjoint (by omega)).mpr (Or.inl contains))
      have index := inBlock r hr contains
      rw [← here] at contains index
      exact hits_of_contains found hr here contains index

/-- Freeing the id clears a line of its range and leaves every line as it was
before the allocation. -/
def Restores (table irq : Nat) (before after : Heap) : Prop :=
  (∀ range ∈ rangeOf after.storage table irq,
    irq - word after.storage (range + 8) < word after.storage (range + 4)) ∧
  ∃ h', keFreeIrq table after irq = .ok h' ∧ ∀ line, IsLine table before.storage line →
    lineEntry h'.storage line = lineEntry before.storage line

/-- The line that the handler is registered on is shared and has no handlers, its
number is not that of a failure and is found in its range, which has a callback. -/
def Undoable (table : Nat) (m : Storage) : Prop :=
  ∀ k x, firstShared m table (word m (table + 4)) 0 = some (k, x) →
    numberOf m table k x ≠ noIrq ∧
    lineEntry m (lineAt m (rangeAt m table k) x) = ⟨irqTypeShared, []⟩ ∧
    rangeOf m table (numberOf m table k x) = some (rangeAt m table k) ∧
    word m (rangeAt m table k + 16) ≠ 0

theorem rangeOf_congr {m' : Storage} (same : Same table m m')
    (ranges : ∀ r, r < word m (table + 4) → ∀ o, o + 4 ≤ 20 →
      word m' (rangeAt m table r + o) = word m (rangeAt m table r + o)) (irq : Nat) :
    rangeOf m' table irq = rangeOf m table irq := by
  have ats : rangeAt m' table = rangeAt m table := funext same.rangeAt_eq
  rw [rangeOf, rangeOf, same.count, ats]
  refine congrArg (Option.map (rangeAt m table)) (List.find?_congr fun r member => ?_)
  have hr := List.mem_range.mp member
  refine decide_eq_decide.mpr ?_
  rw [covers, covers, ranges r hr 8 (by decide), ranges r hr 4 (by decide)]

theorem numberOf_index {k x : Nat} (hx : x < word m (rangeAt m table k + 4))
    (found : rangeOf m table (numberOf m table k x) = some (rangeAt m table k)) :
    numberOf m table k x - word m (rangeAt m table k + 8) = x := by
  obtain ⟨_, -, -, covered, -⟩ := rangeOf_first found
  have start := word_lt m (rangeAt m table k + 8)
  have lines := word_lt m (rangeAt m table k + 4)
  have lower := covered.1
  unfold numberOf u32 at lower ⊢
  omega

theorem clearLine_others {line other : Nat} (populated : Populated table h)
    (isLine : IsLine table h.storage line) (isOther : IsLine table h.storage other)
    (differ : other ≠ line) :
    lineEntry (clearLine h.storage line) other = lineEntry h.storage other := by
  have clears := clearLine_clears populated.holds.tabled isLine
  refine lineEntry_congr (clears.others other isOther differ) fun i hi => ?_
  obtain ⟨room, live, enough, away⟩ := populated.block isOther (by omega)
  refine populated.kept_apart isLine (fun x _ outside => clearLine_outside _ (by omega)) live away
    (by simp only; omega) (by simp only; omega)

/-- Freeing an id that is within its range clears one line at most. -/
theorem free_clears {h1 h' : Heap} (populated : Populated table h1)
    (inRange : ∀ range ∈ rangeOf h1.storage table irq,
      irq - word h1.storage (range + 8) < word h1.storage (range + 4))
    (freed : keFreeIrq table h1 irq = .ok h') :
    h' = h1 ∨ ∃ r, r < word h1.storage (table + 4) ∧
      rangeOf h1.storage table irq = some (rangeAt h1.storage table r) ∧
      word h1.storage (rangeAt h1.storage table r + 16) ≠ 0 ∧
      h'.storage = clearLine h1.storage (lineOf h1.storage (rangeAt h1.storage table r) irq) := by
  cases found : rangeOf h1.storage table irq with
  | none =>
    rw [keFreeIrq, found] at freed
    cases freed
    exact Or.inl rfl
  | some range =>
    obtain ⟨r, hr, rfl⟩ := Holds.rangeOf_eq found
    rw [keFreeIrq, found] at freed
    obtain ⟨bytes, callback, -⟩ := freeLine_after freed
    have isLine : IsLine table h1.storage (lineOf h1.storage (rangeAt h1.storage table r) irq) :=
      ⟨r, hr, _, inRange _ found, rfl⟩
    have clears := clearLine_clears populated.holds.tabled isLine
    refine Or.inr ⟨r, hr, rfl, ?_, bytes⟩
    rw [← clears.ranges r hr 16 (by decide)]
    exact callback

/-- A line whose number of handlers changes is the one that is cleared. -/
theorem cleared_of_changed {h1 h' : Heap} {line : Nat} (populated : Populated table h1)
    (inRange : ∀ range ∈ rangeOf h1.storage table irq,
      irq - word h1.storage (range + 8) < word h1.storage (range + 4))
    (freed : keFreeIrq table h1 irq = .ok h') (isLine : IsLine table h1.storage line)
    (changed : word h'.storage (line + 8) ≠ word h1.storage (line + 8)) :
    ∃ r, r < word h1.storage (table + 4) ∧
      rangeOf h1.storage table irq = some (rangeAt h1.storage table r) ∧
      word h1.storage (rangeAt h1.storage table r + 16) ≠ 0 ∧
      irq - word h1.storage (rangeAt h1.storage table r + 8) <
        word h1.storage (rangeAt h1.storage table r + 4) ∧
      line = lineOf h1.storage (rangeAt h1.storage table r) irq ∧
      h'.storage = clearLine h1.storage line := by
  rcases free_clears populated inRange freed with rfl | ⟨r, hr, found, callback, bytes⟩
  · exact absurd rfl changed
  · have inside := inRange _ found
    have here : line = lineOf h1.storage (rangeAt h1.storage table r) irq := by
      by_contra differ
      refine changed (count_of_entry ?_)
      rw [bytes]
      exact clearLine_others populated ⟨r, hr, _, inside, rfl⟩ isLine differ
    exact ⟨r, hr, found, callback, inside, here, by rw [here]; exact bytes⟩

/-- Two registrations are not undone by freeing one line. -/
theorem two_gains_not_restored {h1 : Heap} {line line' : Nat} (populated : Populated table h1)
    (isLine : IsLine table h.storage line) (isLine' : IsLine table h.storage line')
    (same : Same table h.storage h1.storage) (differ : line ≠ line')
    (gained : word h1.storage (line + 8) = word h.storage (line + 8) + 1)
    (gained' : word h1.storage (line' + 8) = word h.storage (line' + 8) + 1) :
    ¬ Restores table irq h h1 := by
  rintro ⟨inRange, h', freed, restored⟩
  have count := count_of_entry (restored line isLine)
  have count' := count_of_entry (restored line' isLine')
  obtain ⟨r, hr, found, -, -, here, -⟩ :=
    cleared_of_changed populated inRange freed (same.isLine.mpr isLine) (by omega)
  obtain ⟨r', hr', found', -, -, here', -⟩ :=
    cleared_of_changed populated inRange freed (same.isLine.mpr isLine') (by omega)
  have ranges := Option.some.inj (found.symm.trans found')
  rw [← ranges] at here'
  exact differ (here.trans here'.symm)

/-- Freeing the line that gained the only handler undoes that. -/
theorem restores_of_undoable {h1 : Heap} {k x : Nat}
    (populated1 : Populated table h1) (hk : k < word h.storage (table + 4))
    (hx : x < word h.storage (rangeAt h.storage table k + 4))
    (gains : Gains table h.storage h1.storage (lineAt h.storage (rangeAt h.storage table k) x))
    (entry : lineEntry h.storage (lineAt h.storage (rangeAt h.storage table k) x) =
      ⟨irqTypeShared, []⟩)
    (found : rangeOf h.storage table (numberOf h.storage table k x) =
      some (rangeAt h.storage table k))
    (callback : word h.storage (rangeAt h.storage table k + 16) ≠ 0) :
    Restores table (numberOf h.storage table k x) h h1 := by
  have same := gains.same
  have index := numberOf_index hx found
  have found1 := (rangeOf_congr same gains.ranges (numberOf h.storage table k x)).trans found
  set line := lineAt h.storage (rangeAt h.storage table k) x with hline
  have isLine : IsLine table h.storage line := ⟨k, hk, x, hx, rfl⟩
  have isLine1 := same.isLine.mpr isLine
  have clears := clearLine_clears populated1.holds.tabled isLine1
  have line1 : lineAt h1.storage (rangeAt h.storage table k) x = line := by
    rw [hline, lineAt, lineAt, same.lines k hk]
  refine ⟨fun range here => ?_, ?_⟩
  · cases found1.symm.trans here
    rw [gains.ranges k hk 8 (by decide), gains.ranges k hk 4 (by decide), index]
    exact hx
  · obtain ⟨room, live, -, -⟩ := populated1.block isLine1 (by rw [gains.count]; omega)
    have freed := mmFree_of_mem populated1.holds.sane live
    have notNull : word (clearLine h1.storage line) (rangeAt h.storage table k + 16) ≠ 0 := by
      rw [← same.rangeAt_eq, clears.ranges k (by rw [same.count]; exact hk) 16 (by decide),
        same.rangeAt_eq, gains.ranges k hk 16 (by decide)]
      exact callback
    refine ⟨⟨clearLine h1.storage line, h1.live.filter fun x => x.1 ≠ word h1.storage (line + 4)⟩,
      ?_, fun other isOther => ?_⟩
    · rw [keFreeIrq, found1]
      simp only [gains.ranges k hk 8 (by decide), index, line1]
      rw [freeLine, freed, Outcome.ok_bind]
      dsimp only
      rw [← clearLine, Outcome.check_of notNull]
      rfl
    · by_cases own : other = line
      · rw [own, entry]
        exact clears.entry
      · have kept := clearLine_others populated1 isLine1 (same.isLine.mpr isOther) own
        exact kept.trans (gains.others other isOther own)

/-- What gained a handler is restored only when it is the line that is cleared. -/
theorem undoable_of_restores {h1 : Heap} {k x : Nat} (populated1 : Populated table h1)
    (hk : k < word h.storage (table + 4))
    (hx : x < word h.storage (rangeAt h.storage table k + 4))
    (gains : Gains table h.storage h1.storage (lineAt h.storage (rangeAt h.storage table k) x))
    (restores : Restores table irq h h1) :
    lineEntry h.storage (lineAt h.storage (rangeAt h.storage table k) x) = ⟨irqTypeShared, []⟩ ∧
      rangeOf h.storage table irq = some (rangeAt h.storage table k) ∧
      word h.storage (rangeAt h.storage table k + 16) ≠ 0 := by
  obtain ⟨inRange, h', freed, restored⟩ := restores
  have same := gains.same
  have isLine : IsLine table h.storage (lineAt h.storage (rangeAt h.storage table k) x) :=
    ⟨k, hk, x, hx, rfl⟩
  have isLine1 := same.isLine.mpr isLine
  have entry := restored _ isLine
  have count := count_of_entry entry
  have gained := gains.count
  obtain ⟨r, hr, found, callback, inside, here, bytes⟩ :=
    cleared_of_changed populated1 inRange freed isLine1 (by omega)
  rw [same.count] at hr
  rw [same.rangeAt_eq] at found callback inside here
  have own : r = k := by
    by_contra differ
    rw [gains.ranges r hr 8 (by decide), gains.ranges r hr 4 (by decide)] at inside
    refine lineAt_ne populated1.holds.tabled (by rw [same.count]; exact hr)
      (by rw [same.count]; exact hk) (by rw [same.rangeAt_eq, same.nLines r hr]; exact inside)
      (by rw [same.rangeAt_eq, same.nLines k hk]; exact hx) differ ?_
    rw [same.lineAt_eq hr, same.lineAt_eq hk, here, lineOf, gains.ranges r hr 8 (by decide),
      lineAt, lineAt, same.lines r hr]
  subst own
  refine ⟨?_, (rangeOf_congr same gains.ranges irq).symm.trans found, ?_⟩
  · rw [← entry, bytes]
    exact (clearLine_clears populated1.holds.tabled isLine1).entry
  · rw [← gains.ranges r hk 16 (by decide)]
    exact callback

/-- An allocation and the freeing of what it returned leave the lines as they
were exactly when the line had no handlers, is shared and is found in its range. -/
theorem keAllocateIrq_restores_iff {debug : Bool} {handler : Nat} {answers : List Nat} {h1 : Heap}
    (populated : Populated table h)
    (supplied : SuppliedSearch debug table handler answers (word h.storage (table + 4)) 0 h)
    (returned : keAllocateIrq debug table h answers handler = .ok (irq, h1))
    (allocated : irq ≠ noIrq) : Restores table irq h h1 ↔ Undoable table h.storage := by
  cases first : firstShared h.storage table (word h.storage (table + 4)) 0 with
  | none =>
    rw [keAllocateIrq, allocateFrom_none first] at returned
    cases returned
    exact absurd rfl allocated
  | some shared =>
    obtain ⟨k, x⟩ := shared
    obtain ⟨hk, hx, became⟩ := keAllocateIrq_first populated supplied returned first
    cases became with
    | wentOn missed populated1 same gained second =>
      obtain ⟨other, isOther, differ, gained'⟩ := second allocated
      have isLine : IsLine table h.storage (lineAt h.storage (rangeAt h.storage table k) x) :=
        ⟨k, hk, x, hx, rfl⟩
      exact iff_of_false (two_gains_not_restored populated1 isOther isLine same differ gained'
        gained) fun undoable => (undoable k x first).1 missed
    | done some number populated1 gains _ =>
      subst number
      constructor
      · rintro restores k' x' found'
        cases first.symm.trans found'
        exact ⟨some, undoable_of_restores populated1 hk hx gains restores⟩
      · intro undoable
        obtain ⟨-, entry, found, callback⟩ := undoable k x first
        exact restores_of_undoable populated1 hk hx gains entry found callback

end

/-- Lines with the ids 16 and 17, and behind them 18 and 19. -/
def adjacent : List Op :=
  [createTwo, .create ⟨2500, 2400, 2300⟩ 18 2 0x1234 0x5678]

theorem adjacent_ranges :
    ∃ h, Runs.run (step false 100) withHandler adjacent = .ok h ∧ word h.storage (100 + 4) = 2 ∧
      (word h.storage (rangeAt h.storage 100 0 + 8) = 16 ∧
        word h.storage (rangeAt h.storage 100 0 + 4) = 2) ∧
      word h.storage (rangeAt h.storage 100 1 + 8) = 18 ∧
        word h.storage (rangeAt h.storage 100 1 + 4) = 2 := by
  have facts : Outcome.Sound (fun h => word h.storage (100 + 4) = 2 ∧
      (word h.storage (rangeAt h.storage 100 0 + 8) = 16 ∧
        word h.storage (rangeAt h.storage 100 0 + 4) = 2) ∧
      word h.storage (rangeAt h.storage 100 1 + 8) = 18 ∧
        word h.storage (rangeAt h.storage 100 1 + 4) = 2)
    (Runs.run (step false 100) withHandler adjacent) := by decide +kernel
  exact facts.returned (by decide +kernel)

/-- The last line of the first range. -/
theorem line_before_end_hit :
    ∃ h, Runs.run (step false 100) withHandler adjacent = .ok h ∧ HitsRightLine 100 h 17 := by
  obtain ⟨h, ran, count, ⟨start0, lines0⟩, start1, lines1⟩ := adjacent_ranges
  have two : ∀ r, r < word h.storage (100 + 4) → r = 0 ∨ r = 1 := by omega
  have disjoint : Disjoint 100 h.storage := by
    apply disjoint_of_ends
    · intro r hr r' hr'
      rcases two r hr with rfl | rfl
      · rcases two r' hr' with rfl | rfl
        · exact Or.inl rfl
        · omega
      · rcases two r' hr' with rfl | rfl
        · omega
        · exact Or.inl rfl
    · intro r hr
      rcases two r hr with rfl | rfl
      · omega
      · omega
  have clear : NoneEndsAt 100 h.storage 17 := by
    constructor
    · intro r hr atEnd
      rcases two r hr with rfl | rfl
      · omega
      · omega
    · intro r hr inside
      simp only [Contains] at inside
      rcases two r hr with rfl | rfl
      · rw [start0, lines0]
        decide
      · omega
  exact ⟨h, ran, (keFreeIrq_hitsRightLine_iff disjoint).mpr clear⟩

/-- The first line of the second range: the id is found in the first one. -/
theorem line_at_end_missed :
    ∃ h, Runs.run (step false 100) withHandler adjacent = .ok h ∧
      Contains h.storage (rangeAt h.storage 100 1) 18 ∧
      rangeOf h.storage 100 18 = some (rangeAt h.storage 100 0) ∧ ¬ HitsRightLine 100 h 18 := by
  obtain ⟨h, ran, count, ⟨start0, lines0⟩, start1, lines1⟩ := adjacent_ranges
  have own : Contains h.storage (rangeAt h.storage 100 1) 18 := by
    rw [Contains, start1, lines1]
    decide
  have other : ¬ Contains h.storage (rangeAt h.storage 100 0) 18 := by
    rw [Contains, start0, lines0]
    decide
  have covered : covers h.storage (rangeAt h.storage 100 0) 18 := by
    rw [covers, start0, lines0]
    decide
  have found : rangeOf h.storage 100 18 = some (rangeAt h.storage 100 0) := by
    have first : (List.range (word h.storage (100 + 4))).find?
        (fun i => covers h.storage (rangeAt h.storage 100 i) 18) = some 0 :=
      List.find?_range_eq_some.mpr ⟨decide_eq_true covered, List.mem_range.mpr (by omega),
        fun j before => absurd before (Nat.not_lt_zero j)⟩
    rw [rangeOf, first]
    rfl
  refine ⟨h, ran, own, found, fun hits => ?_⟩
  obtain ⟨_, -, -, contains, -⟩ := contains_of_hits hits found
  exact other contains

/-- The only handler of the first line. -/
theorem only_handler_restored :
    ∃ h h1, Runs.run (step false 100) withHandler [createTwo] = .ok h ∧
      keAllocateIrq false 100 h [2700] 50 = .ok (16, h1) ∧ Restores 100 16 h h1 := by
  obtain ⟨h, ran, populated⟩ := withHandler_populated [createTwo] (by decide +kernel)
    (by decide +kernel)
  have facts : Outcome.Sound (fun h =>
      SuppliedSearch false 100 50 [2700] (word h.storage (100 + 4)) 0 h ∧
      firstShared h.storage 100 (word h.storage (100 + 4)) 0 = some (0, 0) ∧
      numberOf h.storage 100 0 0 ≠ noIrq ∧
      lineEntry h.storage (lineAt h.storage (rangeAt h.storage 100 0) 0) = ⟨irqTypeShared, []⟩ ∧
      rangeOf h.storage 100 (numberOf h.storage 100 0 0) = some (rangeAt h.storage 100 0) ∧
      word h.storage (rangeAt h.storage 100 0 + 16) ≠ 0 ∧
      Outcome.Sound (fun r => r.1 = 16) (keAllocateIrq false 100 h [2700] 50) ∧
      (keAllocateIrq false 100 h [2700] 50).returns = true)
    (Runs.run (step false 100) withHandler [createTwo]) := by decide +kernel
  obtain ⟨supplied, first, number, entry, found, callback, id, returns⟩ := facts.after h ran
  obtain ⟨⟨irq, h1⟩, returned, same⟩ := id.returned returns
  simp only at same
  subst same
  refine ⟨h, h1, ran, returned, (keAllocateIrq_restores_iff populated supplied returned
    (by decide)).mpr fun k x shared => ?_⟩
  cases first.symm.trans shared
  exact ⟨number, entry, found, callback⟩

/-- The handler that was registered on the line before is gone as well. -/
theorem other_handler_freed :
    ∃ h h1, Runs.run (step false 100) withHandler [createTwo, allocateFirst] = .ok h ∧
      keAllocateIrq false 100 h [2600] 50 = .ok (16, h1) ∧
      lineEntry h.storage 2900 = ⟨irqTypeShared, [0]⟩ ∧
      Outcome.Sound (fun h' => lineEntry h'.storage 2900 = ⟨irqTypeShared, []⟩)
        (keFreeIrq 100 h1 16) ∧
      ¬ Restores 100 16 h h1 := by
  have facts : Outcome.Sound (fun h => Outcome.Sound (fun r => r.1 = 16 ∧
        lineEntry h.storage 2900 = ⟨irqTypeShared, [0]⟩ ∧
        Outcome.Sound (fun h' => lineEntry h'.storage 2900 = ⟨irqTypeShared, []⟩)
          (keFreeIrq 100 r.2 16) ∧
        word h.storage (100 + 4) = 1 ∧ word h.storage (rangeAt h.storage 100 0 + 4) = 2 ∧
        lineAt h.storage (rangeAt h.storage 100 0) 0 = 2900)
      (keAllocateIrq false 100 h [2600] 50) ∧ (keAllocateIrq false 100 h [2600] 50).returns = true)
    (Runs.run (step false 100) withHandler [createTwo, allocateFirst]) := by decide +kernel
  obtain ⟨h, ran, called, returns⟩ := facts.returned (by decide +kernel)
  obtain ⟨⟨irq, h1⟩, returned, same, before, after, ranges, lines, line⟩ := called.returned returns
  simp only at same after
  subst same
  refine ⟨h, h1, ran, returned, before, after, fun restores => ?_⟩
  obtain ⟨-, h', freed, restored⟩ := restores
  have unchanged := restored 2900 ⟨0, by omega, 0, by omega, line.symm⟩
  rw [before, after.after h' freed] at unchanged
  cases unchanged

end IrqFree
