import UDos.Kernel.Irq
import UDos.Kernel.Reallocate

/-!
# Registering handlers

What `KeAllocateIrq` does to the lines of a table. Its search registers the
handler on the first line that is not private and goes on behind that range
when the number of the line is the one that means a failure.
-/

namespace IrqHandlers

open KernelMemory MmHeap Storage Irq

/-- The handlers that are registered on a line, in order. -/
def handlersOf (m : Storage) (line : Nat) : List Nat :=
  (List.range (word m (line + 8))).map fun i => word m (word m (line + 4) + i * 4)

structure LineEntry where
  type : Nat
  handlers : List Nat
deriving DecidableEq

def lineEntry (m : Storage) (line : Nat) : LineEntry := ⟨word m line, handlersOf m line⟩

/-- The table with the handlers of its lines: a line without a block has no
handlers, and blocks have the size that they were allocated with. -/
structure Populated (table : Nat) (h : Heap) : Prop where
  holds : Holds table h
  filled : ∀ line, IsLine table h.storage line →
    word h.storage (line + 4) = 0 ∧ word h.storage (line + 8) = 0 ∨
      ∃ room, (word h.storage (line + 4), room) ∈ h.live ∧ word h.storage (line + 8) * 12 ≤ room

/-- The handler is in a block in use that is not of the table. -/
def Given (table : Nat) (h : Heap) (handler : Nat) : Prop :=
  ∃ x ∈ h.live, ¬ Fixed table h.storage x.1 ∧ x.1 ≤ handler ∧ handler + 4 ≤ x.1 + x.2

/-- The line has one handler more, and everything else of the table is as it was. -/
structure Gains (table : Nat) (m m' : Storage) (line : Nat) : Prop where
  same : Same table m m'
  ranges : ∀ r, r < word m (table + 4) → ∀ o, o + 4 ≤ 20 →
    word m' (rangeAt m table r + o) = word m (rangeAt m table r + o)
  type : word m' line = word m line
  count : word m' (line + 8) = word m (line + 8) + 1
  others : ∀ other, IsLine table m other → other ≠ line → lineEntry m' other = lineEntry m other

/-- The answer for a handler is NULL or a block that keeps those there were. -/
def SuppliedLine (h : Heap) (range answer : Nat) : Prop :=
  ∀ i ∈ sharedLine h.storage range, answer = 0 ∨ Keeping h answer
    (word h.storage (lineAt h.storage range i + 4))
    ((word h.storage (lineAt h.storage range i + 8) + 1) * 12)

/-- So are the answers for all ranges that the search from range i on comes to. -/
def SuppliedSearch (debug : Bool) (table handler : Nat) (answers : List Nat) :
    Nat → Nat → Heap → Prop
  | 0, _, _ => True
  | left + 1, i, h =>
    SuppliedLine h (rangeAt h.storage table i) (answers.getD i 0) ∧
      Outcome.After (fun r => r.1 = noIrq →
          SuppliedSearch debug table handler answers left (i + 1) r.2)
        (keAllocateIrqFromRange debug h (rangeAt h.storage table i) handler (answers.getD i 0))

/-- The range and the line that a search comes to first, from range i on with the
number of ranges left. -/
def firstShared (m : Storage) (table : Nat) : Nat → Nat → Option (Nat × Nat)
  | 0, _ => none
  | left + 1, i =>
    match sharedLine m (rangeAt m table i) with
    | none => firstShared m table left (i + 1)
    | some k => some (i, k)

/-- The number of a line of a range. -/
def numberOf (m : Storage) (table r i : Nat) : Nat := u32 (i + word m (rangeAt m table r + 8))

/-- What `KeAllocateIrq` should do: after a failure no line has changed, and
otherwise the line that the number denotes has the handler, and no other has changed. -/
def LeavesNoTrace (table handler : Nat) (h : Heap) (r : Nat × Heap) : Prop :=
  (r.1 = noIrq → ∀ line, IsLine table h.storage line →
    lineEntry r.2.storage line = lineEntry h.storage line) ∧
  (r.1 ≠ noIrq → ∃ k, k < word h.storage (table + 4) ∧
    ∃ i, i < word h.storage (rangeAt h.storage table k + 4) ∧
      numberOf h.storage table k i = r.1 ∧
      lineEntry r.2.storage (lineAt h.storage (rangeAt h.storage table k) i) =
        ⟨word h.storage (lineAt h.storage (rangeAt h.storage table k) i),
          handlersOf h.storage (lineAt h.storage (rangeAt h.storage table k) i) ++
            [word h.storage handler]⟩ ∧
      ∀ other, IsLine table h.storage other →
        other ≠ lineAt h.storage (rangeAt h.storage table k) i →
          lineEntry r.2.storage other = lineEntry h.storage other)

instance (table : Nat) (h : Heap) (handler : Nat) : Decidable (Given table h handler) :=
  inferInstanceAs (Decidable (∃ x ∈ h.live, ¬ (_ ∨ _ ∨ ∃ r, r < word h.storage (table + 4) ∧ _) ∧ _))

instance (h : Heap) (range answer : Nat) : Decidable (SuppliedLine h range answer) :=
  inferInstanceAs (Decidable (∀ i ∈ sharedLine h.storage range, _ ∨ Keeping h answer _ _))

instance decidableSuppliedSearch (debug : Bool) (table handler : Nat) (answers : List Nat) :
    (left i : Nat) → (h : Heap) → Decidable (SuppliedSearch debug table handler answers left i h)
  | 0, _, _ => isTrue trivial
  | left + 1, i, _ =>
    have _rest := decidableSuppliedSearch debug table handler answers left (i + 1)
    inferInstanceAs (Decidable (_ ∧ _))

section
variable {debug : Bool} {table line handler answer : Nat} {h h' : Heap} {m m' : Storage}

@[simp] theorem handlersOf_length (m : Storage) (line : Nat) :
    (handlersOf m line).length = word m (line + 8) := by
  simp [handlersOf]

theorem lineEntry_congr (record : ∀ o, o + 4 ≤ 12 → word m' (line + o) = word m (line + o))
    (handlers : ∀ i, i < word m (line + 8) →
      word m' (word m (line + 4) + i * 4) = word m (word m (line + 4) + i * 4)) :
    lineEntry m' line = lineEntry m line := by
  have type : word m' line = word m line := record 0 (by decide)
  have lists : handlersOf m' line = handlersOf m line := by
    rw [handlersOf, handlersOf, record 4 (by decide), record 8 (by decide)]
    apply List.map_congr_left
    intro i member
    exact handlers i (List.mem_range.mp member)
  rw [lineEntry, lineEntry, type, lists]

theorem count_of_entry (same : lineEntry m' line = lineEntry m line) :
    word m' (line + 8) = word m (line + 8) := by
  have lengths := congrArg (fun e => e.handlers.length) same
  simpa only [lineEntry, handlersOf_length] using lengths

theorem Populated.block (populated : Populated table h) (isLine : IsLine table h.storage line)
    (some : 0 < word h.storage (line + 8)) :
    ∃ room, (word h.storage (line + 4), room) ∈ h.live ∧ word h.storage (line + 8) * 12 ≤ room ∧
      ¬ Fixed table h.storage (word h.storage (line + 4)) := by
  obtain ⟨room, live, enough⟩ := (populated.filled line isLine).resolve_left fun none => by omega
  have notNull := Nat.ne_of_gt (populated.holds.sane.proper _ live).1
  exact ⟨room, live, enough, ((populated.holds.owned line isLine).resolve_left notNull).2⟩

theorem Populated.kept_apart (populated : Populated table h) (isLine : IsLine table h.storage line)
    (kept : ∀ x, h.Held x → x < line ∨ line + 12 ≤ x → m x = h.storage x) {x : Nat × Nat}
    {a : Nat} (live : x ∈ h.live) (away : ¬ Fixed table h.storage x.1) (lo : x.1 ≤ a)
    (hi : a + 4 ≤ x.1 + x.2) : word m a = word h.storage a := by
  obtain ⟨y, yLive, yFixed, -, -, ylo, yhi⟩ := populated.holds.tabled.line_held isLine
  have apart := populated.holds.sane.apart_of_start live yLive fun same => away (same ▸ yFixed)
  simp only [Heap.Apart] at apart
  exact word_congr fun i _ => kept _ ⟨x, live, by omega, by omega⟩ (by omega)

/-- What a line gains leaves the rest of the table. -/
theorem Populated.gains (populated : Populated table h) (isLine : IsLine table h.storage line)
    {room b : Nat} (counted : Counted h h' (line + 4) (word h.storage (line + 4)) room b
      (word h.storage (line + 8) + 1)) : Gains table h.storage h'.storage line := by
  have tabled := populated.holds.tabled
  obtain ⟨x, xLive, -, -, -, lo, hi⟩ := tabled.line_held isLine
  obtain ⟨-, same, others⟩ := tabled.counted isLine counted fun some =>
    ((populated.holds.owned line isLine).resolve_left some).2
  have kept : ∀ y, h.Held y → y < line ∨ line + 12 ≤ y → h'.storage y = h.storage y :=
    fun y held away => counted.kept y held (by omega)
  refine ⟨same, fun r hr o ho => ?_, ?_, ?_, fun other isOther differ => ?_⟩
  · obtain ⟨y, array, -, -, ylo, yhi⟩ := tabled.range_held hr
    have apart := tabled.line_apart_range isLine hr
    exact counted.word_kept array (by omega) (by omega) (by omega)
  · exact counted.word_kept xLive lo (by omega) (by omega)
  · exact counted.count
  · refine lineEntry_congr (others other isOther differ) fun i hi => ?_
    obtain ⟨room', live, enough, away⟩ := populated.block isOther (by omega)
    exact populated.kept_apart isLine kept live away (by simp only; omega) (by simp only; omega)

/-- The tables are populated with what a line gains. -/
theorem Populated.counted (populated : Populated table h) (isLine : IsLine table h.storage line)
    {b : Nat} (counted : Counted h h' (line + 4) (word h.storage (line + 4))
      ((word h.storage (line + 8) + 1) * 12) b (word h.storage (line + 8) + 1)) :
    Populated table h' := by
  have tabled := populated.holds.tabled
  have gains := populated.gains isLine counted
  refine ⟨(populated.holds.counted isLine counted (by omega)).1, fun o isOther => ?_⟩
  rw [gains.same.isLine] at isOther
  by_cases own : o = line
  · subst own
    refine Or.inr ⟨(word h.storage (o + 8) + 1) * 12, ?_, ?_⟩
    · rw [counted.pointer]
      exact (counted.live _).mpr (Or.inl rfl)
    · rw [gains.count]
  · obtain ⟨-, -, others⟩ := tabled.counted isLine counted fun some =>
      ((populated.holds.owned line isLine).resolve_left some).2
    rw [others o isOther own 4 (by decide), others o isOther own 8 (by decide)]
    refine (populated.filled o isOther).imp_right fun ⟨room, live, enough⟩ => ⟨room, ?_, enough⟩
    refine counted.stays tabled.sane live fun some eq => ?_
    exact populated.holds.unshared line o isLine isOther own some eq.symm

theorem handlersOf_append {n v : Nat} (before : word m (line + 8) = n)
    (after : word m' (line + 8) = n + 1)
    (old : ∀ i, i < n → word m' (word m' (line + 4) + i * 4) = word m (word m (line + 4) + i * 4))
    (last : word m' (word m' (line + 4) + n * 4) = v) :
    handlersOf m' line = handlersOf m line ++ [v] := by
  have lists : (List.range n).map (fun i => word m' (word m' (line + 4) + i * 4)) =
      handlersOf m line := by
    rw [handlersOf, before]
    exact List.map_congr_left fun i member => old i (List.mem_range.mp member)
  rw [handlersOf, after, List.range_succ, List.map_append, lists, List.map_singleton, last]

/-- A registration keeps the table, and the line has the handler behind those it had. -/
theorem keAddHandlerToIrqLine_gains (handler : Nat) (populated : Populated table h)
    (isLine : IsLine table h.storage line)
    (supplied : answer = 0 ∨ Keeping h answer (word h.storage (line + 4))
      ((word h.storage (line + 8) + 1) * 12)) :
    Outcome.Sound (fun r => Populated table r.2 ∧ Gains table h.storage r.2.storage line ∧
        (Given table h handler → handlersOf r.2.storage line =
          handlersOf h.storage line ++ [word h.storage handler]))
      (keAddHandlerToIrqLine debug h line handler answer) := by
  have tabled := populated.holds.tabled
  obtain ⟨x, xLive, xFixed, -, -, lo, hi⟩ := tabled.line_held isLine
  have behind : word h.storage (line + 4 + 4) = word h.storage (line + 8) := by
    rw [Nat.add_assoc]
  obtain ⟨room, array, enough⟩ : ∃ room, (word h.storage (line + 4) = 0 ∨
      (word h.storage (line + 4), room) ∈ h.live) ∧
      (word h.storage (line + 4) ≠ 0 → word h.storage (line + 8) * 12 ≤ room) := by
    rcases populated.filled line isLine with none | ⟨room, live, enough⟩
    · exact ⟨0, Or.inl none.1, fun some => absurd none.1 some⟩
    · exact ⟨room, Or.inr live, fun _ => enough⟩
  have grows := growArray_answered tabled.sane rfl behind array enough
    ⟨x, xLive, by omega, by omega⟩ supplied
  refine keAddHandlerToIrqLine_sound ⟨x, xLive, lo, hi⟩ grows ?_
  intro h1 m entry grown rows hm counted
  have fresh := grown.fresh.1
  simp only [Heap.Proper, Nat.add_mul] at fresh
  set n := word h.storage (line + 8) with hn
  have gains := populated.gains isLine counted
  have lineFresh := grown.fresh.2 x xLive
  simp only [Heap.Apart, Nat.add_mul] at lineFresh
  refine ⟨populated.counted isLine counted, gains, fun given => ?_⟩
  obtain ⟨g, gLive, gAway, glo, ghi⟩ := given
  have givenFresh := grown.fresh.2 g gLive
  have givenApart := tabled.sane.apart_of_start gLive xLive fun same => gAway (same ▸ xFixed)
  simp only [Heap.Apart, Nat.add_mul] at givenFresh givenApart
  have pointer : word m (line + 4) = answer := counted.pointer
  refine handlersOf_append hn.symm gains.count (fun i hi => ?_) ?_
  · -- the growth has kept the handlers there were
    obtain ⟨_, live, -, -⟩ := populated.block isLine (by omega)
    have notNull := Nat.ne_of_gt (tabled.sane.proper _ live).1
    simp only [pointer]
    refine word_within (n := n * 4) (fun j hj => ?_) (by omega)
    rw [hm, copyUp_outside _ (by omega), setWord_outside _ (by omega)]
    exact rows notNull j (by omega)
  · simp only [pointer]
    refine word_congr fun i hi => ?_
    rw [hm, copyUp_inside _ (by omega) hi, setWord_outside _ (by omega)]
    exact grown.kept _ ⟨g, gLive, by omega, by omega⟩ (by omega)

theorem sharedLine_lt {range i : Nat} (found : sharedLine m range = some i) :
    i < word m (range + 4) :=
  List.mem_range.mp (List.mem_of_find?_eq_some found)

theorem lineAt_ne (tabled : Tabled table h) {k k' i i' : Nat}
    (hk : k < word h.storage (table + 4)) (hk' : k' < word h.storage (table + 4))
    (hi : i < word h.storage (rangeAt h.storage table k + 4))
    (hi' : i' < word h.storage (rangeAt h.storage table k' + 4)) (differ : k ≠ k') :
    lineAt h.storage (rangeAt h.storage table k) i ≠
      lineAt h.storage (rangeAt h.storage table k') i' := by
  obtain ⟨live, -⟩ := tabled.lines k hk
  obtain ⟨live', -⟩ := tabled.lines k' hk'
  have starts := fun eq => differ (tabled.linesApart k k' hk hk' eq)
  have apart := tabled.sane.apart_of_start live live' starts
  simp only [Heap.Apart] at apart
  simp only [lineAt]
  omega

/-- The first shared line of a range gets the handler, and its number is returned. -/
theorem keAllocateIrqFromRange_gains (handler : Nat) (populated : Populated table h) {k i : Nat}
    (hk : k < word h.storage (table + 4))
    (found : sharedLine h.storage (rangeAt h.storage table k) = some i)
    (supplied : SuppliedLine h (rangeAt h.storage table k) answer) :
    Outcome.Sound (fun r => Populated table r.2 ∧ r.1 = numberOf h.storage table k i ∧
        Gains table h.storage r.2.storage (lineAt h.storage (rangeAt h.storage table k) i) ∧
        (Given table h handler →
          handlersOf r.2.storage (lineAt h.storage (rangeAt h.storage table k) i) =
            handlersOf h.storage (lineAt h.storage (rangeAt h.storage table k) i) ++
              [word h.storage handler]))
      (keAllocateIrqFromRange debug h (rangeAt h.storage table k) handler answer) := by
  rw [keAllocateIrqFromRange, found]
  have isLine : IsLine table h.storage (lineAt h.storage (rangeAt h.storage table k) i) :=
    ⟨k, hk, i, sharedLine_lt found, rfl⟩
  refine (keAddHandlerToIrqLine_gains handler populated isLine
    (supplied i found)).bind ?_
  rintro ⟨_, h1⟩ ⟨kept, gains, added⟩
  refine ⟨kept, ?_, gains, added⟩
  simp only [numberOf, gains.ranges k hk 8 (by decide)]

theorem keAllocateIrqFromRange_none {range : Nat} (none0 : sharedLine h.storage range = none) :
    keAllocateIrqFromRange debug h range handler answer = .ok (noIrq, h) := by
  rw [keAllocateIrqFromRange, none0]

/-- What a search from range i on leaves: the lines of the ranges before are as
they were, and a line behind has one handler more if it was successful. -/
structure Searched (table i : Nat) (h : Heap) (r : Nat × Heap) : Prop where
  populated : Populated table r.2
  same : Same table h.storage r.2.storage
  earlier : ∀ k, k < i → k < word h.storage (table + 4) → ∀ x,
    x < word h.storage (rangeAt h.storage table k + 4) →
      lineEntry r.2.storage (lineAt h.storage (rangeAt h.storage table k) x) =
        lineEntry h.storage (lineAt h.storage (rangeAt h.storage table k) x)
  later : r.1 ≠ noIrq → ∃ k, i ≤ k ∧ k < word h.storage (table + 4) ∧
    ∃ x, x < word h.storage (rangeAt h.storage table k + 4) ∧
      word r.2.storage (lineAt h.storage (rangeAt h.storage table k) x + 8) =
        word h.storage (lineAt h.storage (rangeAt h.storage table k) x + 8) + 1

theorem same_refl (m : Storage) : Same table m m := ⟨rfl, rfl, fun _ _ => rfl, fun _ _ => rfl⟩

theorem allocateFrom_searched {left i : Nat} {answers : List Nat} (populated : Populated table h)
    (inTable : i + left ≤ word h.storage (table + 4))
    (supplied : SuppliedSearch debug table handler answers left i h) :
    Outcome.Sound (Searched table i h) (allocateFrom debug table handler answers left i h) := by
  induction left generalizing i h with
  | zero => exact ⟨populated, same_refl _, fun _ _ _ _ _ => rfl, fun some => absurd rfl some⟩
  | succ left ih =>
    obtain ⟨now, rest⟩ := supplied
    rw [allocateFrom]
    cases found : sharedLine h.storage (rangeAt h.storage table i) with
    | none =>
      have passed : keAllocateIrqFromRange debug h (rangeAt h.storage table i) handler
          (answers.getD i 0) = .ok (noIrq, h) := keAllocateIrqFromRange_none found
      simp only [passed, Outcome.ok_bind, if_true]
      refine (ih populated (by omega) (rest _ passed rfl)).mono fun r searched => ?_
      refine ⟨searched.populated, searched.same, fun k hk => searched.earlier k (by omega), fun some => ?_⟩
      obtain ⟨k, behind, gained⟩ := searched.later some
      exact ⟨k, by omega, gained⟩
    | some x =>
      have hi : i < word h.storage (table + 4) := by omega
      have hx := sharedLine_lt found
      refine ((keAllocateIrqFromRange_gains handler populated hi found
        now).strengthen fun r ran kept => And.intro kept (rest r ran)).bind ?_
      rintro ⟨irq, h1⟩ ⟨⟨populated1, -, gains, -⟩, later⟩
      simp only at populated1 gains later
      have same := gains.same
      have earlier : ∀ k, k ≠ i → k < word h.storage (table + 4) → ∀ y,
          y < word h.storage (rangeAt h.storage table k + 4) →
            lineEntry h1.storage (lineAt h.storage (rangeAt h.storage table k) y) =
              lineEntry h.storage (lineAt h.storage (rangeAt h.storage table k) y) :=
        fun k other hk y hy => gains.others _ ⟨k, hk, y, hy, rfl⟩
          (lineAt_ne populated.holds.tabled hk hi hy hx other)
      by_cases missed : irq = noIrq
      · simp only [missed, if_true]
        have inTable1 : i + 1 + left ≤ word h1.storage (table + 4) := by
          rw [same.count]
          omega
        refine (ih populated1 inTable1 (later missed)).mono fun r searched => ?_
        refine ⟨searched.populated, same.trans searched.same, fun k hk inside y hy => ?_, fun some => ?_⟩
        · have after := searched.earlier k (by omega) (by rw [same.count]; exact inside) y
            (by rw [same.rangeAt_eq, same.nLines k inside]; exact hy)
          rw [same.lineAt_eq inside] at after
          exact after.trans (earlier k (by omega) inside y hy)
        · obtain ⟨k, behind, hk, y, hy, gained⟩ := searched.later some
          rw [same.count] at hk
          rw [same.rangeAt_eq, same.nLines k hk] at hy
          rw [same.lineAt_eq hk] at gained
          rw [count_of_entry (earlier k (by omega) hk y hy)] at gained
          exact ⟨k, by omega, hk, y, hy, gained⟩
      · simp only [missed, if_false]
        refine (Outcome.sound_check _).bind fun _ _ => ?_
        exact ⟨populated1, same, fun k hk => earlier k (by omega), fun _ =>
          ⟨i, Nat.le_refl _, hi, x, hx, gains.count⟩⟩

theorem allocateFrom_passes {left i : Nat} {answers : List Nat}
    (found : sharedLine h.storage (rangeAt h.storage table i) = none) :
    allocateFrom debug table handler answers (left + 1) i h =
      allocateFrom debug table handler answers left (i + 1) h := by
  have skipped : keAllocateIrqFromRange debug h (rangeAt h.storage table i) handler
      (answers.getD i 0) = .ok (noIrq, h) := keAllocateIrqFromRange_none found
  rw [allocateFrom, skipped, Outcome.ok_bind]
  exact if_pos rfl

/-- A search passes over the ranges before the first one with a shared line. -/
theorem allocateFrom_none {left i : Nat} {answers : List Nat}
    (none0 : firstShared h.storage table left i = none) :
    allocateFrom debug table handler answers left i h = .ok (noIrq, h) := by
  induction left generalizing i with
  | zero => rfl
  | succ left ih =>
    rw [firstShared] at none0
    cases found : sharedLine h.storage (rangeAt h.storage table i) with
    | none =>
      rw [found] at none0
      rw [allocateFrom_passes found]
      exact ih none0
    | some x =>
      rw [found] at none0
      cases none0

theorem allocateFrom_first (debug : Bool) (handler : Nat) (answers : List Nat) {left i k x : Nat}
    (first : firstShared h.storage table left i = some (k, x)) :
    ∃ rest, k + (rest + 1) = i + left ∧ sharedLine h.storage (rangeAt h.storage table k) = some x ∧
      allocateFrom debug table handler answers left i h =
        allocateFrom debug table handler answers (rest + 1) k h ∧
      (SuppliedSearch debug table handler answers left i h →
        SuppliedSearch debug table handler answers (rest + 1) k h) := by
  induction left generalizing i with
  | zero => cases first
  | succ left ih =>
    rw [firstShared] at first
    cases found : sharedLine h.storage (rangeAt h.storage table i) with
    | none =>
      rw [found] at first
      obtain ⟨rest, inTable, here, same, supplied⟩ := ih first
      refine ⟨rest, by omega, here, ?_, fun given => ?_⟩
      · rw [← same, allocateFrom_passes found]
      · exact supplied (given.2 _ (keAllocateIrqFromRange_none found) rfl)
    | some y =>
      rw [found] at first
      cases first
      exact ⟨left, rfl, found, rfl, id⟩

/-- When the search goes on behind a line that gained a handler, the line keeps
it, and another one gains it if the search is successful. -/
theorem gains_behind {k x : Nat} {h1 : Heap} {r : Nat × Heap} (tabled : Tabled table h)
    (hk : k < word h.storage (table + 4))
    (hx : x < word h.storage (rangeAt h.storage table k + 4))
    (gains : Gains table h.storage h1.storage (lineAt h.storage (rangeAt h.storage table k) x))
    (searched : Searched table (k + 1) h1 r) :
    word r.2.storage (lineAt h.storage (rangeAt h.storage table k) x + 8) =
        word h.storage (lineAt h.storage (rangeAt h.storage table k) x + 8) + 1 ∧
      (r.1 ≠ noIrq → ∃ other, IsLine table h.storage other ∧
        other ≠ lineAt h.storage (rangeAt h.storage table k) x ∧
        word r.2.storage (other + 8) = word h.storage (other + 8) + 1) := by
  have same := gains.same
  constructor
  · have kept := searched.earlier k (Nat.lt_succ_self k) (by rw [same.count]; exact hk) x
      (by rw [same.rangeAt_eq, same.nLines k hk]; exact hx)
    rw [same.lineAt_eq hk] at kept
    exact (count_of_entry kept).trans gains.count
  · intro successful
    obtain ⟨k', behind, hk', x', hx', gained⟩ := searched.later successful
    rw [same.count] at hk'
    rw [same.rangeAt_eq, same.nLines k' hk'] at hx'
    rw [same.lineAt_eq hk'] at gained
    have differ := lineAt_ne tabled hk' hk hx' hx (by omega)
    have isOther : IsLine table h.storage (lineAt h.storage (rangeAt h.storage table k') x') :=
      ⟨k', hk', x', hx', rfl⟩
    rw [count_of_entry (gains.others _ isOther differ)] at gained
    exact ⟨_, isOther, differ, gained⟩

/-- A line whose number is that of a failure keeps the handler. -/
theorem traces_left {r : Nat × Heap} (isLine : IsLine table h.storage line)
    (gained : word r.2.storage (line + 8) = word h.storage (line + 8) + 1)
    (second : r.1 ≠ noIrq → ∃ other, IsLine table h.storage other ∧ other ≠ line ∧
      word r.2.storage (other + 8) = word h.storage (other + 8) + 1) :
    ¬ LeavesNoTrace table handler h r := by
  rintro ⟨failed, successful⟩
  by_cases missed : r.1 = noIrq
  · have unchanged := count_of_entry (failed missed line isLine)
    omega
  · obtain ⟨k, -, x, -, -, -, others⟩ := successful missed
    obtain ⟨other, isOther, differ, gained'⟩ := second missed
    by_cases here : line = lineAt h.storage (rangeAt h.storage table k) x
    · have unchanged := count_of_entry (others other isOther (by rw [← here]; exact differ))
      omega
    · have unchanged := count_of_entry (others line isLine here)
      omega

/-- What becomes of a search that comes to this line first: it returns the number
of the line, or goes on behind it if that number means a failure. -/
inductive Allocated (table handler : Nat) (h : Heap) (k x : Nat) (r : Nat × Heap) : Prop where
  | done (some : r.1 ≠ noIrq) (number : r.1 = numberOf h.storage table k x)
      (populated : Populated table r.2)
      (gains : Gains table h.storage r.2.storage (lineAt h.storage (rangeAt h.storage table k) x))
      (added : Given table h handler →
        handlersOf r.2.storage (lineAt h.storage (rangeAt h.storage table k) x) =
          handlersOf h.storage (lineAt h.storage (rangeAt h.storage table k) x) ++
            [word h.storage handler])
  | wentOn (missed : numberOf h.storage table k x = noIrq) (populated : Populated table r.2)
      (same : Same table h.storage r.2.storage)
      (gained : word r.2.storage (lineAt h.storage (rangeAt h.storage table k) x + 8) =
        word h.storage (lineAt h.storage (rangeAt h.storage table k) x + 8) + 1)
      (second : r.1 ≠ noIrq → ∃ other, IsLine table h.storage other ∧
        other ≠ lineAt h.storage (rangeAt h.storage table k) x ∧
        word r.2.storage (other + 8) = word h.storage (other + 8) + 1)

theorem keAllocateIrq_first {answers : List Nat} {r : Nat × Heap} {k x : Nat}
    (populated : Populated table h)
    (supplied : SuppliedSearch debug table handler answers (word h.storage (table + 4)) 0 h)
    (returned : keAllocateIrq debug table h answers handler = .ok r)
    (first : firstShared h.storage table (word h.storage (table + 4)) 0 = some (k, x)) :
    k < word h.storage (table + 4) ∧ x < word h.storage (rangeAt h.storage table k + 4) ∧
      Allocated table handler h k x r := by
  obtain ⟨rest, inTable, here, same, suppliedHere⟩ := allocateFrom_first debug handler answers first
  have hk : k < word h.storage (table + 4) := by omega
  have hx := sharedLine_lt here
  refine ⟨hk, hx, ?_⟩
  obtain ⟨now, later⟩ := suppliedHere supplied
  rw [keAllocateIrq, same, allocateFrom] at returned
  obtain ⟨⟨irq, h1⟩, ran, returned⟩ := Outcome.bind_eq_ok.mp returned
  obtain ⟨populated1, number, gains, added⟩ :=
    (keAllocateIrqFromRange_gains handler populated hk here now).after _ ran
  simp only at populated1 number gains added returned
  by_cases missed : irq = noIrq
  · rw [if_pos missed] at returned
    have inTable1 : k + 1 + rest ≤ word h1.storage (table + 4) := by
      rw [gains.same.count]
      omega
    have searched := (allocateFrom_searched populated1 inTable1 (later _ ran missed)).after _
      returned
    obtain ⟨gained, second⟩ := gains_behind populated.holds.tabled hk hx gains searched
    exact .wentOn (number.symm.trans missed) searched.populated (gains.same.trans searched.same)
      gained second
  · rw [if_neg missed] at returned
    obtain ⟨_, -, returned⟩ := Outcome.bind_eq_ok.mp returned
    cases returned
    exact .done missed number populated1 gains added

/-- `KeAllocateIrq` leaves a trace exactly when the number of the line that it
comes to first is the one that means a failure. -/
theorem keAllocateIrq_leavesNoTrace_iff {answers : List Nat} {r : Nat × Heap}
    (populated : Populated table h) (given : Given table h handler)
    (supplied : SuppliedSearch debug table handler answers (word h.storage (table + 4)) 0 h)
    (returned : keAllocateIrq debug table h answers handler = .ok r) :
    LeavesNoTrace table handler h r ↔
      ∀ k x, firstShared h.storage table (word h.storage (table + 4)) 0 = some (k, x) →
        numberOf h.storage table k x ≠ noIrq := by
  cases first : firstShared h.storage table (word h.storage (table + 4)) 0 with
  | none =>
    rw [keAllocateIrq, allocateFrom_none first] at returned
    cases returned
    exact iff_of_true ⟨fun _ _ _ => rfl, fun some => absurd rfl some⟩
      fun k x found => by cases found
  | some found =>
    obtain ⟨k, x⟩ := found
    obtain ⟨hk, hx, allocated⟩ := keAllocateIrq_first populated supplied returned first
    cases allocated with
    | done some number _ gains added =>
      refine iff_of_true ⟨fun failed => absurd failed some, fun _ => ⟨k, hk, x, hx,
        number.symm, ?_, gains.others⟩⟩ fun k' x' found => ?_
      · rw [lineEntry, gains.type, added given]
      · cases found
        rw [← number]
        exact some
    | wentOn missed _ _ gained second =>
      exact iff_of_false (traces_left ⟨k, hk, x, hx, rfl⟩ gained second) fun all =>
        all k x rfl missed

/-- The stores of `KeFreeIrq` into a line. -/
def clearLine (m : Storage) (line : Nat) : Storage := (m.setWord (line + 8) 0).setWord line irqTypeShared

/-- The line has no handlers and is shared, and the rest of the table is as it was. -/
structure Clears (table : Nat) (m m' : Storage) (line : Nat) : Prop where
  same : Same table m m'
  ranges : ∀ r, r < word m (table + 4) → ∀ o, o + 4 ≤ 20 →
    word m' (rangeAt m table r + o) = word m (rangeAt m table r + o)
  others : ∀ other, IsLine table m other → other ≠ line → ∀ o, o + 4 ≤ 12 →
    word m' (other + o) = word m (other + o)
  pointer : word m' (line + 4) = word m (line + 4)
  entry : lineEntry m' line = ⟨irqTypeShared, []⟩
  count : word m' (line + 8) = 0

theorem clearLine_outside (m : Storage) {x : Nat}
    (outside : x < line ∨ line + 12 ≤ x ∨ line + 4 ≤ x ∧ x < line + 8) :
    clearLine m line x = m x := by
  rw [clearLine, setWord_outside _ (by omega), setWord_outside _ (by omega)]

theorem clearLine_clears (tabled : Tabled table h) (isLine : IsLine table h.storage line) :
    Clears table h.storage (clearLine h.storage line) line := by
  have count : word (clearLine h.storage line) (line + 8) = 0 :=
    (word_setWord_other _ (by omega)).trans (word_setWord _ _ (by decide))
  have type : word (clearLine h.storage line) line = irqTypeShared := word_setWord _ _ (by decide)
  refine ⟨tabled.same_of_line isLine fun x _ away => clearLine_outside _ (by omega),
    fun r hr o ho => ?_, fun other isOther differ o ho => ?_, ?_, ?_, count⟩
  · have apart := tabled.line_apart_range isLine hr
    exact word_congr fun i hi => clearLine_outside _ (by omega)
  · have apart := tabled.lines_apart isLine isOther differ
    exact word_congr fun i hi => clearLine_outside _ (by omega)
  · exact word_congr fun i hi => clearLine_outside _ (by omega)
  · rw [lineEntry, handlersOf, count, type]
    rfl

theorem freeLine_after {range : Nat} (freed : freeLine h range line = .ok h') :
    h'.storage = clearLine h.storage line ∧ word (clearLine h.storage line) (range + 16) ≠ 0 ∧
      ∃ h1, mmFree h (word h.storage (line + 4)) = .ok h1 ∧ h'.live = h1.live := by
  obtain ⟨h1, returned, rest⟩ := Outcome.bind_eq_ok.mp freed
  have bytes := mmFree_storage returned
  obtain ⟨_, checked, same⟩ := Outcome.bind_eq_ok.mp rest
  cases same
  rw [bytes] at checked
  exact ⟨congrArg (clearLine · line) bytes, Outcome.check_eq_ok.mp checked, h1, returned, rfl⟩

theorem Populated.created (populated : Populated table h) {lines n : Nat} (holds : Holds table h')
    (created : Created table h h' lines n) : Populated table h' := by
  refine ⟨holds, fun line isLine => ?_⟩
  rcases created.longer.isLine isLine with old | ⟨i, hi, rfl⟩
  · rw [created.kept line old 4 (by decide), created.kept line old 8 (by decide)]
    refine (populated.filled line old).imp_right fun ⟨room, live, enough⟩ => ⟨room, ?_, enough⟩
    have notNull := Nat.ne_of_gt (populated.holds.sane.proper _ live).1
    have away := ((populated.holds.owned line old).resolve_left notNull).2
    exact created.stays _ live fun same => away (Or.inr (Or.inl same))
  · exact Or.inl ⟨created.clear i hi 4 (by decide), created.clear i hi 8 (by decide)⟩

theorem suppliedSearch_of_placed {left i : Nat} {answers : List Nat}
    (supplied : SuppliedFrom debug table handler answers left i h) :
    SuppliedSearch debug table handler answers left i h := by
  induction left generalizing i h with
  | zero => trivial
  | succ left ih =>
    obtain ⟨now, later⟩ := supplied
    exact ⟨fun x found => (now x found).keeping, fun r ran missed => ih (later r ran missed)⟩

/-- A line without handlers is freed. -/
theorem freeLine_populated (populated : Populated table h) (holds' : Holds table h') {r : Nat}
    (isLine : IsLine table h.storage line) (hr : r < word h.storage (table + 4))
    (quiet : word h.storage (line + 4) = 0 ∨ word h.storage (rangeAt h.storage table r + 16) = 0)
    (freed : freeLine h (rangeAt h.storage table r) line = .ok h') : Populated table h' := by
  refine ⟨holds', fun other isOther => ?_⟩
  have clears := clearLine_clears populated.holds.tabled isLine
  obtain ⟨bytes, callback, h1, returned, live⟩ := freeLine_after freed
  rw [clears.ranges r hr 16 (by decide)] at callback
  have null := quiet.resolve_right callback
  rw [null, mmFree, if_pos rfl] at returned
  cases returned
  rw [bytes] at isOther ⊢
  rw [live]
  by_cases own : other = line
  · rw [own]
    exact Or.inl ⟨clears.pointer.trans null, clears.count⟩
  · rw [clears.same.isLine] at isOther
    rw [clears.others other isOther own 4 (by decide),
      clears.others other isOther own 8 (by decide)]
    exact populated.filled other isOther

theorem keFreeIrq_populated (populated : Populated table h) {irq : UInt32}
    (nothing : NothingFreed table h (.free irq)) :
    Outcome.Sound (Populated table) (keFreeIrq table h irq.toNat) := by
  have kept := keFreeIrq_holds populated.holds nothing
  cases found : rangeOf h.storage table irq.toNat with
  | none =>
    rw [keFreeIrq, found]
    exact populated
  | some range =>
    obtain ⟨r, hr, rfl⟩ := Holds.rangeOf_eq found
    obtain ⟨hi, quiet⟩ := nothing _ found
    refine kept.strengthen fun h' freed holds' => ?_
    rw [keFreeIrq, found] at freed
    exact freeLine_populated populated holds' ⟨r, hr, _, hi, rfl⟩ hr quiet freed

theorem step_populated (populated : Populated table h) (op : Op) (clear : Clear debug table h op) :
    Outcome.Sound (Populated table) (step debug table h op) := by
  obtain ⟨nothing, supplied⟩ := clear
  cases op with
  | create answers start nLines alloc free =>
    rw [step]
    refine (keCreateIrqRange_created populated.holds nothing supplied).bind ?_
    exact fun r kept => populated.created kept.1 kept.2
  | allocate answers handler =>
    rw [step]
    refine (allocateFrom_searched populated (by omega) (suppliedSearch_of_placed supplied)).bind ?_
    exact fun _ searched => searched.populated
  | free irq =>
    rw [step]
    exact keFreeIrq_populated populated nothing

theorem cleared_populated (sane : h.Sane) (static : (table, 8) ∈ h.live)
    (cleared : word h.storage table = 0 ∧ word h.storage (table + 4) = 0) : Populated table h := by
  have none0 : ∀ r, ¬ r < word h.storage (table + 4) := fun r => by
    rw [cleared.2]
    exact Nat.not_lt_zero r
  exact ⟨cleared_holds sane static cleared, fun line ⟨r, hr, _⟩ => absurd hr (none0 r)⟩

theorem run_populated (sane : h.Sane) (static : (table, 8) ∈ h.live)
    (cleared : word h.storage table = 0 ∧ word h.storage (table + 4) = 0) (ops : List Op)
    (clear : Runs.Meets (step debug table) (Clear debug table) h ops) :
    Outcome.Sound (Populated table) (Runs.run (step debug table) h ops) :=
  Runs.run_sound (fun _ op populated ok => step_populated populated op ok)
    (cleared_populated sane static cleared) clear

end

/-- Cleared storage with `g_irq_table` at 100 and a handler at 50. -/
def withHandler : Heap := ⟨fun _ => 0, [(100, 8), (50, 4)]⟩

theorem withHandler_populated (ops : List Op)
    (clear : Runs.Meets (step false 100) (Clear false 100) withHandler ops)
    (returns : (Runs.run (step false 100) withHandler ops).returns = true) :
    ∃ h, Runs.run (step false 100) withHandler ops = .ok h ∧ Populated 100 h :=
  (run_populated ⟨by decide, by decide⟩ (by decide) (by decide) ops clear).returned returns

/-- Two lines with the ids 16 and 17. -/
theorem first_line_leaves_no_trace :
    ∃ h r, Runs.run (step false 100) withHandler [createTwo] = .ok h ∧
      keAllocateIrq false 100 h [2700] 50 = .ok r ∧ LeavesNoTrace 100 50 h r := by
  obtain ⟨h, ran, populated⟩ := withHandler_populated [createTwo] (by decide +kernel)
    (by decide +kernel)
  have facts : Outcome.Sound (fun h => Given 100 h 50 ∧
      SuppliedSearch false 100 50 [2700] (word h.storage 104) 0 h ∧
      (keAllocateIrq false 100 h [2700] 50).returns = true ∧
      firstShared h.storage 100 (word h.storage 104) 0 = some (0, 0) ∧
      numberOf h.storage 100 0 0 = 16)
    (Runs.run (step false 100) withHandler [createTwo]) := by decide +kernel
  obtain ⟨given, supplied, returns, first, number⟩ := facts.after h ran
  obtain ⟨r, returned⟩ := Outcome.returns_iff.mp returns
  refine ⟨h, r, ran, returned, (keAllocateIrq_leavesNoTrace_iff populated given supplied
    returned).mpr fun k x found => ?_⟩
  cases first.symm.trans found
  rw [number]
  decide

/-- A line with the number 0xFFFFFFFF gets the handler, and the call fails. -/
theorem last_number_leaves_trace :
    ∃ h r, Runs.run (step false 100) withHandler
        [.create ⟨3000, 2900, 2800⟩ 0xFFFFFFFF 1 0x1234 0x5678] = .ok h ∧
      keAllocateIrq false 100 h [2700] 50 = .ok r ∧ r.1 = noIrq ∧
      lineEntry h.storage 2900 = ⟨0, []⟩ ∧ lineEntry r.2.storage 2900 = ⟨0, [0]⟩ ∧
      ¬ LeavesNoTrace 100 50 h r := by
  have facts : Outcome.Sound (fun h => Outcome.Sound (fun r => r.1 = noIrq ∧
        lineEntry h.storage 2900 = ⟨0, []⟩ ∧ lineEntry r.2.storage 2900 = ⟨0, [0]⟩ ∧
        word h.storage (100 + 4) = 1 ∧ word h.storage (rangeAt h.storage 100 0 + 4) = 1 ∧
        lineAt h.storage (rangeAt h.storage 100 0) 0 = 2900)
      (keAllocateIrq false 100 h [2700] 50) ∧ (keAllocateIrq false 100 h [2700] 50).returns = true)
    (Runs.run (step false 100) withHandler
      [.create ⟨3000, 2900, 2800⟩ 0xFFFFFFFF 1 0x1234 0x5678]) := by decide +kernel
  obtain ⟨h, ran, called, returns⟩ := facts.returned (by decide +kernel)
  obtain ⟨r, returned, failed, before, after, ranges, lines, line⟩ := called.returned returns
  refine ⟨h, r, ran, returned, failed, before, after, fun noTrace => ?_⟩
  have unchanged := noTrace.1 failed 2900 ⟨0, by omega, 0, by omega, line.symm⟩
  rw [before, after] at unchanged
  cases unchanged

end IrqHandlers
