import Mathlib.Data.List.Basic
import UDos.Kernel.Memory
import UDos.Library.Loops
import UDos.Library.Words

/-!
# The crash printout

`DbgGetSymbol` and `DbgUnwindStack` of `debug.c`. The search for a symbol takes
entries with smaller addresses only, and the walk over the save areas follows
the words at 8 until one is NULL. What is printed is the result of the walk.
-/

namespace Debug

open KernelMemory StateTransition Loops

/-- `struct DebugSymData`; there is no name at the end of a table. -/
structure Symbol where
  addr : UInt32
  name : Option String
deriving DecidableEq

structure Entry where
  addr : UInt32
  name : String

/-- The table with these entries and `{ NULL, NULL }` behind them. -/
def symTab (entries : List Entry) : List Symbol :=
  entries.map (fun e => ⟨e.addr, some e.name⟩) ++ [⟨0, none⟩]

/-- The address in the entry that a pointer into the table is for. -/
def addrAt (table : List Symbol) (i : Nat) : UInt32 := ((table[i]?).map Symbol.addr).getD 0

/-- The loop of `DbgGetSymbol` with `sym` and `r_sym` as indexes. An entry that is
taken is looked at again. -/
def getSymbolLoop (table : List Symbol) (addr : UInt32) : Nat → Nat → Nat → Outcome Nat
  | 0, _, _ => .diverge
  | fuel + 1, i, r =>
    match table[i]? with
    | none => .fault
    | some sym =>
      if sym.name = none then .ok r
      else if sym.addr < addr ∧ addrAt table r < sym.addr then getSymbolLoop table addr fuel i i
      else getSymbolLoop table addr fuel (i + 1) r

def dbgGetSymbol (fuel : Nat) (table : List Symbol) (addr : UInt32) : Outcome Nat :=
  getSymbolLoop table addr fuel 0 0

/-- The search ends at an entry that has the greatest address up to this one. -/
def FindsNearest (entries : List Entry) (addr : UInt32) : Prop :=
  ∃ fuel i e, dbgGetSymbol fuel (symTab entries) addr = .ok i ∧ entries[i]? = some e ∧
    e.addr ≤ addr ∧ ∀ e' ∈ entries, e'.addr ≤ addr → e'.addr ≤ e.addr

section
variable {entries : List Entry} {addr : UInt32} {i r fuel : Nat}

theorem symTab_entry {e : Entry} (here : entries[i]? = some e) :
    (symTab entries)[i]? = some ⟨e.addr, some e.name⟩ := by
  have inside := (List.getElem?_eq_some_iff.mp here).1
  rw [symTab, List.getElem?_append_left (by simpa using inside), List.getElem?_map, here]
  rfl

theorem symTab_end (entries : List Entry) :
    (symTab entries)[entries.length]? = some ⟨0, none⟩ := by
  rw [symTab, List.getElem?_append_right (by simp)]
  simp

theorem addrAt_entry {e : Entry} (here : entries[i]? = some e) :
    addrAt (symTab entries) i = e.addr := by
  rw [addrAt, symTab_entry here]
  rfl

/-- What the search has found among the first i entries. -/
structure Found (entries : List Entry) (addr : UInt32) (i r : Nat) : Prop where
  inside : r < entries.length
  below : r = 0 ∨ addrAt (symTab entries) r < addr
  greatest : ∀ j e, j < i → entries[j]? = some e → e.addr < addr →
    e.addr ≤ addrAt (symTab entries) r
  first : addrAt (symTab entries) 0 ≤ addrAt (symTab entries) r

theorem Found.pass (found : Found entries addr i r) {e : Entry} (here : entries[i]? = some e)
    (worse : ¬ (e.addr < addr ∧ addrAt (symTab entries) r < e.addr)) :
    Found entries addr (i + 1) r := by
  refine ⟨found.inside, found.below, fun j e' hj at_j less => ?_, found.first⟩
  by_cases last : j = i
  · rw [last, here] at at_j
    cases at_j
    exact UInt32.not_lt.mp fun better => worse ⟨less, better⟩
  · exact found.greatest j e' (by omega) at_j less

theorem Found.take (found : Found entries addr i r) {e : Entry} (here : entries[i]? = some e)
    (less : e.addr < addr) (better : addrAt (symTab entries) r < e.addr) :
    Found entries addr i i := by
  have at_i := addrAt_entry here
  rw [← at_i] at less better
  have le := UInt32.le_of_lt better
  exact ⟨(List.getElem?_eq_some_iff.mp here).1, Or.inr less,
    fun j e' hj at_j less' => UInt32.le_trans (found.greatest j e' hj at_j less') le,
    UInt32.le_trans found.first le⟩

theorem getSymbolLoop_pass {e : Entry} (here : entries[i]? = some e)
    (worse : ¬ (e.addr < addr ∧ addrAt (symTab entries) r < e.addr)) (fuel : Nat) :
    getSymbolLoop (symTab entries) addr (fuel + 1) i r =
      getSymbolLoop (symTab entries) addr fuel (i + 1) r := by
  rw [getSymbolLoop, symTab_entry here]
  simp only [reduceCtorEq, if_false, worse]

theorem getSymbolLoop_take {e : Entry} (here : entries[i]? = some e) (less : e.addr < addr)
    (better : addrAt (symTab entries) r < e.addr) (fuel : Nat) :
    getSymbolLoop (symTab entries) addr (fuel + 1) i r =
      getSymbolLoop (symTab entries) addr fuel i i := by
  rw [getSymbolLoop, symTab_entry here]
  simp only [reduceCtorEq, if_false, less, better, and_self, if_true]

/-- An entry needs two turns when it is taken. -/
theorem getSymbolLoop_found {left : Nat} (found : Found entries addr i r)
    (counted : i + left = entries.length) (enough : 2 * left < fuel) :
    ∃ r', getSymbolLoop (symTab entries) addr fuel i r = .ok r' ∧
      Found entries addr entries.length r' := by
  induction left generalizing i r fuel with
  | zero =>
    obtain ⟨fuel, rfl⟩ : ∃ k, fuel = k + 1 := ⟨fuel - 1, by omega⟩
    obtain rfl : i = entries.length := counted
    refine ⟨r, ?_, found⟩
    rw [getSymbolLoop, symTab_end]
    rfl
  | succ left ih =>
    obtain ⟨fuel, rfl⟩ : ∃ k, fuel = k + 2 := ⟨fuel - 2, by omega⟩
    obtain ⟨e, here⟩ : ∃ e, entries[i]? = some e :=
      ⟨_, List.getElem?_eq_getElem (show i < entries.length by omega)⟩
    by_cases better : e.addr < addr ∧ addrAt (symTab entries) r < e.addr
    · have taken := found.take here better.1 better.2
      have again : ¬ (e.addr < addr ∧ addrAt (symTab entries) i < e.addr) := by
        rw [addrAt_entry here]
        exact fun both => UInt32.lt_irrefl _ both.2
      rw [getSymbolLoop_take here better.1 better.2, getSymbolLoop_pass here again]
      exact ih (taken.pass here again) (by omega) (by omega)
    · rw [getSymbolLoop_pass here better]
      exact ih (found.pass here better) (by omega) (by omega)

theorem dbgGetSymbol_found (some : entries ≠ []) (enough : 2 * entries.length < fuel) :
    ∃ i, dbgGetSymbol fuel (symTab entries) addr = .ok i ∧ Found entries addr entries.length i :=
  getSymbolLoop_found ⟨List.length_pos_iff.mpr some, Or.inl rfl,
    fun j _ hj => absurd hj (Nat.not_lt_zero j), UInt32.le_refl _⟩ (Nat.zero_add _) enough

theorem getSymbolLoop_mono {table : List Symbol} {more x : Nat} (le : fuel ≤ more)
    (found : getSymbolLoop table addr fuel i r = .ok x) :
    getSymbolLoop table addr more i r = .ok x := by
  induction fuel generalizing more i r with
  | zero => cases found
  | succ fuel ih =>
    obtain ⟨more, rfl⟩ : ∃ k, more = k + 1 := ⟨more - 1, by omega⟩
    rw [getSymbolLoop] at found ⊢
    cases here : table[i]? with
    | none =>
      rw [here] at found
      cases found
    | some sym =>
      have le' : fuel ≤ more := by omega
      simp only [here] at found ⊢
      by_cases last : sym.name = none
      · rw [if_pos last] at found ⊢
        exact found
      · rw [if_neg last] at found ⊢
        by_cases taken : sym.addr < addr ∧ addrAt table r < sym.addr
        · rw [if_pos taken] at found ⊢
          exact ih le' found
        · rw [if_neg taken] at found ⊢
          exact ih le' found

theorem Found.entry (found : Found entries addr i r) :
    ∃ e, entries[r]? = some e ∧ addrAt (symTab entries) r = e.addr := by
  have here := List.getElem?_eq_getElem found.inside
  exact ⟨_, here, addrAt_entry here⟩

section
variable {first : Entry} {rest : List Entry} (notBelow : first.addr ≤ addr)
include notBelow

/-- An entry with the address itself is not found. -/
theorem not_findsNearest (differ : first.addr ≠ addr) {e : Entry} (member : e ∈ first :: rest)
    (same : e.addr = addr) : ¬ FindsNearest (first :: rest) addr := by
  rintro ⟨fuel, i, e', searched, here, le, nearest⟩
  obtain ⟨i', searched', found⟩ := @dbgGetSymbol_found _ addr _
    (List.cons_ne_nil first rest) (Nat.le_max_right fuel (2 * (first :: rest).length + 1))
  obtain rfl : i = i' := Outcome.ok.inj
    ((getSymbolLoop_mono (Nat.le_max_left _ _) searched).symm.trans searched')
  have less : e'.addr < addr := by
    rw [← addrAt_entry here]
    rcases found.below with rfl | below
    · exact UInt32.lt_of_le_of_ne notBelow differ
    · exact below
  have ge := nearest e member (UInt32.le_of_eq same)
  rw [same] at ge
  exact UInt32.not_lt.mpr ge less

/-- An address that is not below the first entry is attributed to the nearest
one exactly when it is the first entry's or no entry's at all. -/
theorem dbgGetSymbol_nearest_iff :
    FindsNearest (first :: rest) addr ↔
      first.addr = addr ∨ ∀ e ∈ first :: rest, e.addr ≠ addr := by
  constructor
  · intro nearest
    by_contra neither
    obtain ⟨differ, some⟩ := not_or.mp neither
    exact some fun e member same => not_findsNearest notBelow differ member same nearest
  · intro exact
    obtain ⟨i, searched, found⟩ := @dbgGetSymbol_found _ addr _ (List.cons_ne_nil first rest)
      (Nat.lt_succ_self _)
    obtain ⟨e, here, at_i⟩ := found.entry
    have least : first.addr ≤ addrAt (symTab (first :: rest)) i := found.first
    rw [at_i] at least
    have le : e.addr ≤ addr := by
      rcases found.below with rfl | below
      · cases here
        exact notBelow
      · rw [← at_i]
        exact UInt32.le_of_lt below
    refine ⟨_, i, e, searched, here, le, fun e' member le' => ?_⟩
    rcases exact with same | none0
    · rw [same] at least
      exact UInt32.le_trans le' least
    · obtain ⟨j, inside, rfl⟩ := List.getElem_of_mem member
      have less := UInt32.lt_of_le_of_ne le' (none0 _ member)
      have greatest := found.greatest j _ inside (List.getElem?_eq_getElem inside) less
      rwa [at_i] at greatest

end

end

/-- The two entries at the front of the kernel's table. -/
def lowCore : List Entry := [⟨0x0000, "FLCRNPSW"⟩, ⟨0x0008, "FLCROPSW"⟩]

theorem between_entries_nearest : (0x0000 : UInt32) ≤ 0x0004 ∧ FindsNearest lowCore 0x0004 := by
  have notBelow : (0x0000 : UInt32) ≤ 0x0004 := by decide
  exact ⟨notBelow, (dbgGetSymbol_nearest_iff notBelow).mpr (Or.inr (by decide))⟩

/-- The address of the second entry is attributed to the first. -/
theorem entry_point_missed : dbgGetSymbol 5 (symTab lowCore) 0x0008 = .ok 0 ∧
    ¬ FindsNearest lowCore 0x0008 := by
  refine ⟨by decide, ?_⟩
  exact not_findsNearest (by decide) (by decide) (List.mem_cons_of_mem _ List.mem_cons_self) rfl

/-- What `DbgUnwindStack` prints: a stack pointer that may be corrupt, an address
with its symbol and the distance from it, and a save area. -/
inductive Line where
  | corrupt (sp : UInt32)
  | ret (addr : UInt32) (name : Option String) (distance : Int)
  | call (addr : UInt32) (name : Option String) (distance : Int)
  | frame (frame : UInt32)

section
variable (size : Nat) (m : Storage)

/-- The word at an offset in a save area. Addresses wrap at the size of storage. -/
def fieldAt (frame offset : UInt32) : UInt32 :=
  UInt32.ofNat (Storage.word (fun a => m (a % size)) (frame + offset).toNat)

def nameAt (table : List Symbol) (i : Nat) : Option String := (table[i]?).bind Symbol.name

def distance (addr base : UInt32) : Int := signed32 (signed32 addr.toNat - signed32 base.toNat)

/-- The loop of `DbgUnwindStack`. A pointer into the table of symbols is not NULL. -/
def unwindLoop (table : List Symbol) : Nat → UInt32 → List Line → Outcome (List Line)
  | 0, _, _ => .diverge
  | fuel + 1, frame, lines =>
    if frame ≠ 0 then do
      let retaddr := fieldAt size m frame 12
      let retsym ← dbgGetSymbol (2 * table.length) table retaddr
      let calladdr := fieldAt size m frame 16
      let callsym ← dbgGetSymbol (2 * table.length) table calladdr
      unwindLoop table fuel (fieldAt size m frame 8) (lines ++
        [.ret retaddr (nameAt table retsym) (distance retaddr (addrAt table retsym)),
          .call calladdr (nameAt table callsym) (distance calladdr (addrAt table callsym)),
          .frame frame])
    else .ok lines

/-- `DbgUnwindStack` with the address of `__stack`. -/
def dbgUnwindStack (fuel : Nat) (table : List Symbol) (stack r13 : UInt32) : Outcome (List Line) :=
  if signed32 r13.toNat < signed32 stack.toNat then
    unwindLoop size m table fuel stack [.corrupt r13]
  else unwindLoop size m table fuel r13 []

/-- The save area at which the walk starts. -/
def startFrame (stack r13 : UInt32) : UInt32 :=
  if signed32 r13.toNat < signed32 stack.toNat then stack else r13

/-- The save area that the forward chain of another one names. -/
def forward (frame : UInt32) : Option UInt32 :=
  if frame = 0 then none else some (fieldAt size m frame 8)

/-- No save area on the forward chain from this one leads back to itself. -/
def NoReturn (frame : UInt32) : Prop :=
  ∀ area, Reaches (forward size m) frame area → ¬ Reaches₁ (forward size m) area area

end

section
variable {size : Nat} {m : Storage} {entries : List Entry}

theorem dbgGetSymbol_returns (entries : List Entry) (addr : UInt32) :
    ∃ i, dbgGetSymbol (2 * (symTab entries).length) (symTab entries) addr = .ok i := by
  have length : (symTab entries).length = entries.length + 1 := by simp [symTab]
  by_cases none0 : entries = []
  · subst none0
    exact ⟨0, rfl⟩
  · obtain ⟨i, searched, _⟩ := @dbgGetSymbol_found _ addr _ none0
      (show 2 * entries.length < 2 * (symTab entries).length by omega)
    exact ⟨i, searched⟩

theorem unwindLoop_next {frame : UInt32} (more : frame ≠ 0) (lines : List Line) :
    ∃ lines', ∀ fuel, unwindLoop size m (symTab entries) (fuel + 1) frame lines =
      unwindLoop size m (symTab entries) fuel (fieldAt size m frame 8) lines' := by
  obtain ⟨retsym, returned⟩ := dbgGetSymbol_returns entries (fieldAt size m frame 12)
  obtain ⟨callsym, called⟩ := dbgGetSymbol_returns entries (fieldAt size m frame 16)
  refine ⟨lines ++
    [.ret (fieldAt size m frame 12) (nameAt (symTab entries) retsym)
        (distance (fieldAt size m frame 12) (addrAt (symTab entries) retsym)),
      .call (fieldAt size m frame 16) (nameAt (symTab entries) callsym)
        (distance (fieldAt size m frame 16) (addrAt (symTab entries) callsym)),
      .frame frame], fun fuel => ?_⟩
  rw [unwindLoop, if_pos more]
  simp only [returned, called, Outcome.ok_bind]

instance finite_uInt32 : Finite UInt32 :=
  .of_injective UInt32.toFin fun _ _ => UInt32.toFin_inj.mp

theorem unwindLoop_ends_iff (frame : UInt32) (lines : List Line) :
    (∃ fuel, unwindLoop size m (symTab entries) fuel frame lines ≠ .diverge) ↔
      NoReturn size m frame := by
  have ends := @ends_iff_budget _ (forward size m) _ _
    (unwindLoop size m (symTab entries)) (fun _ _ => rfl) (fun frame next lines step => by
      by_cases last : frame = 0
      · rw [forward, if_pos last] at step
        cases step
      · rw [forward, if_neg last] at step
        cases step
        exact unwindLoop_next last lines)
    (fun fuel frame lines left => by
      by_cases last : frame = 0
      · rw [unwindLoop, if_neg (not_not.mpr last)]
        simp
      · rw [forward, if_neg last] at left
        cases left) frame lines
  rw [ends]
  exact ends_iff_of_finite

theorem unwindLoop_cases (fuel : Nat) (frame : UInt32) (lines : List Line) :
    unwindLoop size m (symTab entries) fuel frame lines = .diverge ∨
      ∃ all, unwindLoop size m (symTab entries) fuel frame lines = .ok all := by
  induction fuel generalizing frame lines with
  | zero => exact Or.inl rfl
  | succ fuel ih =>
    by_cases last : frame = 0
    · rw [unwindLoop, if_neg (not_not.mpr last)]
      exact Or.inr ⟨lines, rfl⟩
    · obtain ⟨lines', same⟩ := @unwindLoop_next size m entries frame last lines
      rw [same]
      exact ih (fieldAt size m frame 8) lines'

theorem unwindLoop_returns_iff (frame : UInt32) (lines : List Line) :
    (∃ fuel all, unwindLoop size m (symTab entries) fuel frame lines = .ok all) ↔
      NoReturn size m frame := by
  rw [← unwindLoop_ends_iff frame lines]
  refine exists_congr fun fuel => ⟨?_, fun ends => ?_⟩
  · rintro ⟨all, returned⟩ diverges
    rw [returned] at diverges
    cases diverges
  · exact (unwindLoop_cases fuel frame lines).resolve_left ends

end

/-- The printout returns exactly when the forward chain does not run into a cycle. -/
theorem dbgUnwindStack_returns_iff (size : Nat) (m : Storage) (entries : List Entry)
    (stack r13 : UInt32) :
    (∃ fuel lines, dbgUnwindStack size m fuel (symTab entries) stack r13 = .ok lines) ↔
      NoReturn size m (startFrame stack r13) := by
  unfold dbgUnwindStack startFrame
  split
  · exact unwindLoop_returns_iff stack _
  · exact unwindLoop_returns_iff r13 _

/-- The save area at 0x2000 names itself as the next one. -/
def looped : Storage := fun a => if a = 0x200a then 0x20 else 0

theorem looped_forward : forward 4294967296 looped 0x2000 = some 0x2000 := by decide

theorem looped_endless :
    ¬ ∃ fuel, dbgUnwindStack 4294967296 looped fuel (symTab lowCore) 0x1000 0x2000 ≠ .diverge := by
  rintro ⟨fuel, ends⟩
  rw [dbgUnwindStack, if_neg (by decide)] at ends
  have noReturn := (unwindLoop_ends_iff 0x2000 []).mp ⟨fuel, ends⟩
  exact noReturn 0x2000 Relation.ReflTransGen.refl (Relation.TransGen.single looped_forward)

end Debug
