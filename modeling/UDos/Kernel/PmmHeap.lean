import Mathlib.Data.List.Nodup
import Mathlib.Data.List.Perm.Subperm
import UDos.Kernel.Pmm
import UDos.Library.Extents
import UDos.Library.Segment

/-!
# Well-formed regions

The list of a region starts at the descriptor table itself, goes on with block
1, which the table expands into, and covers the region with adjacent blocks.
Each part of an allocation is shown to keep this, and to add one extent to
those of the used blocks behind the table.
-/

namespace Pmm

open KernelMemory Extents Linked

/-- Who holds block i: the block itself, unless it is free. -/
def holder (flags : UInt8) (i : Nat) : Option Nat := if flags = blockFree then none else some i

@[simp] theorem holder_free (i : Nat) : holder blockFree i = none := rfl

@[simp] theorem holder_used (i : Nat) : holder blockUsed i = some i := rfl

theorem notFree_of_used {flags : UInt8} (used : flags = blockUsed) : flags ≠ blockFree := by
  rw [used]
  decide

/-- The size of a block, and the block unless it is free. -/
def piece (r : PmmRegion) (i : Nat) : Piece Nat :=
  ((r.heap i).size, holder (r.heap i).flags i)

def pieces (r : PmmRegion) (list : List Nat) : List (Piece Nat) := list.map (piece r)

theorem piece_used {r : PmmRegion} {a : Nat} (notFree : (r.heap a).flags ≠ blockFree) :
    piece r a = ((r.heap a).size, some a) := by
  rw [piece, holder, if_neg notFree]

theorem piece_free {r : PmmRegion} {a : Nat} (free : (r.heap a).flags = blockFree) :
    piece r a = ((r.heap a).size, none) := by
  rw [piece, free, holder_free]

/-- The blocks behind the descriptor table that are not free, each with its
address and size. -/
def occupied (r : PmmRegion) (tail : List Nat) : List (Nat × Nat × Nat) :=
  held (r.base + (r.heap 0).size) (pieces r tail)

/-- The address behind the descriptor table and the blocks that follow it. -/
def addressOf (r : PmmRegion) (before : List Nat) : Nat :=
  r.base + (r.heap 0).size + width (pieces r before)

/-- The blocks of the region are block 0, the descriptor table, and those of the
tail, in this order; `lost` bytes are in none of them. -/
structure Listed (r : PmmRegion) (tail : List Nat) (lost : Nat) : Prop where
  linked : Segment (fun i => (r.heap i).next) (some 0) (0 :: tail) none
  distinct : (0 :: tail).Nodup
  inTable : ∀ i ∈ 0 :: tail, i < (r.heap 0).size / sizeofPmmBlock
  headUsed : (r.heap 0).flags = blockUsed
  total : (r.heap 0).size + width (pieces r tail) + lost = r.size
  based : r.base < 4294967296
  bounded : r.size < 4294967296
  isPublic : r.flags = regionPublic

/-- The blocks behind the descriptor table, as the links give them. -/
def behind (r : PmmRegion) : List Nat :=
  (trace (fun i => (r.heap i).next) r.size (some 0)).tail

/-- Block 1 comes second, and every block is free or used. -/
structure WellFormed (r : PmmRegion) (tail : List Nat) (lost : Nat) : Prop
    extends Listed r tail lost where
  second : ∃ rest, tail = 1 :: rest
  present : ∀ i ∈ tail, (r.heap i).flags = blockFree ∨ (r.heap i).flags = blockUsed

@[simp] theorem setBlock_same (r : PmmRegion) (i : Nat) (block : PmmBlock) :
    (r.setBlock i block).heap i = block := if_pos rfl

@[simp] theorem setBlock_setBlock (r : PmmRegion) (i : Nat) (block block' : PmmBlock) :
    (r.setBlock i block).setBlock i block' = r.setBlock i block' := by
  have heap : ((r.setBlock i block).setBlock i block').heap = (r.setBlock i block').heap := by
    funext j
    by_cases same : j = i
    · simp only [PmmRegion.setBlock, if_pos same]
    · simp only [PmmRegion.setBlock, if_neg same]
  exact congrArg (fun heap => { r with heap := heap }) heap

theorem setBlock_self (r : PmmRegion) (i : Nat) : r.setBlock i (r.heap i) = r := by
  have heap : (r.setBlock i (r.heap i)).heap = r.heap := by
    funext j
    by_cases same : j = i
    · rw [same]
      exact if_pos rfl
    · exact if_neg same
  exact congrArg (fun heap => { r with heap := heap }) heap

theorem setBlock_other (r : PmmRegion) {i j : Nat} (block : PmmBlock) (h : j ≠ i) :
    (r.setBlock i block).heap j = r.heap j := if_neg h

@[simp] theorem setBlock_base (r : PmmRegion) (i : Nat) (block : PmmBlock) :
    (r.setBlock i block).base = r.base := rfl

@[simp] theorem setBlock_size (r : PmmRegion) (i : Nat) (block : PmmBlock) :
    (r.setBlock i block).size = r.size := rfl

@[simp] theorem setBlock_flags (r : PmmRegion) (i : Nat) (block : PmmBlock) :
    (r.setBlock i block).flags = r.flags := rfl

theorem pieces_append (r : PmmRegion) (l m : List Nat) :
    pieces r (l ++ m) = pieces r l ++ pieces r m := List.map_append

theorem pieces_cons (r : PmmRegion) (i : Nat) (l : List Nat) :
    pieces r (i :: l) = piece r i :: pieces r l := rfl

theorem pieces_congr {r q : PmmRegion} {l : List Nat}
    (same : ∀ i ∈ l, piece q i = piece r i) : pieces q l = pieces r l :=
  List.map_congr_left same

theorem pieces_setBlock {r : PmmRegion} {i : Nat} {l : List Nat} (block : PmmBlock)
    (notIn : i ∉ l) : pieces (r.setBlock i block) l = pieces r l := by
  apply pieces_congr
  intro j hj
  have other : j ≠ i := fun same => notIn (same ▸ hj)
  rw [piece, piece, setBlock_other r block other]

theorem sub32_eq {a b : Nat} (le : b ≤ a) (low : a < 4294967296) : sub32 a b = a - b := by
  unfold sub32 u32
  omega

section
variable {r : PmmRegion} {tail m1 m2 : List Nat} {b lost : Nat}

theorem Listed.head_notIn (listed : Listed r tail lost) : 0 ∉ tail :=
  (List.nodup_cons.mp listed.distinct).1

theorem Listed.tail_distinct (listed : Listed r tail lost) : tail.Nodup :=
  (List.nodup_cons.mp listed.distinct).2

theorem Listed.tablePositive (listed : Listed r tail lost) :
    sizeofPmmBlock ≤ (r.heap 0).size := by
  have := listed.inTable 0 List.mem_cons_self
  simp only [sizeofPmmBlock] at this ⊢
  omega

theorem Listed.split_at (listed : Listed r (m1 ++ b :: m2) lost) :
    b ≠ 0 ∧ b ∉ m1 ∧ b ∉ m2 := by
  have notHead := listed.head_notIn
  have distinct := List.nodup_append.mp listed.tail_distinct
  refine ⟨?_, ?_, (List.nodup_cons.mp distinct.2.1).1⟩
  · rintro rfl
    simp at notHead
  · exact fun member => distinct.2.2 b member b List.mem_cons_self rfl

theorem WellFormed.second_split (wf : WellFormed r (m1 ++ b :: m2) lost) :
    m1 = [] ∧ b = 1 ∨ ∃ rest, m1 = 1 :: rest := by
  obtain ⟨rest, same⟩ := wf.second
  cases m1 with
  | nil => exact Or.inl ⟨rfl, (List.cons.inj same).1⟩
  | cons a m1 =>
    obtain ⟨rfl, _⟩ := List.cons.inj same
    exact Or.inr ⟨m1, rfl⟩

theorem Listed.length_le (listed : Listed r tail lost) : tail.length + 1 ≤ r.size := by
  have below : (0 :: tail) ⊆ List.range ((r.heap 0).size / sizeofPmmBlock) :=
    fun i hi => List.mem_range.mpr (listed.inTable i hi)
  have short := (listed.distinct.subperm below).length_le
  have total := listed.total
  rw [List.length_cons, List.length_range] at short
  simp only [sizeofPmmBlock] at short
  omega

theorem Listed.behind_eq (listed : Listed r tail lost) : behind r = tail := by
  rw [behind, listed.linked.trace_eq listed.length_le, List.tail_cons]

theorem pieces_setBlock_split (listed : Listed r (m1 ++ b :: m2) lost) (block : PmmBlock) :
    pieces (r.setBlock b block) (m1 ++ b :: m2) =
      pieces r m1 ++ (block.size, holder block.flags b) :: pieces r m2 := by
  obtain ⟨_, notIn1, notIn2⟩ := listed.split_at
  rw [pieces_append, pieces_cons, pieces_setBlock block notIn1, pieces_setBlock block notIn2,
    piece, setBlock_same]

theorem width_pieces_split (r : PmmRegion) (m1 : List Nat) (b : Nat) (m2 : List Nat) :
    width (pieces r (m1 ++ b :: m2)) =
      width (pieces r m1) + ((r.heap b).size + width (pieces r m2)) := by
  rw [pieces_append, pieces_cons, width_append, width_cons, piece]

/-- A block of the tail may get another size, other flags and the same link. -/
theorem Listed.setBlock (listed : Listed r (m1 ++ b :: m2) lost) {block : PmmBlock}
    (next : block.next = (r.heap b).next) {lost' : Nat}
    (size : block.size + lost' = (r.heap b).size + lost) :
    Listed (r.setBlock b block) (m1 ++ b :: m2) lost' := by
  obtain ⟨nonzero, notIn1, notIn2⟩ := listed.split_at
  have head : (r.setBlock b block).heap 0 = r.heap 0 := setBlock_other r block nonzero.symm
  refine ⟨listed.linked.congr fun i _ => ?_, listed.distinct, ?_, ?_, ?_, listed.based,
    listed.bounded, listed.isPublic⟩
  · by_cases same : i = b
    · rw [same, setBlock_same, next]
    · rw [setBlock_other r block same]
  · rw [head]
    exact listed.inTable
  · rw [head]
    exact listed.headUsed
  · have total := listed.total
    rw [width_pieces_split] at total
    rw [head, pieces_setBlock_split listed, width_append, width_cons, setBlock_size]
    simp only
    omega

theorem WellFormed.setBlock (wf : WellFormed r (m1 ++ b :: m2) lost) {block : PmmBlock}
    (next : block.next = (r.heap b).next)
    (flags : block.flags = blockFree ∨ block.flags = blockUsed) {lost' : Nat}
    (size : block.size + lost' = (r.heap b).size + lost) :
    WellFormed (r.setBlock b block) (m1 ++ b :: m2) lost' := by
  refine ⟨wf.toListed.setBlock next size, wf.second, fun i hi => ?_⟩
  by_cases same : i = b
  · rw [same, setBlock_same]
    exact flags
  · rw [setBlock_other r block same]
    exact wf.present i hi

end

/-- A region starts with its descriptor table and one free block. -/
theorem createIn_fresh {env : Env} {base size : Nat} {storage : Nat → PmmBlock} {r : PmmRegion}
    (large : 2048 ≤ size) (based : base < 4294967296) (bounded : size < 4294967296)
    (made : createIn env base size storage = .ok r) :
    WellFormed r [1] 0 ∧ (r.heap 1).flags = blockFree ∧ r.base = base ∧ r.size = size := by
  have headSize : u32 ((size / 2048 + 1) * sizeofPmmBlock) = (size / 2048 + 1) * 12 :=
    u32_eq_self (by simp only [sizeofPmmBlock]; omega)
  have rest : sub32 size ((size / 2048 + 1) * 12) = size - (size / 2048 + 1) * 12 :=
    sub32_eq (by omega) bounded
  obtain ⟨_, _, built⟩ := Outcome.bind_eq_ok.mp made
  cases built
  rw [headSize, rest]
  refine ⟨⟨⟨⟨rfl, rfl, rfl⟩, by decide, fun i hi => ?_, rfl, ?_, based, bounded, rfl⟩, ⟨[], rfl⟩,
    fun i hi => ?_⟩, rfl, rfl, rfl⟩
  · change i < (size / 2048 + 1) * 12 / 12
    simp only [List.mem_cons, List.not_mem_nil, or_false] at hi
    omega
  · change (size / 2048 + 1) * 12 + (size - (size / 2048 + 1) * 12 + 0) + 0 = size
    omega
  · rw [List.mem_singleton.mp hi]
    exact Or.inl rfl

/-- The bytes that the descriptor table takes for another block: none, unless every
descriptor of it is present. -/
def growth (r : PmmRegion) : Nat :=
  if ∃ i < (r.heap 0).size / sizeofPmmBlock, (r.heap i).flags = blockNotPresent then 0
  else sizeofPmmBlock * 32

/-- The same when a block is split so that `left` bytes of it stay. -/
def splitGrowth (r : PmmRegion) (left : Nat) : Nat := if left = 0 then 0 else growth r

/-- What `MmCreateBlock` does: block j is new and has the given fields, and
the table may have taken its room from the front of a free block 1. -/
structure Created (r q : PmmRegion) (tail : List Nat) (j n : Nat) (flags : UInt8)
    (next : Option Nat) (k : Nat) : Prop where
  new : j ∉ 0 :: tail
  inTable : j < (q.heap 0).size / sizeofPmmBlock
  size : (q.heap j).size = n
  flags : (q.heap j).flags = flags
  next : (q.heap j).next = next
  keptNext : ∀ i ∈ 0 :: tail, (q.heap i).next = (r.heap i).next
  keptFlags : ∀ i ∈ 0 :: tail, (q.heap i).flags = (r.heap i).flags
  keptSize : ∀ i ∈ tail, i ≠ 1 → (q.heap i).size = (r.heap i).size
  others : ∀ i, i ∉ 0 :: tail → i ≠ j → q.heap i = r.heap i ∨ q.heap i = zeroBlock
  room : k ≤ (r.heap 1).size
  table : (q.heap 0).size = (r.heap 0).size + k
  second : (q.heap 1).size = (r.heap 1).size - k
  grows : k = 0 ∨ k = sizeofPmmBlock * 32 ∧ (r.heap 1).flags = blockFree
  base : q.base = r.base
  regionSize : q.size = r.size
  regionFlags : q.flags = r.flags

section
variable {r : PmmRegion} {tail : List Nat} {lost : Nat}

theorem WellFormed.present_all (wf : WellFormed r tail lost) :
    ∀ i ∈ 0 :: tail, (r.heap i).flags ≠ blockNotPresent := by
  intro i hi
  rcases List.mem_cons.mp hi with rfl | hi
  · rw [wf.headUsed]
    decide
  · rcases wf.present i hi with free | used
    · rw [free]
      decide
    · rw [used]
      decide

theorem created_unused (wf : WellFormed r tail lost) {j : Nat}
    (inTable : j < (r.heap 0).size / sizeofPmmBlock)
    (unused : (r.heap j).flags = blockNotPresent) (n : Nat) (flags : UInt8) (next : Option Nat) :
    Created r (r.setBlock j { r.heap j with size := n, next := next, flags := flags }) tail j n
      flags next 0 := by
  have new : j ∉ 0 :: tail := fun member => wf.present_all j member unused
  have other : ∀ i ∈ 0 :: tail, i ≠ j := by
    rintro i hi rfl
    exact new hi
  obtain ⟨rest, rfl⟩ := wf.second
  have zero := other 0 List.mem_cons_self
  have one := other 1 (by simp)
  constructor
  · exact new
  · rw [setBlock_other r _ zero]
    exact inTable
  · rw [setBlock_same]
  · rw [setBlock_same]
  · rw [setBlock_same]
  · exact fun i hi => by rw [setBlock_other r _ (other i hi)]
  · exact fun i hi => by rw [setBlock_other r _ (other i hi)]
  · exact fun i hi _ => by rw [setBlock_other r _ (other i (List.mem_cons_of_mem 0 hi))]
  · exact fun i _ apart => Or.inl (setBlock_other r _ apart)
  · exact Nat.zero_le _
  · rw [setBlock_other r _ zero, Nat.add_zero]
  · rw [setBlock_other r _ one, Nat.sub_zero]
  · exact Or.inl rfl
  · rfl
  · rfl
  · rfl

/-- The descriptors there before the table expands: the first two change their
sizes, and nothing else changes. -/
theorem expandTable_old {i : Nat} (old : i < (r.heap 0).size / sizeofPmmBlock) :
    (expandTable r).heap i =
      if i = 0 then { r.heap 0 with size := u32 ((r.heap 0).size + sizeofPmmBlock * 32) }
      else if i = 1 then { r.heap 1 with size := sub32 (r.heap 1).size (sizeofPmmBlock * 32) }
      else r.heap i := by
  have outside : ¬ ((r.heap 0).size / sizeofPmmBlock ≤ i ∧
      i < (r.heap 0).size / sizeofPmmBlock + 32) := by omega
  simp only [expandTable, PmmRegion.setBlock, if_neg outside]
  by_cases second : i = 1
  · subst second
    simp
  · simp [second]

theorem expandTable_kept {i : Nat} (old : i < (r.heap 0).size / sizeofPmmBlock) :
    ((expandTable r).heap i).next = (r.heap i).next ∧
      ((expandTable r).heap i).flags = (r.heap i).flags := by
  rw [expandTable_old old]
  by_cases zero : i = 0
  · rw [if_pos zero, zero]
    exact ⟨rfl, rfl⟩
  · rw [if_neg zero]
    by_cases second : i = 1
    · rw [if_pos second, second]
      exact ⟨rfl, rfl⟩
    · rw [if_neg second]
      exact ⟨rfl, rfl⟩

theorem expandTable_others {i : Nat} (notTable : i ≠ 0) (notSecond : i ≠ 1) :
    (expandTable r).heap i = r.heap i ∨ (expandTable r).heap i = zeroBlock := by
  simp only [expandTable, PmmRegion.setBlock]
  by_cases new : (r.heap 0).size / sizeofPmmBlock ≤ i ∧
      i < (r.heap 0).size / sizeofPmmBlock + 32
  · exact Or.inr (if_pos new)
  · refine Or.inl ((if_neg new).trans ?_)
    simp [notTable, notSecond]

/-- A full table expands by 32 descriptors, and the first of them is used. -/
theorem created_expanded (wf : WellFormed r tail lost) (free : (r.heap 1).flags = blockFree)
    (room : sizeofPmmBlock * 32 ≤ (r.heap 1).size) (n : Nat) (flags : UInt8)
    (next : Option Nat) :
    Created r ((expandTable r).setBlock ((r.heap 0).size / sizeofPmmBlock)
      { (expandTable r).heap ((r.heap 0).size / sizeofPmmBlock) with
        size := n, next := next, flags := flags }) tail ((r.heap 0).size / sizeofPmmBlock) n
      flags next (sizeofPmmBlock * 32) := by
  obtain ⟨rest, rfl⟩ := wf.second
  have total := wf.total
  have bounded := wf.bounded
  rw [pieces_cons, width_cons, piece] at total
  simp only at total
  have below := wf.inTable
  have other : ∀ i ∈ 0 :: 1 :: rest, i ≠ (r.heap 0).size / sizeofPmmBlock :=
    fun i hi => Nat.ne_of_lt (below i hi)
  have headSize : u32 ((r.heap 0).size + sizeofPmmBlock * 32) =
      (r.heap 0).size + sizeofPmmBlock * 32 := u32_eq_self (by omega)
  have secondSize : sub32 (r.heap 1).size (sizeofPmmBlock * 32) =
      (r.heap 1).size - sizeofPmmBlock * 32 := sub32_eq room (by omega)
  constructor
  · exact fun member => other _ member rfl
  · rw [setBlock_other _ _ (other 0 (by simp)), expandTable_old (below 0 (by simp)), if_pos rfl]
    simp only [headSize]
    simp only [sizeofPmmBlock]
    omega
  · rw [setBlock_same]
  · rw [setBlock_same]
  · rw [setBlock_same]
  · intro i hi
    rw [setBlock_other _ _ (other i hi)]
    exact (expandTable_kept (below i hi)).1
  · intro i hi
    rw [setBlock_other _ _ (other i hi)]
    exact (expandTable_kept (below i hi)).2
  · intro i hi second
    have zero : i ≠ 0 := fun same => wf.head_notIn (same ▸ hi)
    rw [setBlock_other _ _ (other i (List.mem_cons_of_mem 0 hi)),
      expandTable_old (below i (List.mem_cons_of_mem 0 hi)), if_neg zero, if_neg second]
  · intro i notIn apart
    rw [setBlock_other _ _ apart]
    simp only [List.mem_cons, not_or] at notIn
    exact expandTable_others notIn.1 notIn.2.1
  · exact room
  · rw [setBlock_other _ _ (other 0 (by simp)), expandTable_old (below 0 (by simp)), if_pos rfl]
    exact headSize
  · rw [setBlock_other _ _ (other 1 (by simp)), expandTable_old (below 1 (by simp)),
      if_neg (by decide), if_pos rfl]
    exact secondSize
  · exact Or.inr ⟨rfl, free⟩
  · rfl
  · rfl
  · rfl

theorem mmCreateBlock_sound (wf : WellFormed r tail lost) (n : Nat) (flags : UInt8)
    (next : Option Nat) :
    Outcome.Sound (fun done => Created r done.2 tail done.1 n flags next (growth r))
      (mmCreateBlock r n flags next) := by
  unfold mmCreateBlock
  simp only
  cases found : (List.range ((r.heap 0).size / sizeofPmmBlock)).find? fun i =>
      (r.heap i).flags == blockNotPresent with
  | some j =>
    have inTable := List.mem_range.mp (List.mem_of_find?_eq_some found)
    have unused : (r.heap j).flags = blockNotPresent := by
      simpa using List.find?_some found
    have none : growth r = 0 := if_pos ⟨j, inTable, unused⟩
    rw [none]
    exact created_unused wf inTable unused n flags next
  | none =>
    have expands : growth r = sizeofPmmBlock * 32 := by
      refine if_neg ?_
      rintro ⟨i, inTable, unused⟩
      have present := List.find?_eq_none.mp found i (List.mem_range.mpr inTable)
      exact present (beq_iff_eq.mpr unused)
    rw [expands]
    refine (Outcome.sound_check "Out of memory for heap\r\n").bind fun _ room => ?_
    have free : (r.heap 1).flags = blockFree := by
      by_contra other
      exact room (Or.inl other)
    exact created_expanded wf free (Nat.not_lt.mp fun short => room (Or.inr short)) n flags next

/-- Another size or link of a block in the list does not matter to the table. -/
theorem WellFormed.growth_setBlock {m1 m2 : List Nat} {b : Nat}
    (wf : WellFormed r (m1 ++ b :: m2) lost) {block : PmmBlock}
    (present : block.flags ≠ blockNotPresent) : growth (r.setBlock b block) = growth r := by
  have nonzero := wf.split_at.1
  have before := wf.present_all b (by simp)
  have same : ∀ i, ((r.setBlock b block).heap i).flags = blockNotPresent ↔
      (r.heap i).flags = blockNotPresent := by
    intro i
    by_cases here : i = b
    · rw [here, setBlock_same]
      exact iff_of_false present before
    · rw [setBlock_other r block here]
  unfold growth
  simp only [setBlock_other r block nonzero.symm, same]

end

section
variable {r q : PmmRegion} {m1 m2 : List Nat} {b j n k lost : Nat} {flags : UInt8}
  {next : Option Nat}

/-- The second half of a split: block b links to the block just created. -/
def linkTo (q : PmmRegion) (b j : Nat) : PmmRegion :=
  q.setBlock b { q.heap b with next := some j }

theorem piece_linkTo (q : PmmRegion) (b j i : Nat) : piece (linkTo q b j) i = piece q i := by
  by_cases same : i = b
  · rw [same, piece, linkTo, setBlock_same, piece]
  · rw [piece, linkTo, setBlock_other q _ same, piece]

theorem pieces_linkTo (q : PmmRegion) (b j : Nat) (l : List Nat) :
    pieces (linkTo q b j) l = pieces q l :=
  pieces_congr fun i _ => piece_linkTo q b j i

theorem Created.piece_second {rest : List Nat} (made : Created r q (1 :: rest) j n flags next k) :
    piece q 1 = ((r.heap 1).size - k, holder (r.heap 1).flags 1) := by
  rw [piece, made.second, made.keptFlags 1 (by simp)]

theorem Created.pieces_others {tail l : List Nat} (made : Created r q tail j n flags next k)
    (inTail : ∀ i ∈ l, i ∈ tail) (notSecond : 1 ∉ l) : pieces q l = pieces r l := by
  apply pieces_congr
  intro i hi
  have other : i ≠ 1 := fun same => notSecond (same ▸ hi)
  rw [piece, piece, made.keptSize i (inTail i hi) other,
    made.keptFlags i (List.mem_cons_of_mem 0 (inTail i hi))]

/-- The table takes its room from the first piece, and the new block is a piece
of its own. -/
theorem pieces_insert (wf : WellFormed r (m1 ++ b :: m2) lost)
    (made : Created r q (m1 ++ b :: m2) j n flags next k) :
    Yields k (pieces r (m1 ++ [b])) ∧
      pieces (linkTo q b j) (m1 ++ [b]) = shrinkFirst k (pieces r (m1 ++ [b])) ∧
      pieces (linkTo q b j) (j :: m2) = (n, holder flags j) :: pieces r m2 := by
  obtain ⟨_, notIn1, notIn2⟩ := wf.split_at
  have new : piece q j = (n, holder flags j) := by rw [piece, made.size, made.flags]
  have free : k = 0 ∨ holder (r.heap 1).flags 1 = none := by
    rcases made.grows with none | ⟨_, free⟩
    · exact Or.inl none
    · rw [free]
      exact Or.inr rfl
  rw [pieces_linkTo, pieces_linkTo, pieces_cons, new]
  rcases wf.second_split with ⟨rfl, rfl⟩ | ⟨rest, rfl⟩
  · have behind : pieces q m2 = pieces r m2 :=
      made.pieces_others (fun i hi => List.mem_cons_of_mem 1 hi) notIn2
    rw [List.nil_append, pieces_cons r, pieces_cons q, made.piece_second, behind]
    exact ⟨⟨made.room, free⟩, rfl, rfl⟩
  · have distinct := wf.tail_distinct
    rw [List.cons_append, List.nodup_cons, List.mem_append, List.mem_cons] at distinct
    have before : pieces q (rest ++ [b]) = pieces r (rest ++ [b]) := by
      refine made.pieces_others (fun i hi => ?_) fun member => distinct.1 ?_
      · simp only [List.mem_append, List.mem_cons] at hi ⊢
        tauto
      · simp only [List.mem_append, List.mem_singleton] at member
        tauto
    have behind : pieces q m2 = pieces r m2 :=
      made.pieces_others (fun i hi => by simp [hi])
        fun member => distinct.1 (Or.inr (Or.inr member))
    rw [List.cons_append, pieces_cons r, pieces_cons q, made.piece_second, before, behind]
    exact ⟨⟨made.room, free⟩, rfl, rfl⟩

theorem linkTo_head (wf : WellFormed r (m1 ++ b :: m2) lost)
    (made : Created r q (m1 ++ b :: m2) j n flags next k) :
    ((linkTo q b j).heap 0).size = (r.heap 0).size + k := by
  obtain ⟨nonzero, _, _⟩ := wf.split_at
  rw [linkTo, setBlock_other q _ nonzero.symm, made.table]

theorem linkTo_flags (q : PmmRegion) (b j i : Nat) :
    ((linkTo q b j).heap i).flags = (q.heap i).flags := by
  by_cases same : i = b
  · rw [same, linkTo, setBlock_same]
  · rw [linkTo, setBlock_other q _ same]

/-- The new block takes over the link of block b. -/
theorem linkTo_linked (wf : WellFormed r (m1 ++ b :: m2) lost)
    (made : Created r q (m1 ++ b :: m2) j n flags (r.heap b).next k) :
    Segment (fun i => ((linkTo q b j).heap i).next) (some 0) ((0 :: m1) ++ b :: j :: m2) none := by
  obtain ⟨nonzero, notIn1, notIn2⟩ := wf.split_at
  have other : ∀ i, i ≠ b → (linkTo q b j).heap i = q.heap i := fun i hi =>
    setBlock_other q _ hi
  have fresh : j ≠ b := by
    rintro rfl
    exact made.new (by simp)
  refine Segment.insert wf.linked ?_ ?_ ?_
  · intro i hi
    have apart : i ≠ b := by
      rintro rfl
      rcases hi with before | behind
      · rcases List.mem_cons.mp before with zero | before
        · exact nonzero zero
        · exact notIn1 before
      · exact notIn2 behind
    rw [other i apart]
    apply made.keptNext
    simp only [List.mem_cons, List.mem_append] at hi ⊢
    tauto
  · rw [linkTo, setBlock_same]
  · rw [other j fresh, made.next]

/-- The same when block b was cut down before. -/
theorem pieces_cut {block : PmmBlock} {left : Nat} {holding : Option Nat}
    (wf : WellFormed (r.setBlock b block) (m1 ++ b :: m2) lost)
    (made : Created (r.setBlock b block) q (m1 ++ b :: m2) j n flags next k)
    (size : block.size = left) (held : holder block.flags b = holding) :
    Yields k (pieces r m1 ++ [(left, holding)]) ∧
      pieces (linkTo q b j) (m1 ++ [b]) = shrinkFirst k (pieces r m1 ++ [(left, holding)]) ∧
      pieces (linkTo q b j) (j :: m2) = (n, holder flags j) :: pieces r m2 ∧
      ((linkTo q b j).heap 0).size = (r.heap 0).size + k := by
  obtain ⟨nonzero, notIn1, notIn2⟩ := wf.split_at
  have front : pieces (r.setBlock b block) (m1 ++ [b]) = pieces r m1 ++ [(left, holding)] := by
    rw [pieces_append, pieces_setBlock block notIn1, pieces_cons, piece, setBlock_same, size, held]
    rfl
  have inserted := pieces_insert wf made
  rw [front, pieces_setBlock block notIn2] at inserted
  refine ⟨inserted.1, inserted.2.1, inserted.2.2, ?_⟩
  rw [linkTo_head wf made, setBlock_other r block nonzero.symm]

/-- The bytes lost are those of the new block. -/
theorem linkTo_total (wf : WellFormed r (m1 ++ b :: m2) lost)
    (made : Created r q (m1 ++ b :: m2) j lost flags next k) :
    ((linkTo q b j).heap 0).size + width (pieces (linkTo q b j) (m1 ++ b :: j :: m2)) =
      r.size := by
  obtain ⟨yields, front, back⟩ := pieces_insert wf made
  have total := wf.total
  have shrunk := width_shrinkFirst yields
  have assoc : m1 ++ b :: j :: m2 = (m1 ++ [b]) ++ j :: m2 := by simp
  rw [width_pieces_split] at total
  have sum : width (pieces r (m1 ++ [b])) = width (pieces r m1) + (r.heap b).size :=
    width_pieces_split r m1 b []
  rw [linkTo_head wf made, assoc, pieces_append, front, back, width_append, width_cons]
  simp only
  omega

/-- A region that had lost as many bytes as the new block has is well formed
with that block in its list. -/
theorem WellFormed.insert (wf : WellFormed r (m1 ++ b :: m2) lost)
    (made : Created r q (m1 ++ b :: m2) j lost flags (r.heap b).next k)
    (known : flags = blockFree ∨ flags = blockUsed) :
    WellFormed (linkTo q b j) (m1 ++ b :: j :: m2) 0 := by
  have size : (linkTo q b j).size = r.size := made.regionSize
  have order : (0 :: (m1 ++ b :: j :: m2)).Perm (j :: 0 :: (m1 ++ b :: m2)) := by
    have move : (0 :: m1 ++ [b] ++ j :: m2).Perm (j :: (0 :: m1 ++ [b] ++ m2)) :=
      List.perm_middle
    simpa using move
  refine ⟨⟨?_, ?_, ?_, ?_, ?_, made.base ▸ wf.based, ?_, ?_⟩, ?_, ?_⟩
  · exact linkTo_linked wf made
  · exact order.nodup_iff.mpr (List.nodup_cons.mpr ⟨made.new, wf.distinct⟩)
  · intro i hi
    rw [linkTo_head wf made]
    rcases List.mem_cons.mp (order.mem_iff.mp hi) with rfl | old
    · rw [← made.table]
      exact made.inTable
    · exact Nat.lt_of_lt_of_le (wf.inTable i old) (Nat.div_le_div_right (Nat.le_add_right _ _))
  · rw [linkTo_flags, made.keptFlags 0 List.mem_cons_self]
    exact wf.headUsed
  · rw [Nat.add_zero, linkTo_total wf made, size]
  · rw [size]
    exact wf.bounded
  · exact made.regionFlags.trans wf.isPublic
  · rcases wf.second_split with ⟨rfl, rfl⟩ | ⟨rest, rfl⟩
    · exact ⟨_, rfl⟩
    · exact ⟨_, rfl⟩
  · intro i hi
    have newOrOld : i = j ∨ i ∈ m1 ++ b :: m2 := by
      simp only [List.mem_append, List.mem_cons] at hi ⊢
      tauto
    rw [linkTo_flags]
    rcases newOrOld with rfl | old
    · rw [made.flags]
      exact known
    · rw [made.keptFlags i (List.mem_cons_of_mem 0 old)]
      exact wf.present i old

end

/-- What the left split hands on: block j has n bytes at address p, and the used
blocks are the old ones and that one. -/
structure Cut (r : PmmRegion) (tail : List Nat) (n p j : Nat) (q : PmmRegion)
    (l1 l2 : List Nat) : Prop where
  wellFormed : WellFormed q (l1 ++ j :: l2) 0
  size : (q.heap j).size = n
  base : q.base = r.base
  regionSize : q.size = r.size
  address : addressOf q l1 = p
  extents : held (q.base + (q.heap 0).size) (pieces q l1 ++ (n, none) :: pieces q l2) =
    occupied r tail
  grows : ∃ k, (k = 0 ∨ k = sizeofPmmBlock * 32) ∧ (q.heap 0).size = (r.heap 0).size + k ∧
    vacant (pieces q l1 ++ (n, none) :: pieces q l2) + k = vacant (pieces r tail)
  settled : Settled (pieces r tail) → Settled (pieces q l1 ++ (n, some j) :: pieces q l2)
  keeps : tail ⊆ l1 ++ j :: l2
  others : ∀ i, i ∉ 0 :: (l1 ++ j :: l2) → q.heap i = r.heap i ∨ q.heap i = zeroBlock

/-- An allocation of n bytes at p in block j, behind which the list is that of `tail'`. -/
structure Taken (r : PmmRegion) (tail : List Nat) (n p j : Nat) (q : PmmRegion)
    (tail' : List Nat) : Prop where
  wellFormed : WellFormed q tail' 0
  base : q.base = r.base
  regionSize : q.size = r.size
  extents : (occupied q tail').Perm ((j, p, n) :: occupied r tail)
  grows : ∃ k, (k = 0 ∨ k = sizeofPmmBlock * 32) ∧ (q.heap 0).size = (r.heap 0).size + k ∧
    vacant (pieces q tail') + n + k = vacant (pieces r tail)
  settled : Settled (pieces r tail) → Settled (pieces q tail')
  keeps : tail ⊆ tail'
  others : ∀ i, i ∉ 0 :: tail' → q.heap i = r.heap i ∨ q.heap i = zeroBlock

/-- How the blocks lie in front of the block cut off and behind it when `left` bytes of
the old one stay. -/
structure Laid (r : PmmRegion) (m1 m2 : List Nat) (left k : Nat) (q : PmmRegion)
    (l1 l2 : List Nat) : Prop where
  yields : Yields k (pieces r m1 ++ remains left)
  front : pieces q l1 = shrinkFirst k (pieces r m1 ++ remains left)
  back : pieces q l2 = pieces r m2
  table : (q.heap 0).size = (r.heap 0).size + k

section
variable {r q : PmmRegion} {m1 m2 l1 l2 tail : List Nat} {b j n p left size : Nat}

theorem Listed.block_bound {lost : Nat} (listed : Listed r (m1 ++ b :: m2) lost) :
    (r.heap 0).size + width (pieces r m1) + (r.heap b).size + width (pieces r m2) ≤ r.size := by
  have total := listed.total
  rw [width_pieces_split] at total
  omega

theorem pieces_free_split (r : PmmRegion) (m1 m2 : List Nat) (free : (r.heap b).flags = blockFree) :
    pieces r (m1 ++ b :: m2) = pieces r m1 ++ ((r.heap b).size, none) :: pieces r m2 := by
  rw [pieces_append, pieces_cons, piece_free free]

theorem cut_whole (wf : WellFormed r (m1 ++ b :: m2) 0) (free : (r.heap b).flags = blockFree) :
    Cut r (m1 ++ b :: m2) (r.heap b).size (addressOf r m1) b r
      m1 m2 := by
  have same := pieces_free_split r m1 m2 free
  constructor
  · exact wf
  · rfl
  · rfl
  · rfl
  · rfl
  · rw [occupied, same]
  · exact ⟨0, Or.inl rfl, rfl, by rw [same, Nat.add_zero]⟩
  · rw [same]
    exact Settled.take
  · exact List.Subset.refl _
  · exact fun i _ => Or.inl rfl

/-- The block cut off is the end of the old one. -/
theorem cut_end {k : Nat} {block : PmmBlock} (free : (r.heap b).flags = blockFree)
    (sum : left + n = (r.heap b).size) (blockSize : block.size = left)
    (blockFlags : block.flags = blockFree)
    (wfCut : WellFormed (r.setBlock b block) (m1 ++ b :: m2) n)
    (made : Created (r.setBlock b block) q (m1 ++ b :: m2) j n blockUsed
      ((r.setBlock b block).heap b).next k) :
    Cut r (m1 ++ b :: m2) n (addressOf r m1 + left) j
      (linkTo q b j) (m1 ++ [b]) m2 := by
  have old := pieces_free_split r m1 m2 free
  obtain ⟨yields, front, back, head⟩ := pieces_cut wfCut made blockSize (blockFlags ▸ holder_free b)
  rw [pieces_cons] at back
  obtain ⟨newPiece, back⟩ := List.cons.inj back
  have some : pieces r m1 ++ [((left, none) : Piece Nat)] ≠ [] := by simp
  have base : (linkTo q b j).base = r.base := made.base
  have assoc : m1 ++ b :: j :: m2 = (m1 ++ [b]) ++ j :: m2 := by simp
  have whole : ∀ holder, pieces (linkTo q b j) (m1 ++ [b]) ++
      (n, holder) :: pieces (linkTo q b j) m2 =
        shrinkFirst k ((pieces r m1 ++ [(left, none)]) ++ (n, holder) :: pieces r m2) := by
    intro holder
    rw [front, back, shrinkFirst_append some]
  have merge : (pieces r m1 ++ [(left, none)]) ++ ((n, none) : Piece Nat) :: pieces r m2 =
      pieces r m1 ++ (left, none) :: (n, none) :: pieces r m2 := by simp
  constructor
  · exact assoc ▸ wfCut.insert made (Or.inr rfl)
  · exact congrArg Prod.fst newPiece
  · exact base
  · exact made.regionSize
  · have shrunk := width_shrinkFirst yields
    rw [width_append, width_cons, width_nil] at shrunk
    rw [addressOf, addressOf, front, head, base]
    simp only at shrunk
    omega
  · rw [whole, head, base, ← Nat.add_assoc, held_shrinkFirst (yields.append some _), merge,
      held_merge, sum, occupied, old]
  · refine ⟨k, made.grows.imp_right And.left, head, ?_⟩
    rw [whole, vacant_shrinkFirst (yields.append some _), merge, vacant_merge, sum, old]
  · intro settled
    rw [whole, settled_shrinkFirst, List.append_assoc]
    rw [old] at settled
    exact settled.split
  · intro i hi
    simp only [List.mem_append, List.mem_cons] at hi ⊢
    tauto
  · intro i notIn
    simp only [List.mem_append, List.mem_cons, not_or] at notIn
    have apart : i ≠ b := notIn.2.1.2.1
    have kept := made.others i (by simp only [List.mem_append, List.mem_cons]; tauto)
      notIn.2.2.1
    rwa [linkTo, setBlock_other q _ apart, ← setBlock_other r block apart]

theorem remains_some (some : left ≠ 0) : (remains left : List (Piece Nat)) = [(left, none)] :=
  if_neg some

theorem laid_whole (r : PmmRegion) (m1 m2 : List Nat) : Laid r m1 m2 0 0 r m1 m2 := by
  have nothing : pieces r m1 ++ remains 0 = pieces r m1 := List.append_nil _
  constructor
  · rw [nothing]
    cases pieces r m1 with
    | nil => rfl
    | cons p ps => exact ⟨Nat.zero_le _, Or.inl rfl⟩
  · rw [nothing]
    cases pieces r m1 with
    | nil => rfl
    | cons p ps => rfl
  · rfl
  · rfl

theorem laid_end {k : Nat} {block : PmmBlock} (some : left ≠ 0) (blockSize : block.size = left)
    (blockFlags : block.flags = blockFree)
    (wfCut : WellFormed (r.setBlock b block) (m1 ++ b :: m2) n)
    (made : Created (r.setBlock b block) q (m1 ++ b :: m2) j n blockUsed
      ((r.setBlock b block).heap b).next k) :
    Laid r m1 m2 left k (linkTo q b j) (m1 ++ [b]) m2 := by
  obtain ⟨yields, front, back, head⟩ := pieces_cut wfCut made blockSize (blockFlags ▸ holder_free b)
  rw [pieces_cons] at back
  rw [← remains_some some] at yields front
  exact ⟨yields, front, (List.cons.inj back).2, head⟩

theorem splitLeft_sound (wf : WellFormed r (m1 ++ b :: m2) 0)
    (free : (r.heap b).flags = blockFree) (sum : left + n = (r.heap b).size) :
    Outcome.Sound (fun done => ∃ l1 l2, Cut r (m1 ++ b :: m2) n
        (addressOf r m1 + left) done.1 done.2 l1 l2 ∧
        Laid r m1 m2 left (splitGrowth r left) done.2 l1 l2)
      (splitLeft r b left) := by
  have bound := wf.block_bound
  have bounded := wf.bounded
  by_cases whole : left = 0
  · rw [splitLeft, splitGrowth, if_pos whole, if_neg (not_not.mpr whole)]
    subst whole
    rw [Nat.add_zero, ← Nat.zero_add n, sum]
    exact ⟨m1, m2, cut_whole wf free, laid_whole r m1 m2⟩
  · rw [splitLeft, splitGrowth, if_pos whole, if_neg whole]
    have nextSize : sub32 (r.heap b).size left = n := by
      rw [sub32_eq (by omega) (by omega)]
      omega
    have wfCut : WellFormed (r.setBlock b { r.heap b with size := left, flags := blockFree })
        (m1 ++ b :: m2) n := by
      apply wf.setBlock
      · rfl
      · exact Or.inl rfl
      · simp only
        omega
    refine (mmCreateBlock_sound wfCut (sub32 (r.heap b).size left) blockUsed _).bind ?_
    rintro ⟨j, q⟩ made
    simp only at made
    rw [nextSize, wf.growth_setBlock (show blockFree ≠ blockNotPresent by decide)] at made
    exact ⟨m1 ++ [b], m2, cut_end free sum rfl rfl wfCut made,
      laid_end whole rfl rfl wfCut made⟩

theorem Cut.taken_pieces (cut : Cut r tail n p j q l1 l2) {block : PmmBlock}
    (blockSize : block.size = n) (blockFlags : block.flags = blockUsed) :
    pieces (q.setBlock j block) (l1 ++ j :: l2) = pieces q l1 ++ (n, some j) :: pieces q l2 := by
  rw [pieces_setBlock_split cut.wellFormed.toListed, blockSize, blockFlags, holder_used]

/-- The block cut off comes into use. -/
theorem Cut.taken (cut : Cut r tail n p j q l1 l2) {block : PmmBlock} (blockSize : block.size = n)
    (blockFlags : block.flags = blockUsed) (next : block.next = (q.heap j).next) :
    Taken r tail n p j (q.setBlock j block) (l1 ++ j :: l2) := by
  have wf := cut.wellFormed
  obtain ⟨nonzero, _, _⟩ := wf.split_at
  have head : (q.setBlock j block).heap 0 = q.heap 0 := setBlock_other q block nonzero.symm
  have list := cut.taken_pieces blockSize blockFlags
  constructor
  · exact wf.setBlock next (Or.inr blockFlags) (by rw [blockSize, cut.size])
  · exact cut.base
  · exact cut.regionSize
  · rw [occupied, list, head, setBlock_base, ← cut.extents, ← cut.address]
    exact held_take _ _ _ _ _
  · obtain ⟨k, size, table, vacancy⟩ := cut.grows
    refine ⟨k, size, head ▸ table, ?_⟩
    rw [list, ← vacancy, vacant_append, vacant_append]
    simp only [vacant]
    omega
  · rw [list]
    exact cut.settled
  · exact cut.keeps
  · intro i notIn
    have apart : i ≠ j := fun same => notIn (by simp [same])
    rw [setBlock_other q block apart]
    exact cut.others i notIn

end

end Pmm
