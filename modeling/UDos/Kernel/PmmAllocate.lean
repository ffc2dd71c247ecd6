import UDos.Kernel.PmmHeap

/-!
# Allocation in well-formed regions

`MmAllocatePhysical` takes the first block that its loops accept. An allocation
without alignment takes the end of that block, and says NULL exactly when no
free block of a public region is large enough.
-/

namespace Pmm

open KernelMemory Extents Linked

section
variable {r : PmmRegion} {m1 m2 list : List Nat} {b p size align : Nat}

/-- The loop passes over all of these blocks, the first of which is at p. -/
def Passed (r : PmmRegion) (size align p : Nat) (list : List Nat) : Prop :=
  ∀ before i after, list = before ++ i :: after →
    unfit size align (r.heap i) (u32 (p + width (pieces r before)))

theorem passed_nil (r : PmmRegion) (size align p : Nat) : Passed r size align p [] := by
  intro before i after split
  simp at split

theorem passed_cons (first : unfit size align (r.heap b) (u32 p))
    (rest : Passed r size align (p + (r.heap b).size) list) : Passed r size align p (b :: list) := by
  intro before i after split
  cases before with
  | nil =>
    obtain ⟨rfl, _⟩ := List.cons.inj split
    rw [pieces, List.map_nil, width_nil, Nat.add_zero]
    exact first
  | cons a before =>
    obtain ⟨rfl, same⟩ := List.cons.inj split
    rw [pieces_cons, width_cons, ← Nat.add_assoc]
    exact rest before i after same

/-- The search passes over the blocks before the one it finds, or over all. -/
theorem findFit_found (size align start : Nat) {fuel : Nat} {o : Option Nat} {currentPtr : Nat}
    (linked : Segment (fun i => (r.heap i).next) o list none) (enough : list.length ≤ fuel)
    (current : currentPtr = u32 start) :
    (findFit r.heap size align fuel o currentPtr = .ok none ∧ Passed r size align start list) ∨
      ∃ before i after, list = before ++ i :: after ∧ Passed r size align start before ∧
        ¬ unfit size align (r.heap i) (u32 (start + width (pieces r before))) ∧
        findFit r.heap size align fuel o currentPtr =
          .ok (some (i, u32 (start + width (pieces r before)))) := by
  induction list generalizing fuel o currentPtr start with
  | nil =>
    cases linked
    rw [findFit]
    exact Or.inl ⟨rfl, passed_nil r size align start⟩
  | cons a list ih =>
    obtain ⟨rfl, rest⟩ := linked
    rw [List.length_cons] at enough
    obtain ⟨fuel, rfl⟩ : ∃ k, fuel = k + 1 := ⟨fuel - 1, by omega⟩
    rw [findFit, current]
    by_cases passed : unfit size align (r.heap a) (u32 start)
    · have next : u32 (u32 start + (r.heap a).size) = u32 (start + (r.heap a).size) := by
        unfold u32
        omega
      have short : list.length ≤ fuel := by omega
      rw [if_pos passed]
      rcases ih (start + (r.heap a).size) rest short next with ⟨none, all⟩ |
        ⟨before, i, after, rfl, earlier, fits, found⟩
      · exact Or.inl ⟨none, passed_cons passed all⟩
      · refine Or.inr ⟨a :: before, i, after, rfl, passed_cons passed earlier, ?_, ?_⟩
        · rwa [pieces_cons, width_cons, ← Nat.add_assoc]
        · rw [found, pieces_cons, width_cons, ← Nat.add_assoc, piece]
    · rw [if_neg passed]
      exact Or.inr ⟨[], a, list, rfl, passed_nil r size align start, passed, rfl⟩

/-- In a region the search begins with the descriptor table, which is in use. -/
theorem Listed.findFit_found {lost : Nat} (listed : Listed r list lost) (size align : Nat) :
    (findFit r.heap size align r.size (some 0) r.base = .ok none ∧
        Passed r size align (addressOf r []) list) ∨
      ∃ m1 b m2, list = m1 ++ b :: m2 ∧ Passed r size align (addressOf r []) m1 ∧
        ¬ unfit size align (r.heap b) (u32 (addressOf r m1)) ∧
        findFit r.heap size align r.size (some 0) r.base = .ok (some (b, u32 (addressOf r m1))) := by
  have behindTable : ∀ l, addressOf r [] + width (pieces r l) = addressOf r l := fun _ => rfl
  have table : unfit size align (r.heap 0) r.base := Or.inl listed.headUsed
  obtain ⟨_, rest⟩ := listed.linked
  obtain ⟨fuel, more⟩ : ∃ k, r.size = k + 1 := ⟨r.size - 1, by have := listed.length_le; omega⟩
  have short := listed.length_le
  rw [more, findFit, if_pos table]
  rcases Pmm.findFit_found size align (addressOf r []) rest (show list.length ≤ fuel by omega)
    rfl with all | ⟨m1, b, m2, split, earlier, fits, found⟩
  · exact Or.inl all
  · rw [behindTable] at fits found
    exact Or.inr ⟨m1, b, m2, split, earlier, fits, found⟩

theorem unfit_unaligned {block : PmmBlock} :
    unfit size 0 block p ↔ block.flags = blockUsed ∨ block.size < size := by
  simp [unfit]

/-- The block is free and large enough. -/
def fits (r : PmmRegion) (size b : Nat) : Bool :=
  (r.heap b).flags == blockFree && decide (size ≤ (r.heap b).size)

theorem unfit_iff (present : (r.heap b).flags = blockFree ∨ (r.heap b).flags = blockUsed)
    (p : Nat) : unfit size 0 (r.heap b) p ↔ fits r size b = false := by
  rw [unfit_unaligned, fits]
  rcases present with free | used
  · simp [free, blockFree, blockUsed]
  · simp [used, blockFree, blockUsed]

theorem fits_iff : fits r size b = true ↔
    (r.heap b).flags = blockFree ∧ size ≤ (r.heap b).size := by
  rw [fits, Bool.and_eq_true, beq_iff_eq, decide_eq_true_eq]

theorem below_of_unfit (unfit : ∀ i ∈ list, fits r size i = false) :
    Below size (pieces r list) := by
  intro p hp free
  obtain ⟨i, member, rfl⟩ := List.mem_map.mp hp
  by_contra large
  have freeBlock : (r.heap i).flags = blockFree := by
    by_contra notFree
    rw [piece_used notFree] at free
    exact nomatch free
  have fit := fits_iff.mpr ⟨freeBlock, Nat.not_lt.mp large⟩
  rw [unfit i member] at fit
  exact nomatch fit

/-- Block b is the first free one of the list that is large enough. -/
structure FirstFree (r : PmmRegion) (list : List Nat) (size : Nat) (m1 : List Nat) (b : Nat)
    (m2 : List Nat) : Prop where
  place : list = m1 ++ b :: m2
  found : list.find? (fits r size) = some b
  free : (r.heap b).flags = blockFree
  large : size ≤ (r.heap b).size
  below : Below size (pieces r m1)

/-- The search of a region ends at its first free block that is large enough. -/
theorem findFit_eq (wf : WellFormed r (behind r) 0) (size : Nat) :
    (findFit r.heap size 0 r.size (some 0) r.base = .ok none ∧
        (behind r).find? (fits r size) = none) ∨
      ∃ m1 b m2, FirstFree r (behind r) size m1 b m2 ∧
        findFit r.heap size 0 r.size (some 0) r.base = .ok (some (b, u32 (addressOf r m1))) := by
  have passes : ∀ l1 i l2, behind r = l1 ++ i :: l2 → ∀ p,
      (unfit size 0 (r.heap i) p ↔ fits r size i = false) := fun l1 i l2 split p =>
    unfit_iff (wf.present i (by rw [split]; simp)) p
  rcases wf.findFit_found size 0 with ⟨none, all⟩ | ⟨m1, b, m2, split, earlier, fit, found⟩
  · refine Or.inl ⟨none, List.find?_eq_none.mpr fun i member => ?_⟩
    obtain ⟨l1, l2, place⟩ := List.append_of_mem member
    rw [(passes l1 i l2 place _).mp (all l1 i l2 place)]
    decide
  · have unfitting : ∀ i ∈ m1, fits r size i = false := by
      intro i before
      obtain ⟨l1, l2, rfl⟩ := List.append_of_mem before
      have place : behind r = l1 ++ i :: (l2 ++ b :: m2) := by rw [split]; simp
      exact (passes l1 i _ place _).mp (earlier l1 i l2 rfl)
    have fitting : fits r size b = true := by
      rw [passes m1 b m2 split] at fit
      simpa using fit
    obtain ⟨free, large⟩ := fits_iff.mp fitting
    refine Or.inr ⟨m1, b, m2, ⟨split, ?_, free, large, below_of_unfit unfitting⟩, found⟩
    rw [List.find?_eq_some_iff_append]
    refine ⟨fitting, m1, m2, split, fun i before => ?_⟩
    rw [unfitting i before]
    rfl

/-- The object, in block j, is behind what is left of block b. -/
structure Placed (r : PmmRegion) (m1 : List Nat) (b : Nat) (m2 : List Nat) (size j : Nat)
    (q : PmmRegion) (tail : List Nat) : Prop where
  fits : size ≤ (r.heap b).size
  yields : Yields (splitGrowth r ((r.heap b).size - size))
    (pieces r m1 ++ remains ((r.heap b).size - size))
  table : (q.heap 0).size = (r.heap 0).size + splitGrowth r ((r.heap b).size - size)
  pieces : pieces q tail = shrinkFirst (splitGrowth r ((r.heap b).size - size))
    (pieces r m1 ++ remains ((r.heap b).size - size)) ++ (size, some j) :: pieces r m2

/-- The object is the end of the block found. -/
theorem allocateIn_unaligned (env : Env) (wf : WellFormed r (m1 ++ b :: m2) 0)
    (free : (r.heap b).flags = blockFree) (fits : size ≤ (r.heap b).size) :
    Outcome.Sound (fun done => done.1 = u32 (addressOf r m1 + ((r.heap b).size - size)) ∧
        ∃ j tail, Taken r (m1 ++ b :: m2) size (addressOf r m1 + ((r.heap b).size - size)) j
          done.2 tail ∧ Placed r m1 b m2 size j done.2 tail)
      (allocateIn env r size 0 b (u32 (addressOf r m1))) := by
  have bound := wf.block_bound
  have bounded := wf.bounded
  have left : leftSize size 0 (r.heap b) (u32 (addressOf r m1)) = (r.heap b).size - size := by
    rw [leftSize, if_neg (by simp), sub32_eq fits (by omega)]
  rw [allocateIn, left]
  refine (splitLeft_sound wf free (Nat.sub_add_cancel fits)).bind ?_
  rintro ⟨i, cut⟩ ⟨l1, l2, made, laid⟩
  simp only at made laid
  refine (Outcome.sound_check _).bind fun _ _ => ?_
  set used := cut.setBlock i { cut.heap i with flags := blockUsed, jobId := env.currentJobId }
    with hused
  have block : used.heap i =
      { cut.heap i with flags := blockUsed, jobId := env.currentJobId } := setBlock_same _ _ _
  have right : splitRight used i (sub32 (used.heap i).size size) = .ok used := by
    rw [block, made.size, sub32_eq (Nat.le_refl _) (by omega), Nat.sub_self]
    rfl
  change Outcome.Sound _ (splitRight used i (sub32 (used.heap i).size size) >>= _)
  rw [right, Outcome.ok_bind, hused, setBlock_setBlock, setBlock_same]
  have nonzero := made.wellFormed.split_at.1
  refine ⟨?_, i, l1 ++ i :: l2, made.taken rfl rfl rfl, fits, laid.yields, ?_, ?_⟩
  · unfold u32
    simp only
    omega
  · rw [setBlock_other cut _ nonzero.symm]
    exact laid.table
  · rw [made.taken_pieces rfl rfl, laid.front, laid.back]

end

/-- The object of that size at p is within a free block. -/
def Inside (r : PmmRegion) (p size : Nat) : Prop :=
  ∃ m1 b m2, behind r = m1 ++ b :: m2 ∧ (r.heap b).flags = blockFree ∧
    addressOf r m1 ≤ p ∧ p + size ≤ addressOf r m1 + (r.heap b).size

/-- Some free block of a public region is large enough. -/
def HasRoom (regions : List PmmRegion) (size : Nat) : Prop :=
  ∃ r ∈ regions, r.flags = regionPublic ∧
    ∃ b ∈ behind r, (r.heap b).flags = blockFree ∧ size ≤ (r.heap b).size

/-- An allocation changes nothing because there is no room, or takes an object
in one region. -/
def Allocates (regions : List PmmRegion) (size : Nat) (done : Nat × List PmmRegion) : Prop :=
  (done = (0, regions) ∧ ¬ HasRoom regions size) ∨
    ∃ front r back j a r', regions = front ++ r :: back ∧ r.flags = regionPublic ∧
      done = (u32 a, front ++ r' :: back) ∧ Inside r a size ∧
      Taken r (behind r) size a j r' (behind r')

section
variable {regions : List PmmRegion} {size : Nat}

theorem Allocates.skip {r : PmmRegion} {done : Nat × List PmmRegion}
    (allocates : Allocates regions size done)
    (none : r.flags = regionPublic → ¬ HasRoom [r] size) :
    Allocates (r :: regions) size (done.1, r :: done.2) := by
  rcases allocates with ⟨rfl, without⟩ | ⟨front, q, back, j, a, q', rfl, isPublic, rfl, rest⟩
  · refine Or.inl ⟨rfl, ?_⟩
    rintro ⟨q, member, isPublic, large⟩
    rcases List.mem_cons.mp member with rfl | later
    · exact none isPublic ⟨q, List.mem_singleton_self q, isPublic, large⟩
    · exact without ⟨q, later, isPublic, large⟩
  · exact Or.inr ⟨r :: front, q, back, j, a, q', rfl, isPublic, rfl, rest⟩

theorem Passed.no_room {r : PmmRegion}
    (all : Passed r size 0 (addressOf r []) (behind r)) : ¬ HasRoom [r] size := by
  rintro ⟨q, member, _, b, inList, free, large⟩
  obtain rfl := List.mem_singleton.mp member
  obtain ⟨m1, m2, split⟩ := List.append_of_mem inList
  rcases unfit_unaligned.mp (all m1 b m2 split) with used | small
  · rw [free] at used
    exact absurd used (by decide)
  · omega

theorem allocateFrom_sound (env : Env) (size : Nat)
    (ordered : ∀ r ∈ regions, r.flags = regionPublic → WellFormed r (behind r) 0) :
    Outcome.Sound (Allocates regions size) (allocateFrom env size 0 regions) := by
  induction regions with
  | nil =>
    refine Or.inl ⟨rfl, ?_⟩
    rintro ⟨r, member, _⟩
    exact nomatch member
  | cons r regions ih =>
    have later := ih fun q hq => ordered q (List.mem_cons_of_mem r hq)
    rw [allocateFrom]
    by_cases skipped : r.flags ≠ regionPublic
    · rw [if_pos skipped]
      refine later.bind fun done allocates => ?_
      exact allocates.skip fun isPublic => absurd isPublic skipped
    · have isPublic : r.flags = regionPublic := not_not.mp skipped
      have wf := ordered r List.mem_cons_self isPublic
      rw [if_neg skipped]
      rcases wf.findFit_found size 0 with ⟨none, all⟩ | ⟨m1, b, m2, split, _, fits, found⟩
      · rw [none, Outcome.ok_bind]
        refine later.bind fun done allocates => ?_
        exact allocates.skip fun _ => all.no_room
      · rw [found, Outcome.ok_bind]
        have notFit := mt unfit_unaligned.mpr fits
        rw [not_or, Nat.not_lt] at notFit
        have free := (wf.present b (by rw [split]; simp)).resolve_right notFit.1
        have wf' := wf
        rw [split] at wf'
        refine (allocateIn_unaligned env wf' free notFit.2).bind ?_
        rintro ⟨p, r'⟩ ⟨rfl, j, tail', taken, _⟩
        rw [← split, ← taken.wellFormed.behind_eq] at taken
        refine Or.inr ⟨[], r, regions, j, _, r', rfl, isPublic, rfl, ?_, taken⟩
        refine ⟨m1, b, m2, split, free, Nat.le_add_right _ _, ?_⟩
        omega

/-- Regions that are not public are passed over. -/
theorem allocateFrom_skip {front : List PmmRegion} (env : Env) (size align : Nat)
    (unused : ∀ q ∈ front, q.flags ≠ regionPublic) :
    allocateFrom env size align (front ++ regions) =
      allocateFrom env size align regions >>= fun done => .ok (done.1, front ++ done.2) := by
  induction front with
  | nil =>
    rw [List.nil_append]
    cases allocateFrom env size align regions with
    | ok done => rfl
    | panic message => rfl
    | fault => rfl
    | diverge => rfl
  | cons q front ih =>
    rw [List.cons_append, allocateFrom, if_pos (unused q List.mem_cons_self),
      ih fun q' hq' => unused q' (List.mem_cons_of_mem q hq')]
    cases allocateFrom env size align regions with
    | ok done => rfl
    | panic message => rfl
    | fault => rfl
    | diverge => rfl

theorem allocateFrom_unused (env : Env) (size align : Nat)
    (unused : ∀ q ∈ regions, q.flags ≠ regionPublic) :
    allocateFrom env size align regions = .ok (0, regions) := by
  have skipped : allocateFrom env size align (regions ++ []) =
      allocateFrom env size align [] >>= fun done => .ok (done.1, regions ++ done.2) :=
    allocateFrom_skip env size align unused
  rwa [List.append_nil, allocateFrom, Outcome.ok_bind, List.append_nil] at skipped

theorem checkLoop_ends (env : Env) {r : PmmRegion} {fuel : Nat} {list : List Nat} {o : Option Nat}
    {size : Nat} (linked : Segment (fun i => (r.heap i).next) o list none)
    (enough : list.length ≤ fuel) :
    Outcome.Sound (fun _ => True) (checkLoop env r.heap fuel o size) := by
  induction list generalizing fuel o size with
  | nil =>
    cases linked
    rw [checkLoop]
    trivial
  | cons a list ih =>
    obtain ⟨rfl, rest⟩ := linked
    rw [List.length_cons] at enough
    obtain ⟨fuel, rfl⟩ : ∃ k, fuel = k + 1 := ⟨fuel - 1, by omega⟩
    rw [checkLoop]
    exact (Outcome.sound_check _).bind fun _ _ => ih rest (by omega)

theorem debugCheck_ends (env : Env)
    (ordered : ∀ r ∈ regions, r.flags = regionPublic → ∃ tail, Listed r tail 0) :
    Outcome.Sound (fun _ => True) (debugCheck env regions) := by
  have checked : Outcome.Sound (fun _ => True) (mmCheckHeap env regions) := by
    induction regions with
    | nil => trivial
    | cons r regions ih =>
      have later := ih fun q hq => ordered q (List.mem_cons_of_mem r hq)
      rw [mmCheckHeap]
      by_cases skipped : r.flags ≠ regionPublic
      · rw [if_pos skipped]
        exact later
      · obtain ⟨tail, listed⟩ := ordered r List.mem_cons_self (not_not.mp skipped)
        rw [if_neg skipped]
        refine (checkLoop_ends env listed.linked ?_).bind fun _ _ => ?_
        · rw [List.length_cons]
          exact listed.length_le
        · exact (Outcome.sound_check _).bind fun _ _ => later
  by_cases debug : env.debug = true
  · rw [debugCheck, if_pos debug]
    exact checked
  · rw [debugCheck, if_neg debug]
    trivial

theorem Allocates.ordered {done : Nat × List PmmRegion} (allocates : Allocates regions size done)
    (ordered : ∀ r ∈ regions, r.flags = regionPublic → WellFormed r (behind r) 0) :
    ∀ r ∈ done.2, r.flags = regionPublic → WellFormed r (behind r) 0 := by
  rcases allocates with ⟨rfl, _⟩ | ⟨front, r, back, j, a, r', rfl, _, rfl, _, taken⟩
  · exact ordered
  · intro q hq isPublic
    rcases List.mem_append.mp hq with before | behindThem
    · exact ordered q (List.mem_append_left _ before) isPublic
    · rcases List.mem_cons.mp behindThem with rfl | after
      · exact taken.wellFormed
      · exact ordered q (List.mem_append_right _ (List.mem_cons_of_mem r after)) isPublic

theorem mmAllocatePhysical_sound (env : Env) (size : Nat)
    (ordered : ∀ r ∈ regions, r.flags = regionPublic → WellFormed r (behind r) 0) :
    Outcome.Sound (fun done => size ≠ 0 ∧ Allocates regions size done)
      (mmAllocatePhysical env regions size 0) := by
  rw [mmAllocatePhysical]
  refine (Outcome.sound_check _).bind fun _ positive => ?_
  refine (allocateFrom_sound env size ordered).bind fun done allocates => ?_
  have after := allocates.ordered ordered
  refine (debugCheck_ends env fun r hr isPublic => ?_).bind fun _ _ => ⟨positive, allocates⟩
  exact ⟨behind r, (after r hr isPublic).toListed⟩

/-- What the caller has when it is given the object of that size at p: the old
used blocks are where they were, and the storage that is not in use has lost
the object and what the table took. -/
structure Handed (r r' : PmmRegion) (p size : Nat) : Prop where
  wellFormed : WellFormed r' (behind r') 0
  base : r'.base = r.base
  regionSize : r'.size = r.size
  inside : Inside r p size
  used : ∃ j, (occupied r' (behind r')).Perm ((j, p, size) :: occupied r (behind r))
  vacant : ∃ k, (k = 0 ∨ k = 384) ∧ (r'.heap 0).size = (r.heap 0).size + k ∧
    vacant (pieces r' (behind r')) + size + k = vacant (pieces r (behind r))

theorem Inside.bounds {r : PmmRegion} {p : Nat} (inside : Inside r p size)
    (wf : WellFormed r (behind r) 0) : sizeofPmmBlock ≤ p ∧ p + size ≤ r.base + r.size := by
  obtain ⟨m1, b, m2, split, _, low, high⟩ := inside
  have table := wf.tablePositive
  rw [split] at wf
  have bound := wf.block_bound
  unfold addressOf at low high
  omega

theorem Inside.hasRoom {r : PmmRegion} {p : Nat} (inside : Inside r p size)
    (member : r ∈ regions) (isPublic : r.flags = regionPublic) : HasRoom regions size := by
  obtain ⟨m1, b, m2, split, free, low, high⟩ := inside
  refine ⟨r, member, isPublic, b, by simp [split], free, ?_⟩
  omega

/-- An allocation without alignment that returns says NULL exactly when there
is no room, and then changes nothing; otherwise one region hands the object out. -/
theorem mmAllocatePhysical_unaligned (env : Env) (regions : List PmmRegion) (size : Nat)
    (ordered : ∀ r ∈ regions, r.flags = regionPublic →
      WellFormed r (behind r) 0 ∧ r.base + r.size ≤ 4294967296) :
    Outcome.Sound (fun done => (done.1 = 0 ↔ ¬ HasRoom regions size) ∧
        (done.1 = 0 → done.2 = regions) ∧
        (done.1 ≠ 0 → ∃ front r back r', regions = front ++ r :: back ∧
          done.2 = front ++ r' :: back ∧ r.flags = regionPublic ∧ Handed r r' done.1 size))
      (mmAllocatePhysical env regions size 0) := by
  refine (mmAllocatePhysical_sound env size fun r hr isPublic =>
    (ordered r hr isPublic).1).mono ?_
  rintro done ⟨positive, ⟨rfl, without⟩ | ⟨front, r, back, j, a, r', rfl, isPublic, rfl, inside,
    taken⟩⟩
  · exact ⟨⟨fun _ => without, fun _ => rfl⟩, fun _ => rfl, fun other => absurd rfl other⟩
  · have member : r ∈ front ++ r :: back := by simp
    obtain ⟨wf, low⟩ := ordered r member isPublic
    have bounds := inside.bounds wf
    have address : u32 a = a := u32_eq_self (by omega)
    have nonzero : a ≠ 0 := by
      simp only [sizeofPmmBlock] at bounds
      omega
    simp only [address]
    refine ⟨⟨fun null => absurd null nonzero, fun without => ?_⟩, fun null => absurd null nonzero,
      fun _ => ⟨front, r, back, r', rfl, rfl, isPublic, ?_⟩⟩
    · exact absurd (inside.hasRoom member isPublic) without
    · obtain ⟨k, added, table, vacancy⟩ := taken.grows
      exact ⟨taken.wellFormed, taken.base, taken.regionSize, inside, ⟨j, taken.extents⟩,
        ⟨k, added, table, vacancy⟩⟩

/-- A region whose table is full: the first block is taken into use by a table
that grows into it. -/
def fullTable : PmmRegion :=
  ⟨4096, 2048, regionPublic, fun i =>
    if i = 0 then ⟨24, some 1, blockUsed, 65535⟩
    else if i = 1 then ⟨2024, none, blockFree, 65535⟩
    else zeroBlock⟩

theorem fullTable_wellFormed : WellFormed fullTable (behind fullTable) 0 := by
  have list : behind fullTable = [1] := by decide
  rw [list]
  constructor
  · constructor
    · exact ⟨rfl, rfl, rfl⟩
    · decide
    · decide
    · rfl
    · decide
    · decide
    · decide
    · rfl
  · exact ⟨[], rfl⟩
  · decide

theorem fullTable_unaligned :
    Outcome.Sound (fun done => (done.1 = 0 ↔ ¬ HasRoom [fullTable] 100) ∧
        (done.1 = 0 → done.2 = [fullTable]) ∧
        (done.1 ≠ 0 → ∃ front r back r', [fullTable] = front ++ r :: back ∧
          done.2 = front ++ r' :: back ∧ r.flags = regionPublic ∧ Handed r r' done.1 100))
      (mmAllocatePhysical ⟨true, 0, 1⟩ [fullTable] 100 0) :=
  mmAllocatePhysical_unaligned ⟨true, 0, 1⟩ [fullTable] 100 fun r member _ => by
    rw [List.mem_singleton.mp member]
    exact ⟨fullTable_wellFormed, by decide⟩

end

end Pmm
