import UDos.Kernel.PmmCoalesce

/-!
# Aligned allocation

With an alignment the object is put at the last aligned address at which it
fits into the block. The loop accepts a block by the address of its start, not
by whether there is such an address, so it can accept a block that has none,
and pass over one that has.
-/

namespace Pmm

open KernelMemory Extents Linked

section
variable {r q : PmmRegion} {m1 m2 l1 l2 tail : List Nat} {b j n k lost size right : Nat}
  {flags : UInt8} {next : Option Nat}

/-- The size of a block in use does not matter to the creation of another one. -/
theorem Created.resize (made : Created r q (m1 ++ b :: m2) j n flags next k)
    (wf : WellFormed r (m1 ++ b :: m2) lost) (used : (r.heap b).flags ≠ blockFree) (s : Nat) :
    Created (r.setBlock b { r.heap b with size := s }) (q.setBlock b { q.heap b with size := s })
      (m1 ++ b :: m2) j n flags next k := by
  obtain ⟨nonzero, _, _⟩ := wf.split_at
  have fresh : j ≠ b := by
    rintro rfl
    exact made.new (by simp)
  have second : 1 = b → k = 0 := by
    rintro rfl
    exact made.grows.resolve_right fun grows => used grows.2
  constructor
  · exact made.new
  · rw [setBlock_other q _ nonzero.symm]
    exact made.inTable
  · rw [setBlock_other q _ fresh, made.size]
  · rw [setBlock_other q _ fresh, made.flags]
  · rw [setBlock_other q _ fresh, made.next]
  · intro i hi
    by_cases same : i = b
    · rw [same, setBlock_same, setBlock_same]
      exact made.keptNext b (same ▸ hi)
    · rw [setBlock_other q _ same, setBlock_other r _ same, made.keptNext i hi]
  · intro i hi
    by_cases same : i = b
    · rw [same, setBlock_same, setBlock_same]
      exact made.keptFlags b (same ▸ hi)
    · rw [setBlock_other q _ same, setBlock_other r _ same, made.keptFlags i hi]
  · intro i hi notSecond
    by_cases same : i = b
    · rw [same, setBlock_same, setBlock_same]
    · rw [setBlock_other q _ same, setBlock_other r _ same, made.keptSize i hi notSecond]
  · intro i notIn apart
    have other : i ≠ b := by
      rintro rfl
      exact notIn (by simp)
    rw [setBlock_other q _ other, setBlock_other r _ other]
    exact made.others i notIn apart
  · by_cases same : 1 = b
    · rw [second same]
      exact Nat.zero_le _
    · rw [setBlock_other r _ same]
      exact made.room
  · rw [setBlock_other q _ nonzero.symm, setBlock_other r _ nonzero.symm, made.table]
  · by_cases same : 1 = b
    · rw [second same, ← same, setBlock_same, setBlock_same, Nat.sub_zero]
    · rw [setBlock_other q _ same, setBlock_other r _ same, made.second]
  · by_cases same : 1 = b
    · exact Or.inl (second same)
    · rw [setBlock_other r _ same]
      exact made.grows
  · exact made.base
  · exact made.regionSize
  · exact made.regionFlags

/-- The rest of a block in use becomes a free block behind it. -/
theorem splitRight_sound (wf : WellFormed r (m1 ++ b :: m2) 0)
    (used : (r.heap b).flags = blockUsed) (sum : size + right = (r.heap b).size) :
    Outcome.Sound (fun q => ∃ tail', WellFormed (q.setBlock b { q.heap b with size := size })
        tail' 0 ∧ q.base = r.base ∧ q.size = r.size ∧
        (occupied (q.setBlock b { q.heap b with size := size }) tail').Perm
          ((b, addressOf r m1, size) :: held (r.base + (r.heap 0).size)
            (pieces r m1 ++ ((r.heap b).size, none) :: pieces r m2)))
      (splitRight r b right) := by
  have notFree := notFree_of_used used
  by_cases whole : right = 0
  · rw [splitRight, if_neg (by omega)]
    have size_eq : size = (r.heap b).size := by omega
    have same : r.setBlock b { r.heap b with size := size } = r := by
      rw [size_eq]
      exact setBlock_self r b
    refine ⟨m1 ++ b :: m2, ?_, rfl, rfl, ?_⟩
    · rw [same]
      exact wf
    · rw [same, occupied, pieces_append, pieces_cons, piece_used notFree, size_eq]
      exact held_take _ _ _ _ _
  · rw [splitRight, if_pos whole]
    refine (mmCreateBlock_sound wf right blockFree (r.heap b).next).bind ?_
    rintro ⟨j, q⟩ made
    simp only at made
    have wfCut : WellFormed (r.setBlock b { r.heap b with size := size }) (m1 ++ b :: m2)
        right := by
      apply wf.setBlock
      · rfl
      · exact Or.inr used
      · simp only
        omega
    have cut := made.resize wf notFree size
    have link : (r.heap b).next =
        ((r.setBlock b { r.heap b with size := size }).heap b).next := by rw [setBlock_same]
    rw [link] at cut
    have final : linkTo (q.setBlock b { q.heap b with size := size }) b j =
        (q.setBlock b { q.heap b with next := some j }).setBlock b
          { (q.setBlock b { q.heap b with next := some j }).heap b with size := size } := by
      simp only [linkTo, setBlock_setBlock, setBlock_same]
    obtain ⟨yields, front, back, head⟩ := pieces_cut wfCut cut rfl (used ▸ holder_used b)
    have assoc : m1 ++ b :: j :: m2 = (m1 ++ [b]) ++ j :: m2 := by simp
    have some : pieces r m1 ++ [((size, some b) : Piece Nat)] ≠ [] := by simp
    have base : (linkTo (q.setBlock b { q.heap b with size := size }) b j).base = r.base :=
      made.base
    rw [holder_free] at back
    refine ⟨m1 ++ b :: j :: m2, ?_, made.base, made.regionSize, ?_⟩
    · rw [← final]
      exact wfCut.insert cut (Or.inl rfl)
    · rw [← final, occupied, assoc, pieces_append, front, back, ← shrinkFirst_append some, head, base,
        ← Nat.add_assoc, held_shrinkFirst (yields.append some _), ← sum, List.append_assoc,
        List.singleton_append]
      refine (held_take _ _ _ _ _).trans ?_
      rw [held_merge]
      exact List.Perm.refl _

end

/-- The block that the loop accepts first, and its address. -/
def FirstFit (r : PmmRegion) (size align b p : Nat) : Prop :=
  ∃ m1 m2, behind r = m1 ++ b :: m2 ∧ p = addressOf r m1 ∧
    Passed r size align (addressOf r []) m1 ∧ ¬ unfit size align (r.heap b) (u32 p)

/-- None of the subtractions that place an object in the block at p is of a
larger number from a smaller one. -/
def Unwrapped (size align p : Nat) (block : PmmBlock) : Prop :=
  let last := u32 (p + block.size) - size
  size ≤ u32 (p + block.size) ∧ p ≤ last - last % align ∧
    last - last % align - p + size ≤ block.size

/-- A block of n bytes at p has an aligned place for the object. -/
def Place (size align p n : Nat) : Prop := ∃ a, align ∣ a ∧ p ≤ a ∧ a + size ≤ p + n

/-- Some free block of the region has an aligned place for the object. -/
def HasPlace (r : PmmRegion) (size align : Nat) : Prop :=
  ∃ m1 b m2, behind r = m1 ++ b :: m2 ∧ (r.heap b).flags = blockFree ∧
    Place size align (addressOf r m1) (r.heap b).size

/-- The place taken is the last one, and there is one exactly when the rounding
does not go below the block. -/
theorem unwrapped_iff {size align p : Nat} {block : PmmBlock} (positive : 0 < size)
    (high : p + block.size ≤ 4294967296) :
    Unwrapped size align p block ↔
      p + block.size < 4294967296 ∧ Place size align p block.size := by
  unfold Unwrapped
  constructor
  · rintro ⟨room, above, _⟩
    have low : p + block.size < 4294967296 := by
      refine Nat.lt_of_le_of_ne high fun wraps => ?_
      rw [wraps] at room
      exact absurd room (by unfold u32; omega)
    rw [u32_eq_self low] at room above
    refine ⟨low, _, Nat.dvd_sub_mod _, above, ?_⟩
    omega
  · rintro ⟨low, a, aligned, above, below⟩
    rw [u32_eq_self low]
    have rounded : a ≤ (p + block.size - size) - (p + block.size - size) % align := by
      have steps := Nat.div_le_div_right (c := align) (show a ≤ p + block.size - size by omega)
      have exactly := Nat.div_mul_cancel aligned
      have down := Nat.div_add_mod' (p + block.size - size) align
      have scaled := Nat.mul_le_mul_right align steps
      omega
    refine ⟨by omega, Nat.le_trans above rounded, ?_⟩
    omega

theorem leftSize_eq {size align p : Nat} {block : PmmBlock} (aligned : 0 < align)
    (unwrapped : Unwrapped size align p block) (low : p + block.size < 4294967296) :
    ∃ a, align ∣ a ∧ p ≤ a ∧ a + size ≤ p + block.size ∧
      leftSize size align block p = a - p := by
  obtain ⟨room, above, below⟩ := unwrapped
  rw [u32_eq_self low] at room above below
  refine ⟨_, Nat.dvd_sub_mod _, above, by omega, ?_⟩
  rw [leftSize, if_pos (by omega), u32_eq_self low, sub32_eq room low]
  simp only
  rw [sub32_eq (Nat.mod_le _ _) (by omega), sub32_eq above (by omega)]

/-- What the caller has when it is given an object of that size at p. -/
structure HandedAligned (r r' : PmmRegion) (p size align : Nat) : Prop where
  aligned : align ∣ p
  inside : Inside r p size
  wellFormed : WellFormed r' (behind r') 0
  base : r'.base = r.base
  regionSize : r'.size = r.size
  used : ∃ j, (occupied r' (behind r')).Perm ((j, p, size) :: occupied r (behind r))

/-- The size computation of an aligned allocation does not wrap, and the
allocation finds a place if there is one and hands out nothing else. -/
def AllocatesAligned (env : Env) (front : List PmmRegion) (r : PmmRegion) (back : List PmmRegion)
    (size align : Nat) : Prop :=
  (∀ b p, FirstFit r size align b p → Unwrapped size align p (r.heap b)) ∧
    Outcome.Sound (fun done => (HasPlace r size align → done.1 ≠ 0) ∧
        (done.1 ≠ 0 → ∃ r', done.2 = front ++ r' :: back ∧
          HandedAligned r r' done.1 size align))
      (mmAllocatePhysical env (front ++ r :: back) size align)

/-- The block accepted first has a place, and one is accepted if any has. -/
def FirstFitHasPlace (r : PmmRegion) (size align : Nat) : Prop :=
  (∀ b p, FirstFit r size align b p →
    p + (r.heap b).size < 4294967296 ∧ Place size align p (r.heap b).size) ∧
  (HasPlace r size align → ∃ b p, FirstFit r size align b p)

section
variable {r : PmmRegion} {front back others : List PmmRegion} {m1 m2 : List Nat}
  {b p size align : Nat}

/-- The object is put at the aligned address, and what is left on either side
of it stays free. -/
theorem allocateIn_aligned (env : Env) (wf : WellFormed r (m1 ++ b :: m2) 0)
    (free : (r.heap b).flags = blockFree) (aligned : 0 < align) (positive : 0 < size)
    (low : addressOf r m1 + (r.heap b).size < 4294967296)
    (unwrapped : Unwrapped size align (addressOf r m1) (r.heap b)) :
    Outcome.Sound (fun done => ∃ tail j, align ∣ done.1 ∧ addressOf r m1 ≤ done.1 ∧
        done.1 + size ≤ addressOf r m1 + (r.heap b).size ∧ WellFormed done.2 tail 0 ∧
        done.2.base = r.base ∧ done.2.size = r.size ∧
        (occupied done.2 tail).Perm ((j, done.1, size) :: occupied r (m1 ++ b :: m2)))
      (allocateIn env r size align b (addressOf r m1)) := by
  obtain ⟨a, dvd, above, below, left⟩ := leftSize_eq aligned unwrapped low
  have sum : a - addressOf r m1 + ((r.heap b).size - (a - addressOf r m1)) = (r.heap b).size := by
    omega
  have place : addressOf r m1 + (a - addressOf r m1) = a := by omega
  rw [allocateIn, left]
  refine (splitLeft_sound wf free sum).bind ?_
  rintro ⟨i, cut⟩ ⟨l1, l2, made, _⟩
  rw [place] at made
  simp only at made
  obtain ⟨nonzero, notIn1, notIn2⟩ := made.wellFormed.split_at
  refine (Outcome.sound_check _).bind fun _ _ => ?_
  set used := cut.setBlock i { cut.heap i with flags := blockUsed, jobId := env.currentJobId }
    with hused
  have block : used.heap i =
      { cut.heap i with flags := blockUsed, jobId := env.currentJobId } := setBlock_same _ _ _
  have whole : (used.heap i).size = (r.heap b).size - (a - addressOf r m1) := by
    rw [block]
    exact made.size
  have rest : sub32 (used.heap i).size size = (used.heap i).size - size := by
    rw [whole]
    exact sub32_eq (by omega) (by omega)
  have taken : Taken r (m1 ++ b :: m2) _ a i used (l1 ++ i :: l2) :=
    made.taken made.size rfl rfl
  have fits : size + ((used.heap i).size - size) = (used.heap i).size := by
    rw [whole]
    omega
  change Outcome.Sound _ (splitRight used i (sub32 (used.heap i).size size) >>= _)
  rw [rest]
  refine (splitRight_sound taken.wellFormed (by rw [block]) fits).bind ?_
  rintro q ⟨tail, wf', base, regionSize, extents⟩
  have head : (used.heap 0).size = (cut.heap 0).size := by rw [hused, setBlock_other _ _ nonzero.symm]
  have address : addressOf used l1 = a := by
    rw [← made.address, addressOf, addressOf, head, hused, pieces_setBlock _ notIn1, setBlock_base]
  have old : held (used.base + (used.heap 0).size)
      (pieces used l1 ++ ((used.heap i).size, none) :: pieces used l2) =
        occupied r (m1 ++ b :: m2) := by
    rw [← made.extents, head, whole, hused, pieces_setBlock _ notIn1, pieces_setBlock _ notIn2,
      setBlock_base]
  rw [address, old] at extents
  rw [place, u32_eq_self (by omega)]
  exact ⟨tail, i, dvd, above, below, wf', base.trans taken.base,
    regionSize.trans taken.regionSize, extents⟩

theorem FirstFit.split (fit : FirstFit r size align b p) (wf : WellFormed r (behind r) 0)
    (positive : 0 < size) (low : r.base + r.size ≤ 4294967296) :
    ∃ m1 m2, behind r = m1 ++ b :: m2 ∧ p = addressOf r m1 ∧ p + (r.heap b).size ≤ 4294967296 ∧
      u32 p = p ∧ (r.heap b).flags = blockFree := by
  obtain ⟨m1, m2, place, rfl, _, fits⟩ := fit
  have notFit := fits
  rw [unfit, not_or, not_or] at notFit
  have free := (wf.present b (by simp [place])).resolve_right notFit.1
  rw [place] at wf
  have bound := wf.block_bound
  have high : addressOf r m1 + (r.heap b).size ≤ 4294967296 := by
    unfold addressOf
    omega
  exact ⟨m1, m2, place, rfl, high, u32_eq_self (by omega), free⟩

/-- The regions are as they were, or the public one has handed an object out. -/
def AlignedResult (front : List PmmRegion) (r : PmmRegion) (back : List PmmRegion)
    (size align : Nat) (done : Nat × List PmmRegion) : Prop :=
  (HasPlace r size align → done.1 ≠ 0) ∧
    ((done.1 = 0 ∧ done.2 = front ++ r :: back) ∨
      ∃ r', done.2 = front ++ r' :: back ∧ HandedAligned r r' done.1 size align)

/-- Where the block accepted first has a place, the region hands one out. -/
theorem allocateFrom_aligned (env : Env) (unusedBack : ∀ q ∈ back, q.flags ≠ regionPublic)
    (wf : WellFormed r (behind r) 0) (low : r.base + r.size ≤ 4294967296) (positive : 0 < size)
    (aligned : 0 < align) (has : FirstFitHasPlace r size align) :
    Outcome.Sound (AlignedResult [] r back size align)
      (allocateFrom env size align (r :: back)) := by
  have isPublic : ¬ r.flags ≠ regionPublic := not_not.mpr wf.isPublic
  rw [allocateFrom, if_neg isPublic]
  rcases wf.findFit_found size align with ⟨none, passed⟩ | ⟨m1, b, m2, place, passed, fits, found⟩
  · rw [none, Outcome.ok_bind]
    simp only
    rw [allocateFrom_unused env size align unusedBack]
    refine ⟨fun hasPlace => ?_, Or.inl ⟨rfl, rfl⟩⟩
    obtain ⟨b, p, m1, m2, place, rfl, _, fits⟩ := has.2 hasPlace
    exact absurd (passed m1 b m2 place) fits
  · have fit : FirstFit r size align b (addressOf r m1) := ⟨m1, m2, place, rfl, passed, fits⟩
    obtain ⟨_, _, _, _, high, address, free⟩ := fit.split wf positive low
    have room := has.1 b _ fit
    have unwrapped := (unwrapped_iff positive high).mpr room
    have table := wf.tablePositive
    have wf' := wf
    rw [place] at wf'
    rw [found, Outcome.ok_bind, address]
    refine (allocateIn_aligned env wf' free aligned positive room.1 unwrapped).bind ?_
    rintro ⟨p, r'⟩ ⟨tail, j, dvd, above, below, wfAfter, base, regionSize, extents⟩
    have list := wfAfter.behind_eq
    refine ⟨fun _ => ?_, Or.inr ⟨r', rfl, dvd, ⟨m1, b, m2, place, free, above, below⟩, ?_, base,
      regionSize, j, ?_⟩⟩
    · simp only [sizeofPmmBlock] at table
      simp only [addressOf] at above ⊢
      omega
    · rw [list]
      exact wfAfter
    · rw [list, place]
      exact extents

theorem mmAllocatePhysical_none (sole : ∀ q ∈ front ++ back, q.flags ≠ regionPublic)
    (isPublic : r.flags = regionPublic) (positive : 0 < size)
    (none : findFit r.heap size align r.size (some 0) r.base = .ok none) :
    mmAllocatePhysical quiet (front ++ r :: back) size align = .ok (0, front ++ r :: back) := by
  have found : allocateFrom quiet size align (r :: back) = .ok (0, r :: back) := by
    rw [allocateFrom, if_neg (not_not.mpr isPublic), none, Outcome.ok_bind]
    simp only
    rw [allocateFrom_unused quiet size align fun q hq => sole q (List.mem_append_right _ hq)]
    rfl
  rw [mmAllocatePhysical, Outcome.check_of (by omega), Outcome.ok_bind,
    allocateFrom_skip quiet size align fun q hq => sole q (List.mem_append_left _ hq), found]
  rfl

/-- Where the block accepted first has a place, the call finds one. -/
theorem mmAllocatePhysical_aligned (env : Env)
    (sole : ∀ q ∈ front ++ back, q.flags ≠ regionPublic) (wf : WellFormed r (behind r) 0)
    (low : r.base + r.size ≤ 4294967296) (positive : 0 < size) (aligned : 0 < align)
    (has : FirstFitHasPlace r size align) :
    Outcome.Sound (AlignedResult front r back size align)
      (mmAllocatePhysical env (front ++ r :: back) size align) := by
  have unusedFront : ∀ q ∈ front, q.flags ≠ regionPublic :=
    fun q hq => sole q (List.mem_append_left _ hq)
  have unusedBack : ∀ q ∈ back, q.flags ≠ regionPublic :=
    fun q hq => sole q (List.mem_append_right _ hq)
  have ordered : ∀ r', WellFormed r' (behind r') 0 → ∀ q ∈ front ++ r' :: back,
      q.flags = regionPublic → ∃ tail, Listed q tail 0 := by
    intro r' wf' q hq flags
    rcases List.mem_append.mp hq with before | after
    · exact absurd flags (unusedFront q before)
    · rcases List.mem_cons.mp after with rfl | after
      · exact ⟨_, wf'.toListed⟩
      · exact absurd flags (unusedBack q after)
  have found : Outcome.Sound (AlignedResult front r back size align)
      (allocateFrom env size align (r :: back) >>= fun done => .ok (done.1, front ++ done.2)) := by
    refine (allocateFrom_aligned env unusedBack wf low positive aligned has).bind ?_
    rintro ⟨p, regions⟩ ⟨nonNull, ⟨rfl, rfl⟩ | ⟨r', rfl, handed⟩⟩
    · exact ⟨nonNull, Or.inl ⟨rfl, rfl⟩⟩
    · exact ⟨nonNull, Or.inr ⟨r', rfl, handed⟩⟩
  rw [mmAllocatePhysical]
  refine (Outcome.sound_check _).bind fun _ _ => ?_
  rw [allocateFrom_skip env size align unusedFront]
  refine found.bind ?_
  rintro ⟨p, regions⟩ ⟨nonNull, ⟨rfl, rfl⟩ | ⟨r', rfl, handed⟩⟩
  · exact (debugCheck_ends env (ordered r wf)).bind fun _ _ => ⟨nonNull, Or.inl ⟨rfl, rfl⟩⟩
  · exact (debugCheck_ends env (ordered r' handed.wellFormed)).bind fun _ _ =>
      ⟨nonNull, Or.inr ⟨r', rfl, handed⟩⟩

/-- An aligned allocation is right, in every build, exactly when the first
block that the loop accepts has a place, and one is accepted if any has. -/
theorem mmAllocatePhysical_aligned_iff
    (sole : ∀ q ∈ front ++ back, q.flags ≠ regionPublic) (wf : WellFormed r (behind r) 0)
    (low : r.base + r.size ≤ 4294967296) (positive : 0 < size) (aligned : 0 < align) :
    (∀ env, AllocatesAligned env front r back size align) ↔ FirstFitHasPlace r size align := by
  have exactly : ∀ b p, FirstFit r size align b p → (Unwrapped size align p (r.heap b) ↔
      p + (r.heap b).size < 4294967296 ∧ Place size align p (r.heap b).size) := by
    intro b p fit
    obtain ⟨_, _, _, _, high, _⟩ := fit.split wf positive low
    exact unwrapped_iff positive high
  constructor
  · intro right
    refine ⟨fun b p fit => (exactly b p fit).mp ((right quiet).1 b p fit), fun hasPlace => ?_⟩
    by_contra noFit
    rcases wf.findFit_found size align with ⟨none, _⟩ | ⟨m1, b, m2, place, passed, fits, _⟩
    · have returned := (right quiet).2
      rw [mmAllocatePhysical_none sole wf.isPublic positive none] at returned
      exact returned.1 hasPlace rfl
    · exact noFit ⟨b, _, m1, m2, place, rfl, passed, fits⟩
  · intro has env
    refine ⟨fun b p fit => (exactly b p fit).mpr (has.1 b p fit), ?_⟩
    refine (mmAllocatePhysical_aligned env sole wf low positive aligned has).mono ?_
    rintro ⟨p, regions⟩ ⟨nonNull, ⟨rfl, rfl⟩ | ⟨r', rfl, handed⟩⟩
    · exact ⟨nonNull, fun nonzero => absurd rfl nonzero⟩
    · exact ⟨nonNull, fun _ => ⟨r', rfl, handed⟩⟩

end

theorem fullTable_aligned : (∀ env, AllocatesAligned env [] fullTable [] 100 16) ↔
    FirstFitHasPlace fullTable 100 16 :=
  mmAllocatePhysical_aligned_iff (fun _ hq => nomatch hq) fullTable_wellFormed (by decide)
    (by decide) (by decide)

/-- No multiple of 4096 is in the free block, and the descriptor table is handed out. -/
theorem table_handed_out : WellFormed fullTable (behind fullTable) 0 ∧
    (∃ regions, mmAllocatePhysical quiet [fullTable] 100 4096 = .ok (fullTable.base, regions)) ∧
    ¬ AllocatesAligned quiet [] fullTable [] 100 4096 := by
  refine ⟨fullTable_wellFormed, ⟨_, rfl⟩, fun right => ?_⟩
  have list : behind fullTable = [] ++ 1 :: [] := by decide
  have fit : FirstFit fullTable 100 4096 1 (addressOf fullTable []) :=
    ⟨[], [], list, rfl, passed_nil _ _ _ _, by decide⟩
  have unwrapped := (right.1 1 _ fit).2.1
  exact absurd unwrapped (by decide)

end Pmm
