import UDos.Kernel.PmmRelease
import UDos.Library.Runs

/-!
# Runs of the physical memory manager

Allocations and releases in one region. While no release meets a used block
that ends where the released one starts, the extents of the live allocations
are those of the used blocks behind the descriptor table. The search of
`MmFreePhysical` accepts a pointer to the end of a block, so a release that
meets one frees that block instead.
-/

namespace Pmm

open KernelMemory Extents Linked

/-- The address and size of each block behind the descriptor table that is not free. -/
def allocated (r : PmmRegion) (tail : List Nat) : List (Nat × Nat) :=
  (occupied r tail).map Prod.snd

section
variable {r : PmmRegion} {others : List PmmRegion} {tail : List Nat}

theorem allocated_pairwise (r : PmmRegion) (tail : List Nat) :
    (allocated r tail).Pairwise fun x y => x.1 + x.2 ≤ y.1 :=
  List.pairwise_map.mpr (held_pairwise (r.base + (r.heap 0).size) (pieces r tail))

theorem allocated_apart {live : List (Nat × Nat)} (extents : (allocated r tail).Perm live) :
    live.Pairwise fun x y => x.1 + x.2 ≤ y.1 ∨ y.1 + y.2 ≤ x.1 := by
  have ordered := (allocated_pairwise r tail).imp
    (S := fun x y : Nat × Nat => x.1 + x.2 ≤ y.1 ∨ y.1 + y.2 ≤ x.1) Or.inl
  exact extents.pairwise ordered fun or => or.symm

theorem allocated_inside {lost : Nat} (wf : WellFormed r tail lost) {x : Nat × Nat}
    (member : x ∈ allocated r tail) :
    r.base + (r.heap 0).size ≤ x.1 ∧ x.1 + x.2 ≤ r.base + r.size := by
  obtain ⟨⟨i, y⟩, held, rfl⟩ := List.mem_map.mp member
  have bounds := held_bounds held
  have total := wf.total
  simp only at bounds ⊢
  omega

/-- A single region: the others are not public. -/
structure Alone (r : PmmRegion) (others : List PmmRegion) (tail : List Nat) : Prop where
  wellFormed : WellFormed r tail 0
  low : r.base + r.size < 4294967296
  unused : ∀ q ∈ others, q.flags ≠ regionPublic

/-- A call that may have added one extent to those of the first region. -/
def Allocated (r : PmmRegion) (tail : List Nat) (others : List PmmRegion) (size : Nat)
    (done : Nat × List PmmRegion) : Prop :=
  ∃ r' tail', done.2 = r' :: others ∧ WellFormed r' tail' 0 ∧ r'.base = r.base ∧
    r'.size = r.size ∧ (allocated r' tail').Perm
      (if done.1 = 0 then allocated r tail else (done.1, size) :: allocated r tail)

/-- An allocation that finds no block, or puts the object at the end of the first one
that is free and large enough. -/
theorem Alone.allocate_placed (alone : Alone r others tail) (env : Env) (size : Nat) :
    Outcome.Sound (fun done => size ≠ 0 ∧
        ((done = (0, r :: others) ∧ tail.find? (fits r size) = none) ∨
          ∃ m1 b m2 j q tail', FirstFree r tail size m1 b m2 ∧
            done = (addressOf r m1 + ((r.heap b).size - size), q :: others) ∧
            Alone q others tail' ∧
            Taken r tail size (addressOf r m1 + ((r.heap b).size - size)) j q tail' ∧
            Placed r m1 b m2 size j q tail'))
      (mmAllocatePhysical env (r :: others) size 0) := by
  have wf := alone.wellFormed
  have low := alone.low
  have list := wf.behind_eq
  have checked : ∀ {q : PmmRegion} {tail' : List Nat}, WellFormed q tail' 0 →
      Outcome.Sound (fun _ => True) (debugCheck env (q :: others)) := by
    intro q tail' wf'
    refine debugCheck_ends env fun q' hq' isPublic => ?_
    rcases List.mem_cons.mp hq' with rfl | other
    · exact ⟨tail', wf'.toListed⟩
    · exact absurd isPublic (alone.unused q' other)
  rw [mmAllocatePhysical]
  refine (Outcome.sound_check _).bind fun _ positive => ?_
  rw [allocateFrom, if_neg (not_not.mpr wf.isPublic)]
  rcases findFit_eq (list.symm ▸ wf) size with ⟨none, absent⟩ | ⟨m1, b, m2, first, found⟩
  · rw [none, Outcome.ok_bind]
    simp only
    rw [allocateFrom_unused env size 0 alone.unused, Outcome.ok_bind]
    rw [list] at absent
    exact (checked wf).bind fun _ _ => ⟨positive, Or.inl ⟨rfl, absent⟩⟩
  · rw [list] at first
    obtain rfl := first.place
    rw [found, Outcome.ok_bind]
    simp only
    have bound := wf.block_bound
    have address : u32 (addressOf r m1 + ((r.heap b).size - size)) =
        addressOf r m1 + ((r.heap b).size - size) :=
      u32_eq_self (by unfold addressOf; omega)
    have placed : Outcome.Sound (fun done => ∃ j q tail',
          done = (addressOf r m1 + ((r.heap b).size - size), q :: others) ∧
          Alone q others tail' ∧
          Taken r (m1 ++ b :: m2) size (addressOf r m1 + ((r.heap b).size - size)) j q tail' ∧
          Placed r m1 b m2 size j q tail')
        (allocateIn env r size 0 b (u32 (addressOf r m1)) >>= fun done =>
          .ok (done.1, done.2 :: others)) := by
      refine (allocateIn_unaligned env wf first.free first.large).bind ?_
      rintro ⟨p, q⟩ ⟨rfl, j, tail', taken, placed⟩
      rw [address]
      refine ⟨j, q, tail', rfl, ⟨taken.wellFormed, ?_, alone.unused⟩, taken, placed⟩
      rw [taken.base, taken.regionSize]
      exact low
    refine placed.bind ?_
    rintro done ⟨j, q, tail', rfl, next, rest⟩
    exact (checked next.wellFormed).bind fun _ _ =>
      ⟨positive, Or.inr ⟨m1, b, m2, j, q, tail', first, rfl, next, rest⟩⟩

/-- An allocation returns NULL and leaves the extents as they are, or adds one. -/
theorem Alone.allocate (alone : Alone r others tail) (env : Env) (size : Nat) :
    Outcome.Sound (Allocated r tail others size) (mmAllocatePhysical env (r :: others) size 0) := by
  have wf := alone.wellFormed
  refine (alone.allocate_placed env size).mono ?_
  rintro done ⟨_, ⟨rfl, _⟩ | ⟨m1, b, m2, j, q, tail', _, rfl, next, taken, _⟩⟩
  · exact ⟨r, tail, rfl, wf, rfl, rfl, List.Perm.refl _⟩
  · have table := wf.tablePositive
    have nonzero : addressOf r m1 + ((r.heap b).size - size) ≠ 0 := by
      unfold addressOf
      simp only [sizeofPmmBlock] at table
      omega
    refine ⟨q, tail', rfl, next.wellFormed, taken.base, taken.regionSize, ?_⟩
    rw [if_neg nonzero]
    exact taken.extents.map Prod.snd

theorem allocated_mem_split {ptr n : Nat} (wf : WellFormed r tail 0)
    (member : (ptr, n) ∈ allocated r tail) :
    ∃ m1 b m2, tail = m1 ++ b :: m2 ∧ (r.heap b).flags = blockUsed ∧ (r.heap b).size = n ∧
      ptr = addressOf r m1 := by
  obtain ⟨⟨i, s, k⟩, held, same⟩ := List.mem_map.mp member
  cases same
  obtain ⟨before, after, split, address⟩ := held_mem_split held
  obtain ⟨m1, rest, rfl, rfl, behindThem⟩ := List.map_eq_append_iff.mp split
  obtain ⟨b, m2, rfl, block, rfl⟩ := List.map_eq_cons_iff.mp behindThem
  refine ⟨m1, b, m2, rfl, ?_, congrArg Prod.fst block, address⟩
  refine (wf.present b (by simp)).resolve_left fun free => ?_
  rw [piece_free free] at block
  exact nomatch congrArg Prod.snd block

/-- A release takes one extent away, unless a used block ends where it starts. -/
theorem Alone.free (alone : Alone r others tail) (env : Env) {ptr n : Nat}
    (member : (ptr, n) ∈ allocated r tail)
    (apart : ∀ x ∈ allocated r tail, x.1 + x.2 ≠ ptr)
    (notBehindTable : r.base + (r.heap 0).size ≠ ptr) :
    ∃ r' tail', mmFreePhysical env (r :: others) ptr = .ok (r' :: others) ∧
      WellFormed r' tail' 0 ∧ r'.base = r.base ∧ r'.size = r.size ∧
      (allocated r tail).Perm ((ptr, n) :: allocated r' tail') := by
  have wf := alone.wellFormed
  obtain ⟨m1, b, m2, rfl, used, rfl, rfl⟩ := allocated_mem_split wf member
  have untouched : ¬ Touches r r.base (0 :: m1) (addressOf r m1) := by
    rintro ⟨⟨i, s, k⟩, touched, below, above⟩
    rw [held_table wf.headUsed] at touched
    rcases List.mem_cons.mp touched with same | inList
    · cases same
      simp only [addressOf] at above notBehindTable
      omega
    · have ends := (held_bounds inList).2
      refine apart (s, k) (List.mem_map.mpr ⟨(i, s, k), ?_, rfl⟩) ?_
      · rw [occupied, pieces_append, held_append]
        exact List.mem_append_left _ inList
      · simp only [addressOf] at above ends ⊢
        omega
  have unmistaken : Unmistaken [] r m1 (addressOf r m1) :=
    ⟨alone.low, List.forall_mem_nil _, untouched⟩
  have freed : mmFreePhysical env ([] ++ r :: others) (addressOf r m1) =
      .ok ([] ++ freeIn r b (0 :: m1).getLast? :: others) :=
    mmFreePhysical_first env wf.toListed used unmistaken (Nat.le_refl _) (Nat.le_add_right _ _)
      (List.forall_mem_nil _) (List.forall_mem_nil _)
  obtain ⟨list, joined, merged⟩ := freeIn_joined wf.toListed
  refine ⟨_, list, freed, freeIn_wellFormed wf joined, joined.base, joined.size, ?_⟩
  exact (freeIn_occupied wf.toListed used joined merged).map Prod.snd

end

/-- The table of regions, and the address and size of each live allocation. -/
structure State where
  regions : List PmmRegion
  live : List (Nat × Nat)

inductive Call where
  | allocate (env : Env) (size : UInt32)
  | free (env : Env) (ptr : Nat)

def step (s : State) : Call → Outcome State
  | .allocate env size => do
    let (ptr, regions) ← mmAllocatePhysical env s.regions size.toNat 0
    .ok ⟨regions, if ptr = 0 then s.live else (ptr, size.toNat) :: s.live⟩
  | .free env ptr => do
    let regions ← mmFreePhysical env s.regions ptr
    .ok ⟨regions, s.live.eraseP fun x => x.1 = ptr⟩

/-- What callers have to keep to: no empty allocation, and only what is live is freed. -/
def Allowed (s : State) : Call → Prop
  | .allocate _ size => size ≠ 0
  | .free _ ptr => ∃ x ∈ s.live, x.1 = ptr

/-- Neither a live allocation nor a descriptor table ends where the release starts. -/
def Apart (s : State) : Call → Prop
  | .allocate _ _ => True
  | .free _ ptr => (∀ x ∈ s.live, x.1 + x.2 ≠ ptr) ∧
      ∀ r ∈ s.regions, r.flags = regionPublic → r.base + (r.heap 0).size ≠ ptr

def Clear (s : State) (call : Call) : Prop := Allowed s call ∧ Apart s call

/-- The live allocations are disjoint, in the region and behind the descriptor
table, which is in use. -/
structure Separated (base size : Nat) (s : State) : Prop where
  disjoint : s.live.Pairwise fun x y => x.1 + x.2 ≤ y.1 ∨ y.1 + y.2 ≤ x.1
  region : ∃ r others, s.regions = r :: others ∧ r.base = base ∧ r.size = size ∧
    (r.heap 0).flags = blockUsed ∧
    ∀ x ∈ s.live, base + (r.heap 0).size ≤ x.1 ∧ x.1 + x.2 ≤ base + size

/-- The live allocations are the used blocks of a well-formed region. -/
def Tracked (base size : Nat) (s : State) : Prop :=
  ∃ r others tail, s.regions = r :: others ∧ Alone r others tail ∧ r.base = base ∧
    r.size = size ∧ (allocated r tail).Perm s.live

theorem Tracked.separated {base size : Nat} {s : State} (tracked : Tracked base size s) :
    Separated base size s := by
  obtain ⟨r, others, tail, regions, ⟨wf, _, _⟩, rfl, rfl, extents⟩ := tracked
  exact ⟨allocated_apart extents, r, others, regions, rfl, rfl, wf.headUsed,
    fun x hx => allocated_inside wf (extents.mem_iff.mpr hx)⟩

theorem step_tracked {base size : Nat} (s : State) (call : Call)
    (tracked : Tracked base size s) (clear : Clear s call) :
    Outcome.Sound (Tracked base size) (step s call) := by
  obtain ⟨r, others, tail, regions, alone, rfl, rfl, extents⟩ := tracked
  obtain ⟨allowed, apart⟩ := clear
  cases call with
  | allocate env size =>
    rw [step, regions]
    refine (alone.allocate env size.toNat).bind ?_
    rintro ⟨ptr, after⟩ ⟨r', tail', same, wf', base, regionSize, added⟩
    refine ⟨r', others, tail', same, ⟨wf', ?_, alone.unused⟩, base, regionSize, added.trans ?_⟩
    · rw [base, regionSize]
      exact alone.low
    · by_cases null : ptr = 0
      · simpa only [if_pos null] using extents
      · simpa only [if_neg null] using extents.cons _
  | free env ptr =>
    obtain ⟨⟨start, n⟩, live, rfl⟩ := allowed
    obtain ⟨noneEnds, notBehindTable⟩ := apart
    have member : (start, n) ∈ allocated r tail := extents.mem_iff.mpr live
    have noUsedEnds : ∀ x ∈ allocated r tail, x.1 + x.2 ≠ start :=
      fun x hx => noneEnds x (extents.mem_iff.mp hx)
    have notTable := notBehindTable r (by simp [regions]) alone.wellFormed.isPublic
    obtain ⟨r', tail', freed, wf', base, regionSize, removed⟩ :=
      alone.free env member noUsedEnds notTable
    rw [step, regions, freed]
    refine ⟨r', others, tail', rfl, ⟨wf', ?_, alone.unused⟩, base, regionSize, ?_⟩
    · rw [base, regionSize]
      exact alone.low
    -- two extents with the same start would be empty, and an empty one ends where it starts
    have once : (allocated r tail).Pairwise fun x y =>
        decide (x.1 = start) → decide (y.1 = start) → False := by
      refine (allocated_pairwise r tail).imp_of_mem fun {x y} hx _ order hfirst hsecond => ?_
      have first : x.1 = start := of_decide_eq_true hfirst
      have second : y.1 = start := of_decide_eq_true hsecond
      have ends := noUsedEnds x hx
      omega
    have erased := List.Perm.eraseP _ once extents
    have erasedCons := List.Perm.eraseP _ once removed
    rw [List.eraseP_cons_of_pos (by simp)] at erasedCons
    exact erasedCons.symm.trans erased

/-- The table of regions at system start. -/
def noRegions : List PmmRegion :=
  List.replicate maxPmmRegions ⟨0, 0, regionNotPresent, fun _ => zeroBlock⟩

theorem mmCreateRegion_tracked {env : Env} {base size : Nat} {storage : Nat → PmmBlock}
    {regions : List PmmRegion} (large : 2048 ≤ size) (low : base + size < 4294967296)
    (created : mmCreateRegion env base size storage noRegions = .ok regions) :
    Tracked base size ⟨regions, []⟩ := by
  obtain ⟨r, made, same⟩ := Outcome.bind_eq_ok.mp created
  cases same
  obtain ⟨wf, free, rfl, rfl⟩ := createIn_fresh large (by omega) (by omega) made
  refine ⟨_, _, [1], rfl, ⟨wf, low, fun q hq => ?_⟩, rfl, rfl, ?_⟩
  · rw [List.eq_of_mem_replicate hq]
    decide
  · rw [allocated, occupied, pieces_cons, piece_free free]
    exact List.Perm.refl _

/-- In every run all of whose releases are apart from the used blocks before
them, the live allocations stay separated. -/
theorem run_separated_of_clear {env : Env} {base size : Nat} {storage : Nat → PmmBlock}
    {regions : List PmmRegion} (large : 2048 ≤ size) (low : base + size < 4294967296)
    (created : mmCreateRegion env base size storage noRegions = .ok regions)
    (calls : List Call) (clear : Runs.Meets step Clear ⟨regions, []⟩ calls) :
    Outcome.Sound (Separated base size) (Runs.run step ⟨regions, []⟩ calls) := by
  have start := mmCreateRegion_tracked large low created
  exact (Runs.run_sound step_tracked start clear).mono fun _ => Tracked.separated

def quiet : Env := ⟨false, 0, 0⟩

/-- One region of 2048 bytes at 4096. -/
def smallTable : State :=
  match mmCreateRegion quiet 4096 2048 (fun _ => zeroBlock) noRegions with
  | .ok regions => ⟨regions, []⟩
  | _ => ⟨[], []⟩

theorem smallTable_created : mmCreateRegion quiet 4096 2048 (fun _ => zeroBlock) noRegions =
    .ok smallTable.regions := rfl

instance (s : State) (call : Call) : Decidable (Allowed s call) :=
  match call with
  | .allocate _ size => inferInstanceAs (Decidable (size ≠ 0))
  | .free _ ptr => inferInstanceAs (Decidable (∃ x ∈ s.live, x.1 = ptr))

instance (s : State) (call : Call) : Decidable (Apart s call) :=
  match call with
  | .allocate _ _ => isTrue trivial
  | .free _ ptr => inferInstanceAs (Decidable ((∀ x ∈ s.live, x.1 + x.2 ≠ ptr) ∧
      ∀ r ∈ s.regions, r.flags = regionPublic → r.base + (r.heap 0).size ≠ ptr))

instance (s : State) (call : Call) : Decidable (Clear s call) :=
  inferInstanceAs (Decidable (_ ∧ _))

/-- The lower of two blocks is freed and allocated again. -/
theorem small_run_separated : Outcome.Sound (Separated 4096 2048)
    (Runs.run step ⟨smallTable.regions, []⟩
      [.allocate quiet 16, .allocate quiet 16, .free quiet 6112, .allocate quiet 8]) :=
  run_separated_of_clear (by decide) (by decide) smallTable_created _ (by decide)

/-- Freeing the upper of two blocks frees the lower one, which is then handed
out a second time. -/
theorem neighbour_handed_out_twice :
    ∃ s, Runs.run step smallTable
        [.allocate quiet 16, .allocate quiet 16, .free quiet 6128, .allocate quiet 16] = .ok s ∧
      Runs.Meets step Allowed smallTable
        [.allocate quiet 16, .allocate quiet 16, .free quiet 6128, .allocate quiet 16] ∧
      s.live = [(6112, 16), (6112, 16)] ∧ ¬ Separated 4096 2048 s := by
  refine ⟨_, rfl, by decide, by decide, fun separated => ?_⟩
  exact absurd separated.disjoint (by decide)

end Pmm
