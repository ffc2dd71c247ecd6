import UDos.Kernel.PmmRuns

/-!
# Two blocks of one size

Two allocations of one size, one after the other. The second block ends where the first
one begins exactly when the first free block that is large enough has room for both. The
release of the first one then releases the second, and the next allocation of that size
is answered with it again.
-/

namespace Pmm

open KernelMemory Extents Linked

/-- The addresses of two blocks of one size, and what the allocations leave. -/
def allocateTwice (env : Env) (regions : List PmmRegion) (size : Nat) :
    Outcome (Nat × Nat × List PmmRegion) := do
  let first ← mmAllocatePhysical env regions size 0
  let second ← mmAllocatePhysical env first.2 size 0
  .ok (first.1, second)

/-- The first free block with room for one object has room for two, what the descriptor
table takes from it apart. -/
def FitsTwice (r : PmmRegion) (size : Nat) : Prop :=
  match (behind r).find? (fits r size) with
  | some b => 2 * size + (if b = 1 then growth r else 0) ≤ (r.heap b).size
  | none => False

instance (r : PmmRegion) (size : Nat) : Decidable (FitsTwice r size) :=
  match found : (behind r).find? (fits r size) with
  | some b => decidable_of_iff (2 * size + (if b = 1 then growth r else 0) ≤ (r.heap b).size)
      (by rw [FitsTwice, found])
  | none => isFalse (by rw [FitsTwice, found]; exact id)

section
variable {r q : PmmRegion} {others : List PmmRegion} {tail tail' m1 m2 l1 l2 : List Nat}
  {b c j size : Nat}

theorem FirstFree.pieces (first : FirstFree r tail size m1 b m2) :
    pieces r tail = pieces r m1 ++ ((r.heap b).size, none) :: pieces r m2 := by
  rw [first.place, pieces_append, pieces_cons, piece_free first.free]

theorem FirstFree.second_iff (first : FirstFree r tail size m1 b m2)
    (wf : WellFormed r tail 0) : b = 1 ↔ (Pmm.pieces r m1).isEmpty = true := by
  obtain rfl := first.place
  have once := wf.split_at.2.1
  rcases wf.second_split with ⟨rfl, rfl⟩ | ⟨rest, rfl⟩
  · exact iff_of_true rfl rfl
  · refine iff_of_false (fun same => once ?_) (fun empty => nomatch empty)
    rw [same]
    exact List.mem_cons_self

theorem FirstFree.fitsTwice_iff (first : FirstFree r tail size m1 b m2)
    (wf : WellFormed r tail 0) : FitsTwice r size ↔
      2 * size + (if (Pmm.pieces r m1).isEmpty then growth r else 0) ≤ (r.heap b).size := by
  have second := first.second_iff wf
  unfold FitsTwice
  rw [wf.behind_eq, first.found]
  simp only [second]

/-- With room for two the rest in front of the first object is large enough. -/
theorem Placed.room (placed : Placed r m1 b m2 size j q tail') (positive : 0 < size)
    (first : FirstFree r tail size m1 b m2) (wf : WellFormed r tail 0)
    (twice : FitsTwice r size) :
    ∃ n, Pmm.pieces q tail' =
        shrinkFirst (splitGrowth r ((r.heap b).size - size)) (Pmm.pieces r m1) ++
          (n, none) :: (size, some j) :: Pmm.pieces r m2 ∧ size ≤ n := by
  have room := (first.fitsTwice_iff wf).mp twice
  have some : (r.heap b).size - size ≠ 0 := by omega
  have growth : splitGrowth r ((r.heap b).size - size) = growth r := if_neg some
  have pieces := placed.pieces
  rw [remains_some some, shrinkFirst_concat, List.append_assoc] at pieces
  refine ⟨_, pieces, ?_⟩
  rw [growth]
  by_cases empty : (Pmm.pieces r m1).isEmpty
  · rw [if_pos empty] at room ⊢
    omega
  · rw [if_neg empty] at room ⊢
    omega

/-- Without it no free block in front of the first object is. -/
theorem Placed.no_room (positive : 0 < size) (first : FirstFree r tail size m1 b m2)
    (wf : WellFormed r tail 0) (once : ¬ FitsTwice r size) :
    Below size (shrinkFirst (splitGrowth r ((r.heap b).size - size))
      (Pmm.pieces r m1 ++ remains ((r.heap b).size - size))) := by
  have large := first.large
  rw [first.fitsTwice_iff wf, Nat.not_le] at once
  by_cases whole : (r.heap b).size - size = 0
  · rw [whole, remains, if_pos rfl, List.append_nil]
    exact first.below.shrinkFirst _
  · have growth : splitGrowth r ((r.heap b).size - size) = growth r := if_neg whole
    rw [remains_some whole, shrinkFirst_concat, growth]
    refine below_append.mpr ⟨first.below.shrinkFirst _, fun p hp _ => ?_⟩
    obtain rfl := List.mem_singleton.mp hp
    simp only
    by_cases empty : (Pmm.pieces r m1).isEmpty
    · rw [if_pos empty] at once ⊢
      omega
    · rw [if_neg empty] at once ⊢
      omega

/-- The second object ends where the first one begins exactly when there is room for
both in one block. -/
theorem adjacent_iff (positive : 0 < size) (wf : WellFormed r tail 0)
    (first : FirstFree r tail size m1 b m2) (placed : Placed r m1 b m2 size j q tail')
    (base : q.base = r.base) (second : FirstFree q tail' size l1 c l2) :
    addressOf q l1 + ((q.heap c).size - size) + size =
        addressOf r m1 + ((r.heap b).size - size) ↔ FitsTwice r size := by
  have large := second.large
  have found := second.pieces
  have width := width_shrinkFirst placed.yields
  have table := placed.table
  rw [width_append, width_remains] at width
  unfold addressOf
  rw [base, table]
  by_cases twice : FitsTwice r size
  · obtain ⟨n, pieces, room⟩ := placed.room positive first wf twice
    obtain ⟨front, rest, -⟩ := (first.below.shrinkFirst _).first_unique second.below room large
      (pieces.symm.trans found)
    have sum := congrArg Extents.width (placed.pieces.symm.trans pieces)
    simp only [width_append, width_cons] at sum
    refine iff_of_true ?_ twice
    rw [← front, ← rest]
    omega
  · obtain ⟨more, front⟩ := (Placed.no_room positive first wf twice).passed large
      (placed.pieces.symm.trans found)
    refine iff_of_false (fun same => ?_) twice
    rw [front, width_append, width_cons] at same
    simp only at same
    omega

end

section
variable {r q : PmmRegion} {others : List PmmRegion} {tail list : List Nat} {a ptr n start : Nat}

/-- Of the blocks in use that contain the address or end at it there is a first one. -/
theorem touches_first (touched : Touches r start list ptr) : ∃ m1 b m2, list = m1 ++ b :: m2 ∧
    (r.heap b).flags ≠ blockFree ∧ ¬ Touches r start m1 ptr ∧
    start + width (pieces r m1) ≤ ptr ∧ ptr ≤ start + width (pieces r m1) + (r.heap b).size := by
  induction list generalizing start with
  | nil =>
    obtain ⟨x, member, _⟩ := touched
    exact nomatch member
  | cons a list ih =>
    have none : ¬ Touches r start [] ptr := fun ⟨x, member, _⟩ => nomatch member
    have later : Touches r (start + (r.heap a).size) list ptr →
        ¬ ((r.heap a).flags ≠ blockFree ∧ start ≤ ptr ∧ ptr ≤ start + (r.heap a).size) →
        ∃ m1 b m2, a :: list = m1 ++ b :: m2 ∧ (r.heap b).flags ≠ blockFree ∧
          ¬ Touches r start m1 ptr ∧ start + width (pieces r m1) ≤ ptr ∧
          ptr ≤ start + width (pieces r m1) + (r.heap b).size := by
      intro touched notHere
      obtain ⟨m1, b, m2, rfl, notFree, untouched, above, below⟩ := ih touched
      refine ⟨a :: m1, b, m2, rfl, notFree, ?_, ?_, ?_⟩
      · by_cases free : (r.heap a).flags = blockFree
        · rwa [touches_cons_free free]
        · rw [touches_cons_used free, not_or]
          exact ⟨fun here => notHere ⟨free, here⟩, untouched⟩
      · rwa [pieces_cons, width_cons, piece, ← Nat.add_assoc]
      · rwa [pieces_cons, width_cons, piece, ← Nat.add_assoc]
    by_cases here : (r.heap a).flags ≠ blockFree ∧ start ≤ ptr ∧ ptr ≤ start + (r.heap a).size
    · refine ⟨[], a, list, rfl, here.1, none, ?_⟩
      rw [pieces, List.map_nil, width_nil, Nat.add_zero]
      exact here.2
    · refine later ?_ here
      by_cases free : (r.heap a).flags = blockFree
      · exact (touches_cons_free free).mp touched
      · exact ((touches_cons_used free).mp touched).resolve_left fun range => here ⟨free, range⟩

theorem touches_of_allocated (member : (ptr, n) ∈ allocated r tail) :
    Touches r (r.base + (r.heap 0).size) tail ptr := by
  obtain ⟨⟨i, s, k⟩, held, same⟩ := List.mem_map.mp member
  cases same
  exact ⟨(i, ptr, n), held, Nat.le_refl _, Nat.le_add_right _ _⟩

/-- The release of a block releases some block in use that contains its address or ends
at it, if the descriptor table does not. -/
theorem Alone.free_touched (alone : Alone r others tail) (env : Env)
    (member : (ptr, n) ∈ allocated r tail) (notBehindTable : r.base + (r.heap 0).size ≠ ptr) :
    ∃ q tail' x, mmFreePhysical env (r :: others) ptr = .ok (q :: others) ∧
      Alone q others tail' ∧ q.base = r.base ∧ q.size = r.size ∧
      (allocated r tail).Perm (x :: allocated q tail') ∧ x.1 ≤ ptr ∧ ptr ≤ x.1 + x.2 := by
  have wf := alone.wellFormed
  obtain ⟨⟨i, s, k⟩, held, same⟩ := List.mem_map.mp member
  cases same
  have behindTable := (held_bounds held).1
  obtain ⟨m1, b, m2, rfl, notFree, untouched, above, below⟩ :=
    touches_first (touches_of_allocated member)
  have used := (wf.present b (by simp)).resolve_left notFree
  have apart : ¬ Touches r r.base (0 :: m1) ptr := by
    rintro ⟨x, touched, low, high⟩
    rw [held_table wf.headUsed] at touched
    rcases List.mem_cons.mp touched with rfl | inList
    · simp only at high
      omega
    · exact untouched ⟨x, inList, low, high⟩
  have freed : mmFreePhysical env ([] ++ r :: others) ptr =
      .ok ([] ++ freeIn r b (0 :: m1).getLast? :: others) :=
    mmFreePhysical_first env wf.toListed used ⟨alone.low, List.forall_mem_nil _, apart⟩ above below
      (List.forall_mem_nil _) (List.forall_mem_nil _)
  obtain ⟨list, joined, merged⟩ := freeIn_joined wf.toListed
  have base : (freeIn r b (0 :: m1).getLast?).base = r.base := joined.base
  have size : (freeIn r b (0 :: m1).getLast?).size = r.size := joined.size
  refine ⟨_, list, (addressOf r m1, (r.heap b).size), freed, ⟨freeIn_wellFormed wf joined, ?_,
    alone.unused⟩, base, size, ?_, above, below⟩
  · rw [base, size]
    exact alone.low
  · exact (freeIn_occupied wf.toListed used joined merged).map Prod.snd

/-- The release of a block in use returns, whatever it releases. -/
theorem Alone.free_returns (alone : Alone r others tail) (env : Env)
    (member : (ptr, n) ∈ allocated r tail) :
    ∃ after, mmFreePhysical env (r :: others) ptr = .ok after := by
  have wf := alone.wellFormed
  have table := wf.tablePositive
  have total := wf.total
  have low := alone.low
  have touched : Touches r r.base (0 :: tail) ptr := by
    obtain ⟨x, inList, range⟩ := touches_of_allocated member
    refine ⟨x, ?_, range⟩
    rw [held_table wf.headUsed]
    exact List.mem_cons_of_mem _ inList
  have opens := wf.touched_open low touched
  have nonzero : env.debug = true → ptr ≠ 0 := by
    intro _
    obtain ⟨⟨i, s, k⟩, held, same⟩ := List.mem_map.mp member
    cases same
    have behindTable := (held_bounds held).1
    simp only [sizeofPmmBlock] at table
    omega
  have linked : Segment (fun i => (r.heap i).next) (some 0) ((0 :: tail) ++ []) none := by
    rw [List.append_nil]
    exact wf.linked
  have inside : r.base + width (pieces r (0 :: tail)) < 4294967296 := by
    rw [pieces_cons, width_cons, piece]
    simp only
    omega
  have freed : ∃ after, freeFrom ptr (r :: others) = .ok (false, after) := by
    rw [freeFrom_open opens]
    rcases findBlock_touched linked touched wf.length_le inside with stop | ⟨b, _, prev, found⟩
    · rw [stop]
      exact ⟨_, rfl⟩
    · rw [found]
      exact ⟨_, rfl⟩
  obtain ⟨after, freed⟩ := freed
  rw [mmFreePhysical, Outcome.check_of nonzero, Outcome.ok_bind, freed]
  exact ⟨after, rfl⟩

variable {front back : List (Piece Nat)} {size k i j : Nat}

/-- An allocation is answered with the end of the first piece that is large enough. -/
theorem Alone.allocate_at (alone : Alone r others tail) (env : Env)
    (lie : pieces r tail = front ++ (n, none) :: back) (below : Below size front)
    (room : size ≤ n) :
    Outcome.Sound (fun done => done.1 = r.base + (r.heap 0).size + width front + (n - size))
      (mmAllocatePhysical env (r :: others) size 0) := by
  refine (alone.allocate_placed env size).mono ?_
  rintro done ⟨_, ⟨rfl, absent⟩ | ⟨m1, b, m2, _, _, _, first, rfl, _⟩⟩
  · obtain ⟨m1, rest, rfl, -, behindThem⟩ := List.map_eq_append_iff.mp lie
    obtain ⟨b, m2, rfl, block, -⟩ := List.map_eq_cons_iff.mp behindThem
    have free : (r.heap b).flags = blockFree := by
      by_contra notFree
      rw [piece_used notFree] at block
      exact nomatch congrArg Prod.snd block
    have whole : (r.heap b).size = n := congrArg Prod.fst block
    have large : size ≤ (r.heap b).size := whole ▸ room
    exact absurd (fits_iff.mpr ⟨free, large⟩) (List.find?_eq_none.mp absent b (by simp))
  · obtain ⟨rfl, rfl, -⟩ := below.first_unique first.below room first.large
      (lie.symm.trans first.pieces)
    rfl

/-- A block in use that ends at the address is released in the place of the one there,
and the next allocation of its size is answered with it. -/
theorem Alone.free_reuses (alone : Alone r others tail) (env : Env) (positive : 0 < size)
    (lie : pieces r tail = front ++ (size, some i) :: (k, some j) :: back)
    (below : Below size front.dropLast) :
    ∃ q tail', mmFreePhysical env (r :: others)
        (r.base + (r.heap 0).size + width front + size) = .ok (q :: others) ∧
      Alone q others tail' ∧ q.base = r.base ∧ q.size = r.size ∧
      Outcome.Sound (fun done => done.1 = r.base + (r.heap 0).size + width front)
        (mmAllocatePhysical env (q :: others) size 0) := by
  have wf := alone.wellFormed
  obtain ⟨m1, rest, rfl, rfl, behindThem⟩ := List.map_eq_append_iff.mp lie
  obtain ⟨b, m2, rfl, block, last⟩ := List.map_eq_cons_iff.mp behindThem
  have notFree : (r.heap b).flags ≠ blockFree := by
    intro free
    rw [piece_free free] at block
    exact nomatch congrArg Prod.snd block
  have used := (wf.present b (by simp)).resolve_left notFree
  have whole : (r.heap b).size = size := congrArg Prod.fst block
  have apart : ¬ Touches r r.base (0 :: m1) (addressOf r m1 + size) := by
    rintro ⟨x, touched, _, high⟩
    have ends := (held_bounds (show (x.1, x.2.1, x.2.2) ∈ _ from touched)).2
    rw [pieces_cons, width_cons, piece] at ends
    simp only [addressOf] at high ends
    omega
  have freed : mmFreePhysical env ([] ++ r :: others) (addressOf r m1 + size) =
      .ok ([] ++ freeIn r b (0 :: m1).getLast? :: others) :=
    mmFreePhysical_first env wf.toListed used ⟨alone.low, List.forall_mem_nil _, apart⟩
      (Nat.le_add_right _ _) (Nat.le_of_eq (by rw [whole])) (List.forall_mem_nil _)
      (List.forall_mem_nil _)
  obtain ⟨list, joined, merged⟩ := freeIn_joined wf.toListed
  generalize freeIn r b (0 :: m1).getLast? = q at freed joined merged
  have base : q.base = r.base := joined.base
  have regionSize : q.size = r.size := joined.size
  have table : (q.heap 0).size = (r.heap 0).size := by
    rw [joined.table, setBlock_other r _ wf.split_at.1.symm]
  have alone' : Alone q others list := by
    refine ⟨freeIn_wellFormed wf joined, ?_, alone.unused⟩
    rw [base, regionSize]
    exact alone.low
  obtain ⟨front, n, released, before, room, sum⟩ := release_fits below back
  have lies : pieces q list = front ++ (n, none) :: (k, some j) :: back := by
    have behindIt : pieces r m2 = (k, some j) :: back := last
    rw [merged, whole, behindIt]
    exact released
  refine ⟨q, list, freed, alone', base, regionSize, ?_⟩
  refine (alone'.allocate_at env lies before room).mono fun done at_end => at_end.trans ?_
  rw [base, table]
  omega

/-- What two allocations of one size leave when both find room. -/
structure Paired (r : PmmRegion) (others : List PmmRegion) (tail : List Nat)
    (size first second : Nat) (q : PmmRegion) (tail' : List Nat) : Prop where
  alone : Alone q others tail'
  base : q.base = r.base
  regionSize : q.size = r.size
  extents : (allocated q tail').Perm ((second, size) :: (first, size) :: allocated r tail)
  adjacent : second + size = first ↔ FitsTwice r size
  again : FitsTwice r size → ∀ env, ∃ q' tail'',
    mmFreePhysical env (q :: others) first = .ok (q' :: others) ∧ Alone q' others tail'' ∧
      q'.base = r.base ∧ q'.size = r.size ∧
      Outcome.Sound (fun done => done.1 = second) (mmAllocatePhysical env (q' :: others) size 0)

section
variable {tail' : List Nat} {p c : Nat}

theorem Paired.members (paired : Paired r others tail size p c q tail') :
    (c, size) ∈ allocated q tail' ∧ (p, size) ∈ allocated q tail' := by
  rw [paired.extents.mem_iff, paired.extents.mem_iff]
  exact ⟨List.mem_cons_self, List.mem_cons_of_mem _ List.mem_cons_self⟩

theorem Paired.apart (paired : Paired r others tail size p c q tail') :
    (c + size ≤ p ∨ p + size ≤ c) ∧ ∀ x ∈ allocated r tail,
      (c + size ≤ x.1 ∨ x.1 + x.2 ≤ c) ∧ (p + size ≤ x.1 ∨ x.1 + x.2 ≤ p) := by
  obtain ⟨second, rest⟩ := List.pairwise_cons.mp (allocated_apart paired.extents)
  have first := (List.pairwise_cons.mp rest).1
  refine ⟨second _ List.mem_cons_self, fun x hx => ⟨?_, first x hx⟩⟩
  exact second x (List.mem_cons_of_mem _ hx)

end

/-- Two objects in one block lie next to each other, the second in front. -/
theorem Placed.reused {s : PmmRegion} {tail' tail'' m1 m2 l1 l2 : List Nat} {b c : Nat}
    (positive : 0 < size) (alone : Alone r others tail)
    (first : FirstFree r tail size m1 b m2) (placed : Placed r m1 b m2 size j q tail')
    (base : q.base = r.base) (second : FirstFree q tail' size l1 c l2)
    (placed' : Placed q l1 c l2 size i s tail'') (alone' : Alone s others tail'')
    (base' : s.base = q.base) (env : Env) (twice : FitsTwice r size) :
    ∃ q' list, mmFreePhysical env (s :: others) (addressOf r m1 + ((r.heap b).size - size)) =
        .ok (q' :: others) ∧ Alone q' others list ∧ q'.base = s.base ∧ q'.size = s.size ∧
      Outcome.Sound (fun done => done.1 = addressOf q l1 + ((q.heap c).size - size))
        (mmAllocatePhysical env (q' :: others) size 0) := by
  have wf := alone.wellFormed
  obtain ⟨n, pieces, room⟩ := placed.room positive first wf twice
  obtain ⟨-, -, behindIt⟩ := (first.below.shrinkFirst _).first_unique second.below room
    second.large (pieces.symm.trans second.pieces)
  have lie := placed'.pieces
  rw [← behindIt] at lie
  have below : Below size (shrinkFirst (splitGrowth q ((q.heap c).size - size))
      (Pmm.pieces q l1 ++ remains ((q.heap c).size - size))).dropLast := by
    by_cases whole : (q.heap c).size - size = 0
    · rw [whole, remains, if_pos rfl, List.append_nil]
      exact (second.below.shrinkFirst _).dropLast
    · rw [remains_some whole, shrinkFirst_concat, List.dropLast_concat]
      exact second.below.shrinkFirst _
  have place := width_shrinkFirst placed'.yields
  rw [width_append, width_remains] at place
  have atSecond : s.base + (s.heap 0).size + width (shrinkFirst
      (splitGrowth q ((q.heap c).size - size))
      (Pmm.pieces q l1 ++ remains ((q.heap c).size - size))) =
      addressOf q l1 + ((q.heap c).size - size) := by
    rw [placed'.table, base', addressOf]
    omega
  have ends := (adjacent_iff positive wf first placed base second).mpr twice
  have reuses := alone'.free_reuses env positive lie below
  rwa [atSecond, ends] at reuses

theorem Alone.two (alone : Alone r others tail) (env : Env) (positive : 0 < size) :
    Outcome.Sound (fun done => done.1 ≠ 0 → done.2.1 ≠ 0 → ∃ q tail',
        done.2.2 = q :: others ∧ Paired r others tail size done.1 done.2.1 q tail')
      (allocateTwice env (r :: others) size) := by
  refine (alone.allocate_placed env size).bind ?_
  rintro ⟨p, regions⟩ ⟨_, ⟨same, _⟩ | ⟨m1, b, m2, j, q, tail', first, same, alone1, taken, placed⟩⟩
  · cases same
    refine (alone.allocate_placed env size).bind fun done _ => ?_
    exact fun null => absurd rfl null
  cases same
  refine (alone1.allocate_placed env size).bind ?_
  rintro ⟨c, regions⟩
    ⟨_, ⟨same, _⟩ | ⟨l1, d, l2, i, s, tail'', second, same, alone2, taken', placed'⟩⟩
  · cases same
    exact fun _ null => absurd rfl null
  cases same
  intro _ _
  have base : s.base = r.base := taken'.base.trans taken.base
  have regionSize : s.size = r.size := taken'.regionSize.trans taken.regionSize
  refine ⟨s, tail'', rfl, alone2, base, regionSize, ?_, ?_, fun twice env => ?_⟩
  · exact (taken'.extents.map Prod.snd).trans ((taken.extents.map Prod.snd).cons _)
  · exact adjacent_iff positive alone.wellFormed first placed taken.base second
  · obtain ⟨q', list, freed, alone3, base', size', answered⟩ := placed.reused positive alone first
      taken.base second placed' alone2 taken'.base env twice
    exact ⟨q', list, freed, alone3, base'.trans base, size'.trans regionSize, answered⟩

end

end Pmm
