import UDos.Kernel.PmmRuns

/-!
# Coalescence

Allocations without alignment and releases in one region, the releases with any
pointer at all. As long as the descriptor table itself is not released, no two
blocks next to each other are both free, and a descriptor that leaves the list
can be used again.
-/

namespace Pmm

open KernelMemory Extents Linked

section
variable {r : PmmRegion} {list : List Nat} {fuel ptr currentPtr : Nat} {o prev : Option Nat}

/-- A search ends without a block, or with one of the list that is not free,
and with the block before it. -/
theorem findBlock_ends (linked : Segment (fun i => (r.heap i).next) o list none)
    (enough : list.length ≤ fuel) :
    findBlock r.heap ptr fuel o currentPtr prev = .ok .nextRegion ∨
      findBlock r.heap ptr fuel o currentPtr prev = .ok .stop ∨
      ∃ before b after, list = before ++ b :: after ∧ (r.heap b).flags ≠ blockFree ∧
        findBlock r.heap ptr fuel o currentPtr prev =
          .ok (.block b (before.getLast?.or prev)) := by
  induction list generalizing fuel o currentPtr prev with
  | nil =>
    cases linked
    rw [findBlock]
    exact Or.inl rfl
  | cons a list ih =>
    obtain ⟨rfl, rest⟩ := linked
    rw [List.length_cons] at enough
    obtain ⟨fuel, rfl⟩ : ∃ k, fuel = k + 1 := ⟨fuel - 1, by omega⟩
    have short : list.length ≤ fuel := by omega
    have go : findBlock r.heap ptr fuel (r.heap a).next (u32 (currentPtr + (r.heap a).size))
          (some a) = .ok .nextRegion ∨
        findBlock r.heap ptr fuel (r.heap a).next (u32 (currentPtr + (r.heap a).size))
          (some a) = .ok .stop ∨
        ∃ before b after, a :: list = before ++ b :: after ∧ (r.heap b).flags ≠ blockFree ∧
          findBlock r.heap ptr fuel (r.heap a).next (u32 (currentPtr + (r.heap a).size))
            (some a) = .ok (.block b (before.getLast?.or prev)) := by
      refine (ih rest short).imp_right (Or.imp_right ?_)
      rintro ⟨before, b, after, rfl, notFree, found⟩
      refine ⟨a :: before, b, after, rfl, notFree, ?_⟩
      rw [found, getLast?_or_some]
    rw [findBlock]
    by_cases free : (r.heap a).flags = blockFree
    · rw [if_pos free]
      exact go
    · rw [if_neg free]
      by_cases here : currentPtr ≤ ptr ∧ ptr ≤ u32 (currentPtr + (r.heap a).size)
      · rw [if_pos here]
        exact Or.inr (Or.inr ⟨[], a, list, rfl, free, rfl⟩)
      · rw [if_neg here]
        by_cases below : ptr < currentPtr
        · rw [if_pos below]
          exact Or.inr (Or.inl rfl)
        · rw [if_neg below]
          exact go

/-- The address is that of the descriptor table, or right behind it. -/
def InTable (r : PmmRegion) (ptr : Nat) : Prop :=
  r.base ≤ ptr ∧ ptr ≤ u32 (r.base + (r.heap 0).size)

theorem Listed.findBlock_ends (listed : Listed r list 0) (spared : ¬ InTable r ptr) :
    findBlock r.heap ptr r.size (some 0) r.base none = .ok .nextRegion ∨
      findBlock r.heap ptr r.size (some 0) r.base none = .ok .stop ∨
      ∃ m1 b m2, list = m1 ++ b :: m2 ∧ (r.heap b).flags ≠ blockFree ∧
        findBlock r.heap ptr r.size (some 0) r.base none =
          .ok (.block b (0 :: m1).getLast?) := by
  obtain ⟨_, rest⟩ := listed.linked
  have short := listed.length_le
  obtain ⟨fuel, more⟩ : ∃ k, r.size = k + 1 := ⟨r.size - 1, by omega⟩
  have enough : list.length ≤ fuel := by omega
  have notFree := notFree_of_used listed.headUsed
  have passed : ¬ (r.base ≤ ptr ∧ ptr ≤ u32 (r.base + (r.heap 0).size)) := spared
  rw [more, findBlock, if_neg notFree, if_neg passed]
  by_cases below : ptr < r.base
  · rw [if_pos below]
    exact Or.inr (Or.inl rfl)
  · rw [if_neg below]
    refine (Pmm.findBlock_ends rest enough).imp_right (Or.imp_right ?_)
    rintro ⟨m1, b, m2, split, used, found⟩
    refine ⟨m1, b, m2, split, used, ?_⟩
    rw [found, getLast?_or_some, Option.or_none]

end

/-- The table of regions, and every descriptor that was on the list of the
public region so far. -/
structure Record where
  regions : List PmmRegion
  been : List Nat

def publicRegion (regions : List PmmRegion) : Option PmmRegion :=
  regions.find? fun r => r.flags = regionPublic

def Record.note (been : List Nat) (regions : List PmmRegion) : Record :=
  ⟨regions, match publicRegion regions with
    | some r => been ++ 0 :: behind r
    | none => been⟩

def recordStep (s : Record) : Call → Outcome Record
  | .allocate env size => do
    let (_, regions) ← mmAllocatePhysical env s.regions size.toNat 0
    .ok (Record.note s.been regions)
  | .free env ptr => do
    let regions ← mmFreePhysical env s.regions ptr
    .ok (Record.note s.been regions)

/-- No release is one of the descriptor table. -/
def SparesTable (s : Record) : Call → Prop
  | .allocate _ _ => True
  | .free _ ptr => ∀ r ∈ s.regions, Open r ptr → ¬ InTable r ptr

/-- The list has no cycle and makes up the region, a descriptor that is no
longer on it can be used again, and no two consecutive blocks are both free. -/
structure Coalesced (s : Record) (r : PmmRegion) : Prop where
  linked : Segment (fun i => (r.heap i).next) (some 0) (0 :: behind r) none
  distinct : (0 :: behind r).Nodup
  total : width (pieces r (0 :: behind r)) = r.size
  reusable : ∀ i ∈ s.been, i < (r.heap 0).size / sizeofPmmBlock ∧
    (i ∈ 0 :: behind r ∨ (r.heap i).flags = blockNotPresent)
  apart : (0 :: behind r).IsChain fun i j =>
    ¬ ((r.heap i).flags = blockFree ∧ (r.heap j).flags = blockFree)

/-- One region of the table is public, and it is well formed and settled. -/
structure Kept (s : Record) (front : List PmmRegion) (r : PmmRegion) (back : List PmmRegion) :
    Prop where
  regions : s.regions = front ++ r :: back
  sole : ∀ q ∈ front ++ back, q.flags ≠ regionPublic
  wellFormed : WellFormed r (behind r) 0
  settled : Settled (pieces r (behind r))
  reusable : ∀ i ∈ s.been, i < (r.heap 0).size / sizeofPmmBlock ∧
    (i ∈ 0 :: behind r ∨ (r.heap i).flags = blockNotPresent)

section
variable {s : Record} {front back front' back' : List PmmRegion} {r r' : PmmRegion}
  {been : List Nat}

theorem publicRegion_eq (sole : ∀ q ∈ front ++ back, q.flags ≠ regionPublic)
    (isPublic : r.flags = regionPublic) : publicRegion (front ++ r :: back) = some r := by
  have none : front.find? (fun q => q.flags = regionPublic) = none :=
    List.find?_eq_none.mpr fun q hq => by simpa using sole q (List.mem_append_left _ hq)
  rw [publicRegion, List.find?_append, none, List.find?_cons_of_pos (by simpa using isPublic)]
  rfl

/-- The public region is at one place only. -/
theorem sole_split (sole : ∀ q ∈ front ++ back, q.flags ≠ regionPublic)
    (same : front ++ r :: back = front' ++ r' :: back') (isPublic : r'.flags = regionPublic) :
    front = front' ∧ r = r' ∧ back = back' := by
  induction front generalizing front' with
  | nil =>
    cases front' with
    | nil =>
      obtain ⟨rfl, rfl⟩ := List.cons.inj same
      exact ⟨rfl, rfl, rfl⟩
    | cons c front' =>
      obtain ⟨_, rest⟩ := List.cons.inj same
      exact absurd isPublic (sole r' (by simp [rest]))
  | cons c front ih =>
    cases front' with
    | nil =>
      obtain ⟨rfl, _⟩ := List.cons.inj same
      exact absurd isPublic (sole c (by simp))
    | cons c' front' =>
      obtain ⟨rfl, rest⟩ := List.cons.inj same
      obtain ⟨rfl, rfl, rfl⟩ := ih (fun q hq => sole q (List.mem_cons_of_mem c hq)) rest
      exact ⟨rfl, rfl, rfl⟩

/-- What the state after a call keeps, when the descriptors noted before it
are on the new list or can be used again. -/
theorem Kept.next (kept : Kept s front r back) (wf : WellFormed r' (behind r') 0)
    (settled : Settled (pieces r' (behind r')))
    (grows : (r.heap 0).size ≤ (r'.heap 0).size)
    (stays : ∀ i, i ∈ behind r → i ∈ behind r' ∨ (r'.heap i).flags = blockNotPresent)
    (others : ∀ i, i ≠ 0 → i ∉ behind r → (r.heap i).flags = blockNotPresent →
      i ∈ behind r' ∨ (r'.heap i).flags = blockNotPresent) :
    Kept (Record.note s.been (front ++ r' :: back)) front r' back := by
  refine ⟨rfl, kept.sole, wf, settled, ?_⟩
  rw [Record.note, publicRegion_eq kept.sole wf.isPublic]
  simp only
  intro i hi
  rcases List.mem_append.mp hi with old | new
  · obtain ⟨below, state⟩ := kept.reusable i old
    refine ⟨Nat.lt_of_lt_of_le below (Nat.div_le_div_right grows), ?_⟩
    by_cases zero : i = 0
    · exact Or.inl (zero ▸ List.mem_cons_self)
    · have after : i ∈ behind r' ∨ (r'.heap i).flags = blockNotPresent := by
        by_cases onList : i ∈ behind r
        · exact stays i onList
        · refine others i zero onList (state.resolve_left fun member => ?_)
          exact (List.mem_cons.mp member).elim zero onList
      exact after.imp_left (List.mem_cons_of_mem 0)
  · exact ⟨wf.inTable i new, Or.inl new⟩

theorem Kept.same (kept : Kept s front r back) :
    Kept (Record.note s.been (front ++ r :: back)) front r back :=
  kept.next kept.wellFormed kept.settled (Nat.le_refl _) (fun _ hi => Or.inl hi)
    fun _ _ _ gone => Or.inr gone

theorem Kept.ordered (kept : Kept s front r back) :
    ∀ q ∈ front ++ r :: back, q.flags = regionPublic → WellFormed q (behind q) 0 := by
  intro q hq isPublic
  by_cases same : q = r
  · exact same ▸ kept.wellFormed
  · refine absurd isPublic (kept.sole q ?_)
    simp only [List.mem_append, List.mem_cons] at hq ⊢
    tauto

theorem Kept.allocated (kept : Kept s front r back) (env : Env) (size : Nat) :
    Outcome.Sound (fun done => ∃ r', Kept (Record.note s.been done.2) front r' back)
      (mmAllocatePhysical env s.regions size 0) := by
  rw [kept.regions]
  refine (mmAllocatePhysical_sound env size kept.ordered).mono ?_
  rintro done ⟨_, ⟨rfl, _⟩ | ⟨front', q, back', j, a, r', split, isPublic, rfl, _, taken⟩⟩
  · exact ⟨r, kept.same⟩
  · obtain ⟨rfl, rfl, rfl⟩ := sole_split kept.sole split isPublic
    obtain ⟨k, _, table, _⟩ := taken.grows
    refine ⟨r', kept.next taken.wellFormed (taken.settled kept.settled) (by omega)
      (fun i hi => Or.inl (taken.keeps hi)) fun i nonzero _ gone => ?_⟩
    by_cases onList : i ∈ behind r'
    · exact Or.inl onList
    · have apart : i ∉ 0 :: behind r' := by simp [nonzero, onList]
      refine Or.inr ?_
      rcases taken.others i apart with same | zero
      · rw [same, gone]
      · rw [zero]
        rfl

theorem Kept.freed (kept : Kept s front r back) {m1 m2 : List Nat} {b : Nat}
    (place : behind r = m1 ++ b :: m2) (notFree : (r.heap b).flags ≠ blockFree) :
    Kept (Record.note s.been (front ++ freeIn r b (0 :: m1).getLast? :: back)) front
      (freeIn r b (0 :: m1).getLast?) back := by
  have wf := kept.wellFormed
  have settled := kept.settled
  rw [place] at wf
  rw [place, pieces_append, pieces_cons, piece_used notFree] at settled
  obtain ⟨list, joined, merged⟩ := freeIn_joined wf.toListed
  have wf' := freeIn_wellFormed wf joined
  have list' := wf'.behind_eq
  have nonzero := (wf.split_at).1
  apply kept.next
  · rw [list']
    exact wf'
  · rw [list', merged]
    exact settled.release
  · rw [joined.table, setBlock_other r _ nonzero.symm]
  · rw [place, list']
    exact joined.gone
  · rw [place, list']
    intro i zero onList gone
    have other : i ≠ b := fun same => onList (by simp [same])
    rw [joined.others i zero onList, setBlock_other r _ other]
    exact Or.inr gone

theorem Kept.release (kept : Kept s front r back) (env : Env) {ptr : Nat}
    (spares : SparesTable s (.free env ptr)) :
    Outcome.Sound (fun done => ∃ r', Kept (Record.note s.been done) front r' back)
      (mmFreePhysical env s.regions ptr) := by
  have wf := kept.wellFormed
  have closed : ∀ others : List PmmRegion, (∀ q ∈ others, q.flags ≠ regionPublic) →
      ∀ q ∈ others, Open q ptr →
        findBlock q.heap ptr q.size (some 0) q.base none = .ok .nextRegion :=
    fun others unused q hq opens => absurd opens.1 (unused q hq)
  have backCloses : freeFrom ptr back = .ok (true, back) := by
    have skipped : freeFrom ptr (back ++ []) = .ok (true, back ++ []) :=
      freeFrom_skip (closed back fun q hq => kept.sole q (List.mem_append_right _ hq)) rfl
    simpa using skipped
  have done : ∃ atEnd r', freeFrom ptr (r :: back) = .ok (atEnd, r' :: back) ∧
      Kept (Record.note s.been (front ++ r' :: back)) front r' back := by
    by_cases opens : Open r ptr
    · have spared := spares r (by simp [kept.regions]) opens
      rw [freeFrom_open opens]
      rcases wf.findBlock_ends spared with next | stop | ⟨m1, b, m2, place, notFree, found⟩
      · rw [next, Outcome.ok_bind, backCloses]
        exact ⟨true, r, rfl, kept.same⟩
      · rw [stop]
        exact ⟨false, r, rfl, kept.same⟩
      · rw [found]
        exact ⟨false, _, rfl, kept.freed place notFree⟩
    · rw [freeFrom_closed opens, backCloses]
      exact ⟨true, r, rfl, kept.same⟩
  obtain ⟨atEnd, r', freed, kept'⟩ := done
  have skipped := freeFrom_skip
    (closed front fun q hq => kept.sole q (List.mem_append_left _ hq)) freed
  rw [mmFreePhysical, kept.regions]
  refine (Outcome.sound_check _).bind fun _ _ => ?_
  rw [skipped, Outcome.ok_bind]
  cases atEnd with
  | true =>
    refine (debugCheck_ends env fun q hq isPublic => ?_).bind fun _ _ => ⟨r', kept'⟩
    exact ⟨behind q, (kept'.ordered q hq isPublic).toListed⟩
  | false => exact ⟨r', kept'⟩

theorem Kept.coalesced (kept : Kept s front r back) : Coalesced s r := by
  have wf := kept.wellFormed
  have used : holder (r.heap 0).flags 0 = some 0 := by rw [wf.headUsed, holder_used]
  have settled : Settled (pieces r (0 :: behind r)) := by
    have rest := kept.settled
    rw [pieces_cons, piece, used]
    exact List.isChain_cons.mpr ⟨fun _ _ free => absurd free (Option.some_ne_none 0), rest⟩
  refine ⟨wf.linked, wf.distinct, ?_, kept.reusable, ?_⟩
  · have total := wf.total
    rw [pieces_cons, width_cons, piece]
    simpa using total
  · rw [Settled, pieces, List.map_map, List.isChain_map] at settled
    refine settled.imp fun i j apart free => ?_
    simp only [Function.comp, piece, holder, if_pos free.1, if_pos free.2] at apart
    exact apart trivial rfl

theorem recordStep_kept (call : Call) (kept : ∃ r, Kept s front r back)
    (spares : SparesTable s call) :
    Outcome.Sound (fun s' => ∃ r, Kept s' front r back) (recordStep s call) := by
  obtain ⟨r, kept⟩ := kept
  cases call with
  | allocate env size => exact (kept.allocated env size.toNat).bind fun _ after => after
  | free env ptr => exact (kept.release env spares).bind fun _ after => after

end

/-- A region is created in the place of one that is not present. -/
theorem mmCreateRegion_place {env : Env} {base size : Nat} {storage : Nat → PmmBlock}
    {before regions : List PmmRegion}
    (created : mmCreateRegion env base size storage before = .ok regions) :
    ∃ front old r back, before = front ++ old :: back ∧ regions = front ++ r :: back ∧
      createIn env base size storage = .ok r := by
  induction before generalizing regions with
  | nil => cases created
  | cons q before ih =>
    rw [mmCreateRegion] at created
    by_cases present : q.flags ≠ regionNotPresent
    · rw [if_pos present] at created
      obtain ⟨others, made, same⟩ := Outcome.bind_eq_ok.mp created
      cases same
      obtain ⟨front, old, r, back, rfl, rfl, fresh⟩ := ih made
      exact ⟨q :: front, old, r, back, rfl, rfl, fresh⟩
    · rw [if_neg present] at created
      obtain ⟨r, fresh, same⟩ := Outcome.bind_eq_ok.mp created
      cases same
      exact ⟨[], q, r, before, rfl, rfl, fresh⟩

/-- Where no region is public, the first one created is the only one. -/
theorem mmCreateRegion_kept {env : Env} {base size : Nat} {storage : Nat → PmmBlock}
    {before regions : List PmmRegion} (large : 2048 ≤ size) (based : base < 4294967296)
    (bounded : size < 4294967296) (none : ∀ q ∈ before, q.flags ≠ regionPublic)
    (created : mmCreateRegion env base size storage before = .ok regions) :
    ∃ front r back, Kept (Record.note [] regions) front r back := by
  obtain ⟨front, old, r, back, rfl, rfl, fresh⟩ := mmCreateRegion_place created
  obtain ⟨wf, _, _, _⟩ := createIn_fresh large based bounded fresh
  have sole : ∀ q ∈ front ++ back, q.flags ≠ regionPublic := by
    intro q hq
    apply none q
    simp only [List.mem_append, List.mem_cons] at hq ⊢
    tauto
  have list := wf.behind_eq
  refine ⟨front, r, back, rfl, sole, list ▸ wf, ?_, ?_⟩
  · rw [list]
    exact List.isChain_singleton _
  · intro i hi
    rw [Record.note, publicRegion_eq sole wf.isPublic] at hi
    simp only [List.nil_append, list] at hi
    rw [list]
    exact ⟨wf.inTable i hi, Or.inl hi⟩

/-- After every run that releases no descriptor table, the list of the region
is coalesced. -/
theorem run_coalesced {env : Env} {base size : Nat} {storage : Nat → PmmBlock}
    {before regions : List PmmRegion} (large : 2048 ≤ size) (based : base < 4294967296)
    (bounded : size < 4294967296) (none : ∀ q ∈ before, q.flags ≠ regionPublic)
    (created : mmCreateRegion env base size storage before = .ok regions) (calls : List Call)
    (spares : Runs.Meets recordStep SparesTable (Record.note [] regions) calls) :
    Outcome.Sound (fun s => ∃ r, publicRegion s.regions = some r ∧ Coalesced s r)
      (Runs.run recordStep (Record.note [] regions) calls) := by
  obtain ⟨front, r, back, start⟩ := mmCreateRegion_kept large based bounded none created
  have keeps : ∀ s call, (∃ r, Kept s front r back) → SparesTable s call →
      Outcome.Sound (fun s' => ∃ r, Kept s' front r back) (recordStep s call) :=
    fun _ call => recordStep_kept call
  refine (Runs.run_sound keeps ⟨r, start⟩ spares).mono ?_
  rintro s ⟨r, kept⟩
  refine ⟨r, ?_, kept.coalesced⟩
  rw [kept.regions]
  exact publicRegion_eq kept.sole kept.wellFormed.isPublic

instance (r : PmmRegion) (ptr : Nat) : Decidable (Open r ptr) :=
  inferInstanceAs (Decidable (_ ∧ _ ∧ _))

instance (r : PmmRegion) (ptr : Nat) : Decidable (InTable r ptr) :=
  inferInstanceAs (Decidable (_ ∧ _))

instance (s : Record) (call : Call) : Decidable (SparesTable s call) :=
  match call with
  | .allocate _ _ => isTrue trivial
  | .free _ ptr => inferInstanceAs (Decidable (∀ r ∈ s.regions, Open r ptr → ¬ InTable r ptr))

/-- The middle one of three blocks is freed, then the ones next to it, and a
pointer that was not allocated. -/
theorem small_run_coalesced :
    Outcome.Sound (fun s => ∃ r, publicRegion s.regions = some r ∧ Coalesced s r)
      (Runs.run recordStep (Record.note [] smallTable.regions)
        [.allocate quiet 16, .allocate quiet 16, .allocate quiet 16, .free quiet 6116,
          .free quiet 6136, .free quiet 6100, .free quiet 5000]) :=
  run_coalesced (by decide) (by decide) (by decide)
    (fun q hq => by
      rw [List.eq_of_mem_replicate hq]
      decide)
    smallTable_created _ (by decide)

end Pmm
