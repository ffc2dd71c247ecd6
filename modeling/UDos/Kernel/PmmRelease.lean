import UDos.Kernel.PmmAllocate

/-!
# Release in a well-formed region

A block that is released becomes free and joins a free neighbour on either
side. `MmFreePhysical` looks for its block by address and accepts one that ends
there, so it releases the right one exactly when its loops meet no other block
in use that contains the address or ends at it.
-/

namespace Pmm

open KernelMemory Extents Linked

section
variable {r q : PmmRegion} {tail m1 m2 : List Nat} {a b n : Nat}

theorem coalesce_other (r : PmmRegion) {i next j : Nat} (hi : j ≠ i) (hnext : j ≠ next) :
    (coalesce r i next).heap j = r.heap j := by
  rw [coalesce, setBlock_other _ _ hi, setBlock_other _ _ hnext]

theorem coalesce_at (r : PmmRegion) {i next : Nat} (apart : i ≠ next) :
    (coalesce r i next).heap i = { r.heap i with
      size := u32 ((r.heap i).size + (r.heap next).size), next := (r.heap next).next } := by
  rw [coalesce, setBlock_same, setBlock_other _ _ apart, setBlock_same]

theorem coalesce_gone (r : PmmRegion) {i next : Nat} (apart : next ≠ i) :
    ((coalesce r i next).heap next).flags = blockNotPresent := by
  rw [coalesce, setBlock_other _ _ apart, setBlock_same]

/-- What stays when free neighbours join: some blocks leave the list, and are
marked as not present. -/
structure Joined (r q : PmmRegion) (list joined : List Nat) : Prop where
  listed : Listed q joined 0
  base : q.base = r.base
  size : q.size = r.size
  table : (q.heap 0).size = (r.heap 0).size
  first : joined.head? = list.head?
  flags : ∀ i ∈ joined, (q.heap i).flags = (r.heap i).flags
  sub : joined ⊆ list
  gone : ∀ i ∈ list, i ∈ joined ∨ (q.heap i).flags = blockNotPresent
  others : ∀ i, i ≠ 0 → i ∉ list → q.heap i = r.heap i

theorem Joined.refl (listed : Listed r tail 0) : Joined r r tail tail :=
  ⟨listed, rfl, rfl, rfl, rfl, fun _ _ => rfl, fun _ hi => hi, fun _ hi => Or.inl hi,
    fun _ _ _ => rfl⟩

theorem Joined.trans {s : PmmRegion} {l1 l2 l3 : List Nat} (first : Joined r q l1 l2)
    (second : Joined q s l2 l3) : Joined r s l1 l3 := by
  constructor
  · exact second.listed
  · exact second.base.trans first.base
  · exact second.size.trans first.size
  · exact second.table.trans first.table
  · exact second.first.trans first.first
  · exact fun i hi => (second.flags i hi).trans (first.flags i (second.sub hi))
  · exact fun i hi => first.sub (second.sub hi)
  · intro i hi
    rcases first.gone i hi with kept | gone
    · exact second.gone i kept
    · by_cases kept : i ∈ l2
      · exact second.gone i kept
      · have nonzero : i ≠ 0 := by
          rintro rfl
          rw [first.listed.headUsed] at gone
          exact absurd gone (by decide)
        rw [second.others i nonzero kept]
        exact Or.inr gone
  · intro i nonzero notIn
    rw [second.others i nonzero fun member => notIn (first.sub member),
      first.others i nonzero notIn]

section
variable (listed : Listed r (m1 ++ a :: b :: m2) 0)

include listed

theorem neighbours_apart : a ≠ b ∧ ∀ i, i = 0 ∨ i ∈ m1 ∨ i ∈ m2 → i ≠ a ∧ i ≠ b := by
  have assoc : m1 ++ a :: b :: m2 = (m1 ++ [a]) ++ b :: m2 := by simp
  obtain ⟨nonzeroA, before, behindA⟩ := listed.split_at
  obtain ⟨nonzeroB, before', behindB⟩ := (assoc ▸ listed).split_at
  refine ⟨?_, ?_⟩
  · rintro rfl
    exact behindA List.mem_cons_self
  · rintro i (rfl | hi | hi)
    · exact ⟨nonzeroA.symm, nonzeroB.symm⟩
    · refine ⟨fun same => before (same ▸ hi), fun same => before' ?_⟩
      exact List.mem_append_left _ (same ▸ hi)
    · refine ⟨fun same => behindA ?_, fun same => behindB (same ▸ hi)⟩
      exact List.mem_cons_of_mem b (same ▸ hi)

theorem coalesce_kept {i : Nat} (hi : i = 0 ∨ i ∈ m1 ∨ i ∈ m2) :
    (coalesce r a b).heap i = r.heap i := by
  obtain ⟨notA, notB⟩ := (neighbours_apart listed).2 i hi
  exact coalesce_other r notA notB

theorem coalesce_sum :
    u32 ((r.heap a).size + (r.heap b).size) = (r.heap a).size + (r.heap b).size := by
  have bound := listed.block_bound
  have bounded := listed.bounded
  rw [pieces_cons, width_cons, piece] at bound
  simp only at bound
  exact u32_eq_self (by omega)

theorem coalesce_pieces (freeA : (r.heap a).flags = blockFree) :
    pieces (coalesce r a b) m1 = pieces r m1 ∧ pieces (coalesce r a b) m2 = pieces r m2 ∧
      piece (coalesce r a b) a = ((r.heap a).size + (r.heap b).size, none) := by
  refine ⟨pieces_congr fun i hi => ?_, pieces_congr fun i hi => ?_, ?_⟩
  · rw [piece, piece, coalesce_kept listed (Or.inr (Or.inl hi))]
  · rw [piece, piece, coalesce_kept listed (Or.inr (Or.inr hi))]
  · rw [piece, coalesce_at r (neighbours_apart listed).1, coalesce_sum listed]
    simp only [freeA, holder_free]

theorem coalesce_linked : Segment (fun i => ((coalesce r a b).heap i).next) (some 0)
    ((0 :: m1) ++ a :: m2) none := by
  have linked : Segment (fun i => (r.heap i).next) (some 0) ((0 :: m1) ++ a :: b :: m2) none :=
    listed.linked
  refine linked.remove (fun i hi => ?_) ?_
  · rw [coalesce_kept listed]
    simpa only [List.mem_cons, or_assoc] using hi
  · rw [coalesce_at r (neighbours_apart listed).1]

theorem coalesce_listed (freeA : (r.heap a).flags = blockFree) :
    Listed (coalesce r a b) (m1 ++ a :: m2) 0 := by
  have head : (coalesce r a b).heap 0 = r.heap 0 := coalesce_kept listed (Or.inl rfl)
  obtain ⟨before, after, joint⟩ := coalesce_pieces listed freeA
  have sub : (0 :: (m1 ++ a :: m2)).Sublist (0 :: (m1 ++ a :: b :: m2)) :=
    ((List.sublist_cons_self b m2).cons_cons a |>.append_left m1).cons_cons 0
  refine ⟨coalesce_linked listed, listed.distinct.sublist sub, ?_, ?_, ?_, listed.based,
    listed.bounded, listed.isPublic⟩
  · rw [head]
    exact fun i hi => listed.inTable i (sub.subset hi)
  · rw [head]
    exact listed.headUsed
  · have total := listed.total
    have size : (coalesce r a b).size = r.size := rfl
    rw [width_pieces_split, pieces_cons, width_cons, piece] at total
    rw [head, pieces_append, pieces_cons, before, after, joint, size, width_append, width_cons]
    simp only at total ⊢
    omega

theorem coalesce_joined (freeA : (r.heap a).flags = blockFree) :
    Joined r (coalesce r a b) (m1 ++ a :: b :: m2) (m1 ++ a :: m2) := by
  obtain ⟨apart, others⟩ := neighbours_apart listed
  constructor
  · exact coalesce_listed listed freeA
  · rfl
  · rfl
  · rw [coalesce_kept listed (Or.inl rfl)]
  · cases m1 with
    | nil => rfl
    | cons c m1 => rfl
  · intro i hi
    by_cases same : i = a
    · rw [same, coalesce_at r apart]
    · have old : i ∈ m1 ∨ i ∈ m2 := by
        simpa only [List.mem_append, List.mem_cons, same, false_or] using hi
      rw [coalesce_kept listed (Or.inr old)]
  · intro i hi
    simp only [List.mem_append, List.mem_cons] at hi ⊢
    tauto
  · intro i hi
    by_cases same : i = b
    · rw [same, coalesce_gone r apart.symm]
      exact Or.inr rfl
    · simp only [List.mem_append, List.mem_cons] at hi ⊢
      tauto
  · intro i _ notIn
    simp only [List.mem_cons, List.mem_append, not_or] at notIn
    exact coalesce_other r notIn.2.1 notIn.2.2.1

end

theorem Listed.next_eq (listed : Listed r (m1 ++ b :: m2) 0) : (r.heap b).next = m2.head? := by
  have linked : Segment (fun i => (r.heap i).next) (some 0) ((0 :: m1) ++ b :: m2) none :=
    listed.linked
  have rest := linked.next_eq
  cases m2 with
  | nil => exact rest
  | cons c m2 => exact rest.1

theorem coalesceAfter_joined (listed : Listed r (m1 ++ b :: m2) 0)
    (free : (r.heap b).flags = blockFree) :
    ∃ m2', Joined r (coalesceAfter r b) (m1 ++ b :: m2) (m1 ++ b :: m2') ∧
      pieces (coalesceAfter r b) m1 = pieces r m1 ∧
      pieces (coalesceAfter r b) (b :: m2') = joinFirst (r.heap b).size (pieces r m2) := by
  have next := listed.next_eq
  have own : piece r b = ((r.heap b).size, none) := by rw [piece, free, holder_free]
  cases m2 with
  | nil =>
    rw [coalesceAfter, next]
    refine ⟨[], Joined.refl listed, rfl, ?_⟩
    simp only [List.head?_nil, pieces_cons, own]
    rfl
  | cons c m2 =>
    rw [coalesceAfter, next]
    simp only [List.head?_cons]
    by_cases freeC : (r.heap c).flags = blockFree
    · obtain ⟨before, after, joint⟩ := coalesce_pieces listed free
      rw [if_pos freeC]
      refine ⟨m2, coalesce_joined listed free, before, ?_⟩
      rw [pieces_cons, joint, after, pieces_cons, piece, freeC, holder_free, joinFirst]
    · rw [if_neg freeC]
      refine ⟨c :: m2, Joined.refl listed, rfl, ?_⟩
      rw [pieces_cons, own, pieces_cons, piece, holder, if_neg freeC, joinFirst]
      rintro k _ ⟨⟩

/-- The block in front is the last of those before, or the descriptor table,
which is not free. -/
theorem coalesceBehind_joined (listed : Listed r (m1 ++ b :: m2) 0)
    (free : (r.heap b).flags = blockFree) :
    ∃ list, Joined r (coalesceBehind r b (0 :: m1).getLast?) (m1 ++ b :: m2) list ∧
      ∀ {n : Nat} {qs : List (Piece Nat)}, pieces r (b :: m2) = joinFirst n qs →
        pieces (coalesceBehind r b (0 :: m1).getLast?) list = release n qs (pieces r m1) := by
  rcases List.eq_nil_or_concat m1 with rfl | ⟨m1', a, rfl⟩
  · refine ⟨[] ++ b :: m2, ?_⟩
    simp only [List.getLast?_singleton, coalesceBehind, if_neg (notFree_of_used listed.headUsed)]
    exact ⟨Joined.refl listed, fun same => same⟩
  · rw [List.concat_eq_append] at listed ⊢
    have last : (0 :: (m1' ++ [a])).getLast? = some a := by
      rw [← List.cons_append, List.getLast?_append]
      rfl
    have assoc : (m1' ++ [a]) ++ b :: m2 = m1' ++ a :: b :: m2 := by simp
    have one : pieces r [a] = [((r.heap a).size, holder (r.heap a).flags a)] := rfl
    rw [last, coalesceBehind]
    by_cases freeA : (r.heap a).flags = blockFree
    · rw [assoc] at listed ⊢
      obtain ⟨before, after, joint⟩ := coalesce_pieces listed freeA
      rw [if_pos freeA]
      refine ⟨m1' ++ a :: m2, coalesce_joined listed freeA, fun {n qs} same => ?_⟩
      have own : piece r b = ((r.heap b).size, none) := by rw [piece, free, holder_free]
      rw [pieces_cons, own] at same
      rw [pieces_append, pieces_cons, before, after, joint, pieces_append, one, freeA, holder_free,
        release_behind_free, joinFirst_add, ← same]
      rfl
    · rw [if_neg freeA]
      refine ⟨_, Joined.refl listed, fun {n qs} same => ?_⟩
      rw [pieces_append _ (m1' ++ [a]), same, pieces_append, one, holder, if_neg freeA,
        release_behind_held, List.append_assoc, List.singleton_append]

/-- The block found becomes free, and joins its free neighbours. -/
theorem freeIn_joined (listed : Listed r (m1 ++ b :: m2) 0) :
    ∃ list, Joined (r.setBlock b { r.heap b with flags := blockFree })
        (freeIn r b (0 :: m1).getLast?) (m1 ++ b :: m2) list ∧
      pieces (freeIn r b (0 :: m1).getLast?) list =
        release (r.heap b).size (pieces r m2) (pieces r m1) := by
  obtain ⟨_, notIn1, notIn2⟩ := listed.split_at
  set released := r.setBlock b { r.heap b with flags := blockFree } with hreleased
  have listed' : Listed released (m1 ++ b :: m2) 0 := by
    rw [hreleased]
    apply listed.setBlock
    · rfl
    · rfl
  have own : released.heap b = { r.heap b with flags := blockFree } := setBlock_same _ _ _
  have free : (released.heap b).flags = blockFree := by rw [own]
  obtain ⟨m2', after, same1, same2⟩ := coalesceAfter_joined listed' free
  have free' := (after.flags b (by simp)).trans free
  obtain ⟨list, before, joint⟩ := coalesceBehind_joined after.listed free'
  refine ⟨list, after.trans before, ?_⟩
  have result := joint same2
  rw [same1, own, hreleased, pieces_setBlock _ notIn1, pieces_setBlock _ notIn2] at result
  exact result

/-- The region is as well formed after the release as before. -/
theorem freeIn_wellFormed (wf : WellFormed r (m1 ++ b :: m2) 0) {list : List Nat}
    (joined : Joined (r.setBlock b { r.heap b with flags := blockFree }) q (m1 ++ b :: m2) list) :
    WellFormed q list 0 := by
  have released : WellFormed (r.setBlock b { r.heap b with flags := blockFree })
      (m1 ++ b :: m2) 0 := by
    apply wf.setBlock
    · rfl
    · exact Or.inl rfl
    · rfl
  refine ⟨joined.listed, ?_, fun i hi => ?_⟩
  · obtain ⟨rest, second⟩ := wf.second
    have first := joined.first
    rw [second, List.head?_cons] at first
    cases list with
    | nil => exact nomatch first
    | cons c list => exact ⟨list, by rw [Option.some.inj first]⟩
  · rw [joined.flags i hi]
    exact released.present i (joined.sub hi)

theorem freeIn_occupied (listed : Listed r (m1 ++ b :: m2) 0)
    (used : (r.heap b).flags = blockUsed) {list : List Nat}
    (joined : Joined (r.setBlock b { r.heap b with flags := blockFree }) q (m1 ++ b :: m2) list)
    (merged : pieces q list = release (r.heap b).size (pieces r m2) (pieces r m1)) :
    (occupied r (m1 ++ b :: m2)).Perm
      ((b, addressOf r m1, (r.heap b).size) :: occupied q list) := by
  obtain ⟨nonzero, _, _⟩ := listed.split_at
  have table : (q.heap 0).size = (r.heap 0).size := by
    rw [joined.table, setBlock_other r _ nonzero.symm]
  have base : q.base = r.base := joined.base
  rw [occupied, occupied, merged, held_release, base, table, pieces_append, pieces_cons, piece, used,
    holder_used]
  exact held_take _ _ _ _ _

/-- Only the block released and its free neighbours get other flags. -/
theorem freeIn_flags (r : PmmRegion) {b i : Nat} (prev : Option Nat) (other : i ≠ b)
    (notFree : (r.heap i).flags ≠ blockFree) :
    ((freeIn r b prev).heap i).flags = (r.heap i).flags := by
  have joins : ∀ (q : PmmRegion) (a c : Nat), (q.heap i).flags = (r.heap i).flags → i ≠ c →
      ((coalesce q a c).heap i).flags = (r.heap i).flags := by
    intro q a c same apart
    by_cases at_a : i = a
    · rw [← at_a, coalesce_at q apart, same]
    · rw [coalesce_other q at_a apart, same]
  have released : ((r.setBlock b { r.heap b with flags := blockFree }).heap i).flags =
      (r.heap i).flags := by rw [setBlock_other r _ other]
  have after : ((coalesceAfter (r.setBlock b { r.heap b with flags := blockFree }) b).heap
      i).flags = (r.heap i).flags := by
    unfold coalesceAfter
    split
    · next c _ =>
      split
      · next freeC =>
        refine joins _ _ _ released ?_
        rintro rfl
        rw [released] at freeC
        exact notFree freeC
      · exact released
    · exact released
  unfold freeIn coalesceBehind
  simp only
  split
  · split
    · exact joins _ _ _ after other
    · exact after
  · exact after

end

/-- Some block in use of these, the first of which is at start, contains the
address or ends at it. -/
def Touches (r : PmmRegion) (start : Nat) (list : List Nat) (ptr : Nat) : Prop :=
  ∃ x ∈ held start (pieces r list), x.2.1 ≤ ptr ∧ ptr ≤ x.2.1 + x.2.2

section
variable {r : PmmRegion} {a ptr start currentPtr fuel : Nat} {list l1 l2 : List Nat}
  {o prev : Option Nat}

theorem touches_cons_free (free : (r.heap a).flags = blockFree) :
    Touches r start (a :: list) ptr ↔ Touches r (start + (r.heap a).size) list ptr := by
  rw [Touches, pieces_cons, piece_free free, held, Touches]

theorem touches_cons_used (notFree : (r.heap a).flags ≠ blockFree) :
    Touches r start (a :: list) ptr ↔ (start ≤ ptr ∧ ptr ≤ start + (r.heap a).size) ∨
      Touches r (start + (r.heap a).size) list ptr := by
  rw [Touches, pieces_cons, piece_used notFree, held, Touches]
  simp

theorem getLast?_or_some (a : Nat) (l : List Nat) (prev : Option Nat) :
    l.getLast?.or (some a) = (a :: l).getLast?.or prev := by
  cases l with
  | nil => rfl
  | cons c l => simp [List.getLast?_eq_some_getLast]

/-- The search passes over blocks that are not touched and end before the address. -/
theorem findBlock_pass (linked : Segment (fun i => (r.heap i).next) o (l1 ++ l2) none)
    (untouched : ¬ Touches r currentPtr l1 ptr) (ends : currentPtr + width (pieces r l1) ≤ ptr)
    (low : ptr < 4294967296) : ∃ o', Segment (fun i => (r.heap i).next) o' l2 none ∧
      findBlock r.heap ptr (fuel + l1.length) o currentPtr prev =
        findBlock r.heap ptr fuel o' (currentPtr + width (pieces r l1)) (l1.getLast?.or prev) := by
  induction l1 generalizing o currentPtr prev with
  | nil => exact ⟨o, linked, rfl⟩
  | cons a l1 ih =>
    obtain ⟨rfl, rest⟩ := linked
    rw [pieces_cons, width_cons, piece, ← Nat.add_assoc] at ends
    simp only at ends
    have inside : u32 (currentPtr + (r.heap a).size) = currentPtr + (r.heap a).size :=
      u32_eq_self (by omega)
    have last := getLast?_or_some a l1 prev
    have go : ¬ Touches r (currentPtr + (r.heap a).size) l1 ptr →
        ∃ o', Segment (fun i => (r.heap i).next) o' l2 none ∧
          findBlock r.heap ptr (fuel + l1.length) (r.heap a).next (currentPtr + (r.heap a).size)
            (some a) = findBlock r.heap ptr fuel o'
              (currentPtr + width (pieces r (a :: l1))) ((a :: l1).getLast?.or prev) := by
      intro untouched
      rw [← last, pieces_cons, width_cons, piece, ← Nat.add_assoc]
      exact ih rest untouched ends
    rw [List.length_cons, ← Nat.add_assoc, findBlock, inside]
    by_cases free : (r.heap a).flags = blockFree
    · rw [if_pos free]
      exact go (mt (touches_cons_free free).mpr untouched)
    · rw [touches_cons_used free, not_or] at untouched
      rw [if_neg free, if_neg untouched.1, if_neg (by omega)]
      exact go untouched.2

/-- The search ends at the first block that is touched, if not before. -/
theorem findBlock_touched (linked : Segment (fun i => (r.heap i).next) o (l1 ++ l2) none)
    (touched : Touches r currentPtr l1 ptr) (enough : l1.length ≤ fuel)
    (low : currentPtr + width (pieces r l1) < 4294967296) :
    findBlock r.heap ptr fuel o currentPtr prev = .ok .stop ∨
      ∃ a ∈ l1, ∃ prev', findBlock r.heap ptr fuel o currentPtr prev = .ok (.block a prev') := by
  induction l1 generalizing fuel o currentPtr prev with
  | nil =>
    obtain ⟨x, member, _⟩ := touched
    exact nomatch member
  | cons a l1 ih =>
    obtain ⟨rfl, rest⟩ := linked
    rw [List.length_cons] at enough
    obtain ⟨fuel, rfl⟩ : ∃ k, fuel = k + 1 := ⟨fuel - 1, by omega⟩
    rw [pieces_cons, width_cons, piece, ← Nat.add_assoc] at low
    simp only at low
    have inside : u32 (currentPtr + (r.heap a).size) = currentPtr + (r.heap a).size :=
      u32_eq_self (by omega)
    have later : Touches r (currentPtr + (r.heap a).size) l1 ptr →
        findBlock r.heap ptr fuel (r.heap a).next (currentPtr + (r.heap a).size) (some a) =
            .ok .stop ∨
          ∃ c ∈ a :: l1, ∃ prev', findBlock r.heap ptr fuel (r.heap a).next
            (currentPtr + (r.heap a).size) (some a) = .ok (.block c prev') := by
      intro touched
      refine (ih rest touched (by omega) low).imp_right ?_
      rintro ⟨c, member, prev', found⟩
      exact ⟨c, List.mem_cons_of_mem a member, prev', found⟩
    rw [findBlock, inside]
    by_cases free : (r.heap a).flags = blockFree
    · rw [if_pos free]
      exact later ((touches_cons_free free).mp touched)
    · rw [if_neg free]
      by_cases here : currentPtr ≤ ptr ∧ ptr ≤ currentPtr + (r.heap a).size
      · rw [if_pos here]
        exact Or.inr ⟨a, List.mem_cons_self, prev, rfl⟩
      · rw [if_neg here]
        by_cases below : ptr < currentPtr
        · rw [if_pos below]
          exact Or.inl rfl
        · rw [if_neg below]
          exact later (((touches_cons_used free).mp touched).resolve_left here)

end

/-- The loop looks into the region for the address. -/
def Open (r : PmmRegion) (ptr : Nat) : Prop :=
  r.flags = regionPublic ∧ r.base ≤ ptr ∧ ptr ≤ u32 (r.base + r.size)

section
variable {r : PmmRegion} {front others : List PmmRegion} {tail m1 m2 : List Nat} {b ptr : Nat}

theorem open_iff : ¬ (r.flags ≠ regionPublic ∨ ptr < r.base ∨ u32 (r.base + r.size) < ptr) ↔
    Open r ptr := by
  rw [Open, not_or, not_or, not_not, Nat.not_lt, Nat.not_lt]

theorem Listed.open_low (listed : Listed r tail 0) (opens : Open r ptr) :
    r.base + r.size < 4294967296 := by
  obtain ⟨_, low, high⟩ := opens
  have based := listed.based
  have bounded := listed.bounded
  unfold u32 at high
  omega

theorem freeFrom_closed (closed : ¬ Open r ptr) : freeFrom ptr (r :: others) =
    freeFrom ptr others >>= fun done => .ok (done.1, r :: done.2) := by
  rw [freeFrom, if_pos (not_not.mp (mt open_iff.mp closed))]

theorem freeFrom_open (opens : Open r ptr) : freeFrom ptr (r :: others) =
    findBlock r.heap ptr r.size (some 0) r.base none >>= fun search =>
      match search with
      | .block i prev => .ok (false, freeIn r i prev :: others)
      | .stop => .ok (false, r :: others)
      | .nextRegion => freeFrom ptr others >>= fun done => .ok (done.1, r :: done.2) := by
  rw [freeFrom]
  exact if_neg (open_iff.mpr opens)

/-- The search came to an end in one of the first regions, or changed none of these. -/
def Searched (ptr : Nat) (front others : List PmmRegion) (atEnd : Bool)
    (done : List PmmRegion) : Prop :=
  (∃ front', front'.length = front.length ∧ done = front' ++ others) ∨
    ∃ others', freeFrom ptr others = .ok (atEnd, others') ∧ done = front ++ others' ∧
      ∀ q ∈ front, Open q ptr →
        findBlock q.heap ptr q.size (some 0) q.base none = .ok .nextRegion

theorem freeFrom_front {atEnd : Bool} {done : List PmmRegion}
    (freed : freeFrom ptr (front ++ others) = .ok (atEnd, done)) :
    Searched ptr front others atEnd done := by
  induction front generalizing done with
  | nil => exact Or.inr ⟨done, freed, rfl, fun _ hq => nomatch hq⟩
  | cons q front ih =>
    have later : (∃ d, freeFrom ptr (front ++ others) = .ok d ∧
          Outcome.ok (d.1, q :: d.2) = .ok (atEnd, done)) →
        (Open q ptr → findBlock q.heap ptr q.size (some 0) q.base none = .ok .nextRegion) →
        Searched ptr (q :: front) others atEnd done := by
      rintro ⟨⟨e, d⟩, rest, same⟩ passes
      cases same
      rcases ih rest with ⟨front', length, rfl⟩ | ⟨others', freed', rfl, pass⟩
      · exact Or.inl ⟨q :: front', by simp [length], rfl⟩
      · refine Or.inr ⟨others', freed', rfl, fun q' hq' => ?_⟩
        rcases List.mem_cons.mp hq' with rfl | hq'
        · exact passes
        · exact pass q' hq'
    rw [List.cons_append] at freed
    by_cases opens : Open q ptr
    · rw [freeFrom_open opens] at freed
      obtain ⟨search, found, freed⟩ := Outcome.bind_eq_ok.mp freed
      cases search with
      | block i prev =>
        cases freed
        exact Or.inl ⟨freeIn q i prev :: front, rfl, rfl⟩
      | stop =>
        cases freed
        exact Or.inl ⟨q :: front, rfl, rfl⟩
      | nextRegion => exact later (Outcome.bind_eq_ok.mp freed) fun _ => found
    · rw [freeFrom_closed opens] at freed
      exact later (Outcome.bind_eq_ok.mp freed) fun opens' => absurd opens' opens

/-- Regions whose search leads to the next region stay as they are. -/
theorem freeFrom_skip (passes : ∀ q ∈ front, Open q ptr →
      findBlock q.heap ptr q.size (some 0) q.base none = .ok .nextRegion)
    {atEnd : Bool} {others' : List PmmRegion}
    (freed : freeFrom ptr others = .ok (atEnd, others')) :
    freeFrom ptr (front ++ others) = .ok (atEnd, front ++ others') := by
  induction front with
  | nil => exact freed
  | cons q front ih =>
    have rest := ih fun q' hq' => passes q' (List.mem_cons_of_mem q hq')
    rw [List.cons_append]
    by_cases opens : Open q ptr
    · rw [freeFrom_open opens, passes q List.mem_cons_self opens, Outcome.ok_bind, rest]
      rfl
    · rw [freeFrom_closed opens, rest]
      rfl

/-- A region that ends at the address, or before it, is passed over if it is
not touched there. -/
theorem Listed.passes (listed : Listed r tail 0) (ends : r.base + r.size ≤ ptr)
    (low : ptr < 4294967296) (untouched : ¬ Touches r r.base (0 :: tail) ptr) :
    findBlock r.heap ptr r.size (some 0) r.base none = .ok .nextRegion := by
  have linked : Segment (fun i => (r.heap i).next) (some 0) ((0 :: tail) ++ []) none := by
    rw [List.append_nil]
    exact listed.linked
  have total := listed.total
  have whole : r.base + width (pieces r (0 :: tail)) ≤ ptr := by
    rw [pieces_cons, width_cons, piece]
    simp only
    omega
  have short := listed.length_le
  obtain ⟨fuel, hfuel⟩ : ∃ fuel, r.size = fuel + (0 :: tail).length :=
    ⟨r.size - (tail.length + 1), by rw [List.length_cons]; omega⟩
  obtain ⟨o', rest, found⟩ := findBlock_pass linked untouched whole low
  cases rest
  rw [hfuel, found, findBlock]

/-- The search ends in a region that is touched. -/
theorem Listed.not_passes (listed : Listed r tail 0) (low : r.base + r.size < 4294967296)
    (touched : Touches r r.base (0 :: tail) ptr) :
    findBlock r.heap ptr r.size (some 0) r.base none ≠ .ok .nextRegion := by
  have linked : Segment (fun i => (r.heap i).next) (some 0) ((0 :: tail) ++ []) none := by
    rw [List.append_nil]
    exact listed.linked
  have total := listed.total
  have inside : r.base + width (pieces r (0 :: tail)) < 4294967296 := by
    rw [pieces_cons, width_cons, piece]
    simp only
    omega
  rcases findBlock_touched linked touched listed.length_le inside with stop | ⟨a, _, prev, found⟩
  · rw [stop]
    intro same
    cases same
  · rw [found]
    intro same
    cases same

end

/-- The blocks in use, the descriptor table among them, each with its address and size. -/
def usedBlocks (r : PmmRegion) : List (Nat × Nat × Nat) :=
  (held r.base (pieces r (0 :: behind r))).filter fun x => (r.heap x.1).flags = blockUsed

/-- Block b is released, and no other block. -/
structure Released (r : PmmRegion) (b : Nat) (q : PmmRegion) : Prop where
  listed : Listed q (behind q) 0
  base : q.base = r.base
  size : q.size = r.size
  free : (q.heap b).flags ≠ blockUsed
  merged : ∀ m1 m2, behind r = m1 ++ b :: m2 →
    pieces q (behind q) = release (r.heap b).size (pieces r m2) (pieces r m1)
  others : usedBlocks q = (usedBlocks r).filter fun x => x.1 ≠ b

/-- The call releases block b of this region, and every other used block of
this and of all other regions stays where it is. -/
def FreesAlone (env : Env) (front : List PmmRegion) (r : PmmRegion) (back : List PmmRegion)
    (b ptr : Nat) : Prop :=
  ∃ front' q back', mmFreePhysical env (front ++ r :: back) ptr = .ok (front' ++ q :: back') ∧
    front'.map usedBlocks = front.map usedBlocks ∧ back'.map usedBlocks = back.map usedBlocks ∧
    Released r b q

/-- The search meets no block in use before the one that is behind these in the
region, neither there nor in a region before it. -/
def Unmistaken (front : List PmmRegion) (r : PmmRegion) (m1 : List Nat) (ptr : Nat) : Prop :=
  r.base + r.size < 4294967296 ∧
    (∀ q ∈ front, q.flags = regionPublic → q.base + q.size < 4294967296 →
      ¬ Touches q q.base (0 :: behind q) ptr) ∧
    ¬ Touches r r.base (0 :: m1) ptr

section
variable {r q : PmmRegion} {front back : List PmmRegion} {tail m1 m2 l : List Nat}
  {b ptr start : Nat}

theorem held_pieces_mem {x : Nat × Nat × Nat} (member : x ∈ held start (pieces r l)) :
    x.1 ∈ l ∧ (r.heap x.1).flags ≠ blockFree := by
  obtain ⟨i, s, n⟩ := x
  obtain ⟨before, after, split, _⟩ := held_mem_split member
  obtain ⟨l1, rest, rfl, rfl, behindThem⟩ := List.map_eq_append_iff.mp split
  obtain ⟨c, l2, rfl, block, rfl⟩ := List.map_eq_cons_iff.mp behindThem
  have label : holder (r.heap c).flags c = some i := congrArg Prod.snd block
  by_cases free : (r.heap c).flags = blockFree
  · rw [holder, if_pos free] at label
    cases label
  · rw [holder, if_neg free] at label
    cases label
    exact ⟨by simp, free⟩

theorem held_table (used : (r.heap 0).flags = blockUsed) : held r.base (pieces r (0 :: l)) =
    (0, r.base, (r.heap 0).size) :: held (r.base + (r.heap 0).size) (pieces r l) := by
  rw [pieces_cons, piece, used, holder_used, held]

theorem held_filter (notIn1 : b ∉ m1) (notIn2 : b ∉ m2) (n : Nat) :
    (held start (pieces r m1 ++ (n, some b) :: pieces r m2)).filter (fun x => x.1 ≠ b) =
      held start (pieces r m1 ++ (n, none) :: pieces r m2) := by
  have keeps : ∀ {l : List Nat} {s : Nat}, b ∉ l →
      (held s (pieces r l)).filter (fun x => x.1 ≠ b) = held s (pieces r l) := by
    intro l s notIn
    refine List.filter_eq_self.mpr fun x hx => decide_eq_true ?_
    rintro rfl
    exact notIn (held_pieces_mem hx).1
  rw [held_append, held_append, List.filter_append, keeps notIn1, held, held,
    List.filter_cons_of_neg (by simp), keeps notIn2]

theorem freeIn_extents (listed : Listed r (m1 ++ b :: m2) 0)
    (freed : q = freeIn r b (0 :: m1).getLast?) :
    held q.base (pieces q (0 :: behind q)) = (0, r.base, (r.heap 0).size) ::
      held (r.base + (r.heap 0).size)
        (pieces r m1 ++ ((r.heap b).size, none) :: pieces r m2) := by
  obtain ⟨nonzero, _, _⟩ := listed.split_at
  obtain ⟨list, joined, merged⟩ := freeIn_joined listed
  rw [← freed] at joined merged
  have list' : behind q = list := joined.listed.behind_eq
  have table : (q.heap 0).size = (r.heap 0).size := by
    rw [joined.table, setBlock_other r _ nonzero.symm]
  have base : q.base = r.base := joined.base
  rw [held_table joined.listed.headUsed, list', merged, held_release, base, table]

/-- After a release the blocks in use are the others. -/
theorem freeIn_usedBlocks (listed : Listed r (m1 ++ b :: m2) 0)
    (used : (r.heap b).flags = blockUsed) (freed : q = freeIn r b (0 :: m1).getLast?) :
    usedBlocks q = (usedBlocks r).filter fun x => x.1 ≠ b := by
  obtain ⟨nonzero, notIn1, notIn2⟩ := listed.split_at
  obtain ⟨list, joined, _⟩ := freeIn_joined listed
  rw [← freed] at joined
  have extents := freeIn_extents listed freed
  have own : pieces r (m1 ++ b :: m2) =
      pieces r m1 ++ ((r.heap b).size, some b) :: pieces r m2 := by
    rw [pieces_append, pieces_cons, piece_used (notFree_of_used used)]
  have flags : ∀ x ∈ held q.base (pieces q (0 :: behind q)),
      decide ((q.heap x.1).flags = blockUsed) = decide ((r.heap x.1).flags = blockUsed) := by
    intro x hx
    rw [extents] at hx
    have same : (q.heap x.1).flags = (r.heap x.1).flags := by
      rcases List.mem_cons.mp hx with rfl | hx
      · rw [joined.listed.headUsed, listed.headUsed]
      · rw [← held_filter notIn1 notIn2, ← own] at hx
        obtain ⟨old, other⟩ := List.mem_filter.mp hx
        rw [freed]
        exact freeIn_flags r _ (of_decide_eq_true other) (held_pieces_mem old).2
    rw [same]
  have others : ((0, r.base, (r.heap 0).size) :: held (r.base + (r.heap 0).size)
      (pieces r (m1 ++ b :: m2))).filter (fun x => x.1 ≠ b) =
        held q.base (pieces q (0 :: behind q)) := by
    rw [List.filter_cons_of_pos (by simpa using nonzero.symm), own, held_filter notIn1 notIn2,
      extents]
  rw [usedBlocks, List.filter_congr flags, ← others, usedBlocks, listed.behind_eq,
    held_table listed.headUsed, List.filter_filter, List.filter_filter]
  exact List.filter_congr fun x _ => Bool.and_comm _ _

theorem freeIn_released (listed : Listed r (m1 ++ b :: m2) 0)
    (used : (r.heap b).flags = blockUsed) : Released r b (freeIn r b (0 :: m1).getLast?) := by
  obtain ⟨_, notIn1, notIn2⟩ := listed.split_at
  obtain ⟨list, joined, merged⟩ := freeIn_joined listed
  have list' : behind (freeIn r b (0 :: m1).getLast?) = list := joined.listed.behind_eq
  constructor
  · rw [list']
    exact joined.listed
  · exact joined.base
  · exact joined.size
  · rcases joined.gone b (by simp) with kept | gone
    · rw [joined.flags b kept, setBlock_same]
      exact fun same => nomatch same
    · rw [gone]
      decide
  · intro m1' m2' split
    obtain ⟨rfl, _, rfl⟩ := (List.append_cons_inj_of_notMem notIn1 notIn2).mp
      (listed.behind_eq.symm.trans split)
    rw [list', merged]
  · exact freeIn_usedBlocks listed used rfl

/-- The search comes to the first block that contains the address or ends at it. -/
theorem Listed.findBlock_first (listed : Listed r (m1 ++ b :: m2) 0)
    (used : (r.heap b).flags = blockUsed) (low : r.base + r.size < 4294967296)
    (untouched : ¬ Touches r r.base (0 :: m1) ptr) (above : addressOf r m1 ≤ ptr)
    (below : ptr ≤ addressOf r m1 + (r.heap b).size) :
    findBlock r.heap ptr r.size (some 0) r.base none = .ok (.block b (0 :: m1).getLast?) := by
  have linked : Segment (fun i => (r.heap i).next) (some 0) ((0 :: m1) ++ b :: m2) none :=
    listed.linked
  have bound := listed.block_bound
  have short := listed.length_le
  rw [List.length_append, List.length_cons] at short
  have address : addressOf r m1 = r.base + width (pieces r (0 :: m1)) := by
    rw [addressOf, pieces_cons, width_cons, piece, Nat.add_assoc]
  have ends : addressOf r m1 + (r.heap b).size < 4294967296 := by
    unfold addressOf
    omega
  obtain ⟨fuel, hfuel⟩ : ∃ fuel, r.size = fuel + 1 + (0 :: m1).length :=
    ⟨r.size - (m1.length + 2), by rw [List.length_cons]; omega⟩
  obtain ⟨o', ⟨rfl, _⟩, found⟩ := findBlock_pass linked untouched (address ▸ above)
    (Nat.lt_of_le_of_lt below ends)
  have notFree := notFree_of_used used
  rw [hfuel, found, ← address, findBlock, if_neg notFree, u32_eq_self ends,
    if_pos ⟨above, below⟩, Option.or_none]

/-- A block in use that is touched before this one is found in its place, if
the search does not end before. -/
theorem Listed.findBlock_mistaken (listed : Listed r (m1 ++ b :: m2) 0)
    (low : r.base + r.size < 4294967296) (touched : Touches r r.base (0 :: m1) ptr) :
    findBlock r.heap ptr r.size (some 0) r.base none = .ok .stop ∨
      ∃ a prev, a ≠ b ∧
        findBlock r.heap ptr r.size (some 0) r.base none = .ok (.block a prev) := by
  obtain ⟨nonzero, notIn1, _⟩ := listed.split_at
  have linked : Segment (fun i => (r.heap i).next) (some 0) ((0 :: m1) ++ b :: m2) none :=
    listed.linked
  have bound := listed.block_bound
  have short := listed.length_le
  rw [List.length_append, List.length_cons] at short
  have inside : r.base + width (pieces r (0 :: m1)) < 4294967296 := by
    rw [pieces_cons, width_cons, piece]
    simp only
    omega
  have enough : (0 :: m1).length ≤ r.size := by
    rw [List.length_cons]
    omega
  refine (findBlock_touched linked touched enough inside).imp_right ?_
  rintro ⟨a, member, prev, found⟩
  refine ⟨a, prev, ?_, found⟩
  rintro rfl
  rcases List.mem_cons.mp member with zero | before
  · exact nonzero zero
  · exact notIn1 before

theorem Listed.touched_open (listed : Listed r tail 0) (low : r.base + r.size < 4294967296)
    (touched : Touches r r.base (0 :: tail) ptr) : Open r ptr := by
  obtain ⟨x, member, below, above⟩ := touched
  have bounds := held_bounds (show (x.1, x.2.1, x.2.2) ∈ _ from member)
  have total := listed.total
  rw [pieces_cons, width_cons, piece] at bounds
  simp only at bounds
  refine ⟨listed.isPublic, by omega, ?_⟩
  rw [u32_eq_self low]
  omega

/-- Other regions do not hold the search up, unless they are touched. -/
theorem Unmistaken.front_passes (unmistaken : Unmistaken front r m1 ptr)
    (listed : ∀ q ∈ front, q.flags = regionPublic → Listed q (behind q) 0)
    (disjoint : ∀ q ∈ front, q.flags = regionPublic →
      q.base + q.size ≤ r.base ∨ r.base + r.size ≤ q.base)
    (inside : r.base ≤ ptr ∧ ptr ≤ r.base + r.size) :
    ∀ q ∈ front, Open q ptr →
      findBlock q.heap ptr q.size (some 0) q.base none = .ok .nextRegion := by
  intro q hq opens
  have low := (listed q hq opens.1).open_low opens
  have untouched := unmistaken.2.1 q hq opens.1 low
  have below := opens.2.1
  have above := opens.2.2
  rw [u32_eq_self low] at above
  refine (listed q hq opens.1).passes ?_ (Nat.lt_of_le_of_lt above low) untouched
  rcases disjoint q hq opens.1 with before | after
  · omega
  · -- the region would have to begin at the address, where its table is
    refine absurd ?_ untouched
    refine ⟨(0, q.base, (q.heap 0).size), ?_, below, ?_⟩
    · rw [held_table (listed q hq opens.1).headUsed]
      exact List.mem_cons_self
    · simp only
      omega

/-- A search that meets no block in use before this one releases it. -/
theorem mmFreePhysical_first (env : Env) (listed : Listed r (m1 ++ b :: m2) 0)
    (used : (r.heap b).flags = blockUsed) (unmistaken : Unmistaken front r m1 ptr)
    (above : addressOf r m1 ≤ ptr) (below : ptr ≤ addressOf r m1 + (r.heap b).size)
    (listedFront : ∀ q ∈ front, q.flags = regionPublic → Listed q (behind q) 0)
    (disjoint : ∀ q ∈ front, q.flags = regionPublic →
      q.base + q.size ≤ r.base ∨ r.base + r.size ≤ q.base) :
    mmFreePhysical env (front ++ r :: back) ptr =
      .ok (front ++ freeIn r b (0 :: m1).getLast? :: back) := by
  have low := unmistaken.1
  have bound := listed.block_bound
  have table := listed.tablePositive
  unfold addressOf at above below
  have inside : r.base ≤ ptr ∧ ptr ≤ r.base + r.size := by omega
  have nonzero : env.debug = true → ptr ≠ 0 := by
    intro _
    simp only [sizeofPmmBlock] at table
    omega
  have opens : Open r ptr := ⟨listed.isPublic, inside.1, (u32_eq_self low).symm ▸ inside.2⟩
  have passes := unmistaken.front_passes listedFront disjoint inside
  have freed : freeFrom ptr (r :: back) =
      .ok (false, freeIn r b (0 :: m1).getLast? :: back) := by
    rw [freeFrom_open opens, listed.findBlock_first used low unmistaken.2.2 above below]
    rfl
  rw [mmFreePhysical, Outcome.check_of nonzero, Outcome.ok_bind, freeFrom_skip passes freed]
  rfl

theorem freeFrom_of_mmFreePhysical {env : Env} {regions done : List PmmRegion}
    (freed : mmFreePhysical env regions ptr = .ok done) :
    ∃ atEnd, freeFrom ptr regions = .ok (atEnd, done) := by
  obtain ⟨_, _, freed⟩ := Outcome.bind_eq_ok.mp freed
  obtain ⟨⟨atEnd, left⟩, found, rest⟩ := Outcome.bind_eq_ok.mp freed
  refine ⟨atEnd, ?_⟩
  cases atEnd with
  | true =>
    obtain ⟨_, _, rest⟩ := Outcome.bind_eq_ok.mp rest
    rw [found, Outcome.ok.inj rest]
  | false => rw [found, Outcome.ok.inj rest]

/-- Where a region is searched and its block b, in use, comes to be released,
the search has met no other block in use. -/
theorem Listed.search_unmistaken (listed : Listed r (m1 ++ b :: m2) 0)
    (used : (r.heap b).flags = blockUsed) {others' : List PmmRegion} {atEnd : Bool}
    (freed : freeFrom ptr (r :: back) = .ok (atEnd, q :: others'))
    (released : (q.heap b).flags ≠ blockUsed) :
    r.base + r.size < 4294967296 ∧ ¬ Touches r r.base (0 :: m1) ptr := by
  have changed : q ≠ r := by
    rintro rfl
    exact released used
  by_cases opens : Open r ptr
  · have low := listed.open_low opens
    refine ⟨low, fun touched => ?_⟩
    rw [freeFrom_open opens] at freed
    rcases listed.findBlock_mistaken low touched with stop | ⟨a, prev, other, found⟩
    · rw [stop] at freed
      cases freed
      exact absurd rfl changed
    · rw [found] at freed
      cases freed
      have kept := freeIn_flags r prev other.symm (notFree_of_used used)
      exact absurd (kept.trans used) released
  · rw [freeFrom_closed opens] at freed
    obtain ⟨_, _, same⟩ := Outcome.bind_eq_ok.mp freed
    cases same
    exact absurd rfl changed

/-- The call releases the block that starts at the address, and no other,
exactly when the search meets no block in use before it. -/
theorem mmFreePhysical_alone_iff (env : Env)
    (listed : ∀ q ∈ front ++ r :: back, q.flags = regionPublic → Listed q (behind q) 0)
    (disjoint : (front ++ r :: back).Pairwise fun q q' =>
      q.flags = regionPublic → q'.flags = regionPublic →
        q.base + q.size ≤ q'.base ∨ q'.base + q'.size ≤ q.base)
    (isPublic : r.flags = regionPublic) (place : behind r = m1 ++ b :: m2)
    (used : (r.heap b).flags = blockUsed) (address : ptr = u32 (addressOf r m1)) :
    FreesAlone env front r back b ptr ↔ Unmistaken front r m1 ptr := by
  have listedR := listed r (by simp) isPublic
  have listedFront : ∀ q ∈ front, q.flags = regionPublic → Listed q (behind q) 0 :=
    fun q hq => listed q (List.mem_append_left _ hq)
  rw [place] at listedR
  have bound := listedR.block_bound
  constructor
  · rintro ⟨front', q, back', freed, sameFront, _, released⟩
    have length : front'.length = front.length := by
      rw [← List.length_map usedBlocks, sameFront, List.length_map]
    obtain ⟨_, freed⟩ := freeFrom_of_mmFreePhysical freed
    rcases freeFrom_front freed with ⟨front'', length', same⟩ | ⟨others', freedR, same, passes⟩
    · obtain ⟨_, same⟩ := List.append_inj same (length.trans length'.symm)
      cases same
      exact absurd used released.free
    · obtain ⟨_, rfl⟩ := List.append_inj same length
      obtain ⟨low, untouched⟩ := listedR.search_unmistaken used freedR released.free
      refine ⟨low, fun q' hq' isPublic' low' touched => ?_, untouched⟩
      have opens := (listedFront q' hq' isPublic').touched_open low' touched
      exact (listedFront q' hq' isPublic').not_passes low' touched (passes q' hq' opens)
  · intro unmistaken
    have low := unmistaken.1
    have exactly : ptr = addressOf r m1 := by
      rw [address, u32_eq_self (by unfold addressOf; omega)]
    have apart : ∀ q ∈ front, q.flags = regionPublic →
        q.base + q.size ≤ r.base ∨ r.base + r.size ≤ q.base :=
      fun q hq flags => (List.pairwise_append.mp disjoint).2.2 q hq r List.mem_cons_self flags
        isPublic
    subst exactly
    exact ⟨front, freeIn r b (0 :: m1).getLast?, back,
      mmFreePhysical_first env listedR used unmistaken (Nat.le_refl _) (Nat.le_add_right _ _)
        listedFront apart, rfl, rfl, freeIn_released listedR used⟩

/-- A region of 2048 bytes at this address, with three blocks. -/
def threeBlocks (base size1 : Nat) (flags1 : UInt8) : PmmRegion :=
  ⟨base, 2048, regionPublic, fun i =>
    if i = 0 then ⟨36, some 1, blockUsed, 65535⟩
    else if i = 1 then ⟨size1, some 2, flags1, 65535⟩
    else if i = 2 then ⟨2012 - size1, none, blockUsed, 65535⟩
    else zeroBlock⟩

theorem threeBlocks_listed {base size1 : Nat} (flags1 : UInt8) (low : base < 4294967296)
    (small : size1 ≤ 2012) : Listed (threeBlocks base size1 flags1) [1, 2] 0 := by
  constructor
  · exact ⟨rfl, rfl, rfl, rfl⟩
  · decide
  · intro i hi
    have table : ((threeBlocks base size1 flags1).heap 0).size = 36 := rfl
    simp only [List.mem_cons, List.not_mem_nil, or_false] at hi
    rw [table]
    simp only [sizeofPmmBlock]
    omega
  · rfl
  · change 36 + (size1 + (2012 - size1 + 0)) + 0 = 2048
    omega
  · exact low
  · exact (by decide : 2048 < 4294967296)
  · rfl

/-- The upper block is behind a free one, and behind another region. -/
theorem threeBlocks_freed :
    FreesAlone ⟨true, 0, 1⟩ [threeBlocks 4096 1000 blockUsed] (threeBlocks 6144 1000 blockFree) []
      2 7180 ↔
    Unmistaken [threeBlocks 4096 1000 blockUsed] (threeBlocks 6144 1000 blockFree) [1] 7180 :=
  mmFreePhysical_alone_iff ⟨true, 0, 1⟩
    (by
      intro q hq _
      simp only [List.cons_append, List.nil_append, List.mem_cons, List.not_mem_nil,
        or_false] at hq
      rcases hq with rfl | rfl
      · exact threeBlocks_listed blockUsed (by decide) (by decide)
      · exact threeBlocks_listed blockFree (by decide) (by decide))
    (List.pairwise_pair.mpr fun _ _ => Or.inl (by decide))
    rfl rfl rfl rfl

/-- With a used block in front of it, that one is released instead. -/
theorem lower_neighbour_freed :
    Listed (threeBlocks 6144 1000 blockUsed) (behind (threeBlocks 6144 1000 blockUsed)) 0 ∧
      behind (threeBlocks 6144 1000 blockUsed) = [1, 2] ∧
      ((threeBlocks 6144 1000 blockUsed).heap 2).flags = blockUsed ∧
      addressOf (threeBlocks 6144 1000 blockUsed) [1] = 7180 ∧
      ¬ FreesAlone ⟨true, 0, 1⟩ [] (threeBlocks 6144 1000 blockUsed) [] 2 7180 := by
  refine ⟨threeBlocks_listed blockUsed (by decide) (by decide), rfl, rfl, rfl, ?_⟩
  rintro ⟨front', q, back', freed, front, back, released⟩
  obtain rfl := List.map_eq_nil_iff.mp front
  obtain rfl := List.map_eq_nil_iff.mp back
  cases freed
  exact released.free (by decide)

end

end Pmm
