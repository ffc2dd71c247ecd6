import UDos.Kernel.PmmAllocate
import UDos.Kernel.Svc

/-!
# The services that get storage

`KeSupervisorCallHandler` passes the length that a program asks for to
`MmAllocate` as it is. The allocator panics on a length of zero, on a full
descriptor table that cannot expand, and, in a DEBUG build, where the word at
storage address 4 is zero.
-/

namespace SvcStorage

open Svc Pmm Extents Linked

/-- A descriptor of the table is unused, or the table can expand. -/
def HasDescriptor (r : PmmRegion) : Prop :=
  (∃ i < (r.heap 0).size / sizeofPmmBlock, (r.heap i).flags = blockNotPresent) ∨
    (r.heap 1).flags = blockFree ∧ sizeofPmmBlock * 32 ≤ (r.heap 1).size

/-- Block b can be cut down to this size, with a new block behind it for the rest. -/
def CanCut (r : PmmRegion) (b left : Nat) : Prop :=
  left = 0 ∨ HasDescriptor (r.setBlock b { r.heap b with size := left })

/-- The first free block of a public region that has this size or more. -/
def firstFit (size : Nat) : List PmmRegion → Option (PmmRegion × Nat)
  | [] => none
  | r :: others =>
    if r.flags = regionPublic then
      match (behind r).find? (fits r size) with
      | some b => some (r, b)
      | none => firstFit size others
    else firstFit size others

/-- The check of a DEBUG build takes the word at address 4 for a link. -/
def CheckPasses (env : Env) (regions : List PmmRegion) : Prop :=
  env.debug = true → (∃ r ∈ regions, r.flags = regionPublic) → env.lowWord ≠ 0

section
variable {r : PmmRegion} {m1 m2 list : List Nat} {b size left : Nat}

theorem mmCreateBlock_returns_iff (r : PmmRegion) (n : Nat) (flags : UInt8) (next : Option Nat) :
    (mmCreateBlock r n flags next).returns = true ↔ HasDescriptor r := by
  unfold mmCreateBlock HasDescriptor
  simp only
  cases found : (List.range ((r.heap 0).size / sizeofPmmBlock)).find? fun i =>
      (r.heap i).flags == blockNotPresent with
  | some i =>
    have inTable := List.mem_range.mp (List.mem_of_find?_eq_some found)
    have unused : (r.heap i).flags = blockNotPresent := by
      simpa using List.find?_some found
    exact ⟨fun _ => Or.inl ⟨i, inTable, unused⟩, fun _ => rfl⟩
  | none =>
    have present : ¬ ∃ i < (r.heap 0).size / sizeofPmmBlock,
        (r.heap i).flags = blockNotPresent := by
      rintro ⟨i, inTable, unused⟩
      have kept := List.find?_eq_none.mp found i (List.mem_range.mpr inTable)
      simp [unused] at kept
    simp only
    rw [Outcome.returns_bind, or_iff_right present]
    constructor
    · rintro ⟨_, room, _⟩
      have room := Outcome.check_eq_ok.mp room
      rw [not_or, not_not, Nat.not_lt] at room
      exact room
    · rintro ⟨free, large⟩
      refine ⟨(), Outcome.check_of ?_ _, rfl⟩
      rw [not_or, not_not, Nat.not_lt]
      exact ⟨free, large⟩

theorem splitLeft_returns_iff (free : (r.heap b).flags = blockFree) :
    (splitLeft r b left).returns = true ↔ CanCut r b left := by
  by_cases whole : left = 0
  · rw [splitLeft, if_neg (not_not.mpr whole)]
    exact ⟨fun _ => Or.inl whole, fun _ => rfl⟩
  · have cut : ({ r.heap b with size := left, flags := blockFree } : PmmBlock) =
        { r.heap b with size := left } := by
      rw [← free]
    rw [splitLeft, if_pos whole, CanCut, or_iff_right whole, cut, Outcome.returns_bind]
    rw [← mmCreateBlock_returns_iff _ (sub32 (r.heap b).size left) blockUsed
      ((r.setBlock b { r.heap b with size := left }).heap b).next, Outcome.returns_iff]
    constructor
    · rintro ⟨done, made, _⟩
      exact ⟨done, made⟩
    · rintro ⟨done, made⟩
      exact ⟨done, made, rfl⟩

/-- Once the block is cut the rest of an allocation without alignment returns. -/
theorem allocateIn_returns_iff (env : Env) (p : Nat) (wf : WellFormed r (m1 ++ b :: m2) 0)
    (free : (r.heap b).flags = blockFree) (large : size ≤ (r.heap b).size) :
    (allocateIn env r size 0 b p).returns = true ↔ CanCut r b ((r.heap b).size - size) := by
  have bound := wf.block_bound
  have bounded := wf.bounded
  have left : leftSize size 0 (r.heap b) p = (r.heap b).size - size := by
    rw [leftSize, if_neg (by simp), sub32_eq large (by omega)]
  rw [allocateIn, left, ← splitLeft_returns_iff free, Outcome.returns_bind, Outcome.returns_iff]
  constructor
  · rintro ⟨done, made, _⟩
    exact ⟨done, made⟩
  · rintro ⟨⟨i, cut⟩, made⟩
    obtain ⟨l1, l2, sizes, _⟩ := (splitLeft_sound wf free (Nat.sub_add_cancel large)).after _ made
    have whole : (cut.heap i).size = size := sizes.size
    refine ⟨(i, cut), made, ?_⟩
    simp only
    rw [Outcome.check_of (by simp), Outcome.ok_bind, setBlock_same]
    simp only
    rw [whole, sub32_eq (Nat.le_refl _) (by omega), Nat.sub_self]
    rfl

theorem allocateFrom_returns_iff (env : Env) (size : Nat) {regions : List PmmRegion}
    (ordered : ∀ r ∈ regions, r.flags = regionPublic → WellFormed r (behind r) 0) :
    (allocateFrom env size 0 regions).returns = true ↔
      ∀ r b, firstFit size regions = some (r, b) → CanCut r b ((r.heap b).size - size) := by
  induction regions with
  | nil => exact ⟨fun _ _ _ found => (nomatch found), fun _ => rfl⟩
  | cons r regions ih =>
    have later := ih fun q hq => ordered q (List.mem_cons_of_mem r hq)
    have goesOn : (allocateFrom env size 0 regions >>= fun done =>
          (.ok (done.1, r :: done.2) : Outcome (Nat × List PmmRegion))).returns = true ↔
        ∀ q b, firstFit size regions = some (q, b) → CanCut q b ((q.heap b).size - size) := by
      rw [← later, Outcome.returns_bind, Outcome.returns_iff]
      exact ⟨fun ⟨done, made, _⟩ => ⟨done, made⟩, fun ⟨done, made⟩ => ⟨done, made, rfl⟩⟩
    rw [allocateFrom, firstFit]
    by_cases isPublic : r.flags = regionPublic
    · have wf := ordered r List.mem_cons_self isPublic
      rw [if_neg (not_not.mpr isPublic), if_pos isPublic]
      rcases findFit_eq wf size with ⟨none, absent⟩ | ⟨m1, b, m2, first, found⟩
      · rw [none, absent, Outcome.ok_bind]
        exact goesOn
      · rw [first.place] at wf
        rw [found, first.found, Outcome.ok_bind]
        simp only
        rw [Outcome.returns_bind]
        have same := allocateIn_returns_iff env (KernelMemory.u32 (addressOf r m1)) wf first.free
          first.large
        rw [Outcome.returns_iff] at same
        constructor
        · rintro ⟨done, made, _⟩ q c found
          cases found
          exact same.mp ⟨done, made⟩
        · intro cuts
          obtain ⟨done, made⟩ := same.mpr (cuts r b rfl)
          exact ⟨done, made, rfl⟩
    · rw [if_pos isPublic, if_neg isPublic]
      exact goesOn

/-- A list without a cycle has no block that links to itself. -/
theorem selfReference_false {env : Env} {o : Option Nat}
    (linked : Segment (fun i => (r.heap i).next) o list none) (distinct : list.Nodup)
    (some : o = none → env.lowWord ≠ 0) : selfReference env r.heap o = false := by
  cases list with
  | nil =>
    cases linked
    simpa [selfReference] using some rfl
  | cons a list =>
    obtain ⟨rfl, rest⟩ := linked
    rw [selfReference]
    cases list with
    | nil =>
      have last : (r.heap a).next = none := rest
      simp [last]
    | cons c list =>
      obtain ⟨next, _⟩ := rest
      have other : c ≠ a := by
        rintro rfl
        simp at distinct
      simp [next, other]

/-- The loop comes to the end of a list unless the null pointer links to itself. -/
theorem checkLoop_eq (env : Env) {fuel : Nat} {o : Option Nat} {sum start : Nat}
    (linked : Segment (fun i => (r.heap i).next) o list none) (distinct : list.Nodup)
    (enough : list.length ≤ fuel) (current : sum = KernelMemory.u32 start)
    (link : list ≠ [] → env.lowWord ≠ 0) :
    checkLoop env r.heap fuel o sum =
      .ok (KernelMemory.u32 (start + width (pieces r list))) := by
  induction list generalizing fuel o sum start with
  | nil =>
    cases linked
    rw [checkLoop, current]
    rfl
  | cons a list ih =>
    obtain ⟨rfl, rest⟩ := linked
    rw [List.length_cons] at enough
    obtain ⟨fuel, rfl⟩ : ∃ k, fuel = k + 1 := ⟨fuel - 1, by omega⟩
    have behindIt := (List.nodup_cons.mp distinct).2
    have nonzero := link (List.cons_ne_nil a list)
    have next : KernelMemory.u32 (sum + (r.heap a).size) =
        KernelMemory.u32 (start + (r.heap a).size) := by
      rw [current]
      unfold KernelMemory.u32
      omega
    rw [checkLoop, Outcome.check_of (selfReference_false rest behindIt fun _ => nonzero),
      Outcome.ok_bind, ih rest behindIt (by omega) next fun _ => nonzero, pieces_cons, width_cons,
      ← Nat.add_assoc]
    rfl

/-- The loop does not come to the end when the null pointer links to itself. -/
theorem checkLoop_stops (env : Env) {fuel : Nat} {o : Option Nat} (sum : Nat)
    (linked : Segment (fun i => (r.heap i).next) o list none) (some : list ≠ [])
    (nullLink : env.lowWord = 0) : (checkLoop env r.heap fuel o sum).returns = false := by
  induction list generalizing fuel o sum with
  | nil => exact absurd rfl some
  | cons a list ih =>
    obtain ⟨rfl, rest⟩ := linked
    cases fuel with
    | zero => rfl
    | succ fuel =>
      rw [checkLoop, Bool.eq_false_iff, ne_eq, Outcome.returns_bind]
      rintro ⟨_, passed, returns⟩
      have noSelf := Outcome.check_eq_ok.mp passed
      cases list with
      | nil =>
        have last : (r.heap a).next = none := rest
        simp [last, selfReference, nullLink] at noSelf
      | cons c list => simp [ih _ rest (List.cons_ne_nil c list)] at returns

theorem mmCheckHeap_returns_iff (env : Env) {regions : List PmmRegion}
    (ordered : ∀ r ∈ regions, r.flags = regionPublic → WellFormed r (behind r) 0) :
    (mmCheckHeap env regions).returns = true ↔
      ((∃ r ∈ regions, r.flags = regionPublic) → env.lowWord ≠ 0) := by
  induction regions with
  | nil =>
    refine ⟨fun _ some => ?_, fun _ => rfl⟩
    obtain ⟨r, member, _⟩ := some
    cases member
  | cons r regions ih =>
    have later := ih fun q hq => ordered q (List.mem_cons_of_mem r hq)
    rw [mmCheckHeap, List.exists_mem_cons_iff]
    by_cases isPublic : r.flags = regionPublic
    · have wf := ordered r List.mem_cons_self isPublic
      have total := wf.total
      have bounded := wf.bounded
      have list := wf.linked
      have enough := wf.length_le
      rw [if_neg (not_not.mpr isPublic)]
      by_cases nullLink : env.lowWord = 0
      · have stops : (checkLoop env r.heap r.size (some 0) 0).returns = false :=
          checkLoop_stops env 0 list (List.cons_ne_nil _ _) nullLink
        constructor
        · intro returns
          obtain ⟨_, made, _⟩ := Outcome.returns_bind.mp returns
          rw [made] at stops
          cases stops
        · exact fun passes => absurd nullLink (passes (Or.inl isPublic))
      · have sum : checkLoop env r.heap r.size (some 0) 0 =
            .ok (KernelMemory.u32 (0 + width (pieces r (0 :: behind r)))) :=
          checkLoop_eq env list wf.distinct enough rfl fun _ => nullLink
        have size : KernelMemory.u32 (0 + width (pieces r (0 :: behind r))) = r.size := by
          rw [pieces_cons, width_cons, piece, KernelMemory.u32_eq_self (by simp only; omega)]
          simp only
          omega
        rw [sum, Outcome.ok_bind, Outcome.check_of size, Outcome.ok_bind, later]
        exact ⟨fun _ _ => nullLink, fun _ _ => nullLink⟩
    · rw [if_pos isPublic, later, or_iff_right isPublic]

theorem debugCheck_returns_iff (env : Env) {regions : List PmmRegion}
    (ordered : ∀ r ∈ regions, r.flags = regionPublic → WellFormed r (behind r) 0) :
    (debugCheck env regions).returns = true ↔ CheckPasses env regions := by
  by_cases debug : env.debug = true
  · rw [debugCheck, if_pos debug, mmCheckHeap_returns_iff env ordered]
    exact ⟨fun passes _ => passes, fun passes => passes debug⟩
  · rw [debugCheck, if_neg debug]
    exact ⟨fun _ on => absurd on debug, fun _ => rfl⟩

end

section
variable {regions : List PmmRegion} {size : Nat}

theorem allocates_public_iff {done : Nat × List PmmRegion}
    (allocates : Allocates regions size done) :
    (∃ r ∈ done.2, r.flags = regionPublic) ↔ ∃ r ∈ regions, r.flags = regionPublic := by
  rcases allocates with ⟨rfl, _⟩ | ⟨front, r, back, j, a, r', rfl, isPublic, rfl, _, taken⟩
  · rfl
  · have still : r'.flags = regionPublic := taken.wellFormed.isPublic
    constructor
    · exact fun _ => ⟨r, by simp, isPublic⟩
    · exact fun _ => ⟨r', by simp, still⟩

/-- An allocation returns when the length is not zero, the block it takes can be
cut, and the check of a DEBUG build passes. -/
theorem mmAllocatePhysical_returns_iff (env : Env)
    (ordered : ∀ r ∈ regions, r.flags = regionPublic → WellFormed r (behind r) 0) :
    (mmAllocatePhysical env regions size 0).returns = true ↔
      size ≠ 0 ∧ (∀ r b, firstFit size regions = some (r, b) →
        CanCut r b ((r.heap b).size - size)) ∧ CheckPasses env regions := by
  have sound := (allocateFrom_sound env size ordered).after
  have checked : ∀ done, allocateFrom env size 0 regions = .ok done →
      ((debugCheck env done.2).returns = true ↔ CheckPasses env regions) := by
    intro done made
    have allocates := sound done made
    rw [debugCheck_returns_iff env (allocates.ordered ordered), CheckPasses, CheckPasses,
      allocates_public_iff allocates]
  rw [mmAllocatePhysical, Outcome.returns_bind, ← allocateFrom_returns_iff env size ordered]
  constructor
  · rintro ⟨_, positive, returns⟩
    obtain ⟨done, made, returns⟩ := Outcome.returns_bind.mp returns
    obtain ⟨_, passed, _⟩ := Outcome.returns_bind.mp returns
    refine ⟨Outcome.check_eq_ok.mp positive, Outcome.returns_iff.mpr ⟨done, made⟩, ?_⟩
    exact (checked done made).mp (Outcome.returns_iff.mpr ⟨_, passed⟩)
  · rintro ⟨positive, returns, passes⟩
    obtain ⟨done, made⟩ := Outcome.returns_iff.mp returns
    obtain ⟨_, passed⟩ := Outcome.returns_iff.mp ((checked done made).mpr passes)
    refine ⟨(), Outcome.check_of positive _, Outcome.returns_bind.mpr ⟨done, made, ?_⟩⟩
    exact Outcome.returns_bind.mpr ⟨_, passed, rfl⟩

end

/-- The length that a call asks storage for, if it asks for storage. -/
def requestedLength (code : Nat) (f : Frame) : Option UInt32 :=
  if code = 120 ∨ code = 10 then
    if (code = 10 ∧ f.r1.toNat ≥ 2147483648) ∨ (code = 120 ∧ f.r1 = 0) then
      some (if code = 10 then f.r0 &&& 0xFFFFFF else f.r0)
    else none
  else if f.r4.toNat % 65536 = 190 then some f.r1
  else none

/-- The kernel whose `MmAllocate` has returned p. -/
def answering (kernel : Kernel) (p : UInt32) : Kernel
  | .allocate _, m => (p, m)
  | kernelCall, m => kernel kernelCall m

/-- `KeSupervisorCallHandler` for a call that asks for `len` bytes: it stops
where `MmAllocate` stops. -/
def getStorage (env : Env) (regions : List PmmRegion) (kernel : Kernel) (code : Nat)
    (s : Machine) (len : UInt32) : Outcome (Machine × List PmmRegion) := do
  let (p, regions) ← mmAllocatePhysical env regions len.toNat 0
  .ok (keSupervisorCallHandler (answering kernel (UInt32.ofNat p)) code s, regions)

/-- What a service tells the program of a block at p, or with 0 of none. -/
def Answered (code : Nat) (p : UInt32) (f : Frame) : Prop :=
  if code = 120 ∨ code = 10 then f.r1 = p ∧ f.r15 = (if p = 0 then 4 else 0) else f.r4 = p

section
variable {code : Nat} {s : Machine} {len : UInt32}

/-- Such a call allocates the length, calls nothing else, and hands on the answer. -/
theorem handler_asks (kernel : Kernel) (p : UInt32) (asked : requestedLength code s.frame = some len) :
    (keSupervisorCallHandler (answering kernel p) code s).effects =
        s.effects ++ [.call (.allocate len)] ∧
      Answered code p (keSupervisorCallHandler (answering kernel p) code s).frame := by
  unfold requestedLength at asked
  unfold keSupervisorCallHandler Answered
  by_cases compatible : code = 120 ∨ code = 10
  · rw [if_pos compatible] at asked ⊢
    rw [if_pos compatible, getmain]
    by_cases gets : (code = 10 ∧ s.frame.r1.toNat ≥ 2147483648) ∨ (code = 120 ∧ s.frame.r1 = 0)
    · rw [if_pos gets] at asked ⊢
      obtain rfl := Option.some.inj asked
      exact ⟨rfl, rfl, rfl⟩
    · rw [if_neg gets] at asked
      exact nomatch asked
  · rw [if_neg compatible] at asked ⊢
    rw [if_neg compatible]
    by_cases service : s.frame.r4.toNat % 65536 = 190
    · rw [if_pos service] at asked
      obtain rfl := Option.some.inj asked
      rw [service]
      exact ⟨rfl, rfl⟩
    · rw [if_neg service] at asked
      exact nomatch asked

/-- The call returns, with a block of that length, or with the answer that there
is none and the allocator as it was. -/
def Served (regions : List PmmRegion) (code : Nat) (len : UInt32)
    (result : Outcome (Machine × List PmmRegion)) : Prop :=
  ∃ s regions', result = .ok (s, regions') ∧
    ((Answered code 0 s.frame ∧ regions' = regions) ∨
      ∃ p front r back r', p ≠ 0 ∧ Answered code p s.frame ∧ regions = front ++ r :: back ∧
        regions' = front ++ r' :: back ∧ r.flags = regionPublic ∧
        Handed r r' p.toNat len.toNat)

theorem Handed.address {r r' : PmmRegion} {p size : Nat} (handed : Handed r r' p size)
    (wf : WellFormed r (behind r) 0) (low : r.base + r.size ≤ 4294967296) (positive : size ≠ 0) :
    UInt32.ofNat p ≠ 0 ∧ (UInt32.ofNat p).toNat = p := by
  have bounds := handed.inside.bounds wf
  have same : (UInt32.ofNat p).toNat = p := UInt32.toNat_ofNat_of_lt' (by
    simp only [UInt32.size]
    omega)
  refine ⟨fun null => ?_, same⟩
  rw [null] at same
  simp only [sizeofPmmBlock, UInt32.toNat_zero] at same bounds
  omega

/-- A program that asks for storage is served exactly when it asks for some,
the block that the allocator takes can be cut, and the check of a DEBUG build
passes; otherwise the system stops. -/
theorem storage_service_served_iff (env : Env) {regions : List PmmRegion} (kernel : Kernel)
    (ordered : ∀ r ∈ regions, r.flags = regionPublic →
      WellFormed r (behind r) 0 ∧ r.base + r.size ≤ 4294967296)
    (asked : requestedLength code s.frame = some len) :
    Served regions code len (getStorage env regions kernel code s len) ↔
      len ≠ 0 ∧ (∀ r b, firstFit len.toNat regions = some (r, b) →
        CanCut r b ((r.heap b).size - len.toNat)) ∧ CheckPasses env regions := by
  have nonzero : len ≠ 0 ↔ len.toNat ≠ 0 := by
    rw [ne_eq, ne_eq, ← UInt32.toNat_inj, UInt32.toNat_zero]
  have returns := @mmAllocatePhysical_returns_iff regions len.toNat env fun r hr isPublic =>
    (ordered r hr isPublic).1
  rw [nonzero, ← returns, Outcome.returns_iff, getStorage]
  constructor
  · rintro ⟨s', regions', made, _⟩
    obtain ⟨done, allocated, _⟩ := Outcome.bind_eq_ok.mp made
    exact ⟨done, allocated⟩
  · rintro ⟨⟨p, regions'⟩, allocated⟩
    obtain ⟨_, unchanged, handed⟩ :=
      (mmAllocatePhysical_unaligned env regions len.toNat ordered).after _ allocated
    obtain ⟨_, answered⟩ := handler_asks kernel (UInt32.ofNat p) asked
    refine ⟨_, regions', Outcome.bind_eq_ok.mpr ⟨_, allocated, rfl⟩, ?_⟩
    by_cases null : p = 0
    · rw [null] at answered ⊢
      exact Or.inl ⟨answered, unchanged null⟩
    · obtain ⟨front, r, back, r', before, after, isPublic, object⟩ := handed null
      obtain ⟨wf, low⟩ := ordered r (by simp [before]) isPublic
      have positive : len.toNat ≠ 0 := (returns.mp (Outcome.returns_iff.mpr ⟨_, allocated⟩)).1
      obtain ⟨live, address⟩ := Handed.address object wf low positive
      refine Or.inr ⟨UInt32.ofNat p, front, r, back, r', live, answered, before, after, isPublic, ?_⟩
      rw [address]
      exact object

end

/-- A kernel that does nothing else. -/
def idleKernel : Kernel := fun _ m => (0, m)

/-- A program of another system asks for storage with code 120. -/
def conditionalGetmain (len : UInt32) : Machine :=
  ⟨⟨len, 0, 0, 0, 0, 0⟩, fun _ => 0, []⟩

/-- A program asks for storage with code 10, which has the length in the low 24 bits. -/
def registerGetmain (r0 : UInt32) : Machine :=
  ⟨⟨r0, 0x80000000, 0, 0, 0, 0⟩, fun _ => 0, []⟩

theorem hundred_bytes_served : Served [fullTable] 120 100
    (getStorage ⟨true, 0, 1⟩ [fullTable] idleKernel 120 (conditionalGetmain 100) 100) := by
  refine (storage_service_served_iff ⟨true, 0, 1⟩ idleKernel (fun r member _ => ?_) rfl).mpr
    ⟨by decide, fun r b found => ?_, fun _ _ => by decide⟩
  · rw [List.mem_singleton.mp member]
    exact ⟨fullTable_wellFormed, by decide⟩
  · have first : firstFit 100 [fullTable] = some (fullTable, 1) := rfl
    obtain ⟨rfl, rfl⟩ := Prod.mk.inj (Option.some.inj (first.symm.trans found))
    exact Or.inr (Or.inr ⟨rfl, by decide⟩)

/-- A length whose low 24 bits are zero stops the system. -/
theorem sixteen_megabytes_not_served :
    requestedLength 10 (registerGetmain 0x01000000).frame = some 0 ∧
      ¬ Served [fullTable] 10 0 (getStorage ⟨false, 0, 1⟩ [fullTable] idleKernel 10
        (registerGetmain 0x01000000) 0) := by
  refine ⟨rfl, ?_⟩
  rintro ⟨s', regions', made, _⟩
  exact nomatch made

end SvcStorage
