import UDos.Kernel.FsDrivers
import UDos.Kernel.Reallocate
import UDos.Library.Assignments

/-!
# Nodes in the arrays of drivers

What sequences of `KeAddFsNodeToDriver` leave: the array of every driver has the
nodes that were ever added to it, and a node points to the driver that it was
added to last. Records of drivers and nodes may be anywhere in blocks in use,
also next to each other in one block.
-/

namespace FsOwners

open KernelMemory MmHeap Storage Heap Assignments
open FsDrivers (keAddFsNodeToDriver)

/-- The nodes in the array of a driver. -/
def nodesOf (m : Storage) (driver : Nat) : List Nat :=
  (List.range (word m (driver + 4))).map fun i => word m (word m driver + i * 4)

/-- Every driver has its own nodes in its array, each of them once, and no others. -/
def Matches (drivers nodes : List Nat) (m : Storage) : Prop :=
  ∀ driver ∈ drivers, ∀ node ∈ nodes,
    (nodesOf m driver).count node = if word m (node + 8) = driver then 1 else 0

instance (drivers nodes : List Nat) (m : Storage) : Decidable (Matches drivers nodes m) :=
  inferInstanceAs (Decidable (∀ driver ∈ drivers, ∀ node ∈ nodes, _ = _))

/-- A call with the block that the allocator answers. -/
structure Add where
  driver : Nat
  node : Nat
  answer : Nat

/-- The heap, and which nodes were added to which drivers. -/
structure State where
  heap : Heap
  made : List (Nat × Nat)

def addStep (debug : Bool) (s : State) (add : Add) : Outcome State := do
  let (_, h) ← keAddFsNodeToDriver debug s.heap add.driver add.node add.answer
  .ok ⟨h, s.made ++ [(add.driver, add.node)]⟩

/-- The driver and the node exist, and the array of the driver finds room without
losing its contents. -/
def Supplied (drivers nodes : List Nat) (s : State) (add : Add) : Prop :=
  add.driver ∈ drivers ∧ add.node ∈ nodes ∧
    Keeping s.heap add.answer (word s.heap.storage add.driver)
      ((word s.heap.storage (add.driver + 4) + 1) * 4)

instance (drivers nodes : List Nat) (s : State) (add : Add) :
    Decidable (Supplied drivers nodes s add) := inferInstanceAs (Decidable (_ ∧ _))

/-- Records of drivers and nodes in blocks in use, none of them used yet. -/
structure Unused (drivers nodes : List Nat) (h : Heap) : Prop where
  sane : h.Sane
  driver : ∀ d ∈ drivers, ∃ x ∈ h.live, x.1 ≤ d ∧ d + 56 ≤ x.1 + x.2
  node : ∀ n ∈ nodes, ∃ x ∈ h.live, x.1 ≤ n ∧ n + 24 ≤ x.1 + x.2
  apart : (drivers.map (·, 56) ++ nodes.map (·, 24)).Pairwise Apart
  empty : ∀ d ∈ drivers, word h.storage d = 0 ∧ word h.storage (d + 4) = 0
  unowned : ∀ n ∈ nodes, word h.storage (n + 8) = 0

section
variable {debug : Bool} {drivers nodes : List Nat} {h h0 h' : Heap} {d n old len answer : Nat}

/-- What adding a node to a driver changes: the array of the driver, in a fresh
block, and the driver of the node. -/
structure Added (h h' : Heap) (d n old len answer : Nat) : Prop where
  fresh : h.Fresh (answer, (len + 1) * 4)
  sane : h'.Sane
  live : ∀ x, x ∈ h'.live ↔ x = (answer, (len + 1) * 4) ∨ x ∈ h.live ∧ x.1 ≠ old
  pointer : word h'.storage d = answer
  count : word h'.storage (d + 4) = len + 1
  rows : ∀ i, i < len → word h'.storage (answer + i * 4) = word h.storage (old + i * 4)
  row : word h'.storage (answer + len * 4) = n
  owner : word h'.storage (n + 8) = d
  kept : ∀ a, (∃ x ∈ h.live, x.1 ≤ a ∧ a + 4 ≤ x.1 + x.2) → a + 4 ≤ d ∨ d + 8 ≤ a →
    a + 4 ≤ n + 8 ∨ n + 12 ≤ a → word h'.storage a = word h.storage a

/-- The stores of a call whose array has found room. -/
theorem keAddFsNodeToDriver_eq (debug : Bool) {h1 : Heap} (driver : d ≠ 0) (node : n ≠ 0)
    (returned : growArray h d 4 answer = .ok (answer, h1)) (notNull : answer ≠ 0)
    (pointer : word h1.storage d = answer) (count : word h1.storage (d + 4) = len)
    (room : answer + len * 4 < 4294967296)
    (apart : d + 8 ≤ answer + len * 4 ∨ answer + len * 4 + 4 ≤ d + 4) :
    keAddFsNodeToDriver debug h d n answer =
      .ok (0, ⟨((h1.storage.setWord (answer + len * 4) n).setWord (d + 4) (len + 1)).setWord
        (n + 8) d, h1.live⟩) := by
  have element : u32 (answer + len * 4) = answer + len * 4 := u32_eq_self room
  have counted : word (h1.storage.setWord (answer + len * 4) n) (d + 4) = len :=
    (word_setWord_other _ (by omega)).trans count
  have next : u32 (len + 1) = len + 1 := u32_eq_self (by omega)
  rw [keAddFsNodeToDriver, Outcome.check_of fun _ => ⟨driver, node⟩, returned]
  simp only [Outcome.ok_bind, pointer, count, element, counted, next]
  rw [if_neg notNull]

theorem keAddFsNodeToDriver_adds (debug : Bool) (sane : h.Sane) (pointer : word h.storage d = old)
    (count : word h.storage (d + 4) = len)
    (array : old = 0 ∧ len = 0 ∨ old ≠ 0 ∧ (old, len * 4) ∈ h.live)
    (driver : ∃ x ∈ h.live, x.1 ≤ d ∧ d + 8 ≤ x.1 + x.2)
    (node : ∃ x ∈ h.live, x.1 ≤ n ∧ n + 12 ≤ x.1 + x.2) (apart : n + 12 ≤ d ∨ d + 8 ≤ n + 8)
    (keeping : Keeping h answer old ((len + 1) * 4)) :
    ∃ h', keAddFsNodeToDriver debug h d n answer = .ok (0, h') ∧
      Added h h' d n old len answer := by
  obtain ⟨x, xLive, xlo, xhi⟩ := driver
  obtain ⟨y, yLive, ylo, yhi⟩ := node
  have xProper := sane.proper x xLive
  have yProper := sane.proper y yLive
  simp only [Proper] at xProper yProper
  have block : old = 0 ∨ (old, len * 4) ∈ h.live := array.imp And.left And.right
  obtain ⟨h1, returned, grown, contents⟩ :=
    growArray_keeping sane pointer count block (fun _ => le_rfl) ⟨x, xLive, xlo, by omega⟩ keeping
  have fresh := grown.fresh
  have range := fresh.1
  have xFresh := fresh.2 x xLive
  have yFresh := fresh.2 y yLive
  simp only [Proper] at range
  simp only [Apart] at xFresh yFresh
  have counted : word h1.storage (d + 4) = len := by
    rw [← count]
    exact grown.word_kept xLive (by omega) (by omega) (by omega)
  have done := keAddFsNodeToDriver_eq (n := n) debug (by omega) (by omega) returned (by omega)
    grown.pointer counted (by omega) (by omega)
  set m3 := ((h1.storage.setWord (answer + len * 4) n).setWord (d + 4) (len + 1)).setWord (n + 8) d
  have others : ∀ {a}, a + 4 ≤ answer + len * 4 ∨ answer + len * 4 + 4 ≤ a →
      a + 4 ≤ d + 4 ∨ d + 8 ≤ a → a + 4 ≤ n + 8 ∨ n + 12 ≤ a →
      word m3 a = word h1.storage a := fun {a} row count owner =>
    (word_setWord_other _ (by omega)).trans
      ((word_setWord_other _ (by omega)).trans (word_setWord_other _ row))
  refine ⟨⟨m3, h1.live⟩, done, fresh, grown.sane.write m3, grown.live, ?_, ?_, ?_, ?_, ?_, ?_⟩
  · exact (others (by omega) (by omega) (by omega)).trans grown.pointer
  · exact (word_setWord_other _ (by omega)).trans (word_setWord _ _ (by omega))
  · intro i hi
    have some : old ≠ 0 := by
      rcases array with ⟨-, none⟩ | ⟨some, -⟩
      · omega
      · exact some
    refine (others (by omega) (by omega) (by omega)).trans (word_congr fun j hj => ?_)
    rw [Nat.add_assoc, Nat.add_assoc]
    exact contents some _ (by omega)
  · refine (word_setWord_other _ (by omega)).trans ((word_setWord_other _ (by omega)).trans ?_)
    exact word_setWord _ _ (by omega)
  · exact word_setWord _ _ (by omega)
  · rintro a ⟨z, live, lo, hi⟩ notDriver notNode
    have zFresh := fresh.2 z live
    simp only [Apart] at zFresh
    refine (others (by omega) (by omega) notNode).trans ?_
    exact grown.word_kept live lo hi (by omega)

theorem Unused.drivers_apart (unused : Unused drivers nodes h) {d' : Nat} (hd : d ∈ drivers)
    (hd' : d' ∈ drivers) (differ : d ≠ d') : Apart (d, 56) (d', 56) :=
  (List.pairwise_append.mp unused.apart).1.forall (List.mem_map_of_mem hd)
    (List.mem_map_of_mem hd') fun same => differ (Prod.mk.inj same).1

theorem Unused.nodes_apart (unused : Unused drivers nodes h) {n' : Nat} (hn : n ∈ nodes)
    (hn' : n' ∈ nodes) (differ : n ≠ n') : Apart (n, 24) (n', 24) :=
  (List.pairwise_append.mp unused.apart).2.1.forall (List.mem_map_of_mem hn)
    (List.mem_map_of_mem hn') fun same => differ (Prod.mk.inj same).1

theorem Unused.driver_apart_node (unused : Unused drivers nodes h) (hd : d ∈ drivers)
    (hn : n ∈ nodes) : Apart (d, 56) (n, 24) :=
  (List.pairwise_append.mp unused.apart).2.2 _ (List.mem_map_of_mem hd) _ (List.mem_map_of_mem hn)

/-- The arrays of the drivers have the nodes that were added, each in a block of
its own, and every node has the driver that it was added to last. -/
structure Lists (drivers nodes : List Nat) (h0 : Heap) (s : State) : Prop where
  known : ∀ a ∈ s.made, a.1 ∈ drivers ∧ a.2 ∈ nodes
  sane : s.heap.Sane
  records : ∀ x ∈ h0.live, x ∈ s.heap.live
  array : ∀ d ∈ drivers, word s.heap.storage d = 0 ∧ word s.heap.storage (d + 4) = 0 ∨
    word s.heap.storage d ≠ 0 ∧
      (word s.heap.storage d, word s.heap.storage (d + 4) * 4) ∈ s.heap.live ∧
      word s.heap.storage d ∉ h0.live.map Prod.fst
  single : ∀ d ∈ drivers, ∀ d' ∈ drivers, word s.heap.storage d ≠ 0 →
    word s.heap.storage d = word s.heap.storage d' → d = d'
  entries : ∀ d ∈ drivers, nodesOf s.heap.storage d = listed s.made d
  points : ∀ n ∈ nodes, word s.heap.storage (n + 8) = (owner s.made n).getD 0

theorem Unused.lists (unused : Unused drivers nodes h) : Lists drivers nodes h ⟨h, []⟩ := by
  refine ⟨fun a none => absurd none List.not_mem_nil, unused.sane, fun x live => live, fun d hd => Or.inl (unused.empty d hd),
    fun d hd d' _ some => absurd (unused.empty d hd).1 some, fun d hd => ?_,
    fun n hn => unused.unowned n hn⟩
  rw [nodesOf, (unused.empty d hd).2]
  rfl

theorem Lists.array_apart {s : State} (lists : Lists drivers nodes h0 s) (hd : d ∈ drivers)
    (some : word s.heap.storage d ≠ 0) {x : Nat × Nat} (start : x ∈ h0.live) :
    Apart (word s.heap.storage d, word s.heap.storage (d + 4) * 4) x := by
  obtain ⟨-, live, apart⟩ := (lists.array d hd).resolve_left fun none => some none.1
  refine lists.sane.apart_of_start live (lists.records x start) fun same => apart ?_
  exact List.mem_map.mpr ⟨x, start, same.symm⟩

theorem Added.nodesOf_eq
    (added : Added h h' d n (word h.storage d) (word h.storage (d + 4)) answer) :
    nodesOf h'.storage d = nodesOf h.storage d ++ [n] := by
  rw [nodesOf, nodesOf, added.pointer, added.count, List.range_succ, List.map_append,
    List.map_singleton, added.row]
  refine congrArg (· ++ [n]) (List.map_congr_left fun i hi => ?_)
  exact added.rows i (List.mem_range.mp hi)

section
variable {s : State} (unused : Unused drivers nodes h0) (lists : Lists drivers nodes h0 s)
variable (hd : d ∈ drivers)
  (added : Added s.heap h' d n (word s.heap.storage d) (word s.heap.storage (d + 4)) answer)
include unused lists hd added

theorem Lists.record_stays {x : Nat × Nat} (start : x ∈ h0.live) : x ∈ h'.live := by
  refine (added.live x).mpr (Or.inr ⟨lists.records x start, fun same => ?_⟩)
  rcases lists.array d hd with ⟨none, -⟩ | ⟨-, -, apart⟩
  · have proper := (unused.sane.proper x start).1
    omega
  · exact apart (List.mem_map.mpr ⟨x, start, same⟩)

variable (hn : n ∈ nodes)
include hn

theorem Lists.record_kept {d' o : Nat} (hd' : d' ∈ drivers) (differ : d' ≠ d) (ho : o + 4 ≤ 56) :
    word h'.storage (d' + o) = word s.heap.storage (d' + o) := by
  obtain ⟨x, start, lo, hi⟩ := unused.driver d' hd'
  have other := unused.drivers_apart hd' hd differ
  have node := unused.driver_apart_node hd' hn
  simp only [Apart] at other node
  exact added.kept _ ⟨x, lists.records x start, by omega, by omega⟩ (by omega) (by omega)

theorem Lists.pointer_kept {d' : Nat} (hd' : d' ∈ drivers) (differ : d' ≠ d) :
    word h'.storage d' = word s.heap.storage d' :=
  lists.record_kept unused hd added hn (o := 0) hd' differ (by decide)

/-- And so are their arrays. -/
theorem Lists.nodesOf_kept {d' : Nat} (hd' : d' ∈ drivers) (differ : d' ≠ d) :
    nodesOf h'.storage d' = nodesOf s.heap.storage d' := by
  have pointer := lists.pointer_kept unused hd added hn hd' differ
  have count := lists.record_kept unused hd added hn (o := 4) hd' differ (by decide)
  rw [nodesOf, nodesOf, pointer, count]
  refine List.map_congr_left fun i hi => ?_
  have inside := List.mem_range.mp hi
  have some : word s.heap.storage d' ≠ 0 := by
    rcases lists.array d' hd' with ⟨-, none⟩ | ⟨some, -⟩
    · omega
    · exact some
  have live := ((lists.array d' hd').resolve_left fun none => some none.1).2.1
  obtain ⟨x, xStart, xlo, xhi⟩ := unused.driver d hd
  obtain ⟨y, yStart, ylo, yhi⟩ := unused.node n hn
  have driver := lists.array_apart hd' some xStart
  have node := lists.array_apart hd' some yStart
  simp only [Apart] at driver node
  exact added.kept _ ⟨_, live, by omega, by simp only; omega⟩ (by omega) (by omega)

theorem Lists.node_kept {n' : Nat} (hn' : n' ∈ nodes) (differ : n' ≠ n) :
    word h'.storage (n' + 8) = word s.heap.storage (n' + 8) := by
  obtain ⟨y, start, lo, hi⟩ := unused.node n' hn'
  have other := unused.nodes_apart hn' hn differ
  have driver := unused.driver_apart_node hd hn'
  simp only [Apart] at other driver
  exact added.kept _ ⟨y, lists.records y start, by omega, by omega⟩ (by omega) (by omega)

/-- Every array is a block of its own. -/
theorem Lists.array_added {d' : Nat} (hd' : d' ∈ drivers) :
    word h'.storage d' = 0 ∧ word h'.storage (d' + 4) = 0 ∨
      word h'.storage d' ≠ 0 ∧ (word h'.storage d', word h'.storage (d' + 4) * 4) ∈ h'.live ∧
        word h'.storage d' ∉ h0.live.map Prod.fst := by
  by_cases here : d' = d
  · subst here
    rw [added.pointer, added.count]
    have notNull := added.fresh.1.1
    refine Or.inr ⟨Nat.ne_of_gt notNull, (added.live _).mpr (Or.inl rfl), fun starts => ?_⟩
    obtain ⟨x, start, same⟩ := List.mem_map.mp starts
    exact added.fresh.start_ne (lists.records x start) lists.sane same
  · rw [lists.pointer_kept unused hd added hn hd' here,
      lists.record_kept unused hd added hn hd' here (by decide)]
    refine (lists.array d' hd').imp_right fun held => ⟨held.1, ?_, held.2.2⟩
    refine (added.live _).mpr (Or.inr ⟨held.2.1, fun same => here ?_⟩)
    exact lists.single d' hd' d hd held.1 same

/-- And of its driver alone. -/
theorem Lists.single_added {d1 d2 : Nat} (hd1 : d1 ∈ drivers) (hd2 : d2 ∈ drivers)
    (some : word h'.storage d1 ≠ 0) (same : word h'.storage d1 = word h'.storage d2) :
    d1 = d2 := by
  have newBlock : ∀ {d'}, d' ∈ drivers → word s.heap.storage d' ≠ answer := by
    intro d' hd' held
    have notNull := added.fresh.1.1
    rcases lists.array d' hd' with ⟨none, -⟩ | ⟨-, live, -⟩
    · simp only at notNull
      omega
    · exact added.fresh.start_ne live lists.sane held
  by_cases first : d1 = d
  · by_cases second : d2 = d
    · rw [first, second]
    · rw [first, added.pointer, lists.pointer_kept unused hd added hn hd2 second] at same
      exact absurd same.symm (newBlock hd2)
  · rw [lists.pointer_kept unused hd added hn hd1 first] at some same
    by_cases second : d2 = d
    · rw [second, added.pointer] at same
      exact absurd same (newBlock hd1)
    · rw [lists.pointer_kept unused hd added hn hd2 second] at same
      exact lists.single d1 hd1 d2 hd2 some same

/-- Adding a node appends it to the array of its driver and changes no other. -/
theorem Lists.append : Lists drivers nodes h0 ⟨h', s.made ++ [(d, n)]⟩ := by
  refine ⟨fun a member => ?_, added.sane, fun x => lists.record_stays unused hd added,
    fun d' => lists.array_added unused hd added hn,
    fun d1 hd1 d2 hd2 => lists.single_added unused hd added hn hd1 hd2,
    fun d' hd' => ?_, fun n' hn' => ?_⟩
  · rcases List.mem_append.mp member with earlier | last
    · exact lists.known a earlier
    · rw [List.mem_singleton.mp last]
      exact ⟨hd, hn⟩
  · dsimp only
    rw [listed_append, ← lists.entries d' hd']
    by_cases here : d = d'
    · subst here
      rw [if_pos rfl, added.nodesOf_eq]
    · rw [if_neg here, List.append_nil, lists.nodesOf_kept unused hd added hn hd' (Ne.symm here)]
  · dsimp only
    rw [owner_append]
    by_cases here : n = n'
    · subst here
      rw [if_pos rfl, added.owner]
      rfl
    · rw [if_neg here, lists.node_kept unused hd added hn hn' (Ne.symm here), lists.points n' hn']

end

theorem Lists.step (debug : Bool) (unused : Unused drivers nodes h0) {s : State} {add : Add}
    (lists : Lists drivers nodes h0 s) (supplied : Supplied drivers nodes s add) :
    ∃ t, addStep debug s add = .ok t ∧ Lists drivers nodes h0 t := by
  obtain ⟨d, n, answer⟩ := add
  obtain ⟨hd, hn, keeping⟩ := supplied
  obtain ⟨x, xStart, xlo, xhi⟩ := unused.driver d hd
  obtain ⟨y, yStart, ylo, yhi⟩ := unused.node n hn
  have apart := unused.driver_apart_node hd hn
  simp only [Apart] at apart
  obtain ⟨h', returned, added⟩ := keAddFsNodeToDriver_adds debug lists.sane rfl rfl
    ((lists.array d hd).imp_right fun held => ⟨held.1, held.2.1⟩)
    ⟨x, lists.records x xStart, xlo, by omega⟩ ⟨y, lists.records y yStart, ylo, by omega⟩
    (by omega) keeping
  refine ⟨⟨h', s.made ++ [(d, n)]⟩, ?_, lists.append unused hd added hn⟩
  rw [addStep, returned]
  rfl

/-- The arrays match the nodes exactly when what was added agrees. -/
theorem Lists.matches_iff {s : State} (unused : Unused drivers nodes h0)
    (lists : Lists drivers nodes h0 s) :
    Matches drivers nodes s.heap.storage ↔ Agree s.made := by
  have owned : ∀ {d n}, d ∈ drivers → n ∈ nodes →
      (word s.heap.storage (n + 8) = d ↔ owner s.made n = some d) := by
    intro d n hd hn
    obtain ⟨x, start, lo, hi⟩ := unused.driver d hd
    have proper := (unused.sane.proper x start).1
    rw [lists.points n hn]
    cases owner s.made n with
    | none =>
      rw [Option.getD_none]
      exact iff_of_false (by omega) (by simp)
    | some d' => simp
  constructor
  · intro agree d n
    by_cases known : d ∈ drivers ∧ n ∈ nodes
    · rw [← lists.entries d known.1, agree d known.1 n known.2]
      simp only [owned known.1 known.2]
    · have never : (d, n) ∉ s.made := fun member => known (lists.known _ member)
      rw [if_neg fun owned => never (owner_mem owned)]
      exact List.count_eq_zero.mpr fun member => never (mem_listed.mp member)
  · intro agree d hd n hn
    rw [lists.entries d hd, agree d n]
    simp only [owned hd hn]

theorem addStep_records {s t : State} {add : Add} (ran : addStep debug s add = .ok t) :
    t.made = s.made ++ [(add.driver, add.node)] := by
  obtain ⟨r, -, done⟩ := Outcome.bind_eq_ok.mp ran
  exact (congrArg State.made (Outcome.ok.inj done)).symm

end

/-- When every array finds room and keeps its contents, a sequence of calls returns,
and the arrays of the drivers match the drivers of the nodes after it if and only
if no node was added twice, to one driver or to two. -/
theorem lists_match_iff (debug : Bool) (drivers nodes : List Nat) (h : Heap)
    (unused : Unused drivers nodes h) (adds : List Add)
    (supplied : Runs.Meets (addStep debug) (Supplied drivers nodes) ⟨h, []⟩ adds) :
    ∃ t, Runs.run (addStep debug) ⟨h, []⟩ adds = .ok t ∧
      (Matches drivers nodes t.heap.storage ↔ (adds.map Add.node).Nodup) := by
  obtain ⟨t, ran, lists⟩ := Runs.run_returns
    (fun s add lists given => Lists.step debug unused lists given) unused.lists supplied
  have made : t.made = [] ++ adds.map fun add => (add.driver, add.node) :=
    Runs.run_records (fun s add t ran => addStep_records ran) ran
  refine ⟨t, ran, ?_⟩
  rw [lists.matches_iff unused, agree_iff_nodup, made, List.nil_append, List.map_map]
  rfl

/-- Two drivers in one block, and two nodes. -/
def twoDrivers : Heap := ⟨fun _ => 0, [(16, 112), (128, 24), (152, 24)]⟩

theorem twoDrivers_unused : Unused [16, 72] [128, 152] twoDrivers :=
  ⟨⟨by decide, by decide⟩, by decide, by decide, by decide, by decide, by decide⟩

theorem twoDrivers_match :
    ∃ t, Runs.run (addStep true) ⟨twoDrivers, []⟩ [⟨16, 128, 512⟩, ⟨16, 152, 256⟩] = .ok t ∧
      (Matches [16, 72] [128, 152] t.heap.storage ↔
        ([⟨16, 128, 512⟩, ⟨16, 152, 256⟩].map Add.node).Nodup) :=
  lists_match_iff true [16, 72] [128, 152] twoDrivers twoDrivers_unused _ (by decide)

/-- A node that is added again is twice in the array of the driver, and one that
is added to another driver stays in that of the first. -/
theorem node_added_twice :
    (∃ t, Runs.run (addStep true) ⟨twoDrivers, []⟩ [⟨16, 128, 512⟩, ⟨16, 128, 256⟩] = .ok t ∧
      nodesOf t.heap.storage 16 = [128, 128]) ∧
    ∃ t, Runs.run (addStep true) ⟨twoDrivers, []⟩ [⟨16, 128, 512⟩, ⟨72, 128, 256⟩] = .ok t ∧
      nodesOf t.heap.storage 16 = [128] ∧ word t.heap.storage (128 + 8) = 72 :=
  ⟨Outcome.Sound.returned (by decide) (by decide),
    Outcome.Sound.returned (by decide) (by decide)⟩

end FsOwners
