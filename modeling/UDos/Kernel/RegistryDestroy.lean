import UDos.Kernel.PmmRuns
import UDos.Kernel.Registry
import UDos.Kernel.RegistryPath
import UDos.Library.FirstMatch

/-!
# Destroying registry groups and keys

`KeDestroyRegistryGroup` and `KeDestroyRegistryKey` of `registry.c`, on storage
and the regions of the allocator. Groups and keys live by value in the arrays
of their parent, and the functions return the name and the record itself to
the allocator. The allocator keeps its descriptors apart from the records, so
the arrays and counts of the parent stay as they are.
-/

namespace RegistryDestroy

open KernelMemory Registry Storage Arena
open Pmm (Env PmmRegion regionPublic mmFreePhysical usedBlocks)

structure Memory where
  storage : Storage
  regions : List PmmRegion

def mmFree (env : Env) (s : Memory) (ptr : Nat) : Outcome Memory :=
  if ptr = 0 then .ok s
  else do
    let regions ← mmFreePhysical env s.regions ptr
    .ok { s with regions := regions }

/-- The body shared by the two functions. The name stands first in both records. -/
def destroyRecord (env : Env) (s : Memory) (record : Nat) : Outcome Memory := do
  let s ← mmFree env s (word s.storage record)
  mmFree env s record

def keDestroyRegistryGroup (env : Env) (s : Memory) (group : Nat) : Outcome Memory :=
  destroyRecord env s group

def keDestroyRegistryKey (env : Env) (s : Memory) (key : Nat) : Outcome Memory :=
  destroyRecord env s key

def destroy (env : Env) (s : Memory) : Kind → Nat → Outcome Memory
  | .group, group => keDestroyRegistryGroup env s group
  | .key, key => keDestroyRegistryKey env s key

/-- The body shared by the two lookups: the first record of the array described
at the field whose name compares as equal. -/
def findRecord (m : Storage) (field : Nat) (name : CString) : Option Nat :=
  ((List.range (word m (field + 4))).map fun i => u32 (word m field + i * 20)).find? fun record =>
    keCompareString (text m 4294967296 (word m record)) name.chars = 0

def keFindRegistryGroupInGroup (debug : Bool) (m : Storage) (root : Nat) (name : CString) :
    Outcome (Option Nat) := do
  Outcome.check (debug = true → root ≠ 0) "Assertion root != NULL && name != NULL failed!\r\n"
  Outcome.check (name.chars.length < 16) "Length exceeds max registry key"
  .ok (findRecord m (root + 4) name)

def keFindRegistryKeyInGroup (debug : Bool) (m : Storage) (root : Nat) (name : CString) :
    Outcome (Option Nat) := do
  Outcome.check (debug = true → root ≠ 0) "Assertion root != NULL && name != NULL failed!\r\n"
  Outcome.check (name.chars.length < 16) "Length exceeds max registry name"
  .ok (findRecord m (root + 12) name)

def find (debug : Bool) (m : Storage) : Kind → Nat → CString → Outcome (Option Nat)
  | .group, root, name => keFindRegistryGroupInGroup debug m root name
  | .key, root, name => keFindRegistryKeyInGroup debug m root name

/-- Looking up the names one after the other leads from a group to a group. -/
def Leads (debug : Bool) (m : Storage) : Nat → List CString → Nat → Prop
  | group, [], last => group = last
  | group, name :: names, last => ∃ subgroup,
      keFindRegistryGroupInGroup debug m group name = .ok (some subgroup) ∧
        Leads debug m subgroup names last

/-- What is found by a path: groups by their names, and at its end a group or key. -/
def Finds (debug : Bool) (m : Storage) (root : Nat) (path : List CString) (kind : Kind)
    (name : CString) (record : Nat) : Prop :=
  ∃ group, Leads debug m root path group ∧ find debug m kind group name = .ok (some record)

/-- The bytes belong to a block in use. -/
def InUse (regions : List PmmRegion) (a n : Nat) : Prop :=
  ∃ r ∈ regions, r.flags = regionPublic ∧
    ∃ x ∈ usedBlocks r, x.2.1 ≤ a ∧ a + n ≤ x.2.1 + x.2.2

instance (regions : List PmmRegion) (a n : Nat) : Decidable (InUse regions a n) :=
  inferInstanceAs (Decidable (∃ r ∈ regions, _))

/-- A name is in use up to its terminator. -/
def NameInUse (s : Memory) (record : Nat) : Prop :=
  InUse s.regions (word s.storage record)
    ((text s.storage 4294967296 (word s.storage record)).length + 1)

/-- The array described at the field, if it has records, and all their names
are in use. -/
def ArrayInUse (s : Memory) (field : Nat) : Prop :=
  let n := word s.storage (field + 4)
  (n ≠ 0 → InUse s.regions (word s.storage field) (n * 20)) ∧
    ∀ i < n, NameInUse s (word s.storage field + i * 20)

/-- The record found in the parent is removed, and nothing else: the parent no
longer finds the name, what is found by a path that does not lead through the
record still is, in storage in use, and so are the arrays of all groups found. -/
structure RemovesJust (debug : Bool) (root parent : Nat) (kind : Kind) (name : CString)
    (record : Nat) (before after : Memory) : Prop where
  gone : find debug after.storage kind parent name = .ok none
  others : ∀ path kind' name' other,
    (∀ front, front <+: path → ¬ Leads debug before.storage root front record) →
    Finds debug before.storage root path kind' name' other → other ≠ record →
    ∃ still, Finds debug after.storage root path kind' name' still ∧
      InUse after.regions still 20 ∧ NameInUse after still
  tables : ∀ path group, Leads debug after.storage root path group →
    ArrayInUse after (group + 4) ∧ ArrayInUse after (group + 12)

section
variable {debug : Bool} {env : Env} {s t : Memory} {root parent record : Nat} {kind : Kind}
  {name : CString}

theorem mmFree_storage {ptr : Nat} (freed : mmFree env s ptr = .ok t) : t.storage = s.storage := by
  rw [mmFree] at freed
  by_cases null : ptr = 0
  · rw [if_pos null] at freed
    cases freed
    rfl
  · rw [if_neg null] at freed
    obtain ⟨regions, -, same⟩ := Outcome.bind_eq_ok.mp freed
    cases same
    rfl

theorem destroy_storage {handle : Nat} (destroyed : destroy env s kind handle = .ok t) :
    t.storage = s.storage := by
  have body : destroyRecord env s handle = .ok t := by
    cases kind with
    | group => exact destroyed
    | key => exact destroyed
  obtain ⟨named, freedName, freed⟩ := Outcome.bind_eq_ok.mp body
  exact (mmFree_storage freed).trans (mmFree_storage freedName)

theorem destroy_leaves {handle : Nat}
    (found : find debug s.storage kind parent name = .ok (some record))
    (destroyed : destroy env s kind handle = .ok t) :
    ¬ RemovesJust debug root parent kind name record s t := by
  intro removes
  have gone := removes.gone
  rw [destroy_storage destroyed, found] at gone
  cases gone

/-- A name that its parent finds is not removed by destroying it, for any
handle and any state of the allocator. -/
theorem destroy_removes_never
    (found : find debug s.storage kind parent name = .ok (some record)) (handle : Nat) :
    ¬ ∃ t, destroy env s kind handle = .ok t ∧
      RemovesJust debug root parent kind name record s t := by
  rintro ⟨t, destroyed, removes⟩
  exact destroy_leaves found destroyed removes

end

/-- A region of 2048 bytes at 4096 in which the blocks for two groups, their
names and an array of one group were allocated. -/
def fiveBlocks : Pmm.State :=
  let calls := [20, 5, 20, 2, 20].map (Pmm.Call.allocate Pmm.quiet)
  match Runs.run Pmm.step Pmm.smallTable calls with
  | .ok s => s
  | _ => Pmm.smallTable

/-- The root group with one group, "A", in these blocks. -/
def oneGroup : Memory :=
  match keCreateRegistryGroup false unused ⟨6124, 6119, 0⟩ 0 hkey with
  | .ok (root, h) =>
    match keCreateRegistryGroup false h ⟨6099, 6097, 6077⟩ root nameA with
    | .ok (_, h) => ⟨h.storage, fiveBlocks.regions⟩
    | _ => ⟨h.storage, []⟩
  | _ => ⟨unused.storage, []⟩

example : fiveBlocks.live = [(6077, 20), (6097, 2), (6099, 20), (6119, 5), (6124, 20)] := by
  decide

theorem destroy_removes_never_oneGroup :
    find false oneGroup.storage .group 6124 nameA = .ok (some 6077) ∧
      ¬ ∃ t, destroy Pmm.quiet oneGroup .group 6077 = .ok t ∧
        RemovesJust false 6124 6124 .group nameA 6077 oneGroup t :=
  ⟨by decide, destroy_removes_never (by decide) 6077⟩

/-- The group is found as before, in an array that is not in use any more, and
its name is still in use. -/
theorem oneGroup_array_released :
    ∃ t, destroy Pmm.quiet oneGroup .group 6077 = .ok t ∧
      find false t.storage .group 6124 nameA = .ok (some 6077) ∧
      ¬ InUse t.regions 6077 20 ∧ InUse t.regions 6097 2 ∧
      ¬ RemovesJust false 6124 6124 .group nameA 6077 oneGroup t := by
  have destroyed : (destroy Pmm.quiet oneGroup .group 6077).returns = true := by decide
  obtain ⟨t, ran⟩ := Outcome.returns_iff.mp destroyed
  have found : find false oneGroup.storage .group 6124 nameA = .ok (some 6077) := by decide
  have released : Outcome.Sound (fun t => ¬ InUse t.regions 6077 20 ∧ InUse t.regions 6097 2)
      (destroy Pmm.quiet oneGroup .group 6077) := by decide
  rw [ran] at released
  refine ⟨t, ran, ?_, released.1, released.2, destroy_leaves found ran⟩
  rw [destroy_storage ran, found]

/-- The records of the array described at the field have these names. -/
def NamedAt (m : Storage) (field : Nat) (names : List (List UInt8)) : Prop :=
  (List.range (word m (field + 4))).map
    (fun i => text m 4294967296 (word m (u32 (word m field + i * 20)))) = names

section
variable {m : Storage} {root field : Nat} {names : List (List UInt8)}

/-- The lookup on storage finds the record of the first name that compares as equal. -/
theorem findRecord_eq (named : NamedAt m field names) (name : CString) :
    findRecord m field name =
      (names.findIdx? fun c => keCompareString c name.chars = 0).map
        fun i => u32 (word m field + i * 20) := by
  rw [findRecord, List.find?_map, ← named, List.findIdx?_map, FirstMatch.findIdx?_range]
  rfl

/-- Where the names of a group and of its keys are in storage, the lookups on
storage find the records of what the lookups in the tree find. -/
theorem lookups_named (debug : Bool) {group : RegistryPath.RegistryGroup} (notNull : root ≠ 0)
    (groups : NamedAt m (root + 4) (group.groups.map fun subgroup => subgroup.name.chars))
    (keys : NamedAt m (root + 12) (group.keys.map fun key => key.name.chars)) (name : CString) :
    keFindRegistryGroupInGroup debug m root name = (do
        let i ← RegistryPath.keFindRegistryGroupInGroup group name.chars
        .ok (i.map fun i => u32 (word m (root + 4) + i * 20))) ∧
      keFindRegistryKeyInGroup debug m root name = (do
        let i ← RegistryPath.keFindRegistryKeyInGroup group name.chars
        .ok (i.map fun i => u32 (word m (root + 12) + i * 20))) := by
  have checked : ∀ (message : String) (x : Option Nat) (f : Option Nat → Option Nat),
      (Outcome.check (name.chars.length < 16) message >>= fun _ => .ok (f x)) =
        (Outcome.check (name.chars.length < 16) message >>= fun _ => .ok x) >>=
          fun x => .ok (f x) := by
    intro message x f
    rw [Outcome.check]
    split <;> rfl
  constructor
  · rw [keFindRegistryGroupInGroup, Outcome.check_of (fun _ => notNull), Outcome.ok_bind,
      findRecord_eq groups, List.findIdx?_map]
    exact checked _ _ _
  · rw [keFindRegistryKeyInGroup, Outcome.check_of (fun _ => notNull), Outcome.ok_bind,
      findRecord_eq keys, List.findIdx?_map]
    exact checked _ _ _

end

section
variable {debug : Bool} {root : Nat} {s : State} {base : Option Nat × Kind → Nat}

/-- The names in an array are those of what was created in its group. -/
theorem created_namedAt (holds : Holds root s base) {p : Option Nat} {k : Kind} {off : Nat}
    (known : kindOf .group (logOf s.made) p = some .group)
    (described : layout.field .group k = some off) :
    NamedAt s.heap.storage (place layout root (logOf s.made) base p + off)
      ((children (logOf s.made) p k).map fun i => nameOf s.made (some i)) := by
  rw [NamedAt, holds.laid.pointer known described, holds.laid.count known described]
  have each : ∀ i, (logOf s.made)[i]? = some (p, k) →
      text s.heap.storage 4294967296
          (word s.heap.storage (u32 (place layout root (logOf s.made) base (some i)))) =
        nameOf s.made (some i) := by
    intro i here
    have named : kindOf .group (logOf s.made) (some i) = some k := by rw [kindOf, here]; rfl
    obtain ⟨n, block, lo, hi⟩ := holds.laid.in_block named
    have low := (holds.laid.sane.proper _ block).2.2
    simp only at low
    have pointer : u32 (place layout root (logOf s.made) base (some i)) =
        place layout root (logOf s.made) base (some i) := u32_eq_self (by omega)
    have short := nameOf_short holds (some i)
    rw [pointer]
    exact Storage.text_eq (holds.named _ _ named).chars short.2 (Nat.lt_trans short.1 (by decide))
  have names :=
    map_children (fun a => text s.heap.storage 4294967296 (word s.heap.storage (u32 a))) _ each
  exact names

/-- What was created has a group as its parent. -/
theorem parent_known (holds : Holds root s base) {i : Nat} {c : Creation}
    (made : (logOf s.made)[i]? = some (c.parent, c.kind)) :
    kindOf .group (logOf s.made) c.parent = some .group := by
  obtain ⟨k, off, known, field⟩ := holds.laid.parent made
  have group : k = .group := by
    cases k with
    | group => rfl
    | key => cases field
  subst group
  cases parent : c.parent with
  | none => rfl
  | some j =>
    rw [parent] at made known
    obtain ⟨q, here⟩ := kindOf_some known
    rw [List.getElem?_take_of_lt (holds.laid.parent_lt made)] at here
    rw [kindOf, here]
    rfl

/-- A group or key that was created is found in its parent. -/
theorem created_found (debug : Bool) (holds : Holds root s base) {i : Nat} {c : Creation}
    (made : s.made[i]? = some c) : ∃ record,
    find debug s.heap.storage c.kind
      (place layout root (logOf s.made) base c.parent) c.name = .ok (some record) := by
  have inLog : (logOf s.made)[i]? = some (c.parent, c.kind) := by
    rw [logOf, List.getElem?_map, made]
    rfl
  have known := parent_known holds inLog
  have short := holds.short c (List.mem_of_getElem? made)
  have nameHere : nameOf s.made (some i) = c.name.chars := by
    rw [nameOf, made]
    rfl
  have notNull := place_ne_zero holds known
  have inArray : ∀ field, layout.field .group c.kind = some field → ∃ record,
      findRecord s.heap.storage (place layout root (logOf s.made) base c.parent + field) c.name =
        some record := by
    intro field described
    have listed : c.name.chars ∈
        (children (logOf s.made) c.parent c.kind).map fun i => nameOf s.made (some i) :=
      List.mem_map.mpr ⟨i, mem_children.mpr inLog, nameHere⟩
    have same := (keCompareString_eq_zero_iff c.name.noNul c.name.noNul).mpr (looksLike_refl _)
    apply Option.isSome_iff_exists.mp
    rw [findRecord_eq (created_namedAt holds known described), Option.isSome_map,
      List.findIdx?_isSome, List.any_eq_true]
    exact ⟨_, listed, decide_eq_true same⟩
  cases kind : c.kind with
  | group =>
    obtain ⟨record, found⟩ := inArray 4 (by rw [kind]; rfl)
    refine ⟨record, ?_⟩
    rw [find, keFindRegistryGroupInGroup, Outcome.check_of (fun _ => notNull),
      Outcome.check_of short, Outcome.ok_bind, Outcome.ok_bind, found]
  | key =>
    obtain ⟨record, found⟩ := inArray 12 (by rw [kind]; rfl)
    refine ⟨record, ?_⟩
    rw [find, keFindRegistryKeyInGroup, Outcome.check_of (fun _ => notNull),
      Outcome.check_of short, Outcome.ok_bind, Outcome.ok_bind, found]

/-- In every run of creations whose parents are the root or the newest group of
an array, and whose blocks are fresh and below the arrays they replace, every
group or key created is found in some group, and destroying it through any
handle does not remove it from there. -/
theorem created_stays {h h' : Heap} {answers : Answers} (sane : h.Sane)
    (supplied : SuppliedRecord h answers hkey)
    (initialised : keInitRegistry debug h answers = .ok (root, h')) (calls : List Call)
    (clear : Runs.Meets (step debug root) (Clear root) ⟨h', [], []⟩ calls) :
    Outcome.Sound (fun s => ∀ (i : Nat) (c : Creation), s.made[i]? = some c → ∃ parent record,
        find debug s.heap.storage c.kind parent c.name = .ok (some record) ∧
        ∀ env regions handle t, destroy env ⟨s.heap.storage, regions⟩ c.kind handle = .ok t →
          find debug t.storage c.kind parent c.name = .ok (some record))
      (Runs.run (step debug root) ⟨h', [], []⟩ calls) := by
  refine (run_holds sane supplied initialised clear).mono fun s ⟨base, holds⟩ i c made => ?_
  obtain ⟨record, found⟩ := created_found debug holds made
  refine ⟨_, record, found, fun env regions handle t destroyed => ?_⟩
  rw [destroy_storage destroyed, found]

end

end RegistryDestroy
