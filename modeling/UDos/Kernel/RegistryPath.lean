import UDos.Kernel.Memory

/-!
# Resolving registry paths

`KeResolveRegistryPath` of `registry.c` on a tree of groups and keys. A pointer
to a group or a key is the list of indices that lead to it. The path is copied
to a block, and each component to one more, in which no terminator is stored:
what is looked up goes on with what the block held. The scan steps over the
character behind a component without a look at it, and from the end of the path
it goes on behind its terminator. Characters are those of the EBCDIC execution
set, and assertions are compiled out.
-/

namespace RegistryPath

open KernelMemory

/-- Underscore, hyphen and colon. -/
def separators : List UInt8 := [0x6D, 0x60, 0x7A]

def maxRegistryPath : Nat := 255
def maxRegistryName : Nat := 16
def maxRegistryKey : Nat := 16

/-- `struct registry_key`, of which the search reads the name. -/
structure RegistryKey where
  name : CString

structure RegistryGroup where
  name : CString
  groups : List RegistryGroup
  keys : List RegistryKey

/-- The indices of the groups on the way, and that of the key. -/
abbrev Place := List Nat × Nat

/-- What the allocations are answered with: whether there is a block for the
path, the strings in storage behind its terminator, and for each turn of the
loop the string that the block for the component holds from its last byte on,
none for NULL. -/
structure Blocks where
  room : Bool
  behind : Nat → CString
  name : Nat → Option CString

/-- How many turns were made, how many terminators were stepped over, and what
is left of the string that is scanned. -/
structure Cursor where
  turn : Nat
  skipped : Nat
  rest : List UInt8

def Cursor.buf (c : Cursor) : List UInt8 := keBreakCharPtrString c.rest separators

def Cursor.component (c : Cursor) : List UInt8 := c.rest.take (c.rest.length - c.buf.length)

/-- Behind the separator, or behind the terminator. -/
def Cursor.next (blocks : Blocks) (c : Cursor) : Cursor :=
  match c.buf with
  | [] => ⟨c.turn + 1, c.skipped + 1, (blocks.behind c.skipped).chars⟩
  | _ :: rest => ⟨c.turn + 1, c.skipped, rest⟩

def keFindRegistryGroupInGroup (root : RegistryGroup) (name : List UInt8) :
    Outcome (Option Nat) := do
  Outcome.check (name.length < maxRegistryKey) "Length exceeds max registry key"
  .ok (root.groups.findIdx? fun subgroup => keCompareString subgroup.name.chars name = 0)

def keFindRegistryKeyInGroup (root : RegistryGroup) (name : List UInt8) :
    Outcome (Option Nat) := do
  Outcome.check (name.length < maxRegistryName) "Length exceeds max registry name"
  .ok (root.keys.findIdx? fun key => keCompareString key.name.chars name = 0)

mutual

/-- How many groups are below each other at most. -/
def RegistryGroup.depth : RegistryGroup → Nat
  | ⟨_, groups, _⟩ => depths groups + 1

def depths : List RegistryGroup → Nat
  | [] => 0
  | subgroup :: others => max subgroup.depth (depths others)

end

/-- The loop, for at most so many turns. It goes one group down with each turn. -/
def resolveLoop (blocks : Blocks) : Nat → RegistryGroup → Cursor → Outcome (Option Place)
  | 0, _, _ => .diverge
  | turns + 1, group, c => do
    if c.rest = [] then .ok none
    else
      Outcome.check (c.component.length ≠ 0) "Zero-lenght name"
      match blocks.name c.turn with
      | none => .panic "Ouf of memory"
      | some prior => do
        let name := c.component ++ prior.chars
        match ← keFindRegistryGroupInGroup group name with
        | some i =>
          match group.groups[i]? with
          | none => .fault
          | some subgroup => do
            let place ← resolveLoop blocks turns subgroup (c.next blocks)
            .ok (place.map fun p => (i :: p.1, p.2))
        | none =>
          match ← keFindRegistryKeyInGroup group name with
          | none => .panic "Registry %s not found"
          | some j => .ok (some ([], j))

def keResolveRegistryPath (blocks : Blocks) (root : RegistryGroup) (path : CString) :
    Outcome (Option Place) := do
  Outcome.check (path.chars.length < maxRegistryPath) "Length exceeds max registry path\r\n"
  Outcome.check (path.chars.length ≠ 0) "Zero-length registry path\r\n"
  Outcome.check (blocks.room = true) "Out of memory\r\n"
  resolveLoop blocks root.depth root ⟨0, 0, path.chars⟩

/-- A name that a group or a key may have. -/
def Name (s : CString) : Prop :=
  s.chars ≠ [] ∧ s.chars.length < maxRegistryName ∧ ∀ c ∈ s.chars, c ∉ separators

/-- All names below the group may be used. -/
inductive RegistryGroup.Proper : RegistryGroup → Prop where
  | intro {g : RegistryGroup} (keys : ∀ key ∈ g.keys, Name key.name)
      (groups : ∀ subgroup ∈ g.groups, Name subgroup.name)
      (below : ∀ subgroup ∈ g.groups, subgroup.Proper) : g.Proper

/-- The path is the names of the groups that lead to the key, each with a
separator behind it, and the name of the key. -/
def Spells : RegistryGroup → List UInt8 → List Nat → Nat → Prop
  | g, path, [], j => ∃ key, g.keys[j]? = some key ∧ path = key.name.chars
  | g, path, i :: is, j => ∃ subgroup, g.groups[i]? = some subgroup ∧ ∃ c ∈ separators,
      ∃ rest, path = subgroup.name.chars ++ c :: rest ∧ Spells subgroup rest is j

/-- The first subgroup whose name looks like this one. -/
def firstGroup (g : RegistryGroup) (name : List UInt8) : Option Nat :=
  g.groups.findIdx? fun subgroup => LooksLike subgroup.name.chars name

/-- The first key whose name looks like this one. -/
def firstKey (g : RegistryGroup) (name : List UInt8) : Option Nat :=
  g.keys.findIdx? fun key => LooksLike key.name.chars name

/-- On the way to the key every block has a terminator behind the component,
and of all the names that are looked at, the first that looks like the one
meant is that name itself. -/
def Recognized (blocks : Blocks) : RegistryGroup → Nat → List Nat → Nat → Prop
  | g, turn, [], j => (blocks.name turn).map CString.chars = some [] ∧
      ∃ key, g.keys[j]? = some key ∧ firstGroup g key.name.chars = none ∧
        firstKey g key.name.chars = some j
  | g, turn, i :: is, j => (blocks.name turn).map CString.chars = some [] ∧
      ∃ subgroup, g.groups[i]? = some subgroup ∧ firstGroup g subgroup.name.chars = some i ∧
        Recognized blocks subgroup (turn + 1) is j

/-- The name that a turn looks up, none when it stops before. -/
def Cursor.name (blocks : Blocks) (c : Cursor) : Option (List UInt8) :=
  match blocks.name c.turn with
  | none => none
  | some prior =>
    let name := c.component ++ prior.chars
    if c.component ≠ [] ∧ name.length < maxRegistryKey then some name else none

/-- The names that are looked up lead to the key when names are told apart by
what they look like. -/
def Leads (blocks : Blocks) : RegistryGroup → Cursor → List Nat → Nat → Prop
  | g, c, [], j => ∃ name, c.name blocks = some name ∧ firstGroup g name = none ∧
      firstKey g name = some j
  | g, c, i :: is, j => ∃ name, c.name blocks = some name ∧ firstGroup g name = some i ∧
      ∃ subgroup, g.groups[i]? = some subgroup ∧ Leads blocks subgroup (c.next blocks) is j

/-- The names on the way to the key are the components, a separator is behind
each group's, and nothing is behind the key's. -/
def Follows (blocks : Blocks) : RegistryGroup → Cursor → List Nat → Nat → Prop
  | g, c, [], j => c.buf = [] ∧ ∃ key, g.keys[j]? = some key ∧ key.name.chars = c.component
  | g, c, i :: is, j => c.buf ≠ [] ∧ ∃ subgroup, g.groups[i]? = some subgroup ∧
      subgroup.name.chars = c.component ∧ Follows blocks subgroup (c.next blocks) is j

/-- The groups that the search comes to from a group, with the cursor there. -/
inductive Level (blocks : Blocks) (root : RegistryGroup) (start : Cursor) :
    RegistryGroup → Cursor → Prop
  | root : Level blocks root start root start
  | deeper {g subgroup : RegistryGroup} {c : Cursor} {name : List UInt8} {i : Nat}
      (above : Level blocks root start g c) (looked : c.name blocks = some name)
      (first : firstGroup g name = some i) (found : g.groups[i]? = some subgroup) :
      Level blocks root start subgroup (c.next blocks)

/-- At this level the search stops at a key. -/
def KeyAt (blocks : Blocks) (g : RegistryGroup) (c : Cursor) (j : Nat) : Prop :=
  ∃ name, c.name blocks = some name ∧ firstGroup g name = none ∧ firstKey g name = some j

/-- At this level the component is the name of the group that the search goes on in, and a
separator is behind it, or it is that of the key, and nothing is. -/
structure Named (blocks : Blocks) (g : RegistryGroup) (c : Cursor) : Prop where
  group : ∀ name i subgroup, c.name blocks = some name → firstGroup g name = some i →
    g.groups[i]? = some subgroup → c.buf ≠ [] ∧ subgroup.name.chars = c.component
  key : ∀ j key, KeyAt blocks g c j → g.keys[j]? = some key →
    c.buf = [] ∧ key.name.chars = c.component

/-- The path of a key is recognized, and a search that stops at a key has the names of its
components at all of its levels. -/
structure Exact (blocks : Blocks) (root : RegistryGroup) (path : CString) : Prop where
  recognized : ∀ is j, Spells root path.chars is j →
    blocks.room = true ∧ Recognized blocks root 0 is j
  named : blocks.room = true →
    (∃ g c j, Level blocks root ⟨0, 0, path.chars⟩ g c ∧ KeyAt blocks g c j) →
    ∀ g c, Level blocks root ⟨0, 0, path.chars⟩ g c → Named blocks g c

variable {blocks : Blocks} {root g : RegistryGroup} {c : Cursor}

theorem depth_lt {subgroup : RegistryGroup} (member : subgroup ∈ g.groups) :
    subgroup.depth < g.depth := by
  have inList : ∀ {l : List RegistryGroup}, subgroup ∈ l → subgroup.depth ≤ depths l := fun {l} => by
    induction l with
    | nil => exact fun none => absurd none List.not_mem_nil
    | cons other l ih =>
      intro inList
      rw [depths]
      rcases List.mem_cons.mp inList with rfl | later
      · exact Nat.le_max_left _ _
      · exact Nat.le_trans (ih later) (Nat.le_max_right _ _)
  cases g with
  | mk name groups keys =>
    rw [RegistryGroup.depth]
    exact Nat.lt_succ_of_le (inList member)

/-- The component and what is behind it make up the string that is scanned. -/
theorem cursor_split (c : Cursor) : c.rest = c.component ++ c.buf ∧
    (∀ d ∈ c.component, d ∉ separators) ∧ ∀ d ∈ c.buf.head?, d ∈ separators := by
  obtain ⟨front, whole, free, stops⟩ := keBreakCharPtrString_split c.rest separators
  have component : c.component = front := by
    have length : c.rest.length - c.buf.length = front.length := by
      have total := congrArg List.length whole
      rw [List.length_append] at total
      rw [Cursor.buf]
      omega
    rw [Cursor.component, length]
    conv => lhs; rw [whole]
    exact List.take_left
  rw [component]
  exact ⟨whole, free, stops⟩

theorem next_noNul (noNul : 0 ∉ c.rest) : 0 ∉ (c.next blocks).rest := by
  have whole := (cursor_split c).1
  rw [Cursor.next]
  cases found : c.buf with
  | nil => exact (blocks.behind c.skipped).noNul
  | cons d rest =>
    intro member
    apply noNul
    rw [whole, found]
    exact List.mem_append_right _ (List.mem_cons_of_mem d member)

theorem findGroup_eq {name : List UInt8} (noNul : 0 ∉ name) (short : name.length < maxRegistryKey) :
    keFindRegistryGroupInGroup g name = .ok (firstGroup g name) := by
  rw [keFindRegistryGroupInGroup, Outcome.check_of short, Outcome.ok_bind, firstGroup]
  congr 3
  funext subgroup
  exact decide_eq_decide.mpr (keCompareString_eq_zero_iff subgroup.name.noNul noNul)

theorem findKey_eq {name : List UInt8} (noNul : 0 ∉ name) (short : name.length < maxRegistryName) :
    keFindRegistryKeyInGroup g name = .ok (firstKey g name) := by
  rw [keFindRegistryKeyInGroup, Outcome.check_of short, Outcome.ok_bind, firstKey]
  congr 3
  funext key
  exact decide_eq_decide.mpr (keCompareString_eq_zero_iff key.name.noNul noNul)

/-- A turn that looks up a name goes on in the first subgroup that looks like
it, or stops at a key. -/
theorem resolveLoop_of_name {turns : Nat} {name : List UInt8} (noNul : 0 ∉ c.rest)
    (looked : c.name blocks = some name) :
    resolveLoop blocks (turns + 1) g c =
      match firstGroup g name with
      | some i =>
        match g.groups[i]? with
        | none => .fault
        | some subgroup => do
          let place ← resolveLoop blocks turns subgroup (c.next blocks)
          .ok (place.map fun p => (i :: p.1, p.2))
      | none =>
        match firstKey g name with
        | none => .panic "Registry %s not found"
        | some j => .ok (some ([], j)) := by
  have whole := (cursor_split c).1
  rw [Cursor.name] at looked
  cases answer : blocks.name c.turn with
  | none =>
    rw [answer] at looked
    cases looked
  | some prior =>
    simp only [answer] at looked
    by_cases usable : c.component ≠ [] ∧ (c.component ++ prior.chars).length < maxRegistryKey
    · rw [if_pos usable] at looked
      obtain rfl := Option.some.inj looked
      have more : c.rest ≠ [] := fun atEnd => by
        rw [whole] at atEnd
        exact usable.1 (List.append_eq_nil_iff.mp atEnd).1
      have long : c.component.length ≠ 0 := fun zero => usable.1 (List.length_eq_zero_iff.mp zero)
      have plain : 0 ∉ c.component ++ prior.chars := fun member => by
        rcases List.mem_append.mp member with inside | behind
        · exact noNul (whole ▸ List.mem_append_left _ inside)
        · exact prior.noNul behind
      rw [resolveLoop, if_neg more, Outcome.check_of long, Outcome.ok_bind]
      simp only [answer, findGroup_eq plain usable.2, findKey_eq plain usable.2, Outcome.ok_bind]
    · rw [if_neg usable] at looked
      cases looked

/-- A turn that looks up no name finds no key. -/
theorem resolveLoop_of_none {turns : Nat} (looked : c.name blocks = none) (place : Place) :
    resolveLoop blocks (turns + 1) g c ≠ .ok (some place) := by
  intro resolved
  rw [resolveLoop] at resolved
  by_cases atEnd : c.rest = []
  · rw [if_pos atEnd] at resolved
    cases resolved
  · rw [if_neg atEnd] at resolved
    obtain ⟨_, nonempty, resolved⟩ := Outcome.bind_eq_ok.mp resolved
    rw [Outcome.check_eq_ok] at nonempty
    rw [Cursor.name] at looked
    cases answer : blocks.name c.turn with
    | none =>
      simp only [answer] at resolved
      cases resolved
    | some prior =>
      simp only [answer] at looked resolved
      obtain ⟨_, found, -⟩ := Outcome.bind_eq_ok.mp resolved
      rw [keFindRegistryGroupInGroup] at found
      obtain ⟨_, short, -⟩ := Outcome.bind_eq_ok.mp found
      rw [Outcome.check_eq_ok] at short
      have usable : c.component ≠ [] ∧ (c.component ++ prior.chars).length < maxRegistryKey :=
        ⟨fun none => nonempty (congrArg List.length none), short⟩
      rw [if_pos usable] at looked
      cases looked

theorem depth_pos (g : RegistryGroup) : 0 < g.depth := by
  cases g
  rw [RegistryGroup.depth]
  exact Nat.succ_pos _

/-- A turn stops at the first key that looks like its name, when no subgroup does. -/
theorem resolveLoop_stops_iff {turns j : Nat} (noNul : 0 ∉ c.rest) :
    resolveLoop blocks (turns + 1) g c = .ok (some ([], j)) ↔ Leads blocks g c [] j := by
  rw [Leads]
  cases looked : c.name blocks with
  | none =>
    refine ⟨fun resolved => absurd resolved (resolveLoop_of_none looked _), ?_⟩
    rintro ⟨_, isNone, -⟩
    cases isNone
  | some name =>
    simp only [resolveLoop_of_name noNul looked, Option.some.injEq, exists_eq_left']
    cases inGroups : firstGroup g name with
    | some i =>
      simp only [reduceCtorEq, false_and, iff_false]
      intro resolved
      cases subgroup : g.groups[i]? with
      | none =>
        simp only [subgroup] at resolved
        cases resolved
      | some s =>
        simp only [subgroup] at resolved
        obtain ⟨place, -, same⟩ := Outcome.bind_eq_ok.mp resolved
        cases place <;> cases same
    | none =>
      simp only [true_and]
      cases firstKey g name with
      | none => simp
      | some k => simp

/-- A turn goes on in the first subgroup that looks like its name. -/
theorem resolveLoop_enters_iff {turns i : Nat} {is : List Nat} {j : Nat} (noNul : 0 ∉ c.rest) :
    resolveLoop blocks (turns + 1) g c = .ok (some (i :: is, j)) ↔
      ∃ name, c.name blocks = some name ∧ firstGroup g name = some i ∧
        ∃ subgroup, g.groups[i]? = some subgroup ∧
          resolveLoop blocks turns subgroup (c.next blocks) = .ok (some (is, j)) := by
  cases looked : c.name blocks with
  | none =>
    refine ⟨fun resolved => absurd resolved (resolveLoop_of_none looked _), ?_⟩
    rintro ⟨_, isNone, -⟩
    cases isNone
  | some name =>
    simp only [resolveLoop_of_name noNul looked, Option.some.injEq, exists_eq_left']
    cases inGroups : firstGroup g name with
    | none =>
      simp only [reduceCtorEq, false_and, iff_false]
      cases firstKey g name with
      | none => simp
      | some k => simp
    | some k =>
      simp only [Option.some.injEq]
      constructor
      · intro resolved
        cases found : g.groups[k]? with
        | none =>
          simp only [found] at resolved
          cases resolved
        | some subgroup =>
          simp only [found] at resolved
          obtain ⟨place, inner, same⟩ := Outcome.bind_eq_ok.mp resolved
          cases place with
          | none => cases same
          | some place =>
            cases same
            exact ⟨rfl, subgroup, found, inner⟩
      · rintro ⟨rfl, subgroup, found, inner⟩
        simp only [found, inner, Outcome.ok_bind, Option.map_some]

/-- The loop resolves to the key that the names lead to. By induction on the
groups on the way; the depth of the tree bounds the turns. -/
theorem resolveLoop_eq_some_iff {turns : Nat} (enough : g.depth ≤ turns) (noNul : 0 ∉ c.rest)
    {is : List Nat} {j : Nat} :
    resolveLoop blocks turns g c = .ok (some (is, j)) ↔ Leads blocks g c is j := by
  induction is generalizing turns g c with
  | nil =>
    obtain ⟨turns, rfl⟩ : ∃ k, turns = k + 1 :=
      Nat.exists_eq_add_one.mpr (Nat.lt_of_lt_of_le (depth_pos g) enough)
    exact resolveLoop_stops_iff noNul
  | cons i is ih =>
    obtain ⟨turns, rfl⟩ : ∃ k, turns = k + 1 :=
      Nat.exists_eq_add_one.mpr (Nat.lt_of_lt_of_le (depth_pos g) enough)
    have later : ∀ subgroup, g.groups[i]? = some subgroup →
        (resolveLoop blocks turns subgroup (c.next blocks) = .ok (some (is, j)) ↔
          Leads blocks subgroup (c.next blocks) is j) := by
      intro subgroup found
      have below := depth_lt (List.mem_of_getElem? found)
      exact ih (by omega) (next_noNul noNul)
    rw [resolveLoop_enters_iff noNul, Leads]
    constructor
    · rintro ⟨name, looked, first, subgroup, found, inner⟩
      exact ⟨name, looked, first, subgroup, found, (later subgroup found).mp inner⟩
    · rintro ⟨name, looked, first, subgroup, found, leads⟩
      exact ⟨name, looked, first, subgroup, found, (later subgroup found).mpr leads⟩

theorem keResolveRegistryPath_eq_some_iff {path : CString}
    (short : path.chars.length < maxRegistryPath) {is : List Nat} {j : Nat} :
    keResolveRegistryPath blocks root path = .ok (some (is, j)) ↔
      blocks.room = true ∧ Leads blocks root ⟨0, 0, path.chars⟩ is j := by
  have loop : resolveLoop blocks root.depth root ⟨0, 0, path.chars⟩ = .ok (some (is, j)) ↔
      Leads blocks root ⟨0, 0, path.chars⟩ is j :=
    resolveLoop_eq_some_iff (Nat.le_refl root.depth) path.noNul
  rw [keResolveRegistryPath, Outcome.check_of short, Outcome.ok_bind, ← loop]
  by_cases atEnd : path.chars.length = 0
  · have empty : path.chars = [] := List.length_eq_zero_iff.mp atEnd
    obtain ⟨turns, depth⟩ := Nat.exists_eq_add_one.mpr (depth_pos root)
    rw [empty, depth, resolveLoop, if_pos rfl]
    simp [Outcome.check]
  · rw [Outcome.check_of atEnd, Outcome.ok_bind]
    by_cases room : blocks.room = true
    · rw [Outcome.check_of room, Outcome.ok_bind]
      exact (and_iff_right room).symm
    · rw [Outcome.check, if_neg room]
      refine ⟨fun stopped => ?_, fun both => absurd both.1 room⟩
      cases stopped

/-- A component that is a name has it all, and a separator or the end behind it. -/
theorem component_of_name {s : CString} (name : Name s) (behind : List UInt8)
    (rest : c.rest = s.chars ++ behind) (stops : ∀ d ∈ behind.head?, d ∈ separators) :
    c.component = s.chars ∧ c.buf = behind := by
  have free : ∀ d ∈ s.chars, d ∉ separators := name.2.2
  have buf : c.buf = behind := by
    rw [Cursor.buf, rest]
    cases behind with
    | nil =>
      rw [List.append_nil]
      exact keBreakCharPtrString_free free
    | cons d others => exact keBreakCharPtrString_front free (stops d rfl) others
  refine ⟨?_, buf⟩
  have whole := (cursor_split c).1
  rw [rest, buf] at whole
  exact (List.append_cancel_right whole).symm

theorem nothing_behind {s : List UInt8} {prior : CString}
    (looks : LooksLike s (s ++ prior.chars)) : prior.chars = [] := by
  have same := looks.1
  rw [List.length_append] at same
  exact List.length_eq_zero_iff.mp (by omega)

theorem name_of_component {s : CString} (name : Name s) (component : c.component = s.chars)
    (terminated : (blocks.name c.turn).map CString.chars = some []) :
    c.name blocks = some s.chars := by
  obtain ⟨prior, answer, nothing⟩ := Option.map_eq_some_iff.mp terminated
  have usable : s.chars ≠ [] ∧ s.chars.length < maxRegistryKey := ⟨name.1, name.2.1⟩
  rw [Cursor.name, answer]
  simp only [component, nothing, List.append_nil]
  exact if_pos usable

/-- The first name that looks like the one looked up, when that starts with it,
is there only if nothing follows. -/
theorem terminated_of_name {s : CString} (component : c.component = s.chars) {name : List UInt8}
    (looked : c.name blocks = some name) (looks : LooksLike s.chars name) :
    (blocks.name c.turn).map CString.chars = some [] ∧ name = s.chars := by
  rw [Cursor.name] at looked
  cases answer : blocks.name c.turn with
  | none =>
    rw [answer] at looked
    cases looked
  | some prior =>
    simp only [answer, component] at looked
    by_cases usable : s.chars ≠ [] ∧ (s.chars ++ prior.chars).length < maxRegistryKey
    · rw [if_pos usable] at looked
      obtain rfl := Option.some.inj looked
      have nothing := nothing_behind looks
      exact ⟨congrArg some nothing, by rw [nothing, List.append_nil]⟩
    · rw [if_neg usable] at looked
      cases looked

/-- The names lead to a key that the path spells exactly when it is recognized. -/
theorem leads_iff_recognized (proper : g.Proper) {is : List Nat} {j : Nat}
    (spells : Spells g c.rest is j) : Leads blocks g c is j ↔ Recognized blocks g c.turn is j := by
  induction is generalizing g c with
  | nil =>
    obtain ⟨keys, -, -⟩ := proper
    obtain ⟨key, found, whole⟩ := spells
    have name := keys key (List.mem_of_getElem? found)
    obtain ⟨component, -⟩ := component_of_name name []
      (by rw [whole, List.append_nil]) (fun d none => absurd none (Option.not_mem_none d))
    constructor
    · rintro ⟨looked, isLooked, noGroup, first⟩
      have looks : LooksLike key.name.chars looked := by
        obtain ⟨inList, hit, -⟩ := List.findIdx?_eq_some_iff_getElem.mp first
        rw [List.getElem?_eq_getElem inList] at found
        cases found
        exact of_decide_eq_true hit
      obtain ⟨terminated, same⟩ := terminated_of_name component isLooked looks
      rw [same] at noGroup first
      exact ⟨terminated, key, found, noGroup, first⟩
    · rintro ⟨terminated, key', found', noGroup, first⟩
      rw [found] at found'
      cases found'
      exact ⟨key.name.chars, name_of_component name component terminated, noGroup, first⟩
  | cons i is ih =>
    obtain ⟨-, groups, below⟩ := proper
    obtain ⟨subgroup, found, d, separator, rest, whole, later⟩ := spells
    have member := List.mem_of_getElem? found
    have name := groups subgroup member
    obtain ⟨component, buf⟩ := component_of_name name (d :: rest) whole
      (fun e isHead => by cases isHead; exact separator)
    have next : c.next blocks = ⟨c.turn + 1, c.skipped, rest⟩ := by rw [Cursor.next, buf]
    have inner := ih (below subgroup member) (c := ⟨c.turn + 1, c.skipped, rest⟩) later
    constructor
    · rintro ⟨looked, isLooked, first, subgroup', found', leads⟩
      rw [found] at found'
      cases found'
      have looks : LooksLike subgroup.name.chars looked := by
        obtain ⟨inList, hit, -⟩ := List.findIdx?_eq_some_iff_getElem.mp first
        rw [List.getElem?_eq_getElem inList] at found
        cases found
        exact of_decide_eq_true hit
      obtain ⟨terminated, same⟩ := terminated_of_name component isLooked looks
      rw [same] at first
      rw [next] at leads
      exact ⟨terminated, subgroup, found, first, inner.mp leads⟩
    · rintro ⟨terminated, subgroup', found', first, recognized⟩
      rw [found] at found'
      cases found'
      refine ⟨subgroup.name.chars, name_of_component name component terminated, first, subgroup,
        found, ?_⟩
      rw [next]
      exact inner.mpr recognized

/-- The names that lead to a key follow a path that spells it, and no other. -/
theorem follows_iff_spells (proper : g.Proper) {is : List Nat} {j : Nat} :
    Follows blocks g c is j ↔ Spells g c.rest is j := by
  induction is generalizing g c with
  | nil =>
    obtain ⟨keys, -, -⟩ := proper
    constructor
    · rintro ⟨atEnd, key, found, same⟩
      have whole := (cursor_split c).1
      rw [atEnd, List.append_nil, ← same] at whole
      exact ⟨key, found, whole⟩
    · rintro ⟨key, found, whole⟩
      have name := keys key (List.mem_of_getElem? found)
      obtain ⟨component, buf⟩ := component_of_name name []
        (by rw [whole, List.append_nil]) (fun d none => absurd none (Option.not_mem_none d))
      exact ⟨buf, key, found, component.symm⟩
  | cons i is ih =>
    obtain ⟨-, groups, below⟩ := proper
    constructor
    · rintro ⟨more, subgroup, found, same, follows⟩
      obtain ⟨whole, -, stops⟩ := cursor_split c
      obtain ⟨d, rest, buf⟩ := List.exists_cons_of_ne_nil more
      have later := (ih (below subgroup (List.mem_of_getElem? found))).mp follows
      rw [Cursor.next, buf] at later
      rw [buf] at whole stops
      exact ⟨subgroup, found, d, stops d rfl, rest, by rw [whole, same], later⟩
    · rintro ⟨subgroup, found, d, separator, rest, whole, later⟩
      have member := List.mem_of_getElem? found
      obtain ⟨component, buf⟩ := component_of_name (groups subgroup member) (d :: rest) whole
        (fun e isHead => by cases isHead; exact separator)
      refine ⟨by rw [buf]; exact List.cons_ne_nil d rest, subgroup, found, component.symm, ?_⟩
      refine (ih (below subgroup member)).mpr ?_
      rw [Cursor.next, buf]
      exact later

section
variable {start : Cursor} {is : List Nat} {j : Nat}

/-- What leads on from a level leads there from the start. -/
theorem Level.leads (level : Level blocks root start g c) (leads : Leads blocks g c is j) :
    ∃ is, Leads blocks root start is j := by
  induction level generalizing is with
  | root => exact ⟨is, leads⟩
  | @deeper g subgroup c name i above looked first found ih =>
    have fromHere : Leads blocks g _ (i :: is) j := ⟨name, looked, first, subgroup, found, leads⟩
    exact ih fromHere

theorem Level.keyAt (level : Level blocks root start g c) (leads : Leads blocks g c is j) :
    ∃ g c, Level blocks root start g c ∧ KeyAt blocks g c j := by
  induction is generalizing g c with
  | nil => exact ⟨g, c, level, leads⟩
  | cons i is ih =>
    obtain ⟨name, looked, first, subgroup, found, later⟩ := leads
    exact ih (level.deeper looked first found) later

/-- Where all levels have the names of the components, a key is reached by its path. -/
theorem Level.follows (named : ∀ g c, Level blocks root start g c → Named blocks g c)
    (level : Level blocks root start g c) (leads : Leads blocks g c is j) :
    Follows blocks g c is j := by
  induction is generalizing g c with
  | nil =>
    obtain ⟨name, looked, noGroup, first⟩ := leads
    obtain ⟨inside, -, -⟩ := List.findIdx?_eq_some_iff_getElem.mp first
    have found : g.keys[j]? = some g.keys[j] := List.getElem?_eq_getElem inside
    obtain ⟨atEnd, same⟩ := (named g c level).key j _ ⟨name, looked, noGroup, first⟩ found
    exact ⟨atEnd, g.keys[j], found, same⟩
  | cons i is ih =>
    obtain ⟨name, looked, first, subgroup, found, later⟩ := leads
    obtain ⟨more, same⟩ := (named g c level).group name i subgroup looked first found
    exact ⟨more, subgroup, found, same, ih (level.deeper looked first found) later⟩

/-- The levels are those on the way to the key. -/
theorem Level.on_way (level : Level blocks root start g c) (leads : Leads blocks root start is j)
    (follows : Follows blocks root start is j) :
    ∃ is, Leads blocks g c is j ∧ Follows blocks g c is j := by
  induction level with
  | root => exact ⟨is, leads, follows⟩
  | @deeper g subgroup c name i above looked first found ih =>
    obtain ⟨way, leads, follows⟩ := ih
    cases way with
    | nil =>
      obtain ⟨name', looked', noGroup, -⟩ := leads
      obtain rfl := Option.some.inj (looked.symm.trans looked')
      rw [first] at noGroup
      cases noGroup
    | cons k way =>
      obtain ⟨name', looked', first', subgroup', found', later⟩ := leads
      obtain ⟨-, subgroup'', found'', -, behind⟩ := follows
      obtain rfl := Option.some.inj (looked.symm.trans looked')
      obtain rfl := Option.some.inj (first.symm.trans first')
      obtain rfl := Option.some.inj (found.symm.trans found')
      obtain rfl := Option.some.inj (found.symm.trans found'')
      exact ⟨way, later, behind⟩

theorem named_of_follows (leads : Leads blocks g c is j) (follows : Follows blocks g c is j) :
    Named blocks g c := by
  cases is with
  | nil =>
    obtain ⟨name, looked, noGroup, first⟩ := leads
    obtain ⟨atEnd, key, found, same⟩ := follows
    constructor
    · intro name' i subgroup looked' first' _
      obtain rfl := Option.some.inj (looked.symm.trans looked')
      rw [noGroup] at first'
      cases first'
    · rintro k key' ⟨name', looked', -, first'⟩ found'
      obtain rfl := Option.some.inj (looked.symm.trans looked')
      obtain rfl := Option.some.inj (first.symm.trans first')
      obtain rfl := Option.some.inj (found.symm.trans found')
      exact ⟨atEnd, same⟩
  | cons i is =>
    obtain ⟨name, looked, first, -⟩ := leads
    obtain ⟨more, subgroup, found, same, -⟩ := follows
    constructor
    · intro name' k subgroup' looked' first' found'
      obtain rfl := Option.some.inj (looked.symm.trans looked')
      obtain rfl := Option.some.inj (first.symm.trans first')
      obtain rfl := Option.some.inj (found.symm.trans found')
      exact ⟨more, same⟩
    · rintro k key ⟨name', looked', noGroup, -⟩ -
      obtain rfl := Option.some.inj (looked.symm.trans looked')
      rw [first] at noGroup
      cases noGroup

end

/-- Resolution is exact for the paths that are recognized and named at every level, and for
no others. -/
theorem resolves_iff_exact (blocks : Blocks) {root : RegistryGroup} (proper : root.Proper)
    {path : CString} (short : path.chars.length < maxRegistryPath) :
    (∀ is j, keResolveRegistryPath blocks root path = .ok (some (is, j)) ↔
        Spells root path.chars is j) ↔ Exact blocks root path := by
  simp only [keResolveRegistryPath_eq_some_iff short]
  constructor
  · intro resolves
    refine ⟨fun is j spells => ?_, ?_⟩
    · obtain ⟨room, leads⟩ := (resolves is j).mpr spells
      exact ⟨room, (leads_iff_recognized proper spells).mp leads⟩
    · rintro room ⟨g', c', j, stop, atKey⟩ g c level
      have here : Leads blocks g' c' [] j := atKey
      obtain ⟨is, leads⟩ := stop.leads here
      have follows : Follows blocks root ⟨0, 0, path.chars⟩ is j :=
        (follows_iff_spells proper).mpr ((resolves is j).mp ⟨room, leads⟩)
      obtain ⟨_, leads, follows⟩ := level.on_way leads follows
      exact named_of_follows leads follows
  · rintro ⟨recognized, named⟩ is j
    constructor
    · rintro ⟨room, leads⟩
      obtain ⟨g, c, level, atKey⟩ := Level.root.keyAt leads
      have all := named room ⟨g, c, j, level, atKey⟩
      exact (follows_iff_spells proper).mp (Level.root.follows all leads)
    · intro spells
      obtain ⟨room, isRecognized⟩ := recognized is j spells
      exact ⟨room, (leads_iff_recognized proper spells).mpr isRecognized⟩

def noChars : CString := ⟨[], by decide⟩

/-- Cleared blocks for everything. -/
def cleared : Blocks := ⟨true, fun _ => noChars, fun _ => some noChars⟩

/-- The group "AD" with the key "BC". -/
def oneGroup : RegistryGroup := ⟨noChars, [⟨nameAD, [], [⟨nameBC⟩]⟩], []⟩

theorem oneGroup_proper : oneGroup.Proper := by
  have names : Name nameAD ∧ Name nameBC := by
    refine ⟨⟨?_, ?_, ?_⟩, ⟨?_, ?_, ?_⟩⟩ <;> decide +kernel
  have inner : RegistryGroup.Proper ⟨nameAD, [], [⟨nameBC⟩]⟩ := by
    refine ⟨fun key member => ?_, fun _ none => absurd none List.not_mem_nil, fun _ none =>
      absurd none List.not_mem_nil⟩
    rw [List.mem_singleton.mp member]
    exact names.2
  refine ⟨fun _ none => absurd none List.not_mem_nil, fun subgroup member => ?_,
    fun subgroup member => ?_⟩
  · rw [List.mem_singleton.mp member]
    exact names.1
  · rw [List.mem_singleton.mp member]
    exact inner

/-- "AD_BC". -/
def pathADBC : CString := ⟨[0xC1, 0xC4, 0x6D, 0xC2, 0xC3], by decide⟩

theorem oneGroup_spells {is : List Nat} {j : Nat} :
    Spells oneGroup pathADBC.chars is j ↔ is = [0] ∧ j = 0 := by
  constructor
  · intro spells
    rcases is with _ | ⟨_ | i, is⟩
    · obtain ⟨key, found, -⟩ := spells
      cases found
    · obtain ⟨subgroup, found, _, _, _, _, later⟩ := spells
      cases found
      rcases is with _ | ⟨i, is⟩
      · obtain ⟨key, found, -⟩ := later
        cases j with
        | zero => exact ⟨rfl, rfl⟩
        | succ j => cases found
      · obtain ⟨subgroup, found, -⟩ := later
        cases found
    · obtain ⟨subgroup, found, -⟩ := spells
      cases found
  · rintro ⟨rfl, rfl⟩
    exact ⟨_, rfl, 0x6D, by decide, _, rfl, _, rfl, rfl⟩

theorem oneGroup_resolves (is : List Nat) (j : Nat) :
    keResolveRegistryPath cleared oneGroup pathADBC = .ok (some (is, j)) ↔
      Spells oneGroup pathADBC.chars is j := by
  have resolved : keResolveRegistryPath cleared oneGroup pathADBC = .ok (some ([0], 0)) := by
    decide
  rw [resolved, oneGroup_spells]
  simp [eq_comm]

theorem oneGroup_exact : Exact cleared oneGroup pathADBC :=
  (resolves_iff_exact cleared oneGroup_proper (by decide)).mp oneGroup_resolves

/-- Behind the name of the group and a separator, the name of the key ends its path. -/
theorem oneGroup_key {c : UInt8} {rest : List UInt8}
    (spells : Spells oneGroup (0xC1 :: 0xC4 :: c :: rest) [0] 0) : rest = nameBC.chars := by
  obtain ⟨subgroup, found, _, -, rest', whole, key, foundKey, same⟩ := spells
  cases found
  cases foundKey
  simp only [nameAD, List.cons_append, List.nil_append, List.cons.injEq, true_and] at whole
  rw [whole.2, same]

/-- Text behind the key's name is accepted ("AD_BC-X"), a name that looks like
the key's is taken for it ("AD_AD"), and with a full block behind the component
no path is found. -/
theorem paths_misread :
    ¬ (∀ is j, keResolveRegistryPath cleared oneGroup
        ⟨[0xC1, 0xC4, 0x6D, 0xC2, 0xC3, 0x60, 0xE7], by decide⟩ = .ok (some (is, j)) ↔
          Spells oneGroup [0xC1, 0xC4, 0x6D, 0xC2, 0xC3, 0x60, 0xE7] is j) ∧
      ¬ (∀ is j, keResolveRegistryPath cleared oneGroup
        ⟨[0xC1, 0xC4, 0x6D, 0xC1, 0xC4], by decide⟩ = .ok (some (is, j)) ↔
          Spells oneGroup [0xC1, 0xC4, 0x6D, 0xC1, 0xC4] is j) ∧
      ¬ (∀ is j, keResolveRegistryPath ⟨true, fun _ => noChars, fun _ => some nameAD⟩ oneGroup
        pathADBC = .ok (some (is, j)) ↔ Spells oneGroup pathADBC.chars is j) := by
  refine ⟨fun resolves => ?_, fun resolves => ?_, fun resolves => ?_⟩
  · exact absurd (oneGroup_key ((resolves [0] 0).mp (by decide))) (by decide)
  · exact absurd (oneGroup_key ((resolves [0] 0).mp (by decide))) (by decide)
  · have found := (resolves [0] 0).mpr (oneGroup_spells.mpr ⟨rfl, rfl⟩)
    exact absurd found (by decide)

end RegistryPath
