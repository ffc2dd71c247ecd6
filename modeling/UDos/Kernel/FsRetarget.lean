import UDos.Kernel.FsPaths

/-!
# Handing the search over to a driver

The loop over the children of a node tests for `request_node` before it
compares names, so the first child with such a driver gets every component that
no earlier child looks like. The loop is followed with the child it is at.
-/

namespace FsTree

open KernelMemory

/-- The loop over the children with the child that it stops at. -/
def stopsAt (t : Tree) (path : List UInt8) : List Nat → Outcome (Option (Nat × Scan))
  | [] => .ok none
  | i :: others => do
    let child ← t.nodeAt i
    match scanChild path i child with
    | .missing => stopsAt t path others
    | found => .ok (some (i, found))

/-- The driver of the node answers for the nodes below. -/
def retargets (t : Tree) (i : Nat) : Bool :=
  match t.nodes[i]? with
  | some node => node.requestNode.isSome
  | none => false

/-- The first child that retargets or whose name looks like the component. -/
def firstStop (t : Tree) (name : List UInt8) (children : List Nat) : Option Nat :=
  children.find? fun i => retargets t i || decide (LooksLike (nameOf t i) name)

/-- The nodes that the search comes to, with what is left of the path there. -/
inductive Level (t : Tree) (path : List UInt8) : NodeId → List UInt8 → Prop
  | separated {c : UInt8} {rest : List UInt8} (shape : path = c :: rest) (sep : isSeparator c) :
      Level t path .root rest
  | indexed {letters rest : List UInt8} {c : UInt8} {mid : NodeId}
      (shape : path = letters ++ colon :: c :: rest) (all : ∀ d ∈ letters, isFsLetter d)
      (plain : ∀ d ∈ letters.head?, isSeparator d = false) (sep : isSeparator c)
      (along : Indexed t .root letters mid) : Level t path mid rest
  | deeper {id : NodeId} {rest : List UInt8} {children : List Nat} {i : Nat}
      (above : Level t path id rest) (more : rest ≠ []) (ok : t.childrenOf id = .ok children)
      (stop : firstStop t (component rest) children = some i) (own : retargets t i = false) :
      Level t path (.created i) (afterFilename rest)

/-- At this level a driver is asked only for the node that the component names,
with the path behind it, and a sibling of a node with such a driver is found
under its name. -/
def AsksNamed (t : Tree) (id : NodeId) (rest : List UInt8) (children : List Nat) : Prop :=
  (∀ i requestNode, stopsAt t rest children = .ok (some (i, .driver requestNode)) →
    nameOf t i = component rest ∧
      findFile t id rest = .ok (.driver requestNode (afterFilename rest))) ∧
  ∀ c ∈ children, retargets t c → ∀ sibling ∈ children, sibling ≠ c →
    nameOf t sibling = component rest →
    ∃ i scan, stopsAt t rest children = .ok (some (i, scan)) ∧ nameOf t i = component rest

/-- At every level of the search the drivers are asked for what is theirs. -/
def RetargetsNamed (t : Tree) (path : List UInt8) : Prop :=
  ∀ id rest children, Level t path id rest → rest ≠ [] → t.childrenOf id = .ok children →
    AsksNamed t id rest children

/-- The first child that retargets or looks like the component has its name; or
it retargets nothing, and no other node of that name is beside one that does. -/
def Undisturbed (t : Tree) (rest : List UInt8) (children : List Nat) : Prop :=
  ∀ i, firstStop t (component rest) children = some i →
    nameOf t i = component rest ∨
    retargets t i = false ∧ ∀ c ∈ children, retargets t c → ∀ sibling ∈ children, sibling ≠ c →
      nameOf t sibling ≠ component rest

section
variable {t : Tree} {path rest : List UInt8} {id : NodeId} {children : List Nat} {i : Nat}

/-- Without the child it is the loop of the search. -/
theorem scanChildren_stopsAt (t : Tree) (path : List UInt8) (children : List Nat) :
    scanChildren t path children = (do
      match ← stopsAt t path children with
      | none => .ok .missing
      | some (_, scan) => .ok scan) := by
  induction children with
  | nil => rfl
  | cons i others ih =>
    rw [scanChildren, stopsAt]
    cases t.nodeAt i with
    | ok child =>
      rw [Outcome.ok_bind, Outcome.ok_bind, ih]
      cases scanChild path i child with
      | missing => rfl
      | child j => rfl
      | driver requestNode => rfl
    | panic message => rfl
    | fault => rfl
    | diverge => rfl

/-- The loop stops at the first child that retargets or looks like the component. -/
theorem stopsAt_firstStop (path : List UInt8) (present : ∀ i ∈ children, i < t.nodes.length) :
    match firstStop t (component path) children with
    | none => stopsAt t path children = .ok none
    | some i => ∃ node, t.nodes[i]? = some node ∧
        stopsAt t path children = .ok (some (i, scanChild path i node)) ∧
        scanChild path i node =
          match node.requestNode with
          | some requestNode => .driver requestNode
          | none => .child i := by
  induction children with
  | nil => rfl
  | cons i others ih =>
    have inside := present i List.mem_cons_self
    have found : t.nodes[i]? = some t.nodes[i] := List.getElem?_eq_getElem inside
    have name : nameOf t i = t.nodes[i].name.chars := by rw [nameOf, found]
    have drives : retargets t i = t.nodes[i].requestNode.isSome := by rw [retargets, found]
    have later := ih fun j hj => present j (List.mem_cons_of_mem i hj)
    have turn := scanChild_eq path i t.nodes[i]
    simp only [firstStop, List.find?_cons, name, drives] at later ⊢
    rw [stopsAt, nodeAt_eq_ok.mpr found, Outcome.ok_bind]
    cases request : t.nodes[i].requestNode with
    | some requestNode =>
      rw [request] at turn
      simp only [Option.isSome_some, Bool.true_or, turn]
      exact ⟨t.nodes[i], found, by rw [turn], by rw [turn, request]⟩
    | none =>
      simp only [request] at turn
      simp only [Option.isSome_none, Bool.false_or]
      by_cases looks : LooksLike t.nodes[i].name.chars (component path)
      · rw [if_pos looks] at turn
        rw [decide_eq_true looks, turn]
        exact ⟨t.nodes[i], found, by rw [turn], by rw [turn, request]⟩
      · rw [if_neg looks] at turn
        rw [decide_eq_false looks, turn]
        exact later

/-- What is left of the search at a level is the search from its node. -/
theorem Level.arrive_eq (inRange : t.InRange) (level : Level t path id rest) :
    arrive t path = findFile t id rest := by
  induction level with
  | separated shape sep => rw [shape, arrive, if_pos sep]
  | @indexed letters rest c mid shape all plain sep along =>
    have front : ∀ d ∈ path.head?, isSeparator d = false := by
      rw [shape]
      by_cases none : letters = []
      · rw [none]
        rintro d first
        cases first
        exact colon_not_separator
      · rwa [head?_append_of_ne_nil none]
    rw [arrive_plain front, shape, fastIndex_indexed all along, fastIndex, colon_not_letter,
      if_neg Bool.false_ne_true, afterLetters_colon sep]
  | @deeper id rest children i _ more ok stop own ih =>
    have first := stopsAt_firstStop rest (inRange.children ok)
    rw [stop] at first
    obtain ⟨node, found, stops, turn⟩ := first
    have noRequest : node.requestNode = none := by
      simpa [retargets, found] using own
    rw [noRequest] at turn
    rw [ih, findFile, dif_neg more, ok, Outcome.ok_bind, scanChildren_stopsAt, stops, turn]
    rfl

/-- A driver that the search asks is that of a child at a level below. -/
theorem Level.asked (inRange : t.InRange) {requestNode : List UInt8 → Option NodeId}
    {behind : List UInt8} (level : Level t path id rest) (valid : Valid t id)
    (asked : findFile t id rest = .ok (.driver requestNode behind)) :
    ∃ id rest children i, Level t path id rest ∧ rest ≠ [] ∧ t.childrenOf id = .ok children ∧
      stopsAt t rest children = .ok (some (i, .driver requestNode)) ∧
      behind = afterFilename rest := by
  induction rest using (measure List.length).wf.induction generalizing id with
  | _ rest ih =>
    rw [findFile] at asked
    by_cases atEnd : rest = []
    · rw [dif_pos atEnd] at asked
      cases asked
    · obtain ⟨children, ok⟩ := valid.childrenOf
      have first := stopsAt_firstStop rest (inRange.children ok)
      rw [dif_neg atEnd, ok, Outcome.ok_bind, scanChildren_stopsAt] at asked
      cases stop : firstStop t (component rest) children with
      | none =>
        rw [stop] at first
        rw [first] at asked
        cases asked
      | some i =>
        rw [stop] at first
        obtain ⟨node, found, stops, turn⟩ := first
        rw [stops] at asked
        cases request : node.requestNode with
        | some r =>
          rw [request] at turn
          rw [turn] at asked stops
          cases asked
          exact ⟨id, rest, children, i, level, atEnd, ok, stops, rfl⟩
        | none =>
          rw [request] at turn
          rw [turn] at asked
          have own : retargets t i = false := by simp [retargets, found, request]
          exact ih _ (afterFilename_shorter atEnd) (level.deeper atEnd ok stop own)
            (inRange.valid ok (List.mem_of_find?_eq_some stop)) asked

/-- The search asks a driver for a text exactly when, at one of its levels, the loop over
the children stops there and the text is behind the component. -/
theorem driver_asked_at_level (inRange : t.InRange) {requestNode : List UInt8 → Option NodeId}
    {behind : List UInt8} :
    arrive t path = .ok (.driver requestNode behind) ↔
      ∃ id rest children i, Level t path id rest ∧ rest ≠ [] ∧ t.childrenOf id = .ok children ∧
        stopsAt t rest children = .ok (some (i, .driver requestNode)) ∧
        behind = afterFilename rest := by
  constructor
  · intro asked
    have start : Valid t .root := trivial
    by_cases separated : ∃ c rest, path = c :: rest ∧ isSeparator c
    · obtain ⟨c, rest, rfl, sep⟩ := separated
      rw [arrive, if_pos sep] at asked
      exact (Level.separated rfl sep).asked inRange start asked
    · have plain := plain_of_not_separated separated
      have arrives : Arrival.driver requestNode behind ≠ .missing := by
        intro same
        cases same
      obtain ⟨letters, text, rfl, all, stops⟩ := letters_split path
      rw [arrive_plain plain] at asked
      obtain ⟨mid, indexed, found⟩ := (fastIndex_letters arrives all stops).mp asked
      cases text with
      | nil => cases found
      | cons c rest =>
        cases rest with
        | nil => cases found
        | cons s names =>
          rw [afterLetters] at found
          by_cases start' : c = colon ∧ isSeparator s
          · obtain ⟨rfl, sep⟩ := start'
            rw [if_pos ⟨rfl, sep⟩] at found
            have front : ∀ d ∈ letters.head?, isSeparator d = false := by
              intro d first
              obtain ⟨rest, rfl⟩ := List.head?_eq_some_iff.mp first
              exact plain d rfl
            exact (Level.indexed rfl all front sep indexed).asked inRange
              (indexed.valid inRange start) found
          · rw [if_neg start'] at found
            cases found
  · rintro ⟨id, rest, children, i, level, more, ok, stops, rfl⟩
    rw [level.arrive_eq inRange, findFile, dif_neg more, ok, Outcome.ok_bind, scanChildren_stopsAt,
      stops]
    rfl

/-- At a level the drivers are asked for what is theirs exactly when the first
child that retargets or looks like the component does not disturb it. -/
theorem asksNamed_iff (more : rest ≠ []) (ok : t.childrenOf id = .ok children)
    (present : ∀ i ∈ children, i < t.nodes.length) :
    AsksNamed t id rest children ↔ Undisturbed t rest children := by
  have first := stopsAt_firstStop rest present
  cases stop : firstStop t (component rest) children with
  | none =>
    rw [stop] at first
    have unlike : ∀ j ∈ children, nameOf t j ≠ component rest := by
      intro j member same
      have passed := List.find?_eq_none.mp stop j member
      rw [same] at passed
      simp [looksLike_refl] at passed
    refine iff_of_true ⟨fun i requestNode stops => ?_, fun c _ _ sibling member _ name => ?_⟩
      fun i found => ?_
    · rw [first] at stops
      cases stops
    · exact absurd name (unlike sibling member)
    · rw [stop] at found
      cases found
  | some i =>
    rw [stop] at first
    obtain ⟨node, found, stops, turn⟩ := first
    have drives : retargets t i = node.requestNode.isSome := by rw [retargets, found]
    constructor
    · rintro ⟨named, siblings⟩ j same
      rw [stop] at same
      cases same
      by_cases name : nameOf t i = component rest
      · exact Or.inl name
      · have own : node.requestNode = none := by
          cases request : node.requestNode with
          | none => rfl
          | some requestNode =>
            rw [request] at turn
            exact absurd (named i requestNode (by rw [stops, turn])).1 name
        refine Or.inr ⟨by rw [drives, own]; rfl, fun c member retarget sibling other differs same => ?_⟩
        obtain ⟨k, scan, stops', hit⟩ := siblings c member retarget sibling other differs same
        rw [stops] at stops'
        cases stops'
        exact name hit
    · intro undisturbed
      rcases undisturbed i stop with name | ⟨own, alone⟩
      · refine ⟨fun j requestNode stops' => ?_, fun c _ _ _ _ _ _ => ⟨i, _, stops, name⟩⟩
        rw [stops] at stops'
        simp only [Outcome.ok.injEq, Option.some.injEq, Prod.mk.injEq] at stops'
        obtain ⟨rfl, scan⟩ := stops'
        refine ⟨name, ?_⟩
        rw [findFile, dif_neg more, ok, Outcome.ok_bind, scanChildren_stopsAt, stops, scan]
        rfl
      · refine ⟨fun j requestNode stops' => ?_, fun c member retarget sibling other differs name =>
          absurd name (alone c member retarget sibling other differs)⟩
        rw [drives] at own
        cases request : node.requestNode with
        | some _ =>
          rw [request] at own
          cases own
        | none =>
          rw [request] at turn
          rw [stops, turn] at stops'
          cases stops'

end

/-- The drivers on the way along a path are asked only for the nodes that the
components name, and hide no sibling of them, if and only if at every level of
the search the first child that retargets or looks like the component has its
name, or disturbs nothing. The levels are those where the search asks a driver. -/
theorem retargets_named_iff (t : Tree) (inRange : t.InRange) (path : List UInt8) :
    (RetargetsNamed t path ↔
      ∀ id rest children, Level t path id rest → rest ≠ [] → t.childrenOf id = .ok children →
        Undisturbed t rest children) ∧
    ∀ requestNode behind, arrive t path = .ok (.driver requestNode behind) ↔
      ∃ id rest children i, Level t path id rest ∧ rest ≠ [] ∧ t.childrenOf id = .ok children ∧
        stopsAt t rest children = .ok (some (i, .driver requestNode)) ∧
        behind = afterFilename rest := by
  refine ⟨?_, fun _ _ => driver_asked_at_level inRange⟩
  constructor
  · intro named id rest children level more ok
    exact (asksNamed_iff more ok (inRange.children ok)).mp (named id rest children level more ok)
  · intro undisturbed id rest children level more ok
    exact (asksNamed_iff more ok (inRange.children ok)).mpr
      (undisturbed id rest children level more ok)

theorem nameB_noNul : (0 : UInt8) ∉ ([0xC2] : List UInt8) := by decide

/-- "AD", whose driver finds nothing, and "B" behind it or in front of it. -/
def driverFirst : Tree :=
  ⟨[0, 1], [⟨nameAD, some fun _ => none, []⟩, ⟨⟨[0xC2], nameB_noNul⟩, none, []⟩]⟩

def driverLast : Tree := ⟨[1, 0], driverFirst.nodes⟩

theorem driverLast_inRange : driverLast.InRange := ⟨by decide, by simp [driverLast, driverFirst]⟩

theorem driverLast_retargets_named :
    RetargetsNamed driverLast [0x61, 0xC2] ↔
      ∀ id rest children, Level driverLast [0x61, 0xC2] id rest → rest ≠ [] →
        driverLast.childrenOf id = .ok children → Undisturbed driverLast rest children :=
  (retargets_named_iff driverLast driverLast_inRange [0x61, 0xC2]).1

/-- "/B" is found in front of the driver of "AD". Behind it the driver is asked
for the node, which then is not found. -/
theorem driver_asked_for_sibling :
    keResolveFsPath driverLast [0x61, 0xC2] = .ok (some (.created 1)) ∧
      keResolveFsPath driverFirst [0x61, 0xC2] = .ok none ∧
      ¬ RetargetsNamed driverFirst [0x61, 0xC2] := by
  refine ⟨by decide +kernel, by decide +kernel, fun named => ?_⟩
  have level : Level driverFirst [0x61, 0xC2] .root [0xC2] := .separated rfl (by decide)
  have asked := (named .root [0xC2] [0, 1] level (by decide) rfl).1 0 (fun _ => none) rfl
  exact absurd asked.1 (by decide)

end FsTree
