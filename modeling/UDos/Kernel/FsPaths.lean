import UDos.Kernel.FsCreate
import UDos.Library.Descent

/-!
# The text of a path

What the characters of a path stand for when `KeResolveFsPath` returns a node,
on trees without drivers that answer for others. The search leaves the text
behind letters, or behind a colon without a separator, unread, and the
character codes that the fast-indexing loop takes for letters hold others, the
backslash among them.
-/

namespace FsTree

open KernelMemory Descent

/-- The second node is a child of the first. -/
def Child (t : Tree) (id child : NodeId) : Prop :=
  ∃ children i, t.childrenOf id = .ok children ∧ i ∈ children ∧ child = .created i

/-- Every child is a node of the tree, and no node is a child of two. -/
structure IsTree (t : Tree) : Prop extends t.InRange where
  oneParent : Relator.LeftUnique (Child t)

/-- No node hands the search over to its driver. -/
def NoRequest (t : Tree) : Prop := ∀ node ∈ t.nodes, node.requestNode = none

/-- The name of a node by its index. -/
def nameOf (t : Tree) (i : Nat) : List UInt8 :=
  match t.nodes[i]? with
  | some node => node.name.chars
  | none => []

/-- The first of the children whose name looks like the component. -/
def firstLike (t : Tree) (name : List UInt8) (children : List Nat) : Option Nat :=
  children.find? fun i => decide (LooksLike (nameOf t i) name)

section
variable {t : Tree} {id last : NodeId} {path : List UInt8} {children : List Nat} {i : Nat}

theorem root_top (t : Tree) (id : NodeId) : ¬ Child t id .root := by
  rintro ⟨_, _, _, _, same⟩
  cases same

theorem mem_of_firstLike {name : List UInt8} (found : firstLike t name children = some i) :
    i ∈ children := List.mem_of_find?_eq_some found

/-- Without drivers the loop over the children stops at the first that looks
like the component. -/
theorem scanChildren_firstLike (noRequest : NoRequest t)
    (present : ∀ i ∈ children, i < t.nodes.length) :
    scanChildren t path children =
      .ok (match firstLike t (component path) children with
        | none => .missing
        | some i => .child i) := by
  induction children with
  | nil => rfl
  | cons i others ih =>
    have inside := present i List.mem_cons_self
    have found : t.nodes[i]? = some t.nodes[i] := List.getElem?_eq_getElem inside
    have noDriver := noRequest _ (List.getElem_mem inside)
    have name : nameOf t i = t.nodes[i].name.chars := by rw [nameOf, found]
    have later := ih fun j hj => present j (List.mem_cons_of_mem i hj)
    rw [scanChildren, nodeAt_eq_ok.mpr found, Outcome.ok_bind, scanChild_eq, noDriver]
    simp only [firstLike, List.find?_cons, name]
    by_cases looks : LooksLike t.nodes[i].name.chars (component path)
    · rw [if_pos looks, decide_eq_true looks]
      rfl
    · rw [if_neg looks, decide_eq_false looks]
      exact later

end

section
variable {t u : Tree} {id parent : NodeId} {children : List Nat}

/-- The children in a tree with one more child are those before, and that one. -/
theorem keAddFsNodeChild_childrenOf {reallocateArray : Reallocation}
    (keeps : Keeps reallocateArray) {child : Nat}
    (added : keAddFsNodeChild reallocateArray t parent child = .ok u)
    (ok : u.childrenOf id = .ok children) :
    t.childrenOf id = .ok children ∨
      id = parent ∧ ∃ before, t.childrenOf id = .ok before ∧ children = before ++ [child] := by
  obtain ⟨before, hbefore, added⟩ := Outcome.bind_eq_ok.mp added
  cases room : reallocateArray before with
  | none =>
    simp only [room] at added
    cases added
  | some kept =>
    have same := keeps before kept room
    subst same
    simp only [room] at added
    cases parent with
    | root =>
      cases added
      cases hbefore
      cases id with
      | root =>
        cases ok
        exact Or.inr ⟨rfl, _, rfl, rfl⟩
      | created i => exact Or.inl ok
    | created k =>
      cases added
      cases id with
      | root => exact Or.inl ok
      | created i =>
        obtain ⟨node, found, ok⟩ := Outcome.bind_eq_ok.mp ok
        have hi := nodeAt_eq_ok.mp found
        rw [List.getElem?_modify] at hi
        obtain ⟨old, hold, rfl⟩ := Option.map_eq_some_iff.mp hi
        have was : t.childrenOf (.created i) = .ok old.children := by
          rw [Tree.childrenOf, nodeAt_eq_ok.mpr hold]
          rfl
        by_cases same : k = i
        · subst same
          rw [was] at hbefore
          cases hbefore
          rw [if_pos rfl] at ok
          cases ok
          exact Or.inr ⟨rfl, _, was, rfl⟩
        · rw [if_neg same] at ok
          cases ok
          exact Or.inl was

theorem childrenOf_withNode {name : CString} (ok : (t.withNode name).childrenOf id = .ok children) :
    t.childrenOf id = .ok children ∨ children = [] := by
  cases id with
  | root => exact Or.inl ok
  | created i =>
    obtain ⟨node, found, ok⟩ := Outcome.bind_eq_ok.mp ok
    cases ok
    have hi := nodeAt_eq_ok.mp found
    by_cases old : i < t.nodes.length
    · rw [Tree.withNode, List.getElem?_append_left old] at hi
      refine Or.inl ?_
      rw [Tree.childrenOf, nodeAt_eq_ok.mpr hi]
      rfl
    · rw [Tree.withNode, List.getElem?_append_right (by omega)] at hi
      have new := List.mem_singleton.mp (List.mem_of_getElem? hi)
      exact Or.inr (by rw [new])

/-- A created node is the child of one node, and no other gets a second parent. -/
theorem keCreateFsNode_isTree {nodeRoom nameRoom : Bool} {reallocateArray : Reallocation}
    (keeps : Keeps reallocateArray) {path : List UInt8} {name : CString} {node : Nat}
    (tree : IsTree t) (inRange : u.InRange)
    (created : keCreateFsNode nodeRoom nameRoom reallocateArray t path name = .ok (node, u)) :
    IsTree u := by
  obtain ⟨_, _, rfl, parent, _, added⟩ := keCreateFsNode_eq_ok.mp created
  have edge : ∀ id i, Child u id (.created i) →
      Child t id (.created i) ∧ i < t.nodes.length ∨ i = t.nodes.length ∧ id = parent.getD .root := by
    rintro id i ⟨children, _, ok, member, same⟩
    cases same
    have before : ∀ children, (t.withNode name).childrenOf id = .ok children → i ∈ children →
        Child t id (.created i) ∧ i < t.nodes.length := by
      intro children ok member
      rcases childrenOf_withNode ok with was | rfl
      · exact ⟨⟨children, i, was, member, rfl⟩, tree.children was i member⟩
      · exact absurd member List.not_mem_nil
    rcases keAddFsNodeChild_childrenOf keeps added ok with was | ⟨isParent, old, was, rfl⟩
    · exact Or.inl (before children was member)
    · rcases List.mem_append.mp member with inOld | new
      · exact Or.inl (before old was inOld)
      · exact Or.inr ⟨List.mem_singleton.mp new, isParent⟩
  refine ⟨inRange, fun a b c first second => ?_⟩
  cases c with
  | root => exact absurd first (root_top u a)
  | created i =>
    rcases edge a i first with ⟨first, low⟩ | ⟨same, rfl⟩
    · rcases edge b i second with ⟨second, _⟩ | ⟨same, _⟩
      · exact tree.oneParent first second
      · exact absurd low (by omega)
    · rcases edge b i second with ⟨_, low⟩ | ⟨_, rfl⟩
      · exact absurd low (by omega)
      · rfl

theorem emptyTree_isTree : IsTree emptyTree := by
  refine ⟨⟨by simp [emptyTree], by simp [emptyTree]⟩, fun a b c first _ => ?_⟩
  obtain ⟨children, i, ok, member, _⟩ := first
  cases a with
  | root =>
    cases ok
    exact absurd member List.not_mem_nil
  | created k =>
    obtain ⟨node, found, _⟩ := Outcome.bind_eq_ok.mp ok
    cases nodeAt_eq_ok.mp found

/-- What calls build from nothing is a tree. -/
theorem run_isTree {calls : List TreeCall} (keeps : ∀ call ∈ calls, call.Keeps)
    (ran : Runs.run treeStep emptyTree calls = .ok t) : IsTree t := by
  have step : ∀ t call u, IsTree t → TreeCall.Keeps call → treeStep t call = .ok u → IsTree u := by
    intro t call u tree keeps ran
    have inRange := treeStep_inRange keeps tree.toInRange ran
    cases call with
    | create nodeRoom nameRoom reallocateArray path name =>
      obtain ⟨⟨node, w⟩, created, ok⟩ := Outcome.bind_eq_ok.mp ran
      cases ok
      exact keCreateFsNode_isTree keeps tree inRange created
    | setDriver k requestNode =>
      cases ran
      have edge : ∀ a c, Child { t with nodes := t.nodes.modify k fun node =>
          { node with requestNode := requestNode } } a c → Child t a c := by
        rintro a c ⟨children, i, ok, member, rfl⟩
        cases a with
        | root => exact ⟨children, i, ok, member, rfl⟩
        | created j =>
          obtain ⟨node, found, ok⟩ := Outcome.bind_eq_ok.mp ok
          have hj := nodeAt_eq_ok.mp found
          rw [List.getElem?_modify] at hj
          obtain ⟨old, hold, rfl⟩ := Option.map_eq_some_iff.mp hj
          refine ⟨children, i, ?_, member, rfl⟩
          rw [Tree.childrenOf, nodeAt_eq_ok.mpr hold, Outcome.ok_bind]
          by_cases same : k = j
          · rwa [if_pos same] at ok
          · rwa [if_neg same] at ok
      exact ⟨inRange, fun a b c first second => tree.oneParent (edge a c first) (edge b c second)⟩
  exact Runs.run_invariant_of_meets step emptyTree_isTree (Runs.meets_of_forall keeps) ran

end

/-- The number of components of a path. -/
def componentCount (path : List UInt8) : Nat :=
  if _atEnd : path = [] then 0 else componentCount (afterFilename path) + 1
termination_by path.length
decreasing_by exact afterFilename_shorter _atEnd

/-- Component by component the first child that looks like it. -/
inductive Follows (t : Tree) : NodeId → List UInt8 → NodeId → Prop
  | atEnd (id : NodeId) : Follows t id [] id
  | component {id last : NodeId} {path : List UInt8} {children : List Nat} {i : Nat}
      (more : path ≠ []) (ok : t.childrenOf id = .ok children)
      (first : firstLike t (component path) children = some i)
      (later : Follows t (.created i) (afterFilename path) last) : Follows t id path last

/-- The components are the names of the nodes of a chain. -/
inductive Names (t : Tree) : NodeId → List UInt8 → NodeId → Prop
  | atEnd (id : NodeId) : Names t id [] id
  | component {id last : NodeId} {path : List UInt8} {children : List Nat} {i : Nat}
      (more : path ≠ []) (ok : t.childrenOf id = .ok children) (member : i ∈ children)
      (name : nameOf t i = component path)
      (later : Names t (.created i) (afterFilename path) last) : Names t id path last

/-- Component by component the first child that looks like it has this name. -/
inductive Exact (t : Tree) : NodeId → List UInt8 → Prop
  | atEnd (id : NodeId) : Exact t id []
  | component {id : NodeId} {path : List UInt8} {children : List Nat} {i : Nat}
      (more : path ≠ []) (ok : t.childrenOf id = .ok children)
      (first : firstLike t (component path) children = some i)
      (name : nameOf t i = component path)
      (later : Exact t (.created i) (afterFilename path)) : Exact t id path

section
variable {t : Tree} {id last : NodeId} {path : List UInt8}

theorem componentCount_of_ne_nil (more : path ≠ []) :
    componentCount path = componentCount (afterFilename path) + 1 := by
  rw [componentCount, dif_neg more]

theorem Follows.steps (follows : Follows t id path last) :
    Steps (Child t) (componentCount path) id last := by
  induction follows with
  | atEnd id =>
    rw [componentCount, dif_pos rfl]
    exact .refl id
  | component more ok first _ ih =>
    rw [componentCount_of_ne_nil more]
    exact .step ⟨_, _, ok, mem_of_firstLike first, rfl⟩ ih

theorem Names.steps (names : Names t id path last) :
    Steps (Child t) (componentCount path) id last := by
  induction names with
  | atEnd id =>
    rw [componentCount, dif_pos rfl]
    exact .refl id
  | component more ok member _ _ ih =>
    rw [componentCount_of_ne_nil more]
    exact .step ⟨_, _, ok, member, rfl⟩ ih

/-- In a tree there is one chain to a node, so the search has gone along the
names when it ends where they do. -/
theorem Follows.names_iff (tree : IsTree t) (follows : Follows t id path last) :
    Names t id path last ↔ Exact t id path := by
  induction follows with
  | atEnd id => exact iff_of_true (.atEnd id) (.atEnd id)
  | @component id last path children i more ok first later ih =>
    constructor
    · intro names
      cases names with
      | atEnd => exact absurd rfl more
      | @component _ _ _ children' j _ ok' member name later' =>
        have same := Steps.start_unique tree.oneParent later.steps later'.steps
        cases same
        exact .component more ok first name (ih.mp later')
    · intro exact_
      cases exact_ with
      | atEnd => exact absurd rfl more
      | @component _ _ children' j _ ok' first' name later' =>
        cases ok.symm.trans ok'
        cases first.symm.trans first'
        exact .component more ok (mem_of_firstLike first) name (ih.mpr later')

theorem findFile_component (inRange : t.InRange) (noRequest : NoRequest t) (more : path ≠ [])
    {children : List Nat} (ok : t.childrenOf id = .ok children) :
    findFile t id path =
      match firstLike t (component path) children with
      | none => .ok .missing
      | some i => findFile t (.created i) (afterFilename path) := by
  rw [findFile, dif_neg more, ok, Outcome.ok_bind,
    scanChildren_firstLike noRequest (inRange.children ok), Outcome.ok_bind]
  cases firstLike t (component path) children with
  | none => rfl
  | some i => rfl

/-- What the search along the names finds, without drivers. -/
theorem findFile_eq_node (inRange : t.InRange) (noRequest : NoRequest t) (valid : Valid t id) :
    findFile t id path = .ok (.node last) ↔ Follows t id path last := by
  induction path using (measure List.length).wf.induction generalizing id with
  | _ path ih =>
    by_cases atEnd : path = []
    · subst atEnd
      rw [findFile, dif_pos rfl]
      constructor
      · intro same
        cases same
        exact .atEnd last
      · intro follows
        cases follows with
        | atEnd => rfl
        | component more => exact absurd rfl more
    · obtain ⟨children, hchildren⟩ := valid.childrenOf
      rw [findFile_component inRange noRequest atEnd hchildren]
      cases first : firstLike t (component path) children with
      | none =>
        constructor
        · intro missing
          cases missing
        · intro follows
          cases follows with
          | atEnd => exact absurd rfl atEnd
          | component _ ok first' =>
            cases hchildren.symm.trans ok
            cases first.symm.trans first'
      | some i =>
        have child := inRange.valid hchildren (mem_of_firstLike first)
        refine (ih _ (afterFilename_shorter atEnd) child).trans ⟨fun later => ?_, fun follows => ?_⟩
        · exact .component atEnd hchildren first later
        · cases follows with
          | atEnd => exact absurd rfl atEnd
          | component _ ok first' later =>
            cases hchildren.symm.trans ok
            cases first.symm.trans first'
            exact later

end

/-- The letters of the execution character set, capital and small. -/
def isDriveLetter (c : UInt8) : Bool :=
  (0xC1 ≤ c && c ≤ 0xC9) || (0xD1 ≤ c && c ≤ 0xD9) || (0xE2 ≤ c && c ≤ 0xE9) ||
  (0x81 ≤ c && c ≤ 0x89) || (0x91 ≤ c && c ≤ 0x99) || (0xA2 ≤ c && c ≤ 0xA9)

/-- Each letter selects a child by its number. -/
inductive Indexed (t : Tree) : NodeId → List UInt8 → NodeId → Prop
  | nil (id : NodeId) : Indexed t id [] id
  | cons {id last : NodeId} {c : UInt8} {letters : List UInt8} {children : List Nat} {i : Nat}
      (ok : t.childrenOf id = .ok children) (select : children[keGetFsDrive c]? = some i)
      (later : Indexed t (.created i) letters last) : Indexed t id (c :: letters) last

/-- The fast-indexing loop stops in front of this text. -/
def Stops (text : List UInt8) : Prop := ∀ c ∈ text.head?, isFsLetter c = false

section
variable {t : Tree} {id mid last other : NodeId} {c : UInt8} {letters text path : List UInt8}

theorem fsLetter_of_driveLetter (letter : isDriveLetter c) : isFsLetter c := by
  simp only [isDriveLetter, isFsLetter, Bool.or_eq_true, Bool.and_eq_true, decide_eq_true_eq,
    UInt8.le_iff_toNat_le, UInt8.reduceToNat] at letter ⊢
  omega

theorem driveLetter_not_separator (letter : isDriveLetter c) : isSeparator c = false := by
  have every : ∀ s ∈ separators, isDriveLetter s = false := by decide +kernel
  by_contra sep
  have member := isSeparator_iff.mp (Bool.not_eq_false _ ▸ sep)
  rw [every c member] at letter
  cases letter

theorem colon_not_separator : isSeparator colon = false := by decide

theorem colon_not_letter : isFsLetter colon = false := by decide

theorem arrive_plain (plain : ∀ c ∈ path.head?, isSeparator c = false) :
    arrive t path = fastIndex t .root path := by
  cases path with
  | nil => rfl
  | cons c rest => rw [arrive, plain c rfl, if_neg Bool.false_ne_true]

theorem plain_of_not_separated (none : ¬ ∃ c rest, path = c :: rest ∧ isSeparator c) :
    ∀ c ∈ path.head?, isSeparator c = false := by
  intro c first
  by_contra sep
  obtain ⟨rest, rfl⟩ := List.head?_eq_some_iff.mp first
  exact none ⟨c, rest, rfl, by simpa using sep⟩

theorem head?_append_of_ne_nil (some : letters ≠ []) (text : List UInt8) :
    (letters ++ text).head? = letters.head? := by
  obtain ⟨c, rest, rfl⟩ := List.exists_cons_of_ne_nil some
  rfl

theorem Indexed.steps (indexed : Indexed t id letters last) :
    Steps (Child t) letters.length id last := by
  induction indexed with
  | nil id => exact .refl id
  | cons ok select _ ih => exact .step ⟨_, _, ok, List.mem_of_getElem? select, rfl⟩ ih

theorem Indexed.unique (indexed : Indexed t id letters last)
    (indexed' : Indexed t id letters other) : last = other := by
  induction indexed with
  | nil id =>
    cases indexed'
    rfl
  | cons ok select _ ih =>
    cases indexed' with
    | cons ok' select' later' =>
      cases ok.symm.trans ok'
      cases select.symm.trans select'
      exact ih later'

theorem Indexed.valid (inRange : t.InRange) (valid : Valid t id)
    (indexed : Indexed t id letters last) : Valid t last := by
  induction indexed with
  | nil id => exact valid
  | cons ok select _ ih => exact ih (inRange.valid ok (List.mem_of_getElem? select))

theorem fastIndex_indexed (all : ∀ c ∈ letters, isFsLetter c) (indexed : Indexed t id letters mid)
    (text : List UInt8) : fastIndex t id (letters ++ text) = fastIndex t mid text := by
  induction indexed with
  | nil id => rfl
  | @cons _ _ c letters _ _ ok select _ ih =>
    have letter := all c List.mem_cons_self
    rw [List.cons_append, fastIndex, if_pos letter, ok, Outcome.ok_bind, select]
    exact ih fun d hd => all d (List.mem_cons_of_mem c hd)

/-- The loop takes every letter, and leaves the text behind them. -/
theorem fastIndex_letters {arrival : Arrival} (arrives : arrival ≠ .missing)
    (all : ∀ c ∈ letters, isFsLetter c) (stops : Stops text) :
    fastIndex t id (letters ++ text) = .ok arrival ↔
      ∃ mid, Indexed t id letters mid ∧ afterLetters t mid text = .ok arrival := by
  have behind : ∀ mid, fastIndex t mid text = afterLetters t mid text := by
    intro mid
    cases text with
    | nil => rfl
    | cons c text => rw [fastIndex, stops c rfl, if_neg Bool.false_ne_true]
  constructor
  · intro found
    induction letters generalizing id with
    | nil =>
      rw [List.nil_append, behind] at found
      exact ⟨id, .nil id, found⟩
    | cons c letters ih =>
      have letter := all c List.mem_cons_self
      rw [List.cons_append, fastIndex, if_pos letter] at found
      obtain ⟨children, ok, found⟩ := Outcome.bind_eq_ok.mp found
      cases select : children[keGetFsDrive c]? with
      | none =>
        simp only [select] at found
        cases found
        exact absurd rfl arrives
      | some i =>
        simp only [select] at found
        obtain ⟨mid, indexed, found⟩ := ih (fun d hd => all d (List.mem_cons_of_mem c hd)) found
        exact ⟨mid, .cons ok select indexed, found⟩
  · rintro ⟨mid, indexed, found⟩
    rw [fastIndex_indexed all indexed, behind]
    exact found

theorem node_ne_missing (id : NodeId) : Arrival.node id ≠ .missing := by
  intro same
  cases same

theorem takeWhile_letters (all : ∀ c ∈ letters, isFsLetter c) (stops : Stops text) :
    (letters ++ text).takeWhile isFsLetter = letters := by
  rw [List.takeWhile_append_of_pos all]
  cases text with
  | nil => simp
  | cons c text => simp [stops c rfl]

theorem letters_split (path : List UInt8) :
    ∃ letters text, path = letters ++ text ∧ (∀ c ∈ letters, isFsLetter c) ∧ Stops text := by
  refine ⟨path.takeWhile isFsLetter, path.dropWhile isFsLetter,
    List.takeWhile_append_dropWhile.symm, fun c member => ?_, ?_⟩
  · exact List.all_eq_true.mp List.all_takeWhile c member
  intro c first
  have stop := List.head?_dropWhile_not isFsLetter path
  rw [first] at stop
  simpa using stop

/-- Behind the letters the path is at an end, or a colon and a separator come
before names, or the rest is not read. -/
theorem afterLetters_eq_node (inRange : t.InRange) (noRequest : NoRequest t) (valid : Valid t mid) :
    afterLetters t mid text = .ok (.node last) ↔
      (∃ c names, text = colon :: c :: names ∧ isSeparator c ∧ Follows t mid names last) ∨
      last = mid ∧ ∀ c names, text = colon :: c :: names → isSeparator c = false := by
  have stays : ∀ text, afterLetters t mid text = .ok (.node mid) →
      (∀ c names, text = colon :: c :: names → isSeparator c = false) →
      (afterLetters t mid text = .ok (.node last) ↔
        (∃ c names, text = colon :: c :: names ∧ isSeparator c ∧ Follows t mid names last) ∨
        last = mid ∧ ∀ c names, text = colon :: c :: names → isSeparator c = false) := by
    intro text found apart
    rw [found]
    constructor
    · intro same
      cases same
      exact Or.inr ⟨rfl, apart⟩
    · rintro (⟨c, names, shape, sep, _⟩ | ⟨rfl, _⟩)
      · rw [apart c names shape] at sep
        cases sep
      · rfl
  match text with
  | [] => exact stays [] rfl fun c names shape => by cases shape
  | [c] => exact stays [c] rfl fun d names shape => by cases shape
  | c :: s :: names =>
    by_cases start : c = colon ∧ isSeparator s
    · obtain ⟨rfl, sep⟩ := start
      rw [afterLetters_colon sep, findFile_eq_node inRange noRequest valid]
      constructor
      · exact fun follows => Or.inl ⟨s, names, rfl, sep, follows⟩
      · rintro (⟨_, _, shape, _, follows⟩ | ⟨_, apart⟩)
        · cases shape
          exact follows
        · rw [apart s names rfl] at sep
          cases sep
    · refine stays _ (by rw [afterLetters, if_neg start]) fun d names' shape => ?_
      cases shape
      simpa using start

theorem scanChildren_driver {path : List UInt8} {children : List Nat}
    {requestNode : List UInt8 → Option NodeId}
    (stops : scanChildren t path children = .ok (.driver requestNode)) :
    ∃ node ∈ t.nodes, node.requestNode = some requestNode := by
  induction children with
  | nil => cases stops
  | cons i others ih =>
    obtain ⟨child, found, stops⟩ := Outcome.bind_eq_ok.mp stops
    rw [scanChild_eq] at stops
    cases request : child.requestNode with
    | some r =>
      rw [request] at stops
      cases stops
      exact ⟨child, List.mem_of_getElem? (nodeAt_eq_ok.mp found), request⟩
    | none =>
      simp only [request] at stops
      by_cases looks : LooksLike child.name.chars (component path)
      · rw [if_pos looks] at stops
        cases stops
      · rw [if_neg looks] at stops
        exact ih stops

section
variable {requestNode : List UInt8 → Option NodeId} {rest : List UInt8}

theorem findFile_driver (asked : findFile t id path = .ok (.driver requestNode rest)) :
    ∃ node ∈ t.nodes, node.requestNode = some requestNode := by
  induction path using (measure List.length).wf.induction generalizing id with
  | _ path ih =>
    rw [findFile] at asked
    by_cases atEnd : path = []
    · rw [dif_pos atEnd] at asked
      cases asked
    · rw [dif_neg atEnd] at asked
      obtain ⟨children, _, asked⟩ := Outcome.bind_eq_ok.mp asked
      obtain ⟨scan, stops, asked⟩ := Outcome.bind_eq_ok.mp asked
      cases scan with
      | missing => cases asked
      | driver r =>
        cases asked
        exact scanChildren_driver stops
      | child i => exact ih _ (afterFilename_shorter atEnd) asked

theorem afterLetters_driver (asked : afterLetters t id path = .ok (.driver requestNode rest)) :
    ∃ node ∈ t.nodes, node.requestNode = some requestNode := by
  match path with
  | [] => cases asked
  | [c] => cases asked
  | c :: s :: path =>
    rw [afterLetters] at asked
    by_cases start : c = colon ∧ isSeparator s
    · rw [if_pos start] at asked
      exact findFile_driver asked
    · rw [if_neg start] at asked
      cases asked

theorem fastIndex_driver (asked : fastIndex t id path = .ok (.driver requestNode rest)) :
    ∃ node ∈ t.nodes, node.requestNode = some requestNode := by
  induction path generalizing id with
  | nil => exact afterLetters_driver asked
  | cons c path ih =>
    rw [fastIndex] at asked
    by_cases letter : isFsLetter c
    · rw [if_pos letter] at asked
      obtain ⟨children, _, asked⟩ := Outcome.bind_eq_ok.mp asked
      cases select : children[keGetFsDrive c]? with
      | none =>
        simp only [select] at asked
        cases asked
      | some i =>
        simp only [select] at asked
        exact ih asked
    · rw [if_neg letter] at asked
      exact afterLetters_driver asked

theorem arrive_driver (asked : arrive t path = .ok (.driver requestNode rest)) :
    ∃ node ∈ t.nodes, node.requestNode = some requestNode := by
  cases path with
  | nil => exact fastIndex_driver asked
  | cons c path =>
    rw [arrive] at asked
    by_cases sep : isSeparator c
    · rw [if_pos sep] at asked
      exact findFile_driver asked
    · rw [if_neg sep] at asked
      exact fastIndex_driver asked

end

/-- Without drivers a search ends at a node or nowhere. -/
theorem keResolveFsPath_eq_some (noRequest : NoRequest t) :
    keResolveFsPath t path = .ok (some id) ↔ arrive t path = .ok (.node id) := by
  constructor
  · intro resolves
    obtain ⟨arrival, arrives, result⟩ := Outcome.bind_eq_ok.mp resolves
    cases arrival with
    | node id' =>
      cases result
      exact arrives
    | driver requestNode rest =>
      obtain ⟨node, member, request⟩ := arrive_driver arrives
      rw [noRequest node member] at request
      cases request
    | missing => cases result
  · intro arrives
    rw [keResolveFsPath, arrives]
    rfl

/-- Behind the letters an optional colon, and separators and names along a chain. -/
def Reads (t : Tree) (mid : NodeId) (text : List UInt8) (id : NodeId) : Prop :=
  ∃ rest, (text = rest ∨ text = colon :: rest) ∧
    (rest = [] ∧ id = mid ∨ ∃ c names, rest = c :: names ∧ isSeparator c ∧ Names t mid names id)

/-- The path is letters that select a chain of children, an optional colon, and
separators and names along a chain to the node. The letters are all that the
fast-indexing loop goes along. -/
def Accounted (t : Tree) (path : List UInt8) (id : NodeId) : Prop :=
  ∃ letters text mid, path = letters ++ text ∧ (∀ c ∈ letters, isDriveLetter c) ∧
    (letters ≠ [] → Stops text) ∧ Indexed t .root letters mid ∧ Reads t mid text id

/-- Nothing follows the letters, or a colon, or a separator alone, or a colon, a
separator and components that the first child that looks like each of them has
as its name. Without letters the colon may be missing. -/
def Fits (t : Tree) (letters : List UInt8) (mid : NodeId) (text : List UInt8) : Prop :=
  text = [] ∨ text = [colon] ∨
    ∃ c names, isSeparator c ∧ Exact t mid names ∧
      (text = colon :: c :: names ∨ text = c :: names ∧ (letters = [] ∨ names = []))

/-- The characters indexed with are letters of the alphabet, and the text behind them fits. -/
def Covered (t : Tree) (path : List UInt8) : Prop :=
  ∃ letters text mid, path = letters ++ text ∧ (∀ c ∈ letters, isDriveLetter c) ∧
    (letters ≠ [] → Stops text) ∧ Indexed t .root letters mid ∧ Fits t letters mid text

theorem colon_ne_separator (sep : isSeparator c) : c ≠ colon := by
  rintro rfl
  rw [colon_not_separator] at sep
  cases sep

theorem stops_colon (rest : List UInt8) : Stops (colon :: rest) := by
  intro c first
  cases first
  exact colon_not_letter

theorem no_letters (sep : isSeparator c) (split : c :: path = letters ++ text)
    (all : ∀ c ∈ letters, isDriveLetter c) : letters = [] := by
  cases letters with
  | nil => rfl
  | cons d letters =>
    have same : c = d := (List.cons.inj split).1
    have plain := driveLetter_not_separator (all d List.mem_cons_self)
    rw [← same, sep] at plain
    cases plain

theorem accounted_separated (sep : isSeparator c) :
    Accounted t (c :: path) id ↔ Names t .root path id := by
  constructor
  · rintro ⟨letters, text, mid, split, all, _, indexed, rest, shape, reads⟩
    have none := no_letters sep split all
    subst none
    cases indexed
    rw [List.nil_append] at split
    have notColon := colon_ne_separator sep
    rcases shape with rfl | rfl
    · rcases reads with ⟨rfl, _⟩ | ⟨d, names, rfl, _, along⟩
      · cases split
      · cases split
        exact along
    · cases split
      exact absurd rfl notColon
  · intro names
    exact ⟨[], c :: path, .root, rfl, List.forall_mem_nil _, fun some => absurd rfl some, .nil _,
      c :: path, Or.inl rfl, Or.inr ⟨c, path, rfl, sep, names⟩⟩

theorem covered_separated (sep : isSeparator c) : Covered t (c :: path) ↔ Exact t .root path := by
  constructor
  · rintro ⟨letters, text, mid, split, all, _, indexed, fits⟩
    have none := no_letters sep split all
    subst none
    cases indexed
    rw [List.nil_append] at split
    have notColon := colon_ne_separator sep
    rcases fits with rfl | rfl | ⟨d, names, _, exact_, rfl | ⟨rfl, _⟩⟩
    · cases split
    · cases split
      exact absurd rfl notColon
    · cases split
      exact absurd rfl notColon
    · cases split
      exact exact_
  · intro exact_
    exact ⟨[], c :: path, .root, rfl, List.forall_mem_nil _, fun some => absurd rfl some, .nil _,
      Or.inr (Or.inr ⟨c, path, sep, exact_, Or.inr ⟨rfl, Or.inl rfl⟩⟩)⟩

/-- The text begins as the text behind letters may. -/
def Begins (text : List UInt8) : Prop :=
  text = [] ∨ (∃ rest, text = colon :: rest) ∨ ∃ c rest, text = c :: rest ∧ isSeparator c

theorem Reads.begins (reads : Reads t mid text id) : Begins text := by
  obtain ⟨rest, rfl | rfl, inner⟩ := reads
  · rcases inner with ⟨rfl, _⟩ | ⟨c, names, rfl, sep, _⟩
    · exact Or.inl rfl
    · exact Or.inr (Or.inr ⟨c, names, rfl, sep⟩)
  · exact Or.inr (Or.inl ⟨rest, rfl⟩)

theorem Fits.begins (fits : Fits t letters mid text) : Begins text := by
  rcases fits with rfl | rfl | ⟨c, names, sep, _, rfl | ⟨rfl, _⟩⟩
  · exact Or.inl rfl
  · exact Or.inr (Or.inl ⟨[], rfl⟩)
  · exact Or.inr (Or.inl ⟨_, rfl⟩)
  · exact Or.inr (Or.inr ⟨c, names, rfl, sep⟩)

section
variable {letters' text' : List UInt8}

/-- There is one way to split a path without a separator at its front. -/
theorem split_unique (plain : ∀ c ∈ path.head?, isSeparator c = false)
    (split : path = letters ++ text) (all : ∀ c ∈ letters, isFsLetter c) (stops : Stops text)
    (split' : path = letters' ++ text') (drive : ∀ c ∈ letters', isDriveLetter c)
    (stops' : letters' ≠ [] → Stops text') (begins : Begins text') :
    letters' = letters ∧ text' = text := by
  have stop : Stops text' := by
    by_cases none : letters' = []
    · rcases begins with rfl | ⟨rest, rfl⟩ | ⟨c, rest, rfl, sep⟩
      · intro c first
        cases first
      · exact stops_colon rest
      · rw [none, List.nil_append] at split'
        have front := plain c (by rw [split']; rfl)
        rw [sep] at front
        cases front
    · exact stops' none
  have front := takeWhile_letters all stops
  have front' := takeWhile_letters (fun c member => fsLetter_of_driveLetter (drive c member)) stop
  rw [← split] at front
  rw [← split', front] at front'
  subst front'
  exact ⟨rfl, List.append_cancel_left (split'.symm.trans split)⟩

end

/-- The text of a path without a separator at its front. -/
theorem reads_iff_fits (tree : IsTree t) (noRequest : NoRequest t)
    (plain : ∀ c ∈ (letters ++ text).head?, isSeparator c = false)
    (indexed : Indexed t .root letters mid) (found : afterLetters t mid text = .ok (.node id)) :
    Reads t mid text id ↔ Fits t letters mid text := by
  have start : Valid t .root := trivial
  have valid := indexed.valid tree.toInRange start
  rcases (afterLetters_eq_node tree.toInRange noRequest valid).mp found with
    ⟨c, names, rfl, sep, follows⟩ | ⟨rfl, apart⟩
  · have unread : ∀ d names', colon :: c :: names = d :: names' → isSeparator d → False := by
      intro d names' shape sep'
      cases shape
      exact colon_ne_separator sep' rfl
    constructor
    · rintro ⟨rest, same | same, inner⟩
      · rcases inner with ⟨rfl, _⟩ | ⟨d, names', rfl, sep', _⟩
        · cases same
        · exact (unread d names' same sep').elim
      · cases same
        rcases inner with ⟨empty, _⟩ | ⟨d, names', same, _, along⟩
        · cases empty
        · cases same
          exact Or.inr (Or.inr ⟨c, names, sep, (follows.names_iff tree).mp along, Or.inl rfl⟩)
    · rintro (empty | short | ⟨d, names', sep', exact_, same | ⟨same, _⟩⟩)
      · cases empty
      · cases short
      · cases same
        exact ⟨c :: names, Or.inr rfl,
          Or.inr ⟨c, names, rfl, sep, (follows.names_iff tree).mpr exact_⟩⟩
      · exact (unread d names' same sep').elim
  · constructor
    · rintro ⟨rest, rfl | rfl, inner⟩
      · rcases inner with ⟨rfl, _⟩ | ⟨c, names, rfl, sep, along⟩
        · exact Or.inl rfl
        · -- in a tree no chain of names comes back to the node that the letters select
          have none := Steps.no_return tree.oneParent (fun a => root_top t a) indexed.steps
            along.steps
          have empty : names = [] := by
            by_contra more
            rw [componentCount_of_ne_nil more] at none
            cases none
          subst empty
          exact Or.inr (Or.inr ⟨c, [], sep, .atEnd _, Or.inr ⟨rfl, Or.inr rfl⟩⟩)
      · rcases inner with ⟨rfl, _⟩ | ⟨c, names, rfl, sep, _⟩
        · exact Or.inr (Or.inl rfl)
        · rw [apart c names rfl] at sep
          cases sep
    · rintro (rfl | rfl | ⟨c, names, sep, _, rfl | ⟨rfl, none | rfl⟩⟩)
      · exact ⟨[], Or.inl rfl, Or.inl ⟨rfl, rfl⟩⟩
      · exact ⟨[], Or.inr rfl, Or.inl ⟨rfl, rfl⟩⟩
      · rw [apart c names rfl] at sep
        cases sep
      · have front := plain c (by rw [none]; rfl)
        rw [sep] at front
        cases front
      · exact ⟨[c], Or.inl rfl, Or.inr ⟨c, [], rfl, sep, .atEnd _⟩⟩

/-- When a path resolves to a node of a tree without drivers, all of its text
is accounted for exactly when it is covered. -/
theorem resolved_path_accounted_iff (t : Tree) (tree : IsTree t) (noRequest : NoRequest t)
    (path : List UInt8) (id : NodeId) (resolves : keResolveFsPath t path = .ok (some id)) :
    Accounted t path id ↔ Covered t path := by
  have arrives := (keResolveFsPath_eq_some noRequest).mp resolves
  have start : Valid t .root := trivial
  by_cases separated : ∃ c rest, path = c :: rest ∧ isSeparator c
  · obtain ⟨c, rest, rfl, sep⟩ := separated
    rw [arrive, if_pos sep] at arrives
    have follows := (findFile_eq_node tree.toInRange noRequest start).mp arrives
    rw [accounted_separated sep, covered_separated sep]
    exact follows.names_iff tree
  · have plain := plain_of_not_separated separated
    have indexing : fastIndex t .root path = .ok (.node id) := by
      rwa [arrive_plain plain] at arrives
    obtain ⟨letters, text, rfl, all, stops⟩ := letters_split path
    obtain ⟨mid, indexed, found⟩ := (fastIndex_letters (node_ne_missing _) all stops).mp indexing
    have same := reads_iff_fits tree noRequest plain indexed found
    constructor
    · rintro ⟨letters', text', mid', split, drive, stops', indexed', reads⟩
      obtain ⟨rfl, rfl⟩ := split_unique plain rfl all stops split drive stops' reads.begins
      obtain rfl := indexed.unique indexed'
      exact ⟨letters', text', mid, rfl, drive, stops', indexed, same.mp reads⟩
    · rintro ⟨letters', text', mid', split, drive, stops', indexed', fits⟩
      obtain ⟨rfl, rfl⟩ := split_unique plain rfl all stops split drive stops' fits.begins
      obtain rfl := indexed.unique indexed'
      exact ⟨letters', text', mid, rfl, drive, stops', indexed, same.mpr fits⟩

end

theorem oneNode_isTree : IsTree oneNode := run_isTree createAD_keeps oneNode_built

theorem oneNode_noRequest : NoRequest oneNode := by simp [NoRequest, oneNode]

theorem oneNode_accounted :
    Accounted oneNode [0x61, 0xC1, 0xC4] (.created 0) ↔ Covered oneNode [0x61, 0xC1, 0xC4] :=
  resolved_path_accounted_iff oneNode oneNode_isTree oneNode_noRequest [0x61, 0xC1, 0xC4]
    (.created 0) (by decide +kernel)

/-- "A1" resolves to the first child of the root, and its digit stands for nothing. -/
theorem trailing_digit_ignored :
    IsTree oneNode ∧ NoRequest oneNode ∧
      keResolveFsPath oneNode [0xC1, 0xF1] = .ok (some (.created 0)) ∧
      ¬ Accounted oneNode [0xC1, 0xF1] (.created 0) := by
  refine ⟨oneNode_isTree, oneNode_noRequest, by decide +kernel, ?_⟩
  rintro ⟨letters, text, mid, split, drive, _, _, reads⟩
  match letters, split with
  | [], split =>
    have begins := reads.begins
    rw [← show [0xC1, 0xF1] = text from split] at begins
    rcases begins with empty | ⟨rest, same⟩ | ⟨c, rest, same, sep⟩
    · cases empty
    · cases same
    · cases same
      exact absurd sep (by decide)
  | [c], split =>
    have begins := reads.begins
    rw [← show [0xF1] = text from (List.cons.inj split).2] at begins
    rcases begins with empty | ⟨rest, same⟩ | ⟨c, rest, same, sep⟩
    · cases empty
    · cases same
    · cases same
      exact absurd sep (by decide)
  | c :: d :: letters, split =>
    have digit : d = 0xF1 := (List.cons.inj (List.cons.inj split).2).1.symm
    have letter := drive d (by simp)
    rw [digit] at letter
    exact absurd letter (by decide)

end FsTree
