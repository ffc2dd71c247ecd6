import UDos.Kernel.FsTree

/-!
# Growth of the node tree

Creating a node puts a child behind those already there and a node behind
those already there. The searches of `KeResolveFsPath` stop at first matches,
so a path that resolves to a node goes on doing so.
-/

namespace FsTree

open KernelMemory

/-- The second tree has the nodes of the first with their names, drivers and
children, and perhaps more children and nodes behind them. -/
structure Extends (t u : Tree) : Prop where
  rootChildren : t.rootChildren <+: u.rootChildren
  nodes : ∀ (i : Nat) (node : FsNode), t.nodes[i]? = some node →
    ∃ later, u.nodes[i]? = some later ∧ later.name = node.name ∧
      later.requestNode = node.requestNode ∧ node.children <+: later.children

theorem Extends.trans {t u w : Tree} (first : Extends t u) (second : Extends u w) :
    Extends t w := by
  refine ⟨first.rootChildren.trans second.rootChildren, fun i node hi => ?_⟩
  obtain ⟨m, hm, name, request, children⟩ := first.nodes i node hi
  obtain ⟨l, hl, name', request', children'⟩ := second.nodes i m hm
  exact ⟨l, hl, name'.trans name, request'.trans request, children.trans children'⟩

theorem nodeAt_eq_ok {t : Tree} {i : Nat} {node : FsNode} :
    t.nodeAt i = .ok node ↔ t.nodes[i]? = some node := by
  unfold Tree.nodeAt
  cases t.nodes[i]? with
  | none => simp
  | some other => simp

section
variable {t u : Tree} (extends_ : Extends t u)
include extends_

theorem Extends.childrenOf {id : NodeId} {children : List Nat}
    (ok : t.childrenOf id = .ok children) :
    ∃ more, u.childrenOf id = .ok (children ++ more) := by
  cases id with
  | root =>
    cases ok
    obtain ⟨more, same⟩ := extends_.rootChildren
    exact ⟨more, congrArg Outcome.ok same.symm⟩
  | created i =>
    obtain ⟨node, found, same⟩ := Outcome.bind_eq_ok.mp ok
    cases same
    obtain ⟨later, hlater, _, _, more, same⟩ := extends_.nodes i node (nodeAt_eq_ok.mp found)
    refine ⟨more, ?_⟩
    rw [Tree.childrenOf, nodeAt_eq_ok.mpr hlater]
    exact congrArg Outcome.ok same.symm

theorem Extends.scanChildren {path : List UInt8} {children : List Nat} {scan : Scan}
    (ok : scanChildren t path children = .ok scan) (more : List Nat) :
    FsTree.scanChildren u path (children ++ more) =
      scan.orElse (FsTree.scanChildren u path more) := by
  induction children with
  | nil =>
    cases ok
    rfl
  | cons i others ih =>
    obtain ⟨node, found, rest⟩ := Outcome.bind_eq_ok.mp ok
    obtain ⟨later, hlater, name, request, _⟩ := extends_.nodes i node (nodeAt_eq_ok.mp found)
    have turn : scanChild path i later = scanChild path i node := by
      rw [scanChild, scanChild, name, request]
    rw [List.cons_append, FsTree.scanChildren, nodeAt_eq_ok.mpr hlater, Outcome.ok_bind, turn]
    cases stop : scanChild path i node with
    | missing =>
      rw [stop] at rest
      exact ih rest
    | child j =>
      rw [stop] at rest
      cases rest
      rfl
    | driver requestNode =>
      rw [stop] at rest
      cases rest
      rfl

/-- A search that arrives somewhere arrives there in the larger tree too. -/
theorem Extends.findFile {id : NodeId} {path : List UInt8} {arrival : Arrival}
    (ok : findFile t id path = .ok arrival) (arrives : arrival ≠ .missing) :
    FsTree.findFile u id path = .ok arrival := by
  induction path using (measure List.length).wf.induction generalizing id with
  | _ path ih =>
    rw [FsTree.findFile] at ok ⊢
    by_cases atEnd : path = []
    · simpa only [atEnd, dif_pos] using ok
    · rw [dif_neg atEnd] at ok ⊢
      obtain ⟨children, hchildren, ok⟩ := Outcome.bind_eq_ok.mp ok
      obtain ⟨scan, hscan, ok⟩ := Outcome.bind_eq_ok.mp ok
      obtain ⟨more, hmore⟩ := extends_.childrenOf hchildren
      rw [hmore, Outcome.ok_bind, extends_.scanChildren hscan]
      cases scan with
      | missing =>
        cases ok
        exact absurd rfl arrives
      | driver requestNode => exact ok
      | child i => exact ih _ (afterFilename_shorter atEnd) ok

theorem Extends.afterLetters {id : NodeId} {path : List UInt8} {arrival : Arrival}
    (ok : afterLetters t id path = .ok arrival) (arrives : arrival ≠ .missing) :
    FsTree.afterLetters u id path = .ok arrival := by
  match path with
  | [] => exact ok
  | [c] => exact ok
  | c :: s :: path =>
    rw [FsTree.afterLetters] at ok ⊢
    by_cases start : c = colon ∧ isSeparator s
    · rw [if_pos start] at ok ⊢
      exact extends_.findFile ok arrives
    · rwa [if_neg start] at ok ⊢

theorem Extends.fastIndex {id : NodeId} {path : List UInt8} {arrival : Arrival}
    (ok : fastIndex t id path = .ok arrival) (arrives : arrival ≠ .missing) :
    FsTree.fastIndex u id path = .ok arrival := by
  induction path generalizing id with
  | nil => exact ok
  | cons c path ih =>
    rw [FsTree.fastIndex] at ok ⊢
    by_cases letter : isFsLetter c
    · rw [if_pos letter] at ok ⊢
      obtain ⟨children, hchildren, ok⟩ := Outcome.bind_eq_ok.mp ok
      obtain ⟨more, hmore⟩ := extends_.childrenOf hchildren
      rw [hmore, Outcome.ok_bind]
      cases drive : children[keGetFsDrive c]? with
      | none =>
        simp only [drive] at ok
        cases ok
        exact absurd rfl arrives
      | some i =>
        have present := (List.getElem?_eq_some_iff.mp drive).1
        simp only [drive] at ok
        rw [List.getElem?_append_left present, drive]
        exact ih ok
    · rw [if_neg letter] at ok ⊢
      exact extends_.afterLetters ok arrives

theorem Extends.arrive {path : List UInt8} {arrival : Arrival}
    (ok : arrive t path = .ok arrival) (arrives : arrival ≠ .missing) :
    FsTree.arrive u path = .ok arrival := by
  cases path with
  | nil => exact ok
  | cons c path =>
    rw [FsTree.arrive] at ok ⊢
    by_cases sep : isSeparator c
    · rw [if_pos sep] at ok ⊢
      exact extends_.findFile ok arrives
    · rw [if_neg sep] at ok ⊢
      exact extends_.fastIndex ok arrives

theorem Extends.keResolveFsPath {path : List UInt8} {id : NodeId}
    (resolves : keResolveFsPath t path = .ok (some id)) :
    FsTree.keResolveFsPath u path = .ok (some id) := by
  obtain ⟨arrival, arrives, result⟩ := Outcome.bind_eq_ok.mp resolves
  have somewhere : arrival ≠ .missing := by
    rintro rfl
    cases result
  rw [FsTree.keResolveFsPath, extends_.arrive arrives somewhere]
  exact result

end

/-- The old elements are still there after a reallocation that succeeds. -/
def Keeps (reallocateArray : Reallocation) : Prop :=
  ∀ old kept, reallocateArray old = some kept → kept = old

theorem withNode_extends (t : Tree) (name : CString) : Extends t (t.withNode name) := by
  refine ⟨List.prefix_refl _, fun i node hi => ⟨node, ?_, rfl, rfl, List.prefix_refl _⟩⟩
  have present := (List.getElem?_eq_some_iff.mp hi).1
  rwa [Tree.withNode, List.getElem?_append_left present]

theorem withNode_new (t : Tree) (name : CString) :
    (t.withNode name).nodes[t.nodes.length]? = some ⟨name, none, []⟩ := by
  simp [Tree.withNode]

theorem withNode_childrenOf {t : Tree} (name : CString) {id : NodeId} {children : List Nat}
    (isNode : t.childrenOf id = .ok children) :
    (t.withNode name).childrenOf id = .ok children := by
  cases id with
  | root => exact isNode
  | created i =>
    obtain ⟨node, found, ok⟩ := Outcome.bind_eq_ok.mp isNode
    have hi := nodeAt_eq_ok.mp found
    have present := (List.getElem?_eq_some_iff.mp hi).1
    have still : (t.withNode name).nodes[i]? = some node := by
      rwa [Tree.withNode, List.getElem?_append_left present]
    rw [Tree.childrenOf, nodeAt_eq_ok.mpr still]
    exact ok

/-- A new child comes behind the children already there, and nothing else changes. -/
theorem keAddFsNodeChild_extends {reallocateArray : Reallocation}
    (keeps : Keeps reallocateArray) {t u : Tree} {parent : NodeId} {child : Nat}
    (added : keAddFsNodeChild reallocateArray t parent child = .ok u) :
    Extends t u ∧ ∃ children, t.childrenOf parent = .ok children ∧
      u.childrenOf parent = .ok (children ++ [child]) := by
  obtain ⟨children, hchildren, added⟩ := Outcome.bind_eq_ok.mp added
  cases room : reallocateArray children with
  | none =>
    simp only [room] at added
    cases added
  | some kept =>
    have same := keeps children kept room
    subst same
    cases parent with
    | root =>
      simp only [room] at added
      cases added
      cases hchildren
      exact ⟨⟨⟨[child], rfl⟩, fun i node hi => ⟨node, hi, rfl, rfl, List.prefix_refl _⟩⟩,
        _, rfl, rfl⟩
    | created k =>
      simp only [room] at added
      cases added
      obtain ⟨parent, found, ok⟩ := Outcome.bind_eq_ok.mp hchildren
      cases ok
      have hk := nodeAt_eq_ok.mp found
      refine ⟨⟨List.prefix_refl _, fun i node hi => ?_⟩, parent.children, hchildren, ?_⟩
      · by_cases same : k = i
        · subst same
          have node_eq : parent = node := Option.some.inj (hk.symm.trans hi)
          subst node_eq
          exact ⟨{ parent with children := parent.children ++ [child] },
            by simp [hi], rfl, rfl, ⟨[child], rfl⟩⟩
        · exact ⟨node, by simp [hi, same], rfl, rfl, List.prefix_refl _⟩
      · have later : (t.nodes.modify k fun node =>
            { node with children := parent.children ++ [child] })[k]? =
            some { parent with children := parent.children ++ [child] } := by
          simp [hk]
        rw [Tree.childrenOf, nodeAt_eq_ok.mpr later]
        rfl

/-- The parts of a call of `KeCreateFsNode` that returns. -/
theorem keCreateFsNode_eq_ok {nodeRoom nameRoom : Bool} {reallocateArray : Reallocation}
    {t u : Tree} {path : List UInt8} {name : CString} {node : Nat} :
    keCreateFsNode nodeRoom nameRoom reallocateArray t path name = .ok (node, u) ↔
      nodeRoom = true ∧ nameRoom = true ∧ node = t.nodes.length ∧
      ∃ parent, keResolveFsPath (t.withNode name) path = .ok parent ∧
        keAddFsNodeChild reallocateArray (t.withNode name) (parent.getD .root) node = .ok u := by
  unfold keCreateFsNode
  constructor
  · intro created
    obtain ⟨_, hnode, created⟩ := Outcome.bind_eq_ok.mp created
    obtain ⟨_, hname, created⟩ := Outcome.bind_eq_ok.mp created
    obtain ⟨parent, resolved, created⟩ := Outcome.bind_eq_ok.mp created
    obtain ⟨w, added, created⟩ := Outcome.bind_eq_ok.mp created
    cases created
    exact ⟨Outcome.check_eq_ok.mp hnode, Outcome.check_eq_ok.mp hname, rfl, parent, resolved,
      added⟩
  · rintro ⟨hnode, hname, rfl, parent, resolved, added⟩
    rw [Outcome.check_of hnode, Outcome.check_of hname]
    simp only [Outcome.ok_bind, resolved, added]

theorem keCreateFsNode_extends {nodeRoom nameRoom : Bool} {reallocateArray : Reallocation}
    (keeps : Keeps reallocateArray) {t u : Tree} {path : List UInt8} {name : CString} {node : Nat}
    (created : keCreateFsNode nodeRoom nameRoom reallocateArray t path name = .ok (node, u)) :
    Extends (t.withNode name) u := by
  obtain ⟨_, _, _, _, _, added⟩ := keCreateFsNode_eq_ok.mp created
  exact (keAddFsNodeChild_extends keeps added).1

/-- Creating a node changes the node that a path resolves to for no path that
resolved to one before. -/
theorem created_node_reroutes_nothing (t u : Tree) (nodeRoom nameRoom : Bool)
    (reallocateArray : Reallocation) (keeps : Keeps reallocateArray)
    (parent : List UInt8) (name : CString) (node : Nat)
    (created : keCreateFsNode nodeRoom nameRoom reallocateArray t parent name = .ok (node, u))
    (path : List UInt8) (id : NodeId) (resolves : keResolveFsPath t path = .ok (some id)) :
    keResolveFsPath u path = .ok (some id) :=
  ((withNode_extends t name).trans (keCreateFsNode_extends keeps created)).keResolveFsPath resolves

/-- The tree after `KeCreateFsNode("/", "AD")`. -/
def oneNode : Tree := ⟨[0], [⟨nameAD, none, []⟩]⟩

theorem keResolveFsPath_slash (t : Tree) : keResolveFsPath t [0x61] = .ok (some .root) := by
  simp [keResolveFsPath, arrive, isSeparator, findFile, Arrival.result]

theorem some_keeps : Keeps some := fun _ _ same => (Option.some.inj same).symm

theorem oneNode_created :
    keCreateFsNode true true some emptyTree [0x61] nameAD = .ok (0, oneNode) := by
  rw [keCreateFsNode_eq_ok]
  exact ⟨rfl, rfl, rfl, some .root, keResolveFsPath_slash _, rfl⟩

/-- "BC" is created next to "AD". -/
def twoNodes : Tree := ⟨[0, 1], [⟨nameAD, none, []⟩, ⟨nameBC, none, []⟩]⟩

theorem twoNodes_created :
    keCreateFsNode true true some oneNode [0x61] nameBC = .ok (1, twoNodes) := by
  rw [keCreateFsNode_eq_ok]
  exact ⟨rfl, rfl, rfl, some .root, keResolveFsPath_slash _, rfl⟩

/-- "/AD" is the same node when "BC", which looks like it, stands behind. -/
theorem oneNode_reroutes_nothing :
    keResolveFsPath twoNodes [0x61, 0xC1, 0xC4] = .ok (some (.created 0)) :=
  created_node_reroutes_nothing oneNode twoNodes true true some some_keeps [0x61] nameBC 1
    twoNodes_created [0x61, 0xC1, 0xC4] (.created 0) (by decide +kernel)

/-- Every child is a node of the tree. -/
structure Tree.InRange (t : Tree) : Prop where
  root : ∀ i ∈ t.rootChildren, i < t.nodes.length
  node : ∀ node ∈ t.nodes, ∀ i ∈ node.children, i < t.nodes.length

/-- A call that builds the tree: a node is created, or an existing one gets a driver. -/
inductive TreeCall where
  | create (nodeRoom nameRoom : Bool) (reallocateArray : Reallocation) (path : List UInt8)
      (name : CString)
  | setDriver (i : Nat) (requestNode : Option (List UInt8 → Option NodeId))

def treeStep (t : Tree) : TreeCall → Outcome Tree
  | .create nodeRoom nameRoom reallocateArray path name => do
    let (_, t) ← keCreateFsNode nodeRoom nameRoom reallocateArray t path name
    .ok t
  | .setDriver i requestNode =>
    .ok { t with nodes := t.nodes.modify i fun node => { node with requestNode := requestNode } }

def TreeCall.Keeps : TreeCall → Prop
  | .create _ _ reallocateArray _ _ => FsTree.Keeps reallocateArray
  | .setDriver _ _ => True

theorem Tree.InRange.children {t : Tree} (inRange : t.InRange) {id : NodeId}
    {children : List Nat} (ok : t.childrenOf id = .ok children) :
    ∀ i ∈ children, i < t.nodes.length := by
  cases id with
  | root =>
    cases ok
    exact inRange.root
  | created k =>
    obtain ⟨node, found, ok⟩ := Outcome.bind_eq_ok.mp ok
    cases ok
    exact inRange.node node (List.mem_of_getElem? (nodeAt_eq_ok.mp found))

/-- The identifier is that of a node of the tree. -/
def Valid (t : Tree) : NodeId → Prop
  | .root => True
  | .created i => i < t.nodes.length

theorem Valid.childrenOf {t : Tree} {id : NodeId} (valid : Valid t id) :
    ∃ children, t.childrenOf id = .ok children := by
  cases id with
  | root => exact ⟨_, rfl⟩
  | created i =>
    have found : t.nodeAt i = .ok t.nodes[i] := nodeAt_eq_ok.mpr (List.getElem?_eq_getElem valid)
    exact ⟨t.nodes[i].children, by rw [Tree.childrenOf, found]; rfl⟩

theorem Tree.InRange.valid {t : Tree} (inRange : t.InRange) {id : NodeId} {children : List Nat}
    {i : Nat} (ok : t.childrenOf id = .ok children) (member : i ∈ children) :
    Valid t (.created i) := inRange.children ok i member

theorem withNode_inRange {t : Tree} (inRange : t.InRange) (name : CString) :
    (t.withNode name).InRange := by
  constructor
  · intro i hi
    have := inRange.root i hi
    simp only [Tree.withNode, List.length_append, List.length_singleton]
    omega
  · intro node member i hi
    simp only [Tree.withNode, List.length_append, List.length_singleton]
    rcases List.mem_append.mp member with old | new
    · have := inRange.node node old i hi
      omega
    · cases List.mem_singleton.mp new
      cases hi

theorem Tree.InRange.modify {t : Tree} (inRange : t.InRange) (k : Nat) {change : FsNode → FsNode}
    (kept : ∀ node ∈ t.nodes, ∀ i ∈ (change node).children, i < t.nodes.length) :
    Tree.InRange { t with nodes := t.nodes.modify k change } := by
  refine ⟨by simpa using inRange.root, fun node member => ?_⟩
  obtain ⟨i, hi⟩ := List.mem_iff_getElem?.mp member
  rw [List.getElem?_modify] at hi
  obtain ⟨old, hold, rfl⟩ := Option.map_eq_some_iff.mp hi
  rw [List.length_modify]
  have inTree := List.mem_of_getElem? hold
  by_cases same : k = i
  · simpa [same] using kept old inTree
  · simpa [same] using inRange.node old inTree

theorem keAddFsNodeChild_inRange {reallocateArray : Reallocation}
    (keeps : Keeps reallocateArray) {t u : Tree} {parent : NodeId} {child : Nat}
    (inRange : t.InRange) (hchild : child < t.nodes.length)
    (added : keAddFsNodeChild reallocateArray t parent child = .ok u) : u.InRange := by
  obtain ⟨children, hchildren, added⟩ := Outcome.bind_eq_ok.mp added
  have below : ∀ i ∈ children ++ [child], i < t.nodes.length := by
    intro i hi
    rcases List.mem_append.mp hi with old | new
    · exact inRange.children hchildren i old
    · cases List.mem_singleton.mp new
      exact hchild
  cases room : reallocateArray children with
  | none =>
    simp only [room] at added
    cases added
  | some kept =>
    have same := keeps children kept room
    subst same
    simp only [room] at added
    cases parent with
    | root =>
      cases added
      exact ⟨below, inRange.node⟩
    | created k =>
      cases added
      exact inRange.modify k fun _ _ => below

theorem treeStep_inRange {t u : Tree} {call : TreeCall} (keeps : call.Keeps)
    (inRange : t.InRange) (ran : treeStep t call = .ok u) : u.InRange := by
  cases call with
  | create nodeRoom nameRoom reallocateArray path name =>
    obtain ⟨⟨node, w⟩, created, ok⟩ := Outcome.bind_eq_ok.mp ran
    cases ok
    obtain ⟨_, _, rfl, parent, _, added⟩ := keCreateFsNode_eq_ok.mp created
    refine keAddFsNodeChild_inRange keeps (withNode_inRange inRange name) ?_ added
    simp [Tree.withNode]
  | setDriver k requestNode =>
    cases ran
    exact inRange.modify k inRange.node

theorem run_inRange {calls : List TreeCall} (keeps : ∀ call ∈ calls, call.Keeps) {t u : Tree}
    (inRange : t.InRange) (ran : Runs.run treeStep t calls = .ok u) : u.InRange := by
  have meets : Runs.Meets treeStep (fun _ call => call.Keeps) t calls :=
    Runs.meets_of_forall keeps
  exact Runs.run_invariant_of_meets (fun _ _ _ now keeps step => treeStep_inRange keeps now step)
    inRange meets ran

end FsTree
