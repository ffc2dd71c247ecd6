import UDos.Kernel.FsGrowth

/-!
# Paths of created nodes

`KeCreateFsNode` is followed by `KeResolveFsPath` of the parent path joined
with the new name. The search of the joined path goes on where that of the
parent path arrives, and there it stops at the first name with the length and
the character sum of the new one.
-/

namespace FsTree

open KernelMemory

/-- A path that is not empty and does not end in a separator. -/
def needsSeparator (path : List UInt8) : Bool :=
  match path.getLast? with
  | none => false
  | some c => !isSeparator c

/-- A path, a separator when it does not end in one, and a name. -/
def joinPath (path : List UInt8) (separator : UInt8) (name : List UInt8) : List UInt8 :=
  path ++ (if needsSeparator path then [separator] else []) ++ name

theorem joinPath_nil (separator : UInt8) (name : List UInt8) :
    joinPath [] separator name = name := rfl

/-- What comes before the path does not change how it is joined, when the path
does not start there. -/
theorem joinPath_append (start path : List UInt8) (separator : UInt8) (name : List UInt8)
    (closed : path = [] → needsSeparator start = false) :
    joinPath (start ++ path) separator name = start ++ joinPath path separator name := by
  have same : needsSeparator (start ++ path) = needsSeparator path := by
    cases path with
    | nil => rw [List.append_nil, closed rfl, needsSeparator, List.getLast?_nil]
    | cons c rest =>
      have last : (start ++ c :: rest).getLast? = (c :: rest).getLast? :=
        List.getLast?_append_of_ne_nil _ (by simp)
      simp only [needsSeparator, last]
  simp only [joinPath, same, List.append_assoc]

theorem component_cases (path : List UInt8) :
    (∀ c ∈ path, isSeparator c = false) ∨
      ∃ component c rest, path = component ++ c :: rest ∧
        (∀ d ∈ component, isSeparator d = false) ∧ isSeparator c := by
  induction path with
  | nil => exact Or.inl (by simp)
  | cons c path ih =>
    by_cases sep : isSeparator c
    · exact Or.inr ⟨[], c, path, rfl, by simp, sep⟩
    · have plain : isSeparator c = false := by simpa using sep
      rcases ih with all | ⟨component, d, rest, rfl, free, sep⟩
      · exact Or.inl (by simpa [plain] using all)
      · exact Or.inr ⟨c :: component, d, rest, rfl, by simpa [plain] using free, sep⟩

theorem filenameLen_component {component : List UInt8}
    (free : ∀ d ∈ component, isSeparator d = false) (rest : List UInt8) :
    filenameLen (component ++ rest) = component.length + filenameLen rest := by
  induction component with
  | nil => simp
  | cons c component ih =>
    rw [List.cons_append, filenameLen_cons (free c List.mem_cons_self),
      ih fun d hd => free d (List.mem_cons_of_mem c hd), List.length_cons]
    omega

theorem filenameLen_whole {component : List UInt8}
    (free : ∀ d ∈ component, isSeparator d = false) :
    filenameLen component = component.length := by
  simpa [filenameLen] using filenameLen_component free []

theorem filenameLen_front {component : List UInt8} {c : UInt8}
    (free : ∀ d ∈ component, isSeparator d = false) (sep : isSeparator c) (rest : List UInt8) :
    filenameLen (component ++ c :: rest) = component.length := by
  rw [filenameLen_component free, filenameLen_cons_of_separator sep, Nat.add_zero]

theorem afterFilename_whole {component : List UInt8}
    (free : ∀ d ∈ component, isSeparator d = false) : afterFilename component = [] := by
  simp [afterFilename, filenameLen_whole free]

theorem afterFilename_front {component : List UInt8} {c : UInt8}
    (free : ∀ d ∈ component, isSeparator d = false) (sep : isSeparator c) (rest : List UInt8) :
    afterFilename (component ++ c :: rest) = rest := by
  simp [afterFilename, filenameLen_front free sep, sep]

/-- The component at the front of a path. -/
def component (path : List UInt8) : List UInt8 := path.take (filenameLen path)

theorem component_length (path : List UInt8) : (component path).length = filenameLen path := by
  rw [component, List.length_take, filenameLen]
  omega

/-- A turn of the loop stops at a driver, or at a name that looks like the component. -/
theorem scanChild_eq (path : List UInt8) (i : Nat) (child : FsNode) :
    scanChild path i child =
      match child.requestNode with
      | some requestNode => .driver requestNode
      | none => if LooksLike child.name.chars (component path) then .child i else .missing := by
  unfold scanChild
  cases child.requestNode with
  | some requestNode => rfl
  | none =>
    simp only
    by_cases differ : child.name.chars.length ≠ filenameLen path
    · have unlike : ¬ LooksLike child.name.chars (component path) := by
        rintro ⟨same, _⟩
        exact differ (same.trans (component_length path))
      rw [if_pos differ, if_neg unlike]
    · have same : child.name.chars.length = filenameLen path := not_not.mp differ
      have compares := keCompareStringEx_eq_zero_iff (s := path) (t := child.name.chars)
        (n := filenameLen path) (by unfold filenameLen; omega) (by omega)
      have whole : child.name.chars.take (filenameLen path) = child.name.chars := by
        rw [← same, List.take_length]
      rw [whole] at compares
      have looks : LooksLike (path.take (filenameLen path)) child.name.chars ↔
          LooksLike child.name.chars (component path) :=
        ⟨fun h => ⟨h.1.symm, h.2.symm⟩, fun h => ⟨h.1.symm, h.2.symm⟩⟩
      rw [if_neg differ]
      simp only [compares, looks]

theorem scanChildren_congr {t : Tree} {path other : List UInt8}
    (same : component path = component other) (children : List Nat) :
    scanChildren t path children = scanChildren t other children := by
  induction children with
  | nil => rfl
  | cons i others ih =>
    have turn : scanChild path i = scanChild other i := by
      funext child
      rw [scanChild_eq, scanChild_eq, same]
    rw [scanChildren, scanChildren, turn, ih]

/-- Joining a name to a path that is not at its end keeps its first component. -/
theorem joinPath_component {path : List UInt8} (more : path ≠ []) {separator : UInt8}
    (sep : isSeparator separator) (name : List UInt8) :
    component (joinPath path separator name) = component path ∧
      afterFilename (joinPath path separator name) =
        joinPath (afterFilename path) separator name := by
  rcases component_cases path with free | ⟨front, c, rest, rfl, free, sep'⟩
  · have last : isSeparator (path.getLast more) = false := free _ (List.getLast_mem more)
    have join : joinPath path separator name = path ++ separator :: name := by
      simp [joinPath, needsSeparator, List.getLast?_eq_getLast_of_ne_nil more, last]
    rw [join]
    constructor
    · simp [component, filenameLen_front free sep, filenameLen_whole free]
    · rw [afterFilename_front free sep, afterFilename_whole free, joinPath_nil]
  · have join : joinPath (front ++ c :: rest) separator name =
        front ++ c :: joinPath rest separator name := by
      have start := joinPath_append (front ++ [c]) rest separator name (by
        intro _
        simp [needsSeparator, sep'])
      simpa using start
    rw [join]
    constructor
    · simp [component, filenameLen_front free sep']
    · rw [afterFilename_front free sep', afterFilename_front free sep']

/-- What the search of a path arrives at, the search of the joined path goes on from. -/
def Arrival.join (t : Tree) (separator : UInt8) (name : List UInt8) :
    Arrival → Outcome Arrival
  | .node id => findFile t id name
  | .driver requestNode path => .ok (.driver requestNode (joinPath path separator name))
  | .missing => .ok .missing

theorem findFile_join {t : Tree} {separator : UInt8} (sep : isSeparator separator)
    (name : List UInt8) {id : NodeId} {path : List UInt8} {arrival : Arrival}
    (ok : findFile t id path = .ok arrival) :
    findFile t id (joinPath path separator name) = arrival.join t separator name := by
  induction path using (measure List.length).wf.induction generalizing id with
  | _ path ih =>
    by_cases atEnd : path = []
    · subst atEnd
      rw [findFile] at ok
      cases ok
      rfl
    · obtain ⟨same, after⟩ := joinPath_component atEnd sep name
      have joinedMore : joinPath path separator name ≠ [] := by
        simp [joinPath, atEnd]
      rw [findFile, dif_neg atEnd] at ok
      rw [findFile, dif_neg joinedMore, after]
      obtain ⟨children, hchildren, ok⟩ := Outcome.bind_eq_ok.mp ok
      obtain ⟨scan, hscan, ok⟩ := Outcome.bind_eq_ok.mp ok
      rw [hchildren, Outcome.ok_bind, scanChildren_congr same, hscan, Outcome.ok_bind]
      cases scan with
      | missing =>
        cases ok
        rfl
      | driver requestNode =>
        cases ok
        rfl
      | child i => exact ih _ (afterFilename_shorter atEnd) ok

/-- The path starts with a separator, or with letters, a colon and a separator. -/
def Rooted (path : List UInt8) : Prop :=
  (∃ c rest, path = c :: rest ∧ isSeparator c) ∨
    ∃ letters c rest, path = letters ++ colon :: c :: rest ∧
      (∀ d ∈ letters, isFsLetter d) ∧ isSeparator c

section
variable {t : Tree} {separator : UInt8} {arrival : Arrival}

theorem afterLetters_colon {id : NodeId} {c : UInt8} (sep : isSeparator c) (path : List UInt8) :
    afterLetters t id (colon :: c :: path) = findFile t id path := by
  simp [afterLetters, sep]

theorem fastIndex_join (sep : isSeparator separator) (name : List UInt8) {id : NodeId}
    (letters : List UInt8) {path : List UInt8} {c : UInt8} (all : ∀ d ∈ letters, isFsLetter d)
    (sep' : isSeparator c)
    (ok : fastIndex t id (letters ++ colon :: c :: path) = .ok arrival) :
    fastIndex t id (letters ++ colon :: c :: joinPath path separator name) =
      arrival.join t separator name := by
  have notLetter : ¬ isFsLetter colon := by decide
  induction letters generalizing id with
  | nil =>
    rw [List.nil_append, fastIndex, if_neg notLetter, afterLetters_colon sep'] at ok ⊢
    exact findFile_join sep name ok
  | cons d letters ih =>
    have letter : isFsLetter d := all d List.mem_cons_self
    rw [List.cons_append, fastIndex, if_pos letter] at ok ⊢
    obtain ⟨children, hchildren, ok⟩ := Outcome.bind_eq_ok.mp ok
    rw [hchildren, Outcome.ok_bind]
    cases drive : children[keGetFsDrive d]? with
    | none =>
      simp only [drive] at ok
      cases ok
      rfl
    | some i =>
      simp only [drive] at ok
      exact ih (fun e he => all e (List.mem_cons_of_mem d he)) ok

/-- The search of a joined path goes on where that of the path arrives. -/
theorem arrive_join (sep : isSeparator separator) (name : List UInt8) {path : List UInt8}
    (rooted : Rooted path) (ok : arrive t path = .ok arrival) :
    arrive t (joinPath path separator name) = arrival.join t separator name := by
  have separated : ∀ c rest, isSeparator c → arrive t (c :: rest) = .ok arrival →
      arrive t (joinPath (c :: rest) separator name) = arrival.join t separator name := by
    intro c rest start ok
    have join := joinPath_append [c] rest separator name (by
      intro _
      simp [needsSeparator, start])
    rw [List.singleton_append, List.singleton_append] at join
    rw [arrive, if_pos start] at ok
    rw [join, arrive, if_pos start]
    exact findFile_join sep name ok
  rcases rooted with ⟨c, rest, rfl, start⟩ | ⟨letters, c, rest, rfl, all, sep'⟩
  · exact separated c rest start ok
  · have join : joinPath (letters ++ colon :: c :: rest) separator name =
        letters ++ colon :: c :: joinPath rest separator name := by
      have start := joinPath_append (letters ++ [colon, c]) rest separator name (by
        intro _
        simp [needsSeparator, sep'])
      simpa using start
    cases letters with
    | nil =>
      have plain : ¬ isSeparator colon := by decide
      rw [List.nil_append, arrive, if_neg plain] at ok
      rw [join, List.nil_append, arrive, if_neg plain]
      exact fastIndex_join sep name [] all sep' ok
    | cons d letters =>
      -- the backslash passes for a letter, and then the path starts with it
      by_cases start : isSeparator d
      · exact separated d _ start ok
      · rw [List.cons_append, arrive, if_neg start] at ok
        rw [join, List.cons_append, arrive, if_neg start]
        exact fastIndex_join sep name (d :: letters) all sep' ok

end

theorem plain_component {name : List UInt8} (plain : ∀ c ∈ name, isSeparator c = false) :
    component name = name ∧ afterFilename name = [] :=
  ⟨by rw [component, filenameLen_whole plain, List.take_length], afterFilename_whole plain⟩

/-- Among children without drivers the loop stops at a name that looks like
the component, or passes them all. -/
theorem scanChildren_plain {t : Tree} (path : List UInt8) {children : List Nat}
    (present : ∀ i ∈ children, ∃ child, t.nodes[i]? = some child ∧ child.requestNode = none) :
    (scanChildren t path children = .ok .missing ∧
      ∀ i ∈ children, ∀ child, t.nodes[i]? = some child →
        ¬ LooksLike child.name.chars (component path)) ∨
    ∃ i ∈ children, scanChildren t path children = .ok (.child i) ∧
      ∃ child, t.nodes[i]? = some child ∧ LooksLike child.name.chars (component path) := by
  induction children with
  | nil => exact Or.inl ⟨rfl, by simp⟩
  | cons i others ih =>
    obtain ⟨child, hchild, noDriver⟩ := present i List.mem_cons_self
    have turn := scanChild_eq path i child
    simp only [noDriver] at turn
    rw [scanChildren, nodeAt_eq_ok.mpr hchild, Outcome.ok_bind, turn]
    by_cases looks : LooksLike child.name.chars (component path)
    · rw [if_pos looks]
      exact Or.inr ⟨i, List.mem_cons_self, rfl, child, hchild, looks⟩
    · rw [if_neg looks]
      rcases ih fun j hj => present j (List.mem_cons_of_mem i hj) with
        ⟨none, unlike⟩ | ⟨j, hj, stops, hit⟩
      · refine Or.inl ⟨none, fun j hj other hother => ?_⟩
        rcases List.mem_cons.mp hj with rfl | hj
        · cases hchild.symm.trans hother
          exact looks
        · exact unlike j hj other hother
      · exact Or.inr ⟨j, List.mem_cons_of_mem i hj, stops, hit⟩

/-- None of these children has a name that looks like the given one. -/
def Unlike (t : Tree) (children : List Nat) (name : CString) : Prop :=
  ∀ i ∈ children, ∀ child, t.nodes[i]? = some child → ¬ LooksLike child.name.chars name.chars

/-- The name behind its look-alikes is found under a node exactly when there are none. -/
theorem findFile_last_child {t u : Tree} (extends_ : Extends t u) {id : NodeId}
    {children : List Nat} {new : Nat} {name : CString} {added : FsNode}
    (later : u.childrenOf id = .ok (children ++ [new]))
    (present : ∀ i ∈ children, ∃ child, t.nodes[i]? = some child ∧ child.requestNode = none)
    (fresh : new ∉ children) (hnew : u.nodes[new]? = some added) (hname : added.name = name)
    (hrequest : added.requestNode = none) (nonempty : name.chars ≠ [])
    (plain : ∀ c ∈ name.chars, isSeparator c = false) :
    ∃ i, findFile u id name.chars = .ok (.node (.created i)) ∧
      (i = new ↔ Unlike t children name) := by
  obtain ⟨whole, rest⟩ := plain_component plain
  have ends : ∀ i, findFile u (.created i) (afterFilename name.chars) =
      .ok (.node (.created i)) := by
    intro i
    rw [rest, findFile, dif_pos rfl]
  have last : scanChildren u name.chars [new] = .ok (.child new) := by
    have turn := scanChild_eq name.chars new added
    rw [hrequest, hname, whole] at turn
    simp only [looksLike_refl, if_true] at turn
    rw [scanChildren, nodeAt_eq_ok.mpr hnew, Outcome.ok_bind, turn]
    rfl
  rw [findFile, dif_neg nonempty, later, Outcome.ok_bind]
  have stop := scanChildren_plain name.chars present
  rw [whole] at stop
  rcases stop with ⟨none, unlike⟩ | ⟨i, hi, stops, child, hchild, looks⟩
  · rw [extends_.scanChildren none, Scan.orElse, last]
    exact ⟨new, ends new, iff_of_true rfl unlike⟩
  · rw [extends_.scanChildren stops]
    refine ⟨i, ends i, iff_of_false ?_ ?_⟩
    · rintro rfl
      exact fresh hi
    · exact fun unlike => unlike i hi child hchild looks

/-- The parent path reaches its node in the tree, and none of the node's
children looks like the new name; or a driver is asked for the parent path,
and it answers the rest of the joined path with the new node. -/
def NewNodeFound (t : Tree) (path : List UInt8) (children : List Nat) (separator : UInt8)
    (name : CString) (node : Nat) : Prop :=
  match arrive t path with
  | .ok (.node _) => Unlike t children name
  | .ok (.driver requestNode rest) =>
      requestNode (joinPath rest separator name.chars) = some (.created node)
  | _ => False

/-- In a tree built by calls, under a parent path that resolves to a node
without drivers among its children, the joined path resolves to the new node
exactly when no child looks like it, or a driver on the way says so. -/
theorem created_node_resolves_iff (calls : List TreeCall) (keptBefore : ∀ call ∈ calls, call.Keeps)
    (t : Tree) (reached : Runs.run treeStep emptyTree calls = .ok t)
    (path : List UInt8) (rooted : Rooted path) (parent : NodeId)
    (resolves : keResolveFsPath t path = .ok (some parent))
    (children : List Nat) (isNode : t.childrenOf parent = .ok children)
    (noDriver : ∀ i ∈ children, ∀ child, t.nodes[i]? = some child → child.requestNode = none)
    (separator : UInt8) (sep : isSeparator separator)
    (name : CString) (nonempty : name.chars ≠ [])
    (plain : ∀ c ∈ name.chars, isSeparator c = false)
    (nodeRoom nameRoom : Bool) (reallocateArray : Reallocation) (keeps : Keeps reallocateArray)
    (node : Nat) (u : Tree)
    (created : keCreateFsNode nodeRoom nameRoom reallocateArray t path name = .ok (node, u)) :
    keResolveFsPath u (joinPath path separator name.chars) = .ok (some (.created node)) ↔
      NewNodeFound t path children separator name node := by
  have inRange : t.InRange :=
    run_inRange keptBefore ⟨by simp [emptyTree], by simp [emptyTree]⟩ reached
  have grown := withNode_extends t name
  have extends_ := keCreateFsNode_extends keeps created
  obtain ⟨_, _, rfl, target, hparent, added⟩ := keCreateFsNode_eq_ok.mp created
  rw [grown.keResolveFsPath resolves] at hparent
  cases hparent
  obtain ⟨_, _, hchildren, later⟩ := keAddFsNodeChild_extends keeps added
  rw [Option.getD_some, withNode_childrenOf name isNode] at hchildren
  cases hchildren
  obtain ⟨arrival, arrives, result⟩ := Outcome.bind_eq_ok.mp resolves
  have somewhere : arrival ≠ .missing := by
    rintro rfl
    cases result
  have joined := arrive_join sep name.chars rooted
    ((grown.trans extends_).arrive arrives somewhere)
  rw [NewNodeFound, keResolveFsPath, joined, arrives]
  cases arrival with
  | missing => exact absurd rfl somewhere
  | driver requestNode rest => simp [Arrival.join, Arrival.result]
  | node id =>
    cases result
    have present : ∀ i ∈ children, ∃ child, t.nodes[i]? = some child ∧
        child.requestNode = none := by
      intro i hi
      have hlt := inRange.children isNode i hi
      exact ⟨_, List.getElem?_eq_getElem hlt,
        noDriver i hi _ (List.getElem?_eq_getElem hlt)⟩
    have fresh : t.nodes.length ∉ children := fun member =>
      Nat.lt_irrefl _ (inRange.children isNode _ member)
    obtain ⟨new, hnew, hname, hrequest, _⟩ := extends_.nodes _ _ (withNode_new t name)
    have sameName : new.name = name := hname
    obtain ⟨i, found, iff⟩ := findFile_last_child (grown.trans extends_) later present fresh
      hnew sameName hrequest nonempty plain
    rw [Option.getD_some] at found
    simp only [Arrival.join, found, ← iff]
    simp [Arrival.result]

/-- The call that creates "AD". -/
def createAD : TreeCall := .create true true some [0x61] nameAD

theorem createAD_keeps : ∀ call ∈ [createAD], call.Keeps := by
  intro call member
  cases List.mem_singleton.mp member
  exact some_keeps

theorem oneNode_built : Runs.run treeStep emptyTree [createAD] = .ok oneNode := by
  simp only [Runs.run, treeStep, createAD, oneNode_created, Outcome.ok_bind]

/-- "BD" next to "AD". -/
def nameBD : CString := ⟨[0xC2, 0xC4], by decide⟩

def differentNames : Tree := ⟨[0, 1], [⟨nameAD, none, []⟩, ⟨nameBD, none, []⟩]⟩

theorem created_node_resolves_first :
    keResolveFsPath differentNames (joinPath [0x61] 0x61 nameBD.chars) = .ok (some (.created 1)) ↔
      NewNodeFound oneNode [0x61] [0] 0x61 nameBD 1 := by
  have created : keCreateFsNode true true some oneNode [0x61] nameBD = .ok (1, differentNames) := by
    rw [keCreateFsNode_eq_ok]
    exact ⟨rfl, rfl, rfl, some .root, keResolveFsPath_slash _, rfl⟩
  have noDriver : ∀ i ∈ [0], ∀ child, oneNode.nodes[i]? = some child → child.requestNode = none := by
    rintro i member child found
    cases List.mem_singleton.mp member
    cases found
    rfl
  exact created_node_resolves_iff [createAD] createAD_keeps oneNode oneNode_built [0x61]
    (Or.inl ⟨0x61, [], rfl, by decide⟩) .root (keResolveFsPath_slash _) [0] rfl noDriver
    0x61 (by decide) nameBD (by decide) (by decide +kernel) true true some some_keeps 1 differentNames
    created

/-- After `KeCreateFsNode("/", "AD")` and `KeCreateFsNode("/", "BC")`, the path
"/BC" resolves to the node of "AD". -/
theorem created_node_shadowed :
    keCreateFsNode true true some oneNode [0x61] nameBC = .ok (1, twoNodes) ∧
      keResolveFsPath twoNodes (joinPath [0x61] 0x61 nameBC.chars) = .ok (some (.created 0)) :=
  ⟨twoNodes_created, by decide +kernel⟩

end FsTree
