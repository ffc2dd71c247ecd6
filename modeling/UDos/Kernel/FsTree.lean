import UDos.Kernel.Memory
import UDos.Library.Runs

/-!
# The node tree

`KeResolveFsPath` and `KeCreateFsNode` of `fs.c` on a tree of nodes. The walk
is followed to its arrival: a node, a driver that is asked for the rest of the
path, or nothing. Characters are those of the EBCDIC execution set.
-/

namespace FsTree

open KernelMemory

/-- Slash, backslash and dot. -/
def separators : List UInt8 := [0x61, 0xE0, 0x4B]
def colon : UInt8 := 0x7A

def isSeparator (c : UInt8) : Bool := c == 0x61 || c == 0xE0 || c == 0x4B

/-- The test of the fast-indexing loop. Its ranges hold more than the letters:
the backslash is in the first one. -/
def isFsLetter (c : UInt8) : Bool := (0xC1 ≤ c && c ≤ 0xE9) || (0x81 ≤ c && c ≤ 0xA9)

/-- The static root node, or a created node by its index. -/
inductive NodeId where
  | root
  | created (i : Nat)
deriving DecidableEq

/-- `struct fs_node`; `requestNode` is the callback of its driver, if both are there. -/
structure FsNode where
  name : CString
  requestNode : Option (List UInt8 → Option NodeId)
  children : List Nat

structure Tree where
  rootChildren : List Nat
  nodes : List FsNode

def emptyTree : Tree := ⟨[], []⟩

def Tree.nodeAt (t : Tree) (i : Nat) : Outcome FsNode :=
  match t.nodes[i]? with
  | some node => .ok node
  | none => .fault

def Tree.childrenOf (t : Tree) : NodeId → Outcome (List Nat)
  | .root => .ok t.rootChildren
  | .created i => do
    let node ← t.nodeAt i
    .ok node.children

/-- `KeGetFsDrive`. -/
def keGetFsDrive (c : UInt8) : Nat :=
  let letter := c.toNat
  let letter :=
    if 0x81 ≤ letter ∧ letter ≤ 0x89 then 0xC1 + (letter - 0x81)
    else if 0x91 ≤ letter ∧ letter ≤ 0x99 then 0xD1 + (letter - 0x91)
    else if 0xA2 ≤ letter ∧ letter ≤ 0xA9 then 0xE2 + (letter - 0xA2)
    else letter
  if 0xC1 ≤ letter ∧ letter ≤ 0xC9 then letter - 0xC1
  else if 0xD1 ≤ letter ∧ letter ≤ 0xD9 then letter - 0xD1
  else if 0xE2 ≤ letter ∧ letter ≤ 0xE9 then letter - 0xE2
  else letter

/-- Where the walk ends. -/
inductive Arrival where
  | node (id : NodeId)
  | driver (requestNode : List UInt8 → Option NodeId) (path : List UInt8)
  | missing

/-- The node that the search returns, none for NULL. -/
def Arrival.result : Arrival → Option NodeId
  | .node id => some id
  | .driver requestNode path => requestNode path
  | .missing => none

/-- What the loop over the children of a node stops at. -/
inductive Scan where
  | child (i : Nat)
  | driver (requestNode : List UInt8 → Option NodeId)
  | missing

/-- The length of the component at the front of a path. -/
def filenameLen (path : List UInt8) : Nat :=
  path.length - (keBreakCharPtrString path separators).length

/-- The path after that component and the separator behind it. -/
def afterFilename (path : List UInt8) : List UInt8 :=
  match path.drop (filenameLen path) with
  | [] => []
  | c :: rest => if isSeparator c then rest else c :: rest

/-- One turn of that loop, `missing` when it goes on to the next child. -/
def scanChild (path : List UInt8) (i : Nat) (child : FsNode) : Scan :=
  match child.requestNode with
  | some requestNode => .driver requestNode
  | none =>
    if child.name.chars.length ≠ filenameLen path then .missing
    else if keCompareStringEx path child.name.chars (filenameLen path) = 0 then .child i
    else .missing

/-- The loop stops here or goes on. -/
def Scan.orElse (scan : Scan) (others : Outcome Scan) : Outcome Scan :=
  match scan with
  | .missing => others
  | found => .ok found

def scanChildren (t : Tree) (path : List UInt8) : List Nat → Outcome Scan
  | [] => .ok .missing
  | i :: others => do
    let child ← t.nodeAt i
    (scanChild path i child).orElse (scanChildren t path others)

theorem isSeparator_iff {c : UInt8} : isSeparator c ↔ c ∈ separators := by
  simp [isSeparator, separators, or_assoc]

theorem filenameLen_cons_of_separator {c : UInt8} (sep : isSeparator c) (path : List UInt8) :
    filenameLen (c :: path) = 0 := by
  simp [filenameLen, keBreakCharPtrString, isSeparator_iff.mp sep]

theorem keBreakCharPtrString_length_le (s accept : List UInt8) :
    (keBreakCharPtrString s accept).length ≤ s.length := by
  induction s with
  | nil => exact Nat.le_refl 0
  | cons c s ih =>
    rw [keBreakCharPtrString]
    split
    · exact Nat.le_refl _
    · exact Nat.le_succ_of_le ih

theorem filenameLen_cons {c : UInt8} (plain : isSeparator c = false) (path : List UInt8) :
    filenameLen (c :: path) = filenameLen path + 1 := by
  have member : c ∉ separators := mt isSeparator_iff.mpr (by simp [plain])
  have le := keBreakCharPtrString_length_le path separators
  simp only [filenameLen, keBreakCharPtrString, if_neg member, List.length_cons]
  omega

/-- Every component takes something off a path that is not at its end. -/
theorem afterFilename_shorter {path : List UInt8} (more : path ≠ []) :
    (afterFilename path).length < path.length := by
  obtain ⟨c, rest, rfl⟩ := List.exists_cons_of_ne_nil more
  cases sep : isSeparator c with
  | true => simp [afterFilename, filenameLen_cons_of_separator sep, sep]
  | false =>
    have dropped : ((c :: rest).drop (filenameLen (c :: rest))).length ≤ rest.length := by
      rw [filenameLen_cons sep, List.length_drop, List.length_cons]
      omega
    unfold afterFilename
    cases left : (c :: rest).drop (filenameLen (c :: rest)) with
    | nil => simp
    | cons d others =>
      rw [left] at dropped
      simp only [List.length_cons] at dropped ⊢
      split
      · omega
      · simp only [List.length_cons]
        omega

/-- The loop from the label `find_file` on. -/
def findFile (t : Tree) (id : NodeId) (path : List UInt8) : Outcome Arrival :=
  if _atEnd : path = [] then .ok (.node id)
  else do
    let children ← t.childrenOf id
    match ← scanChildren t path children with
    | .missing => .ok .missing
    | .driver requestNode => .ok (.driver requestNode (afterFilename path))
    | .child i => findFile t (.created i) (afterFilename path)
termination_by path.length
decreasing_by exact afterFilename_shorter _atEnd

/-- A colon and a separator end fast indexing and start normal indexing. -/
def afterLetters (t : Tree) (id : NodeId) : List UInt8 → Outcome Arrival
  | c :: s :: path => if c = colon ∧ isSeparator s then findFile t id path else .ok (.node id)
  | _ => .ok (.node id)

/-- The fast-indexing loop and what follows it. -/
def fastIndex (t : Tree) (id : NodeId) : List UInt8 → Outcome Arrival
  | [] => afterLetters t id []
  | c :: path =>
    if isFsLetter c then do
      let children ← t.childrenOf id
      match children[keGetFsDrive c]? with
      | none => .ok .missing
      | some i => fastIndex t (.created i) path
    else afterLetters t id (c :: path)

/-- Where the walk along a path ends. -/
def arrive (t : Tree) : List UInt8 → Outcome Arrival
  | [] => fastIndex t .root []
  | c :: path => if isSeparator c then findFile t .root path else fastIndex t .root (c :: path)

def keResolveFsPath (t : Tree) (path : List UInt8) : Outcome (Option NodeId) := do
  let arrival ← arrive t path
  .ok arrival.result

/-- `MmReallocateArray` on an array of children: its old elements in the block
returned, none when there is no room. -/
abbrev Reallocation := List Nat → Option (List Nat)

/-- `KeAddFsNodeChild` of a node by its index. -/
def keAddFsNodeChild (reallocateArray : Reallocation) (t : Tree) (parent : NodeId) (child : Nat) :
    Outcome Tree := do
  let children ← t.childrenOf parent
  match reallocateArray children with
  | none => .panic "Out of memory"
  | some kept =>
    match parent with
    | .root => .ok { t with rootChildren := kept ++ [child] }
    | .created i =>
      .ok { t with nodes := t.nodes.modify i fun node => { node with children := kept ++ [child] } }

/-- The tree with a new node that is not yet a child of any other. -/
def Tree.withNode (t : Tree) (name : CString) : Tree :=
  { t with nodes := t.nodes ++ [⟨name, none, []⟩] }

/-- `KeCreateFsNode`; the two flags say whether the node and the name get
storage. Without storage for the node `MmAllocateZero` stops the system. -/
def keCreateFsNode (nodeRoom nameRoom : Bool) (reallocateArray : Reallocation) (t : Tree)
    (path : List UInt8) (name : CString) : Outcome (Nat × Tree) := do
  Outcome.check (nodeRoom = true) "Out of memory\r\n"
  Outcome.check (nameRoom = true) "Out of memory"
  let node := t.nodes.length
  let t := t.withNode name
  let parent ← keResolveFsPath t path
  let t ← keAddFsNodeChild reallocateArray t (parent.getD .root) node
  .ok (node, t)

end FsTree
