import UDos.Kernel.FsCreate

/-!
# The walk along a path in its buffer

`KeResolveFsPath` on pointers into the buffer of the path. A read behind the
NUL of the path or of a name is a fault, as is a read behind the children of a
node, and every loop without a count has an iteration budget. The walk returns
on every tree, and what it returns is what the walk on lists returns.
-/

namespace FsWalk

open KernelMemory FsTree

/-- A string with its terminator. -/
def terminated (chars : List UInt8) : List UInt8 := chars ++ [0]

/-- The byte of a buffer at an offset. -/
def load (s : List UInt8) (p : Nat) : Outcome UInt8 :=
  match s[p]? with
  | some c => .ok c
  | none => .fault

/-- The string that a pointer into a buffer stands for. -/
def stringAt (s : List UInt8) (p : Nat) : List UInt8 := (s.drop p).takeWhile (· ≠ 0)

/-- `KeBreakCharPtrString(s, "/\\.")`, which returns the end of the string
when there is no separator in it. -/
def keBreakCharPtrString (s : List UInt8) : Nat → Nat → Outcome Nat
  | 0, _ => .diverge
  | fuel + 1, p => do
    let c ← load s p
    if c ≠ 0 then
      if isSeparator c then .ok p else keBreakCharPtrString s fuel (p + 1)
    else .ok p

def keStringLengthLoop (s : List UInt8) : Nat → Nat → Outcome Nat
  | 0, _ => .diverge
  | fuel + 1, i => do
    let c ← load s i
    if c ≠ 0 then keStringLengthLoop s fuel (i + 1) else .ok i

def keStringLength (fuel : Nat) (s : List UInt8) : Outcome Nat := keStringLengthLoop s fuel 0

/-- What is left of n, and the difference and the two pointers at the end of the loop. -/
def compareLoop (s1 s2 : List UInt8) : Nat → Nat → Nat → Int → Outcome (Nat × Nat × Nat × Int)
  | 0, p1, p2, diff => .ok (0, p1, p2, diff)
  | n + 1, p1, p2, diff => do
    let c1 ← load s1 p1
    if c1 ≠ 0 then do
      let c2 ← load s2 p2
      if c2 ≠ 0 then
        compareLoop s1 s2 n (p1 + 1) (p2 + 1) (signed32 (diff + (c1.toNat - c2.toNat)))
      else .ok (n + 1, p1, p2, diff)
    else .ok (n + 1, p1, p2, diff)

/-- Behind the loop both characters are read, also when n is used up. -/
def keCompareStringEx (s1 : List UInt8) (p1 : Nat) (s2 : List UInt8) (n : Nat) : Outcome Int := do
  let (n, p1, p2, diff) ← compareLoop s1 s2 n p1 0 0
  let c1 ← load s1 p1
  let c2 ← load s2 p2
  .ok (if c1 ≠ c2 ∧ n > 0 then -1 else diff)

/-- `root->children[i]` on the array of children. -/
def childAt (children : List Nat) (i : Nat) : Outcome Nat :=
  match children[i]? with
  | some child => .ok child
  | none => .fault

/-- Behind a component a separator is skipped. -/
def skipSeparator (path : List UInt8) (tmpbuf : Nat) : Outcome Nat := do
  let c ← load path tmpbuf
  .ok (if isSeparator c then tmpbuf + 1 else tmpbuf)

/-- What the loop over the children ends with, and where the path goes on. -/
inductive Turn where
  | child (i : Nat) (tmpbuf : Nat)
  | driver (requestNode : List UInt8 → Option NodeId) (tmpbuf : Nat)
  | missing

/-- The loop over the children from index i on, with this many left. -/
def childLoop (budget : Nat) (t : Tree) (path : List UInt8) (tmpbuf filenameLen : Nat)
    (children : List Nat) : Nat → Nat → Outcome Turn
  | 0, _ => .ok .missing
  | left + 1, i => do
    let index ← childAt children i
    let child ← t.nodeAt index
    match child.requestNode with
    | some requestNode => do
      let tmpbuf ← skipSeparator path (tmpbuf + filenameLen)
      .ok (.driver requestNode tmpbuf)
    | none => do
      let length ← keStringLength budget (terminated child.name.chars)
      if length ≠ filenameLen then
        childLoop budget t path tmpbuf filenameLen children left (i + 1)
      else do
        let diff ← keCompareStringEx path tmpbuf (terminated child.name.chars) filenameLen
        if diff = 0 then do
          let tmpbuf ← skipSeparator path (tmpbuf + filenameLen)
          .ok (.child index tmpbuf)
        else childLoop budget t path tmpbuf filenameLen children left (i + 1)

/-- The backward jump to the label `find_file`. -/
def findFile (budget : Nat) (t : Tree) (path : List UInt8) :
    Nat → NodeId → Nat → Outcome Arrival
  | 0, _, _ => .diverge
  | fuel + 1, id, tmpbuf => do
    let c ← load path tmpbuf
    if c = 0 then .ok (.node id)
    else do
      let filenameEnd ← keBreakCharPtrString path budget tmpbuf
      let children ← t.childrenOf id
      match ← childLoop budget t path tmpbuf (filenameEnd - tmpbuf) children children.length 0 with
      | .missing => .ok .missing
      | .driver requestNode tmpbuf => .ok (.driver requestNode (stringAt path tmpbuf))
      | .child i tmpbuf => findFile budget t path fuel (.created i) tmpbuf

/-- Behind the letters. -/
def afterLetters (budget : Nat) (t : Tree) (path : List UInt8) (id : NodeId) (tmpbuf : Nat) :
    Outcome Arrival := do
  let c ← load path tmpbuf
  if c ≠ colon then .ok (.node id)
  else do
    let s ← load path (tmpbuf + 1)
    if isSeparator s then findFile budget t path budget id (tmpbuf + 2) else .ok (.node id)

/-- The fast-indexing loop. -/
def fastIndex (budget : Nat) (t : Tree) (path : List UInt8) :
    Nat → NodeId → Nat → Outcome Arrival
  | 0, _, _ => .diverge
  | fuel + 1, id, tmpbuf => do
    let c ← load path tmpbuf
    if isFsLetter c then do
      let children ← t.childrenOf id
      if keGetFsDrive c ≥ children.length then .ok .missing
      else do
        let i ← childAt children (keGetFsDrive c)
        fastIndex budget t path fuel (.created i) (tmpbuf + 1)
    else afterLetters budget t path id tmpbuf

def arrive (budget : Nat) (t : Tree) (path : List UInt8) : Outcome Arrival := do
  let c ← load path 0
  if isSeparator c then findFile budget t path budget .root 1
  else fastIndex budget t path budget .root 0

/-- `KeResolveFsPath` on the buffer of a path. -/
def keResolveFsPath (budget : Nat) (t : Tree) (path : List UInt8) : Outcome (Option NodeId) := do
  let arrival ← arrive budget t path
  .ok arrival.result

/-- The string at this offset of the characters. -/
structure PointsTo (chars : List UInt8) (p : Nat) (s : List UInt8) : Prop where
  inside : p ≤ chars.length
  rest : chars.drop p = s

section
variable {chars name s u : List UInt8} {p q n fuel : Nat} {c : UInt8}

theorem pointsTo_start (chars : List UInt8) : PointsTo chars 0 chars := ⟨Nat.zero_le _, rfl⟩

theorem PointsTo.length (points : PointsTo chars p s) : p + s.length = chars.length := by
  have inside := points.inside
  rw [← points.rest, List.length_drop]
  omega

theorem PointsTo.add (points : PointsTo chars p s) (within : n ≤ s.length) :
    PointsTo chars (p + n) (s.drop n) := by
  have length := points.length
  refine ⟨by omega, ?_⟩
  rw [← points.rest, List.drop_drop]

theorem PointsTo.next (points : PointsTo chars p (c :: s)) : PointsTo chars (p + 1) s :=
  points.add (Nat.succ_pos _)

theorem PointsTo.noNul (points : PointsTo chars p s) (noNul : 0 ∉ chars) : 0 ∉ s := by
  rw [← points.rest]
  exact fun member => noNul (List.mem_of_mem_drop member)

theorem PointsTo.load (points : PointsTo chars p s) : load (terminated chars) p = .ok (first s) := by
  have whole : (terminated chars).drop p = s ++ [0] := by
    rw [terminated, List.drop_append_of_le_length points.inside, points.rest]
  have char : (terminated chars)[p]? = some (first s) := by
    rw [← List.head?_drop, whole]
    cases s with
    | nil => rfl
    | cons c s => rfl
  rw [FsWalk.load, char]

theorem PointsTo.stringAt (points : PointsTo chars p s) (noNul : 0 ∉ chars) :
    stringAt (terminated chars) p = s := by
  have all : ∀ c ∈ s, decide (c ≠ 0) = true := by
    intro c member
    have nonzero : c ≠ 0 := fun zero => points.noNul noNul (zero ▸ member)
    exact decide_eq_true nonzero
  rw [FsWalk.stringAt, terminated, List.drop_append_of_le_length points.inside, points.rest,
    List.takeWhile_append_of_pos all]
  exact List.append_nil s

theorem first_cons (c : UInt8) (s : List UInt8) : first (c :: s) = c := rfl

theorem cons_ne_zero (noNul : 0 ∉ c :: s) : c ≠ 0 := fun zero => noNul (zero ▸ List.mem_cons_self)

theorem keBreakCharPtrString_points (points : PointsTo chars p s) (noNul : 0 ∉ chars)
    (enough : s.length < fuel) :
    keBreakCharPtrString (terminated chars) fuel p = .ok (p + filenameLen s) := by
  induction s generalizing p fuel with
  | nil =>
    obtain ⟨fuel, rfl⟩ : ∃ k, fuel = k + 1 := ⟨fuel - 1, (Nat.sub_add_cancel enough).symm⟩
    rw [keBreakCharPtrString, points.load]
    rfl
  | cons c s ih =>
    obtain ⟨fuel, rfl⟩ : ∃ k, fuel = k + 1 := ⟨fuel - 1, by omega⟩
    have more : first (c :: s) ≠ 0 := cons_ne_zero (points.noNul noNul)
    rw [keBreakCharPtrString, points.load, Outcome.ok_bind, if_pos more]
    rw [first_cons]
    cases sep : isSeparator c with
    | true => rw [if_pos rfl, filenameLen_cons_of_separator sep, Nat.add_zero]
    | false =>
      rw [if_neg Bool.false_ne_true, filenameLen_cons sep,
        ih points.next (Nat.lt_of_succ_lt_succ enough), Nat.add_assoc, Nat.add_comm 1]

theorem keStringLength_terminated (noNul : 0 ∉ name) (enough : name.length < fuel) :
    keStringLength fuel (terminated name) = .ok name.length := by
  have loop : ∀ s p fuel, PointsTo name p s → s.length < fuel →
      keStringLengthLoop (terminated name) fuel p = .ok name.length := by
    intro s
    induction s with
    | nil =>
      intro p fuel points enough
      obtain ⟨fuel, rfl⟩ : ∃ k, fuel = k + 1 := ⟨fuel - 1, (Nat.sub_add_cancel enough).symm⟩
      have length := points.length
      rw [keStringLengthLoop, points.load, ← length]
      rfl
    | cons c s ih =>
      intro p fuel points enough
      obtain ⟨fuel, rfl⟩ : ∃ k, fuel = k + 1 := ⟨fuel - 1, by omega⟩
      have more : first (c :: s) ≠ 0 := cons_ne_zero (points.noNul noNul)
      rw [keStringLengthLoop, points.load, Outcome.ok_bind, if_pos more]
      exact ih _ _ points.next (Nat.lt_of_succ_lt_succ enough)
  exact loop name 0 fuel (pointsTo_start name) enough

/-- The comparison loop stays inside both strings, and is that on lists. -/
theorem compareLoop_points (first : PointsTo chars p s) (second : PointsTo name q u)
    (noNul : 0 ∉ chars) (noNul' : 0 ∉ name) (n : Nat) (diff : Int) :
    ∃ p' q', compareLoop (terminated chars) (terminated name) n p q diff =
        .ok ((KernelMemory.compareLoop n s u diff).1, p', q',
          (KernelMemory.compareLoop n s u diff).2.2.2) ∧
      PointsTo chars p' (KernelMemory.compareLoop n s u diff).2.1 ∧
      PointsTo name q' (KernelMemory.compareLoop n s u diff).2.2.1 := by
  induction n generalizing p q s u diff with
  | zero =>
    rw [compareLoop, KernelMemory.compareLoop]
    · exact ⟨p, q, rfl, first, second⟩
    · intro _ _ _ _ _ zero
      cases zero
  | succ n ih =>
    rw [compareLoop, first.load, Outcome.ok_bind]
    cases s with
    | nil =>
      rw [KernelMemory.compareLoop]
      · exact ⟨p, q, rfl, first, second⟩
      · intro _ _ _ _ _ _ more
        cases more
    | cons c s =>
      have more : KernelMemory.first (c :: s) ≠ 0 := cons_ne_zero (first.noNul noNul)
      rw [if_pos more, second.load, Outcome.ok_bind]
      cases u with
      | nil =>
        rw [KernelMemory.compareLoop]
        · exact ⟨p, q, rfl, first, second⟩
        · intro _ _ _ _ _ _ _ more
          cases more
      | cons d u =>
        have more' : KernelMemory.first (d :: u) ≠ 0 := cons_ne_zero (second.noNul noNul')
        rw [if_pos more', KernelMemory.compareLoop]
        exact ih first.next second.next _

theorem keCompareStringEx_points (points : PointsTo chars p s) (noNul : 0 ∉ chars)
    (noNul' : 0 ∉ name) (n : Nat) :
    keCompareStringEx (terminated chars) p (terminated name) n =
      .ok (KernelMemory.keCompareStringEx s name n) := by
  obtain ⟨p', q', loop, rest, rest'⟩ :=
    compareLoop_points points (pointsTo_start name) noNul noNul' n 0
  rw [keCompareStringEx, loop]
  simp only [Outcome.ok_bind, rest.load, rest'.load, KernelMemory.keCompareStringEx]

theorem filenameLen_le (path : List UInt8) : filenameLen path ≤ path.length := Nat.sub_le _ _

/-- Behind the component the walk stands at what comes after it. -/
theorem skipSeparator_points (points : PointsTo chars p s) :
    ∃ p', skipSeparator (terminated chars) (p + filenameLen s) = .ok p' ∧
      PointsTo chars p' (afterFilename s) := by
  have behind := points.add (filenameLen_le s)
  rw [skipSeparator, behind.load, Outcome.ok_bind, afterFilename]
  cases rest : s.drop (filenameLen s) with
  | nil =>
    rw [rest] at behind
    exact ⟨_, rfl, behind⟩
  | cons c rest' =>
    rw [rest] at behind
    rw [first_cons]
    dsimp only
    cases sep : isSeparator c with
    | true => exact ⟨_, rfl, behind.next⟩
    | false => exact ⟨_, rfl, behind⟩

end

/-- A budget for the loops over the names of a tree. -/
def longestName (t : Tree) : Nat :=
  (t.nodes.map fun node => node.name.chars.length).foldr max 0

theorem length_le_longestName {t : Tree} {node : FsNode} (member : node ∈ t.nodes) :
    node.name.chars.length ≤ longestName t := by
  have all : ∀ lengths : List Nat, ∀ l ∈ lengths, l ≤ lengths.foldr max 0 := by
    intro lengths
    induction lengths with
    | nil => exact List.forall_mem_nil _
    | cons first lengths ih =>
      intro l inside
      rw [List.foldr_cons]
      rcases List.mem_cons.mp inside with rfl | later
      · exact le_max_left _ _
      · exact (ih l later).trans (le_max_right _ _)
  exact all _ _ (List.mem_map_of_mem member)

/-- The turn of the loop over the children and the scan on lists end the same
way, with the path going on behind the component. -/
def Turn.Matches (chars rest : List UInt8) : Turn → Scan → Prop
  | .child i p, .child j => i = j ∧ PointsTo chars p rest
  | .driver requestNode p, .driver requestNode' => requestNode = requestNode' ∧
      PointsTo chars p rest
  | .missing, .missing => True
  | _, _ => False

section
variable {t : Tree} {chars s : List UInt8} {p budget fuel : Nat}

theorem childLoop_matches (points : PointsTo chars p s) (noNul : 0 ∉ chars)
    (names : longestName t < budget) {children : List Nat}
    (present : ∀ i ∈ children, i < t.nodes.length) (left i : Nat)
    (counted : i + left = children.length) :
    ∃ turn scan,
      childLoop budget t (terminated chars) p (filenameLen s) children left i = .ok turn ∧
      scanChildren t s (children.drop i) = .ok scan ∧
      turn.Matches chars (afterFilename s) scan := by
  induction left generalizing i with
  | zero =>
    have none : children.drop i = [] := List.drop_eq_nil_of_le (by omega)
    rw [none]
    exact ⟨.missing, .missing, rfl, rfl, trivial⟩
  | succ left ih =>
    have inside : i < children.length := by omega
    have node := present _ (List.getElem_mem inside)
    obtain ⟨turn, scan, loop, later, same⟩ := ih (i + 1) (by omega)
    obtain ⟨p', skipped, behind⟩ := skipSeparator_points points
    have read : childAt children i = .ok children[i] := by
      rw [childAt, List.getElem?_eq_getElem inside]
    have child : t.nodeAt children[i] = .ok t.nodes[children[i]] :=
      nodeAt_eq_ok.mpr (List.getElem?_eq_getElem node)
    rw [childLoop, read, Outcome.ok_bind, child, Outcome.ok_bind,
      List.drop_eq_getElem_cons inside, scanChildren, child, Outcome.ok_bind, scanChild]
    generalize at_ : t.nodes[children[i]] = entry
    have short : entry.name.chars.length < budget :=
      Nat.lt_of_le_of_lt (length_le_longestName (at_ ▸ List.getElem_mem node)) names
    cases entry.requestNode with
    | some requestNode =>
      refine ⟨.driver requestNode p', .driver requestNode, ?_, rfl, rfl, behind⟩
      simp only [skipped, Outcome.ok_bind]
    | none =>
      simp only [keStringLength_terminated entry.name.noNul short, Outcome.ok_bind,
        keCompareStringEx_points points noNul entry.name.noNul]
      by_cases differ : entry.name.chars.length ≠ filenameLen s
      · rw [if_pos differ, if_pos differ]
        exact ⟨turn, scan, loop, later, same⟩
      · rw [if_neg differ, if_neg differ]
        by_cases equal : KernelMemory.keCompareStringEx s entry.name.chars (filenameLen s) = 0
        · rw [if_pos equal, if_pos equal, skipped]
          exact ⟨.child children[i] p', .child children[i], rfl, rfl, rfl, behind⟩
        · rw [if_neg equal, if_neg equal]
          exact ⟨turn, scan, loop, later, same⟩

theorem mem_of_scanChildren {children : List Nat} {i : Nat}
    (stops : scanChildren t s children = .ok (.child i)) : i ∈ children := by
  induction children with
  | nil => cases stops
  | cons j others ih =>
    obtain ⟨child, _, stops⟩ := Outcome.bind_eq_ok.mp stops
    cases turn : scanChild s j child with
    | missing =>
      rw [turn] at stops
      exact List.mem_cons_of_mem j (ih stops)
    | driver requestNode =>
      rw [turn] at stops
      cases stops
    | child k =>
      rw [turn] at stops
      cases stops
      rw [scanChild_eq] at turn
      cases request : child.requestNode with
      | some requestNode =>
        rw [request] at turn
        cases turn
      | none =>
        simp only [request] at turn
        split at turn
        · cases turn
          exact List.mem_cons_self
        · cases turn

section
variable (inRange : t.InRange) (noNul : 0 ∉ chars) (names : longestName t < budget)
  (path : chars.length < budget)
include inRange noNul names path

/-- Every component takes at least its separator off the path, so the backward
jump is taken at most once for each character left. -/
theorem findFile_returns {id : NodeId} (valid : Valid t id) (points : PointsTo chars p s)
    (enough : s.length < fuel) :
    ∃ arrival, findFile budget t (terminated chars) fuel id p = .ok arrival ∧
      FsTree.findFile t id s = .ok arrival := by
  induction fuel generalizing id p s with
  | zero => exact absurd enough (Nat.not_lt_zero _)
  | succ fuel ih =>
    rw [findFile, points.load, Outcome.ok_bind, FsTree.findFile]
    by_cases atEnd : s = []
    · rw [atEnd, first_nil, if_pos rfl, dif_pos rfl]
      exact ⟨_, rfl, rfl⟩
    · have more : first s ≠ 0 := by
        obtain ⟨c, rest, rfl⟩ := List.exists_cons_of_ne_nil atEnd
        exact cons_ne_zero (points.noNul noNul)
      have length := points.length
      obtain ⟨children, hchildren⟩ := valid.childrenOf
      have present := inRange.children hchildren
      obtain ⟨turn, scan, loop, scanned, same⟩ := childLoop_matches points noNul names present
        children.length 0 (Nat.zero_add _)
      rw [if_neg more, dif_neg atEnd, keBreakCharPtrString_points points noNul (by omega),
        Outcome.ok_bind, hchildren, Outcome.ok_bind, Outcome.ok_bind, Nat.add_sub_cancel_left, loop]
      rw [List.drop_zero] at scanned
      rw [scanned, Outcome.ok_bind, Outcome.ok_bind]
      cases turn with
      | missing =>
        cases scan with
        | missing => exact ⟨_, rfl, rfl⟩
        | driver requestNode => exact same.elim
        | child i => exact same.elim
      | driver requestNode p' =>
        cases scan with
        | missing => exact same.elim
        | driver requestNode' =>
          obtain ⟨rfl, behind⟩ := same
          refine ⟨_, rfl, ?_⟩
          rw [behind.stringAt noNul]
        | child i => exact same.elim
      | child i p' =>
        cases scan with
        | missing => exact same.elim
        | driver requestNode => exact same.elim
        | child j =>
          obtain ⟨rfl, behind⟩ := same
          have shorter := afterFilename_shorter atEnd
          exact ih (present i (mem_of_scanChildren scanned)) behind (by omega)

theorem afterLetters_returns {id : NodeId} (valid : Valid t id) (points : PointsTo chars p s) :
    ∃ arrival, afterLetters budget t (terminated chars) id p = .ok arrival ∧
      FsTree.afterLetters t id s = .ok arrival := by
  rw [afterLetters, points.load, Outcome.ok_bind]
  have notNul : (0 : UInt8) ≠ colon := by decide
  cases s with
  | nil =>
    rw [first_nil, if_pos notNul]
    exact ⟨_, rfl, rfl⟩
  | cons c s =>
    have behind := points.next
    have length := points.length
    rw [first_cons]
    by_cases stop : c = colon
    · rw [if_neg (not_not.mpr stop), behind.load, Outcome.ok_bind]
      cases s with
      | nil => exact ⟨_, rfl, rfl⟩
      | cons d s =>
        rw [first_cons, FsTree.afterLetters]
        by_cases sep : isSeparator d
        · rw [if_pos sep, if_pos ⟨stop, sep⟩]
          simp only [List.length_cons] at length
          exact findFile_returns inRange noNul names path valid behind.next (by omega)
        · rw [if_neg sep, if_neg fun both => sep both.2]
          exact ⟨_, rfl, rfl⟩
    · rw [if_pos stop]
      cases s with
      | nil => exact ⟨_, rfl, rfl⟩
      | cons d s =>
        rw [FsTree.afterLetters, if_neg fun both => stop both.1]
        exact ⟨_, rfl, rfl⟩

theorem fastIndex_returns {id : NodeId} (valid : Valid t id) (points : PointsTo chars p s)
    (enough : s.length < fuel) :
    ∃ arrival, fastIndex budget t (terminated chars) fuel id p = .ok arrival ∧
      FsTree.fastIndex t id s = .ok arrival := by
  induction fuel generalizing id p s with
  | zero => exact absurd enough (Nat.not_lt_zero _)
  | succ fuel ih =>
    have behind := afterLetters_returns inRange noNul names path valid points
    rw [fastIndex, points.load, Outcome.ok_bind]
    have notNul : ¬ isFsLetter 0 := by decide
    cases s with
    | nil =>
      rw [first_nil, if_neg notNul]
      exact behind
    | cons c s =>
      rw [first_cons, FsTree.fastIndex]
      by_cases letter : isFsLetter c
      · obtain ⟨children, hchildren⟩ := valid.childrenOf
        rw [if_pos letter, if_pos letter, hchildren, Outcome.ok_bind, Outcome.ok_bind]
        by_cases present : keGetFsDrive c < children.length
        · have member := inRange.children hchildren _ (List.getElem_mem present)
          rw [if_neg (Nat.not_le.mpr present), childAt, List.getElem?_eq_getElem present]
          exact ih member points.next (Nat.lt_of_succ_lt_succ enough)
        · rw [if_pos (Nat.not_lt.mp present), List.getElem?_eq_none (Nat.not_lt.mp present)]
          exact ⟨_, rfl, rfl⟩
      · rw [if_neg letter, if_neg letter]
        exact behind

theorem arrive_returns :
    ∃ arrival, arrive budget t (terminated chars) = .ok arrival ∧
      FsTree.arrive t chars = .ok arrival := by
  have points := pointsTo_start chars
  have start : Valid t .root := trivial
  have letters := fastIndex_returns inRange noNul names path start points path
  rw [arrive, points.load, Outcome.ok_bind]
  cases chars with
  | nil =>
    have notNul : ¬ isSeparator 0 := by decide
    rw [first_nil, if_neg notNul]
    exact letters
  | cons c rest =>
    rw [first_cons, FsTree.arrive]
    by_cases sep : isSeparator c
    · rw [if_pos sep, if_pos sep]
      exact findFile_returns inRange noNul names path start points.next (Nat.lt_of_succ_lt path)
    · rw [if_neg sep, if_neg sep]
      exact letters

end

end

/-- On every tree and every path the walk returns, and reads neither behind the
NUL of a string nor behind the children of a node; it finds what the walk on
lists finds. -/
theorem keResolveFsPath_returns (t : Tree) (inRange : t.InRange) (path : CString) (budget : Nat)
    (enough : path.chars.length + longestName t < budget) :
    ∃ id, keResolveFsPath budget t (terminated path.chars) = .ok id ∧
      FsTree.keResolveFsPath t path.chars = .ok id := by
  obtain ⟨arrival, walked, found⟩ :=
    arrive_returns inRange path.noNul (by omega) (show path.chars.length < budget by omega)
  exact ⟨arrival.result, by rw [keResolveFsPath, walked]; rfl,
    by rw [FsTree.keResolveFsPath, found]; rfl⟩

theorem nameEmpty_noNul : (0 : UInt8) ∉ ([] : List UInt8) := List.not_mem_nil
theorem slashes_noNul : (0 : UInt8) ∉ ([0x61, 0x61, 0x61] : List UInt8) := by decide

/-- A node without a name that is its own child. -/
def nameless : Tree := ⟨[0], [⟨⟨[], nameEmpty_noNul⟩, none, [0]⟩]⟩

/-- "///" ends at the node without a name. -/
theorem nameless_returns :
    ∃ id, keResolveFsPath 4 nameless (terminated [0x61, 0x61, 0x61]) = .ok id ∧
      FsTree.keResolveFsPath nameless [0x61, 0x61, 0x61] = .ok id :=
  keResolveFsPath_returns nameless ⟨by decide, by simp [nameless]⟩
    ⟨[0x61, 0x61, 0x61], slashes_noNul⟩ 4 (by decide)

end FsWalk
