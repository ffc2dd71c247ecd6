import Mathlib.Data.List.Forall2
import UDos.Kernel.FsPaths

/-!
# Interchanging separators

Two paths that differ only in which separators they have. Among the names the
separators are tested for together; in front of them the backslash passes for a
letter of the fast-indexing loop, and slash and dot end it.
-/

namespace FsTree

open KernelMemory Descent

def backslash : UInt8 := 0xE0

/-- The paths differ only in which separator stands at a position. -/
def SameButSeparators (p q : List UInt8) : Prop :=
  List.Forall₂ (fun c d => c = d ∨ isSeparator c ∧ isSeparator d) p q

/-- Behind letters that lead to a node the first path has a backslash and the
second another separator. -/
def PartsWays (t : Tree) (p q : List UInt8) : Prop :=
  ∃ letters mid d restP restQ, letters ≠ [] ∧ (∀ c ∈ letters, isFsLetter c) ∧
    (∀ c ∈ letters.head?, isSeparator c = false) ∧ Indexed t .root letters mid ∧
    p = letters ++ backslash :: restP ∧ q = letters ++ d :: restQ ∧
    isSeparator d ∧ d ≠ backslash

section
variable {t : Tree} {id mid last : NodeId} {c d : UInt8} {p q letters : List UInt8}

theorem separator_cases (sep : isSeparator c) : c = 0x61 ∨ c = backslash ∨ c = 0x4B := by
  simpa [isSeparator, backslash, or_assoc] using sep

/-- The components of the two paths are the same. -/
theorem SameButSeparators.component (same : SameButSeparators p q) :
    component p = component q ∧ SameButSeparators (afterFilename p) (afterFilename q) := by
  rcases component_cases p with free | ⟨front, c, rest, rfl, free, sep⟩
  · have equal : p = q := by
      induction same with
      | nil => rfl
      | cons first _ ih =>
        rcases first with rfl | ⟨sep, _⟩
        · rw [ih fun d hd => free d (List.mem_cons_of_mem _ hd)]
        · rw [free _ List.mem_cons_self] at sep
          cases sep
    subst equal
    exact ⟨rfl, List.forall₂_same.mpr fun _ _ => Or.inl rfl⟩
  · have parts : ∀ q, SameButSeparators (front ++ c :: rest) q → ∃ d rest', q = front ++ d :: rest' ∧
        isSeparator d ∧ SameButSeparators rest rest' := by
      clear same
      intro q same
      induction front generalizing q with
      | nil =>
        cases same with
        | cons first later =>
          rcases first with rfl | ⟨_, sep'⟩
          · exact ⟨_, _, rfl, sep, later⟩
          · exact ⟨_, _, rfl, sep', later⟩
      | cons e front ih =>
        cases same with
        | cons first later =>
          rcases first with rfl | ⟨sep', _⟩
          · obtain ⟨d, rest', rfl, sep', same'⟩ :=
              ih (fun d hd => free d (List.mem_cons_of_mem _ hd)) _ later
            exact ⟨d, rest', rfl, sep', same'⟩
          · rw [free _ List.mem_cons_self] at sep'
            cases sep'
    obtain ⟨d, rest', rfl, sep', later⟩ := parts q same
    rw [afterFilename_front free sep, afterFilename_front free sep']
    exact ⟨by simp [FsTree.component, filenameLen_front free sep, filenameLen_front free sep'],
      later⟩

theorem SameButSeparators.nil_iff (same : SameButSeparators p q) : p = [] ↔ q = [] := by
  rw [← List.length_eq_zero_iff, ← List.length_eq_zero_iff, List.Forall₂.length_eq same]

/-- Among names it does not matter which separators there are. -/
theorem findFile_separators (inRange : t.InRange) (noRequest : NoRequest t) (valid : Valid t id)
    (same : SameButSeparators p q) : findFile t id p = findFile t id q := by
  induction p using (measure List.length).wf.induction generalizing id q with
  | _ p ih =>
    by_cases atEnd : p = []
    · have atEnd' := same.nil_iff.mp atEnd
      subst atEnd
      subst atEnd'
      rfl
    · obtain ⟨children, ok⟩ := valid.childrenOf
      obtain ⟨equal, later⟩ := same.component
      rw [findFile_component inRange noRequest atEnd ok,
        findFile_component inRange noRequest (mt same.nil_iff.mpr atEnd) ok, equal]
      cases first : firstLike t (component q) children with
      | none => rfl
      | some i =>
        exact ih _ (afterFilename_shorter atEnd) (inRange.valid ok (mem_of_firstLike first)) later

theorem afterLetters_separators (inRange : t.InRange) (noRequest : NoRequest t)
    (valid : Valid t id) (same : SameButSeparators p q) :
    afterLetters t id (c :: p) = afterLetters t id (c :: q) := by
  cases same with
  | nil => rfl
  | @cons s s' p q first later =>
    rw [afterLetters, afterLetters]
    by_cases start : c = colon
    · rcases first with rfl | ⟨sep, sep'⟩
      · rw [findFile_separators inRange noRequest valid later]
      · rw [if_pos ⟨start, sep⟩, if_pos ⟨start, sep'⟩]
        exact findFile_separators inRange noRequest valid later
    · rw [if_neg fun both => start both.1, if_neg fun both => start both.1]

theorem fastIndex_separator (sep : isSeparator d) (differs : d ≠ backslash) (q : List UInt8) :
    fastIndex t id (d :: q) = .ok (.node id) := by
  have other : isFsLetter d = false ∧ d ≠ colon := by
    rcases separator_cases sep with rfl | rfl | rfl
    · decide
    · exact absurd rfl differs
    · decide
  rw [fastIndex, other.1, if_neg Bool.false_ne_true]
  cases q with
  | nil => rfl
  | cons e q => rw [afterLetters, if_neg fun both => other.2 both.1]

/-- As long as the paths do not part ways the loop takes the same steps on both. -/
theorem fastIndex_separators (inRange : t.InRange) (noRequest : NoRequest t) (valid : Valid t id)
    (same : SameButSeparators p q)
    (together : ∀ letters mid c d restP restQ, (∀ e ∈ letters, isFsLetter e) →
      Indexed t id letters mid → p = letters ++ c :: restP → q = letters ++ d :: restQ →
      isSeparator c → isSeparator d → (c = backslash ↔ d = backslash)) :
    fastIndex t id p = fastIndex t id q := by
  induction same generalizing id with
  | nil => rfl
  | @cons c d p q first later ih =>
    by_cases equal : c = d
    · subst equal
      rw [fastIndex, fastIndex, afterLetters_separators inRange noRequest valid later]
      by_cases letter : isFsLetter c
      · rw [if_pos letter, if_pos letter]
        obtain ⟨children, ok⟩ := valid.childrenOf
        rw [ok, Outcome.ok_bind, Outcome.ok_bind]
        cases select : children[keGetFsDrive c]? with
        | none => rfl
        | some i =>
          refine ih (inRange.valid ok (List.mem_of_getElem? select)) ?_
          rintro letters mid e f restP restQ all indexed rfl rfl
          exact together (c :: letters) mid e f restP restQ
            (List.forall_mem_cons.mpr ⟨letter, all⟩) (.cons ok select indexed) rfl rfl
      · rw [if_neg letter, if_neg letter]
    · obtain ⟨sep, sep'⟩ := first.resolve_left equal
      have both := together [] id c d p q (List.forall_mem_nil _) (.nil id) rfl rfl sep sep'
      have differs : c ≠ backslash := fun isBackslash =>
        equal (isBackslash.trans (both.mp isBackslash).symm)
      rw [fastIndex_separator sep differs, fastIndex_separator sep' (mt both.mpr differs)]

theorem fastIndex_below (inRange : t.InRange) (noRequest : NoRequest t) (valid : Valid t id)
    (found : fastIndex t id p = .ok (.node last)) : ∃ n, Steps (Child t) n id last := by
  obtain ⟨letters, text, rfl, all, stops⟩ := letters_split p
  obtain ⟨mid, indexed, behind⟩ := (fastIndex_letters (node_ne_missing _) all stops).mp found
  have validMid := indexed.valid inRange valid
  rcases (afterLetters_eq_node inRange noRequest validMid).mp behind with
    ⟨_, _, _, _, follows⟩ | ⟨rfl, _⟩
  · exact ⟨_, indexed.steps.trans follows.steps⟩
  · exact ⟨_, indexed.steps⟩

theorem SameButSeparators.symm (same : SameButSeparators p q) : SameButSeparators q p :=
  List.Forall₂.flip (List.Forall₂.imp (fun _ _ => Or.imp Eq.symm And.symm) same)

/-- Where the paths part ways the second ends at a node that the first leaves. -/
theorem PartsWays.differ (tree : IsTree t) (noRequest : NoRequest t) (parts : PartsWays t p q) :
    keResolveFsPath t p ≠ keResolveFsPath t q := by
  obtain ⟨letters, mid, d, restP, restQ, some, all, plain, indexed, rfl, rfl, sep, differs⟩ := parts
  have start : Valid t .root := trivial
  have valid := indexed.valid tree.toInRange start
  have plainP : ∀ c ∈ (letters ++ backslash :: restP).head?, isSeparator c = false := by
    rwa [head?_append_of_ne_nil some]
  have plainQ : ∀ c ∈ (letters ++ d :: restQ).head?, isSeparator c = false := by
    rwa [head?_append_of_ne_nil some]
  have second : arrive t (letters ++ d :: restQ) = .ok (.node mid) := by
    rw [arrive_plain plainQ, fastIndex_indexed all indexed, fastIndex_separator sep differs]
  rw [(keResolveFsPath_eq_some noRequest).mpr second]
  intro first
  have stays := (keResolveFsPath_eq_some noRequest).mp first
  have letter : isFsLetter backslash := by decide
  rw [arrive_plain plainP, fastIndex_indexed all indexed, fastIndex, if_pos letter] at stays
  obtain ⟨children, ok, stays⟩ := Outcome.bind_eq_ok.mp stays
  cases select : children[keGetFsDrive backslash]? with
  | none =>
    simp only [select] at stays
    cases stays
  | some i =>
    simp only [select] at stays
    have member := List.mem_of_getElem? select
    obtain ⟨n, below⟩ := fastIndex_below tree.toInRange noRequest
      (tree.toInRange.valid ok member) stays
    have back : Steps (Child t) (n + 1) mid mid := .step ⟨children, i, ok, member, rfl⟩ below
    exact Nat.succ_ne_zero n
      (Steps.no_return tree.oneParent (fun a => root_top t a) indexed.steps back)

/-- Paths that do not part ways resolve to the same node. -/
theorem resolve_of_together (inRange : t.InRange) (noRequest : NoRequest t)
    (same : SameButSeparators p q) (first : ¬ PartsWays t p q) (second : ¬ PartsWays t q p) :
    keResolveFsPath t p = keResolveFsPath t q := by
  have start : Valid t .root := trivial
  have arrives : arrive t p = arrive t q := by
    by_cases separated : ∃ c rest, p = c :: rest ∧ isSeparator c
    · obtain ⟨c, rest, rfl, sep⟩ := separated
      cases same with
      | @cons _ d _ q front later =>
        have sep' : isSeparator d := by
          rcases front with rfl | ⟨_, sep'⟩
          · exact sep
          · exact sep'
        rw [arrive, if_pos sep, arrive, if_pos sep']
        exact findFile_separators inRange noRequest start later
    · have plain := plain_of_not_separated separated
      have plain' : ∀ c ∈ q.head?, isSeparator c = false := by
        cases same with
        | nil => exact plain
        | @cons c d p q front later =>
          rcases front with rfl | ⟨sep, _⟩
          · exact plain
          · rw [plain c rfl] at sep
            cases sep
      rw [arrive_plain plain, arrive_plain plain']
      refine fastIndex_separators inRange noRequest start same ?_
      rintro letters mid c d restP restQ all indexed rfl rfl sep sep'
      have some : letters ≠ [] := by
        rintro rfl
        rw [plain c rfl] at sep
        cases sep
      rw [head?_append_of_ne_nil some] at plain
      constructor
      · intro isBackslash
        by_contra differs
        exact first ⟨letters, mid, d, restP, restQ, some, all, plain, indexed,
          by rw [isBackslash], rfl, sep', differs⟩
      · intro isBackslash
        by_contra differs
        exact second ⟨letters, mid, c, restQ, restP, some, all, plain, indexed,
          by rw [isBackslash], rfl, sep, differs⟩
  rw [keResolveFsPath, keResolveFsPath, arrives]

end

/-- On a tree without drivers two paths that differ only in their separators
resolve alike exactly when they do not part ways at a backslash behind letters
that lead to a node. -/
theorem separators_interchangeable_iff (t : Tree) (tree : IsTree t) (noRequest : NoRequest t)
    (p q : List UInt8) (same : SameButSeparators p q) :
    keResolveFsPath t p = keResolveFsPath t q ↔ ¬ PartsWays t p q ∧ ¬ PartsWays t q p := by
  constructor
  · intro equal
    exact ⟨fun parts => parts.differ tree noRequest equal,
      fun parts => parts.differ tree noRequest equal.symm⟩
  · rintro ⟨first, second⟩
    exact resolve_of_together tree.toInRange noRequest same first second

/-- "/AD/" and "/AD." resolve alike. -/
theorem oneNode_interchangeable :
    keResolveFsPath oneNode [0x61, 0xC1, 0xC4, 0x61] =
        keResolveFsPath oneNode [0x61, 0xC1, 0xC4, 0x4B] ↔
      ¬ PartsWays oneNode [0x61, 0xC1, 0xC4, 0x61] [0x61, 0xC1, 0xC4, 0x4B] ∧
        ¬ PartsWays oneNode [0x61, 0xC1, 0xC4, 0x4B] [0x61, 0xC1, 0xC4, 0x61] :=
  separators_interchangeable_iff oneNode oneNode_isTree oneNode_noRequest _ _
    (.cons (Or.inl rfl) (.cons (Or.inl rfl) (.cons (Or.inl rfl)
      (.cons (Or.inr ⟨by decide, by decide⟩) .nil))))

/-- "A/" resolves to the first child of the root, and "A" with a backslash to nothing. -/
theorem backslash_behind_letter :
    IsTree oneNode ∧ NoRequest oneNode ∧
      SameButSeparators [0xC1, 0x61] [0xC1, backslash] ∧
      keResolveFsPath oneNode [0xC1, 0x61] = .ok (some (.created 0)) ∧
      keResolveFsPath oneNode [0xC1, backslash] = .ok none :=
  ⟨oneNode_isTree, oneNode_noRequest,
    .cons (Or.inl rfl) (.cons (Or.inr ⟨by decide, by decide⟩) .nil),
    by decide +kernel, by decide +kernel⟩

end FsTree
