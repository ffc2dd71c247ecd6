import Mathlib.Data.List.Induction
import Mathlib.Tactic.Ring
import UDos.Library.Heap

/-!
# Records in arrays that are reallocated as they grow

Records of several kinds live by value in arrays, and a record holds, for each
kind of its children, the address and the length of the array they are in. The
array is moved to a fresh block for every child that is added, so a pointer to
a record stays right only until the next record is added to the same array.

Records are known by the order of their creation, `none` being the root. The
log lists their parents and kinds; it determines the tree, and with the address
of each array it determines where every record is.
-/

/-- The sizes of the records, and where in a record the array of its children of
a kind is described, by an address and behind it a length. -/
structure Layout (κ : Type) where
  width : κ → Nat
  field : κ → κ → Option Nat
  positive : ∀ k, 0 < width k
  fits : ∀ {k l off}, field k l = some off → off + 8 ≤ width k
  fieldsApart : ∀ {k l l' off off'}, field k l = some off → field k l' = some off' → l ≠ l' →
    off + 8 ≤ off' ∨ off' + 8 ≤ off

/-- The bytes of a record that describe none of its arrays. -/
def Layout.Private {κ : Type} (L : Layout κ) (k : κ) (o : Nat) : Prop :=
  o < L.width k ∧ ∀ l off, L.field k l = some off → o < off ∨ off + 8 ≤ o

namespace Arena

open Heap Storage

/-- The parent and the kind of each record that was created. -/
abbrev Log (κ : Type) := List (Option Nat × κ)

theorem found_concat {α : Type} {l : List α} {x y : α} {i : Nat}
    (found : (l ++ [x])[i]? = some y) : l[i]? = some y ∨ i = l.length ∧ y = x := by
  rcases Nat.lt_trichotomy i l.length with old | last | behind
  · rw [List.getElem?_append_left old] at found
    exact Or.inl found
  · rw [last, List.getElem?_concat_length] at found
    exact Or.inr ⟨last, (Option.some.inj found).symm⟩
  · rw [List.getElem?_eq_none (by simp; omega)] at found
    cases found

section
variable {κ : Type} {top : κ} {root : Nat} {log : Log κ} {base : Option Nat × κ → Nat}

def kindOf (top : κ) (log : Log κ) : Option Nat → Option κ
  | none => some top
  | some i => (log[i]?).map Prod.snd

/-- The start of the block that a record is in, when the arrays are at these addresses. -/
def start (root : Nat) (log : Log κ) (base : Option Nat × κ → Nat) : Option Nat → Nat
  | none => root
  | some i =>
    match log[i]? with
    | some e => base e
    | none => 0

theorem kindOf_some {i : Nat} {k : κ} (known : kindOf top log (some i) = some k) :
    ∃ p, log[i]? = some (p, k) := by
  obtain ⟨⟨p, l⟩, here, same⟩ := Option.map_eq_some_iff.mp known
  exact ⟨p, by rw [here, ← same]⟩

theorem kindOf_append {p : Option Nat} {k : κ} (e : Option Nat × κ)
    (known : kindOf top log p = some k) : kindOf top (log ++ [e]) p = some k := by
  cases p with
  | none => exact known
  | some i =>
    obtain ⟨q, here⟩ := kindOf_some known
    have inLog : i < log.length := (List.getElem?_eq_some_iff.mp here).1
    rw [kindOf, List.getElem?_append_left inLog, here]
    rfl

theorem kindOf_nil {p : Option Nat} {k : κ} (known : kindOf top [] p = some k) :
    p = none ∧ k = top := by
  cases p with
  | none => exact ⟨rfl, (Option.some.inj known).symm⟩
  | some i => cases known

theorem kindOf_snoc {e : Option Nat × κ} {q : Option Nat} {k : κ}
    (known : kindOf top (log ++ [e]) q = some k) :
    kindOf top log q = some k ∨ q = some log.length ∧ k = e.2 := by
  cases q with
  | none => exact Or.inl known
  | some i =>
    obtain ⟨q, here⟩ := kindOf_some known
    rcases found_concat here with old | ⟨rfl, same⟩
    · exact Or.inl (by rw [kindOf, old]; rfl)
    · exact Or.inr ⟨rfl, congrArg Prod.snd same⟩

theorem kindOf_lt {i : Nat} {k : κ} (known : kindOf top log (some i) = some k) :
    i < log.length := by
  obtain ⟨q, here⟩ := kindOf_some known
  exact (List.getElem?_eq_some_iff.mp here).1

theorem start_some {i : Nat} {e : Option Nat × κ} (here : log[i]? = some e) :
    start root log base (some i) = base e := by
  simp only [start, here]

end

section
variable {κ : Type} [DecidableEq κ]

/-- The children of a record that are of one kind, oldest first. -/
def children (log : Log κ) (p : Option Nat) (k : κ) : List Nat :=
  (List.range log.length).filter fun i => log[i]? = some (p, k)

/-- The position of a record in its array. -/
def rank (log : Log κ) (i : Nat) (e : Option Nat × κ) : Nat := (log.take i).count e

/-- Where a record is. -/
def place (L : Layout κ) (root : Nat) (log : Log κ) (base : Option Nat × κ → Nat) :
    Option Nat → Nat
  | none => root
  | some i =>
    match log[i]? with
    | some e => base e + rank log i e * L.width e.2
    | none => 0

theorem rank_lt {log : Log κ} {i : Nat} {e : Option Nat × κ} (here : log[i]? = some e) :
    rank log i e < log.count e := by
  obtain ⟨inLog, same⟩ := List.getElem?_eq_some_iff.mp here
  have split : log.count e = (log.take i).count e + (log.drop i).count e := by
    rw [← List.count_append, List.take_append_drop]
  have first : 0 < (log.drop i).count e := by
    rw [List.drop_eq_getElem_cons inLog, same, List.count_cons_self]
    omega
  rw [rank, split]
  omega

theorem rank_strictMono {log : Log κ} {i j : Nat} {e : Option Nat × κ} (lt : i < j)
    (here : log[i]? = some e) : rank log i e < rank log j e := by
  have inFront : (log.take j)[i]? = some e := by rw [List.getElem?_take_of_lt lt, here]
  have front : (log.take j).take i = log.take i := by
    rw [List.take_take, Nat.min_eq_left (Nat.le_of_lt lt)]
  have less := rank_lt inFront
  rwa [rank, front] at less

theorem rank_append {log : Log κ} {i : Nat} (e e' : Option Nat × κ) (old : i ≤ log.length) :
    rank (log ++ [e']) i e = rank log i e := by
  rw [rank, List.take_append_of_le_length old, rank]

theorem children_append (log : Log κ) (e : Option Nat × κ) (p : Option Nat) (k : κ) :
    children (log ++ [e]) p k =
      children log p k ++ if e = (p, k) then [log.length] else [] := by
  have front : (List.range log.length).filter (fun i => (log ++ [e])[i]? = some (p, k)) =
      children log p k := by
    apply List.filter_congr
    intro i hi
    rw [List.getElem?_append_left (List.mem_range.mp hi)]
  rw [children, List.length_append, List.length_singleton, List.range_succ, List.filter_append,
    front]
  by_cases same : e = (p, k)
  · simp [same]
  · simp [same]

/-- The children of a record are at the positions 0, 1, 2 and so on of its array. -/
theorem map_rank_children (log : Log κ) (p : Option Nat) (k : κ) :
    (children log p k).map (fun i => rank log i (p, k)) = List.range (log.count (p, k)) := by
  induction log using List.reverseRecOn with
  | nil => rfl
  | append_singleton log e ih =>
    have old : (children log p k).map (fun i => rank (log ++ [e]) i (p, k)) =
        List.range (log.count (p, k)) := by
      rw [← ih]
      apply List.map_congr_left
      intro i hi
      have inLog : i < log.length := List.mem_range.mp (List.mem_of_mem_filter hi)
      exact rank_append _ e (by omega)
    rw [children_append, List.map_append, old, List.count_append]
    by_cases same : e = (p, k)
    · subst same
      have last : rank (log ++ [(p, k)]) log.length (p, k) = log.count (p, k) := by
        rw [rank, List.take_left]
      simp [last, List.range_succ]
    · simp [same]

theorem children_length (log : Log κ) (p : Option Nat) (k : κ) :
    (children log p k).length = log.count (p, k) := by
  have ranks := congrArg List.length (map_rank_children log p k)
  rwa [List.length_map, List.length_range] at ranks

theorem mem_children {log : Log κ} {p : Option Nat} {k : κ} {i : Nat} :
    i ∈ children log p k ↔ log[i]? = some (p, k) := by
  rw [children, List.mem_filter, decide_eq_true_eq, List.mem_range]
  exact and_iff_right_of_imp fun here => (List.getElem?_eq_some_iff.mp here).1

theorem rank_of_children {log : Log κ} {p : Option Nat} {k : κ} {n i : Nat}
    (found : (children log p k)[n]? = some i) : rank log i (p, k) = n := by
  have ranks := congrArg (·[n]?) (map_rank_children log p k)
  simp only [List.getElem?_map, found, Option.map_some] at ranks
  obtain ⟨_, same⟩ := List.getElem?_eq_some_iff.mp ranks.symm
  rw [List.getElem_range] at same
  exact same.symm

/-- What is changed for one child is changed at its position. -/
theorem map_children_modify {β : Type} {log : Log κ} {p : Option Nat} {k : κ} {f g : Nat → β}
    {change : β → β} {i : Nat} (here : log[i]? = some (p, k)) (changed : f i = change (g i))
    (others : ∀ j ∈ children log p k, j ≠ i → f j = g j) :
    (children log p k).map f = ((children log p k).map g).modify (rank log i (p, k)) change := by
  apply List.ext_getElem?
  intro n
  rw [List.getElem?_modify, List.getElem?_map, List.getElem?_map]
  cases found : (children log p k)[n]? with
  | none => rfl
  | some j =>
    have position := rank_of_children found
    simp only [Option.map_some, Option.map_eq_map]
    by_cases same : j = i
    · subst same
      rw [if_pos position, changed]
    · have member := List.mem_of_getElem? found
      have differ : rank log i (p, k) ≠ n := by
        intro equal
        rcases Nat.lt_or_gt_of_ne same with before | behind
        · have less := rank_strictMono before (mem_children.mp member)
          omega
        · have less := rank_strictMono behind here
          omega
      rw [if_neg differ, others j member same]

variable {L : Layout κ} {top : κ} {root : Nat} {h h' : Heap} {log : Log κ}
  {base : Option Nat × κ → Nat}

theorem place_some {i : Nat} {q : Option Nat} {k : κ} (here : log[i]? = some (q, k)) :
    place L root log base (some i) = base (q, k) + rank log i (q, k) * L.width k := by
  simp only [place, here]

/-- The heap holds the tree of the log: every record describes the arrays of its
children, each array is a block of its own, and the root is another one. -/
structure Laid (L : Layout κ) (top : κ) (root : Nat) (h : Heap) (log : Log κ)
    (base : Option Nat × κ → Nat) : Prop where
  sane : h.Sane
  parent : ∀ {i e}, log[i]? = some e →
    ∃ k off, kindOf top (log.take i) e.1 = some k ∧ L.field k e.2 = some off
  pointer : ∀ {p k l off}, kindOf top log p = some k → L.field k l = some off →
    word h.storage (place L root log base p + off) = base (p, l)
  count : ∀ {p k l off}, kindOf top log p = some k → L.field k l = some off →
    word h.storage (place L root log base p + off + 4) = log.count (p, l)
  null : ∀ e, e ∉ log → base e = 0
  rootHeld : (root, L.width top) ∈ h.live
  held : ∀ e ∈ log, (base e, log.count e * L.width e.2) ∈ h.live
  notRoot : ∀ e ∈ log, base e ≠ root
  unshared : ∀ e ∈ log, ∀ e' ∈ log, base e = base e' → e = e'

theorem Laid.parent_lt (laid : Laid L top root h log base) {i j : Nat} {k : κ}
    (here : log[i]? = some (some j, k)) : j < i := by
  obtain ⟨l, off, known, -⟩ := laid.parent here
  obtain ⟨q, at0⟩ := kindOf_some known
  have inTake := (List.getElem?_eq_some_iff.mp at0).1
  rw [List.length_take] at inTake
  omega

theorem Laid.base_pos (laid : Laid L top root h log base) {e : Option Nat × κ} (member : e ∈ log) :
    0 < base e :=
  (laid.sane.proper _ (laid.held e member)).1

/-- A record lies in a block in use. -/
theorem Laid.in_block (laid : Laid L top root h log base) {p : Option Nat} {k : κ}
    (known : kindOf top log p = some k) :
    ∃ n, (start root log base p, n) ∈ h.live ∧
      start root log base p ≤ place L root log base p ∧
      place L root log base p + L.width k ≤ start root log base p + n := by
  cases p with
  | none =>
    cases known
    exact ⟨_, laid.rootHeld, Nat.le_refl _, Nat.le_refl _⟩
  | some i =>
    obtain ⟨q, here⟩ := kindOf_some known
    have block : (base (q, k), log.count (q, k) * L.width k) ∈ h.live :=
      laid.held _ (List.mem_of_getElem? here)
    rw [start_some here, place_some here]
    refine ⟨_, block, ?_, ?_⟩
    · omega
    · have less := rank_lt here
      have rows : rank log i (q, k) * L.width k + L.width k ≤ log.count (q, k) * L.width k := by
        calc rank log i (q, k) * L.width k + L.width k
            = (rank log i (q, k) + 1) * L.width k := by ring
          _ ≤ log.count (q, k) * L.width k := Nat.mul_le_mul_right _ less
      omega

/-- No array is the block that its owner is in. -/
theorem Laid.start_ne (laid : Laid L top root h log base) {p : Option Nat} {k : κ} (l : κ)
    (known : kindOf top log p = some k) : start root log base p ≠ base (p, l) := by
  obtain ⟨n, live, -⟩ := laid.in_block known
  have positive := (laid.sane.proper _ live).1
  by_cases member : (p, l) ∈ log
  · cases p with
    | none => exact (laid.notRoot _ member).symm
    | some i =>
      obtain ⟨q, here⟩ := kindOf_some known
      rw [start_some here]
      intro same
      have own := laid.unshared _ (List.mem_of_getElem? here) _ member same
      have own' : q = some i := congrArg Prod.fst own
      subst own'
      have less := laid.parent_lt here
      omega
  · rw [laid.null _ member]
    simp only at positive
    omega

/-- Different elements of an array do not overlap. -/
theorem rows_apart {i j : Nat} {e : Option Nat × κ} {a w : Nat} (hereI : log[i]? = some e)
    (hereJ : log[j]? = some e) (differ : i ≠ j) :
    Apart (a + rank log i e * w, w) (a + rank log j e * w, w) := by
  have next : ∀ {x y : Nat}, x < y → x * w + w ≤ y * w := by
    intro x y less
    calc x * w + w = (x + 1) * w := by ring
      _ ≤ y * w := Nat.mul_le_mul_right w less
  rcases Nat.lt_or_gt_of_ne differ with before | after
  · have rows := next (rank_strictMono before hereI)
    simp only [Apart]
    omega
  · have rows := next (rank_strictMono after hereJ)
    simp only [Apart]
    omega

/-- Records do not overlap. -/
theorem Laid.records_apart (laid : Laid L top root h log base) {p q : Option Nat} {k l : κ}
    (knownP : kindOf top log p = some k) (knownQ : kindOf top log q = some l) (differ : p ≠ q) :
    Apart (place L root log base p, L.width k) (place L root log base q, L.width l) := by
  obtain ⟨n, liveP, loP, hiP⟩ := laid.in_block knownP
  obtain ⟨n', liveQ, loQ, hiQ⟩ := laid.in_block knownQ
  by_cases sameStart : start root log base p = start root log base q
  · cases p with
    | none =>
      cases q with
      | none => exact absurd rfl differ
      | some j =>
        obtain ⟨q', here⟩ := kindOf_some knownQ
        rw [start_some here] at sameStart
        exact absurd sameStart.symm (laid.notRoot _ (List.mem_of_getElem? here))
    | some i =>
      obtain ⟨p', hereP⟩ := kindOf_some knownP
      cases q with
      | none =>
        rw [start_some hereP] at sameStart
        exact absurd sameStart (laid.notRoot _ (List.mem_of_getElem? hereP))
      | some j =>
        obtain ⟨q', hereQ⟩ := kindOf_some knownQ
        rw [start_some hereP, start_some hereQ] at sameStart
        have same := laid.unshared _ (List.mem_of_getElem? hereP) _
          (List.mem_of_getElem? hereQ) sameStart
        cases same
        rw [place_some hereP, place_some hereQ]
        exact rows_apart hereP hereQ fun eq => differ (congrArg some eq)
  · have apart := laid.sane.apart_of_start liveP liveQ sameStart
    simp only [Apart] at apart ⊢
    omega

/-- An array of n elements that is described at an address has been moved to a
fresh block with room for one more, and the old block has been returned. -/
structure Moved (h h' : Heap) (field old n width b : Nat) : Prop where
  pointer : word h'.storage field = b
  moved : ∀ i, i < n * width → h'.storage (b + i) = h.storage (old + i)
  kept : ∀ x, h.Held x → x < field ∨ field + 4 ≤ x → h'.storage x = h.storage x
  live : ∀ x, x ∈ h'.live ↔ x = (b, (n + 1) * width) ∨ x ∈ h.live ∧ x.1 ≠ old
  sane : h'.Sane
  fresh : h.Fresh (b, (n + 1) * width)

/-- The storage m has one element more in that array than the heap that the move left. -/
structure Appended (h' : Heap) (m : Storage) (field n width b : Nat) : Prop where
  count : word m (field + 4) = n + 1
  kept : ∀ x, x < field + 4 ∨ field + 8 ≤ x → x < b + n * width ∨ b + (n + 1) * width ≤ x →
    m x = h'.storage x

section
variable {p : Option Nat} {k l : κ} {off b : Nat} {m : Storage}

theorem place_append_other {q : Option Nat} {kq : κ} (known : kindOf top log q = some kq)
    (other : ∀ i, q = some i → log[i]? ≠ some (p, l)) :
    place L root (log ++ [(p, l)]) (Function.update base (p, l) b) q = place L root log base q := by
  cases q with
  | none => rfl
  | some i =>
    obtain ⟨q', here⟩ := kindOf_some known
    have inLog := kindOf_lt known
    have differ : (q', kq) ≠ (p, l) := fun same => other i rfl (here.trans (congrArg some same))
    rw [place_some here, place_some (by rw [List.getElem?_append_left inLog, here]),
      rank_append _ _ (Nat.le_of_lt inLog), Function.update_of_ne differ]

theorem place_append_same {i : Nat} (here : log[i]? = some (p, l)) :
    place L root (log ++ [(p, l)]) (Function.update base (p, l) b) (some i) =
      b + rank log i (p, l) * L.width l := by
  have inLog := (List.getElem?_eq_some_iff.mp here).1
  rw [place_some (by rw [List.getElem?_append_left inLog, here]),
    rank_append _ _ (Nat.le_of_lt inLog), Function.update_self]

theorem place_append_new :
    place L root (log ++ [(p, l)]) (Function.update base (p, l) b) (some log.length) =
      b + log.count (p, l) * L.width l := by
  have rankNew : rank (log ++ [(p, l)]) log.length (p, l) = log.count (p, l) := by
    rw [rank, List.take_left]
  rw [place_some (List.getElem?_concat_length), rankNew, Function.update_self]

theorem Laid.owner_not_in (laid : Laid L top root h log base) (i : Nat) (own : p = some i) :
    log[i]? ≠ some (p, l) := by
  rintro here
  subst own
  have less := laid.parent_lt here
  omega

section
variable (laid : Laid L top root h log base) (known : kindOf top log p = some k)
  (field : L.field k l = some off)
  (moved : Moved h h' (place L root log base p + off) (base (p, l)) (log.count (p, l))
    (L.width l) b)
  (appended : Appended h' m (place L root log base p + off) (log.count (p, l)) (L.width l) b)
include laid known field moved appended

/-- A byte of a record, its description of the array apart, is where the record
is after the array has grown. -/
theorem Laid.byte_kept {q : Option Nat} {kq : κ} {i : Nat} (knownQ : kindOf top log q = some kq)
    (hi : i < L.width kq) (private_ : q = p → i < off ∨ off + 8 ≤ i) :
    m (place L root (log ++ [(p, l)]) (Function.update base (p, l) b) q + i) =
      h.storage (place L root log base q + i) := by
  have heldAt : ∀ {q' : Option Nat} {k' : κ} {j : Nat}, kindOf top log q' = some k' →
      j < L.width k' → h.Held (place L root log base q' + j) := by
    intro q' k' j known' hj
    obtain ⟨n, live, lo, hi⟩ := laid.in_block known'
    exact ⟨_, live, by simp only; omega, by simp only; omega⟩
  have room := L.fits field
  have fresh := moved.fresh
  by_cases inArray : ∃ j, q = some j ∧ log[j]? = some (p, l)
  · obtain ⟨j, rfl, here⟩ := inArray
    have sameKind : kq = l := by
      obtain ⟨q', here'⟩ := kindOf_some knownQ
      rw [here] at here'
      cases here'
      rfl
    subst sameKind
    have rows : rank log j (p, kq) * L.width kq + i < log.count (p, kq) * L.width kq := by
      have less := rank_lt here
      calc rank log j (p, kq) * L.width kq + i
          < rank log j (p, kq) * L.width kq + L.width kq := by omega
        _ = (rank log j (p, kq) + 1) * L.width kq := by ring
        _ ≤ _ := Nat.mul_le_mul_right _ less
    have outside : b + rank log j (p, kq) * L.width kq + i < place L root log base p + off + 4 ∨
        place L root log base p + off + 8 ≤ b + rank log j (p, kq) * L.width kq + i := by
      by_contra inside
      -- a byte of the new block would be a byte of the owner's record
      obtain ⟨j', offset⟩ : ∃ j', b + rank log j (p, kq) * L.width kq + i =
          place L root log base p + j' :=
        ⟨b + rank log j (p, kq) * L.width kq + i - place L root log base p, by omega⟩
      have owned := fresh.not_held (heldAt (j := j') known (by omega))
      simp only [Nat.add_mul] at owned
      omega
    rw [place_append_same here, place_some here, appended.kept _ outside (by omega), Nat.add_assoc,
      moved.moved _ rows, Nat.add_assoc]
  · have other : ∀ j, q = some j → log[j]? ≠ some (p, l) :=
      fun j own here => inArray ⟨j, own, here⟩
    have held := heldAt knownQ hi
    have apart : place L root log base q + i < place L root log base p + off ∨
        place L root log base p + off + 8 ≤ place L root log base q + i := by
      by_cases own : q = p
      · have behind := private_ own
        subst own
        omega
      · have records := laid.records_apart knownQ known own
        simp only [Apart] at records
        omega
    have array := fresh.not_held held
    rw [place_append_other knownQ other, appended.kept _ (by omega) (by simp only at array; omega),
      moved.kept _ held (by omega)]

theorem Laid.word_kept {q : Option Nat} {kq : κ} {o : Nat} (knownQ : kindOf top log q = some kq)
    (ho : o + 4 ≤ L.width kq) (private_ : q = p → o + 4 ≤ off ∨ off + 8 ≤ o) :
    word m (place L root (log ++ [(p, l)]) (Function.update base (p, l) b) q + o) =
      word h.storage (place L root log base q + o) := by
  apply word_congr
  intro i hi
  rw [Nat.add_assoc, Nat.add_assoc]
  exact laid.byte_kept known field moved appended knownQ (by omega) fun own => by
    have := private_ own
    omega

/-- What a growing array leaves: the description of the array is new, every
other one is as it was, and a new record has none. -/
theorem Laid.described (clear : ∀ l' off', L.field l l' = some off' →
      word m (b + log.count (p, l) * L.width l + off') = 0 ∧
        word m (b + log.count (p, l) * L.width l + off' + 4) = 0)
    {q : Option Nat} {kq lq : κ} {offq : Nat}
    (knownQ : kindOf top (log ++ [(p, l)]) q = some kq) (fieldQ : L.field kq lq = some offq) :
    word m (place L root (log ++ [(p, l)]) (Function.update base (p, l) b) q + offq) =
        Function.update base (p, l) b (q, lq) ∧
      word m (place L root (log ++ [(p, l)]) (Function.update base (p, l) b) q + offq + 4) =
        (log ++ [(p, l)]).count (q, lq) := by
  rcases kindOf_snoc knownQ with oldQ | ⟨rfl, rfl⟩
  · have room := L.fits fieldQ
    by_cases same : (q, lq) = (p, l)
    · cases same
      cases known.symm.trans oldQ
      cases field.symm.trans fieldQ
      rw [place_append_other known fun i own => laid.owner_not_in i own, Function.update_self]
      refine ⟨?_, by rw [appended.count]; simp⟩
      rw [← moved.pointer]
      apply word_congr
      intro i hi
      obtain ⟨n, live, lo, hi'⟩ := laid.in_block known
      have held : h.Held (place L root log base p + off + i) :=
        ⟨_, live, by simp only; omega, by simp only; omega⟩
      have array := moved.fresh.not_held held
      exact appended.kept _ (by omega) (by simp only [Nat.add_mul] at array ⊢; omega)
    · have apart : q = p → offq + 8 ≤ off ∨ off + 8 ≤ offq := by
        rintro rfl
        cases known.symm.trans oldQ
        exact L.fieldsApart fieldQ field fun eq => same (by rw [eq])
      rw [laid.word_kept known field moved appended oldQ (by omega) fun own => by
          have := apart own
          omega]
      rw [Nat.add_assoc _ offq 4,
        laid.word_kept known field moved appended oldQ (by omega) fun own => by
          have := apart own
          omega]
      rw [← Nat.add_assoc,
        laid.pointer oldQ fieldQ, laid.count oldQ fieldQ, Function.update_of_ne same]
      exact ⟨rfl, by simp [Ne.symm same]⟩
  · have notParent : p ≠ some log.length := by
      rintro rfl
      exact absurd (kindOf_lt known) (Nat.lt_irrefl _)
    have notIn : (some log.length, lq) ∉ log := by
      intro member
      obtain ⟨i, here⟩ := List.mem_iff_getElem?.mp member
      have inLog := (List.getElem?_eq_some_iff.mp here).1
      have less := laid.parent_lt here
      omega
    have differ : (some log.length, lq) ≠ (p, kq) :=
      fun same => notParent (congrArg Prod.fst same).symm
    rw [place_append_new, Function.update_of_ne differ, laid.null _ notIn]
    refine ⟨(clear lq offq fieldQ).1, ?_⟩
    rw [(clear lq offq fieldQ).2]
    simp [Ne.symm differ, List.count_eq_zero_of_not_mem notIn]

end

theorem Laid.base_ne (laid : Laid L top root h log base) {e e' : Option Nat × κ} (member : e ∈ log)
    (differ : e ≠ e') : base e ≠ base e' := by
  intro same
  by_cases inLog : e' ∈ log
  · exact differ (laid.unshared e member e' inLog same)
  · have positive := laid.base_pos member
    rw [same, laid.null e' inLog] at positive
    omega

theorem Laid.root_ne (laid : Laid L top root h log base) (e : Option Nat × κ) : root ≠ base e := by
  by_cases inLog : e ∈ log
  · exact (laid.notRoot e inLog).symm
  · rw [laid.null e inLog]
    exact Nat.ne_of_gt (laid.sane.proper _ laid.rootHeld).1

theorem mem_append_cases {e x : Option Nat × κ} (member : e ∈ log ++ [x]) :
    e = x ∨ e ≠ x ∧ e ∈ log := by
  by_cases same : e = x
  · exact Or.inl same
  · rcases List.mem_append.mp member with inLog | last
    · exact Or.inr ⟨same, inLog⟩
    · exact absurd (List.mem_singleton.mp last) same

theorem Laid.parent_append (laid : Laid L top root h log base) (known : kindOf top log p = some k)
    (field : L.field k l = some off) {i : Nat} {e : Option Nat × κ}
    (here : (log ++ [(p, l)])[i]? = some e) :
    ∃ k off, kindOf top ((log ++ [(p, l)]).take i) e.1 = some k ∧ L.field k e.2 = some off := by
  rcases found_concat here with old | ⟨rfl, rfl⟩
  · have inLog := (List.getElem?_eq_some_iff.mp old).1
    rw [List.take_append_of_le_length (Nat.le_of_lt inLog)]
    exact laid.parent old
  · rw [List.take_left]
    exact ⟨k, off, known, field⟩

/-- A record added to a tree in a heap. -/
theorem Laid.append (laid : Laid L top root h log base) (known : kindOf top log p = some k)
    (field : L.field k l = some off)
    (moved : Moved h h' (place L root log base p + off) (base (p, l)) (log.count (p, l))
      (L.width l) b)
    (appended : Appended h' m (place L root log base p + off) (log.count (p, l)) (L.width l) b)
    (clear : ∀ l' off', L.field l l' = some off' →
      word m (b + log.count (p, l) * L.width l + off') = 0 ∧
        word m (b + log.count (p, l) * L.width l + off' + 4) = 0) :
    Laid L top root ⟨m, h'.live⟩ (log ++ [(p, l)]) (Function.update base (p, l) b) := by
  have fresh := moved.fresh
  have grown : log.count (p, l) + 1 = (log ++ [(p, l)]).count (p, l) := by simp
  have oldCount : ∀ e, e ≠ (p, l) → (log ++ [(p, l)]).count e = log.count e := by
    intro e differ
    simp [Ne.symm differ]
  have baseOther : ∀ e, e ≠ (p, l) → Function.update base (p, l) b e = base e :=
    fun e differ => Function.update_of_ne differ _ _
  have baseNe : ∀ e ∈ log, base e ≠ b := fun e member =>
    fresh.start_ne (laid.held e member) laid.sane
  refine ⟨moved.sane.write m, laid.parent_append known field, ?_, ?_, ?_, ?_, ?_, ?_, ?_⟩
  · exact fun knownQ fieldQ =>
      (laid.described known field moved appended clear knownQ fieldQ).1
  · exact fun knownQ fieldQ =>
      (laid.described known field moved appended clear knownQ fieldQ).2
  · intro e notIn
    rw [List.mem_append, List.mem_singleton, not_or] at notIn
    rw [baseOther e notIn.2, laid.null e notIn.1]
  · exact (moved.live _).mpr (Or.inr ⟨laid.rootHeld, laid.root_ne (p, l)⟩)
  · intro e member
    rcases mem_append_cases member with rfl | ⟨differ, inLog⟩
    · rw [Function.update_self, ← grown]
      exact (moved.live _).mpr (Or.inl rfl)
    · rw [baseOther e differ, oldCount e differ]
      exact (moved.live _).mpr (Or.inr ⟨laid.held e inLog, laid.base_ne inLog differ⟩)
  · intro e member
    rcases mem_append_cases member with rfl | ⟨differ, inLog⟩
    · rw [Function.update_self]
      exact (fresh.start_ne laid.rootHeld laid.sane).symm
    · rw [baseOther e differ]
      exact laid.notRoot e inLog
  · intro e member e' member' sameBase
    rcases mem_append_cases member with rfl | ⟨differ, inLog⟩
    · rcases mem_append_cases member' with rfl | ⟨differ', inLog'⟩
      · rfl
      · rw [Function.update_self, baseOther e' differ'] at sameBase
        exact absurd sameBase.symm (baseNe e' inLog')
    · rw [baseOther e differ] at sameBase
      rcases mem_append_cases member' with rfl | ⟨differ', inLog'⟩
      · rw [Function.update_self] at sameBase
        exact absurd sameBase (baseNe e inLog)
      · rw [baseOther e' differ'] at sameBase
        exact laid.unshared e inLog e' inLog' sameBase

end

/-- A block that is neither the root nor an array. -/
structure Outside (root : Nat) (h : Heap) (log : Log κ) (base : Option Nat × κ → Nat)
    (x : Nat × Nat) : Prop where
  live : x ∈ h.live
  notRoot : x.1 ≠ root
  notArray : ∀ e ∈ log, x.1 ≠ base e

/-- Such a block overlaps no record. -/
theorem Laid.outside_apart (laid : Laid L top root h log base) {p : Option Nat} {k : κ}
    {x : Nat × Nat} (known : kindOf top log p = some k) (away : Outside root h log base x) :
    Apart x (place L root log base p, L.width k) := by
  obtain ⟨n, live, lo, hi⟩ := laid.in_block known
  have notOwner : x.1 ≠ start root log base p := by
    cases p with
    | none => exact away.notRoot
    | some i =>
      obtain ⟨q, here⟩ := kindOf_some known
      rw [start_some here]
      exact away.notArray _ (List.mem_of_getElem? here)
  have apart := laid.sane.apart_of_start away.live live notOwner
  simp only [Apart] at apart ⊢
  omega

/-- What adding a record does to the tree and to the rest of the heap. -/
structure Added (L : Layout κ) (top : κ) (root : Nat) (h h' : Heap) (log : Log κ)
    (base : Option Nat × κ → Nat) (p : Option Nat) (l : κ) (off b : Nat)
    (content : Nat → UInt8) : Prop where
  laid : Laid L top root h' (log ++ [(p, l)]) (Function.update base (p, l) b)
  live : ∀ x, x ∈ h'.live ↔
    x = (b, (log.count (p, l) + 1) * L.width l) ∨ x ∈ h.live ∧ x.1 ≠ base (p, l)
  outside : ∀ x, Outside root h log base x →
    Outside root h' (log ++ [(p, l)]) (Function.update base (p, l) b) x ∧
      ∀ a, x.1 ≤ a → a < x.1 + x.2 → h'.storage a = h.storage a
  record : ∀ {q kq i}, kindOf top log q = some kq → i < L.width kq →
    (q = p → i < off ∨ off + 8 ≤ i) →
      h'.storage (place L root (log ++ [(p, l)]) (Function.update base (p, l) b) q + i) =
        h.storage (place L root log base q + i)
  content : ∀ i, i < L.width l →
    h'.storage (b + log.count (p, l) * L.width l + i) = content i

theorem Laid.added {p : Option Nat} {k l : κ} {off b : Nat} {m : Storage} {content : Nat → UInt8}
    (laid : Laid L top root h log base) (known : kindOf top log p = some k)
    (field : L.field k l = some off)
    (moved : Moved h h' (place L root log base p + off) (base (p, l)) (log.count (p, l))
      (L.width l) b)
    (appended : Appended h' m (place L root log base p + off) (log.count (p, l)) (L.width l) b)
    (record : ∀ i, i < L.width l → m (b + log.count (p, l) * L.width l + i) = content i)
    (clear : ∀ l' off', L.field l l' = some off' → ∀ i, i < 8 → content (off' + i) = 0) :
    Added L top root h ⟨m, h'.live⟩ log base p l off b content := by
  refine ⟨laid.append known field moved appended ?_, moved.live, ?_, ?_, record⟩
  · intro l' off' field'
    have room := L.fits field'
    have zero : ∀ i, i < 8 → m (b + log.count (p, l) * L.width l + off' + i) = 0 := by
      intro i hi
      rw [Nat.add_assoc, record _ (by omega), clear l' off' field' i hi]
    refine ⟨word_zero fun i hi => zero i (by omega), word_zero fun i hi => ?_⟩
    rw [Nat.add_assoc _ 4 i]
    exact zero _ (by omega)
  · intro x away
    have notOld : x.1 ≠ base (p, l) := by
      by_cases inLog : (p, l) ∈ log
      · exact away.notArray _ inLog
      · have positive := (laid.sane.proper _ away.live).1
        rw [laid.null _ inLog]
        omega
    have room := L.fits field
    have apart := laid.outside_apart known away
    have fresh := moved.fresh.2 x away.live
    refine ⟨⟨(moved.live _).mpr (Or.inr ⟨away.live, notOld⟩), away.notRoot, ?_⟩, ?_⟩
    · intro e member
      by_cases same : e = (p, l)
      · rw [same, Function.update_self]
        exact moved.fresh.start_ne away.live laid.sane
      · rw [Function.update_of_ne same]
        rcases List.mem_append.mp member with inLog | last
        · exact away.notArray e inLog
        · exact absurd (List.mem_singleton.mp last) same
    · intro a ha ha'
      simp only [Apart] at apart fresh
      refine (appended.kept a (by omega) (by simp only [Nat.add_mul] at fresh ⊢; omega)).trans ?_
      exact moved.kept a ⟨x, away.live, ha, ha'⟩ (by omega)
  · intro q kq i knownQ hi private_
    exact laid.byte_kept known field moved appended knownQ hi private_

/-- A root that describes no array holds the tree of no records. -/
theorem Laid.empty (sane : h.Sane) (live : (root, L.width top) ∈ h.live)
    (clear : ∀ l off, L.field top l = some off →
      word h.storage (root + off) = 0 ∧ word h.storage (root + off + 4) = 0) :
    Laid L top root h [] fun _ => 0 := by
  refine ⟨sane, ?_, ?_, ?_, fun _ _ => rfl, live, ?_, ?_, ?_⟩
  · intro i e here
    cases here
  · intro p k l off known field
    obtain ⟨rfl, rfl⟩ := kindOf_nil known
    exact (clear l off field).1
  · intro p k l off known field
    obtain ⟨rfl, rfl⟩ := kindOf_nil known
    exact (clear l off field).2
  · intro e member
    cases member
  · intro e member
    cases member
  · intro e member
    cases member

/-- A heap with the same descriptions, and with the blocks that were in use,
holds the same tree. -/
theorem Laid.frame (laid : Laid L top root h log base) (sane : h'.Sane)
    (live : ∀ x ∈ h.live, x ∈ h'.live)
    (same : ∀ {p k l off i}, kindOf top log p = some k → L.field k l = some off → i < 8 →
      h'.storage (place L root log base p + off + i) =
        h.storage (place L root log base p + off + i)) :
    Laid L top root h' log base := by
  refine ⟨sane, laid.parent, ?_, ?_, laid.null, live _ laid.rootHeld,
    fun e member => live _ (laid.held e member), laid.notRoot, laid.unshared⟩
  · intro p k l off known field
    rw [← laid.pointer known field]
    exact word_congr fun i hi => same known field (by omega)
  · intro p k l off known field
    rw [← laid.count known field]
    apply word_congr
    intro i hi
    rw [Nat.add_assoc _ 4 i]
    exact same known field (by omega)

/-- A change of private bytes of a record, and of storage that was not in use. -/
structure Touched (L : Layout κ) (h h' : Heap) (a : Nat) (k : κ) : Prop where
  sane : h'.Sane
  live : ∀ x ∈ h.live, x ∈ h'.live
  kept : ∀ x, h.Held x → (∀ o, L.Private k o → x ≠ a + o) → h'.storage x = h.storage x

omit [DecidableEq κ] in
theorem Touched.held {a x : Nat} {k : κ} (touched : Touched L h h' a k) (held : h.Held x) :
    h'.Held x := by
  obtain ⟨block, live, range⟩ := held
  exact ⟨block, touched.live block live, range⟩

omit [DecidableEq κ] in
theorem Touched.trans {h'' : Heap} {a : Nat} {k : κ} (first : Touched L h h' a k)
    (second : Touched L h' h'' a k) : Touched L h h'' a k :=
  ⟨second.sane, fun x hx => second.live x (first.live x hx), fun x held clean =>
    (second.kept x (first.held held) clean).trans (first.kept x held clean)⟩

section
variable {q : Option Nat} {k : κ}

/-- Other bytes of records are kept. -/
theorem Laid.touched_record (laid : Laid L top root h log base)
    (known : kindOf top log q = some k)
    (touched : Touched L h h' (place L root log base q) k) {p : Option Nat} {l : κ} {i : Nat}
    (knownP : kindOf top log p = some l) (hi : i < L.width l)
    (clean : p = q → ¬ L.Private k i) :
    h'.storage (place L root log base p + i) = h.storage (place L root log base p + i) := by
  obtain ⟨n, live, lo, hi'⟩ := laid.in_block knownP
  refine touched.kept _ ⟨_, live, by simp only; omega, by simp only; omega⟩ fun o isPrivate same => ?_
  have bound := isPrivate.1
  by_cases own : p = q
  · subst own
    exact clean rfl (by rwa [show i = o by omega])
  · have apart := laid.records_apart knownP known own
    simp only [Apart] at apart
    omega

theorem Laid.touched_outside (laid : Laid L top root h log base)
    (known : kindOf top log q = some k)
    (touched : Touched L h h' (place L root log base q) k) {x : Nat × Nat}
    (away : Outside root h log base x) :
    Outside root h' log base x ∧
      ∀ a, x.1 ≤ a → a < x.1 + x.2 → h'.storage a = h.storage a := by
  refine ⟨⟨touched.live x away.live, away.notRoot, away.notArray⟩, fun a lo hi => ?_⟩
  refine touched.kept a ⟨x, away.live, lo, hi⟩ fun o isPrivate same => ?_
  have bound := isPrivate.1
  have apart := laid.outside_apart known away
  simp only [Apart] at apart
  omega

theorem Laid.touched (laid : Laid L top root h log base)
    (known : kindOf top log q = some k)
    (touched : Touched L h h' (place L root log base q) k) : Laid L top root h' log base := by
  refine laid.frame touched.sane touched.live fun {p l l' off i} knownP field hi => ?_
  have room := L.fits field
  rw [Nat.add_assoc]
  refine laid.touched_record known touched knownP (by omega) fun own isPrivate => ?_
  subst own
  cases knownP.symm.trans known
  have apart := isPrivate.2 _ _ field
  omega

end

/-- The record at an address starts with a pointer to a block of its own, which
holds this string. -/
structure Named (root : Nat) (h : Heap) (log : Log κ) (base : Option Nat × κ → Nat)
    (a : Nat) (name : List UInt8) : Prop where
  block : Outside root h log base (word h.storage a, name.length + 1)
  chars : h.storage.bytes (word h.storage a) (name.length + 1) = name ++ [0]

omit [DecidableEq κ] in
theorem Named.kept {log' : Log κ} {base' : Option Nat × κ → Nat} {a a' : Nat} {name : List UInt8}
    (named : Named root h log base a name)
    (pointer : ∀ i, i < 4 → h'.storage (a' + i) = h.storage (a + i))
    (outside : ∀ x, Outside root h log base x → Outside root h' log' base' x ∧
      ∀ b, x.1 ≤ b → b < x.1 + x.2 → h'.storage b = h.storage b) :
    Named root h' log' base' a' name := by
  have same : word h'.storage a' = word h.storage a := word_congr pointer
  obtain ⟨block, chars⟩ := outside _ named.block
  refine ⟨by rw [same]; exact block, ?_⟩
  rw [same, ← named.chars]
  exact bytes_congr fun i hi => chars _ (Nat.le_add_right _ _) (Nat.add_lt_add_left hi _)

theorem Laid.outside_fresh (laid : Laid L top root h log base) {b : Nat × Nat} (free : h.Fresh b)
    (m : Storage) : Outside root ⟨m, b :: h.live⟩ log base b :=
  ⟨List.mem_cons_self, (free.start_ne laid.rootHeld laid.sane).symm,
    fun e member => (free.start_ne (laid.held e member) laid.sane).symm⟩

theorem Named.fresh {m : Storage} {a b : Nat} {name : List UInt8}
    (laid : Laid L top root h log base) (free : h.Fresh (b, name.length + 1))
    (pointer : word m a = b) (chars : m.bytes b (name.length + 1) = name ++ [0]) :
    Named root ⟨m, (b, name.length + 1) :: h.live⟩ log base a name := by
  refine ⟨?_, ?_⟩
  · rw [pointer]
    exact laid.outside_fresh free m
  · rw [pointer]
    exact chars

theorem map_children {β : Type} (f g : Nat → β) {p : Option Nat} {l : κ}
    (same : ∀ i, log[i]? = some (p, l) → f (place L root log base (some i)) = g i) :
    (List.range (log.count (p, l))).map (fun j => f (base (p, l) + j * L.width l)) =
      (children log p l).map g := by
  rw [← map_rank_children, List.map_map]
  apply List.map_congr_left
  intro i hi
  have here : log[i]? = some (p, l) := mem_children.mp hi
  rw [← same i here, place_some here]
  rfl

/-- No younger record is in the same array. -/
def Newest (log : Log κ) (i : Nat) : Prop := ∀ e ∈ log[i]?, e ∉ log.drop (i + 1)

instance (log : Log κ) (i : Nat) : Decidable (Newest log i) :=
  inferInstanceAs (Decidable (∀ e ∈ log[i]?, e ∉ log.drop (i + 1)))

/-- The pointer that was returned for a record is right while the record is the
newest of its array. -/
structure Tracked (L : Layout κ) (root : Nat) (log : Log κ) (base : Option Nat × κ → Nat)
    (pointers : List Nat) : Prop where
  length : pointers.length = log.length
  right : ∀ {i a}, Newest log i → pointers[i]? = some a → a = place L root log base (some i)

theorem Tracked.empty : Tracked L root [] base [] := by
  refine ⟨rfl, ?_⟩
  intro i a _ here
  cases here

theorem Tracked.append {pointers : List Nat} (tracked : Tracked L root log base pointers)
    (p : Option Nat) (l : κ) (b : Nat) :
    Tracked L root (log ++ [(p, l)]) (Function.update base (p, l) b)
      (pointers ++ [b + log.count (p, l) * L.width l]) := by
  refine ⟨by simp [tracked.length], ?_⟩
  intro i a newest here
  rcases Nat.lt_or_ge i log.length with old | new
  · have inPointers : i < pointers.length := by rw [tracked.length]; exact old
    rw [List.getElem?_append_left inPointers] at here
    have entry : log[i]? = some log[i] := List.getElem?_eq_getElem old
    have fromNew := newest log[i] (by rw [List.getElem?_append_left old, entry]; rfl)
    rw [List.drop_append_of_le_length (by omega), List.mem_append, List.mem_singleton,
      not_or] at fromNew
    have newestBefore : Newest log i := by
      intro e same
      rw [Option.mem_def, entry] at same
      cases same
      exact fromNew.1
    have known : kindOf log[i].2 log (some i) = some log[i].2 := by rw [kindOf, entry]; rfl
    rw [tracked.right newestBefore here]
    refine (place_append_other known fun j own => ?_).symm
    cases own
    rw [entry]
    exact fun same => fromNew.2 (Option.some.inj same)
  · have last : i = log.length := by
      have := (List.getElem?_eq_some_iff.mp here).1
      simp only [List.length_append, List.length_singleton, tracked.length] at this
      omega
    subst last
    rw [← tracked.length, List.getElem?_concat_length] at here
    cases here
    exact place_append_new.symm

end

end Arena
