import Mathlib.Data.List.Nodup
import Mathlib.Data.List.Induction

/-!
# Items assigned to owners

Items are assigned to owners one after the other. An owner lists the items that
were ever assigned to it, and an item points to the owner it was assigned to
last. The two views agree exactly as long as no item is assigned twice.
-/

namespace Assignments

variable {δ ν : Type} {made : List (δ × ν)} {d d' : δ} {n n' : ν}

section
variable [DecidableEq δ]

/-- The items of an owner, in the order of their assignment. -/
def listed (made : List (δ × ν)) (d : δ) : List ν :=
  (made.filter fun a => a.1 = d).map Prod.snd

theorem listed_append (made : List (δ × ν)) (d d' : δ) (n : ν) :
    listed (made ++ [(d, n)]) d' = listed made d' ++ if d = d' then [n] else [] := by
  rw [listed, List.filter_append, List.map_append]
  by_cases same : d = d'
  · simp [listed, same]
  · simp [listed, same]

theorem mem_listed : n ∈ listed made d ↔ (d, n) ∈ made := by
  simp [listed]

end

section
variable [DecidableEq ν]

/-- The owner of an item. -/
def owner (made : List (δ × ν)) (n : ν) : Option δ :=
  made.foldl (fun before a => if a.2 = n then some a.1 else before) none

theorem owner_append (made : List (δ × ν)) (d : δ) (n n' : ν) :
    owner (made ++ [(d, n)]) n' = if n = n' then some d else owner made n' := by
  simp [owner]

theorem owner_mem (owned : owner made n = some d) : (d, n) ∈ made := by
  induction made using List.reverseRecOn with
  | nil => cases owned
  | append_singleton made a ih =>
    obtain ⟨d', n'⟩ := a
    rw [owner_append] at owned
    by_cases same : n' = n
    · rw [if_pos same] at owned
      cases owned
      cases same
      exact List.mem_append_right _ (List.mem_singleton_self _)
    · rw [if_neg same] at owned
      exact List.mem_append_left _ (ih owned)

theorem owner_none (never : n ∉ made.map Prod.snd) : owner made n = none := by
  cases owned : owner made n with
  | none => rfl
  | some d => exact absurd (List.mem_map_of_mem (owner_mem owned)) never

end

variable [DecidableEq δ] [DecidableEq ν]

/-- An owner lists an item once if it is the item's owner, and not at all otherwise. -/
def Agree (made : List (δ × ν)) : Prop :=
  ∀ d n, (listed made d).count n = if owner made n = some d then 1 else 0

theorem count_listed_zero (never : n ∉ made.map Prod.snd) : (listed made d).count n = 0 :=
  List.count_eq_zero.mpr fun member => never (List.mem_map_of_mem (mem_listed.mp member))

/-- One more assignment keeps the agreement exactly when the item is new. -/
theorem agree_append : Agree (made ++ [(d, n)]) ↔ Agree made ∧ n ∉ made.map Prod.snd := by
  constructor
  · intro agree
    have never : n ∉ made.map Prod.snd := by
      intro earlier
      obtain ⟨⟨d', n'⟩, member, here⟩ := List.mem_map.mp earlier
      obtain rfl : n' = n := here
      have positive := List.count_pos_iff.mpr (mem_listed.mpr member)
      have count := agree d' n'
      rw [listed_append, owner_append, if_pos rfl, List.count_append] at count
      by_cases same : d = d'
      · rw [if_pos same, if_pos (congrArg some same), List.count_singleton_self] at count
        omega
      · rw [if_neg same, if_neg (by simpa using same), List.count_nil] at count
        omega
    refine ⟨fun d' n' => ?_, never⟩
    by_cases here : n = n'
    · subst here
      rw [owner_none never, count_listed_zero never, if_neg (by simp)]
    · have count := agree d' n'
      rw [listed_append, owner_append, if_neg here, List.count_append] at count
      rw [← count]
      by_cases same : d = d'
      · rw [if_pos same, List.count_singleton, if_neg (by simpa using here), Nat.add_zero]
      · rw [if_neg same, List.count_nil, Nat.add_zero]
  · rintro ⟨agree, never⟩ d' n'
    rw [listed_append, owner_append, List.count_append]
    by_cases here : n = n'
    · subst here
      rw [if_pos rfl, count_listed_zero never]
      by_cases same : d = d'
      · rw [if_pos same, if_pos (congrArg some same), List.count_singleton_self]
      · rw [if_neg same, if_neg (by simpa using same), List.count_nil]
    · rw [if_neg here, ← agree d' n']
      by_cases same : d = d'
      · rw [if_pos same, List.count_singleton, if_neg (by simpa using here), Nat.add_zero]
      · rw [if_neg same, List.count_nil, Nat.add_zero]

theorem agree_iff_nodup (made : List (δ × ν)) : Agree made ↔ (made.map Prod.snd).Nodup := by
  induction made using List.reverseRecOn with
  | nil => exact iff_of_true (fun d n => rfl) List.nodup_nil
  | append_singleton made a ih =>
    rw [agree_append, ih, List.map_append, List.map_singleton, List.nodup_append_comm,
      List.singleton_append, List.nodup_cons, and_comm]

end Assignments
