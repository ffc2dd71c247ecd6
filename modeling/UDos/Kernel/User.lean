import UDos.Kernel.Memory
import UDos.Library.FirstMatch
import UDos.Library.Recorded
import UDos.Library.Runs

/-!
# Accounts and groups

The tables of `user.c` and their searches by name. A table entry is its name,
none for NULL; the group search runs to `MAX_USERS` over a table of
`MAX_GROUPS` entries and reads the storage behind it as further entries.
-/

namespace User

open KernelMemory

def maxUsers : Nat := 64
def maxGroups : Nat := 8

abbrev Entries := List (Option CString)

/-- Reduce to the range of `user_t` and `group_t`. -/
def signed8 (x : Int) : Int := (x + 128) % 256 - 128

/-- The loop of the two create functions. -/
def createEntry (full : String) (allocates : Bool) (name : CString) :
    Entries → Outcome (Nat × Entries)
  | [] => .panic full
  | none :: rest => do
    Outcome.check (allocates = true) "Out of memory"
    .ok (0, some name :: rest)
  | some other :: rest => do
    let (i, rest) ← createEntry full allocates name rest
    .ok (i + 1, some other :: rest)

/-- The loop of the two searches, from index i on. -/
def searchEntry (name : CString) : Nat → Entries → Int
  | _, [] => -1
  | i, none :: rest => searchEntry name (i + 1) rest
  | i, some stored :: rest =>
    if keCompareString stored.chars name.chars = 0 then signed8 i
    else searchEntry name (i + 1) rest

structure Tables where
  users : Entries
  groups : Entries

def emptyTables : Tables := ⟨List.replicate maxUsers none, List.replicate maxGroups none⟩

def keCreateAccount (t : Tables) (allocates : Bool) (name : CString) :
    Outcome (Int × Tables) := do
  let (i, users) ← createEntry "Max number of users reached" allocates name t.users
  .ok (signed8 i, { t with users := users })

def keCreateUserGroup (t : Tables) (allocates : Bool) (name : CString) :
    Outcome (Int × Tables) := do
  let (i, groups) ← createEntry "Max number of groups reached" allocates name t.groups
  .ok (signed8 i, { t with groups := groups })

def keGetAccountByName (t : Tables) (name : CString) : Int :=
  searchEntry name 0 t.users

/-- `beyond i` is the name read from the storage i entries after the table. -/
def keGetUserGroupByName (t : Tables) (beyond : Nat → Option CString) (name : CString) : Int :=
  searchEntry name 0 (t.groups ++ (List.range (maxUsers - maxGroups)).map beyond)

/-- A create call and whether `MmAllocate` finds room for its name. -/
inductive CreateCall where
  | account (allocates : Bool) (name : CString)
  | group (allocates : Bool) (name : CString)

def createStep (t : Tables) : CreateCall → Outcome Tables
  | .account allocates name => do
    let (_, t) ← keCreateAccount t allocates name
    .ok t
  | .group allocates name => do
    let (_, t) ← keCreateUserGroup t allocates name
    .ok t

/-- A table filled from its front with the given names. -/
def filled (size : Nat) (names : List CString) : Entries :=
  names.map some ++ List.replicate (size - names.length) none

def accountNames (calls : List CreateCall) : List CString :=
  calls.filterMap fun
    | .account _ name => some name
    | .group _ _ => none

def groupNames (calls : List CreateCall) : List CString :=
  calls.filterMap fun
    | .account _ _ => none
    | .group _ name => some name

/-- A create call puts the name behind the names already there. -/
theorem createEntry_filled (full : String) (allocates : Bool) (name : CString)
    (size : Nat) (names : List CString) :
    createEntry full allocates name (filled size names) =
      if names.length < size then
        if allocates then .ok (names.length, filled size (names ++ [name]))
        else .panic "Out of memory"
      else .panic full := by
  induction names generalizing size with
  | nil =>
    cases size with
    | zero => rfl
    | succ size => cases allocates <;> simp [filled, List.replicate_succ, createEntry, Outcome.check]
  | cons other names ih =>
    cases size with
    | zero =>
      have rest := ih 0
      simp [filled] at rest
      simp [filled, createEntry, rest]
    | succ size =>
      have rest := ih size
      simp only [filled, List.map_cons, List.cons_append, List.length_cons,
        Nat.add_sub_add_right, createEntry] at rest ⊢
      rw [rest]
      by_cases room : names.length < size
      · cases allocates <;> simp [room]
      · simp [room]

theorem filled_length {size : Nat} {names : List CString} (room : names.length ≤ size) :
    (filled size names).length = size := by
  simp only [filled, List.length_append, List.length_map, List.length_replicate]
  omega

/-- Tables as the create calls leave them, holding these names. -/
structure Holds (users groups : List CString) (t : Tables) : Prop where
  userTable : t.users = filled maxUsers users
  groupTable : t.groups = filled maxGroups groups
  userRoom : users.length ≤ maxUsers
  groupRoom : groups.length ≤ maxGroups

theorem createStep_holds {users groups : List CString} {t u : Tables} {call : CreateCall}
    (holds : Holds users groups t) (ran : createStep t call = .ok u) :
    Holds (users ++ accountNames [call]) (groups ++ groupNames [call]) u := by
  cases call with
  | account allocates name =>
    simp only [createStep, keCreateAccount, holds.userTable, createEntry_filled] at ran
    by_cases room : users.length < maxUsers
    · cases allocates with
      | false => simp [room] at ran
      | true =>
        simp only [room, if_true] at ran
        cases ran
        refine ⟨rfl, by simpa [groupNames] using holds.groupTable, ?_, ?_⟩
        · simpa [accountNames] using Nat.succ_le_of_lt room
        · simpa [groupNames] using holds.groupRoom
    · simp [room] at ran
  | group allocates name =>
    simp only [createStep, keCreateUserGroup, holds.groupTable, createEntry_filled] at ran
    by_cases room : groups.length < maxGroups
    · cases allocates with
      | false => simp [room] at ran
      | true =>
        simp only [room, if_true] at ran
        cases ran
        refine ⟨by simpa [accountNames] using holds.userTable, rfl, ?_, ?_⟩
        · simpa [accountNames] using holds.userRoom
        · simpa [groupNames] using Nat.succ_le_of_lt room
    · simp [room] at ran

/-- Every reachable table holds the names of its create calls in their order. -/
theorem run_holds {calls : List CreateCall} {users groups : List CString} {t u : Tables}
    (holds : Holds users groups t) (ran : Runs.run createStep t calls = .ok u) :
    Holds (users ++ accountNames calls) (groups ++ groupNames calls) u := by
  induction calls generalizing t users groups with
  | nil =>
    cases ran
    simpa [accountNames, groupNames] using holds
  | cons call rest ih =>
    obtain ⟨m, step, tail⟩ := Outcome.bind_eq_ok.mp ran
    have last := ih (createStep_holds holds step) tail
    have accounts : accountNames (call :: rest) = accountNames [call] ++ accountNames rest :=
      List.filterMap_append (l := [call])
    have groups : groupNames (call :: rest) = groupNames [call] ++ groupNames rest :=
      List.filterMap_append (l := [call])
    rw [accounts, groups, ← List.append_assoc, ← List.append_assoc]
    exact last

theorem emptyTables_holds : Holds [] [] emptyTables := ⟨rfl, rfl, by decide, by decide⟩

/-- An index found by a search, -1 when there is none. -/
def indexOr : Option Nat → Int
  | some i => i
  | none => -1

theorem indexOr_inj {a b : Option Nat} : indexOr a = indexOr b ↔ a = b := by
  constructor
  · intro same
    cases a with
    | none =>
      cases b with
      | none => rfl
      | some j =>
        simp only [indexOr] at same
        omega
    | some i =>
      cases b with
      | none =>
        simp only [indexOr] at same
        omega
      | some j => exact congrArg some (Int.ofNat.inj same)
  · exact congrArg indexOr

/-- The index of the first entry with exactly this name, -1 without one. -/
def exactIndex (entries : Entries) (name : CString) : Int :=
  indexOr (entries.findIdx? fun entry => decide (entry = some name))

/-- Every entry whose name looks like the searched one has an entry with
exactly that name at or before it. -/
def Unshadowed (entries : Entries) (name : CString) : Prop :=
  ∀ (i : Nat) (stored : CString), entries[i]? = some (some stored) →
    LooksLike stored.chars name.chars → ∃ j : Nat, j ≤ i ∧ entries[j]? = some (some name)

/-- No entry has this name or one that looks like it. -/
def Unlike (entries : Entries) (name : CString) : Prop :=
  ∀ stored, some stored ∈ entries → ¬ LooksLike stored.chars name.chars

def looksLikeEntry (name : CString) : Option CString → Bool
  | none => false
  | some stored => decide (LooksLike stored.chars name.chars)

theorem signed8_index {i : Nat} (low : i < 128) : signed8 i = i := by
  unfold signed8
  omega

/-- The searches find the first entry that looks like the name. -/
theorem searchEntry_eq (name : CString) (start : Nat) (entries : Entries)
    (low : start + entries.length ≤ 128) :
    searchEntry name start entries =
      indexOr ((entries.findIdx? (looksLikeEntry name)).map (start + ·)) := by
  induction entries generalizing start with
  | nil => rfl
  | cons entry rest ih =>
    simp only [List.length_cons] at low
    have later := ih (start + 1) (by omega)
    cases entry with
    | none =>
      rw [searchEntry, later, List.findIdx?_cons]
      simp only [looksLikeEntry]
      cases rest.findIdx? (looksLikeEntry name) with
      | none => rfl
      | some i =>
        simp only [Option.map_some, indexOr, Bool.false_eq_true, if_false]
        omega
    | some stored =>
      rw [searchEntry, List.findIdx?_cons]
      by_cases looks : LooksLike stored.chars name.chars
      · rw [if_pos ((keCompareString_eq_zero_iff stored.noNul name.noNul).mpr looks)]
        simp [looksLikeEntry, looks, signed8_index (show start < 128 by omega), indexOr]
      · have differ := mt (keCompareString_eq_zero_iff stored.noNul name.noNul).mp looks
        rw [if_neg differ, later]
        simp only [looksLikeEntry, looks, decide_false]
        cases rest.findIdx? (looksLikeEntry name) with
        | none => rfl
        | some i =>
        simp only [Option.map_some, indexOr, Bool.false_eq_true, if_false]
        omega

theorem unshadowed_iff {entries : Entries} {name : CString} :
    (∀ (i : Nat) (entry : Option CString), entries[i]? = some entry →
      looksLikeEntry name entry → ∃ (j : Nat) (other : Option CString),
        j ≤ i ∧ entries[j]? = some other ∧ decide (other = some name)) ↔
      Unshadowed entries name := by
  constructor
  · intro covered i stored hi looks
    obtain ⟨j, other, hj, found, same⟩ := covered i _ hi (decide_eq_true looks)
    have exact : other = some name := of_decide_eq_true same
    exact ⟨j, hj, exact ▸ found⟩
  · intro unshadowed i entry hi looks
    cases entry with
    | none => simp [looksLikeEntry] at looks
    | some stored =>
      obtain ⟨j, hj, found⟩ := unshadowed i stored hi (of_decide_eq_true looks)
      exact ⟨j, some name, hj, found, decide_eq_true rfl⟩

theorem unlike_iff {entries : Entries} {name : CString} :
    (∀ entry ∈ entries, ¬ looksLikeEntry name entry) ↔ Unlike entries name := by
  constructor
  · intro none stored member looks
    exact none _ member (decide_eq_true looks)
  · intro unlike entry member looks
    cases entry with
    | none => simp [looksLikeEntry] at looks
    | some stored => exact unlike stored member (of_decide_eq_true looks)

/-- A search over a table and what follows it returns the first exact match in
the table exactly when no look-alike comes before it. -/
theorem searchEntry_eq_exactIndex_iff (name : CString) (entries rest : Entries)
    (low : (entries ++ rest).length ≤ 128) :
    searchEntry name 0 (entries ++ rest) = exactIndex entries name ↔
      Unshadowed entries name ∧ (some name ∉ entries → Unlike rest name) := by
  have finer : ∀ entry : Option CString, decide (entry = some name) →
      looksLikeEntry name entry := by
    intro entry same
    rw [of_decide_eq_true same]
    exact decide_eq_true (looksLike_refl name.chars)
  have absent : (∀ entry ∈ entries, ¬ decide (entry = some name)) ↔ some name ∉ entries := by
    simp only [decide_eq_true_eq]
    exact ⟨fun none member => none _ member rfl, fun none entry member same =>
      none (same ▸ member)⟩
  have index := searchEntry_eq name 0 (entries ++ rest) (by simpa using low)
  rw [index, exactIndex, indexOr_inj]
  simp only [Nat.zero_add, Option.map_id']
  rw [FirstMatch.findIdx?_append_eq_iff finer, unshadowed_iff, absent, unlike_iff]

/-- For every table reachable by create calls and every name, the account
search returns the first entry with exactly this name if and only if no
look-alike comes before it, and the group search if and only if in addition no
look-alike of an absent name is read behind the table. -/
theorem search_by_name_iff (calls : List CreateCall) (t : Tables)
    (reached : Runs.run createStep emptyTables calls = .ok t)
    (beyond : Nat → Option CString) (name : CString) :
    (keGetAccountByName t name = exactIndex t.users name ↔ Unshadowed t.users name) ∧
    (keGetUserGroupByName t beyond name = exactIndex t.groups name ↔
      Unshadowed t.groups name ∧ (some name ∉ t.groups →
        Unlike ((List.range (maxUsers - maxGroups)).map beyond) name)) := by
  have holds := run_holds emptyTables_holds reached
  have users : t.users.length = maxUsers := by
    rw [holds.userTable, filled_length holds.userRoom]
  have groups : t.groups.length = maxGroups := by
    rw [holds.groupTable, filled_length holds.groupRoom]
  constructor
  · have search := searchEntry_eq_exactIndex_iff name t.users [] (by simp [users, maxUsers])
    simpa [keGetAccountByName, Unlike] using search
  · exact searchEntry_eq_exactIndex_iff name t.groups _ (by
      simp [groups, maxUsers, maxGroups])

def onlyAD : Tables := ⟨filled maxUsers [nameAD], filled maxGroups []⟩

theorem onlyAD_reached : Runs.run createStep emptyTables [.account true nameAD] = .ok onlyAD := rfl

theorem search_by_name_onlyAD :
    (keGetAccountByName onlyAD nameAD = exactIndex onlyAD.users nameAD ↔
      Unshadowed onlyAD.users nameAD) ∧
    (keGetUserGroupByName onlyAD (fun _ => none) nameAD = exactIndex onlyAD.groups nameAD ↔
      Unshadowed onlyAD.groups nameAD ∧ (some nameAD ∉ onlyAD.groups →
        Unlike ((List.range (maxUsers - maxGroups)).map fun _ => none) nameAD)) :=
  search_by_name_iff [.account true nameAD] onlyAD onlyAD_reached _ _

/-- After `KeCreateAccount("AD")`, "BC" is found as account 0. -/
theorem search_finds_look_alike :
    Runs.run createStep emptyTables [.account true nameAD] = .ok onlyAD ∧
      keGetAccountByName onlyAD nameBC = 0 ∧ exactIndex onlyAD.users nameBC = -1 :=
  ⟨rfl, rfl, by decide⟩

/-- `searchEntry` with the indexes of the entries it looks at. -/
def searchAccesses (name : CString) : Nat → Entries → Recorded Nat Int
  | _, [] => pure (-1)
  | i, none :: rest => do
    Recorded.emit i
    searchAccesses name (i + 1) rest
  | i, some stored :: rest => do
    Recorded.emit i
    if keCompareString stored.chars name.chars = 0 then pure (signed8 i)
    else searchAccesses name (i + 1) rest

/-- `KeGetUserGroupByName` with the indexes into `g_group_list` that it uses. -/
def groupAccesses (t : Tables) (beyond : Nat → Option CString) (name : CString) :
    Recorded Nat Int :=
  searchAccesses name 0 (t.groups ++ (List.range (maxUsers - maxGroups)).map beyond)

/-- `KeGetUserGroupById` with the address of `g_group_list`, whose entries have 12 bytes. -/
def keGetUserGroupById (groupList : Nat) (gid : Int) : Int := groupList + 12 * gid

/-- Only entries of the group table are looked at, and a result that is not
negative is one for which `KeGetUserGroupById` returns an entry of the table. -/
structure StaysInTable (t : Tables) (beyond : Nat → Option CString) (name : CString) : Prop where
  accesses : Recorded.All (· < maxGroups) (groupAccesses t beyond name)
  valid : ∀ gid, (groupAccesses t beyond name).result = .ok gid → 0 ≤ gid →
    ∀ groupList : Nat, ∃ i < maxGroups, keGetUserGroupById groupList gid = groupList + 12 * i

section
variable {name : CString} {start : Nat} {entry : Option CString} {entries rest : Entries}

theorem searchAccesses_cons (name : CString) (start : Nat) (entry : Option CString)
    (rest : Entries) :
    searchAccesses name start (entry :: rest) = (do
      Recorded.emit start
      if looksLikeEntry name entry then pure (signed8 start)
      else searchAccesses name (start + 1) rest) := by
  cases entry with
  | none => rfl
  | some stored =>
    simp only [searchAccesses, looksLikeEntry, decide_eq_true_eq,
      keCompareString_eq_zero_iff stored.noNul name.noNul]

theorem searchAccesses_result (name : CString) (start : Nat) (entries : Entries) :
    (searchAccesses name start entries).result = .ok (searchEntry name start entries) := by
  induction entries generalizing start with
  | nil => rfl
  | cons entry rest ih =>
    cases entry with
    | none => rw [searchAccesses, Recorded.bind_result, Recorded.emit_result, Outcome.ok_bind, ih,
        searchEntry]
    | some stored =>
      rw [searchAccesses, Recorded.bind_result, Recorded.emit_result, Outcome.ok_bind, searchEntry]
      split
      · rfl
      · exact ih (start + 1)

/-- When the name is found among some entries, no entry behind them is looked at. -/
theorem searchAccesses_below (found : ∃ entry ∈ entries, looksLikeEntry name entry) :
    Recorded.All (· < start + entries.length) (searchAccesses name start (entries ++ rest)) := by
  induction entries generalizing start with
  | nil =>
    obtain ⟨entry, member, _⟩ := found
    exact absurd member List.not_mem_nil
  | cons first later ih =>
    rw [List.cons_append, searchAccesses_cons, List.length_cons]
    refine Recorded.all_bind.mpr ⟨(Recorded.all_emit _).mpr (by omega), fun _ _ => ?_⟩
    by_cases looks : looksLikeEntry name first
    · rw [if_pos looks]
      exact Recorded.all_pure _
    · rw [if_neg looks]
      obtain ⟨entry, member, alike⟩ := found
      have among : entry ∈ later := by
        rcases List.mem_cons.mp member with rfl | inside
        · exact absurd alike looks
        · exact inside
      have below := @ih (start + 1) ⟨entry, among, alike⟩
      have bound : start + 1 + later.length = start + (later.length + 1) := by omega
      rwa [bound] at below

/-- When it is not, the entry behind them is looked at. -/
theorem searchAccesses_behind (none0 : ∀ entry ∈ entries, ¬ looksLikeEntry name entry)
    (behind : Option CString) :
    start + entries.length ∈ (searchAccesses name start (entries ++ behind :: rest)).events := by
  induction entries generalizing start with
  | nil =>
    rw [List.nil_append, searchAccesses_cons]
    exact List.mem_append_left _ (List.mem_singleton.mpr rfl)
  | cons first later ih =>
    have further := @ih (start + 1) fun entry member =>
      none0 entry (List.mem_cons_of_mem _ member)
    have place : start + 1 + later.length = start + (first :: later).length := by
      rw [List.length_cons]
      omega
    rw [List.cons_append, searchAccesses_cons, if_neg (none0 first List.mem_cons_self)]
    rw [place] at further
    exact List.mem_append_right _ further

theorem searchEntry_among (found : ∃ entry ∈ entries, looksLikeEntry name entry)
    (low : (entries ++ rest).length ≤ 128) :
    ∃ i < entries.length, searchEntry name 0 (entries ++ rest) = i := by
  have some0 : ∃ i, entries.findIdx? (looksLikeEntry name) = some i := by
    rw [← Option.isSome_iff_exists, List.findIdx?_isSome, List.any_eq_true]
    exact found
  obtain ⟨i, first⟩ := some0
  refine ⟨i, (List.findIdx?_eq_some_iff_getElem.mp first).1, ?_⟩
  rw [searchEntry_eq name 0 (entries ++ rest) (by omega), List.findIdx?_append, first]
  simp [indexOr]

end

theorem looksLikeEntry_iff {entries : Entries} {name : CString} :
    (∃ entry ∈ entries, looksLikeEntry name entry) ↔
      ∃ stored, some stored ∈ entries ∧ LooksLike stored.chars name.chars := by
  constructor
  · rintro ⟨entry, member, alike⟩
    cases entry with
    | none => cases alike
    | some stored => exact ⟨stored, member, of_decide_eq_true alike⟩
  · rintro ⟨stored, member, alike⟩
    exact ⟨some stored, member, decide_eq_true alike⟩

section
variable {t : Tables} {beyond : Nat → Option CString} {name : CString}
  (size : t.groups.length = maxGroups)
include size

theorem staysInTable_of_found (found : ∃ entry ∈ t.groups, looksLikeEntry name entry) :
    StaysInTable t beyond name := by
  have low : (t.groups ++ (List.range (maxUsers - maxGroups)).map beyond).length ≤ 128 := by
    rw [List.length_append, size, List.length_map, List.length_range]
    decide
  have below := @searchAccesses_below name 0 t.groups
    ((List.range (maxUsers - maxGroups)).map beyond) found
  rw [Nat.zero_add, size] at below
  refine ⟨below, fun gid returned _ groupList => ?_⟩
  obtain ⟨i, inside, searched⟩ := searchEntry_among found low
  rw [groupAccesses, searchAccesses_result, searched] at returned
  cases returned
  exact ⟨i, size ▸ inside, rfl⟩

theorem not_staysInTable (none0 : ∀ entry ∈ t.groups, ¬ looksLikeEntry name entry) :
    ¬ StaysInTable t beyond name := by
  intro stays
  have front : (List.range (maxUsers - maxGroups)).map beyond =
      beyond 0 :: ((List.range (maxUsers - maxGroups)).map beyond).tail := rfl
  have behind := @searchAccesses_behind name 0 t.groups
    ((List.range (maxUsers - maxGroups)).map beyond).tail none0 (beyond 0)
  rw [← front, Nat.zero_add, size] at behind
  exact absurd (stays.accesses maxGroups behind) (Nat.lt_irrefl _)

end

/-- In a table reachable by create calls the search stays in the table exactly
when some group has the name or one that looks like it. -/
theorem groupAccesses_stay_iff (calls : List CreateCall) (t : Tables)
    (reached : Runs.run createStep emptyTables calls = .ok t)
    (beyond : Nat → Option CString) (name : CString) :
    StaysInTable t beyond name ↔
      ∃ stored, some stored ∈ t.groups ∧ LooksLike stored.chars name.chars := by
  have holds := run_holds emptyTables_holds reached
  have size : t.groups.length = maxGroups := by
    rw [holds.groupTable, filled_length holds.groupRoom]
  rw [← looksLikeEntry_iff]
  constructor
  · intro stays
    by_contra absent
    exact not_staysInTable size (fun entry member alike => absent ⟨entry, member, alike⟩) stays
  · exact staysInTable_of_found size

def onlyGroupAD : Tables := ⟨filled maxUsers [], filled maxGroups [nameAD]⟩

theorem present_group_stays : StaysInTable onlyGroupAD (fun _ => none) nameAD :=
  (groupAccesses_stay_iff [.group true nameAD] onlyGroupAD rfl (fun _ => none) nameAD).mpr
    ⟨nameAD, List.mem_cons_self, looksLike_refl _⟩

/-- In the table without groups the search for a name looks behind it. -/
theorem absent_group_leaves : Runs.run createStep emptyTables [] = .ok emptyTables ∧
    ¬ StaysInTable emptyTables (fun _ => none) nameAD :=
  ⟨rfl, not_staysInTable rfl (by decide)⟩

end User
