import UDos.Kernel.DevDisk

/-!
# Finding a dataset on a disk

`ModGetZdsfsFile` of `zdsfs.c` on a volume given by its records, with both
reads done on the device of the volume. The scan compares as many characters as
the wanted name has, by their sum, and takes a short volume label for success.
-/

namespace Zdsfs

open KernelMemory
open DevDisk (FsFdscb)

/-- The key and data of each record that the volume has. -/
abbrev Volume := FsFdscb → Option (List UInt8)

/-- A read of n bytes: what is returned, and the bytes transferred. -/
def readDisk (volume : Volume) (fdscb : FsFdscb) (n : Nat) : Int × List UInt8 :=
  match volume fdscb with
  | none => (-1, [])
  | some record => ((record.take n).length, record.take n)

/-- A halfword of a record. -/
def half (record : List UInt8) (i : Nat) : UInt16 :=
  UInt16.ofNat ((record.getD i 0).toNat * 256 + (record.getD (i + 1) 0).toNat)

def sizeofDscb1 : Nat := 115

def dsName (dscb1 : List UInt8) : List UInt8 := dscb1.take 44

def formatId (dscb1 : List UInt8) : UInt8 := dscb1.getD 44 0

/-- The start cylinder and head, with record 1. -/
def start (dscb1 : List UInt8) : FsFdscb := ⟨half dscb1 107, half dscb1 109, 1⟩

/-- `'1'` -/
def formatOne : UInt8 := 0xF1

/-- `' '` -/
def blank : UInt8 := 0x40

/-- The comparison of the name, which goes on into `format_id`, now blank, when
the name is longer than the field. -/
def alike (name : CString) (dscb1 : List UInt8) : Bool :=
  keCompareMemory ((dscb1.set 44 blank).take name.chars.length) name.chars == 0

def nextRecord (fdscb : FsFdscb) : FsFdscb := { fdscb with record := fdscb.record + 1 }

/-- Where the scan goes on after this many errors in a row. -/
def afterError (fdscb : FsFdscb) : Nat → FsFdscb
  | 1 => nextRecord fdscb
  | 2 => { fdscb with record := 1, head := fdscb.head + 1 }
  | 3 => { fdscb with record := 1, head := 0, cyl := fdscb.cyl + 1 }
  | _ => fdscb

/-- What a record is to the scan. -/
inductive Kind where
  | dataset
  | tableEnd
  | other

def kind (dscb1 : List UInt8) : Kind :=
  if sizeofDscb1 ≤ dscb1.length then
    if formatId dscb1 = formatOne then .dataset
    else if dscb1.getD 0 0 = 0 then .tableEnd
    else .other
  else .other

/-- The loop: the last result of a read and the dataset's place, or nothing at
the end of the volume's table of contents. -/
def searchLoop (volume : Volume) (name : CString) :
    Nat → Nat → FsFdscb → Int → FsFdscb → Outcome (Option (Int × FsFdscb))
  | 0, _, _, _, _ => .diverge
  | fuel + 1, errcnt, fdscb, r, outFdscb =>
    if errcnt < 4 then
      let (r, dscb1) := readDisk volume fdscb sizeofDscb1
      if r < 0 then
        searchLoop volume name fuel (errcnt + 1) (afterError fdscb (errcnt + 1)) r outFdscb
      else match kind dscb1 with
        | .dataset =>
          if alike name dscb1 then .ok (some (r, start dscb1))
          else searchLoop volume name fuel 0 (nextRecord fdscb) r outFdscb
        | .tableEnd => .ok none
        | .other => searchLoop volume name fuel 0 (nextRecord fdscb) r outFdscb
    else .ok (some (r, outFdscb))

/-- The place of the volume label. -/
def labelPlace : FsFdscb := ⟨0, 0, 3⟩

/-- The first record of the table of contents, as the volume label says. -/
def tableStart (label : List UInt8) : FsFdscb := ⟨half label 15, half label 17, label.getD 19 0⟩

/-- `ModGetZdsfsFile` with the answer of `MmAllocate`: the result, and `*out_fdscb`. -/
def modGetZdsfsFile (fuel tmpbuf : Nat) (volume : Volume) (outFdscb : FsFdscb) (name : CString) :
    Outcome (Int × FsFdscb) := do
  Outcome.check (tmpbuf ≠ 0) "Out of memory"
  let (r, buf) := readDisk volume labelPlace 20
  if 20 ≤ r then
    match ← searchLoop volume name fuel 0 (tableStart buf) r outFdscb with
    | none => .ok (-1, outFdscb)
    | some (r, outFdscb) => .ok (if r ≤ 0 then -1 else 0, outFdscb)
  else .ok (if r ≤ 0 then -1 else 0, outFdscb)

/-- The format-1 DSCBs that the scan meets, in this order, whatever name it looks for. -/
def scanned (volume : Volume) : Nat → Nat → FsFdscb → List (List UInt8)
  | 0, _, _ => []
  | fuel + 1, errcnt, fdscb =>
    if errcnt < 4 then
      match volume fdscb with
      | none => scanned volume fuel (errcnt + 1) (afterError fdscb (errcnt + 1))
      | some record =>
        match kind (record.take sizeofDscb1) with
        | .dataset => record.take sizeofDscb1 :: scanned volume fuel 0 (nextRecord fdscb)
        | .tableEnd => []
        | .other => scanned volume fuel 0 (nextRecord fdscb)
    else []

/-- Those met from the start of the table of contents on, if there is one. -/
def datasets (volume : Volume) (fuel : Nat) : List (List UInt8) :=
  match volume labelPlace with
  | none => []
  | some label => if 20 ≤ label.length then scanned volume fuel 0 (tableStart (label.take 20)) else []

/-- The volume has a format-1 DSCB with exactly this name, padded with blanks,
of a dataset that starts at this place. -/
def Named (volume : Volume) (name : CString) (place : FsFdscb) : Prop :=
  ∃ position record, volume position = some record ∧ sizeofDscb1 ≤ record.length ∧
    formatId record = formatOne ∧
    dsName record = name.chars ++ List.replicate (44 - name.chars.length) blank ∧
    place = start record

/-- A lookup that returns 0 has found a dataset with the name. -/
def FindsNamed (volume : Volume) (name : CString) : Prop :=
  ∀ fuel tmpbuf outFdscb place,
    modGetZdsfsFile fuel tmpbuf volume outFdscb name = .ok (0, place) → Named volume name place

/-- The volume label is not cut short. -/
def LabelWhole (volume : Volume) : Prop :=
  ∀ label, volume labelPlace = some label → label ≠ [] → 20 ≤ label.length

section
variable {volume : Volume} {name : CString}

/-- A DSCB is taken for the wanted one when its characters have the same sum
over the length of the wanted name. -/
theorem alike_iff {dscb1 : List UInt8} (length : dscb1.length = sizeofDscb1)
    (short : name.chars.length ≤ 44) :
    alike name dscb1 = true ↔
      u32 (charSum (dscb1.take name.chars.length)) = u32 (charSum name.chars) := by
  have front : (dscb1.set 44 blank).take name.chars.length = dscb1.take name.chars.length :=
    List.take_set_of_le short
  have same : (dscb1.take name.chars.length).length = name.chars.length := by
    rw [List.length_take, length, sizeofDscb1]
    omega
  rw [alike, front, beq_iff_eq, keCompareMemory_eq_zero_iff same]

theorem dataset_length {dscb1 : List UInt8} (isDataset : kind dscb1 = .dataset) :
    sizeofDscb1 ≤ dscb1.length ∧ formatId dscb1 = formatOne := by
  unfold kind at isDataset
  by_cases whole : sizeofDscb1 ≤ dscb1.length
  · rw [if_pos whole] at isDataset
    by_cases format : formatId dscb1 = formatOne
    · exact ⟨whole, format⟩
    · rw [if_neg format] at isDataset
      by_cases last : dscb1.getD 0 0 = 0
      · rw [if_pos last] at isDataset
        exact nomatch isDataset
      · rw [if_neg last] at isDataset
        exact nomatch isDataset
  · rw [if_neg whole] at isDataset
    exact nomatch isDataset

/-- The search ends at the first DSCB that is alike, or without a dataset. -/
theorem searchLoop_finds (fuel errcnt : Nat) (fdscb : FsFdscb) (r : Int) (outFdscb : FsFdscb)
    (failed : 4 ≤ errcnt → r < 0) :
    (∃ dscb1, (scanned volume fuel errcnt fdscb).find? (alike name) = some dscb1 ∧
        searchLoop volume name fuel errcnt fdscb r outFdscb = .ok (some (115, start dscb1))) ∨
      (scanned volume fuel errcnt fdscb).find? (alike name) = none ∧
        ∀ x, searchLoop volume name fuel errcnt fdscb r outFdscb = .ok (some x) → x.1 < 0 := by
  induction fuel generalizing errcnt fdscb r with
  | zero => exact Or.inr ⟨rfl, fun x ran => (nomatch ran)⟩
  | succ fuel ih =>
    rw [scanned, searchLoop]
    by_cases trying : errcnt < 4
    · rw [if_pos trying, if_pos trying]
      cases read : volume fdscb with
      | none =>
        simp only [readDisk, read]
        exact ih (errcnt + 1) (afterError fdscb (errcnt + 1)) (-1) fun _ => by decide
      | some record =>
        have next := ih 0 (nextRecord fdscb) ((record.take sizeofDscb1).length : Int)
          fun many => absurd many (by decide)
        have nonneg : ¬ ((record.take sizeofDscb1).length : Int) < 0 := by omega
        simp only [readDisk, read, if_neg nonneg]
        cases which : kind (record.take sizeofDscb1) with
        | dataset =>
          obtain ⟨whole, _⟩ := dataset_length which
          have length : (record.take sizeofDscb1).length = 115 :=
            Nat.le_antisymm (List.length_take_le _ _) whole
          by_cases found : alike name (record.take sizeofDscb1) = true
          · refine Or.inl ⟨record.take sizeofDscb1, List.find?_cons_of_pos found, ?_⟩
            simp only [if_pos found, length]
            rfl
          · simp only [if_neg found]
            rw [List.find?_cons_of_neg found]
            exact next
        | tableEnd => exact Or.inr ⟨rfl, fun x ran => (nomatch ran)⟩
        | other => exact next
    · rw [if_neg trying, if_neg trying]
      refine Or.inr ⟨rfl, fun x ran => ?_⟩
      cases ran
      exact failed (Nat.not_lt.mp trying)

section
variable {label : List UInt8} {fuel tmpbuf : Nat} {outFdscb place : FsFdscb}

theorem lookup_short_label (allocated : tmpbuf ≠ 0) (present : volume labelPlace = some label)
    (some : label ≠ []) (short : label.length < 20) :
    modGetZdsfsFile fuel tmpbuf volume outFdscb name = .ok (0, outFdscb) := by
  have whole : label.take 20 = label := List.take_of_length_le (Nat.le_of_lt short)
  have positive := List.length_pos_iff.mpr some
  have notLong : ¬ (20 : Int) ≤ (label.length : Int) := by omega
  have success : ¬ (label.length : Int) ≤ 0 := by omega
  rw [modGetZdsfsFile, Outcome.check_of allocated, Outcome.ok_bind]
  simp only [readDisk, present, whole, if_neg notLong, if_neg success]

theorem lookup_dataset (allocated : tmpbuf ≠ 0) {dscb1 : List UInt8}
    (first : (datasets volume fuel).find? (alike name) = some dscb1) :
    modGetZdsfsFile fuel tmpbuf volume outFdscb name = .ok (0, start dscb1) := by
  rw [datasets] at first
  cases present : volume labelPlace with
  | none =>
    rw [present] at first
    exact nomatch first
  | some label =>
    rw [present] at first
    by_cases long : 20 ≤ label.length
    · simp only [if_pos long] at first
      have length : (label.take 20).length = 20 := List.length_take_of_le long
      have never : (4 : Nat) ≤ 0 → ((label.take 20).length : Int) < 0 := by omega
      rcases @searchLoop_finds volume name fuel 0 (tableStart (label.take 20))
        ((label.take 20).length : Int) outFdscb never with ⟨d, same, ran⟩ | ⟨absent, _⟩
      · obtain rfl := Option.some.inj (same.symm.trans first)
        have enough : (20 : Int) ≤ ((label.take 20).length : Int) := by omega
        rw [modGetZdsfsFile, Outcome.check_of allocated, Outcome.ok_bind]
        simp only [readDisk, present, if_pos enough, ran]
        rfl
      · rw [absent] at first
        exact nomatch first
    · simp only [if_neg long] at first
      exact nomatch first

/-- A lookup that returns 0 has met a DSCB that is alike, or a short label. -/
theorem lookup_success (ran : modGetZdsfsFile fuel tmpbuf volume outFdscb name = .ok (0, place)) :
    (∃ dscb1, (datasets volume fuel).find? (alike name) = some dscb1 ∧ place = start dscb1) ∨
      ∃ label, volume labelPlace = some label ∧ label ≠ [] ∧ label.length < 20 := by
  rw [modGetZdsfsFile] at ran
  obtain ⟨_, _, ran⟩ := Outcome.bind_eq_ok.mp ran
  rw [datasets]
  cases present : volume labelPlace with
  | none =>
    simp only [readDisk, present] at ran
    cases ran
  | some label =>
    simp only [readDisk, present] at ran
    by_cases long : 20 ≤ label.length
    · have length : (label.take 20).length = 20 := List.length_take_of_le long
      have enough : (20 : Int) ≤ ((label.take 20).length : Int) := by omega
      have never : (4 : Nat) ≤ 0 → ((label.take 20).length : Int) < 0 := by omega
      rw [if_pos enough] at ran
      simp only [if_pos long]
      rcases @searchLoop_finds volume name fuel 0 (tableStart (label.take 20))
        ((label.take 20).length : Int) outFdscb never with ⟨dscb1, first, found⟩ | ⟨_, failed⟩
      · rw [found] at ran
        cases ran
        exact Or.inl ⟨dscb1, first, rfl⟩
      · obtain ⟨result, searched, returned⟩ := Outcome.bind_eq_ok.mp ran
        cases result with
        | none => cases returned
        | some x =>
          have negative := failed x searched
          have error : x.1 ≤ 0 := Int.le_of_lt negative
          simp only [if_pos error] at returned
          cases returned
    · have short : ¬ (20 : Int) ≤ ((label.take 20).length : Int) := by
        rw [List.length_take]
        omega
      refine Or.inr ⟨label, rfl, ?_, Nat.not_le.mp long⟩
      rintro rfl
      rw [if_neg short] at ran
      cases ran

end

/-- What the scan meets is on the volume. -/
theorem mem_scanned {fuel errcnt : Nat} {fdscb : FsFdscb} {dscb1 : List UInt8}
    (met : dscb1 ∈ scanned volume fuel errcnt fdscb) :
    ∃ position record, volume position = some record ∧ dscb1 = record.take sizeofDscb1 ∧
      kind dscb1 = .dataset := by
  induction fuel generalizing errcnt fdscb with
  | zero => exact nomatch met
  | succ fuel ih =>
    rw [scanned] at met
    by_cases trying : errcnt < 4
    · rw [if_pos trying] at met
      cases read : volume fdscb with
      | none =>
        simp only [read] at met
        exact ih met
      | some record =>
        simp only [read] at met
        cases which : kind (record.take sizeofDscb1) with
        | dataset =>
          simp only [which] at met
          rcases List.mem_cons.mp met with rfl | later
          · exact ⟨fdscb, record, read, rfl, which⟩
          · exact ih later
        | tableEnd =>
          simp only [which] at met
          exact nomatch met
        | other =>
          simp only [which] at met
          exact ih met
    · rw [if_neg trying] at met
      exact nomatch met

theorem mem_datasets {fuel : Nat} {dscb1 : List UInt8} (met : dscb1 ∈ datasets volume fuel) :
    ∃ position record, volume position = some record ∧ dscb1 = record.take sizeofDscb1 ∧
      kind dscb1 = .dataset := by
  rw [datasets] at met
  cases present : volume labelPlace with
  | none =>
    rw [present] at met
    exact nomatch met
  | some label =>
    simp only [present] at met
    by_cases long : 20 ≤ label.length
    · rw [if_pos long] at met
      exact mem_scanned met
    · rw [if_neg long] at met
      exact nomatch met

theorem getD_take (record : List UInt8) {i n : Nat} (inside : i < n) :
    (record.take n).getD i 0 = record.getD i 0 := by
  rw [List.getD_eq_getElem?_getD, List.getD_eq_getElem?_getD, List.getElem?_take_of_lt inside]

theorem start_take (record : List UInt8) : start (record.take sizeofDscb1) = start record := by
  simp only [start, half, sizeofDscb1, getD_take record (show 107 < 115 by decide),
    getD_take record (show 107 + 1 < 115 by decide), getD_take record (show 109 < 115 by decide),
    getD_take record (show 109 + 1 < 115 by decide)]

/-- Where no other dataset of the volume has characters of the same sum, a
lookup that returns 0 has found the right one. -/
theorem finds_named_of_distinct (short : name.chars.length ≤ 44) (whole : LabelWhole volume)
    (distinct : ∀ position record, volume position = some record →
      kind (record.take sizeofDscb1) = .dataset →
        u32 (charSum (record.take name.chars.length)) = u32 (charSum name.chars) →
          dsName record = name.chars ++ List.replicate (44 - name.chars.length) blank) :
    FindsNamed volume name := by
  intro fuel tmpbuf outFdscb place ran
  rcases lookup_success ran with ⟨dscb1, first, rfl⟩ | ⟨label, present, some, cut⟩
  · obtain ⟨position, record, read, rfl, isDataset⟩ := mem_datasets (List.mem_of_find?_eq_some first)
    obtain ⟨long, format⟩ := dataset_length isDataset
    have length := Nat.le_antisymm (List.length_take_le sizeofDscb1 record) long
    have sums := (alike_iff length short).mp (List.find?_some first)
    rw [List.take_take, Nat.min_eq_left (Nat.le_trans short (by decide))] at sums
    refine ⟨position, record, read, ?_, ?_, ?_, start_take record⟩
    · rw [List.length_take] at long
      exact Nat.le_trans long (Nat.min_le_right _ _)
    · rw [← format, formatId, formatId, getD_take record (by decide)]
    · exact distinct position record read isDataset sums
  · exact absurd cut (Nat.not_lt.mpr (whole label present some))

end

/-- A lookup that returns 0 has found a dataset with the name exactly when the
volume label is not cut short and the first DSCB that is alike, if the scan
meets one, has the place of such a dataset. It is so where no other dataset of
the volume has characters of the same sum. -/
theorem finds_named_iff (volume : Volume) (name : CString) :
    (FindsNamed volume name ↔ LabelWhole volume ∧
      ∀ fuel dscb1, (datasets volume fuel).find? (alike name) = some dscb1 →
        Named volume name (start dscb1)) ∧
      (name.chars.length ≤ 44 → LabelWhole volume →
        (∀ position record, volume position = some record →
          kind (record.take sizeofDscb1) = .dataset →
            u32 (charSum (record.take name.chars.length)) = u32 (charSum name.chars) →
              dsName record = name.chars ++ List.replicate (44 - name.chars.length) blank) →
        FindsNamed volume name) := by
  refine ⟨?_, finds_named_of_distinct⟩
  constructor
  · intro finds
    constructor
    · intro label present some
      by_contra short
      have success := @lookup_short_label volume name label 0 1 ⟨0, 0, 0⟩ (by decide) present some
        (Nat.not_le.mp short)
      obtain ⟨_, record, _, _, _, _, place⟩ := finds _ _ _ _ success
      have same : (0 : UInt8) = 1 := congrArg FsFdscb.record place
      exact absurd same (by decide)
    · intro fuel dscb1 first
      exact finds fuel 1 ⟨0, 0, 0⟩ _ (lookup_dataset (by decide) first)
  · rintro ⟨whole, named⟩ fuel tmpbuf outFdscb place ran
    rcases lookup_success ran with ⟨dscb1, first, rfl⟩ | ⟨label, present, some, short⟩
    · exact named fuel dscb1 first
    · exact absurd short (Nat.not_lt.mpr (whole label present some))

/-- The DSCB of a dataset AB at cylinder 5. -/
def dscbOfAB : List UInt8 :=
  [0xC1, 0xC2] ++ List.replicate 42 blank ++ [formatOne] ++ List.replicate 62 0 ++ [0, 5, 0, 0] ++
    List.replicate 4 0

/-- A volume with a label and this DSCB. -/
def volumeOfAB : Volume := fun place =>
  if place.cyl = 0 ∧ place.head = 0 ∧ place.record = 3 then
    some (List.replicate 15 0 ++ [0, 0, 0, 1, 1])
  else if place.cyl = 0 ∧ place.head = 1 ∧ place.record = 1 then some dscbOfAB
  else none

theorem nameA_noNul : (0 : UInt8) ∉ [0xC1] := by decide

def nameA : CString := ⟨[0xC1], nameA_noNul⟩

/-- A lookup of A on this volume finds AB. -/
theorem prefix_found : modGetZdsfsFile 1 1 volumeOfAB ⟨0, 0, 0⟩ nameA = .ok (0, ⟨5, 0, 1⟩) ∧
    ¬ FindsNamed volumeOfAB nameA := by
  have first : (datasets volumeOfAB 1).find? (alike nameA) = some dscbOfAB := by decide
  have found : modGetZdsfsFile 1 1 volumeOfAB ⟨0, 0, 0⟩ nameA = .ok (0, ⟨5, 0, 1⟩) :=
    lookup_dataset (by decide) first
  refine ⟨found, fun finds => ?_⟩
  obtain ⟨position, record, read, long, _, named, _⟩ := finds _ _ _ _ found
  rw [volumeOfAB] at read
  split at read
  · cases read
    exact absurd long (by decide)
  · split at read
    · cases read
      exact absurd named (by decide)
    · exact nomatch read

end Zdsfs
