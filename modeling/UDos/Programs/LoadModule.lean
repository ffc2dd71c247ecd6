import UDos.Programs.Loadzero

/-!
# What is in a load module

A module as the list of bytes in its file: blocks, the records in them and the
fields in relocation records. `load` reads them in order, puts the program text
together in a list of its own and relocates it there. It checks what `fixPE`
does not check, and faults where `fixPE` reads or writes a place that it should
not: a length below zero, a field outside the text that is there, relocations
that go on behind their record.
-/

namespace Loadzero

open Storage

/-- A field of `ll` bytes at address `a`. -/
structure Field where
  ll : Nat
  a : Nat
deriving DecidableEq, Repr

/-- The word that is changed when the field is relocated. -/
def Field.zaploc (f : Field) : Nat := f.a - (if f.ll = 3 then 1 else 0)

/-- The word lies in the first n bytes. -/
def Field.Inside (f : Field) (n : Nat) : Prop := (f.ll = 3 → f.a ≠ 0) ∧ f.zaploc + 4 ≤ n

instance (f : Field) (n : Nat) : Decidable (f.Inside n) :=
  inferInstanceAs (Decidable ((f.ll = 3 → f.a ≠ 0) ∧ f.zaploc + 4 ≤ n))

/-- The number of bytes that the flags ask for, when it is supported. -/
def fieldLength (flags : UInt8) : Option Nat :=
  if flags &&& 0x02 ≠ 0 then none
  else
    let ll := ((flags &&& 0x0c) >>> 2).toNat + 1
    if ll ≠ 4 ∧ ll ≠ 3 then none else some ll

theorem fieldLength_eq_some {flags : UInt8} {ll : Nat} : fieldLength flags = some ll ↔
    flags &&& 0x02 = 0 ∧ ((flags &&& 0x0c) >>> 2).toNat + 1 = ll ∧ (ll = 4 ∨ ll = 3) := by
  unfold fieldLength
  by_cases negative : flags &&& 0x02 = 0
  · rw [if_neg (not_not.mpr negative)]
    by_cases unsupported : ((flags &&& 0x0c) >>> 2).toNat + 1 ≠ 4 ∧
        ((flags &&& 0x0c) >>> 2).toNat + 1 ≠ 3
    · simp only [if_pos unsupported, reduceCtorEq, false_iff]
      omega
    · simp only [if_neg unsupported, Option.some.injEq, negative, true_and]
      omega
  · simp [negative]

/-- The fields up to the first one that is not complete or not supported, and
whether there is none such. -/
def fields (rest : List UInt8) (cont : Bool) : List Field × Bool :=
  let item := rest.drop (skipRP 0 cont)
  if rest.length = 0 then ([], true)
  else if item.length < 4 then ([], false)
  else
    let flags := ofBytes item 0
    match fieldLength flags with
    | none => ([], false)
    | some ll =>
      let later := fields (item.drop 4) (flags &&& 0x01 ≠ 0)
      (⟨ll, address (ofBytes item) 1⟩ :: later.1, later.2)
termination_by rest.length
decreasing_by
  simp only [List.length_drop] at *
  omega

/-- Relocate the fields one after the other. -/
def relocate (rlad : Int) (image : List UInt8) : List Field → Bool → Outcome (Option (List UInt8))
  | [], complete => .ok (if complete then some image else none)
  | f :: later, complete =>
    if f.ll = 3 ∧ rlad > 0xffffff then .ok none
    else if f.Inside image.length then
      relocate rlad (patchBytes image f.zaploc rlad) later complete
    else .fault

/-- No field of three bytes keeps the module from being relocated. -/
def Allowed (rlad : Int) (fs : List Field) : Prop := ∀ f ∈ fs, f.ll = 3 → rlad ≤ 0xffffff

instance (rlad : Int) (fs : List Field) : Decidable (Allowed rlad fs) :=
  inferInstanceAs (Decidable (∀ f ∈ fs, f.ll = 3 → rlad ≤ 0xffffff))

theorem allowed_cons {rlad : Int} {f : Field} {later : List Field} :
    Allowed rlad (f :: later) ↔ (f.ll = 3 → rlad ≤ 0xffffff) ∧ Allowed rlad later :=
  List.forall_mem_cons

theorem allowed_append {rlad : Int} {fs later : List Field} :
    Allowed rlad (fs ++ later) ↔ Allowed rlad fs ∧ Allowed rlad later :=
  List.forall_mem_append

theorem allowed_of_low {rlad : Int} (low : rlad ≤ 0xffffff) (fs : List Field) : Allowed rlad fs :=
  fun _ _ _ => low

/-- The fields of a relocation record, which start behind 16 bytes. -/
def recordFields (data : List UInt8) : List Field × Bool :=
  if data.length < 16 then ([], false) else fields (data.drop 16) false

/-- How the records of a block, or of all blocks, come to an end. -/
inductive Ending where
  | clean
  | corrupt
  | negative
deriving DecidableEq, Repr

/-- The records of a block from its first length on. -/
def records (rest : List UInt8) : List (List UInt8) × Ending :=
  let l := short (ofBytes rest) 0
  if (rest.length : Int) < 2 + l then ([], .corrupt)
  else if l = 0 then ([], .clean)
  else if l < 0 then ([], .negative)
  else
    let data := (rest.drop 2).take l.toNat
    let behind := rest.drop (2 + l.toNat)
    let later :=
      if behind.length = 0 then ([], .clean)
      else if behind.length < 12 then ([], .corrupt)
      else records (behind.drop 10)
    (data :: later.1, later.2)
termination_by rest.length
decreasing_by
  simp only [List.length_drop] at *
  omega

/-- The first record of a block, and what comes behind it. -/
theorem records_eq {rest : List UInt8} {l : Nat} (length : short (ofBytes rest) 0 = l)
    (some_bytes : 0 < l) (fits : 2 + l ≤ rest.length) {later : List (List UInt8) × Ending}
    (behind : (rest.length = 2 + l ∧ later = ([], .clean)) ∨
      (rest.length ≠ 2 + l ∧ rest.length < 2 + l + 12 ∧ later = ([], .corrupt)) ∨
      (2 + l + 12 ≤ rest.length ∧ later = records (rest.drop (2 + l + 10)))) :
    records rest = ((rest.drop 2).take l :: later.1, later.2) := by
  have same : (if (rest.drop (2 + l)).length = 0 then ([], .clean)
      else if (rest.drop (2 + l)).length < 12 then ([], .corrupt)
      else records ((rest.drop (2 + l)).drop 10)) = later := by
    rw [List.length_drop, List.drop_drop]
    obtain ⟨whole, rfl⟩ | ⟨more, short, rfl⟩ | ⟨room, rfl⟩ := behind
    · exact if_pos (by omega)
    · rw [if_neg (by omega)]
      exact if_pos (by omega)
    · rw [if_neg (by omega), if_neg (by omega)]
  rw [records]
  simp only [length, Int.toNat_natCast]
  rw [if_neg (by omega), if_neg (by omega), if_neg (by omega), same]

/-- The records of the blocks behind the directory. -/
def blocks (rest : List UInt8) : List (List UInt8) × Ending :=
  let l := short (ofBytes rest) 0
  if rest.length < 2 ∨ (rest.length : Int) < l ∨ l < 16 then ([], .corrupt)
  else
    match records ((rest.take l.toNat).drop 14) with
    | (now, .clean) =>
      let later := blocks (rest.drop l.toNat)
      (now ++ later.1, later.2)
    | (now, ending) => (now, ending)
termination_by rest.length
decreasing_by
  rw [List.length_drop]
  omega

theorem blocks_short {rest : List UInt8} (short : rest.length < 2) : blocks rest = ([], .corrupt) := by
  rw [blocks]
  exact if_pos (Or.inl short)

/-- What is known of a module after some of its records. -/
inductive Progress where
  | going (image : List UInt8) (lastt : Int)
  | loaded (image : List UInt8)
  | refused

/-- A record with relocations, and what is known when they have been made. -/
def acceptFields (rlad : Int) (image data : List UInt8) (next : List UInt8 → Progress) :
    Outcome Progress := do
  match ← relocate rlad image (recordFields data).1 (recordFields data).2 with
  | none => .ok .refused
  | some image => .ok (next image)

/-- One record, when the type remembered from the record before is `lastt`. -/
def accept (rlad : Int) (image : List UInt8) (lastt : Int) (data : List UInt8) :
    Outcome Progress :=
  let t : Int := (data.headD 0).toNat
  if lastt = 1 ∨ lastt = 3 ∨ lastt = 0x0d then
    if lastt = 0x0d then .ok (.loaded (image ++ data)) else .ok (.going (image ++ data) (-1))
  else if t = 2 then acceptFields rlad image data (.going · 2)
  else if t = 3 then
    let len := short (ofBytes data) 6 + 16
    if data.length < 8 ∨ (data.length : Int) < len then .fault
    else acceptFields rlad image (data.take len.toNat) (.going · 3)
  else if t = 0x0e then acceptFields rlad image data .loaded
  else .ok (.going image t)

def acceptAll (rlad : Int) (image : List UInt8) (lastt : Int) :
    List (List UInt8) → Ending → Outcome Progress
  | [], .clean => .ok (.going image lastt)
  | [], .corrupt => .ok .refused
  | [], .negative => .fault
  | data :: later, ending => do
    match ← accept rlad image lastt data with
    | .going image lastt => acceptAll rlad image lastt later ending
    | .loaded image => .ok (.loaded image)
    | .refused => .ok .refused

theorem acceptAll_append (rlad : Int) (image : List UInt8) (lastt : Int)
    (now later : List (List UInt8)) (ending : Ending) :
    acceptAll rlad image lastt (now ++ later) ending =
      (acceptAll rlad image lastt now .clean >>= fun
        | .going image lastt => acceptAll rlad image lastt later ending
        | .loaded image => .ok (.loaded image)
        | .refused => .ok .refused) := by
  induction now generalizing image lastt with
  | nil => rfl
  | cons data now ih =>
    rw [List.cons_append, acceptAll, acceptAll]
    cases accept rlad image lastt data with
    | ok progress =>
      cases progress with
      | going image lastt => exact ih image lastt
      | loaded image => rfl
      | refused => rfl
    | panic message => rfl
    | fault => rfl
    | diverge => rfl

/-- Only records that end cleanly leave something to come. -/
theorem acceptAll_going {rlad : Int} {image image' : List UInt8} {lastt lastt' : Int}
    {all : List (List UInt8)} {ending : Ending}
    (going : acceptAll rlad image lastt all ending = .ok (.going image' lastt')) :
    ending = .clean := by
  induction all generalizing image lastt with
  | nil =>
    cases ending with
    | clean => rfl
    | corrupt => cases going
    | negative => cases going
  | cons data later ih =>
    obtain ⟨progress, _, rest⟩ := Outcome.bind_eq_ok.mp going
    cases progress with
    | going image lastt => exact ih rest
    | loaded image => cases rest
    | refused => cases rest

/-- What is behind one of the first two blocks. -/
def skipBlock (rest : List UInt8) : Outcome (Option (List UInt8)) :=
  let l := short (ofBytes rest) 0
  if rest.length = 0 then .fault
  else if rest.length = 1 ∨ (rest.length : Int) < l then .ok none
  else if l < 0 then .fault
  else .ok (some (rest.drop l.toNat))

theorem skipBlock_one {rest : List UInt8} (one : rest.length = 1) : skipBlock rest = .ok none := by
  rw [skipBlock, if_neg (by omega), if_pos (Or.inl one)]

/-- The entry point of a directory, and what is behind it. -/
def directory (rest : List UInt8) : Option (Nat × List UInt8) :=
  let l := short (ofBytes rest) 0
  if rest.length < 2 ∨ (rest.length : Int) < l ∨ l < 292 ∨ short (ofBytes rest) 24 < 32 then none
  else some (address (ofBytes rest) 53, rest.drop l.toNat)

/-- The entry point and the program text of a module, relocated. -/
def load (rlad : Int) (file : List UInt8) : Outcome (Option (Nat × List UInt8)) := do
  if file.length ≤ 8 ∨ word (ofBytes file) 4 ≠ 0xca6d0f then .ok none
  else
    match ← skipBlock file with
    | none => .ok none
    | some rest =>
      match ← skipBlock rest with
      | none => .ok none
      | some rest =>
        match directory rest with
        | none => .ok none
        | some (ent, rest) =>
          match ← acceptAll rlad [] (-1) (blocks rest).1 (blocks rest).2 with
          | .loaded image => .ok (some (ent, image))
          | _ => .ok none

end Loadzero
