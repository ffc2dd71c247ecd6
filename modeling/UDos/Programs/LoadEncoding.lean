import UDos.Programs.LoadRelocation

/-!
# Writing a load module and loading it

Load modules as a linker writes them, from what they mean: program text behind
control records, relocation fields grouped by their R and P pointers, and other
records. Reading back what was written gives the records and fields, in however
many blocks they were put, so that the loader writes the text of the module with
the address added to its fields.
-/

namespace Loadzero

open Storage KernelMemory

def halfword (n : Nat) : List UInt8 := [UInt8.ofNat (n / 256), UInt8.ofNat n]

def triple (a : Nat) : List UInt8 := [UInt8.ofNat (a / 65536), UInt8.ofNat (a / 256), UInt8.ofNat a]

theorem short_halfword {n : Nat} (rest : List UInt8) (small : n < 32768) :
    short (ofBytes (halfword n ++ rest)) 0 = n := by
  have value : half (ofBytes (halfword n ++ rest)) 0 = n := by
    have high : ofBytes (halfword n ++ rest) 0 = UInt8.ofNat (n / 256) := rfl
    have low : ofBytes (halfword n ++ rest) (0 + 1) = UInt8.ofNat n := rfl
    simp only [half, high, low, UInt8.toNat_ofNat']
    omega
  unfold short
  rw [value, if_pos small]

theorem address_triple {a : Nat} (rest : List UInt8) (small : a < 16777216) :
    address (ofBytes (triple a ++ rest)) 0 = a := by
  have high : ofBytes (triple a ++ rest) 0 = UInt8.ofNat (a / 65536) := rfl
  have middle : ofBytes (triple a ++ rest) (0 + 1) = UInt8.ofNat (a / 256) := rfl
  have low : ofBytes (triple a ++ rest) (0 + 2) = UInt8.ofNat a := rfl
  simp only [address, high, middle, low, UInt8.toNat_ofNat']
  omega

theorem ofBytes_behind (front rest : List UInt8) (i : Nat) :
    ofBytes (front ++ rest) (front.length + i) = ofBytes rest i := by
  simp only [ofBytes, List.getD_eq_getElem?_getD]
  rw [List.getElem?_append_right (Nat.le_add_right _ _), Nat.add_sub_cancel_left]

theorem short_behind (front rest : List UInt8) (i : Nat) :
    short (ofBytes (front ++ rest)) (front.length + i) = short (ofBytes rest) i := by
  have value : half (ofBytes (front ++ rest)) (front.length + i) = half (ofBytes rest) i := by
    simp only [half, Nat.add_assoc, ofBytes_behind]
  unfold short
  rw [value]

theorem address_behind (front rest : List UInt8) (i : Nat) :
    address (ofBytes (front ++ rest)) (front.length + i) = address (ofBytes rest) i := by
  simp only [address, Nat.add_assoc, ofBytes_behind]

/-- A field of 4 bytes when `long`, and of 3 bytes otherwise. -/
structure WrittenField where
  kind : Fin 16
  long : Bool
  a : Fin 16777216

def WrittenField.field (f : WrittenField) : Field := ⟨if f.long then 4 else 3, f.a⟩

def WrittenField.flags (f : WrittenField) (cont : Bool) : UInt8 :=
  UInt8.ofNat (f.kind * 16 + (if f.long then 12 else 8) + (if cont then 1 else 0))

def WrittenField.encode (f : WrittenField) (cont : Bool) : List UInt8 :=
  f.flags cont :: triple f.a

/-- Fields with the same R and P pointers: all but the last one are continued. -/
def encodeFields : List WrittenField → List UInt8
  | [] => []
  | [f] => f.encode false
  | f :: g :: later => f.encode true ++ encodeFields (g :: later)

structure FieldGroup where
  pointers : List UInt8
  first : WrittenField
  others : List WrittenField
  pointers_length : pointers.length = 4

def FieldGroup.members (g : FieldGroup) : List WrittenField := g.first :: g.others

def FieldGroup.encode (g : FieldGroup) : List UInt8 := g.pointers ++ encodeFields g.members

def groupFields (gs : List FieldGroup) : List Field :=
  gs.flatMap fun g => g.members.map WrittenField.field

theorem flags_read (f : WrittenField) (cont : Bool) :
    fieldLength (f.flags cont) = some f.field.ll ∧ ((f.flags cont &&& 0x01 ≠ 0) ↔ cont = true) := by
  have all : ∀ (kind : Fin 16) (long cont : Bool),
      fieldLength (UInt8.ofNat (kind * 16 + (if long then 12 else 8) + (if cont then 1 else 0))) =
        some (if long then 4 else 3) ∧
      ((UInt8.ofNat (kind * 16 + (if long then 12 else 8) + (if cont then 1 else 0)) &&& 0x01 ≠ 0) ↔
        cont = true) := by
    decide
  exact all f.kind f.long cont

/-- One field is read, whether R and P stand in front of it or not. -/
theorem fields_field {front : List UInt8} {cont : Bool} (f : WrittenField) (goesOn : Bool)
    (rest : List UInt8) (skipped : front.length = skipRP 0 cont) :
    fields (front ++ (f.encode goesOn ++ rest)) cont =
      (f.field :: (fields rest goesOn).1, (fields rest goesOn).2) := by
  obtain ⟨length, continued⟩ := flags_read f goesOn
  have item : (front ++ (f.encode goesOn ++ rest)).drop (skipRP 0 cont) =
      f.encode goesOn ++ rest := by
    rw [← skipped]
    exact List.drop_left
  have some_bytes : ¬ (front ++ (f.encode goesOn ++ rest)).length = 0 := by
    simp [WrittenField.encode]
  have four : ¬ (f.encode goesOn ++ rest).length < 4 := by
    simp [WrittenField.encode, triple]
  have flags : ofBytes (f.encode goesOn ++ rest) 0 = f.flags goesOn := rfl
  have a : address (ofBytes (f.encode goesOn ++ rest)) 1 = f.a :=
    (address_behind [f.flags goesOn] (triple f.a ++ rest) 0).trans (address_triple rest f.a.isLt)
  have behind : (f.encode goesOn ++ rest).drop 4 = rest := rfl
  have flag : decide (f.flags goesOn &&& 0x01 ≠ 0) = goesOn := by
    cases goesOn with
    | true => exact decide_eq_true (continued.mpr rfl)
    | false => exact decide_eq_false fun set => Bool.noConfusion (continued.mp set)
  rw [fields]
  simp only [item, if_neg some_bytes, if_neg four, flags, length, a, behind, flag]
  rfl

theorem fields_members (members : List WrittenField) (f : WrittenField) (front : List UInt8)
    (cont : Bool) (rest : List UInt8) (skipped : front.length = skipRP 0 cont) :
    fields (front ++ (encodeFields (f :: members) ++ rest)) cont =
      ((f :: members).map WrittenField.field ++ (fields rest false).1, (fields rest false).2) := by
  induction members generalizing f front cont with
  | nil => exact fields_field f false rest skipped
  | cons g members ih =>
    have next := ih g [] true rfl
    rw [List.nil_append] at next
    rw [encodeFields, List.append_assoc, fields_field f true _ skipped, next]
    rfl

theorem fields_groups (gs : List FieldGroup) :
    fields (gs.flatMap FieldGroup.encode) false = (groupFields gs, true) := by
  induction gs with
  | nil =>
    rw [List.flatMap_nil, fields]
    rfl
  | cons g gs ih =>
    have read := fields_members g.others g.first g.pointers false (gs.flatMap FieldGroup.encode)
      g.pointers_length
    rw [ih] at read
    rw [List.flatMap_cons, FieldGroup.encode, List.append_assoc]
    exact read

/-- A record with the ten bytes in front of its length. -/
structure WrittenRecord where
  lead : List UInt8
  data : List UInt8
  lead_length : lead.length = 10
  some_data : 0 < data.length
  short : data.length < 32768

def WrittenRecord.encode (r : WrittenRecord) : List UInt8 :=
  r.lead ++ (halfword r.data.length ++ r.data)

structure WrittenBlock where
  spare : List UInt8
  first : WrittenRecord
  others : List WrittenRecord
  spare_length : spare.length = 2
  short : 4 + ((first :: others).flatMap WrittenRecord.encode).length < 32768

def WrittenBlock.records (b : WrittenBlock) : List WrittenRecord := b.first :: b.others

def WrittenBlock.length (b : WrittenBlock) : Nat :=
  4 + (b.records.flatMap WrittenRecord.encode).length

def WrittenBlock.encode (b : WrittenBlock) : List UInt8 :=
  halfword b.length ++ (b.spare ++ b.records.flatMap WrittenRecord.encode)

theorem WrittenRecord.encode_length (r : WrittenRecord) :
    r.encode.length = 12 + r.data.length := by
  simp [encode, halfword, r.lead_length]
  omega

theorem WrittenBlock.encode_length (b : WrittenBlock) : b.encode.length = b.length := by
  simp only [encode, halfword, List.length_append, List.length_cons, List.length_nil,
    b.spare_length, WrittenBlock.length]
  omega

theorem take_data (n : Nat) (data rest : List UInt8) :
    ((halfword n ++ (data ++ rest)).drop 2).take data.length = data :=
  List.take_left

theorem drop_behind {front data : List UInt8} (rest : List UInt8) {k : Nat}
    (length : front.length + data.length = k) : (front ++ (data ++ rest)).drop k = rest := by
  rw [← List.append_assoc]
  exact List.drop_left' (by rw [List.length_append]; exact length)

/-- The records of a block are read back. -/
theorem records_encode (r : WrittenRecord) (later : List WrittenRecord) :
    records (halfword r.data.length ++ (r.data ++ later.flatMap WrittenRecord.encode)) =
      ((r :: later).map WrittenRecord.data, .clean) := by
  induction later generalizing r with
  | nil =>
    have l := short_halfword (r.data ++ [].flatMap WrittenRecord.encode) r.short
    have whole : (halfword r.data.length ++ (r.data ++ [].flatMap WrittenRecord.encode)).length =
        2 + r.data.length := by
      simp [halfword]
      omega
    rw [records_eq l r.some_data (by omega) (Or.inl ⟨whole, rfl⟩), take_data]
    rfl
  | cons next later ih =>
    have l := short_halfword (r.data ++ (next :: later).flatMap WrittenRecord.encode) r.short
    have some_data := next.some_data
    have long : 2 + r.data.length + 12 ≤
        (halfword r.data.length ++ (r.data ++ (next :: later).flatMap WrittenRecord.encode)).length := by
      simp [halfword, next.encode_length]
      omega
    have behind : (halfword r.data.length ++
        (r.data ++ (next :: later).flatMap WrittenRecord.encode)).drop (2 + r.data.length + 10) =
        halfword next.data.length ++ (next.data ++ later.flatMap WrittenRecord.encode) := by
      rw [← List.drop_drop, drop_behind _ (by simp [halfword]), List.flatMap_cons,
        WrittenRecord.encode, List.append_assoc, List.drop_left' next.lead_length,
        List.append_assoc]
    rw [records_eq l r.some_data (by omega) (Or.inr (Or.inr ⟨long, rfl⟩)), behind, ih next,
      take_data]
    rfl

/-- All records of the blocks are read back, in order. -/
theorem blocks_encode (bs : List WrittenBlock) :
    blocks (bs.flatMap WrittenBlock.encode) =
      (bs.flatMap fun b => b.records.map WrittenRecord.data, .corrupt) := by
  induction bs with
  | nil => exact blocks_short (by simp)
  | cons b bs ih =>
    have small : b.length < 32768 := b.short
    have l : short (ofBytes ((b :: bs).flatMap WrittenBlock.encode)) 0 = b.length := by
      rw [List.flatMap_cons, WrittenBlock.encode, List.append_assoc]
      exact short_halfword _ small
    have front : ((b :: bs).flatMap WrittenBlock.encode).take b.length = b.encode := by
      rw [List.flatMap_cons]
      exact List.take_left' b.encode_length
    have rest : ((b :: bs).flatMap WrittenBlock.encode).drop b.length =
        bs.flatMap WrittenBlock.encode := by
      rw [List.flatMap_cons]
      exact List.drop_left' b.encode_length
    have inner : b.encode.drop 14 =
        halfword b.first.data.length ++ (b.first.data ++ b.others.flatMap WrittenRecord.encode) := by
      have four : (halfword b.length ++ b.spare).length = 4 := by
        simp [halfword, b.spare_length]
      have shape : b.encode = (halfword b.length ++ b.spare) ++ (b.first.lead ++
          (halfword b.first.data.length ++ (b.first.data ++
            b.others.flatMap WrittenRecord.encode))) := by
        simp only [WrittenBlock.encode, WrittenBlock.records, List.flatMap_cons,
          WrittenRecord.encode, List.append_assoc]
      rw [shape]
      exact drop_behind _ (by rw [four, b.first.lead_length])
    have long : 16 ≤ b.length := by
      simp only [WrittenBlock.length, WrittenBlock.records, List.flatMap_cons,
        List.length_append, b.first.encode_length]
      omega
    have whole : b.length ≤ ((b :: bs).flatMap WrittenBlock.encode).length := by
      rw [List.flatMap_cons, List.length_append, b.encode_length]
      omega
    rw [blocks]
    simp only [l, Int.toNat_natCast, front, rest, inner, records_encode, ih]
    rw [if_neg (by omega)]
    rfl

/-- The types of records that the loader remembers, because program text comes next. -/
def Expects (lastt : Int) : Prop := lastt = 1 ∨ lastt = 3 ∨ lastt = 0x0d

/-- What is said by one or two of the records before the end of a module. A dictionary
record has its fields in front of its control data, and their length at offset 6. -/
inductive Item where
  | note (data : List UInt8) (unused : data.headD 0 ∉ [1, 2, 3, 0x0d, 0x0e])
  | text (control code : List UInt8) (isControl : control.headD 0 = 1)
  | fields (header : List UInt8) (groups : List FieldGroup) (sixteen : header.length = 16)
      (isRLD : header.headD 0 = 2)
  | dictionary (front back : List UInt8) (groups : List FieldGroup) (control code : List UInt8)
      (six : front.length = 6) (isDictionary : front.headD 0 = 3) (eight : back.length = 8)
      (small : (groups.flatMap FieldGroup.encode).length < 32768)

namespace Item

def records : Item → List (List UInt8)
  | note data _ => [data]
  | text control code _ => [control, code]
  | fields header groups _ _ => [header ++ groups.flatMap FieldGroup.encode]
  | dictionary front back groups control code _ _ _ _ =>
    [front ++ (halfword (groups.flatMap FieldGroup.encode).length ++
      (back ++ (groups.flatMap FieldGroup.encode ++ control))), code]

def code : Item → List UInt8
  | note _ _ => []
  | text _ code _ => code
  | fields _ _ _ _ => []
  | dictionary _ _ _ _ code _ _ _ _ => code

def relocations : Item → List Field
  | note _ _ => []
  | text _ _ _ => []
  | fields _ groups _ _ => groupFields groups
  | dictionary _ _ groups _ _ _ _ _ _ => groupFields groups

end Item

/-- The end of a module: the last text, or the last fields. -/
inductive LastItem where
  | text (control code : List UInt8) (isLastControl : control.headD 0 = 0x0d)
  | fields (header : List UInt8) (groups : List FieldGroup) (sixteen : header.length = 16)
      (isLast : header.headD 0 = 0x0e)

namespace LastItem

def records : LastItem → List (List UInt8)
  | text control code _ => [control, code]
  | fields header groups _ _ => [header ++ groups.flatMap FieldGroup.encode]

def code : LastItem → List UInt8
  | text _ code _ => code
  | fields _ _ _ _ => []

def relocations : LastItem → List Field
  | text _ _ _ => []
  | fields _ groups _ _ => groupFields groups

end LastItem

/-- The fields of every item lie in the text of the items before it. -/
def Placed (loaded : Nat) : List Item → LastItem → Prop
  | [], last => ∀ f ∈ last.relocations, f.Inside loaded
  | item :: later, last =>
    (∀ f ∈ item.relocations, f.Inside loaded) ∧ Placed (loaded + item.code.length) later last

/-- The program text of a module, and the fields and words that are relocated in it. -/
def programText (items : List Item) (last : LastItem) : List UInt8 :=
  items.flatMap Item.code ++ last.code

def programFields (items : List Item) (last : LastItem) : List Field :=
  items.flatMap Item.relocations ++ last.relocations

def programPlaces (items : List Item) (last : LastItem) : List Nat :=
  (programFields items last).map Field.zaploc

variable {rlad : Int} {image : List UInt8} {zs : List Nat} {lastt : Int}

theorem recordFields_encode {header : List UInt8} (groups : List FieldGroup)
    (sixteen : header.length = 16) :
    recordFields (header ++ groups.flatMap FieldGroup.encode) = (groupFields groups, true) := by
  have long : ¬ (header ++ groups.flatMap FieldGroup.encode).length < 16 := by
    rw [List.length_append]
    omega
  rw [recordFields, if_neg long, List.drop_left' sixteen]
  exact fields_groups groups

theorem acceptFields_encode {header : List UInt8} {groups : List FieldGroup}
    {next : List UInt8 → Progress} (sixteen : header.length = 16)
    (allowed : Allowed rlad (groupFields groups))
    (inside : ∀ z ∈ zs, z + 4 ≤ image.length)
    (there : ∀ f ∈ groupFields groups, f.Inside image.length) :
    acceptFields rlad (patchAllBytes image zs rlad) (header ++ groups.flatMap FieldGroup.encode)
      next = .ok (next (patchAllBytes image (zs ++ (groupFields groups).map Field.zaploc) rlad)) := by
  rw [acceptFields, recordFields_encode groups sixteen, relocate_patches allowed inside there]
  rfl

/-- An address that a field does not allow is refused, after the fields before it. -/
theorem relocate_refused {fs : List Field} {complete : Bool} (refused : ¬ Allowed rlad fs)
    (there : ∀ f ∈ fs, f.Inside image.length) : relocate rlad image fs complete = .ok none := by
  induction fs generalizing image with
  | nil => exact absurd (List.forall_mem_nil _) refused
  | cons f later ih =>
    by_cases large : f.ll = 3 ∧ rlad > 0xffffff
    · rw [relocate, if_pos large]
    · have others : ¬ Allowed rlad later := fun allowed =>
        refused (allowed_cons.mpr ⟨fun three => by omega, allowed⟩)
      have here : f.Inside image.length := there f List.mem_cons_self
      rw [relocate, if_neg large, if_pos here]
      refine ih others fun g member => ?_
      rw [patchBytes_length]
      exact there g (List.mem_cons_of_mem f member)

theorem acceptFields_refused {header : List UInt8} {groups : List FieldGroup}
    {next : List UInt8 → Progress} (sixteen : header.length = 16)
    (refused : ¬ Allowed rlad (groupFields groups))
    (there : ∀ f ∈ groupFields groups, f.Inside image.length) :
    acceptFields rlad image (header ++ groups.flatMap FieldGroup.encode) next =
      .ok .refused := by
  rw [acceptFields, recordFields_encode groups sixteen, relocate_refused refused there]
  rfl

theorem accept_text {data : List UInt8} (expects : lastt = 1 ∨ lastt = 3)
    (inside : ∀ z ∈ zs, z + 4 ≤ image.length) :
    accept rlad (patchAllBytes image zs rlad) lastt data =
      .ok (.going (patchAllBytes (image ++ data) zs rlad) (-1)) := by
  rw [accept, if_pos (by omega), if_neg (by omega), patchAllBytes_append rlad data inside]

theorem headD_append (front rest : List UInt8) (some_data : 0 < front.length) :
    (front ++ rest).headD 0 = front.headD 0 := by
  cases front with
  | nil => cases some_data
  | cons c front => rfl

theorem accept_note {data : List UInt8} (free : ¬ Expects lastt)
    (unused : data.headD 0 ∉ ([2, 3, 0x0e] : List UInt8)) :
    accept rlad image lastt data = .ok (.going image (data.headD 0).toNat) := by
  have other : ∀ c : UInt8, c ∈ ([2, 3, 0x0e] : List UInt8) →
      ¬ ((data.headD 0).toNat : Int) = c.toNat := fun c member same => by
    have equal : data.headD 0 = c := UInt8.toNat_inj.mp (by omega)
    rw [equal] at unused
    exact unused member
  have two : ¬ ((data.headD 0).toNat : Int) = 2 := other 2 (by simp)
  have three : ¬ ((data.headD 0).toNat : Int) = 3 := other 3 (by simp)
  have last : ¬ ((data.headD 0).toNat : Int) = 0x0e := other 0x0e (by simp)
  unfold Expects at free
  rw [accept, if_neg free, if_neg two, if_neg three, if_neg last]

theorem accept_fields {header : List UInt8} (groups : List FieldGroup) (free : ¬ Expects lastt)
    (sixteen : header.length = 16) (isRLD : header.headD 0 = 2) :
    accept rlad image lastt (header ++ groups.flatMap FieldGroup.encode) =
      acceptFields rlad image (header ++ groups.flatMap FieldGroup.encode) (.going · 2) := by
  have type : ((header ++ groups.flatMap FieldGroup.encode).headD 0).toNat = 2 := by
    rw [headD_append _ _ (by omega), isRLD]
    rfl
  unfold Expects at free
  rw [accept, if_neg free, if_pos (by omega)]

theorem accept_last {header : List UInt8} (groups : List FieldGroup) (free : ¬ Expects lastt)
    (sixteen : header.length = 16) (isLast : header.headD 0 = 0x0e) :
    accept rlad image lastt (header ++ groups.flatMap FieldGroup.encode) =
      acceptFields rlad image (header ++ groups.flatMap FieldGroup.encode) .loaded := by
  have type : ((header ++ groups.flatMap FieldGroup.encode).headD 0).toNat = 0x0e := by
    rw [headD_append _ _ (by omega), isLast]
    rfl
  unfold Expects at free
  rw [accept, if_neg free, if_neg (by omega), if_neg (by omega), if_pos (by omega)]

/-- A dictionary record is one with fields: what is behind them is not looked at. -/
theorem accept_dictionary {front back control : List UInt8} (groups : List FieldGroup)
    (free : ¬ Expects lastt) (six : front.length = 6) (isDictionary : front.headD 0 = 3)
    (eight : back.length = 8) (small : (groups.flatMap FieldGroup.encode).length < 32768) :
    accept rlad image lastt (front ++ (halfword (groups.flatMap FieldGroup.encode).length ++
      (back ++ (groups.flatMap FieldGroup.encode ++ control)))) =
    acceptFields rlad image (front ++ (halfword (groups.flatMap FieldGroup.encode).length ++ back) ++
      groups.flatMap FieldGroup.encode) (.going · 3) := by
  have type : ((front ++ (halfword (groups.flatMap FieldGroup.encode).length ++
      (back ++ (groups.flatMap FieldGroup.encode ++ control)))).headD 0).toNat = 3 := by
    rw [headD_append _ _ (by omega), isDictionary]
    rfl
  have length : short (ofBytes (front ++ (halfword (groups.flatMap FieldGroup.encode).length ++
      (back ++ (groups.flatMap FieldGroup.encode ++ control))))) 6 =
      (groups.flatMap FieldGroup.encode).length := by
    have behind := short_behind front (halfword (groups.flatMap FieldGroup.encode).length ++
      (back ++ (groups.flatMap FieldGroup.encode ++ control))) 0
    rw [six] at behind
    exact behind.trans (short_halfword _ small)
  have whole : (front ++ (halfword (groups.flatMap FieldGroup.encode).length ++
      (back ++ (groups.flatMap FieldGroup.encode ++ control)))).length =
      16 + (groups.flatMap FieldGroup.encode).length + control.length := by
    simp only [List.length_append, six, eight, halfword, List.length_cons, List.length_nil]
    omega
  have cut : (front ++ (halfword (groups.flatMap FieldGroup.encode).length ++
      (back ++ (groups.flatMap FieldGroup.encode ++ control)))).take
        ((groups.flatMap FieldGroup.encode).length + 16) =
      front ++ (halfword (groups.flatMap FieldGroup.encode).length ++ back) ++
        groups.flatMap FieldGroup.encode := by
    have shape : front ++ (halfword (groups.flatMap FieldGroup.encode).length ++
        (back ++ (groups.flatMap FieldGroup.encode ++ control))) =
        (front ++ (halfword (groups.flatMap FieldGroup.encode).length ++ back) ++
          groups.flatMap FieldGroup.encode) ++ control := by
      simp only [List.append_assoc]
    rw [shape]
    refine List.take_left' ?_
    simp only [List.length_append, six, eight, halfword, List.length_cons, List.length_nil]
    omega
  have len : ((groups.flatMap FieldGroup.encode).length + 16 : Int).toNat =
      (groups.flatMap FieldGroup.encode).length + 16 := by omega
  unfold Expects at free
  rw [accept, if_neg free, if_neg (by omega), if_pos (by omega)]
  simp only [length, whole, len, cut]
  exact if_neg (by omega)

theorem dictionary_header {front back : List UInt8} (n : Nat) (six : front.length = 6)
    (eight : back.length = 8) : (front ++ (halfword n ++ back)).length = 16 := by
  simp [six, eight, halfword]

theorem acceptAll_text {control code : List UInt8} {more : List (List UInt8)} {ending : Ending}
    (free : ¬ Expects lastt) (isControl : control.headD 0 = 1)
    (inside : ∀ z ∈ zs, z + 4 ≤ image.length) :
    acceptAll rlad (patchAllBytes image zs rlad) lastt (control :: code :: more) ending =
      acceptAll rlad (patchAllBytes (image ++ code) zs rlad) (-1) more ending := by
  have type : ((control.headD 0).toNat : Int) = 1 := by
    rw [isControl]
    rfl
  rw [acceptAll, accept_note free (by rw [isControl]; decide), Outcome.ok_bind]
  dsimp only
  rw [acceptAll, type, accept_text (Or.inl rfl) inside, Outcome.ok_bind]

theorem places_inside {fs : List Field} {code : List UInt8}
    (inside : ∀ z ∈ zs, z + 4 ≤ image.length) (there : ∀ f ∈ fs, f.Inside image.length) :
    ∀ z ∈ zs ++ fs.map Field.zaploc, z + 4 ≤ (image ++ code).length := by
  intro z member
  rw [List.length_append]
  rcases List.mem_append.mp member with member | member
  · have := inside z member
    omega
  · obtain ⟨f, found, rfl⟩ := List.mem_map.mp member
    have := (there f found).2
    omega

/-- One item adds its text and its fields, and leaves the loader ready for the next one. -/
theorem acceptAll_item (item : Item) {more : List (List UInt8)} {ending : Ending}
    (free : ¬ Expects lastt) (allowed : Allowed rlad item.relocations)
    (inside : ∀ z ∈ zs, z + 4 ≤ image.length) (there : ∀ f ∈ item.relocations, f.Inside image.length) :
    ∃ lastt', ¬ Expects lastt' ∧
      acceptAll rlad (patchAllBytes image zs rlad) lastt (item.records ++ more) ending =
        acceptAll rlad (patchAllBytes (image ++ item.code)
          (zs ++ item.relocations.map Field.zaploc) rlad) lastt' more ending := by
  cases item with
  | note data unused =>
    refine ⟨(data.headD 0).toNat, ?_, ?_⟩
    · have other : ∀ c : UInt8, c ∈ ([1, 2, 3, 0x0d, 0x0e] : List UInt8) →
          ¬ ((data.headD 0).toNat : Int) = c.toNat := fun c member same => by
        have equal : data.headD 0 = c := UInt8.toNat_inj.mp (by omega)
        rw [equal] at unused
        exact unused member
      rintro (one | three | last)
      · exact other 1 (by simp) one
      · exact other 3 (by simp) three
      · exact other 0x0d (by simp) last
    · have unused' : data.headD 0 ∉ ([2, 3, 0x0e] : List UInt8) := fun member =>
        unused (List.mem_of_mem_filter (p := fun c => c ≠ 1 ∧ c ≠ 0x0d) (by simpa using member))
      simp only [Item.records, Item.code, Item.relocations, List.append_nil, List.map_nil,
        List.singleton_append]
      rw [acceptAll, accept_note free unused', Outcome.ok_bind]
  | text control code isControl =>
    refine ⟨-1, by unfold Expects; omega, ?_⟩
    simp only [Item.records, Item.code, Item.relocations, List.append_nil, List.map_nil,
      List.cons_append, List.nil_append]
    exact acceptAll_text free isControl inside
  | fields header groups sixteen isRLD =>
    refine ⟨2, by unfold Expects; omega, ?_⟩
    simp only [Item.records, Item.code, Item.relocations, List.append_nil, List.singleton_append]
    rw [acceptAll, accept_fields groups free sixteen isRLD,
      acceptFields_encode sixteen allowed inside there, Outcome.ok_bind]
  | dictionary front back groups control code six isDictionary eight small =>
    refine ⟨-1, by unfold Expects; omega, ?_⟩
    have inside' : ∀ z ∈ zs ++ (groupFields groups).map Field.zaploc, z + 4 ≤ image.length := by
      have covered := @places_inside image zs (groupFields groups) [] inside there
      rwa [List.append_nil] at covered
    simp only [Item.records, Item.code, Item.relocations, List.cons_append, List.nil_append]
    rw [acceptAll, accept_dictionary groups free six isDictionary eight small,
      acceptFields_encode (dictionary_header _ six eight) allowed inside there, Outcome.ok_bind]
    dsimp only
    rw [acceptAll, accept_text (Or.inr rfl) inside', Outcome.ok_bind]

theorem acceptAll_last (last : LastItem) {more : List (List UInt8)} {ending : Ending}
    (free : ¬ Expects lastt) (allowed : Allowed rlad last.relocations)
    (inside : ∀ z ∈ zs, z + 4 ≤ image.length) (there : ∀ f ∈ last.relocations, f.Inside image.length) :
    acceptAll rlad (patchAllBytes image zs rlad) lastt (last.records ++ more) ending =
      .ok (.loaded (patchAllBytes (image ++ last.code)
        (zs ++ last.relocations.map Field.zaploc) rlad)) := by
  cases last with
  | text control code isLastControl =>
    have type : ((control.headD 0).toNat : Int) = 0x0d := by
      rw [isLastControl]
      rfl
    simp only [LastItem.records, LastItem.code, LastItem.relocations, List.append_nil,
      List.map_nil, List.cons_append, List.nil_append]
    rw [acceptAll, accept_note free (by rw [isLastControl]; decide), Outcome.ok_bind]
    dsimp only
    rw [acceptAll, type, accept, if_pos (by omega), if_pos rfl,
      patchAllBytes_append rlad code inside]
    rfl
  | fields header groups sixteen isLast =>
    simp only [LastItem.records, LastItem.code, LastItem.relocations, List.append_nil,
      List.singleton_append]
    rw [acceptAll, accept_last groups free sixteen isLast,
      acceptFields_encode sixteen allowed inside there]
    rfl

/-- The records of a module are loaded to its text with its fields relocated. -/
theorem acceptAll_items (items : List Item) (last : LastItem) {more : List (List UInt8)}
    {ending : Ending} (free : ¬ Expects lastt) (allowed : Allowed rlad (programFields items last))
    (inside : ∀ z ∈ zs, z + 4 ≤ image.length) (placed : Placed image.length items last) :
    acceptAll rlad (patchAllBytes image zs rlad) lastt
      (items.flatMap Item.records ++ (last.records ++ more)) ending =
        .ok (.loaded (patchAllBytes (image ++ programText items last)
          (zs ++ programPlaces items last) rlad)) := by
  induction items generalizing image zs lastt with
  | nil => exact acceptAll_last last free allowed inside placed
  | cons item later ih =>
    obtain ⟨there, placed⟩ := placed
    have fields : programFields (item :: later) last =
        item.relocations ++ programFields later last := by
      simp [programFields]
    rw [fields] at allowed
    obtain ⟨now, allowed⟩ := allowed_append.mp allowed
    obtain ⟨lastt', free', accepted⟩ := @acceptAll_item rlad image zs lastt item
      (later.flatMap Item.records ++ (last.records ++ more)) ending free now inside there
    have inside' : ∀ z ∈ zs ++ item.relocations.map Field.zaploc,
        z + 4 ≤ (image ++ item.code).length := places_inside inside there
    have rest := ih free' allowed inside' (by rw [List.length_append]; exact placed)
    have text : image ++ programText (item :: later) last =
        image ++ item.code ++ programText later last := by
      simp [programText]
    have places : zs ++ programPlaces (item :: later) last =
        zs ++ item.relocations.map Field.zaploc ++ programPlaces later last := by
      simp [programPlaces, fields]
    rw [List.flatMap_cons, List.append_assoc, accepted, rest, text, places]

theorem acceptAll_item_refused (item : Item) {more : List (List UInt8)} {ending : Ending}
    (free : ¬ Expects lastt) (refused : ¬ Allowed rlad item.relocations)
    (there : ∀ f ∈ item.relocations, f.Inside image.length) :
    acceptAll rlad image lastt (item.records ++ more) ending = .ok .refused := by
  cases item with
  | note data unused => exact absurd (List.forall_mem_nil _) refused
  | text control code isControl => exact absurd (List.forall_mem_nil _) refused
  | fields header groups sixteen isRLD =>
    rw [Item.records, List.singleton_append, acceptAll, accept_fields groups free sixteen isRLD,
      acceptFields_refused sixteen refused there]
    rfl
  | dictionary front back groups control code six isDictionary eight small =>
    rw [Item.records, List.cons_append, acceptAll,
      accept_dictionary groups free six isDictionary eight small,
      acceptFields_refused (dictionary_header _ six eight) refused there]
    rfl

theorem acceptAll_last_refused (last : LastItem) {more : List (List UInt8)} {ending : Ending}
    (free : ¬ Expects lastt) (refused : ¬ Allowed rlad last.relocations)
    (there : ∀ f ∈ last.relocations, f.Inside image.length) :
    acceptAll rlad image lastt (last.records ++ more) ending = .ok .refused := by
  cases last with
  | text control code isLastControl => exact absurd (List.forall_mem_nil _) refused
  | fields header groups sixteen isLast =>
    rw [LastItem.records, List.singleton_append, acceptAll, accept_last groups free sixteen isLast,
      acceptFields_refused sixteen refused there]
    rfl

/-- One field that does not allow the address is enough, wherever it stands. -/
theorem acceptAll_items_refused (items : List Item) (last : LastItem)
    {more : List (List UInt8)} {ending : Ending} (free : ¬ Expects lastt)
    (refused : ¬ Allowed rlad (programFields items last))
    (inside : ∀ z ∈ zs, z + 4 ≤ image.length) (placed : Placed image.length items last) :
    acceptAll rlad (patchAllBytes image zs rlad) lastt
      (items.flatMap Item.records ++ (last.records ++ more)) ending = .ok .refused := by
  induction items generalizing image zs lastt with
  | nil =>
    refine acceptAll_last_refused last free refused fun f member => ?_
    rw [patchAllBytes_length]
    exact placed f member
  | cons item later ih =>
    obtain ⟨there, placed⟩ := placed
    have fields : programFields (item :: later) last =
        item.relocations ++ programFields later last := by
      simp [programFields]
    rw [fields] at refused
    rw [List.flatMap_cons, List.append_assoc]
    by_cases now : Allowed rlad item.relocations
    · obtain ⟨lastt', free', accepted⟩ := @acceptAll_item rlad image zs lastt item
        (later.flatMap Item.records ++ (last.records ++ more)) ending free now inside there
      have inside' : ∀ z ∈ zs ++ item.relocations.map Field.zaploc,
          z + 4 ≤ (image ++ item.code).length := places_inside inside there
      have others : ¬ Allowed rlad (programFields later last) := fun allowed =>
        refused (allowed_append.mpr ⟨now, allowed⟩)
      rw [accepted]
      exact ih free' others inside' (by rw [List.length_append]; exact placed)
    · refine acceptAll_item_refused item free now fun f member => ?_
      rw [patchAllBytes_length]
      exact there f member

/-- A block with its length, which counts itself. -/
def frame (content : List UInt8) : List UInt8 := halfword (content.length + 2) ++ content

/-- A module in a file: two blocks in front, the first with the mark of an executable,
the directory with the entry point, and the blocks with the records. -/
structure ModuleFile where
  lead : List UInt8
  first : List UInt8
  second : List UInt8
  before : List UInt8
  entryLength : Fin 32768
  name : List UInt8
  ent : Fin 16777216
  after : List UInt8
  body : List WrittenBlock
  lead_length : lead.length = 2
  first_short : first.length < 32760
  second_short : second.length < 32766
  before_length : before.length = 22
  name_length : name.length = 27
  entry_long : 32 ≤ entryLength.val
  after_long : 236 ≤ after.length
  after_short : after.length < 32712

namespace ModuleFile

variable (file : ModuleFile)

def firstBlock : List UInt8 := file.lead ++ ([0x00, 0xca, 0x6d, 0x0f] ++ file.first)

def directoryBlock : List UInt8 :=
  file.before ++ (halfword file.entryLength ++ (file.name ++ (triple file.ent ++ file.after)))

def encode : List UInt8 :=
  frame file.firstBlock ++ (frame file.second ++ (frame file.directoryBlock ++
    file.body.flatMap WrittenBlock.encode))

/-- What the records of the module hold, in order. -/
def records : List (List UInt8) := file.body.flatMap fun b => b.records.map WrittenRecord.data

end ModuleFile

theorem frame_length (content : List UInt8) : (frame content).length = content.length + 2 := by
  simp [frame, halfword]

theorem skipBlock_frame {content : List UInt8} (rest : List UInt8)
    (small : content.length < 32766) : skipBlock (frame content ++ rest) = .ok (some rest) := by
  have length := frame_length content
  have l : short (ofBytes (frame content ++ rest)) 0 = (content.length + 2 : Nat) := by
    rw [frame, List.append_assoc]
    exact short_halfword _ (by omega)
  have whole : (frame content ++ rest).length = content.length + 2 + rest.length := by
    rw [List.length_append, length]
  by_cases bare : content.length + 2 + rest.length = 1
  · omega
  · rw [skipBlock]
    simp only [l, whole, Int.toNat_natCast]
    rw [if_neg (by omega), if_neg (by omega), if_neg (by omega), List.drop_left' length]

theorem directory_frame (file : ModuleFile) (rest : List UInt8) :
    directory (frame file.directoryBlock ++ rest) = some (file.ent.val, rest) := by
  have content : file.directoryBlock.length = 54 + file.after.length := by
    simp only [ModuleFile.directoryBlock, List.length_append, file.before_length,
      file.name_length, halfword, triple, List.length_cons, List.length_nil]
    omega
  have length : (frame file.directoryBlock).length = 56 + file.after.length := by
    rw [frame_length, content]
    omega
  have short_content := file.after_short
  have long_content := file.after_long
  have long_entry := file.entry_long
  have l : short (ofBytes (frame file.directoryBlock ++ rest)) 0 =
      (file.directoryBlock.length + 2 : Nat) := by
    rw [frame, List.append_assoc]
    exact short_halfword _ (by omega)
  have shape : frame file.directoryBlock ++ rest =
      (halfword (file.directoryBlock.length + 2) ++ file.before) ++ (halfword file.entryLength ++
        (file.name ++ (triple file.ent ++ (file.after ++ rest)))) := by
    simp only [frame, ModuleFile.directoryBlock, List.append_assoc]
  have l2 : short (ofBytes (frame file.directoryBlock ++ rest)) 24 = file.entryLength.val := by
    have front : (halfword (file.directoryBlock.length + 2) ++ file.before).length = 24 := by
      simp [halfword, file.before_length]
    have read := short_behind (halfword (file.directoryBlock.length + 2) ++ file.before)
      (halfword file.entryLength ++ (file.name ++ (triple file.ent ++ (file.after ++ rest)))) 0
    rw [front, ← shape] at read
    exact read.trans (short_halfword _ file.entryLength.isLt)
  have epa : address (ofBytes (frame file.directoryBlock ++ rest)) 53 = file.ent := by
    have front : (halfword (file.directoryBlock.length + 2) ++ (file.before ++
        (halfword file.entryLength ++ file.name))).length = 53 := by
      simp [halfword, file.before_length, file.name_length]
    have read := address_behind (halfword (file.directoryBlock.length + 2) ++ (file.before ++
      (halfword file.entryLength ++ file.name))) (triple file.ent ++ (file.after ++ rest)) 0
    have shape' : (halfword (file.directoryBlock.length + 2) ++ (file.before ++
        (halfword file.entryLength ++ file.name))) ++ (triple file.ent ++ (file.after ++ rest)) =
        frame file.directoryBlock ++ rest := by
      simp only [frame, ModuleFile.directoryBlock, List.append_assoc]
    rw [front, shape'] at read
    exact read.trans (address_triple _ file.ent.isLt)
  have whole : (frame file.directoryBlock ++ rest).length = 56 + file.after.length + rest.length := by
    rw [List.length_append, length]
  unfold directory
  simp only [l, l2, epa, whole, content, Int.toNat_natCast]
  rw [if_neg (by omega), List.drop_left' (by omega)]

theorem magic_encode (file : ModuleFile) :
    8 < file.encode.length ∧ word (ofBytes file.encode) 4 = 0xca6d0f := by
  have shape : file.encode = (halfword (file.firstBlock.length + 2) ++ file.lead) ++
      ([0x00, 0xca, 0x6d, 0x0f] ++ (file.first ++ (frame file.second ++
        (frame file.directoryBlock ++ file.body.flatMap WrittenBlock.encode)))) := by
    simp only [ModuleFile.encode, frame, ModuleFile.firstBlock, List.append_assoc]
  have front : (halfword (file.firstBlock.length + 2) ++ file.lead).length = 4 := by
    simp [halfword, file.lead_length]
  constructor
  · rw [shape]
    simp only [List.length_append, front, List.length_cons, List.length_nil, frame_length]
    omega
  · have bytes_at : ∀ i, ofBytes file.encode (4 + i) =
        ofBytes ([0x00, 0xca, 0x6d, 0x0f] ++ (file.first ++ (frame file.second ++
          (frame file.directoryBlock ++ file.body.flatMap WrittenBlock.encode)))) i := fun i => by
      rw [shape, ← front]
      exact ofBytes_behind _ _ i
    have same : word (ofBytes file.encode) 4 = word (ofBytes ([0x00, 0xca, 0x6d, 0x0f] ++
        (file.first ++ (frame file.second ++ (frame file.directoryBlock ++
          file.body.flatMap WrittenBlock.encode))))) 0 :=
      word_congr fun i _ => by rw [bytes_at, Nat.zero_add]
    have b0 : ∀ rest, ofBytes ([0x00, 0xca, 0x6d, 0x0f] ++ rest) 0 = 0x00 := fun _ => rfl
    have b1 : ∀ rest, ofBytes ([0x00, 0xca, 0x6d, 0x0f] ++ rest) 1 = 0xca := fun _ => rfl
    have b2 : ∀ rest, ofBytes ([0x00, 0xca, 0x6d, 0x0f] ++ rest) 2 = 0x6d := fun _ => rfl
    have b3 : ∀ rest, ofBytes ([0x00, 0xca, 0x6d, 0x0f] ++ rest) 3 = 0x0f := fun _ => rfl
    rw [same]
    simp only [word, half, Nat.zero_add, Nat.reduceAdd, b0, b1, b2, b3]
    rfl

/-- What the loader makes of a module that says these items. -/
theorem load_file (file : ModuleFile) (items : List Item) (last : LastItem)
    {more : List (List UInt8)} (rlad : Int)
    (spelled : file.records = items.flatMap Item.records ++ (last.records ++ more)) :
    load rlad file.encode = (acceptAll rlad (patchAllBytes [] [] rlad) (-1)
      (items.flatMap Item.records ++ (last.records ++ more)) .corrupt >>= fun
        | .loaded image => .ok (some (file.ent.val, image))
        | _ => .ok none) := by
  obtain ⟨long, magic⟩ := magic_encode file
  have first : file.firstBlock.length < 32766 := by
    have small := file.first_short
    simp only [ModuleFile.firstBlock, List.length_append, file.lead_length, List.length_cons,
      List.length_nil]
    omega
  have spelled' : (file.body.flatMap fun b => b.records.map WrittenRecord.data) =
      items.flatMap Item.records ++ (last.records ++ more) := spelled
  rw [load, if_neg (by rw [magic]; omega), ModuleFile.encode, skipBlock_frame _ first]
  simp only [Outcome.ok_bind, skipBlock_frame _ file.second_short, directory_frame, blocks_encode]
  rw [spelled']
  rfl

theorem no_places : ∀ z ∈ ([] : List Nat), z + 4 ≤ ([] : List UInt8).length :=
  List.forall_mem_nil _

theorem start_free : ¬ Expects (-1) := by
  unfold Expects
  omega

theorem load_encode (file : ModuleFile) (items : List Item) (last : LastItem)
    {more : List (List UInt8)} {rlad : Int} (allowed : Allowed rlad (programFields items last))
    (spelled : file.records = items.flatMap Item.records ++ (last.records ++ more))
    (placed : Placed 0 items last) :
    load rlad file.encode = .ok (some (file.ent,
      patchAllBytes (programText items last) (programPlaces items last) rlad)) := by
  rw [load_file file items last rlad spelled,
    acceptAll_items items last start_free allowed no_places placed]
  rfl

theorem load_refused (file : ModuleFile) (items : List Item) (last : LastItem)
    {more : List (List UInt8)} {rlad : Int}
    (refused : ¬ Allowed rlad (programFields items last))
    (spelled : file.records = items.flatMap Item.records ++ (last.records ++ more))
    (placed : Placed 0 items last) : load rlad file.encode = .ok none := by
  rw [load_file file items last rlad spelled,
    acceptAll_items_refused items last start_free refused no_places placed]
  rfl

/-- Eight bytes of text with a field of three bytes in it. -/
def smallGroup : FieldGroup where
  pointers := [0, 1, 0, 1]
  first := ⟨⟨0, by decide⟩, false, ⟨1, by decide⟩⟩
  others := []
  pointers_length := rfl

def smallItems : List Item := [.text [1] [1, 2, 3, 4, 5, 6, 7, 8] rfl]

def smallLast : LastItem := .fields (0x0e :: List.replicate 15 0) [smallGroup] rfl rfl

def smallRecord (data : List UInt8) (some_data : 0 < data.length) (short : data.length < 32768) :
    WrittenRecord where
  lead := List.replicate 10 0
  data := data
  lead_length := rfl
  some_data := some_data
  short := short

def smallBlock : WrittenBlock where
  spare := [0, 0]
  first := smallRecord [1] (by decide) (by decide)
  others := [smallRecord [1, 2, 3, 4, 5, 6, 7, 8] (by decide) (by decide),
    smallRecord (0x0e :: List.replicate 15 0 ++ smallGroup.encode) (by decide) (by decide)]
  spare_length := rfl
  short := by decide

def smallFile : ModuleFile where
  lead := [0, 0]
  first := []
  second := []
  before := List.replicate 22 0
  entryLength := 32
  name := List.replicate 27 0
  ent := 4
  after := List.replicate 236 0
  body := [smallBlock]
  lead_length := rfl
  first_short := by decide
  second_short := by decide
  before_length := rfl
  name_length := rfl
  entry_long := by decide
  after_long := Nat.le_of_eq (List.length_replicate (n := 236)).symm
  after_short := (List.length_replicate (n := 236)).trans_lt (by decide)

theorem small_spelled :
    smallFile.records = smallItems.flatMap Item.records ++ (smallLast.records ++ []) := rfl

theorem small_placed : Placed 0 smallItems smallLast :=
  ⟨List.forall_mem_nil _, show ∀ f ∈ smallLast.relocations, f.Inside 8 by decide⟩

theorem small_length : smallFile.encode.length = 375 := by
  decide +kernel

theorem small_load (rlad : Int) (low : rlad ≤ 0xffffff) : load rlad smallFile.encode =
    .ok (some (4, patchBytes [1, 2, 3, 4, 5, 6, 7, 8] 0 rlad)) :=
  load_encode smallFile smallItems smallLast (allowed_of_low low _) small_spelled small_placed

theorem small_in_place :
    ∃ fixed, fixPE 1000 (store (fun _ => 7) 4096 smallFile.encode) 4096 smallFile.encode.length
        65536 = .ok fixed ∧
      fixed.Agrees (store (fun _ => 7) 4096 smallFile.encode) 4096 smallFile.encode
        (some (4, [1, 3, 3, 4, 5, 6, 7, 8])) :=
  fixPE_agrees (store_bytes _ 4096 _) (by rw [small_length]; decide) (by rw [small_length]; decide)
    (by rw [small_length]; decide) (small_load 65536 (by decide))

theorem small_relocates : ∃ zs, (∀ z ∈ zs, z + 4 ≤ [1, 2, 3, 4, 5, 6, 7, (8 : UInt8)].length) ∧
    (∀ (m : Storage) (buf fuel rlad : Nat), rlad ≤ 0xffffff → smallFile.encode.length < fuel →
      buf + smallFile.encode.length < 4294967296 →
      ∃ said, main fuel m buf smallFile.encode rlad = .ok (said, some (some (u32 (buf + 4)),
        patchAllBytes [1, 2, 3, 4, 5, 6, 7, 8] zs rlad))) ∧
    (zs.Pairwise WordsApart → ∀ r s : Int,
      patchAllBytes (patchAllBytes [1, 2, 3, 4, 5, 6, 7, 8] zs r) zs s =
        patchAllBytes [1, 2, 3, 4, 5, 6, 7, 8] zs (r + s)) :=
  main_relocates (by rw [small_length]; decide) (small_load 0 (by decide))

section
variable (file : ModuleFile) (items : List Item) (last : LastItem) {more : List (List UInt8)}
variable {m : Storage} {buf fuel rlad : Nat}
variable (spelled : file.records = items.flatMap Item.records ++ (last.records ++ more))
variable (placed : Placed 0 items last) (fits : file.encode.length < maxExe)
variable (space : buf + file.encode.length < 4294967296) (enough : file.encode.length < fuel)
include spelled placed fits space enough in
/-- Loading what a linker wrote gives back the program text with the address added to
its fields: every module in every arrangement of its records in blocks, whatever comes
behind its end, in whatever buffer and at every address that its fields allow. -/
theorem main_encode (allowed : Allowed (signed32 rlad) (programFields items last)) :
    ∃ said, main fuel m buf file.encode rlad = .ok (said, some (some (u32 (buf + file.ent)),
      patchAllBytes (programText items last) (programPlaces items last) (signed32 rlad))) :=
  main_writes fits space enough (load_encode file items last allowed spelled placed)

theorem small_written : ∃ said, main 1000 (fun _ => 7) 4096 smallFile.encode 65536 =
    .ok (said, some (some 4100, [1, 3, 3, 4, 5, 6, 7, 8])) :=
  @main_encode smallFile smallItems smallLast [] (fun _ => 7) 4096 1000 65536 small_spelled
    small_placed (by rw [small_length]; decide) (by rw [small_length]; decide)
    (by rw [small_length]; decide) (by decide)

include spelled placed fits space enough in
/-- The address is compared as an `int`: a module with a field of three bytes is refused
from 2^24 on, but from 2^31 on it is loaded again. -/
theorem main_refuses_iff :
    (∃ said, main fuel m buf file.encode rlad = .ok (said, none)) ↔
      (∃ f ∈ programFields items last, f.ll = 3) ∧
        16777216 ≤ rlad % 4294967296 ∧ rlad % 4294967296 < 2147483648 := by
  have large : signed32 rlad > 0xffffff ↔
      16777216 ≤ rlad % 4294967296 ∧ rlad % 4294967296 < 2147483648 := by
    unfold signed32
    omega
  by_cases allowed : Allowed (signed32 rlad) (programFields items last)
  · obtain ⟨said, written⟩ := @main_writes m buf fuel file.encode rlad _ fits space enough
      (load_encode file items last allowed spelled placed)
    constructor
    · rintro ⟨said', refused⟩
      rw [written] at refused
      cases refused
    · rintro ⟨⟨f, member, three⟩, range⟩
      have := allowed f member three
      have := large.mpr range
      omega
  · obtain ⟨said, written⟩ := @main_writes m buf fuel file.encode rlad _ fits space enough
      (load_refused file items last allowed spelled placed)
    refine iff_of_true ⟨said, written⟩ ?_
    unfold Allowed at allowed
    push Not at allowed
    obtain ⟨f, member, three, range⟩ := allowed
    exact ⟨⟨f, member, three⟩, large.mp range⟩

end

theorem small_refused : (∃ said, main 1000 (fun _ => 7) 4096 smallFile.encode 16777216 =
      .ok (said, none)) ↔
    (∃ f ∈ programFields smallItems smallLast, f.ll = 3) ∧
      16777216 ≤ 16777216 % 4294967296 ∧ 16777216 % 4294967296 < 2147483648 :=
  main_refuses_iff smallFile smallItems smallLast small_spelled small_placed
    (by rw [small_length]; decide) (by rw [small_length]; decide) (by rw [small_length]; decide)

end Loadzero
