import UDos.Kernel.Mm
import UDos.Library.Traced

/-!
# Loading an executable

`ExLoadElfFromBuffer` of `exec.c`, with every range of storage that it reads.
The header is taken from the image without a check, and the end of the image
is computed but not used. The blocks that `MmAllocateZero` asks for are given
by the index of the section, 0 for NULL; the debug prints are modelled by what
they read, with the print lock free.
-/

namespace Exec

open KernelMemory Storage

def elfMagic : List UInt8 := [0x7F, 0x45, 0x4C, 0x46]

def shtNobits : Nat := 8

def shfAlloc : Nat := 2

/-- What the loader runs with: the build, and the blocks it is given. -/
structure Machine where
  debug : Bool
  allocated : Nat → Nat

def readWord (m : Storage) (a : Nat) : Traced Nat := Traced.read a 4 (word m a)

def readHalf (m : Storage) (a : Nat) : Traced Nat := Traced.read a 2 (half m a)

def exGetElf32Shdr (m : Storage) (hdr idx : Nat) : Traced Nat := do
  let sectTab ← readWord m (hdr + 32)
  let sectTabEntrySize ← readHalf m (hdr + 46)
  pure (u32 (hdr + sectTab + sectTabEntrySize * idx))

def exGetElf32StringShdr (m : Storage) (hdr : Nat) : Traced Nat := do
  let strShtabIdx ← readHalf m (hdr + 50)
  exGetElf32Shdr m hdr strShtabIdx

def exGetElf32String (m : Storage) (hdr offset : Nat) : Traced Nat := do
  let strtab ← exGetElf32StringShdr m hdr
  if strtab = 0 then pure 0
  else do
    let base ← readWord m (strtab + 16)
    pure (u32 (hdr + base + offset))

/-- Read a string up to its terminator, one character after the other. -/
def readString (m : Storage) : Nat → Nat → Traced Unit
  | 0, _ => Traced.lift .diverge
  | left + 1, a => do
    let c ← Traced.read a 1 (m a)
    if c = 0 then pure () else readString m left (a + 1)

/-- The print of a section's name. The section is passed where the header is expected. -/
def printSectionName (m : Storage) (shdr : Nat) : Traced Unit := do
  let name ← readWord m shdr
  let string ← exGetElf32String m shdr name
  if string = 0 then pure () else readString m 4294967296 string

/-- The print of a section's address and size. -/
def printSectionRange (m : Storage) (shdr : Nat) : Traced Unit := do
  let _addr ← readWord m (shdr + 12)
  let _size ← readWord m (shdr + 20)
  pure ()

def exCheckElf32IsValid (m : Storage) (hdr : Nat) : Traced Int := do
  let id ← Traced.read hdr 4 (m.bytes hdr 4)
  if keCompareMemory id elfMagic ≠ 0 then pure (-1) else pure 0

/-- A section that is not in the file. -/
def loadNobits (machine : Machine) (m : Storage) (shdr i : Nat) : Traced Storage := do
  let size ← readWord m (shdr + 20)
  if size = 0 then pure m
  else do
    let flags ← readWord m (shdr + 8)
    if flags &&& shfAlloc ≠ 0 then do
      let (p, m) ← Traced.lift (Mm.mmAllocateZero m (machine.allocated i) size)
      let m := m.setWord (shdr + 12) (u32 p)
      printSectionRange m shdr
      pure m
    else pure m

/-- `KeCopyMemory`, which reads its source when the assertion lets it. -/
def copyReading (debug : Bool) (m : Storage) (dest src n : Nat) : Traced Storage := do
  let (_, copied) ← Traced.lift (keCopyMemory debug m dest src n)
  Traced.read src n copied

/-- A section whose contents are copied to its address. -/
def loadContents (machine : Machine) (m : Storage) (hdr shdr : Nat) : Traced Storage := do
  let addr ← readWord m (shdr + 12)
  if addr = 0 then pure m
  else do
    let offset ← readWord m (shdr + 16)
    let size ← readWord m (shdr + 20)
    let m ← copyReading machine.debug m addr (u32 (hdr + offset)) size
    printSectionRange m shdr
    pure m

def loadSection (machine : Machine) (m : Storage) (hdr shdr i : Nat) : Traced Storage := do
  let type ← readWord m (shdr + 4)
  if type = shtNobits then loadNobits machine m shdr i else loadContents machine m hdr shdr

/-- The body of the section loop. -/
def loadIndex (machine : Machine) (hdr i : Nat) (m : Storage) : Traced Storage := do
  let shdr ← exGetElf32Shdr m hdr i
  if machine.debug then printSectionName m shdr
  loadSection machine m hdr shdr i

/-- The section loop from index i on, with the iterations that are left. The
number of sections is read again before every iteration. -/
def loadSections (machine : Machine) (hdr : Nat) : Nat → Nat → Storage → Traced Storage
  | 0, _, _ => Traced.lift .diverge
  | left + 1, i, m => do
    let nSectTabEntry ← readHalf m (hdr + 48)
    if i < nSectTabEntry then do
      let m ← loadIndex machine hdr i m
      loadSections machine hdr left (i + 1) m
    else pure m

/-- `ExLoadElfFromBuffer`, up to the call of the entry point it returns. -/
def exLoadElfFromBuffer (machine : Machine) (m : Storage) (buffer _n : Nat) : Traced Nat := do
  let valid ← exCheckElf32IsValid m buffer
  Traced.lift (Outcome.check (valid = 0) "Invalid ELF32 file\r\n")
  let m ← loadSections machine buffer 65536 0 m
  readWord m (buffer + 24)

/-- The range lies in the image of n bytes. -/
def Inside (buffer n : Nat) (r : Nat × Nat) : Prop :=
  r.2 = 0 ∨ buffer ≤ r.1 ∧ r.1 + r.2 ≤ buffer + n

instance (buffer n : Nat) (r : Nat × Nat) : Decidable (Inside buffer n r) :=
  inferInstanceAs (Decidable (_ ∨ _))

/-- The loader panics as invalid, or all it reads lies in the image. -/
def StaysInside (buffer n : Nat) (x : Traced Nat) : Prop :=
  x.result = .panic "Invalid ELF32 file\r\n" ∨ x.Within (Inside buffer n)

instance (buffer n : Nat) (x : Traced Nat) : Decidable (StaysInside buffer n x) :=
  inferInstanceAs (Decidable (_ ∨ ∀ r ∈ x.reads, Inside buffer n r))

/-- The address of a section header, as the fields of the image header give it. -/
def sectionHeader (m : Storage) (hdr idx : Nat) : Nat :=
  u32 (hdr + word m (hdr + 32) + half m (hdr + 46) * idx)

/-- The string has its terminator in the image. -/
def StringInside (m : Storage) (buffer n a : Nat) : Prop :=
  buffer ≤ a ∧ ∃ k, a + k < buffer + n ∧ m (a + k) = 0

/-- The pointer that the name lookup returns, 0 for NULL. -/
def sectionName (m : Storage) (shdr : Nat) : Nat :=
  let strtab := sectionHeader m shdr (half m (shdr + 50))
  if strtab = 0 then 0 else u32 (shdr + word m (strtab + 16) + word m shdr)

/-- What the print of the name reads lies in the image. -/
def NameInside (m : Storage) (buffer n shdr : Nat) : Prop :=
  let strtab := sectionHeader m shdr (half m (shdr + 50))
  Inside buffer n (shdr, 52) ∧ (strtab ≠ 0 → Inside buffer n (strtab + 16, 4)) ∧
    (sectionName m shdr ≠ 0 → StringInside m buffer n (sectionName m shdr))

/-- The fields of the section header that its type calls for lie in the image,
and so do the contents that are copied. -/
def ContentsInside (debug : Bool) (m : Storage) (hdr n shdr : Nat) : Prop :=
  let addr := word m (shdr + 12)
  let contents := u32 (hdr + word m (shdr + 16))
  let size := word m (shdr + 20)
  if word m (shdr + 4) = shtNobits then Inside hdr n (shdr + 4, 20)
  else if addr = 0 then Inside hdr n (shdr + 4, 12)
  else Inside hdr n (shdr + 4, 20) ∧
    (¬ (debug = true ∧ copyGap addr contents < size) → Inside hdr n (contents, size))

/-- Every section, on the storage that the sections before it leave, has its
header and its contents in the image, and its name when names are printed. -/
def SectionsInside (machine : Machine) (hdr n : Nat) : Nat → Nat → Storage → Prop
  | 0, _, _ => True
  | left + 1, i, m =>
    let shdr := sectionHeader m hdr i
    i < half m (hdr + 48) →
      (machine.debug = true → NameInside m hdr n shdr) ∧
      ContentsInside machine.debug m hdr n shdr ∧
      ∀ next, (loadIndex machine hdr i m).result = .ok next →
        SectionsInside machine hdr n left (i + 1) next

section
variable {m : Storage} {buffer n : Nat}

theorem inside_iff {a k : Nat} (some : 0 < k) :
    Inside buffer n (a, k) ↔ buffer ≤ a ∧ a + k ≤ buffer + n := by
  simp only [Inside]
  omega

theorem exGetElf32Shdr_result (m : Storage) (hdr idx : Nat) :
    (exGetElf32Shdr m hdr idx).result = .ok (sectionHeader m hdr idx) := rfl

theorem exGetElf32Shdr_within (m : Storage) (hdr idx : Nat) :
    (exGetElf32Shdr m hdr idx).Within (Inside buffer n) ↔
      Inside buffer n (hdr + 32, 4) ∧ Inside buffer n (hdr + 46, 2) := by
  simp [exGetElf32Shdr, readWord, readHalf, Traced.within_read_bind]

theorem readString_within_succ (left a : Nat) :
    (readString m (left + 1) a).Within (Inside buffer n) ↔
      Inside buffer n (a, 1) ∧
        (m a ≠ 0 → (readString m left (a + 1)).Within (Inside buffer n)) := by
  rw [readString, Traced.within_read_bind]
  by_cases last : m a = 0
  · simp [last]
  · simp [last]

theorem stringInside_iff (a : Nat) :
    StringInside m buffer n a ↔
      Inside buffer n (a, 1) ∧ (m a ≠ 0 → StringInside m buffer n (a + 1)) := by
  rw [inside_iff (by omega)]
  constructor
  · rintro ⟨low, k, high, ends⟩
    refine ⟨by omega, fun more => ⟨by omega, ?_⟩⟩
    cases k with
    | zero => exact absurd ends more
    | succ k => exact ⟨k, by omega, by rwa [Nat.add_right_comm, Nat.add_assoc]⟩
  · rintro ⟨here, later⟩
    by_cases last : m a = 0
    · exact ⟨here.1, 0, by omega, last⟩
    · obtain ⟨-, k, high, ends⟩ := later last
      exact ⟨here.1, k + 1, by omega, by rwa [Nat.add_comm k 1, ← Nat.add_assoc]⟩

/-- A string is read inside the image exactly when it ends there. -/
theorem readString_within {left a : Nat} (size : n < left) :
    (readString m left a).Within (Inside buffer n) ↔ StringInside m buffer n a := by
  by_cases low : buffer ≤ a
  · have enough : buffer + n - a < left := by omega
    clear size
    induction left generalizing a with
    | zero => omega
    | succ left ih =>
      rw [readString_within_succ, stringInside_iff]
      refine and_congr_right fun here => imp_congr_right fun _ => ?_
      rw [inside_iff (by omega)] at here
      exact ih (by omega) (by omega)
  · obtain ⟨left, rfl⟩ : ∃ k, left = k + 1 := ⟨left - 1, by omega⟩
    rw [readString_within_succ, stringInside_iff, inside_iff (by omega)]
    omega

theorem readString_result {left a k : Nat} (ends : m (a + k) = 0) (enough : k < left) :
    (readString m left a).result = .ok () := by
  induction left generalizing a k with
  | zero => omega
  | succ left ih =>
    rw [readString, Traced.bind_result]
    by_cases last : m a = 0
    · simp [last]
    · cases k with
      | zero => exact absurd ends last
      | succ k =>
        have later : m (a + 1 + k) = 0 := by
          rw [← ends]
          congr 1
          omega
        have rest := ih later (by omega)
        simpa [last] using rest

theorem exGetElf32String_result (m : Storage) (shdr : Nat) :
    (exGetElf32String m shdr (word m shdr)).result = .ok (sectionName m shdr) := by
  by_cases null : sectionHeader m shdr (half m (shdr + 50)) = 0
  · simp [exGetElf32String, exGetElf32StringShdr, readHalf, Traced.bind_result,
      exGetElf32Shdr_result, sectionName, null]
  · simp [exGetElf32String, exGetElf32StringShdr, readHalf, readWord, Traced.bind_result,
      exGetElf32Shdr_result, sectionName, null]

theorem exGetElf32String_within (m : Storage) (shdr : Nat) :
    (exGetElf32String m shdr (word m shdr)).Within (Inside buffer n) ↔
      Inside buffer n (shdr + 50, 2) ∧ Inside buffer n (shdr + 32, 4) ∧
        Inside buffer n (shdr + 46, 2) ∧
        (sectionHeader m shdr (half m (shdr + 50)) ≠ 0 →
          Inside buffer n (sectionHeader m shdr (half m (shdr + 50)) + 16, 4)) := by
  by_cases null : sectionHeader m shdr (half m (shdr + 50)) = 0
  · simp [exGetElf32String, exGetElf32StringShdr, readHalf, Traced.within_bind,
      exGetElf32Shdr_result, exGetElf32Shdr_within, null, Traced.bind_result]
  · simp [exGetElf32String, exGetElf32StringShdr, readHalf, readWord, Traced.within_bind,
      exGetElf32Shdr_result, exGetElf32Shdr_within, null, and_assoc, Traced.bind_result]

theorem printSectionName_within (shdr : Nat) (size : n < 4294967296) :
    (printSectionName m shdr).Within (Inside buffer n) ↔ NameInside m buffer n shdr := by
  have fields : Inside buffer n (shdr, 52) ↔ Inside buffer n (shdr, 4) ∧
      Inside buffer n (shdr + 50, 2) ∧ Inside buffer n (shdr + 32, 4) ∧
      Inside buffer n (shdr + 46, 2) := by
    rw [inside_iff (by omega), inside_iff (by omega), inside_iff (by omega),
      inside_iff (by omega), inside_iff (by omega)]
    omega
  have string : (exGetElf32String m shdr (word m shdr) >>= fun string =>
      if string = 0 then pure () else readString m 4294967296 string).Within (Inside buffer n) ↔
      (exGetElf32String m shdr (word m shdr)).Within (Inside buffer n) ∧
        (sectionName m shdr ≠ 0 → StringInside m buffer n (sectionName m shdr)) := by
    rw [Traced.within_bind, exGetElf32String_result]
    refine and_congr_right fun _ => ?_
    by_cases null : sectionName m shdr = 0
    · simp [null]
    · simp [null, readString_within size]
  rw [printSectionName, readWord, Traced.within_read_bind, string, exGetElf32String_within,
    NameInside, fields]
  simp only [and_assoc]

theorem printSectionName_result {shdr : Nat} (inside : NameInside m buffer n shdr)
    (size : n < 4294967296) : (printSectionName m shdr).result = .ok () := by
  rw [printSectionName, Traced.bind_result, readWord, Traced.read_result, Outcome.ok_bind,
    Traced.bind_result, exGetElf32String_result, Outcome.ok_bind]
  by_cases null : sectionName m shdr = 0
  · simp [null]
  · obtain ⟨low, k, high, ends⟩ := inside.2.2 null
    simpa [null] using readString_result ends (by omega)

theorem printSectionRange_within (shdr : Nat) :
    (printSectionRange m shdr).Within (Inside buffer n) ↔
      Inside buffer n (shdr + 12, 4) ∧ Inside buffer n (shdr + 20, 4) := by
  simp [printSectionRange, readWord, Traced.within_read_bind]

theorem loadNobits_within (machine : Machine) (shdr i : Nat) :
    Inside buffer n (shdr + 4, 4) ∧ (loadNobits machine m shdr i).Within (Inside buffer n) ↔
      Inside buffer n (shdr + 4, 20) := by
  have fields : Inside buffer n (shdr + 4, 4) ∧ Inside buffer n (shdr + 20, 4) ↔
      Inside buffer n (shdr + 4, 20) := by
    simp only [Inside]
    omega
  rw [loadNobits, readWord, Traced.within_read_bind, ← and_assoc, fields]
  refine and_iff_left_of_imp fun inside => ?_
  have field : ∀ k, 4 ≤ k → k ≤ 20 → Inside buffer n (shdr + k, 4) := by
    simp only [Inside] at inside ⊢
    omega
  split
  · exact Traced.within_pure m
  · rw [readWord, Traced.within_read_bind]
    refine ⟨field 8 (by omega) (by omega), ?_⟩
    split
    · rw [Traced.within_bind]
      refine ⟨Traced.within_lift _, fun block _ => ?_⟩
      rw [Traced.within_bind, printSectionRange_within]
      exact ⟨⟨field 12 (by omega) (by omega), field 20 (by omega) (by omega)⟩,
        fun _ _ => Traced.within_pure _⟩
    · exact Traced.within_pure m

theorem copyReading_within (debug : Bool) (dest src len : Nat) :
    (copyReading debug m dest src len).Within (Inside buffer n) ↔
      (¬ (debug = true ∧ copyGap dest src < len) → Inside buffer n (src, len)) := by
  rw [copyReading, Traced.within_bind, Traced.lift_result, keCopyMemory]
  by_cases refused : debug = true ∧ copyGap dest src < len
  · simp [refused, Outcome.check]
  · have allowed : debug = true → ¬ copyGap dest src < len :=
      fun build small => refused ⟨build, small⟩
    rw [Outcome.check_of allowed]
    simp only [Outcome.ok_bind, Outcome.ok.injEq, forall_eq', Traced.within_lift, true_and,
      Traced.within_read, refused, not_false_eq_true, true_imp_iff]

theorem loadContents_within (machine : Machine) (hdr shdr : Nat) :
    Inside buffer n (shdr + 4, 4) ∧
        (loadContents machine m hdr shdr).Within (Inside buffer n) ↔
      if word m (shdr + 12) = 0 then Inside buffer n (shdr + 4, 12)
      else Inside buffer n (shdr + 4, 20) ∧
        (¬ (machine.debug = true ∧
            copyGap (word m (shdr + 12)) (u32 (hdr + word m (shdr + 16))) <
              word m (shdr + 20)) →
          Inside buffer n (u32 (hdr + word m (shdr + 16)), word m (shdr + 20))) := by
  rw [loadContents, readWord, Traced.within_read_bind, ← and_assoc]
  split
  · simp only [Traced.within_pure, and_true, Inside]
    omega
  · have fields : (Inside buffer n (shdr + 4, 4) ∧ Inside buffer n (shdr + 12, 4)) ∧
        Inside buffer n (shdr + 16, 4) ∧ Inside buffer n (shdr + 20, 4) ↔
        Inside buffer n (shdr + 4, 20) := by
      simp only [Inside]
      omega
    rw [readWord, Traced.within_read_bind, readWord, Traced.within_read_bind, ← and_assoc,
      ← and_assoc, and_assoc (b := Inside buffer n (shdr + 16, 4)), fields]
    rw [Traced.within_bind, copyReading_within]
    refine and_congr_right fun inside => and_iff_left_of_imp fun _ copied _ => ?_
    rw [Traced.within_bind, printSectionRange_within]
    refine ⟨?_, fun _ _ => Traced.within_pure copied⟩
    simp only [Inside] at inside ⊢
    omega

theorem loadSection_within (machine : Machine) (hdr shdr i : Nat) :
    (loadSection machine m hdr shdr i).Within (Inside hdr n) ↔
      ContentsInside machine.debug m hdr n shdr := by
  rw [loadSection, readWord, Traced.within_read_bind, ContentsInside]
  split
  · exact loadNobits_within machine shdr i
  · exact loadContents_within machine hdr shdr

theorem loadIndex_within (machine : Machine) (i : Nat) (header : 50 ≤ n)
    (size : n < 4294967296) :
    (loadIndex machine buffer i m).Within (Inside buffer n) ↔
      (machine.debug = true → NameInside m buffer n (sectionHeader m buffer i)) ∧
        ContentsInside machine.debug m buffer n (sectionHeader m buffer i) := by
  have table : Inside buffer n (buffer + 32, 4) ∧ Inside buffer n (buffer + 46, 2) := by
    simp only [Inside]
    omega
  simp only [loadIndex, Traced.within_bind, exGetElf32Shdr_within, exGetElf32Shdr_result, table,
    Outcome.ok.injEq, forall_eq', true_and, and_true]
  by_cases prints : machine.debug = true
  · simp only [prints, if_true, Traced.within_bind, printSectionName_within _ size,
      loadSection_within, true_imp_iff]
    refine and_congr_right fun inside => ?_
    simp [printSectionName_result inside size]
  · simp [prints, loadSection_within]

/-- The loop reads inside the image exactly when every section it comes to lies there. -/
theorem loadSections_within (machine : Machine) (left i : Nat) (header : 50 ≤ n)
    (size : n < 4294967296) :
    (loadSections machine buffer left i m).Within (Inside buffer n) ↔
      SectionsInside machine buffer n left i m := by
  induction left generalizing i m with
  | zero => simp [loadSections, SectionsInside]
  | succ left ih =>
    have count : Inside buffer n (buffer + 48, 2) := by
      simp only [Inside]
      omega
    rw [loadSections, readHalf, Traced.within_read_bind, SectionsInside]
    by_cases more : i < half m (buffer + 48)
    · rw [if_pos more, Traced.within_bind, loadIndex_within machine i header size]
      simp only [count, more, ih, true_and, true_imp_iff, and_assoc]
    · simp [more, count]

end

/-- A computation that does not panic as invalid. -/
def NotInvalid {α : Type} (x : Traced α) : Prop := x.result ≠ .panic "Invalid ELF32 file\r\n"

section
variable {α β : Type}

theorem NotInvalid.bind {x : Traced α} {f : α → Traced β} (first : NotInvalid x)
    (second : ∀ a, NotInvalid (f a)) : NotInvalid (x >>= f) := by
  intro panics
  rw [Traced.bind_result] at panics
  unfold NotInvalid at first
  cases ran : x.result with
  | ok a =>
    rw [ran] at panics
    exact second a panics
  | panic message =>
    rw [ran] at panics
    cases panics
    exact first ran
  | fault =>
    rw [ran] at panics
    cases panics
  | diverge =>
    rw [ran] at panics
    cases panics

theorem notInvalid_pure (a : α) : NotInvalid (pure a : Traced α) := by
  intro panics
  cases panics

theorem notInvalid_read (a k : Nat) (value : α) : NotInvalid (Traced.read a k value) := by
  intro panics
  cases panics

theorem notInvalid_ite {c : Prop} [Decidable c] {x y : Traced α} (first : NotInvalid x)
    (second : NotInvalid y) : NotInvalid (if c then x else y) := by
  split
  · exact first
  · exact second

theorem notInvalid_check {c : Prop} [Decidable c] {message : String} {value : α}
    (other : message ≠ "Invalid ELF32 file\r\n") :
    NotInvalid (Traced.lift (Outcome.check c message >>= fun _ => .ok value)) := by
  intro panics
  by_cases h : c
  · simp [Outcome.check, h] at panics
  · simp [Outcome.check, h] at panics
    exact other panics

theorem exGetElf32Shdr_notInvalid (m : Storage) (hdr idx : Nat) :
    NotInvalid (exGetElf32Shdr m hdr idx) :=
  (notInvalid_read _ _ _).bind fun _ => (notInvalid_read _ _ _).bind fun _ => notInvalid_pure _

theorem readString_notInvalid (m : Storage) (left a : Nat) : NotInvalid (readString m left a) := by
  induction left generalizing a with
  | zero =>
    intro panics
    cases panics
  | succ left ih =>
    exact (notInvalid_read _ _ _).bind fun _ => notInvalid_ite (notInvalid_pure _) (ih _)

theorem printSectionName_notInvalid (m : Storage) (shdr : Nat) :
    NotInvalid (printSectionName m shdr) := by
  refine (notInvalid_read _ _ _).bind fun name => ?_
  have strtab : NotInvalid (exGetElf32StringShdr m shdr) :=
    (notInvalid_read _ _ _).bind fun _ => exGetElf32Shdr_notInvalid _ _ _
  have string : NotInvalid (exGetElf32String m shdr name) :=
    strtab.bind fun _ => notInvalid_ite (notInvalid_pure _)
      ((notInvalid_read _ _ _).bind fun _ => notInvalid_pure _)
  exact string.bind fun _ => notInvalid_ite (notInvalid_pure _) (readString_notInvalid _ _ _)

theorem printSectionRange_notInvalid (m : Storage) (shdr : Nat) :
    NotInvalid (printSectionRange m shdr) :=
  (notInvalid_read _ _ _).bind fun _ => (notInvalid_read _ _ _).bind fun _ => notInvalid_pure _

theorem loadNobits_notInvalid (machine : Machine) (m : Storage) (shdr i : Nat) :
    NotInvalid (loadNobits machine m shdr i) := by
  refine (notInvalid_read _ _ _).bind fun size => notInvalid_ite (notInvalid_pure _) ?_
  refine (notInvalid_read _ _ _).bind fun _ => notInvalid_ite ?_ (notInvalid_pure _)
  have block : NotInvalid (Traced.lift (Mm.mmAllocateZero m (machine.allocated i) size)) :=
    notInvalid_check (by decide)
  exact block.bind fun _ => (printSectionRange_notInvalid _ _).bind fun _ => notInvalid_pure _

theorem loadContents_notInvalid (machine : Machine) (m : Storage) (hdr shdr : Nat) :
    NotInvalid (loadContents machine m hdr shdr) := by
  refine (notInvalid_read _ _ _).bind fun addr => notInvalid_ite (notInvalid_pure _) ?_
  refine (notInvalid_read _ _ _).bind fun offset => (notInvalid_read _ _ _).bind fun size => ?_
  have copy : NotInvalid (copyReading machine.debug m addr (u32 (hdr + offset)) size) :=
    NotInvalid.bind (notInvalid_check (by decide)) fun _ => notInvalid_read _ _ _
  exact copy.bind fun _ => (printSectionRange_notInvalid _ _).bind fun _ => notInvalid_pure _

theorem loadSections_notInvalid (machine : Machine) (hdr left i : Nat) (m : Storage) :
    NotInvalid (loadSections machine hdr left i m) := by
  induction left generalizing i m with
  | zero =>
    intro panics
    cases panics
  | succ left ih =>
    refine (notInvalid_read _ _ _).bind fun _ => notInvalid_ite ?_ (notInvalid_pure _)
    refine NotInvalid.bind ?_ fun next => ih _ next
    refine (exGetElf32Shdr_notInvalid _ _ _).bind fun shdr => ?_
    have section_ : NotInvalid (loadSection machine m hdr shdr i) :=
      (notInvalid_read _ _ _).bind fun _ =>
        notInvalid_ite (loadNobits_notInvalid _ _ _ _) (loadContents_notInvalid _ _ _ _)
    split
    · exact (printSectionName_notInvalid m shdr).bind fun _ => section_
    · exact section_

end

theorem loadSections_succ_eq (machine : Machine) (hdr : Nat) {left i : Nat} (m : Storage)
    (enough : 65535 ≤ left + i) :
    loadSections machine hdr (left + 2) i m = loadSections machine hdr (left + 1) i m := by
  induction left generalizing i m with
  | zero =>
    have done : ¬ i < half m (hdr + 48) := by
      have range := half_lt m (hdr + 48)
      omega
    rw [loadSections, loadSections]
    exact Traced.read_bind_congr (by rw [if_neg done, if_neg done])
  | succ left ih =>
    have later : ∀ next, loadSections machine hdr (left + 2) (i + 1) next =
        loadSections machine hdr (left + 1) (i + 1) next := fun next => ih next (by omega)
    rw [loadSections, loadSections]
    simp only [later]

/-- The iterations that are given are enough: more of them change nothing. -/
theorem loadSections_enough (machine : Machine) (hdr more : Nat) (m : Storage) :
    loadSections machine hdr (65536 + more) 0 m = loadSections machine hdr 65536 0 m := by
  induction more with
  | zero => rfl
  | succ more ih =>
    have next : loadSections machine hdr (65535 + more + 2) 0 m =
        loadSections machine hdr (65535 + more + 1) 0 m :=
      loadSections_succ_eq machine hdr m (by omega)
    have length : 65535 + more + 2 = 65536 + (more + 1) := by omega
    have length' : 65535 + more + 1 = 65536 + more := by omega
    rw [length, length'] at next
    rw [next, ih]

theorem exCheckElf32IsValid_within (m : Storage) (buffer n : Nat) :
    (exCheckElf32IsValid m buffer).Within (Inside buffer n) ↔ Inside buffer n (buffer, 4) := by
  rw [exCheckElf32IsValid, Traced.within_read_bind]
  refine and_iff_left_of_imp fun _ => ?_
  split
  · exact Traced.within_pure _
  · exact Traced.within_pure _

theorem exCheckElf32IsValid_result (m : Storage) (buffer : Nat) :
    (exCheckElf32IsValid m buffer).result =
      .ok (if keCompareMemory (m.bytes buffer 4) elfMagic ≠ 0 then -1 else 0) := by
  rw [exCheckElf32IsValid, Traced.bind_result]
  by_cases valid : keCompareMemory (m.bytes buffer 4) elfMagic = 0
  · simp [valid]
  · simp [valid]

theorem exLoadElfFromBuffer_notInvalid (machine : Machine) {m : Storage} {buffer : Nat} (n : Nat)
    (valid : keCompareMemory (m.bytes buffer 4) elfMagic = 0) :
    NotInvalid (exLoadElfFromBuffer machine m buffer n) := by
  intro panics
  rw [exLoadElfFromBuffer, Traced.bind_result, exCheckElf32IsValid_result,
    if_neg (not_not_intro valid), Outcome.ok_bind, Traced.bind_result, Traced.lift_result,
    Outcome.check_of rfl, Outcome.ok_bind] at panics
  exact (loadSections_notInvalid _ _ _ _ _).bind (fun _ => notInvalid_read _ _ _) panics

theorem exLoadElfFromBuffer_within (machine : Machine) {m : Storage} {buffer n : Nat}
    (valid : keCompareMemory (m.bytes buffer 4) elfMagic = 0) :
    (exLoadElfFromBuffer machine m buffer n).Within (Inside buffer n) ↔
      50 ≤ n ∧ (loadSections machine buffer 65536 0 m).Within (Inside buffer n) := by
  simp only [exLoadElfFromBuffer, Traced.within_bind, exCheckElf32IsValid_within,
    exCheckElf32IsValid_result, valid, readWord]
  simp only [ne_eq, not_true_eq_false, if_false, Outcome.ok.injEq, forall_eq', Traced.lift_result,
    Traced.within_lift, Outcome.check_eq_ok, true_and, forall_const,
    Traced.within_read]
  constructor
  · rintro ⟨-, loads, -⟩
    refine ⟨?_, loads⟩
    have count := (Traced.within_read_bind _ _ _ _).mp loads
    have room := (inside_iff (by omega)).mp count.1
    omega
  · rintro ⟨room, loads⟩
    have field : ∀ k, k + 4 ≤ 50 → Inside buffer n (buffer + k, 4) := by
      simp only [Inside]
      omega
    exact ⟨field 0 (by omega), loads, fun _ _ => field 24 (by omega)⟩

/-- The loader panics as invalid or reads nothing outside the image exactly
when the signature is wrong, or the image has room for the fields of its header
and every section lies in it. No iteration of the section loop is left out. -/
theorem exLoadElfFromBuffer_inside_iff (machine : Machine) (m : Storage) (buffer n : Nat)
    (size : n < 4294967296) :
    (StaysInside buffer n (exLoadElfFromBuffer machine m buffer n) ↔
      keCompareMemory (m.bytes buffer 4) elfMagic ≠ 0 ∨
        50 ≤ n ∧ SectionsInside machine buffer n 65536 0 m) ∧
    ∀ more, loadSections machine buffer (65536 + more) 0 m =
      loadSections machine buffer 65536 0 m := by
  refine ⟨?_, fun more => loadSections_enough machine buffer more m⟩
  by_cases valid : keCompareMemory (m.bytes buffer 4) elfMagic = 0
  · have within : StaysInside buffer n (exLoadElfFromBuffer machine m buffer n) ↔
        (exLoadElfFromBuffer machine m buffer n).Within (Inside buffer n) :=
      or_iff_right (exLoadElfFromBuffer_notInvalid machine n valid)
    rw [within, exLoadElfFromBuffer_within machine valid, or_iff_right (not_not_intro valid)]
    exact and_congr_right fun room => loadSections_within machine 65536 0 room size
  · have panics : (exLoadElfFromBuffer machine m buffer n).result =
        .panic "Invalid ELF32 file\r\n" := by
      rw [exLoadElfFromBuffer, Traced.bind_result, exCheckElf32IsValid_result]
      simp [valid, Outcome.check, Traced.bind_result]
    exact iff_of_true (Or.inl panics) (Or.inl valid)

/-- Storage that holds an image of one header at an address, with this number
of sections behind the header's end. -/
def headerAt (buffer : Nat) (sections : UInt8) : Storage :=
  ((Storage.store (fun _ => 0) buffer elfMagic).write (buffer + 35) 52).write (buffer + 49) sections

/-- At 4096 the image of a section that is copied: 4 bytes for address 8192. -/
def oneSection : Storage :=
  ((((((headerAt 4096 1).write 4143 40).setWord 4152 1).setWord 4160 8192).setWord 4164
    92).setWord 4168 4).store 4188 [1, 2, 3, 4]

/-- A release build that is given no storage. -/
def release : Machine := ⟨false, fun _ => 0⟩

theorem oneSection_loaded : (loadIndex release 4096 0 oneSection).result =
    .ok (oneSection.copyUp 8192 4188 4) := by
  rfl

/-- The image of a header and a section with its contents is loaded from inside. -/
theorem header_and_section_inside :
    StaysInside 4096 96 (exLoadElfFromBuffer release oneSection 4096 96) := by
  have contents : ContentsInside false oneSection 4096 96 (sectionHeader oneSection 4096 0) := by
    have copied : word oneSection (sectionHeader oneSection 4096 0 + 4) ≠ shtNobits := by decide
    have named : word oneSection (sectionHeader oneSection 4096 0 + 12) ≠ 0 := by decide
    rw [ContentsInside, if_neg copied, if_neg named]
    exact ⟨by decide, fun _ => by decide⟩
  refine (exLoadElfFromBuffer_inside_iff release oneSection 4096 96 (by decide)).1.mpr
    (Or.inr ⟨by decide, fun _ => ⟨fun debug => absurd debug (by decide), contents, ?_⟩⟩)
  intro next ran
  obtain rfl := Outcome.ok.inj (oneSection_loaded.symm.trans ran)
  exact fun more => absurd more (by decide)

/-- The section header that the image announces is read behind its end. -/
theorem missing_section_read :
    ¬ StaysInside 4096 52 (exLoadElfFromBuffer release (headerAt 4096 1) 4096 52) := by
  decide

end Exec
