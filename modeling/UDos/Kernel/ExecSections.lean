import UDos.Kernel.Exec

/-!
# The sections of a loaded image

The section loop copies some sections to the addresses they name and lets
`MmAllocateZero` place others, one after the other and without reserving the
addresses of the first kind. It loads an image intact exactly when no block
that it is given is on such an address, and none of the addresses that it
writes into the image is part of what is copied afterwards.
-/

namespace Exec

open KernelMemory Storage

section
variable (m : Storage) (hdr i : Nat)

/-- The address that the header of section i names. -/
def sectionAddr : Nat := word m (sectionHeader m hdr i + 12)

/-- Where the contents of section i are in the image. -/
def sectionContents : Nat := u32 (hdr + word m (sectionHeader m hdr i + 16))

def sectionSize : Nat := word m (sectionHeader m hdr i + 20)

/-- Section i is in the file, and is copied to the address it names. -/
def FileBacked : Prop :=
  i < half m (hdr + 48) ∧ word m (sectionHeader m hdr i + 4) ≠ shtNobits ∧
    sectionAddr m hdr i ≠ 0

/-- Section i is not in the file, and a block is allocated for it. -/
def NeedsBlock : Prop :=
  i < half m (hdr + 48) ∧ word m (sectionHeader m hdr i + 4) = shtNobits ∧
    sectionSize m hdr i ≠ 0 ∧ word m (sectionHeader m hdr i + 8) &&& shfAlloc ≠ 0

instance : Decidable (FileBacked m hdr i) := inferInstanceAs (Decidable (_ ∧ _ ∧ _))

instance : Decidable (NeedsBlock m hdr i) := inferInstanceAs (Decidable (_ ∧ _ ∧ _ ∧ _))

end

/-- Two ranges have no address in common. -/
def Apart (r s : Nat × Nat) : Prop := r.2 = 0 ∨ s.2 = 0 ∨ r.1 + r.2 ≤ s.1 ∨ s.1 + s.2 ≤ r.1

instance (r s : Nat × Nat) : Decidable (Apart r s) := inferInstanceAs (Decidable (_ ∨ _ ∨ _ ∨ _))

theorem Apart.symm {r s : Nat × Nat} (apart : Apart r s) : Apart s r := by
  simp only [Apart] at apart ⊢
  omega

theorem Apart.outside {r s : Nat × Nat} (apart : Apart r s) {t : Nat} (inside : t < r.2) :
    r.1 + t < s.1 ∨ s.1 + s.2 ≤ r.1 + t := by
  simp only [Apart] at apart
  omega

/-- An image of this length whose headers do not overlap and lie in it, with the
contents of its sections. The addresses that the sections name are disjoint,
and not in the image; so are the blocks that are allocated for the others,
since the image and the blocks are live when a block is placed. -/
structure Image (allocated : Nat → Nat) (m : Storage) (hdr len : Nat) : Prop where
  space : hdr + len ≤ 4294967296
  header : 52 ≤ len
  headers : ∀ i, i < half m (hdr + 48) →
    hdr + 52 ≤ sectionHeader m hdr i ∧ sectionHeader m hdr i + 40 ≤ hdr + len
  headersApart : ∀ i j, i < j → j < half m (hdr + 48) →
    sectionHeader m hdr i + 40 ≤ sectionHeader m hdr j ∨
      sectionHeader m hdr j + 40 ≤ sectionHeader m hdr i
  contents : ∀ i, FileBacked m hdr i →
    Inside hdr len (sectionContents m hdr i, sectionSize m hdr i)
  named : ∀ i, FileBacked m hdr i →
    sectionAddr m hdr i + sectionSize m hdr i ≤ 4294967296 ∧
      Apart (sectionAddr m hdr i, sectionSize m hdr i) (hdr, len)
  namedApart : ∀ i j, FileBacked m hdr i → FileBacked m hdr j → i ≠ j →
    Apart (sectionAddr m hdr i, sectionSize m hdr i) (sectionAddr m hdr j, sectionSize m hdr j)
  placed : ∀ i, NeedsBlock m hdr i → allocated i ≠ 0 ∧
    allocated i + sectionSize m hdr i ≤ 4294967296 ∧
      Apart (allocated i, sectionSize m hdr i) (hdr, len)
  placedApart : ∀ i j, NeedsBlock m hdr i → NeedsBlock m hdr j → i ≠ j →
    Apart (allocated i, sectionSize m hdr i) (allocated j, sectionSize m hdr j)

/-- Where section i is after the loop. -/
def sectionRange (allocated : Nat → Nat) (m : Storage) (hdr i : Nat) : Nat × Nat :=
  (if NeedsBlock m hdr i then allocated i else sectionAddr m hdr i, sectionSize m hdr i)

/-- Every section that is in the file is at its address, every other one that
is allocated has a zeroed block, and no two of them overlap. -/
structure Survives (allocated : Nat → Nat) (m : Storage) (hdr : Nat) (m' : Storage) : Prop where
  copied : ∀ i, FileBacked m hdr i → m'.bytes (sectionAddr m hdr i) (sectionSize m hdr i) =
    m.bytes (sectionContents m hdr i) (sectionSize m hdr i)
  zeroed : ∀ i, NeedsBlock m hdr i → word m' (sectionHeader m hdr i + 12) = allocated i ∧
    ∀ t, t < sectionSize m hdr i → m' (allocated i + t) = 0
  apart : ∀ i j, FileBacked m hdr i ∨ NeedsBlock m hdr i →
    FileBacked m hdr j ∨ NeedsBlock m hdr j → i ≠ j →
      Apart (sectionRange allocated m hdr i) (sectionRange allocated m hdr j)

/-- No block is on an address that a section names, and no section is copied
after an address was written into its contents, other than the one there. -/
structure Unharmed (allocated : Nat → Nat) (m : Storage) (hdr : Nat) : Prop where
  clear : ∀ i j, NeedsBlock m hdr i → FileBacked m hdr j →
    Apart (allocated i, sectionSize m hdr i) (sectionAddr m hdr j, sectionSize m hdr j)
  unwritten : ∀ i j, i < j → NeedsBlock m hdr i → FileBacked m hdr j →
    ∀ t, t < sectionSize m hdr j →
      m.setWord (sectionHeader m hdr i + 12) (allocated i) (sectionContents m hdr j + t) =
        m (sectionContents m hdr j + t)

/-- What loading section i does to the storage, when its header is read as in
the image. -/
def withSection (allocated : Nat → Nat) (image : Storage) (hdr i : Nat) (m : Storage) : Storage :=
  if NeedsBlock image hdr i then
    (m.fill (allocated i) 0 (sectionSize image hdr i)).setWord (sectionHeader image hdr i + 12)
      (u32 (allocated i))
  else if FileBacked image hdr i then
    m.copyUp (sectionAddr image hdr i) (sectionContents image hdr i) (sectionSize image hdr i)
  else m

/-- Storage in which the header of the image and that of section i are as in the image. -/
structure SameHeaders (image m : Storage) (hdr i : Nat) : Prop where
  table : word m (hdr + 32) = word image (hdr + 32)
  entry : half m (hdr + 46) = half image (hdr + 46)
  fields : ∀ k, 4 ≤ k → k ≤ 20 →
    word m (sectionHeader image hdr i + k) = word image (sectionHeader image hdr i + k)

section
variable {image m m' : Storage} {hdr i : Nat} {machine : Machine}

theorem SameHeaders.sectionHeader_eq (same : SameHeaders image m hdr i) :
    sectionHeader m hdr i = sectionHeader image hdr i := by
  rw [sectionHeader, sectionHeader, same.table, same.entry]

theorem loadNobits_result (shdr : Nat) :
    (loadNobits machine m shdr i).result =
      if word m (shdr + 20) = 0 then .ok m
      else if word m (shdr + 8) &&& shfAlloc ≠ 0 then
        Outcome.check (machine.allocated i ≠ 0) "Out of memory\r\n" >>= fun _ =>
          .ok ((m.fill (machine.allocated i) 0 (word m (shdr + 20))).setWord (shdr + 12)
            (u32 (machine.allocated i)))
      else .ok m := by
  rw [loadNobits, Traced.bind_result, readWord, Traced.read_result, Outcome.ok_bind]
  split
  · rfl
  · rw [Traced.bind_result, readWord, Traced.read_result, Outcome.ok_bind]
    split
    · rw [Traced.bind_result, Traced.lift_result, Mm.mmAllocateZero]
      by_cases placed : machine.allocated i ≠ 0
      · rw [Outcome.check_of placed]
        rfl
      · simp [Outcome.check, placed]
    · rfl

theorem loadContents_result (shdr : Nat) :
    (loadContents machine m hdr shdr).result =
      if word m (shdr + 12) = 0 then .ok m
      else keCopyMemory machine.debug m (word m (shdr + 12)) (u32 (hdr + word m (shdr + 16)))
        (word m (shdr + 20)) >>= fun copied => .ok copied.2 := by
  rw [loadContents, Traced.bind_result, readWord, Traced.read_result, Outcome.ok_bind]
  split
  · rfl
  · rw [Traced.bind_result, readWord, Traced.read_result, Outcome.ok_bind, Traced.bind_result,
      readWord, Traced.read_result, Outcome.ok_bind, Traced.bind_result, copyReading,
      Traced.bind_result, Traced.lift_result]
    cases keCopyMemory machine.debug m (word m (shdr + 12)) (u32 (hdr + word m (shdr + 16)))
      (word m (shdr + 20)) with
    | ok copied => rfl
    | panic message => rfl
    | fault => rfl
    | diverge => rfl

theorem keCopyMemory_storage {debug : Bool} {dest src n : Nat} {done : Nat × Storage}
    (copied : keCopyMemory debug m dest src n = .ok done) : done.2 = m.copyUp dest src n := by
  obtain ⟨_, _, same⟩ := Outcome.bind_eq_ok.mp copied
  cases same
  rfl

/-- A section that is loaded is loaded as the header in the image says. -/
theorem loadSection_effect (same : SameHeaders image m hdr i) (below : i < half image (hdr + 48))
    (loaded : (loadSection machine m hdr (sectionHeader image hdr i) i).result = .ok m') :
    m' = withSection machine.allocated image hdr i m := by
  have fields := same.fields
  rw [loadSection, Traced.bind_result, readWord, Traced.read_result, Outcome.ok_bind,
    fields 4 (by omega) (by omega)] at loaded
  rw [withSection]
  by_cases nobits : word image (sectionHeader image hdr i + 4) = shtNobits
  · have notFile : ¬ FileBacked image hdr i := fun file => file.2.1 nobits
    rw [if_pos nobits, loadNobits_result, fields 20 (by omega) (by omega),
      fields 8 (by omega) (by omega)] at loaded
    by_cases needs : NeedsBlock image hdr i
    · have some : word image (sectionHeader image hdr i + 20) ≠ 0 := needs.2.2.1
      rw [if_neg some, if_pos needs.2.2.2] at loaded
      obtain ⟨_, _, done⟩ := Outcome.bind_eq_ok.mp loaded
      rw [if_pos needs]
      exact (Outcome.ok.inj done).symm
    · rw [if_neg needs, if_neg notFile]
      by_cases empty : word image (sectionHeader image hdr i + 20) = 0
      · rw [if_pos empty] at loaded
        exact (Outcome.ok.inj loaded).symm
      · have free : ¬ word image (sectionHeader image hdr i + 8) &&& shfAlloc ≠ 0 :=
          fun alloc => needs ⟨below, nobits, empty, alloc⟩
        rw [if_neg empty, if_neg free] at loaded
        exact (Outcome.ok.inj loaded).symm
  · have notBlock : ¬ NeedsBlock image hdr i := fun needs => nobits needs.2.1
    rw [if_neg nobits, loadContents_result, fields 12 (by omega) (by omega),
      fields 16 (by omega) (by omega), fields 20 (by omega) (by omega)] at loaded
    rw [if_neg notBlock]
    by_cases named : word image (sectionHeader image hdr i + 12) = 0
    · have notFile : ¬ FileBacked image hdr i := fun file => file.2.2 named
      rw [if_pos named] at loaded
      rw [if_neg notFile]
      exact (Outcome.ok.inj loaded).symm
    · rw [if_neg named] at loaded
      obtain ⟨copied, ran, done⟩ := Outcome.bind_eq_ok.mp loaded
      rw [if_pos ⟨below, nobits, named⟩, ← Outcome.ok.inj done, keCopyMemory_storage ran]
      rfl

/-- In a release build every section is loaded, when its block is not NULL. -/
theorem loadSection_returns {allocated : Nat → Nat} (same : SameHeaders image m hdr i)
    (below : i < half image (hdr + 48)) (placed : NeedsBlock image hdr i → allocated i ≠ 0) :
    ∃ m', (loadSection ⟨false, allocated⟩ m hdr (sectionHeader image hdr i) i).result = .ok m' := by
  have fields := same.fields
  rw [loadSection, Traced.bind_result, readWord, Traced.read_result, Outcome.ok_bind,
    fields 4 (by omega) (by omega)]
  by_cases nobits : word image (sectionHeader image hdr i + 4) = shtNobits
  · rw [if_pos nobits, loadNobits_result, fields 20 (by omega) (by omega),
      fields 8 (by omega) (by omega)]
    by_cases empty : word image (sectionHeader image hdr i + 20) = 0
    · rw [if_pos empty]
      exact ⟨m, rfl⟩
    · rw [if_neg empty]
      by_cases alloc : word image (sectionHeader image hdr i + 8) &&& shfAlloc ≠ 0
      · rw [if_pos alloc, Outcome.check_of (placed ⟨below, nobits, empty, alloc⟩)]
        exact ⟨_, rfl⟩
      · rw [if_neg alloc]
        exact ⟨m, rfl⟩
  · rw [if_neg nobits, loadContents_result]
    split
    · exact ⟨m, rfl⟩
    · rw [keCopyMemory, Outcome.check_of (fun debug => absurd debug Bool.false_ne_true)]
      exact ⟨_, rfl⟩

theorem loadIndex_effect (same : SameHeaders image m hdr i) (below : i < half image (hdr + 48))
    (loaded : (loadIndex machine hdr i m).result = .ok m') :
    m' = withSection machine.allocated image hdr i m := by
  rw [loadIndex, Traced.bind_result, exGetElf32Shdr_result, Outcome.ok_bind,
    same.sectionHeader_eq] at loaded
  by_cases debug : machine.debug = true
  · rw [if_pos debug, Traced.bind_result] at loaded
    obtain ⟨_, _, loaded⟩ := Outcome.bind_eq_ok.mp loaded
    exact loadSection_effect same below loaded
  · rw [if_neg debug] at loaded
    exact loadSection_effect same below loaded

theorem loadIndex_returns {allocated : Nat → Nat} (same : SameHeaders image m hdr i)
    (below : i < half image (hdr + 48)) (placed : NeedsBlock image hdr i → allocated i ≠ 0) :
    (loadIndex ⟨false, allocated⟩ hdr i m).result = .ok (withSection allocated image hdr i m) := by
  obtain ⟨m', loaded⟩ := loadSection_returns same below placed
  rw [← loadSection_effect same below loaded, loadIndex, Traced.bind_result,
    exGetElf32Shdr_result, Outcome.ok_bind, same.sectionHeader_eq]
  exact loaded

end

/-- The storage after the sections before index k. -/
def loadedTo (allocated : Nat → Nat) (image : Storage) (hdr : Nat) : Nat → Storage
  | 0 => image
  | k + 1 => withSection allocated image hdr k (loadedTo allocated image hdr k)

/-- The image after the addresses of the blocks before index k were written into it. -/
def imageTo (allocated : Nat → Nat) (image : Storage) (hdr : Nat) : Nat → Storage
  | 0 => image
  | k + 1 =>
    if NeedsBlock image hdr k then
      (imageTo allocated image hdr k).setWord (sectionHeader image hdr k + 12) (allocated k)
    else imageTo allocated image hdr k

section
variable {allocated : Nat → Nat} {m : Storage} {hdr len : Nat}

theorem Image.placed_u32 (image : Image allocated m hdr len) {i : Nat} (needs : NeedsBlock m hdr i) :
    u32 (allocated i) = allocated i := by
  have room := (image.placed i needs).2.1
  have some := needs.2.2.1
  exact u32_eq_self (by omega)

theorem imageTo_outside {a k : Nat} (outside : ∀ i, i < k → NeedsBlock m hdr i →
    a < sectionHeader m hdr i + 12 ∨ sectionHeader m hdr i + 16 ≤ a) :
    imageTo allocated m hdr k a = m a := by
  induction k with
  | zero => rfl
  | succ k ih =>
    have before := ih fun i hi => outside i (Nat.lt_succ_of_lt hi)
    rw [imageTo]
    split
    · next needs =>
      rw [setWord_outside _ (outside k (Nat.lt_succ_self k) needs), before]
    · exact before

/-- Each address is written once, and not over another one. -/
theorem Image.imageTo_inside (image : Image allocated m hdr len) {a i k : Nat} (before : i < k)
    (below : k ≤ half m (hdr + 48)) (needs : NeedsBlock m hdr i)
    (inside : sectionHeader m hdr i + 12 ≤ a ∧ a < sectionHeader m hdr i + 16) :
    imageTo allocated m hdr k a = m.setWord (sectionHeader m hdr i + 12) (allocated i) a := by
  induction k with
  | zero => omega
  | succ k ih =>
    rw [imageTo]
    by_cases last : i = k
    · subst last
      rw [if_pos needs]
      refine setWord_congr (imageTo_outside fun j hj _ => ?_)
      have apart := image.headersApart j i hj (by omega)
      omega
    · have earlier := ih (by omega) (by omega)
      split
      · rw [setWord_outside, earlier]
        have apart := image.headersApart i k (by omega) (by omega)
        omega
      · exact earlier

theorem Image.headerField (image : Image allocated m hdr len) {a k : Nat}
    (header : hdr ≤ a ∧ a < hdr + 52) (below : k ≤ half m (hdr + 48)) :
    imageTo allocated m hdr k a = m a := by
  refine imageTo_outside fun i hi _ => Or.inl ?_
  have place := image.headers i (by omega)
  omega

theorem Image.sectionField (image : Image allocated m hdr len) {a k : Nat}
    (below : k < half m (hdr + 48))
    (field : sectionHeader m hdr k ≤ a ∧ a < sectionHeader m hdr k + 40) :
    imageTo allocated m hdr k a = m a := by
  refine imageTo_outside fun i hi _ => ?_
  have apart := image.headersApart i k hi below
  omega

theorem withSection_needs {i : Nat} (image : Image allocated m hdr len) (needs : NeedsBlock m hdr i)
    (s : Storage) : withSection allocated m hdr i s =
      (s.fill (allocated i) 0 (sectionSize m hdr i)).setWord (sectionHeader m hdr i + 12)
        (allocated i) := by
  rw [withSection, if_pos needs, image.placed_u32 needs]

theorem FileBacked.notNeeds {i : Nat} (file : FileBacked m hdr i) : ¬ NeedsBlock m hdr i :=
  fun needs => file.2.1 needs.2.1

theorem withSection_file {i : Nat} (file : FileBacked m hdr i) (s : Storage) :
    withSection allocated m hdr i s =
      s.copyUp (sectionAddr m hdr i) (sectionContents m hdr i) (sectionSize m hdr i) := by
  rw [withSection, if_neg file.notNeeds, if_pos file]

theorem Image.withSection_outside (image : Image allocated m hdr len) {i x : Nat} (s : Storage)
    (file : FileBacked m hdr i →
      x < sectionAddr m hdr i ∨ sectionAddr m hdr i + sectionSize m hdr i ≤ x)
    (block : NeedsBlock m hdr i → (x < allocated i ∨ allocated i + sectionSize m hdr i ≤ x) ∧
      (x < sectionHeader m hdr i + 12 ∨ sectionHeader m hdr i + 16 ≤ x)) :
    withSection allocated m hdr i s x = s x := by
  by_cases needs : NeedsBlock m hdr i
  · obtain ⟨outside, field⟩ := block needs
    rw [withSection_needs image needs, setWord_outside _ (by omega), fill_outside _ outside]
  · by_cases backed : FileBacked m hdr i
    · rw [withSection_file backed, copyUp_outside _ (file backed)]
    · rw [withSection, if_neg needs, if_neg backed]

/-- In the image, loading changes the addresses of the blocks and nothing else. -/
theorem Image.loadedTo_image (image : Image allocated m hdr len) {a k : Nat}
    (inImage : hdr ≤ a ∧ a < hdr + len) :
    loadedTo allocated m hdr k a = imageTo allocated m hdr k a := by
  induction k with
  | zero => rfl
  | succ k ih =>
    rw [loadedTo, imageTo]
    by_cases needs : NeedsBlock m hdr k
    · have apart := (image.placed k needs).2.2
      have some := needs.2.2.1
      have outside : a < allocated k ∨ allocated k + sectionSize m hdr k ≤ a := by
        simp only [Apart] at apart
        omega
      rw [withSection_needs image needs, if_pos needs]
      refine setWord_congr ?_
      rw [fill_outside _ outside, ih]
    · rw [if_neg needs, image.withSection_outside, ih]
      · intro file
        have apart := (image.named k file).2
        simp only [Apart] at apart
        omega
      · exact fun needs' => absurd needs' needs

theorem Image.sameHeaders (image : Image allocated m hdr len) {k : Nat}
    (below : k < half m (hdr + 48)) : SameHeaders m (loadedTo allocated m hdr k) hdr k := by
  have header := image.header
  have place := image.headers k below
  have first : ∀ a, hdr ≤ a → a < hdr + 52 → loadedTo allocated m hdr k a = m a := by
    intro a low high
    rw [image.loadedTo_image (by omega), image.headerField ⟨low, high⟩ (by omega)]
  constructor
  · exact word_congr fun i hi => first _ (by omega) (by omega)
  · rw [half, half, first _ (by omega) (by omega), first _ (by omega) (by omega)]
  · intro k' low high
    refine word_congr fun i hi => ?_
    rw [image.loadedTo_image (by omega), image.sectionField below (by omega)]

theorem Image.sameCount (image : Image allocated m hdr len) {k : Nat}
    (below : k ≤ half m (hdr + 48)) :
    half (loadedTo allocated m hdr k) (hdr + 48) = half m (hdr + 48) := by
  have header := image.header
  have first : ∀ a, hdr ≤ a → a < hdr + 52 → loadedTo allocated m hdr k a = m a := by
    intro a low high
    rw [image.loadedTo_image (by omega), image.headerField ⟨low, high⟩ below]
  rw [half, half, first _ (by omega) (by omega), first _ (by omega) (by omega)]

/-- Where the loop ends, every section was loaded. -/
theorem Image.loadSections_effect (image : Image allocated m hdr len) (debug : Bool) {left k : Nat}
    {m' : Storage} (below : k ≤ half m (hdr + 48))
    (ran : (loadSections ⟨debug, allocated⟩ hdr left k (loadedTo allocated m hdr k)).result =
      .ok m') : m' = loadedTo allocated m hdr (half m (hdr + 48)) := by
  induction left generalizing k with
  | zero => cases ran
  | succ left ih =>
    rw [loadSections, Traced.bind_result, readHalf, Traced.read_result, Outcome.ok_bind,
      image.sameCount below] at ran
    by_cases more : k < half m (hdr + 48)
    · rw [if_pos more, Traced.bind_result] at ran
      obtain ⟨next, loaded, rest⟩ := Outcome.bind_eq_ok.mp ran
      have effect := loadIndex_effect (image.sameHeaders more) more loaded
      rw [effect] at rest
      exact ih more rest
    · rw [if_neg more] at ran
      have last : k = half m (hdr + 48) := by omega
      rw [← last]
      exact (Outcome.ok.inj ran).symm

/-- In a release build the loop ends. -/
theorem Image.loadSections_returns (image : Image allocated m hdr len) {left k : Nat}
    (below : k ≤ half m (hdr + 48)) (enough : half m (hdr + 48) < left + k) :
    (loadSections ⟨false, allocated⟩ hdr left k (loadedTo allocated m hdr k)).result =
      .ok (loadedTo allocated m hdr (half m (hdr + 48))) := by
  induction left generalizing k with
  | zero => omega
  | succ left ih =>
    rw [loadSections, Traced.bind_result, readHalf, Traced.read_result, Outcome.ok_bind,
      image.sameCount below]
    by_cases more : k < half m (hdr + 48)
    · have loaded := loadIndex_returns (image.sameHeaders more) more
        fun needs => (image.placed k needs).1
      rw [if_pos more, Traced.bind_result, loaded]
      exact ih more (by omega)
    · have last : k = half m (hdr + 48) := by omega
      rw [if_neg more, last]
      rfl

/-- What a section put somewhere stays there, if no later one is put over it. -/
theorem Image.loadedTo_stays (image : Image allocated m hdr len) {i k x : Nat} (le : i ≤ k)
    (file : ∀ j, i ≤ j → j < k → FileBacked m hdr j →
      x < sectionAddr m hdr j ∨ sectionAddr m hdr j + sectionSize m hdr j ≤ x)
    (block : ∀ j, i ≤ j → j < k → NeedsBlock m hdr j →
      (x < allocated j ∨ allocated j + sectionSize m hdr j ≤ x) ∧
        (x < sectionHeader m hdr j + 12 ∨ sectionHeader m hdr j + 16 ≤ x)) :
    loadedTo allocated m hdr k x = loadedTo allocated m hdr i x := by
  induction k with
  | zero =>
    obtain rfl : i = 0 := by omega
    rfl
  | succ k ih =>
    by_cases last : i = k + 1
    · rw [last]
    · rw [loadedTo, image.withSection_outside _ (file k (by omega) (by omega))
        (block k (by omega) (by omega))]
      exact ih (by omega) (fun j low high => file j low (by omega))
        fun j low high => block j low (by omega)

theorem Image.field_outside (image : Image allocated m hdr len) {i x : Nat}
    (below : i < half m (hdr + 48)) (outside : x < hdr ∨ hdr + len ≤ x) :
    x < sectionHeader m hdr i + 12 ∨ sectionHeader m hdr i + 16 ≤ x := by
  have place := image.headers i below
  omega

/-- At the address of a section are its contents as they were when its turn came. -/
theorem Image.copied (image : Image allocated m hdr len) {j t : Nat} (file : FileBacked m hdr j)
    (clear : ∀ i, NeedsBlock m hdr i →
      Apart (allocated i, sectionSize m hdr i) (sectionAddr m hdr j, sectionSize m hdr j))
    (inside : t < sectionSize m hdr j) :
    loadedTo allocated m hdr (half m (hdr + 48)) (sectionAddr m hdr j + t) =
      imageTo allocated m hdr j (sectionContents m hdr j + t) := by
  have apart := (image.named j file).2
  have contents := image.contents j file
  simp only [Inside] at contents
  have stays : loadedTo allocated m hdr (half m (hdr + 48)) (sectionAddr m hdr j + t) =
      loadedTo allocated m hdr (j + 1) (sectionAddr m hdr j + t) := by
    refine image.loadedTo_stays file.1 (fun k low _ file' => ?_) fun k _ _ needs => ⟨?_, ?_⟩
    · exact (image.namedApart j k file file' (by omega)).outside inside
    · exact (clear k needs).symm.outside inside
    · exact image.field_outside needs.1 (apart.outside inside)
  have safe : sectionAddr m hdr j ≤ sectionContents m hdr j ∨
      sectionContents m hdr j + sectionSize m hdr j ≤ sectionAddr m hdr j := by
    simp only [Apart] at apart
    omega
  rw [stays, loadedTo, withSection_file file, copyUp_inside _ safe inside,
    image.loadedTo_image (by omega)]

theorem Image.zeroed (image : Image allocated m hdr len) {i t : Nat} (needs : NeedsBlock m hdr i)
    (clear : ∀ j, FileBacked m hdr j →
      Apart (allocated i, sectionSize m hdr i) (sectionAddr m hdr j, sectionSize m hdr j))
    (inside : t < sectionSize m hdr i) :
    loadedTo allocated m hdr (half m (hdr + 48)) (allocated i + t) = 0 := by
  have apart := (image.placed i needs).2.2
  have stays : loadedTo allocated m hdr (half m (hdr + 48)) (allocated i + t) =
      loadedTo allocated m hdr (i + 1) (allocated i + t) := by
    refine image.loadedTo_stays needs.1 (fun k _ _ file => ?_) fun k low _ needs' => ⟨?_, ?_⟩
    · exact (clear k file).outside inside
    · exact (image.placedApart i k needs needs' (by omega)).outside inside
    · exact image.field_outside needs'.1 (apart.outside inside)
  have field := image.field_outside needs.1 (apart.outside inside)
  rw [stays, loadedTo, withSection_needs image needs, setWord_outside _ (by omega),
    fill_inside _ inside]

/-- The header of a section that was allocated names its block. -/
theorem Image.block_named (image : Image allocated m hdr len) {i : Nat}
    (needs : NeedsBlock m hdr i) :
    word (loadedTo allocated m hdr (half m (hdr + 48))) (sectionHeader m hdr i + 12) =
      allocated i := by
  have place := image.headers i needs.1
  have room := (image.placed i needs).2.1
  have some := needs.2.2.1
  have written : word (loadedTo allocated m hdr (half m (hdr + 48)))
      (sectionHeader m hdr i + 12) =
        word (m.setWord (sectionHeader m hdr i + 12) (allocated i))
          (sectionHeader m hdr i + 12) := by
    refine word_congr fun t ht => ?_
    rw [image.loadedTo_image (by omega),
      image.imageTo_inside needs.1 (Nat.le_refl _) needs (by omega)]
  rw [written, word_setWord _ _ (by omega)]

/-- What is copied of a section are its bytes in the file exactly when no
address was written there before, or the same one. -/
theorem Image.contents_iff (image : Image allocated m hdr len) {j a : Nat}
    (below : j < half m (hdr + 48)) : imageTo allocated m hdr j a = m a ↔
      ∀ i, i < j → NeedsBlock m hdr i →
        m.setWord (sectionHeader m hdr i + 12) (allocated i) a = m a := by
  constructor
  · intro same i before needs
    by_cases field : sectionHeader m hdr i + 12 ≤ a ∧ a < sectionHeader m hdr i + 16
    · rw [← image.imageTo_inside before (Nat.le_of_lt below) needs field, same]
    · exact setWord_outside _ (by omega)
  · intro unwritten
    by_cases written : ∃ i, i < j ∧ NeedsBlock m hdr i ∧
        sectionHeader m hdr i + 12 ≤ a ∧ a < sectionHeader m hdr i + 16
    · obtain ⟨i, before, needs, field⟩ := written
      rw [image.imageTo_inside before (Nat.le_of_lt below) needs field, unwritten i before needs]
    · refine imageTo_outside fun i before needs => ?_
      by_contra inside
      exact written ⟨i, before, needs, by omega⟩

theorem sectionRange_file {i : Nat} (file : FileBacked m hdr i) :
    sectionRange allocated m hdr i = (sectionAddr m hdr i, sectionSize m hdr i) := by
  rw [sectionRange, if_neg file.notNeeds]

theorem sectionRange_needs {i : Nat} (needs : NeedsBlock m hdr i) :
    sectionRange allocated m hdr i = (allocated i, sectionSize m hdr i) := by
  rw [sectionRange, if_pos needs]

theorem Image.survives (image : Image allocated m hdr len) (unharmed : Unharmed allocated m hdr) :
    Survives allocated m hdr (loadedTo allocated m hdr (half m (hdr + 48))) := by
  constructor
  · intro j file
    refine bytes_congr fun t ht => ?_
    rw [image.copied file (fun i needs => unharmed.clear i j needs file) ht]
    exact (image.contents_iff file.1).mpr fun i before needs =>
      unharmed.unwritten i j before needs file t ht
  · exact fun i needs => ⟨image.block_named needs, fun t ht =>
      image.zeroed needs (fun j file => unharmed.clear i j needs file) ht⟩
  · rintro i j (file | needs) (file' | needs') other
    · rw [sectionRange_file file, sectionRange_file file']
      exact image.namedApart i j file file' other
    · rw [sectionRange_file file, sectionRange_needs needs']
      exact (unharmed.clear j i needs' file).symm
    · rw [sectionRange_needs needs, sectionRange_file file']
      exact unharmed.clear i j needs file'
    · rw [sectionRange_needs needs, sectionRange_needs needs']
      exact image.placedApart i j needs needs' other

theorem Image.unharmed (image : Image allocated m hdr len)
    (survives : Survives allocated m hdr (loadedTo allocated m hdr (half m (hdr + 48)))) :
    Unharmed allocated m hdr := by
  have clear : ∀ i j, NeedsBlock m hdr i → FileBacked m hdr j →
      Apart (allocated i, sectionSize m hdr i) (sectionAddr m hdr j, sectionSize m hdr j) := by
    intro i j needs file
    have other : i ≠ j := by
      rintro rfl
      exact file.notNeeds needs
    have apart := survives.apart i j (Or.inr needs) (Or.inl file) other
    rwa [sectionRange_needs needs, sectionRange_file file] at apart
  refine ⟨clear, fun i j before needs file t ht => ?_⟩
  have kept := bytes_at (survives.copied j file) ht
  rw [image.copied file (fun i needs => clear i j needs file) ht] at kept
  exact (image.contents_iff file.1).mp kept i before needs

/-- In every build the sections survive the loop, for an image and blocks as
they have to be, exactly when no block is on an address that a section names
and no section is copied after its contents were written into. -/
theorem loadSections_survives_iff (image : Image allocated m hdr len) :
    (∀ debug m', (loadSections ⟨debug, allocated⟩ hdr 65536 0 m).result = .ok m' →
      Survives allocated m hdr m') ↔ Unharmed allocated m hdr := by
  have count := half_lt m (hdr + 48)
  constructor
  · intro survives
    exact image.unharmed (survives false _ (image.loadSections_returns (k := 0) (by omega)
      (by omega)))
  · intro unharmed debug m' ran
    rw [image.loadSections_effect (k := 0) debug (by omega) ran]
    exact image.survives unharmed

end

/-- An image at 4096 of a section with four bytes for address 8192 and of one
that is not in the file, of eight bytes. -/
def twoSections : Storage :=
  let m := ((setWord (fun _ => 0) 4128 52).write 4143 40).write 4145 2
  let m := (((m.setWord 4152 1).setWord 4160 8192).setWord 4164 132).setWord 4168 4
  let m := ((m.setWord 4192 8).setWord 4196 2).setWord 4208 8
  m.store 4228 [1, 2, 3, 4]

theorem twoSections_file {i : Nat} (file : FileBacked twoSections 4096 i) : i = 0 := by
  have below : i < 2 := file.1
  by_contra other
  obtain rfl : i = 1 := by omega
  exact absurd file (by decide)

theorem twoSections_needs {i : Nat} (needs : NeedsBlock twoSections 4096 i) : i = 1 := by
  have below : i < 2 := needs.1
  by_contra other
  obtain rfl : i = 0 := by omega
  exact absurd needs (by decide)

theorem twoSections_image {p : Nat} (some : p ≠ 0) (room : p + 8 ≤ 4294967296)
    (outside : p + 8 ≤ 4096 ∨ 4232 ≤ p) : Image (fun _ => p) twoSections 4096 136 := by
  have header0 : sectionHeader twoSections 4096 0 = 4148 := by decide
  have header1 : sectionHeader twoSections 4096 1 = 4188 := by decide
  have size1 : sectionSize twoSections 4096 1 = 8 := by decide
  have count : half twoSections (4096 + 48) = 2 := by decide
  constructor
  · decide
  · decide
  · intro i below
    rw [count] at below
    obtain rfl | rfl : i = 0 ∨ i = 1 := by omega
    · rw [header0]
      decide
    · rw [header1]
      decide
  · intro i j before below
    rw [count] at below
    obtain ⟨rfl, rfl⟩ : i = 0 ∧ j = 1 := by omega
    rw [header0, header1]
    decide
  · intro i file
    rw [twoSections_file file]
    decide
  · intro i file
    rw [twoSections_file file]
    decide
  · intro i j file file' other
    exact absurd ((twoSections_file file).trans (twoSections_file file').symm) other
  · intro i needs
    rw [twoSections_needs needs, size1]
    refine ⟨some, room, ?_⟩
    simp only [Apart]
    omega
  · intro i j needs needs' other
    exact absurd ((twoSections_needs needs).trans (twoSections_needs needs').symm) other

theorem twoSections_survives :
    (∀ debug m', (loadSections ⟨debug, fun _ => 12288⟩ 4096 65536 0 twoSections).result =
        .ok m' → Survives (fun _ => 12288) twoSections 4096 m') ↔
      Unharmed (fun _ => 12288) twoSections 4096 :=
  loadSections_survives_iff (twoSections_image (by decide) (by decide) (by decide))

/-- A block that is placed on the address of the first section clears it. -/
theorem named_address_cleared : Image (fun _ => 8192) twoSections 4096 136 ∧
    ∃ m', (loadSections ⟨false, fun _ => 8192⟩ 4096 65536 0 twoSections).result = .ok m' ∧
      m'.bytes 8192 4 = [0, 0, 0, 0] ∧ ¬ Survives (fun _ => 8192) twoSections 4096 m' := by
  have image : Image (fun _ => 8192) twoSections 4096 136 :=
    twoSections_image (by decide) (by decide) (by decide)
  have ran : (loadSections ⟨false, fun _ => 8192⟩ 4096 65536 0 twoSections).result =
      .ok (loadedTo (fun _ => 8192) twoSections 4096 (half twoSections (4096 + 48))) :=
    image.loadSections_returns (k := 0) (by omega) (by decide)
  have lost : (loadedTo (fun _ => 8192) twoSections 4096 (half twoSections (4096 + 48))).bytes 8192 4
      = [0, 0, 0, 0] := by decide
  refine ⟨image, _, ran, lost, fun survives => ?_⟩
  have kept := survives.copied 0 (by decide +kernel)
  exact absurd kept (by decide)

end Exec
