import UDos.Kernel.Crypto
import UDos.Kernel.MmOnPmm
import UDos.Kernel.PmmAdjacent

/-!
# ARC4 on the heap

`CryptoARC4Encode` with its two blocks: the keystream is put into the first one and
released at the end, the result is in the second and stays. Where the second block ends
at the first, the release is that of the result, and a call on the result puts its
keystream over the text.
-/

namespace Crypto

open Storage Pmm MmOnPmm

/-- The last loop. -/
def xorLoop (m : Storage) (ctext bitstream k : Nat) : Nat → Storage
  | 0 => m
  | n + 1 => xorLoop (m.write ctext (m bitstream ^^^ m k)) (ctext + 1) (bitstream + 1) (k + 1) n

/-- `CryptoARC4Encode` -/
def cryptoARC4Encode (env : Env) (s : System) (bitstream len key keylen : Nat) :
    Outcome (Nat × System) :=
  -- the remainder by a zero `keylen` is a program check
  if keylen = 0 then .fault
  else do
    let state := keySchedule (s.storage.bytes key keylen)
    let k ← mmAllocate env s len
    Outcome.check (k.1 ≠ 0) "Out of memory"
    let ctext ← mmAllocate env
      { k.2 with storage := k.2.storage.store k.1 (keystream len state) } len
    Outcome.check (ctext.1 ≠ 0) "Out of memory"
    let s ← mmFree env
      { ctext.2 with storage := xorLoop ctext.2.storage ctext.1 bitstream k.1 len } k.1
    .ok (ctext.1, s)

/-- The result of a call is encoded with the same key. -/
def encodeTwice (env : Env) (s : System) (bitstream len key keylen : Nat) :
    Outcome (Nat × System) := do
  let once ← cryptoARC4Encode env s bitstream len key keylen
  cryptoARC4Encode env once.2 once.1 len key keylen

/-- The bytes are those of blocks in use, or outside of the region. -/
def Owned (r : PmmRegion) (tail : List Nat) (p n : Nat) : Prop :=
  ∀ a, p ≤ a → a < p + n →
    (∃ x ∈ allocated r tail, x.1 ≤ a ∧ a < x.1 + x.2) ∨ a < r.base ∨ r.base + r.size ≤ a

/-- What a caller has to see to, with one region for the heap. -/
structure Supplied (s : System) (r : PmmRegion) (others : List PmmRegion)
    (bitstream len key keylen : Nat) : Prop where
  regions : s.regions = r :: others
  alone : Alone r others (behind r)
  text : Owned r (behind r) bitstream len
  key : Owned r (behind r) key keylen
  someText : 0 < len
  someKey : 0 < keylen

/-- The descriptor table does not end where the first of the two blocks begins. -/
def TableApart (env : Env) (regions : List PmmRegion) (len : Nat) : Prop :=
  Outcome.After (fun done => ∀ r ∈ done.2.2, r.flags = regionPublic →
    r.base + (r.heap 0).size ≠ done.1) (allocateTwice env regions len)

instance (env : Env) (regions : List PmmRegion) (len : Nat) :
    Decidable (TableApart env regions len) := inferInstanceAs (Decidable (Outcome.After _ _))

section
variable {m : Storage} {ctext bitstream k n a : Nat}

theorem xorLoop_outside (outside : a < ctext ∨ ctext + n ≤ a) :
    xorLoop m ctext bitstream k n a = m a := by
  induction n generalizing m ctext bitstream k with
  | zero => rfl
  | succ n ih =>
    rw [xorLoop, ih (by omega)]
    exact write_other m _ (by omega)

theorem xorLoop_inside {i : Nat} (text : ∀ i < n, bitstream + i < ctext ∨ ctext + n ≤ bitstream + i)
    (stream : ∀ i < n, k + i < ctext ∨ ctext + n ≤ k + i) (hi : i < n) :
    xorLoop m ctext bitstream k n (ctext + i) = m (bitstream + i) ^^^ m (k + i) := by
  induction n generalizing m ctext bitstream k i with
  | zero => omega
  | succ n ih =>
    rw [xorLoop]
    cases i with
    | zero =>
      rw [xorLoop_outside (by omega)]
      exact write_same m ctext _
    | succ i =>
      have later : ∀ j < n, bitstream + 1 + j < ctext + 1 ∨ ctext + 1 + n ≤ bitstream + 1 + j := by
        intro j hj
        have := text (j + 1) (by omega)
        omega
      have later' : ∀ j < n, k + 1 + j < ctext + 1 ∨ ctext + 1 + n ≤ k + 1 + j := by
        intro j hj
        have := stream (j + 1) (by omega)
        omega
      have next := @ih (m.write ctext (m bitstream ^^^ m k)) (ctext + 1) (bitstream + 1) (k + 1) i
        later later' (by omega)
      have textKept := text (i + 1) hi
      have streamKept := stream (i + 1) hi
      rw [write_other _ _ (by omega), write_other _ _ (by omega)] at next
      simpa only [Nat.add_assoc, Nat.add_comm 1 i] using next

theorem xorLoop_bytes (text : ∀ i < n, bitstream + i < ctext ∨ ctext + n ≤ bitstream + i)
    (stream : ∀ i < n, k + i < ctext ∨ ctext + n ≤ k + i) :
    (xorLoop m ctext bitstream k n).bytes ctext n =
      List.zipWith (· ^^^ ·) (m.bytes bitstream n) (m.bytes k n) := by
  refine List.ext_getElem (by simp) fun i hi _ => ?_
  simp only [bytes, List.getElem_map, List.getElem_range, List.getElem_zipWith]
  exact xorLoop_inside text stream (by simpa using hi)

end

/-- What a call has done when it returns: the keystream was in block k, and the blocks
were those of region q when k was released. -/
structure Encodes (env : Env) (s : System) (r : PmmRegion) (others : List PmmRegion)
    (tail : List Nat) (bitstream len key keylen : Nat) (done : Nat × System) (k : Nat)
    (q : PmmRegion) (tail' : List Nat) : Prop where
  two : allocateTwice env (r :: others) len = .ok (k, done.1, q :: others)
  paired : Paired r others tail len k done.1 q tail'
  freed : mmFreePhysical env (q :: others) k = .ok done.2.regions
  storage : done.2.storage = xorLoop
    (s.storage.store k (keystream len (keySchedule (s.storage.bytes key keylen)))) done.1
    bitstream k len

section
variable {env : Env} {s : System} {r q : PmmRegion} {others : List PmmRegion}
  {tail tail' : List Nat} {bitstream len key keylen k : Nat} {done : Nat × System}

theorem mmFree_of {regions after : List PmmRegion} {m : Storage} {ptr : Nat} (notNull : ptr ≠ 0)
    (freed : mmFreePhysical env regions ptr = .ok after) :
    mmFree env ⟨regions, m⟩ ptr = .ok ⟨after, m⟩ := by
  rw [mmFree, if_neg notNull, freed, Outcome.ok_bind]

theorem mmAllocate_sound {n : Nat}
    (sound : Outcome.Sound (fun _ => True) (mmAllocatePhysical env s.regions n 0)) :
    Outcome.Sound (fun done => done.2.storage = s.storage ∧
        mmAllocatePhysical env s.regions n 0 = .ok (done.1, done.2.regions))
      (mmAllocate env s n) := by
  rw [mmAllocate]
  exact (sound.strengthen fun _ ran _ => ran).bind fun _ ran => ⟨rfl, ran⟩

theorem cryptoARC4Encode_sound (regions : s.regions = r :: others) (alone : Alone r others tail)
    (someText : 0 < len) (someKey : 0 < keylen) :
    Outcome.Sound (fun done => ∃ k q tail',
        Encodes env s r others tail bitstream len key keylen done k q tail')
      (cryptoARC4Encode env s bitstream len key keylen) := by
  have two := alone.two env someText
  have once := (alone.allocate_placed env len).mono fun _ _ => trivial
  rw [← regions] at once
  rw [cryptoARC4Encode, if_neg (Nat.ne_of_gt someKey)]
  refine (mmAllocate_sound once).bind ?_
  rintro ⟨k, regions1, m⟩ ⟨rfl, first⟩
  rw [regions] at first
  refine (Outcome.sound_check _).bind fun _ foundK => ?_
  rw [allocateTwice, first, Outcome.ok_bind] at two
  have found := sound_of_map two
  refine (mmAllocate_sound (s := ⟨regions1, _⟩) (found.mono fun _ _ => trivial)).bind ?_
  rintro ⟨ctext, regions2, m⟩ ⟨rfl, second⟩
  refine (Outcome.sound_check _).bind fun _ foundText => ?_
  obtain ⟨q, tail', same, paired⟩ := found.after _ second foundK foundText
  simp only at same
  subst same
  obtain ⟨after, freed⟩ := paired.alone.free_returns env paired.members.2
  rw [mmFree_of foundK freed, Outcome.ok_bind]
  refine ⟨k, q, tail', ?_, paired, freed, rfl⟩
  rw [allocateTwice, first, Outcome.ok_bind, second]
  rfl

theorem Owned.apart {p n a c : Nat} (owned : Owned r tail p n)
    (paired : Paired r others tail len k c q tail') (above : p ≤ a) (below : a < p + n) :
    (a < c ∨ c + len ≤ a) ∧ (a < k ∨ k + len ≤ a) := by
  rcases owned a above below with ⟨x, member, low, high⟩ | outside
  · have apart := paired.apart.2 x member
    omega
  · have second := allocated_inside paired.alone.wellFormed paired.members.1
    have first := allocated_inside paired.alone.wellFormed paired.members.2
    rw [paired.base, paired.regionSize] at first second
    simp only at first second
    omega

variable (encodes : Encodes env s r others tail bitstream len key keylen done k q tail')
include encodes

theorem Encodes.bytes_eq
    (text : ∀ i < len, bitstream + i < done.1 ∨ done.1 + len ≤ bitstream + i) :
    done.2.storage.bytes done.1 len = List.zipWith (· ^^^ ·)
      ((s.storage.store k (keystream len (keySchedule (s.storage.bytes key keylen)))).bytes
        bitstream len)
      (keystream len (keySchedule (s.storage.bytes key keylen))) := by
  have apart := encodes.paired.apart.1
  have stream := store_bytes s.storage k
    (keystream len (keySchedule (s.storage.bytes key keylen)))
  rw [keystream_length] at stream
  rw [encodes.storage, xorLoop_bytes text fun i hi => by omega, stream]

theorem Encodes.result (owned : Owned r tail bitstream len) :
    done.2.storage.bytes done.1 len =
      cipher (s.storage.bytes bitstream len) (s.storage.bytes key keylen) := by
  have text : ∀ i < len, _ := fun i hi =>
    owned.apart encodes.paired (Nat.le_add_right bitstream i) (Nat.add_lt_add_left hi bitstream)
  have kept : (s.storage.store k (keystream len
      (keySchedule (s.storage.bytes key keylen)))).bytes bitstream len =
      s.storage.bytes bitstream len := by
    refine bytes_congr fun i hi => store_outside _ ?_
    rw [keystream_length]
    exact (text i hi).2
  rw [encodes.bytes_eq fun i hi => (text i hi).1, kept, cipher, bytes_length]

theorem Encodes.kept {p n : Nat} (owned : Owned r tail p n) :
    done.2.storage.bytes p n = s.storage.bytes p n := by
  refine bytes_congr fun i hi => ?_
  obtain ⟨second, first⟩ := owned.apart encodes.paired (Nat.le_add_right p i)
    (Nat.add_lt_add_left hi p)
  rw [encodes.storage, xorLoop_outside second, store_outside _ (by rwa [keystream_length])]

end

section
variable {env : Env} {s : System} {r : PmmRegion} {others : List PmmRegion}
  {bitstream len key keylen : Nat} (supplied : Supplied s r others bitstream len key keylen)
include supplied

/-- Where one free block has room for both, the result is released, the second call puts
its keystream there and meets it with itself. -/
theorem Supplied.twice_zeros (twice : FitsTwice r len) :
    Outcome.Sound (fun done => done.2.storage.bytes done.1 len = List.replicate len 0)
      (encodeTwice env s bitstream len key keylen) := by
  refine (cryptoARC4Encode_sound supplied.regions supplied.alone supplied.someText
    supplied.someKey).bind ?_
  rintro ⟨ctext, s1⟩ ⟨k, q, tail', encodes⟩
  obtain ⟨q', list, freed, alone', -, -, answered⟩ := encodes.paired.again twice env
  have regions : s1.regions = q' :: others := Outcome.ok.inj (encodes.freed.symm.trans freed)
  refine (cryptoARC4Encode_sound regions alone' supplied.someText supplied.someKey).mono ?_
  rintro ⟨back, s2⟩ ⟨k', q2, tail2, again⟩
  -- the block of the second keystream is the text
  obtain rfl : k' = ctext := by
    obtain ⟨first, ran, rest⟩ := Outcome.bind_eq_ok.mp again.two
    obtain ⟨second, -, same⟩ := Outcome.bind_eq_ok.mp rest
    cases same
    exact answered.after _ ran
  have apart := again.paired.apart.1
  have stream := store_bytes s1.storage k'
    (keystream len (keySchedule (s1.storage.bytes key keylen)))
  rw [keystream_length] at stream
  rw [again.bytes_eq fun i hi => by omega, stream, xor_self_zeros, keystream_length]

/-- Where it has not, and the descriptor table does not end at the keystream either, the
result stays in use. -/
theorem Supplied.twice_restores (once : ¬ FitsTwice r len)
    (apart : TableApart env s.regions len) :
    Outcome.Sound (fun done => done.2.storage.bytes done.1 len = s.storage.bytes bitstream len)
      (encodeTwice env s bitstream len key keylen) := by
  refine (cryptoARC4Encode_sound supplied.regions supplied.alone supplied.someText
    supplied.someKey).bind ?_
  rintro ⟨ctext, s1⟩ ⟨k, q, tail', encodes⟩
  have paired := encodes.paired
  obtain ⟨heldText, heldStream⟩ := paired.members
  have notTable := apart _ (supplied.regions ▸ encodes.two) q List.mem_cons_self
    paired.alone.wellFormed.isPublic
  obtain ⟨q', list, x, freed, alone', -, -, left, above, below⟩ :=
    paired.alone.free_touched env heldStream notTable
  have regions : s1.regions = q' :: others := Outcome.ok.inj (encodes.freed.symm.trans freed)
  have inUse : (ctext, len) ∈ allocated q' list := by
    refine (List.mem_cons.mp (left.mem_iff.mp heldText)).resolve_left ?_
    rintro rfl
    have separate := paired.apart.1
    have someText := supplied.someText
    exact once (paired.adjacent.mp (by omega))
  have owned : Owned q' list ctext len := fun a low high => Or.inl ⟨_, inUse, low, high⟩
  refine (cryptoARC4Encode_sound regions alone' supplied.someText supplied.someKey).mono ?_
  rintro ⟨back, s2⟩ ⟨k', q2, tail2, again⟩
  rw [again.result owned, encodes.result supplied.text, encodes.kept supplied.key, cipher_cipher]

theorem Supplied.result : Outcome.Sound (fun done => done.2.storage.bytes done.1 len =
      cipher (s.storage.bytes bitstream len) (s.storage.bytes key keylen))
    (cryptoARC4Encode env s bitstream len key keylen) :=
  (cryptoARC4Encode_sound supplied.regions supplied.alone supplied.someText
    supplied.someKey).mono fun _ ⟨_, _, _, encodes⟩ => encodes.result supplied.text

/-- A call on the result gives the text back exactly when no free block had room for the
two blocks in front of all others, or the text is all zeros; the descriptor table is not
to end at the keystream. The front of a result depends on the key and the front of the
text alone. -/
theorem cryptoARC4Encode_twice_iff (apart : TableApart env s.regions len) :
    Outcome.Sound (fun done =>
        done.2.storage.bytes done.1 len = s.storage.bytes bitstream len ↔
          ¬ FitsTwice r len ∨ s.storage.bytes bitstream len = List.replicate len 0)
      (encodeTwice env s bitstream len key keylen) ∧
    ∀ {env' : Env} {s' : System} {r' : PmmRegion} {others' : List PmmRegion}
      {bitstream' len' key' m : Nat} {done done' : Nat × System},
      Supplied s' r' others' bitstream' len' key' keylen →
      s'.storage.bytes key' keylen = s.storage.bytes key keylen → m ≤ len → m ≤ len' →
      s'.storage.bytes bitstream' m = s.storage.bytes bitstream m →
      cryptoARC4Encode env s bitstream len key keylen = .ok done →
      cryptoARC4Encode env' s' bitstream' len' key' keylen = .ok done' →
      done'.2.storage.bytes done'.1 m = done.2.storage.bytes done.1 m := by
  constructor
  · by_cases twice : FitsTwice r len
    · refine (supplied.twice_zeros twice).mono fun done zeros => ?_
      rw [zeros, or_iff_right (not_not.mpr twice), eq_comm]
    · exact (supplied.twice_restores twice apart).mono fun done restored =>
        iff_of_true restored (Or.inl twice)
  · intro env' s' r' others' bitstream' len' key' m done done' supplied' sameKey le le' same ran ran'
    have first := supplied.result.after _ ran
    have second := supplied'.result.after _ ran'
    rw [← take_bytes done'.2.storage done'.1 le', second, sameKey, cipher_take, take_bytes _ _ le',
      same, ← take_bytes done.2.storage done.1 le, first, cipher_take, take_bytes _ _ le]

end

theorem owned_below {r : PmmRegion} {tail : List Nat} {p n : Nat} (below : p + n ≤ r.base) :
    Owned r tail p n := fun a _ high => Or.inr (Or.inl (by omega))

/-- "AD" at 100, and ones everywhere else. -/
def letters : Storage := fun a => if a = 100 then 0xC1 else if a = 101 then 0xC4 else 1

/-- A region whose first free block has three bytes. -/
def gap : PmmRegion :=
  ⟨4096, 2048, regionPublic, fun i =>
    if i = 0 then ⟨96, some 1, blockUsed, 65535⟩
    else if i = 1 then ⟨3, some 2, blockFree, 65535⟩
    else if i = 2 then ⟨5, some 3, blockUsed, 65535⟩
    else if i = 3 then ⟨1944, none, blockFree, 65535⟩
    else zeroBlock⟩

theorem gap_wellFormed : WellFormed gap (behind gap) 0 := by
  have list : behind gap = [1, 2, 3] := by decide
  rw [list]
  constructor
  · constructor
    · exact ⟨rfl, rfl, rfl, rfl, rfl⟩
    · decide
    · decide
    · rfl
    · decide
    · decide
    · decide
    · rfl
  · exact ⟨[2, 3], rfl⟩
  · decide

theorem gap_supplied : Supplied ⟨[gap], letters⟩ gap [] 100 2 200 3 where
  regions := rfl
  alone := ⟨gap_wellFormed, by decide, List.forall_mem_nil _⟩
  text := owned_below (by decide)
  key := owned_below (by decide)
  someText := by decide
  someKey := by decide

theorem gap_restores : ∃ done, encodeTwice quiet ⟨[gap], letters⟩ 100 2 200 3 = .ok done ∧
    done.2.storage.bytes done.1 2 = [0xC1, 0xC4] := by
  have apart : TableApart quiet [gap] 2 := by decide +kernel
  have once : ¬ FitsTwice gap 2 := by decide +kernel
  have returns : (encodeTwice quiet ⟨[gap], letters⟩ 100 2 200 3).returns = true := by
    decide +kernel
  obtain ⟨done, ran, restored⟩ :=
    ((cryptoARC4Encode_twice_iff gap_supplied apart).1).returned returns
  exact ⟨done, ran, (restored.mpr (Or.inl once)).trans (by decide)⟩

theorem smallTable_supplied : ∃ r others,
    Supplied ⟨smallTable.regions, letters⟩ r others 100 2 200 3 ∧ FitsTwice r 2 := by
  have twice : ∀ r ∈ smallTable.regions.head?, FitsTwice r 2 := by decide +kernel
  obtain ⟨r, others, tail, regions, alone, base, -, -⟩ :=
    mmCreateRegion_tracked (by decide) (by decide) smallTable_created
  have regions : smallTable.regions = r :: others := regions
  obtain rfl := alone.wellFormed.behind_eq
  refine ⟨r, others, ⟨regions, alone, owned_below (by omega), owned_below (by omega), by decide,
    by decide⟩, twice r ?_⟩
  rw [regions]
  rfl

/-- In a new region the result of encoding "AD" twice is two zeros. -/
theorem letters_twice_zeros : ∃ done,
    encodeTwice quiet ⟨smallTable.regions, letters⟩ 100 2 200 3 = .ok done ∧
      letters.bytes 100 2 = [0xC1, 0xC4] ∧ done.2.storage.bytes done.1 2 = [0, 0] := by
  obtain ⟨r, others, supplied, twice⟩ := smallTable_supplied
  have returns : (encodeTwice quiet ⟨smallTable.regions, letters⟩ 100 2 200 3).returns = true := by
    decide +kernel
  have sound : Outcome.Sound _ (encodeTwice quiet ⟨smallTable.regions, letters⟩ 100 2 200 3) :=
    supplied.twice_zeros twice
  obtain ⟨done, ran, zeros⟩ := sound.returned returns
  exact ⟨done, ran, by decide, zeros⟩

end Crypto
