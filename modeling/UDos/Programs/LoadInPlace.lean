import UDos.Programs.LoadModule

/-!
# Loading in place

`fixPE` moves the text together in the buffer that it is still reading from. The
text is never longer than what has been read, so a record that is not read yet
is as it was in the file, and `fixPE` comes to what `load` makes of the file.
-/

namespace Loadzero

open Storage KernelMemory

variable {m0 m : Storage} {buf o : Nat} {rlad : Int} {image : List UInt8}

theorem short_bytes (m : Storage) (p : Nat) {n i : Nat} (inside : i + 2 ≤ n) :
    short (ofBytes (bytes m p n)) i = short m (p + i) := by
  have first : ofBytes (bytes m p n) i = m (p + i) := ofBytes_bytes (by omega)
  have second : ofBytes (bytes m p n) (i + 1) = m (p + i + 1) := ofBytes_bytes (by omega)
  have same : half (ofBytes (bytes m p n)) i = half m (p + i) := by
    simp only [half, first, second]
  unfold short
  rw [same]

theorem address_bytes (m : Storage) (p : Nat) {n i : Nat} (inside : i + 3 ≤ n) :
    address (ofBytes (bytes m p n)) i = address m (p + i) := by
  have first : ofBytes (bytes m p n) i = m (p + i) := ofBytes_bytes (by omega)
  have second : ofBytes (bytes m p n) (i + 1) = m (p + i + 1) := ofBytes_bytes (by omega)
  have third : ofBytes (bytes m p n) (i + 2) = m (p + i + 2) := ofBytes_bytes (by omega)
  simp only [address, first, second, third]

theorem short_congr {p : Nat} (same : ∀ i, i < 2 → m (p + i) = m0 (p + i)) :
    short m p = short m0 p := by
  have first : m p = m0 p := same 0 (by omega)
  have second : m (p + 1) = m0 (p + 1) := same 1 (by omega)
  have equal : half m p = half m0 p := by simp only [half, first, second]
  unfold short
  rw [equal]

theorem address_congr {p : Nat} (same : ∀ i, i < 3 → m (p + i) = m0 (p + i)) :
    address m p = address m0 p := by
  have first : m p = m0 p := same 0 (by omega)
  have second : m (p + 1) = m0 (p + 1) := same 1 (by omega)
  have third : m (p + 2) = m0 (p + 2) := same 2 (by omega)
  simp only [address, first, second, third]

theorem skipRP_add (r : Nat) (cont : Bool) : skipRP r cont = r + skipRP 0 cont := by
  cases cont <;> simp [skipRP]

/-- The text read so far stands at the start of the buffer, and outside the first
o bytes of the buffer nothing has changed. -/
structure Holds (m0 m : Storage) (buf : Nat) (image : List UInt8) (o : Nat) : Prop where
  compact : image.length ≤ o
  text : bytes m buf image.length = image
  unread : ∀ x, x < buf ∨ buf + o ≤ x → m x = m0 x

theorem Holds.start (m0 : Storage) (buf : Nat) : Holds m0 m0 buf [] 0 where
  compact := Nat.le_refl 0
  text := rfl
  unread _ _ := rfl

theorem Holds.later {o' : Nat} (holds : Holds m0 m buf image o) (le : o ≤ o') :
    Holds m0 m buf image o' where
  compact := Nat.le_trans holds.compact le
  text := holds.text
  unread x outside := holds.unread x (by omega)

theorem Holds.bytes_eq (holds : Holds m0 m buf image o) {p : Nat} (behind : buf + o ≤ p)
    (n : Nat) : bytes m p n = bytes m0 p n :=
  bytes_congr fun i _ => holds.unread (p + i) (by omega)

theorem Holds.short_eq (holds : Holds m0 m buf image o) {p : Nat} (behind : buf + o ≤ p) :
    short m p = short m0 p :=
  short_congr fun i _ => holds.unread (p + i) (by omega)

theorem Holds.address_eq (holds : Holds m0 m buf image o) {p : Nat} (behind : buf + o ≤ p) :
    address m p = address m0 p :=
  address_congr fun i _ => holds.unread (p + i) (by omega)

theorem Holds.patch (holds : Holds m0 m buf image o) {z : Nat} (inside : z + 4 ≤ image.length)
    (rlad : Int) : Holds m0 (patch m (buf + z) rlad) buf (patchBytes image z rlad) o where
  compact := by
    rw [patchBytes_length]
    exact holds.compact
  text := by
    rw [patchBytes_length, bytes_patch inside rlad, holds.text]
  unread x outside := by
    have le := holds.compact
    rw [patch_outside m rlad (by omega)]
    exact holds.unread x outside

/-- Text that is moved down to the end of the text before it does not reach what
is behind the place it came from. -/
theorem Holds.memmove (holds : Holds m0 m buf image o) {q n : Nat} (behind : buf + o ≤ q) :
    Holds m0 (memmove m (buf + image.length) q n) buf (image ++ bytes m0 q n) (q - buf + n) := by
  have le := holds.compact
  have moved : bytes (Loadzero.memmove m (buf + image.length) q n) (buf + image.length) n =
      bytes m0 q n := by
    have stored := store_bytes m (buf + image.length) (bytes m q n)
    rw [bytes_length] at stored
    rw [← holds.bytes_eq behind n]
    exact stored
  have outside : ∀ x, x < buf + image.length ∨ buf + image.length + n ≤ x →
      Loadzero.memmove m (buf + image.length) q n x = m x := fun x h =>
    store_outside m (by rw [bytes_length]; exact h)
  refine ⟨?_, ?_, fun x h => ?_⟩
  · rw [List.length_append, bytes_length]
    omega
  · have kept : bytes (Loadzero.memmove m (buf + image.length) q n) buf image.length = image := by
      rw [bytes_congr fun i hi => outside (buf + i) (by omega)]
      exact holds.text
    rw [List.length_append, bytes_length, bytes_add, kept, moved]
  · rw [outside x (by omega)]
    exact holds.unread x (by omega)

theorem rldLoop_short {rld r : Nat} {len : Int} {cont : Bool} (differ : (r : Int) ≠ len)
    (short : len < skipRP r cont + 4) :
    ∃ complaint, rldLoop buf rlad rld len m r cont = (m, some complaint) := by
  have short' : skipRP r cont + 1 + 3 > len := by omega
  rw [rldLoop, if_neg differ]
  dsimp only
  split_ifs
  · exact ⟨_, rfl⟩
  · exact ⟨_, rfl⟩
  · exact ⟨_, rfl⟩
  · exact ⟨_, rfl⟩
  · exact ⟨_, rfl⟩

section
variable {rld len r : Nat} {cont : Bool}
variable (differ : r ≠ len) (fits : skipRP r cont + 4 ≤ len)
include differ fits

theorem rldLoop_refused (refused : fieldLength (m (rld + skipRP r cont)) = none) :
    ∃ complaint, rldLoop buf rlad rld len m r cont = (m, some complaint) := by
  have differ' : ¬ (r : Int) = len := by omega
  have fits' : ¬ (cont = false ∧ (len : Int) ≤ skipRP r cont) := by omega
  rw [rldLoop, if_neg differ', if_neg fits']
  unfold fieldLength at refused
  dsimp only at refused ⊢
  by_cases negative : m (rld + skipRP r cont) &&& 0x02 ≠ 0
  · exact ⟨_, if_pos negative⟩
  · rw [if_neg negative] at refused ⊢
    split_ifs at refused ⊢ with unsupported
    exact ⟨_, rfl⟩

variable {ll : Nat} (some_ll : fieldLength (m (rld + skipRP r cont)) = some ll)
include some_ll

theorem rldLoop_al3 (large : ll = 3 ∧ rlad > 0xffffff) :
    rldLoop buf rlad rld len m r cont = (m, some (.al3Prevents rlad)) := by
  have differ' : ¬ (r : Int) = len := by omega
  have fits' : ¬ (cont = false ∧ (len : Int) ≤ skipRP r cont) := by omega
  obtain ⟨positive, rfl, supported⟩ := fieldLength_eq_some.mp some_ll
  rw [rldLoop, if_neg differ', if_neg fits', if_neg (not_not.mpr positive), if_neg (by omega),
    if_pos large]

theorem rldLoop_field (small : ¬ (ll = 3 ∧ rlad > 0xffffff)) :
    rldLoop buf rlad rld len m r cont =
      rldLoop buf rlad rld len
        (patch m (advance buf (address m (rld + skipRP r cont + 1) - (if ll = 3 then 1 else 0)))
          rlad)
        (skipRP r cont + 4) (m (rld + skipRP r cont) &&& 0x01 ≠ 0) := by
  have differ' : ¬ (r : Int) = len := by omega
  have fits' : ¬ (cont = false ∧ (len : Int) ≤ skipRP r cont) := by omega
  have room : ¬ ((skipRP r cont : Int) + 1 + 3 > len) := by omega
  obtain ⟨positive, rfl, supported⟩ := fieldLength_eq_some.mp some_ll
  rw [rldLoop, if_neg differ', if_neg fits', if_neg (not_not.mpr positive), if_neg (by omega),
    if_neg small, if_neg room]
  rfl

end

/-- Relocations that `relocate` makes are made in the text in place. -/
theorem rldLoop_holds {rld len r : Nat} {cont : Bool} {result : Option (List UInt8)}
    (space : buf + o < 4294967296) (behind : buf + o ≤ rld) (holds : Holds m0 m buf image o)
    (le : r ≤ len)
    (made : relocate rlad image (fields (bytes m0 (rld + r) (len - r)) cont).1
      (fields (bytes m0 (rld + r) (len - r)) cont).2 = .ok result) :
    ∃ image', Holds m0 (rldLoop buf rlad rld len m r cont).1 buf image' o ∧
      image'.length = image.length ∧
      result = if (rldLoop buf rlad rld len m r cont).2 = none then some image' else none := by
  induction d : len - r using Nat.strongRecOn generalizing m image r cont with
  | ind d ih =>
    subst d
    by_cases ended : r = len
    · subst ended
      rw [Nat.sub_self, fields] at made
      rw [rldLoop, if_pos rfl]
      exact ⟨image, holds, rfl, by simpa [relocate] using made.symm⟩
    have more : ¬ (bytes m0 (rld + r) (len - r)).length = 0 := by
      rw [bytes_length]
      omega
    have next : skipRP r cont = r + skipRP 0 cont := skipRP_add r cont
    rw [fields] at made
    simp only [if_neg more] at made
    by_cases short : len < skipRP r cont + 4
    · have cut : ((bytes m0 (rld + r) (len - r)).drop (skipRP 0 cont)).length < 4 := by
        rw [List.length_drop, bytes_length]
        omega
      obtain ⟨complaint, loop⟩ := @rldLoop_short m buf rlad rld r len cont
        (by omega) (by omega)
      rw [if_pos cut] at made
      rw [loop]
      exact ⟨image, holds, rfl, by simpa [relocate] using made.symm⟩
    · have item : (bytes m0 (rld + r) (len - r)).drop (skipRP 0 cont) =
          bytes m0 (rld + skipRP r cont) (len - skipRP r cont) := by
        rw [drop_bytes m0 _ (by omega), next]
        congr 1 <;> omega
      have flags : ofBytes (bytes m0 (rld + skipRP r cont) (len - skipRP r cont)) 0 =
          m (rld + skipRP r cont) := by
        rw [ofBytes_bytes (by omega), holds.unread _ (by omega), Nat.add_zero]
      have a : address (ofBytes (bytes m0 (rld + skipRP r cont) (len - skipRP r cont))) 1 =
          address m (rld + skipRP r cont + 1) := by
        rw [address_bytes _ _ (by omega), holds.address_eq (by omega)]
      have rest : (bytes m0 (rld + skipRP r cont) (len - skipRP r cont)).drop 4 =
          bytes m0 (rld + (skipRP r cont + 4)) (len - (skipRP r cont + 4)) := by
        rw [drop_bytes m0 _ (by omega)]
        congr 1
      rw [item, bytes_length, if_neg (by omega)] at made
      simp only [flags, a, rest] at made
      cases width : fieldLength (m (rld + skipRP r cont)) with
      | none =>
        obtain ⟨complaint, loop⟩ := @rldLoop_refused m buf rlad rld len r cont ended (by omega) width
        rw [width] at made
        rw [loop]
        exact ⟨image, holds, rfl, by simpa [relocate] using made.symm⟩
      | some ll =>
        rw [width] at made
        simp only [relocate] at made
        by_cases large : ll = 3 ∧ rlad > 0xffffff
        · rw [rldLoop_al3 ended (by omega) width large]
          rw [if_pos large] at made
          exact ⟨image, holds, rfl, by simpa using made.symm⟩
        · rw [if_neg large] at made
          rw [rldLoop_field ended (by omega) width large]
          split at made
          · case isTrue inside =>
            have place : advance buf ((address m (rld + skipRP r cont + 1) : Int) -
                (if ll = 3 then 1 else 0)) =
                buf + Field.zaploc ⟨ll, address m (rld + skipRP r cont + 1)⟩ := by
              have compact := holds.compact
              obtain ⟨positive, fits⟩ := inside
              simp only [Field.zaploc] at fits ⊢
              unfold advance
              split at fits
              · have := positive ‹_›
                simp only [if_pos ‹ll = 3›] at *
                omega
              · simp only [if_neg ‹¬ ll = 3›] at *
                omega
            rw [place]
            have patched := holds.patch inside.2 rlad
            obtain ⟨image', last, length, same⟩ := ih _ (by omega) patched (by omega) made rfl
            exact ⟨image', last, length.trans (patchBytes_length _ _ _), same⟩
          · cases made

theorem processRLD_holds {q : Nat} {len : Int} {result : Option (List UInt8)}
    (space : buf + o < 4294967296) (behind : buf + o ≤ q) (holds : Holds m0 m buf image o)
    (made : relocate rlad image (recordFields (bytes m0 q len.toNat)).1
      (recordFields (bytes m0 q len.toNat)).2 = .ok result) :
    ∃ image', Holds m0 (processRLD m buf rlad q len).1 buf image' o ∧
      image'.length = image.length ∧
      result = if (processRLD m buf rlad q len).2 = none then some image' else none := by
  by_cases header : len < 16
  · have cut : (bytes m0 q len.toNat).length < 16 := by
      rw [bytes_length]
      omega
    obtain ⟨complaint, loop⟩ := @rldLoop_short m buf rlad q 16 len false (by omega)
      (by simp [skipRP]; omega)
    rw [recordFields, if_pos cut] at made
    rw [processRLD, loop]
    exact ⟨image, holds, rfl, by simpa [relocate] using made.symm⟩
  · obtain ⟨n, rfl⟩ := Int.eq_ofNat_of_zero_le (show 0 ≤ len by omega)
    have whole : ¬ (bytes m0 q n).length < 16 := by
      rw [bytes_length]
      omega
    have rest : (bytes m0 q n).drop 16 = bytes m0 (q + 16) (n - 16) := drop_bytes m0 q (by omega)
    rw [Int.toNat_natCast, recordFields, if_neg whole, rest] at made
    exact rldLoop_holds space behind holds (by omega) made

/-- The loops stand where the text read so far says. -/
structure InPlace (m0 : Storage) (buf : Nat) (w : Work) (image : List UInt8) (o : Nat) : Prop
    extends Holds m0 w.storage buf image o where
  upto : w.upto = buf + image.length

/-- What is known of the module when a loop is left, or goes on. -/
def Work.progress (w : Work) (image : List UInt8) : Option Left → Progress
  | none => .going image w.lastt
  | some .loaded => .loaded image
  | some .corrupt => .refused

variable {w : Work}

theorem relocationRecord_inPlace {q : Nat} (len : Int) (last : Bool) {progress : Progress}
    {next : List UInt8 → Progress} (space : buf + o < 4294967296) (behind : buf + o ≤ q)
    (stands : InPlace m0 buf w image o)
    (goes : ∀ image, next image =
      if last then .loaded image else .going image (w.storage q).toNat)
    (made : acceptFields rlad image (bytes m0 q len.toNat) next = .ok progress) :
    ∃ image', InPlace m0 buf (relocationRecord buf rlad w q len last).1 image' o ∧
      progress = (relocationRecord buf rlad w q len last).1.progress image'
        (relocationRecord buf rlad w q len last).2 := by
  obtain ⟨result, relocated, known⟩ := Outcome.bind_eq_ok.mp made
  obtain ⟨image', holds, length, same⟩ := processRLD_holds space behind stands.toHolds relocated
  have upto : w.upto = buf + image'.length := by rw [length, stands.upto]
  unfold relocationRecord
  cases h : processRLD w.storage buf rlad q len with
  | mk m said =>
    rw [h] at holds same
    cases said with
    | some complaint =>
      cases same
      cases known
      exact ⟨image', ⟨holds, upto⟩, rfl⟩
    | none =>
      cases same
      cases known
      cases last with
      | true => exact ⟨image', ⟨holds, upto⟩, goes image'⟩
      | false => exact ⟨image', ⟨holds, upto⟩, goes image'⟩

theorem loadRecord_inPlace {q l2 : Nat} {progress : Progress} (space : q + l2 < 4294967296)
    (some_bytes : 0 < l2) (behind : buf + o ≤ q) (stands : InPlace m0 buf w image o)
    (made : accept rlad image w.lastt (bytes m0 q l2) = .ok progress) :
    ∃ w' left image', loadRecord buf rlad w q l2 = .ok (w', left) ∧
      InPlace m0 buf w' image' (q - buf + l2) ∧ progress = w'.progress image' left := by
  have type : (bytes m0 q l2).headD 0 = w.storage q := by
    obtain ⟨n, rfl⟩ := Nat.exists_eq_succ_of_ne_zero (Nat.ne_of_gt some_bytes)
    rw [Nat.succ_eq_add_one, Nat.add_comm, bytes_add]
    simp [bytes, stands.unread q (by omega)]
  unfold accept at made
  unfold loadRecord
  rw [type] at made
  by_cases text : w.lastt = 1 ∨ w.lastt = 3 ∨ w.lastt = 0x0d
  · have moved := stands.toHolds.memmove (n := l2) behind
    have upto : w.upto + l2 = buf + (image ++ bytes m0 q l2).length := by
      rw [List.length_append, bytes_length, stands.upto, Nat.add_assoc]
    rw [← stands.upto] at moved
    simp only [if_pos text] at made ⊢
    rw [if_neg (by omega)]
    by_cases last : w.lastt = 0x0d
    · rw [if_pos last] at made ⊢
      cases made
      exact ⟨_, _, image ++ bytes m0 q l2, rfl, ⟨moved, upto⟩, rfl⟩
    · rw [if_neg last] at made ⊢
      cases made
      exact ⟨_, _, image ++ bytes m0 q l2, rfl, ⟨moved, upto⟩, rfl⟩
  · simp only [if_neg text] at made ⊢
    have reach : o ≤ q - buf + l2 := by omega
    by_cases rld : ((w.storage q).toNat : Int) = 2
    · rw [if_pos rld] at made ⊢
      obtain ⟨image', last, same⟩ := relocationRecord_inPlace l2 false (by omega) behind stands
        (by simp [rld]) made
      exact ⟨_, _, image', rfl, ⟨last.toHolds.later reach, last.upto⟩, same⟩
    rw [if_neg rld] at made ⊢
    by_cases dictionary : ((w.storage q).toNat : Int) = 3
    · simp only [if_pos dictionary, bytes_length] at made ⊢
      by_cases outside : l2 < 8 ∨ (l2 : Int) < short (ofBytes (bytes m0 q l2)) 6 + 16
      · rw [if_pos outside] at made
        cases made
      · have len : short (ofBytes (bytes m0 q l2)) 6 = short w.storage (q + 6) := by
          rw [short_bytes m0 q (by omega), stands.short_eq (by omega)]
        rw [if_neg outside, len, take_bytes m0 q (by omega)] at made
        obtain ⟨image', last, same⟩ := relocationRecord_inPlace _ false (by omega) behind stands
          (by simp [dictionary]) made
        exact ⟨_, _, image', rfl, ⟨last.toHolds.later reach, last.upto⟩, same⟩
    rw [if_neg dictionary] at made ⊢
    by_cases final : ((w.storage q).toNat : Int) = 0x0e
    · rw [if_pos final] at made ⊢
      obtain ⟨image', last, same⟩ := relocationRecord_inPlace l2 true (by omega) behind stands
        (by simp) made
      exact ⟨_, _, image', rfl, ⟨last.toHolds.later reach, last.upto⟩, same⟩
    rw [if_neg final] at made ⊢
    cases made
    exact ⟨_, _, image, rfl, ⟨stands.toHolds.later reach, stands.upto⟩, rfl⟩

/-- The first record of a block in storage, and the records behind it. -/
theorem records_bytes {p n l : Nat} (length : short m0 p = l) (some_bytes : 0 < l)
    (fits : 2 + l ≤ n) {later : List (List UInt8) × Ending}
    (behind : (n = 2 + l ∧ later = ([], .clean)) ∨
      (n ≠ 2 + l ∧ n < 2 + l + 12 ∧ later = ([], .corrupt)) ∨
      (2 + l + 12 ≤ n ∧ later = records (bytes m0 (p + (2 + l + 10)) (n - (2 + l + 10))))) :
    records (bytes m0 p n) = (bytes m0 (p + 2) l :: later.1, later.2) := by
  have data : ((bytes m0 p n).drop 2).take l = bytes m0 (p + 2) l := by
    rw [drop_bytes m0 p (by omega), take_bytes m0 _ (by omega)]
  have l2 : short (ofBytes (bytes m0 p n)) 0 = l := by
    rw [short_bytes m0 p (by omega), Nat.add_zero, length]
  rw [records_eq l2 some_bytes (by rw [bytes_length]; exact fits), data]
  rw [bytes_length]
  obtain ⟨whole, rfl⟩ | ⟨more, short, rfl⟩ | ⟨room, rfl⟩ := behind
  · exact Or.inl ⟨whole, rfl⟩
  · exact Or.inr (Or.inl ⟨more, short, rfl⟩)
  · refine Or.inr (Or.inr ⟨room, ?_⟩)
    rw [drop_bytes m0 p (by omega)]

/-- One record of `l` bytes: the loop goes on behind it as the module does. -/
theorem recordLoop_record {fuel n l : Nat} {progress : Progress}
    {later : List (List UInt8) × Ending} (length : short w.storage (buf + o) = l)
    (some_bytes : 0 < l) (fits : 2 + l ≤ n) (space : buf + o + n < 4294967296)
    (stands : InPlace m0 buf w image o)
    (made : acceptAll rlad image w.lastt (bytes m0 (buf + (o + 2)) l :: later.1) later.2 =
      .ok progress)
    (goesOn : ∀ w' image', InPlace m0 buf w' image' (o + 2 + l) →
      acceptAll rlad image' w'.lastt later.1 later.2 = .ok progress →
      ∃ w'' left image'', (if (n : Int) - 2 - l = 0 then .ok (w', none)
        else if (n : Int) - 2 - l < 12 then .ok (w', some .corrupt)
        else recordLoop buf rlad fuel w' (buf + (o + 2 + l) + 10) (n - 2 - l - 10)) =
          .ok (w'', left) ∧
        InPlace m0 buf w'' image'' (o + n) ∧ progress = w''.progress image'' left) :
    ∃ w'' left image'', recordLoop buf rlad (fuel + 1) w (buf + o) n = .ok (w'', left) ∧
      InPlace m0 buf w'' image'' (o + n) ∧ progress = w''.progress image'' left := by
  have next : advance (buf + (o + 2)) l = buf + (o + 2 + l) := by
    unfold advance
    omega
  have reached : buf + (o + 2) - buf + l = o + 2 + l := by omega
  have first : InPlace m0 buf w image (o + 2) := ⟨stands.toHolds.later (by omega), stands.upto⟩
  obtain ⟨known, accepted, rest⟩ := Outcome.bind_eq_ok.mp made
  obtain ⟨w', left, image', ran, stands', rfl⟩ :=
    loadRecord_inPlace (by omega) some_bytes (Nat.le_refl _) first accepted
  rw [reached] at stands'
  have long : ¬ short w.storage (buf + o) > (n : Int) - 2 := by omega
  have positive : ¬ short w.storage (buf + o) = 0 := by omega
  rw [recordLoop]
  dsimp only
  rw [if_neg long, if_neg positive, length, Nat.add_assoc, ran, Outcome.ok_bind]
  cases left with
  | none =>
    dsimp only
    rw [next]
    exact goesOn w' image' stands' rest
  | some left =>
    refine ⟨w', some left, image', rfl, ⟨stands'.toHolds.later (by omega), stands'.upto⟩, ?_⟩
    cases left with
    | corrupt =>
      cases rest
      rfl
    | loaded =>
      cases rest
      rfl

/-- The loop over the records of a block does to the text what the records say. -/
theorem recordLoop_inPlace {fuel n : Nat} {progress : Progress} (enough : n < fuel) (two : 2 ≤ n)
    (space : buf + o + n < 4294967296) (stands : InPlace m0 buf w image o)
    (made : acceptAll rlad image w.lastt (records (bytes m0 (buf + o) n)).1
      (records (bytes m0 (buf + o) n)).2 = .ok progress) :
    ∃ w' left image', recordLoop buf rlad fuel w (buf + o) n = .ok (w', left) ∧
      InPlace m0 buf w' image' (o + n) ∧ progress = w'.progress image' left := by
  induction fuel generalizing w image o n with
  | zero => omega
  | succ fuel ih =>
    have unread : short w.storage (buf + o) = short m0 (buf + o) := stands.short_eq (Nat.le_refl _)
    by_cases regular : 0 < short w.storage (buf + o) ∧ 2 + short w.storage (buf + o) ≤ n
    · obtain ⟨l, length⟩ := Int.eq_ofNat_of_zero_le (Int.le_of_lt regular.1)
      obtain ⟨some_bytes, fits⟩ : 0 < l ∧ 2 + l ≤ n := by omega
      have length0 : short m0 (buf + o) = l := unread.symm.trans length
      rcases Nat.eq_or_lt_of_le fits with whole | more
      · rw [records_bytes length0 some_bytes fits (Or.inl ⟨whole.symm, rfl⟩)] at made
        refine recordLoop_record length some_bytes fits space stands made
          fun w' image' stands' rest => ?_
        cases rest
        exact ⟨w', none, image', if_pos (by omega),
          ⟨stands'.toHolds.later (by omega), stands'.upto⟩, rfl⟩
      by_cases cut : n < 2 + l + 12
      · rw [records_bytes length0 some_bytes fits (Or.inr (Or.inl ⟨by omega, cut, rfl⟩))] at made
        refine recordLoop_record length some_bytes fits space stands made
          fun w' image' stands' rest => ?_
        cases rest
        refine ⟨w', some .corrupt, image', ?_,
          ⟨stands'.toHolds.later (by omega), stands'.upto⟩, rfl⟩
        rw [if_neg (by omega), if_pos (by omega)]
      · rw [records_bytes length0 some_bytes fits (Or.inr (Or.inr ⟨by omega, rfl⟩))] at made
        refine recordLoop_record length some_bytes fits space stands made
          fun w' image' stands' rest => ?_
        have place : buf + o + (2 + l + 10) = buf + (o + (2 + l + 10)) := Nat.add_assoc _ _ _
        rw [place] at rest
        obtain ⟨w'', left, image'', ran, stands'', known⟩ := ih (by omega) (by omega) (by omega)
          (⟨stands'.toHolds.later (by omega), stands'.upto⟩ :
            InPlace m0 buf w' image' (o + (2 + l + 10))) rest
        refine ⟨w'', left, image'', ?_, ⟨stands''.toHolds.later (by omega), stands''.upto⟩, known⟩
        have behind : buf + (o + 2 + l) + 10 = buf + (o + (2 + l + 10)) := by omega
        have left_bytes : (n : Int) - 2 - l - 10 = ((n - (2 + l + 10) : Nat) : Int) := by omega
        rw [if_neg (by omega), if_neg (by omega), behind, left_bytes]
        exact ran
    · have l2 : short (ofBytes (bytes m0 (buf + o) n)) 0 = short w.storage (buf + o) := by
        rw [short_bytes m0 _ (by omega), Nat.add_zero, unread]
      rw [records] at made
      simp only [bytes_length, l2] at made
      rw [recordLoop]
      dsimp only
      by_cases long : (n : Int) < 2 + short w.storage (buf + o)
      · rw [if_pos long] at made
        rw [if_pos (by omega)]
        cases made
        exact ⟨w, _, image, rfl, ⟨stands.toHolds.later (by omega), stands.upto⟩, rfl⟩
      · rw [if_neg long] at made
        rw [if_neg (by omega)]
        by_cases none_left : short w.storage (buf + o) = 0
        · rw [if_pos none_left] at made ⊢
          cases made
          exact ⟨w, _, image, rfl, ⟨stands.toHolds.later (by omega), stands.upto⟩, rfl⟩
        · rw [if_neg none_left, if_pos (by omega)] at made
          cases made

variable {fuel inner n rec : Nat} {entry : Option Nat}

theorem blockLoop_corrupt {p : Nat} {rem : Int} (records : 3 ≤ rec)
    (bad : short w.storage p > rem ∨ short w.storage p < 16) :
    blockLoop buf rlad inner (fuel + 1) w entry rec p rem = .ok (w, entry, .corrupt) := by
  rw [blockLoop]
  dsimp only
  by_cases long : short w.storage p > rem
  · exact if_pos long
  · have small : short w.storage p < 16 := by omega
    rw [if_neg long, loadBlock, if_neg (by omega), if_pos (by omega), if_pos small]
    rfl

/-- A block whose records leave the loop, or after which the next block is read. -/
theorem blockLoop_records {l p : Nat} (records : 3 ≤ rec) (length : short w.storage p = l)
    (fits : l ≤ n) (room : 16 ≤ l) :
    blockLoop buf rlad inner (fuel + 1) w entry rec p n =
      (recordLoop buf rlad inner w (p + 14) (l - 14 : Nat) >>= fun
        | (w', some left) => .ok (w', entry, left)
        | (w', none) =>
          if (n : Int) - l ≠ 0 ∧ (n : Int) - l < 2 then .ok (w', entry, .corrupt)
          else blockLoop buf rlad inner fuel w' entry (rec + 1) (advance p l) (n - l)) := by
  have behind : (l : Int) - 4 - 10 = ((l - 14 : Nat) : Int) := by omega
  rw [blockLoop]
  dsimp only
  rw [length, if_neg (by omega), loadBlock, if_neg (by omega), if_pos (by omega),
    if_neg (by omega), behind]
  cases recordLoop buf rlad inner w (p + 14) (l - 14 : Nat) with
  | ok after =>
    obtain ⟨w', left⟩ := after
    cases left with
    | none => rfl
    | some left => rfl
  | panic message => rfl
  | fault => rfl
  | diverge => rfl

theorem blockLoop_inPlace (fuel inner : Nat) {progress : Progress} (enough : n < fuel)
    (enoughInner : n < inner) (records : 3 ≤ rec) (space : buf + o + n < 4294967296)
    (stands : InPlace m0 buf w image o)
    (made : acceptAll rlad image w.lastt (blocks (bytes m0 (buf + o) n)).1
      (blocks (bytes m0 (buf + o) n)).2 = .ok progress) :
    ∃ w' left image', blockLoop buf rlad inner fuel w entry rec (buf + o) n =
        .ok (w', entry, left) ∧
      InPlace m0 buf w' image' (o + n) ∧ progress = w'.progress image' (some left) := by
  induction fuel generalizing w image o n rec with
  | zero => omega
  | succ fuel ih =>
    have unread : short w.storage (buf + o) = short m0 (buf + o) := stands.short_eq (Nat.le_refl _)
    have l0 : 2 ≤ n → short (ofBytes (bytes m0 (buf + o) n)) 0 = short w.storage (buf + o) :=
      fun two => by rw [short_bytes m0 _ (by omega), Nat.add_zero, unread]
    by_cases bad : n < 2 ∨ (n : Int) < short w.storage (buf + o) ∨ short w.storage (buf + o) < 16
    · have stop : (blocks (bytes m0 (buf + o) n)) = ([], .corrupt) := by
        rw [blocks]
        simp only [bytes_length]
        refine if_pos ?_
        by_cases two : 2 ≤ n
        · rw [l0 two]
          exact bad
        · omega
      rw [stop] at made
      cases made
      refine ⟨w, .corrupt, image, blockLoop_corrupt records (by omega), ?_, rfl⟩
      exact ⟨stands.toHolds.later (by omega), stands.upto⟩
    obtain ⟨l, length⟩ := Int.eq_ofNat_of_zero_le (show 0 ≤ short w.storage (buf + o) by omega)
    have block : ((bytes m0 (buf + o) n).take l).drop 14 = bytes m0 (buf + (o + 14)) (l - 14) := by
      rw [take_bytes m0 _ (by omega), drop_bytes m0 _ (by omega), Nat.add_assoc]
    have rest : (bytes m0 (buf + o) n).drop l = bytes m0 (buf + (o + l)) (n - l) := by
      rw [drop_bytes m0 _ (by omega), Nat.add_assoc]
    have next : advance (buf + o) l = buf + (o + l) := by
      unfold advance
      omega
    have first : InPlace m0 buf w image (o + 14) := ⟨stands.toHolds.later (by omega), stands.upto⟩
    rcases listed : Loadzero.records (bytes m0 (buf + (o + 14)) (l - 14)) with ⟨now, ending⟩
    have shape : blocks (bytes m0 (buf + o) n) =
        if ending = .clean then
          (now ++ (blocks (bytes m0 (buf + (o + l)) (n - l))).1,
            (blocks (bytes m0 (buf + (o + l)) (n - l))).2)
        else (now, ending) := by
      rw [blocks]
      simp only [bytes_length, l0 (by omega), length, Int.toNat_natCast, block, rest, listed]
      rw [if_neg (by omega)]
      cases ending <;> rfl
    rw [shape] at made
    rw [blockLoop_records records length (by omega) (by omega), Nat.add_assoc]
    have inside : ∀ {known}, acceptAll rlad image w.lastt now ending = .ok known →
        ∃ w' left image', recordLoop buf rlad inner w (buf + (o + 14)) (l - 14 : Nat) =
            .ok (w', left) ∧
          InPlace m0 buf w' image' (o + l) ∧ known = w'.progress image' left := by
      intro known accepted
      have read := @recordLoop_inPlace m0 buf (o + 14) rlad image w inner (l - 14) known (by omega)
        (by omega) (by omega) first (by rw [listed]; exact accepted)
      have reached : o + 14 + (l - 14) = o + l := by omega
      rwa [reached] at read
    by_cases clean : ending = .clean
    · subst clean
      simp only [if_true, acceptAll_append] at made
      obtain ⟨known, accepted, later⟩ := Outcome.bind_eq_ok.mp made
      obtain ⟨w', left, image', ran, stands', rfl⟩ := inside accepted
      rw [ran, Outcome.ok_bind]
      cases left with
      | some left =>
        refine ⟨w', left, image', rfl, ⟨stands'.toHolds.later (by omega), stands'.upto⟩, ?_⟩
        cases left with
        | corrupt =>
          cases later
          rfl
        | loaded =>
          cases later
          rfl
      | none =>
        have left_bytes : (n : Int) - l = ((n - l : Nat) : Int) := by omega
        dsimp only [Work.progress] at later ⊢
        rw [next, left_bytes]
        by_cases one : n - l = 1
        · have stop : blocks (bytes m0 (buf + (o + l)) (n - l)) = ([], .corrupt) := by
            rw [blocks]
            simp only [bytes_length]
            exact if_pos (by omega)
          rw [stop] at later
          cases later
          refine ⟨w', .corrupt, image', if_pos (by omega), ?_, rfl⟩
          exact ⟨stands'.toHolds.later (by omega), stands'.upto⟩
        · rw [if_neg (by omega)]
          have goesOn := @ih (o + l) image' w' (n - l) (rec + 1) (by omega) (by omega) (by omega)
            (by omega) stands' later
          have reached : o + l + (n - l) = o + n := by omega
          rwa [reached] at goesOn
    · have whole : acceptAll rlad image w.lastt now ending = .ok progress := by
        rwa [if_neg clean] at made
      obtain ⟨w', left, image', ran, stands', rfl⟩ := inside whole
      rw [ran, Outcome.ok_bind]
      cases left with
      | none => exact absurd (acceptAll_going whole) clean
      | some left =>
        exact ⟨w', left, image', rfl, ⟨stands'.toHolds.later (by omega), stands'.upto⟩, rfl⟩

/-- One of the first two blocks is skipped. -/
theorem blockLoop_skip (rec : Nat) {result : Option (List UInt8)} (header : rec < 2) (more : n ≠ 1)
    (space : buf + o + n < 4294967296) (stands : InPlace m0 buf w image o)
    (skipped : skipBlock (bytes m0 (buf + o) n) = .ok result) :
    (result = none ∧
      blockLoop buf rlad inner (fuel + 1) w entry rec (buf + o) n = .ok (w, entry, .corrupt)) ∨
    ∃ l, l ≤ n ∧ result = some (bytes m0 (buf + (o + l)) (n - l)) ∧
      blockLoop buf rlad inner (fuel + 1) w entry rec (buf + o) n =
        if n - l = 1 then .ok (w, entry, .corrupt)
        else blockLoop buf rlad inner fuel w entry (rec + 1) (buf + (o + l)) (n - l : Nat) := by
  unfold skipBlock at skipped
  simp only [bytes_length] at skipped
  by_cases empty : n = 0
  · rw [if_pos empty] at skipped
    cases skipped
  have l0 : short (ofBytes (bytes m0 (buf + o) n)) 0 = short w.storage (buf + o) := by
    rw [short_bytes m0 _ (by omega), Nat.add_zero, stands.short_eq (Nat.le_refl _)]
  rw [if_neg empty, l0] at skipped
  rw [blockLoop]
  dsimp only
  by_cases long : (n : Int) < short w.storage (buf + o)
  · rw [if_pos (Or.inr long)] at skipped
    cases skipped
    exact Or.inl ⟨rfl, if_pos long⟩
  rw [if_neg (by omega)] at skipped
  by_cases negative : short w.storage (buf + o) < 0
  · rw [if_pos negative] at skipped
    cases skipped
  obtain ⟨l, length⟩ := Int.eq_ofNat_of_zero_le (show 0 ≤ short w.storage (buf + o) by omega)
  have next : advance (buf + o) l = buf + (o + l) := by
    unfold advance
    omega
  have left_bytes : (n : Int) - l = ((n - l : Nat) : Int) := by omega
  rw [if_neg negative, length, Int.toNat_natCast, drop_bytes m0 _ (by omega), Nat.add_assoc]
    at skipped
  cases skipped
  refine Or.inr ⟨l, by omega, rfl, ?_⟩
  rw [length, if_neg (by omega), loadBlock, if_neg (by omega), if_neg (by omega),
    Outcome.ok_bind, next, left_bytes]
  by_cases one : n - l = 1
  · rw [if_pos one]
    exact if_pos (by omega)
  · rw [if_neg one]
    exact if_neg (by omega)

theorem blockLoop_no_directory (stands : InPlace m0 buf w image o)
    (missing : directory (bytes m0 (buf + o) n) = none) :
    blockLoop buf rlad inner (fuel + 1) w entry 2 (buf + o) n = .ok (w, entry, .corrupt) := by
  rw [blockLoop]
  dsimp only
  by_cases long : short w.storage (buf + o) > n
  · exact if_pos long
  rw [if_neg long, loadBlock, if_pos rfl]
  by_cases small : short w.storage (buf + o) < 292
  · rw [if_pos small]
    rfl
  have l0 : short (ofBytes (bytes m0 (buf + o) n)) 0 = short w.storage (buf + o) := by
    rw [short_bytes m0 _ (by omega), Nat.add_zero, stands.short_eq (Nat.le_refl _)]
  have l2 : short (ofBytes (bytes m0 (buf + o) n)) 24 = short w.storage (buf + o + 24) := by
    rw [short_bytes m0 _ (by omega), stands.short_eq (by omega)]
  have smallEntry : short w.storage (buf + o + 24) < 32 := by
    by_contra large
    unfold directory at missing
    simp only [bytes_length, l0, l2] at missing
    rw [if_neg (by omega)] at missing
    cases missing
  rw [if_neg small]
  dsimp only
  rw [if_pos smallEntry]
  rfl

theorem blockLoop_directory {ent : Nat} {rest : List UInt8} (space : buf + o + n < 4294967296)
    (stands : InPlace m0 buf w image o)
    (found : directory (bytes m0 (buf + o) n) = some (ent, rest)) :
    ∃ l, 292 ≤ l ∧ l ≤ n ∧ rest = bytes m0 (buf + (o + l)) (n - l) ∧
      blockLoop buf rlad inner (fuel + 1) w entry 2 (buf + o) n =
        if n - l = 1 then .ok (w, some (u32 (buf + ent)), .corrupt)
        else blockLoop buf rlad inner fuel w (some (u32 (buf + ent))) 3 (buf + (o + l))
          (n - l : Nat) := by
  unfold directory at found
  simp only [bytes_length] at found
  split at found
  · cases found
  case isFalse good =>
    have l0 : short (ofBytes (bytes m0 (buf + o) n)) 0 = short w.storage (buf + o) := by
      rw [short_bytes m0 _ (by omega), Nat.add_zero, stands.short_eq (Nat.le_refl _)]
    rw [l0] at good found
    have l2 : short (ofBytes (bytes m0 (buf + o) n)) 24 = short w.storage (buf + o + 24) := by
      rw [short_bytes m0 _ (by omega), stands.short_eq (by omega)]
    have epa : address (ofBytes (bytes m0 (buf + o) n)) 53 =
        address w.storage (buf + o + 24 + 2 + 27) := by
      rw [address_bytes m0 _ (by omega), stands.address_eq (by omega)]
    rw [l2] at good
    obtain ⟨l, length⟩ := Int.eq_ofNat_of_zero_le (show 0 ≤ short w.storage (buf + o) by omega)
    have next : advance (buf + o) l = buf + (o + l) := by
      unfold advance
      omega
    have left_bytes : (n : Int) - l = ((n - l : Nat) : Int) := by omega
    rw [epa, length, Int.toNat_natCast, drop_bytes m0 _ (by omega), Nat.add_assoc] at found
    cases found
    refine ⟨l, by omega, by omega, by rw [Nat.add_assoc], ?_⟩
    rw [blockLoop]
    dsimp only
    rw [length, if_neg (by omega), loadBlock, if_pos rfl, if_neg (by omega)]
    dsimp only
    rw [if_neg (by omega), Outcome.ok_bind, next, left_bytes]
    by_cases one : n - l = 1
    · rw [if_pos one]
      exact if_pos (by omega)
    · rw [if_neg one]
      exact if_neg (by omega)

/-- What `fixPE` returns says the same as what `load` made of the file. -/
structure Fixed.Reports (fixed : Fixed) (m : Storage) (buf : Nat) (file : List UInt8)
    (result : Option (Nat × List UInt8)) (image : List UInt8) : Prop where
  holds : Holds m fixed.storage buf image file.length
  refused : result = none → fixed.result = -1 ∧ fixed.len = file.length ∧ fixed.said ≠ []
  loaded : ∀ known, result = some known → known.2 = image ∧ fixed.result = 0 ∧
    fixed.len = image.length ∧ fixed.entry = some (u32 (buf + known.1))

section
variable {file : List UInt8}

theorem fixPE_corrupt (executable : ¬ (file.length ≤ 8 ∨ word m (buf + 4) ≠ 0xca6d0f))
    (stands : InPlace m buf w image file.length)
    (ran : blockLoop buf rlad fuel fuel ⟨m, buf, -1, []⟩ none 0 buf file.length =
      .ok (w, entry, .corrupt)) :
    ∃ fixed image, fixPE fuel m buf file.length rlad = .ok fixed ∧
      fixed.Reports m buf file none image := by
  refine ⟨⟨w.storage, file.length, entry, w.said ++ [.corruptModule], -1⟩, image, ?_, ?_⟩
  · rw [fixPE, if_neg executable, ran]
    rfl
  · constructor
    · exact stands.toHolds
    · intro
      exact ⟨rfl, rfl, by simp⟩
    · intro known same
      cases same

theorem fixPE_loaded {ent : Nat} (executable : ¬ (file.length ≤ 8 ∨ word m (buf + 4) ≠ 0xca6d0f))
    (small : file.length < 2147483648) (stands : InPlace m buf w image file.length)
    (ran : blockLoop buf rlad fuel fuel ⟨m, buf, -1, []⟩ none 0 buf file.length =
      .ok (w, some (u32 (buf + ent)), .loaded)) :
    ∃ fixed image', fixPE fuel m buf file.length rlad = .ok fixed ∧
      fixed.Reports m buf file (some (ent, image)) image' := by
  have compact := stands.compact
  have length : signed32 ((w.upto : Int) - buf) = image.length := by
    rw [stands.upto, signed32_eq_self (by omega) (by omega)]
    omega
  refine ⟨⟨w.storage, image.length, some (u32 (buf + ent)), w.said, 0⟩, image, ?_, ?_⟩
  · rw [fixPE, if_neg executable, ran, ← length]
    rfl
  · constructor
    · exact stands.toHolds
    · intro same
      cases same
    · intro known same
      cases same
      exact ⟨rfl, rfl, rfl, rfl⟩

/-- `fixPE` comes to what `load` makes of the file. -/
theorem fixPE_reports {result : Option (Nat × List UInt8)} (held : bytes m buf file.length = file)
    (small : file.length < 2147483648) (space : buf + file.length < 4294967296)
    (enough : file.length < fuel) (loads : load rlad file = .ok result) :
    ∃ fixed image, fixPE fuel m buf file.length rlad = .ok fixed ∧
      fixed.Reports m buf file result image := by
  have magic : 8 < file.length → word (ofBytes file) 4 = word m (buf + 4) := fun long => by
    refine word_congr fun i _ => ?_
    rw [← held, ofBytes_bytes (by omega), Nat.add_assoc]
  unfold load at loads
  by_cases executable : ¬ (file.length ≤ 8 ∨ word m (buf + 4) ≠ 0xca6d0f)
  swap
  · have plain : file.length ≤ 8 ∨ word (ofBytes file) 4 ≠ 0xca6d0f := by
      by_cases long : 8 < file.length
      · rw [magic long]
        exact not_not.mp executable
      · exact Or.inl (by omega)
    rw [if_pos plain] at loads
    cases loads
    refine ⟨⟨m, file.length, none, [.notAnExecutable], -1⟩, [], ?_, ?_⟩
    · rw [fixPE, if_pos (not_not.mp executable)]
    · constructor
      · exact (Holds.start m buf).later (Nat.zero_le _)
      · intro
        exact ⟨rfl, rfl, by simp⟩
      · intro known same
        cases same
  have long : 8 < file.length := by omega
  rw [if_neg (by rw [magic long]; exact executable)] at loads
  obtain ⟨fuel, rfl⟩ : ∃ k, fuel = k + 3 := ⟨fuel - 3, by omega⟩
  have start : InPlace m buf ⟨m, buf, -1, []⟩ [] 0 := ⟨Holds.start m buf, rfl⟩
  have whole : InPlace m buf ⟨m, buf, -1, []⟩ [] file.length :=
    ⟨start.toHolds.later (by omega), rfl⟩
  obtain ⟨result1, skipped1, loads⟩ := Outcome.bind_eq_ok.mp loads
  rw [← held] at skipped1
  rcases blockLoop_skip 0 (by omega) (by omega) (by omega) start skipped1 with
    ⟨rfl, ran⟩ | ⟨l1, le1, rfl, ran1⟩
  · cases loads
    exact fixPE_corrupt executable whole ran
  obtain ⟨result2, skipped2, loads⟩ := Outcome.bind_eq_ok.mp loads
  by_cases one1 : file.length - l1 = 1
  · rw [skipBlock_one (by rw [bytes_length]; exact one1)] at skipped2
    cases skipped2
    cases loads
    exact fixPE_corrupt executable whole (ran1.trans (if_pos one1))
  rw [if_neg one1] at ran1
  have stands1 : InPlace m buf ⟨m, buf, -1, []⟩ [] (0 + l1) :=
    ⟨start.toHolds.later (by omega), rfl⟩
  rcases blockLoop_skip 1 (by omega) one1 (by omega) stands1 skipped2 with
    ⟨rfl, ran2⟩ | ⟨l2, le2, rfl, ran2⟩
  · cases loads
    exact fixPE_corrupt executable whole (ran1.trans ran2)
  have stands2 : InPlace m buf ⟨m, buf, -1, []⟩ [] (0 + l1 + l2) :=
    ⟨start.toHolds.later (by omega), rfl⟩
  dsimp only at loads
  cases found : directory (bytes m (buf + (0 + l1 + l2)) (file.length - l1 - l2)) with
  | none =>
    rw [found] at loads
    cases loads
    by_cases one2 : file.length - l1 - l2 = 1
    · exact fixPE_corrupt executable whole (ran1.trans (ran2.trans (if_pos one2)))
    · rw [if_neg one2, blockLoop_no_directory stands2 found] at ran2
      exact fixPE_corrupt executable whole (ran1.trans ran2)
  | some entry =>
    obtain ⟨ent, rest⟩ := entry
    rw [found] at loads
    obtain ⟨l3, large, le3, rfl, ran3⟩ := blockLoop_directory (by omega) stands2 found
    rw [if_neg (by omega), ran3] at ran2
    obtain ⟨progress, accepted, known⟩ := Outcome.bind_eq_ok.mp loads
    have stands3 : InPlace m buf ⟨m, buf, -1, []⟩ [] (0 + l1 + l2 + l3) :=
      ⟨start.toHolds.later (by omega), rfl⟩
    by_cases one3 : file.length - l1 - l2 - l3 = 1
    · rw [blocks_short (by rw [bytes_length]; omega)] at accepted
      cases accepted
      cases known
      exact fixPE_corrupt executable whole (ran1.trans (ran2.trans (if_pos one3)))
    obtain ⟨w, left, image, ran4, stands4, rfl⟩ :=
      blockLoop_inPlace fuel (fuel + 3) (by omega) (by omega) (Nat.le_refl 3) (by omega) stands3
        accepted
    have reached : 0 + l1 + l2 + l3 + (file.length - l1 - l2 - l3) = file.length := by omega
    rw [if_neg one3, ran4] at ran2
    rw [reached] at stands4
    cases left with
    | corrupt =>
      cases known
      exact fixPE_corrupt executable stands4 (ran1.trans ran2)
    | loaded =>
      cases known
      exact fixPE_loaded executable small stands4 (ran1.trans ran2)

/-- `fixPE` has done what `load` makes of the file, and has left the storage outside
the file as it was. -/
structure Fixed.Agrees (fixed : Fixed) (m : Storage) (buf : Nat) (file : List UInt8)
    (result : Option (Nat × List UInt8)) : Prop where
  outside : ∀ x, x < buf ∨ buf + file.length ≤ x → fixed.storage x = m x
  refused : result = none → fixed.result = -1 ∧ fixed.len = file.length ∧ fixed.said ≠ []
  loaded : ∀ ent image, result = some (ent, image) → fixed.result = 0 ∧
    fixed.len = image.length ∧ fixed.entry = some (u32 (buf + ent)) ∧
    bytes fixed.storage buf image.length = image

/-- Where `load` does not fault, `fixPE` comes to the same in place: the same modules
are refused, and a module that is not refused leaves its relocated text, its length
and its entry point, and nothing outside the file has changed. -/
theorem fixPE_agrees {result : Option (Nat × List UInt8)} (held : bytes m buf file.length = file)
    (small : file.length < 2147483648) (space : buf + file.length < 4294967296)
    (enough : file.length < fuel) (loads : load rlad file = .ok result) :
    ∃ fixed, fixPE fuel m buf file.length rlad = .ok fixed ∧ fixed.Agrees m buf file result := by
  obtain ⟨fixed, image, ran, reports⟩ := fixPE_reports held small space enough loads
  refine ⟨fixed, ran, ?_⟩
  constructor
  · exact reports.holds.unread
  · exact reports.refused
  · intro ent text same
    obtain ⟨rfl, passed, length, entry⟩ := reports.loaded (ent, text) same
    exact ⟨passed, length, entry, reports.holds.text⟩

/-- What `main` writes when `load` does not fault: nothing for a module that is refused,
and otherwise the relocated text, whatever the buffer held before. -/
theorem main_writes {rlad : Nat} {result : Option (Nat × List UInt8)}
    (fits : file.length < maxExe) (space : buf + file.length < 4294967296)
    (enough : file.length < fuel) (loads : load (signed32 rlad) file = .ok result) :
    ∃ said, main fuel m buf file rlad =
      .ok (said, result.map fun known => (some (u32 (buf + known.1)), known.2)) := by
  have whole : file.take maxExe = file := List.take_of_length_le (Nat.le_of_lt fits)
  have held : bytes (store m buf file) buf file.length = file := store_bytes m buf file
  obtain ⟨fixed, image, ran, known⟩ := fixPE_reports held (by unfold maxExe at fits; omega) space
    enough loads
  have notFull : ¬ file.length = maxExe := by omega
  rw [main]
  simp only [whole]
  rw [if_neg notFull, ran, Outcome.ok_bind]
  cases result with
  | none =>
    obtain ⟨failed, _, _⟩ := known.refused rfl
    refine ⟨fixed.said ++ [.errorFixingPE], ?_⟩
    rw [if_pos (by omega)]
    rfl
  | some entry_text =>
    obtain ⟨rfl, passed, length, entry⟩ := known.loaded entry_text rfl
    refine ⟨fixed.said, ?_⟩
    rw [if_neg (by omega), length, Int.toNat_natCast, known.holds.text, entry]
    rfl

end

end Loadzero
