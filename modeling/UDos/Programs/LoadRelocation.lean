import Mathlib.Data.List.Induction
import UDos.Programs.LoadInPlace

/-!
# One module at many addresses

What a module looks like at an address is what it looks like at address 0, with
the address added to the words that its relocation records name. Which words
these are does not depend on the address.
-/

namespace Loadzero

open Storage KernelMemory

variable {rlad : Int} {image : List UInt8} {zs : List Nat} {complete : Bool}

/-- Patches of text that is there stay where they are when text is appended. -/
theorem patchAllBytes_append (rlad : Int) (data : List UInt8)
    (inside : ∀ z ∈ zs, z + 4 ≤ image.length) :
    patchAllBytes (image ++ data) zs rlad = patchAllBytes image zs rlad ++ data := by
  induction zs using List.reverseRecOn with
  | nil =>
    have none_made : ∀ bs : List UInt8, patchAllBytes bs [] rlad = bs := bytes_ofBytes
    rw [none_made, none_made]
  | append_singleton zs z ih =>
    have before : ∀ z' ∈ zs, z' + 4 ≤ image.length := fun z' member =>
      inside z' (List.mem_append_left _ member)
    have before' : ∀ z' ∈ zs, z' + 4 ≤ (image ++ data).length := fun z' member => by
      have := before z' member
      rw [List.length_append]
      omega
    have last : z + 4 ≤ (patchAllBytes image zs rlad).length := by
      rw [patchAllBytes_length]
      exact inside z (List.mem_append_right _ List.mem_cons_self)
    rw [patchAllBytes_snoc _ zs z rlad before', patchAllBytes_snoc _ zs z rlad before, ih before,
      patchBytes_append last]

theorem patchBytes_zero {z : Nat} (image : List UInt8) : patchBytes image z 0 = image := by
  rw [patchBytes, patch_zero]
  exact bytes_ofBytes image

/-- At address 0 the fields are all there, and the text stays as it is. -/
theorem relocate_zero {fs : List Field} {result : Option (List UInt8)}
    (made : relocate 0 image fs complete = .ok result) :
    (∀ f ∈ fs, f.Inside image.length) ∧ result = if complete then some image else none := by
  induction fs with
  | nil =>
    cases made
    exact ⟨List.forall_mem_nil _, rfl⟩
  | cons f later ih =>
    rw [relocate, if_neg (by omega)] at made
    split at made
    · case isTrue inside =>
      rw [patchBytes_zero] at made
      obtain ⟨others, same⟩ := ih made
      refine ⟨fun g member => ?_, same⟩
      rcases List.mem_cons.mp member with rfl | member
      · exact inside
      · exact others g member
    · cases made

/-- Fields that are there can be relocated for every address that they allow. -/
theorem relocate_patches {fs : List Field} (allowed : Allowed rlad fs)
    (inside : ∀ z ∈ zs, z + 4 ≤ image.length) (there : ∀ f ∈ fs, f.Inside image.length) :
    relocate rlad (patchAllBytes image zs rlad) fs complete =
      .ok (if complete then some (patchAllBytes image (zs ++ fs.map Field.zaploc) rlad)
        else none) := by
  induction fs generalizing zs with
  | nil => simp [relocate]
  | cons f later ih =>
    have here : f.Inside image.length := there f List.mem_cons_self
    have next : ∀ z ∈ zs ++ [f.zaploc], z + 4 ≤ image.length := by
      intro z member
      rcases List.mem_append.mp member with member | member
      · exact inside z member
      · rw [List.mem_singleton.mp member]
        exact here.2
    obtain ⟨now, later_allowed⟩ := allowed_cons.mp allowed
    have made := ih later_allowed next fun g member => there g (List.mem_cons_of_mem f member)
    rw [relocate, if_neg (fun large => by have := now large.1; omega), patchAllBytes_length,
    if_pos here,
      ← patchAllBytes_snoc image zs f.zaploc rlad inside, made, List.map_cons,
      List.append_assoc, List.singleton_append]

/-- The same with the address added to the words at these places. -/
def Progress.relocated (zs : List Nat) (rlad : Int) : Progress → Progress
  | .going image lastt => .going (patchAllBytes image zs rlad) lastt
  | .loaded image => .loaded (patchAllBytes image zs rlad)
  | .refused => .refused

/-- The places are in the text. -/
def Progress.Covers (zs : List Nat) : Progress → Prop
  | .going image _ => ∀ z ∈ zs, z + 4 ≤ image.length
  | .loaded image => ∀ z ∈ zs, z + 4 ≤ image.length
  | .refused => True

/-- The loader at address 0 comes to `progress`, and there are more places such that
at every address in 24 bits it comes to the same with the address added there. -/
def Moves (zs : List Nat) (progress : Progress) (at_address : Int → Outcome Progress) : Prop :=
  ∃ more, progress.Covers (zs ++ more) ∧
    ∀ rlad ≤ 0xffffff, at_address rlad = .ok (progress.relocated (zs ++ more) rlad)

theorem acceptFields_moves {data : List UInt8} {progress : Progress}
    {next : List UInt8 → Progress} (inside : ∀ z ∈ zs, z + 4 ≤ image.length)
    (covers : ∀ zs', (∀ z ∈ zs', z + 4 ≤ image.length) → (next image).Covers zs')
    (moves : ∀ zs' rlad, next (patchAllBytes image zs' rlad) = (next image).relocated zs' rlad)
    (made : acceptFields 0 image data next = .ok progress) :
    Moves zs progress fun rlad => acceptFields rlad (patchAllBytes image zs rlad) data next := by
  obtain ⟨result, relocated, known⟩ := Outcome.bind_eq_ok.mp made
  obtain ⟨there, rfl⟩ := relocate_zero relocated
  refine ⟨(recordFields data).1.map Field.zaploc, ?_, fun rlad low => ?_⟩
  · have all : ∀ z ∈ zs ++ (recordFields data).1.map Field.zaploc, z + 4 ≤ image.length := by
      intro z member
      rcases List.mem_append.mp member with member | member
      · exact inside z member
      · obtain ⟨f, found, rfl⟩ := List.mem_map.mp member
        exact (there f found).2
    cases complete : (recordFields data).2 with
    | true =>
      rw [complete] at known
      cases known
      exact covers _ all
    | false =>
      rw [complete] at known
      cases known
      trivial
  · dsimp only
    rw [acceptFields, relocate_patches (allowed_of_low low _) inside there]
    cases complete : (recordFields data).2 with
    | true =>
      rw [complete] at known
      cases known
      rw [← moves]
      rfl
    | false =>
      rw [complete] at known
      cases known
      rfl

theorem accept_moves {lastt : Int} {data : List UInt8} {progress : Progress}
    (inside : ∀ z ∈ zs, z + 4 ≤ image.length)
    (made : accept 0 image lastt data = .ok progress) :
    Moves zs progress fun rlad => accept rlad (patchAllBytes image zs rlad) lastt data := by
  unfold accept at made ⊢
  by_cases text : lastt = 1 ∨ lastt = 3 ∨ lastt = 0x0d
  · have appended : ∀ z ∈ zs ++ [], z + 4 ≤ (image ++ data).length := fun z member => by
      have := inside z (by simpa using member)
      rw [List.length_append]
      omega
    simp only [if_pos text] at made ⊢
    by_cases last : lastt = 0x0d
    · rw [if_pos last] at made
      cases made
      refine ⟨[], appended, fun rlad _ => ?_⟩
      dsimp only
      rw [if_pos last, ← patchAllBytes_append rlad data inside, List.append_nil]
      rfl
    · rw [if_neg last] at made
      cases made
      refine ⟨[], appended, fun rlad _ => ?_⟩
      dsimp only
      rw [if_neg last, ← patchAllBytes_append rlad data inside, List.append_nil]
      rfl
  · simp only [if_neg text] at made ⊢
    by_cases rld : (((data.headD 0).toNat : Int)) = 2
    · simp only [if_pos rld] at made ⊢
      exact acceptFields_moves inside (fun _ all => all) (fun _ _ => rfl) made
    simp only [if_neg rld] at made ⊢
    by_cases dictionary : (((data.headD 0).toNat : Int)) = 3
    · simp only [if_pos dictionary] at made ⊢
      by_cases outside : data.length < 8 ∨ (data.length : Int) < short (ofBytes data) 6 + 16
      · rw [if_pos outside] at made
        cases made
      · simp only [if_neg outside] at made ⊢
        exact acceptFields_moves inside (fun _ all => all) (fun _ _ => rfl) made
    simp only [if_neg dictionary] at made ⊢
    by_cases final : (((data.headD 0).toNat : Int)) = 0x0e
    · simp only [if_pos final] at made ⊢
      exact acceptFields_moves inside (fun _ all => all) (fun _ _ => rfl) made
    simp only [if_neg final] at made ⊢
    cases made
    refine ⟨[], by rwa [List.append_nil], fun rlad _ => ?_⟩
    rw [List.append_nil]
    rfl

theorem acceptAll_moves {all : List (List UInt8)} {ending : Ending} {lastt : Int}
    {progress : Progress} (inside : ∀ z ∈ zs, z + 4 ≤ image.length)
    (made : acceptAll 0 image lastt all ending = .ok progress) :
    Moves zs progress fun rlad =>
      acceptAll rlad (patchAllBytes image zs rlad) lastt all ending := by
  induction all generalizing image lastt zs with
  | nil =>
    cases ending with
    | clean =>
      cases made
      refine ⟨[], by rwa [List.append_nil], fun rlad _ => ?_⟩
      rw [List.append_nil]
      rfl
    | corrupt =>
      cases made
      exact ⟨[], trivial, fun rlad _ => rfl⟩
    | negative => cases made
  | cons data later ih =>
    obtain ⟨before, accepted, rest⟩ := Outcome.bind_eq_ok.mp made
    obtain ⟨new, covers, moved⟩ := accept_moves inside accepted
    dsimp only at moved
    cases before with
    | going image' lastt' =>
      obtain ⟨more, covers', moved'⟩ := ih covers rest
      dsimp only at moved'
      refine ⟨new ++ more, by rwa [← List.append_assoc], fun rlad low => ?_⟩
      dsimp only
      rw [acceptAll, moved rlad low, ← List.append_assoc]
      exact moved' rlad low
    | loaded image' =>
      cases rest
      refine ⟨new, covers, fun rlad low => ?_⟩
      dsimp only
      rw [acceptAll, moved rlad low]
      rfl
    | refused =>
      cases rest
      refine ⟨new, covers, fun rlad low => ?_⟩
      dsimp only
      rw [acceptAll, moved rlad low]
      rfl

/-- A module that loads at address 0 loads at every address in 24 bits. -/
theorem load_moves {file : List UInt8} {ent : Nat} (loads : load 0 file = .ok (some (ent, image))) :
    ∃ zs, (∀ z ∈ zs, z + 4 ≤ image.length) ∧
      ∀ rlad ≤ 0xffffff, load rlad file = .ok (some (ent, patchAllBytes image zs rlad)) := by
  unfold load at loads ⊢
  split at loads
  · cases loads
  case isFalse executable =>
    simp only [if_neg executable]
    obtain ⟨first, skipped1, loads⟩ := Outcome.bind_eq_ok.mp loads
    cases first with
    | none => cases loads
    | some rest1 =>
      obtain ⟨second, skipped2, loads⟩ := Outcome.bind_eq_ok.mp loads
      cases second with
      | none => cases loads
      | some rest2 =>
        dsimp only at loads
        cases found : directory rest2 with
        | none =>
          rw [found] at loads
          cases loads
        | some entry =>
          obtain ⟨ent', rest3⟩ := entry
          rw [found] at loads
          obtain ⟨progress, accepted, known⟩ := Outcome.bind_eq_ok.mp loads
          cases progress with
          | going image' lastt => cases known
          | refused => cases known
          | loaded image' =>
            cases known
            have inside : ∀ z ∈ ([] : List Nat), z + 4 ≤ ([] : List UInt8).length := by simp
            obtain ⟨zs, covers, moved⟩ := acceptAll_moves inside accepted
            refine ⟨zs, covers, fun rlad low => ?_⟩
            have here : acceptAll rlad [] (-1) (blocks rest3).1 (blocks rest3).2 =
                .ok (.loaded (patchAllBytes image zs rlad)) := moved rlad low
            simp only [skipped1, Outcome.ok_bind, skipped2, found, here]

/-- What is written for an address in 24 bits is what is written for address 0 with the
address added to words of the text, the same words for every address. When none of
these words overlaps another, relocating the result again adds up. -/
theorem main_relocates {file : List UInt8} {ent : Nat} (fits : file.length < maxExe)
    (loads : load 0 file = .ok (some (ent, image))) :
    ∃ zs, (∀ z ∈ zs, z + 4 ≤ image.length) ∧
      (∀ (m : Storage) (buf fuel rlad : Nat), rlad ≤ 0xffffff → file.length < fuel →
        buf + file.length < 4294967296 → ∃ said, main fuel m buf file rlad =
          .ok (said, some (some (u32 (buf + ent)), patchAllBytes image zs rlad))) ∧
      (zs.Pairwise WordsApart → ∀ r s : Int,
        patchAllBytes (patchAllBytes image zs r) zs s = patchAllBytes image zs (r + s)) := by
  obtain ⟨zs, inside, moved⟩ := load_moves loads
  refine ⟨zs, inside, ?_, ?_⟩
  · intro m buf fuel rlad low enough space
    have address : signed32 rlad = rlad := signed32_eq_self (by omega) (by omega)
    have loads' : load (signed32 rlad) file =
        .ok (some (ent, patchAllBytes image zs rlad)) := by
      rw [address]
      exact moved rlad (by omega)
    exact main_writes fits space enough loads'
  · intro apart r s
    exact patchAllBytes_patchAllBytes image r s inside apart

end Loadzero
