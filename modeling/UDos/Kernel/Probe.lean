import UDos.Kernel.Handlers

/-!
# Counting the storage

`HwGetMemorySize` reads one word in every MiB until a read is answered by a program
interruption, which `HwCheckAddress` means to catch with a new PSW of its own. The
routine takes the word at the place of the new PSW for the address of that place. What
comes of it depends on the new PSW that the kernel has there.
-/

namespace Probe

open Svc Stubs Handlers

def flcpnpsw : Nat := 104

def psaSize : Nat := 1024

/-- `S390_BIT` -/
def s390Bit (n x : Nat) : Nat := n - 1 - x

/-- The flags of `pc_psw`: the mode of the architecture, and machine checks,
input/output and external interruptions enabled. -/
def kernelFlags : UInt32 :=
  UInt32.ofNat (1 <<< s390Bit 32 12 ||| 1 <<< s390Bit 32 13 ||| 1 <<< s390Bit 32 6 |||
    1 <<< s390Bit 32 7)

/-- The addresses of `CATCHPSW` and `TMPSAVE`, and that of `CATCHPCR` with the mode of
addressing. -/
structure Link where
  catchpsw : Nat
  tmpsave : Nat
  catchpcr : UInt32

/-- What comes of a check: its result, or an interruption that goes to another routine. -/
inductive Checked where
  | returned (rc : UInt32) (m : Storage)
  | taken (psw : Psw) (m : Storage)

section
variable (mode : Mode) (link : Link) (top : Nat)

/-- An access of n bytes is in the storage, which ends at `top`. -/
def Reaches (a n : Nat) : Prop := a % mode.size + n ≤ top

instance (a n : Nat) : Decidable (Reaches mode top a n) := inferInstanceAs (Decidable (_ ≤ _))

/-- A program interruption: the machine loads the new PSW. -/
def programCheck (r3 : Nat) (m : Storage) : Checked :=
  let psw := loadPsw m flcpnpsw
  if psw = ⟨0x020E0000, link.catchpcr⟩ then
    -- CATCHPCR: MVC 0(8,R3),0(R2)
    .returned 1 (m.copyUp r3 link.tmpsave 8)
  else .taken psw m

def hwCheckAddress (m : Storage) (probe : Nat) : Checked :=
  -- L R3,FLCPNPSW
  let r3 := (loadWord m flcpnpsw).toNat % mode.size
  if Reaches mode top r3 8 then
    -- MVC 0(8,R2),0(R3) and MVC 0(8,R3),0(R1)
    let m := (m.copyUp link.tmpsave r3 8).copyUp r3 link.catchpsw 8
    if Reaches mode top probe 4 then .returned 0 (m.copyUp r3 link.tmpsave 8)
    else programCheck link r3 m
  else programCheck link r3 m

/-- How `HwGetMemorySize` ends. -/
inductive Measured where
  | size (bytes : Nat) (m : Storage)
  | taken (probe : Nat) (psw : Psw) (m : Storage)

def hwGetMemorySize : Nat → Storage → Nat → Outcome Measured
  | 0, _, _ => .diverge
  | fuel + 1, m, probe =>
    match hwCheckAddress mode link top m probe with
    | .returned rc m =>
      if rc ≠ 0 then .ok (.size probe m)
      else hwGetMemorySize fuel m (KernelMemory.u32 (probe + 1048576))
    | .taken psw m => .ok (.taken probe psw m)

end

/-- Where the routine takes the new PSW to be. -/
def place (mode : Mode) : Nat := kernelFlags.toNat % mode.size

/-- The new PSW is the kernel's. -/
def Installed (m : Storage) (handler : UInt32) : Prop :=
  loadPsw m flcpnpsw = ⟨kernelFlags, handler⟩

/-- The constants of the routine are in storage, apart from each other, from the new PSW
and from what is taken for it. -/
structure Apart (mode : Mode) (link : Link) : Prop where
  save : 112 ≤ link.tmpsave
  saved : link.tmpsave + 8 ≤ place mode ∨ place mode + 8 ≤ link.tmpsave
  caught : link.catchpsw + 8 ≤ place mode ∨ place mode + 8 ≤ link.catchpsw
  constants : link.catchpsw + 8 ≤ link.tmpsave ∨ link.tmpsave + 8 ≤ link.catchpsw

theorem mode_mib (mode : Mode) : ∃ k, 16 ≤ k ∧ k ≤ 2048 ∧ mode.size = k * 1048576 := by
  cases mode with
  | bits24 => exact ⟨16, by decide, by decide, rfl⟩
  | bits31 => exact ⟨2048, by decide, by decide, rfl⟩

theorem place_above (mode : Mode) : 1024 ≤ place mode ∧ place mode < mode.size := by
  cases mode with
  | bits24 => decide
  | bits31 => decide

section
variable {mode : Mode} {link : Link} {top : Nat} {m m' : Storage} {handler : UInt32}

theorem Installed.word (installed : Installed m handler) :
    (loadWord m flcpnpsw).toNat % mode.size = place mode := by
  have flags : loadWord m flcpnpsw = kernelFlags := congrArg Psw.flags installed
  rw [flags, place]

theorem Installed.congr (installed : Installed m handler) (same : ∀ x < 112, m' x = m x) :
    Installed m' handler := by
  rw [Installed, ← installed]
  have low : ∀ i < 8, flcpnpsw + i < 112 := fun i hi => Nat.add_lt_add_left hi 104
  have flags : loadWord m' flcpnpsw = loadWord m flcpnpsw :=
    loadWord_congr fun i hi => same _ (low i (by omega))
  have address : loadWord m' (flcpnpsw + 4) = loadWord m (flcpnpsw + 4) :=
    loadWord_congr fun i hi => same _ (Nat.add_assoc .. ▸ low (4 + i) (by omega))
  rw [loadPsw, flags, address, loadPsw]

theorem programCheck_installed (installed : Installed m handler) (r3 : Nat) :
    programCheck link r3 m = .taken ⟨kernelFlags, handler⟩ m := by
  have other : loadPsw m flcpnpsw ≠ ⟨0x020E0000, link.catchpcr⟩ := by
    rw [installed]
    intro same
    have flags : kernelFlags = 0x020E0000 := congrArg Psw.flags same
    exact absurd flags (by decide)
  rw [programCheck, if_neg other, installed]

/-- Storage once the routine has stored its PSW. -/
def stored (mode : Mode) (link : Link) (m : Storage) : Storage :=
  (m.copyUp link.tmpsave (place mode) 8).copyUp (place mode) link.catchpsw 8

theorem stored_outside (m : Storage) {x : Nat} (save : x < link.tmpsave ∨ link.tmpsave + 8 ≤ x)
    (psw : x < place mode ∨ place mode + 8 ≤ x) : stored mode link m x = m x :=
  (Storage.copyUp_outside _ psw).trans (Storage.copyUp_outside _ save)

theorem stored_inside (apart : Apart mode link) (m : Storage) {i : Nat} (inside : i < 8) :
    stored mode link m (place mode + i) = m (link.catchpsw + i) := by
  have caught := apart.caught
  have constants := apart.constants
  rw [stored, Storage.copyUp_inside _ (by omega) inside]
  exact Storage.copyUp_outside _ (by omega)

theorem stored_saved (apart : Apart mode link) (m : Storage) {i : Nat} (inside : i < 8) :
    stored mode link m (link.tmpsave + i) = m (place mode + i) := by
  have saved := apart.saved
  rw [stored, Storage.copyUp_outside _ (by omega)]
  exact Storage.copyUp_inside _ (by omega) inside

theorem restored_eq (apart : Apart mode link) (m : Storage) {x : Nat}
    (save : x < link.tmpsave ∨ link.tmpsave + 8 ≤ x) :
    ((stored mode link m).copyUp (place mode) link.tmpsave 8) x = m x := by
  have saved := apart.saved
  by_cases inside : place mode ≤ x ∧ x < place mode + 8
  · obtain ⟨i, rfl⟩ := Nat.exists_eq_add_of_le inside.1
    have small : i < 8 := by omega
    rw [Storage.copyUp_inside _ (by omega) small]
    exact stored_saved apart m small
  · rw [Storage.copyUp_outside _ (by omega)]
    exact stored_outside m save (by omega)

theorem hwCheckAddress_early (installed : Installed m handler) (short : top < place mode + 8)
    (probe : Nat) :
    hwCheckAddress mode link top m probe = .taken ⟨kernelFlags, handler⟩ m := by
  have below := (place_above mode).2
  have missing : ¬ Reaches mode top (place mode) 8 := by
    rw [Reaches, Nat.mod_eq_of_lt below]
    omega
  rw [hwCheckAddress, installed.word, if_neg missing, programCheck_installed installed]

/-- A read in storage gives 0, and one behind it is taken by the kernel's routine, with
the other PSW still stored. -/
theorem hwCheckAddress_late (apart : Apart mode link) (installed : Installed m handler)
    (long : place mode + 8 ≤ top) (probe : Nat) :
    hwCheckAddress mode link top m probe =
      if Reaches mode top probe 4 then
        .returned 0 ((stored mode link m).copyUp (place mode) link.tmpsave 8)
      else .taken ⟨kernelFlags, handler⟩ (stored mode link m) := by
  have range := place_above mode
  have there : Reaches mode top (place mode) 8 := by
    rw [Reaches, Nat.mod_eq_of_lt range.2]
    exact long
  have save := apart.save
  have still : Installed (stored mode link m) handler :=
    installed.congr fun x low => stored_outside m (by omega) (by omega)
  rw [hwCheckAddress, installed.word, if_pos there]
  exact if_congr Iff.rfl rfl (programCheck_installed still _)

theorem u32_next {probe : Nat} (first : probe % 1048576 = psaSize) :
    KernelMemory.u32 (probe + 1048576) % 1048576 = psaSize := by
  unfold KernelMemory.u32
  omega

/-- With storage up to the last MiB that an address can have no read ever fails. -/
theorem hwGetMemorySize_endless (apart : Apart mode link) (installed : Installed m handler)
    (full : mode.size - 1047548 ≤ top) {probe : Nat} (first : probe % 1048576 = psaSize)
    (fuel : Nat) : hwGetMemorySize mode link top fuel m probe = .diverge := by
  obtain ⟨k, some, _, mib⟩ := mode_mib mode
  have long : place mode + 8 ≤ top := by
    cases mode with
    | bits24 => exact le_trans (by decide) full
    | bits31 => exact le_trans (by decide) full
  induction fuel generalizing m probe with
  | zero => rfl
  | succ fuel ih =>
    have reaches : Reaches mode top probe 4 := by
      have class' : probe % mode.size % 1048576 = psaSize := by
        rw [mib, Nat.mod_mul_left_mod, first]
      have below : probe % mode.size < mode.size := Nat.mod_lt _ (by omega)
      unfold Reaches
      simp only [psaSize] at class'
      omega
    rw [hwGetMemorySize, hwCheckAddress_late apart installed long, if_pos reaches]
    have save := apart.save
    exact ih (installed.congr fun x low => restored_eq apart m (by omega)) (u32_next first)

theorem reaches_iff (long : place mode + 8 ≤ top) (short : top < mode.size - 1047548)
    {done left : Nat} (all : done + left = (top - 1028) / 1048576 + 1) :
    Reaches mode top (psaSize + done * 1048576) 4 ↔ left ≠ 0 := by
  obtain ⟨k, _, _, mib⟩ := mode_mib mode
  have range := place_above mode
  have low : psaSize + done * 1048576 < mode.size := by
    simp only [psaSize]
    omega
  rw [Reaches, Nat.mod_eq_of_lt low]
  simp only [psaSize]
  omega

/-- With less storage the loop goes on up to the first probe behind it. -/
theorem hwGetMemorySize_late (apart : Apart mode link) (installed : Installed m handler)
    (long : place mode + 8 ≤ top) (short : top < mode.size - 1047548) {done left : Nat}
    (all : done + left = (top - 1028) / 1048576 + 1) :
    ∃ m', (∀ fuel, left < fuel →
        hwGetMemorySize mode link top fuel m (psaSize + done * 1048576) =
          .ok (.taken (psaSize + (done + left) * 1048576) ⟨kernelFlags, handler⟩ m')) ∧
      (∀ i < 8, m' (place mode + i) = m (link.catchpsw + i)) ∧
      ∀ x, (x < link.tmpsave ∨ link.tmpsave + 8 ≤ x) →
        (x < place mode ∨ place mode + 8 ≤ x) → m' x = m x := by
  induction left generalizing m done with
  | zero =>
    refine ⟨stored mode link m, fun fuel enough => ?_, fun i => stored_inside apart m,
      fun x => stored_outside m⟩
    obtain ⟨fuel, rfl⟩ := Nat.exists_eq_succ_of_ne_zero (Nat.ne_of_gt enough)
    have behind : ¬ Reaches mode top (psaSize + done * 1048576) 4 := fun here =>
      (reaches_iff long short all).mp here rfl
    rw [hwGetMemorySize, hwCheckAddress_late apart installed long, if_neg behind]
    rfl
  | succ left ih =>
    have save := apart.save
    have constants := apart.constants
    have kept := fun x => restored_eq (x := x) apart m
    have still := installed.congr fun x below => kept x (by omega)
    obtain ⟨m', ends, psw, others⟩ := ih still (by omega : done + 1 + left = _)
    refine ⟨m', fun fuel enough => ?_, fun i inside => ?_, fun x outside other => ?_⟩
    · obtain ⟨fuel, rfl⟩ := Nat.exists_eq_succ_of_ne_zero (by omega : fuel ≠ 0)
      have here := (reaches_iff long short all).mpr (Nat.succ_ne_zero left)
      have next : KernelMemory.u32 (psaSize + done * 1048576 + 1048576) =
          psaSize + (done + 1) * 1048576 := by
        have below := mode_mib mode
        unfold KernelMemory.u32
        simp only [psaSize]
        omega
      have count : done + (left + 1) = done + 1 + left := by omega
      rw [hwGetMemorySize, hwCheckAddress_late apart installed long, if_pos here, count]
      dsimp only
      rw [if_neg (by decide), next]
      exact ends fuel (by omega)
    · rw [psw i inside]
      exact kept _ (by omega)
    · rw [others x outside other]
      exact kept x outside

end

/-- `HwGetMemorySize` has no result, however much storage there is. Either no read ever
fails, or the first one that does is taken by the routine that the kernel has for
program checks; and where there is storage at the flags of the kernel's new PSW, eight
bytes of it are overwritten then. -/
theorem hwGetMemorySize_ends (mode : Mode) (link : Link) (top : Nat) (m : Storage)
    (handler : UInt32) (apart : Apart mode link) (installed : Installed m handler) :
    (mode.size - 1047548 ≤ top ∧
      ∀ fuel, hwGetMemorySize mode link top fuel m psaSize = .diverge) ∨
    (top < place mode + 8 ∧ ∀ fuel, hwGetMemorySize mode link top (fuel + 1) m psaSize =
      .ok (.taken psaSize ⟨kernelFlags, handler⟩ m)) ∨
    place mode + 8 ≤ top ∧ top < mode.size - 1047548 ∧ ∃ m', (∀ fuel, (top - 1028) / 1048576 + 1 < fuel →
        hwGetMemorySize mode link top fuel m psaSize =
          .ok (.taken (psaSize + ((top - 1028) / 1048576 + 1) * 1048576)
            ⟨kernelFlags, handler⟩ m')) ∧
      (∀ i < 8, m' (place mode + i) = m (link.catchpsw + i)) ∧
      ∀ x, (x < link.tmpsave ∨ link.tmpsave + 8 ≤ x) →
        (x < place mode ∨ place mode + 8 ≤ x) → m' x = m x := by
  by_cases full : mode.size - 1047548 ≤ top
  · exact Or.inl ⟨full, hwGetMemorySize_endless apart installed full rfl⟩
  apply Or.inr
  by_cases short : top < place mode + 8
  · refine Or.inl ⟨short, fun fuel => ?_⟩
    rw [hwGetMemorySize, hwCheckAddress_early installed short]
  · apply Or.inr
    have long := Nat.le_of_not_lt short
    have below := Nat.lt_of_not_le full
    have late := hwGetMemorySize_late apart installed long below (Nat.zero_add _)
    rw [Nat.zero_mul, Nat.add_zero, Nat.zero_add] at late
    exact ⟨long, below, late⟩

/-- The constants at 4096, and the new PSW for a routine at 8192. -/
def constants : Link := ⟨4096, 4104, 0x80001020⟩

def pcStorage : Storage := storePsw (fun _ => 0) flcpnpsw ⟨kernelFlags, 8192⟩

theorem constants_apart : Apart .bits31 constants :=
  ⟨by decide, by decide, by decide, by decide⟩

/-- In 16 MiB the first check is interrupted before it has stored anything. -/
theorem small_storage_ends :
    (Mode.bits31.size - 1047548 ≤ 16777216 ∧
      ∀ fuel, hwGetMemorySize .bits31 constants 16777216 fuel pcStorage psaSize = .diverge) ∨
    (16777216 < place .bits31 + 8 ∧
      ∀ fuel, hwGetMemorySize .bits31 constants 16777216 (fuel + 1) pcStorage psaSize =
        .ok (.taken psaSize ⟨kernelFlags, 8192⟩ pcStorage)) ∨
    place .bits31 + 8 ≤ 16777216 ∧ 16777216 < Mode.bits31.size - 1047548 ∧ ∃ m', (∀ fuel, (16777216 - 1028) / 1048576 + 1 < fuel →
        hwGetMemorySize .bits31 constants 16777216 fuel pcStorage psaSize =
          .ok (.taken (psaSize + ((16777216 - 1028) / 1048576 + 1) * 1048576)
            ⟨kernelFlags, 8192⟩ m')) ∧
      (∀ i < 8, m' (place .bits31 + i) = pcStorage (constants.catchpsw + i)) ∧
      ∀ x, (x < constants.tmpsave ∨ constants.tmpsave + 8 ≤ x) →
        (x < place .bits31 ∨ place .bits31 + 8 ≤ x) → m' x = pcStorage x :=
  hwGetMemorySize_ends .bits31 constants 16777216 pcStorage 8192 constants_apart
    (loadPsw_storePsw _ _ _)

end Probe
