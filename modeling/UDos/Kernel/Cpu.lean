import UDos.Kernel.Memory

/-!
# The thread context switch

`HwSwitchThreadContext` on byte storage, in the layout of MACHINE 390: the
scratch frame is the general register save area at 0x180, a `cpu_context` is
16 words followed by a PSW, and the PSW of the interrupted program is at 0x20.
The context record is eight bytes longer than the register save area, so the
copies to and from the scratch frame also move the first two words of the
control register save area at 0x1C0.
-/

namespace Cpu

open KernelMemory

def psaFlcsopsw : Nat := 0x20
def psaFlcgrsav : Nat := 0x180
def psaFlccrsav : Nat := 0x1C0

/-- The permanent storage area of a machine up to 390. -/
def psaSize : Nat := 1024

def sizeofPsw : Nat := 8
def sizeofRegisters : Nat := 64
def sizeofCpuContext : Nat := 72
def sizeofThread : Nat := 80

/-- `&thread->context`: the record starts with the words `pc` and `stack`. -/
def context (thread : Nat) : Nat := thread + 8

/-- `&thread->context.psw` -/
def contextPsw (thread : Nat) : Nat := context thread + sizeofRegisters

def hwGetScratchContextFrame : Nat := psaFlcgrsav

def hwSwitchThreadContext (debug : Bool) (m : Storage) (oldThread newThread : Nat) :
    Outcome Storage := do
  let (_, m) ← keCopyMemory debug m (contextPsw oldThread) psaFlcsopsw sizeofPsw
  let (_, m) ← keCopyMemory debug m psaFlcsopsw (contextPsw newThread) sizeofPsw
  let (_, m) ← keCopyMemory debug m (context oldThread) hwGetScratchContextFrame sizeofCpuContext
  let (_, m) ← keCopyMemory debug m hwGetScratchContextFrame (context newThread) sizeofCpuContext
  .ok m

/-- Two thread records in storage above the permanent storage area and in the
31-bit address range, without a common byte. -/
structure DistinctThreads (a b : Nat) : Prop where
  aboveA : psaSize ≤ a
  aboveB : psaSize ≤ b
  lowA : a + sizeofThread ≤ 2147483648
  lowB : b + sizeofThread ≤ 2147483648
  apart : a + sizeofThread ≤ b ∨ b + sizeofThread ≤ a

theorem DistinctThreads.symm {a b : Nat} (distinct : DistinctThreads a b) :
    DistinctThreads b a :=
  ⟨distinct.aboveB, distinct.aboveA, distinct.lowB, distinct.lowA, distinct.apart.symm⟩

/-- What a switch leaves, whether it is to another thread or to the same one. -/
structure SwitchedTo (m m' : Storage) (a b : Nat) : Prop where
  saved : ∀ i < sizeofCpuContext, m' (context a + i) = m (psaFlcgrsav + i)
  loaded : ∀ i < sizeofCpuContext, m' (psaFlcgrsav + i) = m' (context b + i)
  kept : ∀ x, psaSize ≤ x → x < context a ∨ context a + sizeofCpuContext ≤ x → m' x = m x
  stayed : a = b → ∀ i < sizeofPsw, m' (psaFlcsopsw + i) = m (psaFlcsopsw + i)
  left : a ≠ b → ∀ i < sizeofPsw, m' (psaFlcsopsw + i) = m (contextPsw b + i)

theorem hwSwitchThreadContext_to (debug : Bool) (m : Storage) {a b : Nat}
    (aboveA : psaSize ≤ a) (aboveB : psaSize ≤ b) (lowA : a + sizeofThread ≤ 2147483648)
    (lowB : b + sizeofThread ≤ 2147483648)
    (apart : a ≠ b → a + sizeofThread ≤ b ∨ b + sizeofThread ≤ a) :
    ∃ m', hwSwitchThreadContext debug m a b = .ok m' ∧ SwitchedTo m m' a b := by
  simp only [psaSize, sizeofThread] at aboveA aboveB lowA lowB apart
  let m1 := m.copyUp (a + 72) 0x20 8
  let m2 := m1.copyUp 0x20 (b + 72) 8
  let m3 := m2.copyUp (a + 8) 0x180 72
  let m4 := m3.copyUp 0x180 (b + 8) 72
  have ran : hwSwitchThreadContext debug m a b = .ok m4 := by
    simp only [hwSwitchThreadContext, contextPsw, context, sizeofRegisters, sizeofPsw,
      sizeofCpuContext, psaFlcsopsw, hwGetScratchContextFrame, psaFlcgrsav, Nat.add_assoc,
      Nat.reduceAdd]
    rw [keCopyMemory_eq debug m (by omega) (by omega) (by omega) (by omega), Outcome.ok_bind]
    simp only []
    rw [keCopyMemory_eq debug m1 (by omega) (by omega) (by omega) (by omega), Outcome.ok_bind]
    simp only []
    rw [keCopyMemory_eq debug m2 (by omega) (by omega) (by omega) (by omega), Outcome.ok_bind]
    simp only []
    rw [keCopyMemory_eq debug m3 (by omega) (by omega) (by omega) (by omega), Outcome.ok_bind]
  -- each copy changes its destination only
  have out1 : ∀ x, x < a + 72 ∨ a + 72 + 8 ≤ x → m1 x = m x :=
    fun x hx => Storage.copyUp_outside m hx
  have out2 : ∀ x, x < 0x20 ∨ 0x20 + 8 ≤ x → m2 x = m1 x :=
    fun x hx => Storage.copyUp_outside m1 hx
  have out3 : ∀ x, x < a + 8 ∨ a + 8 + 72 ≤ x → m3 x = m2 x :=
    fun x hx => Storage.copyUp_outside m2 hx
  have out4 : ∀ x, x < 0x180 ∨ 0x180 + 72 ≤ x → m4 x = m3 x :=
    fun x hx => Storage.copyUp_outside m3 hx
  have in1 : ∀ i, i < 8 → m1 (a + 72 + i) = m (0x20 + i) :=
    fun i hi => Storage.copyUp_inside m (by omega) hi
  have in2 : ∀ i, i < 8 → m2 (0x20 + i) = m1 (b + 72 + i) :=
    fun i hi => Storage.copyUp_inside m1 (by omega) hi
  have in3 : ∀ i, i < 72 → m3 (a + 8 + i) = m2 (0x180 + i) :=
    fun i hi => Storage.copyUp_inside m2 (by omega) hi
  have in4 : ∀ i, i < 72 → m4 (0x180 + i) = m3 (b + 8 + i) :=
    fun i hi => Storage.copyUp_inside m3 (by omega) hi
  have psw : ∀ i, i < 8 → m4 (0x20 + i) = m1 (b + 72 + i) := by
    intro i hi
    rw [out4 _ (by omega), out3 _ (by omega), in2 i hi]
  refine ⟨m4, ran, ?_, ?_, ?_, ?_, ?_⟩
  · intro i hi
    change i < 72 at hi
    change m4 (a + 8 + i) = m (0x180 + i)
    rw [out4 _ (by omega), in3 i hi, out2 _ (by omega), out1 _ (by omega)]
  · intro i hi
    change i < 72 at hi
    change m4 (0x180 + i) = m4 (b + 8 + i)
    rw [in4 i hi, out4 _ (by omega)]
  · intro x above outside
    change 1024 ≤ x at above
    change x < a + 8 ∨ a + 8 + 72 ≤ x at outside
    rw [out4 x (by omega), out3 x outside, out2 x (by omega), out1 x (by omega)]
  · rintro same i hi
    change i < 8 at hi
    change m4 (0x20 + i) = m (0x20 + i)
    rw [psw i hi, ← same, in1 i hi]
  · intro different i hi
    change i < 8 at hi
    change m4 (0x20 + i) = m (b + 72 + i)
    have separate := apart different
    rw [psw i hi, out1 _ (by omega)]

/-- What one switch leaves in storage: the old context holds the scratch frame
with the two words behind it, and the new context is in their place. -/
structure Switched (m m' : Storage) (oldThread newThread : Nat) : Prop where
  saved : ∀ i, i < sizeofCpuContext → m' (context oldThread + i) = m (psaFlcgrsav + i)
  loaded : ∀ i, i < sizeofCpuContext → m' (psaFlcgrsav + i) = m (context newThread + i)
  psw : ∀ i, i < sizeofPsw → m' (psaFlcsopsw + i) = m (contextPsw newThread + i)
  kept : ∀ i, i < sizeofCpuContext → m' (context newThread + i) = m (context newThread + i)

theorem hwSwitchThreadContext_spec (debug : Bool) (m : Storage) {a b : Nat}
    (distinct : DistinctThreads a b) :
    ∃ m', hwSwitchThreadContext debug m a b = .ok m' ∧ Switched m m' a b := by
  obtain ⟨aboveA, aboveB, lowA, lowB, apart⟩ := distinct
  obtain ⟨m', ran, switched⟩ :=
    hwSwitchThreadContext_to debug m aboveA aboveB lowA lowB fun _ => apart
  simp only [psaSize, sizeofThread] at aboveB apart
  have kept : ∀ i, i < sizeofCpuContext → m' (context b + i) = m (context b + i) := by
    intro i hi
    simp only [sizeofCpuContext] at hi
    refine switched.kept _ ?_ ?_
    · simp only [psaSize, context]
      omega
    · simp only [context, sizeofCpuContext]
      omega
  exact ⟨m', ran, switched.saved, fun i hi => (switched.loaded i hi).trans (kept i hi),
    switched.left (by omega), kept⟩

/-- The running thread changes the scratch registers and the old PSW at will. -/
def RanMeanwhile (m m' : Storage) : Prop :=
  ∀ x, ¬ (psaFlcgrsav ≤ x ∧ x < psaFlcgrsav + sizeofRegisters) →
    ¬ (psaFlcsopsw ≤ x ∧ x < psaFlcsopsw + sizeofPsw) → m' x = m x

/-- Switching from a to b, letting b run, and switching back restores the
registers in the scratch frame and the interrupted PSW. -/
def RoundTrip (debug : Bool) (m : Storage) (a b : Nat) : Prop :=
  ∃ away, hwSwitchThreadContext debug m a b = .ok away ∧
    ∀ ran, RanMeanwhile away ran →
      ∃ back, hwSwitchThreadContext debug ran b a = .ok back ∧
        (∀ i, i < sizeofRegisters → back (psaFlcgrsav + i) = m (psaFlcgrsav + i)) ∧
        ∀ i, i < sizeofPsw → back (psaFlcsopsw + i) = m (psaFlcsopsw + i)

theorem ranMeanwhile_refl (m : Storage) : RanMeanwhile m m := fun _ _ _ => rfl

theorem RanMeanwhile.context_kept {m m' : Storage} (ran : RanMeanwhile m m') {a i : Nat}
    (above : psaSize ≤ a) : m' (context a + i) = m (context a + i) := by
  simp only [psaSize] at above
  apply ran
  · simp only [context, psaFlcgrsav, sizeofRegisters]
    omega
  · simp only [context, psaFlcsopsw, sizeofPsw]
    omega

/-- After the way back the registers are those of the first interruption, and
the PSW is what followed the scratch frame then. -/
theorem returned_state (debug : Bool) {m away ran : Storage} {a b : Nat}
    (distinct : DistinctThreads a b) (gone : Switched m away a b)
    (meanwhile : RanMeanwhile away ran) :
    ∃ back, hwSwitchThreadContext debug ran b a = .ok back ∧
      (∀ i, i < sizeofRegisters → back (psaFlcgrsav + i) = m (psaFlcgrsav + i)) ∧
      ∀ i, i < sizeofPsw → back (psaFlcsopsw + i) = m (psaFlccrsav + i) := by
  obtain ⟨back, returned, came⟩ := hwSwitchThreadContext_spec debug ran distinct.symm
  have saved : ∀ i, i < sizeofCpuContext → ran (context a + i) = m (psaFlcgrsav + i) := by
    intro i hi
    rw [meanwhile.context_kept distinct.aboveA, gone.saved i hi]
  refine ⟨back, returned, ?_, ?_⟩
  · intro i hi
    have hi' : i < sizeofCpuContext := Nat.lt_trans hi (by decide)
    rw [came.loaded i hi', saved i hi']
  · intro i hi
    have hi' : sizeofRegisters + i < sizeofCpuContext := by
      simp only [sizeofRegisters, sizeofCpuContext, sizeofPsw] at *
      omega
    rw [came.psw i hi, contextPsw, Nat.add_assoc, saved _ hi', ← Nat.add_assoc]
    rfl

/-- The round trip restores the interrupted state exactly when the PSW equals
the first two words of the control register save area: the whole-context copy
replaces the PSW saved just before by those words. -/
theorem round_trip_iff (debug : Bool) (m : Storage) (a b : Nat)
    (distinct : DistinctThreads a b) :
    RoundTrip debug m a b ↔
      ∀ i, i < sizeofPsw → m (psaFlccrsav + i) = m (psaFlcsopsw + i) := by
  obtain ⟨away, left, gone⟩ := hwSwitchThreadContext_spec debug m distinct
  constructor
  · rintro ⟨away', left', restores⟩ i hi
    rw [left] at left'
    cases left'
    obtain ⟨back, returned, _, psw⟩ := restores away (ranMeanwhile_refl away)
    obtain ⟨back', returned', _, overwritten⟩ :=
      returned_state debug distinct gone (ranMeanwhile_refl away)
    rw [returned] at returned'
    cases returned'
    exact (overwritten i hi).symm.trans (psw i hi)
  · intro same
    refine ⟨away, left, fun ran meanwhile => ?_⟩
    obtain ⟨back, returned, registers, psw⟩ := returned_state debug distinct gone meanwhile
    exact ⟨back, returned, registers, fun i hi => (psw i hi).trans (same i hi)⟩

/-- An interrupted PSW whose first byte is 7, with nothing else in storage. -/
def interrupted : Storage := fun x => if x = psaFlcsopsw then 7 else 0

theorem distinctThreads_example : DistinctThreads 0xF0400 0xF0800 :=
  ⟨by decide, by decide, by decide, by decide, by decide⟩

theorem round_trip_interrupted_iff :
    DistinctThreads 0xF0400 0xF0800 ∧ (RoundTrip true interrupted 0xF0400 0xF0800 ↔
      ∀ i, i < sizeofPsw → interrupted (psaFlccrsav + i) = interrupted (psaFlcsopsw + i)) :=
  ⟨distinctThreads_example, round_trip_iff true interrupted _ _ distinctThreads_example⟩

/-- The PSW is not restored: its first byte comes back as zero. -/
theorem interrupted_not_restored :
    DistinctThreads 0xF0400 0xF0800 ∧ ¬ RoundTrip true interrupted 0xF0400 0xF0800 := by
  refine ⟨distinctThreads_example, ?_⟩
  rintro ⟨away, left, restores⟩
  obtain ⟨away', left', gone⟩ :=
    hwSwitchThreadContext_spec true interrupted distinctThreads_example
  rw [left] at left'
  cases left'
  obtain ⟨back, returned, _, psw⟩ := restores away (ranMeanwhile_refl away)
  obtain ⟨back', returned', _, overwritten⟩ :=
    returned_state true distinctThreads_example gone (ranMeanwhile_refl away)
  rw [returned] at returned'
  cases returned'
  have restored := psw 0 (by decide)
  rw [overwritten 0 (by decide)] at restored
  exact absurd restored (by decide)

end Cpu
