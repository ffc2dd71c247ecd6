import UDos.Kernel.Memory
import UDos.Kernel.Svc

/-!
# Kernel services of the runtime library

The wrappers of `alloc.c` and `dataset.c` over the stub `RtlDoSvc`, run against
the kernel's handler. The stub leaves its code and arguments in R4 and R1 to R3
and returns the word at storage address 4, whatever the handler put into R4.
-/

namespace Rtl

open KernelMemory Svc

/-- `RtlDoSvc`. -/
def rtlDoSvc (kernel : Kernel) (s : Machine) (code arg1 arg2 arg3 : UInt32) : UInt32 × Machine :=
  let s := { s with frame := { s.frame with r4 := code, r1 := arg1, r2 := arg2, r3 := arg3 } }
  let s := keSupervisorCallHandler kernel 26 s
  (loadWord s.storage 4, s)

def rtlAllocateMemory (kernel : Kernel) (s : Machine) (size : UInt32) : UInt32 × Machine :=
  rtlDoSvc kernel s 190 size 0 0

/-- `RtlReallocateMemory`; its parameter `p` is in storage at `slot`. -/
def rtlReallocateMemory (kernel : Kernel) (s : Machine) (slot p size : UInt32) :
    UInt32 × Machine :=
  let s := { s with storage := storeWord s.storage slot.toNat p }
  let (_, s) := rtlDoSvc kernel s 192 size slot 0
  (loadWord s.storage slot.toNat, s)

def rtlFreeMemory (kernel : Kernel) (s : Machine) (p : UInt32) : Machine :=
  (rtlDoSvc kernel s 191 p 0 0).2

/-- One turn of the loop of `RtlOpenDataset` over the characters of `recfm`. -/
def recfmFlag (mode : UInt32) (c : UInt8) : UInt32 :=
  if c = 0xD9 then mode ||| 0x01
  else if c = 0xE6 then mode ||| 0x02
  else if c = 0xC2 then mode ||| 0x04
  else if c = 0xE4 then mode ||| 0xFF
  else if c = 0xA1 then ~~~mode
  else if c = 0x6F then mode ||| (0x01 ||| 0x04)
  else mode

/-- The loop from the value that `mode` has before it. -/
def recfmMode (mode : UInt32) (recfm : CString) : UInt32 := recfm.chars.foldl recfmFlag mode

def sizeofDataset : UInt32 := 4

/-- `RtlOpenDataset` with the addresses of its two strings. The mode that its
loop makes from an uninitialised variable is not passed on. -/
def rtlOpenDataset (kernel : Kernel) (s : Machine) (name recfm : UInt32) : UInt32 × Machine :=
  let (ds, s) := rtlAllocateMemory kernel s sizeofDataset
  if ds = 0 then (0, s)
  else
    let (handle, s) := rtlDoSvc kernel s 200 name recfm 0
    (ds, { s with storage := storeWord s.storage ds.toNat handle })

/-- A call of the library; `slot` is the address of the parameter `p`, and
`recfm` that of the string `recfmString`. -/
inductive RtlCall where
  | allocate (size : UInt32)
  | reallocate (slot p size : UInt32)
  | free (p : UInt32)
  | openDataset (name recfm : UInt32) (recfmString : CString)

/-- What the kernel does for a call. -/
def performed (kernel : Kernel) (frame : Frame) (m : Storage) (call : RtlCall) : List Effect :=
  let s : Machine := ⟨frame, m, []⟩
  match call with
  | .allocate size => (rtlAllocateMemory kernel s size).2.effects
  | .reallocate slot p size => (rtlReallocateMemory kernel s slot p size).2.effects
  | .free p => (rtlFreeMemory kernel s p).effects
  | .openDataset name recfm _ => (rtlOpenDataset kernel s name recfm).2.effects

/-- What the caller means: a reallocation of its pointer, and an open with the
mode bits of the string when there is storage for the dataset. -/
def meant (kernel : Kernel) (m : Storage) (call : RtlCall) : List Effect :=
  match call with
  | .allocate size => [.call (.allocate size)]
  | .reallocate slot p size =>
    [.call (.reallocate p size),
      .store slot (kernel (.reallocate p size) (storeWord m slot.toNat p)).1]
  | .free p => [.call (.free p)]
  | .openDataset name _ recfmString =>
    if (kernel (.allocate sizeofDataset) m).1 = 0 then [.call (.allocate sizeofDataset)]
    else [.call (.allocate sizeofDataset), .call (.openFsNode name (recfmMode 0 recfmString))]

/-- The new size is the address of the parameter `p`; the word at address 4
tells whether there is storage for the dataset, and the address of `recfm` is
the mode that it denotes. -/
def Agrees (kernel : Kernel) (m : Storage) (call : RtlCall) : Prop :=
  match call with
  | .allocate _ => True
  | .reallocate slot _ size => size = slot
  | .free _ => True
  | .openDataset _ recfm recfmString =>
    let allocated := kernel (.allocate sizeofDataset) m
    if allocated.1 = 0 then loadWord allocated.2 4 = 0
    else loadWord allocated.2 4 ≠ 0 ∧ recfm = recfmMode 0 recfmString

section
variable (kernel : Kernel) (frame : Frame) (m : Storage)

theorem performed_reallocate (slot p size : UInt32) :
    performed kernel frame m (.reallocate slot p size) =
      let s := storeWord m slot.toNat p
      let old := loadWord s size.toNat
      [.call (.reallocate old slot), .store size (kernel (.reallocate old slot) s).1] := rfl

theorem performed_openDataset (name recfm : UInt32) (recfmString : CString) :
    performed kernel frame m (.openDataset name recfm recfmString) =
      if loadWord (kernel (.allocate sizeofDataset) m).2 4 = 0 then
        [.call (.allocate sizeofDataset)]
      else [.call (.allocate sizeofDataset), .call (.openFsNode name recfm)] := by
  simp only [performed, rtlOpenDataset]
  by_cases null : loadWord (kernel (.allocate sizeofDataset) m).2 4 = 0
  · have ds : (rtlAllocateMemory kernel ⟨frame, m, []⟩ sizeofDataset).1 = 0 := null
    rw [if_pos ds, if_pos null]
    rfl
  · have ds : ¬ (rtlAllocateMemory kernel ⟨frame, m, []⟩ sizeofDataset).1 = 0 := null
    rw [if_neg ds, if_neg null]
    rfl

/-- The kernel does what the caller means exactly in these cases: always for
storage got and dropped, and for storage resized and datasets opened only by
coincidence of an address with a size or a mode. -/
theorem performed_eq_meant_iff (call : RtlCall) :
    performed kernel frame m call = meant kernel m call ↔ Agrees kernel m call := by
  cases call with
  | allocate size => exact iff_of_true rfl trivial
  | free p => exact iff_of_true rfl trivial
  | reallocate slot p size =>
    rw [performed_reallocate]
    constructor
    · intro same
      simp only [meant, List.cons.injEq, Effect.store.injEq] at same
      exact same.2.1.1
    · rintro rfl
      simp only [meant, loadWord_storeWord]
  | openDataset name recfm recfmString =>
    rw [performed_openDataset]
    simp only [meant, Agrees]
    by_cases noRoom : (kernel (.allocate sizeofDataset) m).1 = 0
    · by_cases null : loadWord (kernel (.allocate sizeofDataset) m).2 4 = 0
      · simp [noRoom, null]
      · simp [noRoom, null]
    · by_cases null : loadWord (kernel (.allocate sizeofDataset) m).2 4 = 0
      · simp [noRoom, null]
      · simp [noRoom, null]

end

/-- A kernel without storage. -/
def emptyKernel : Kernel := fun _ m => (0, m)

def blankFrame : Frame := ⟨0, 0, 0, 0, 0, 0⟩

/-- `RtlReallocateMemory(0x5000, 100)` with its parameter at 0x8000 resizes
the block whose address is at 100, to 0x8000 bytes. -/
theorem reallocate_swapped :
    performed emptyKernel blankFrame (fun _ => 0) (.reallocate 0x8000 0x5000 100) =
        [.call (.reallocate 0 0x8000), .store 100 0] ∧
      meant emptyKernel (fun _ => 0) (.reallocate 0x8000 0x5000 100) =
        [.call (.reallocate 0x5000 100), .store 0x8000 0] := by
  decide

end Rtl
