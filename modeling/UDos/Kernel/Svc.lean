import UDos.Library.Storage

/-!
# The supervisor call handler

`KeSupervisorCallHandler` of `irq.c`: the services it performs for the
registers of the interrupted program. The kernel functions behind the services
are a parameter, and what the handler does with them is recorded as effects.
-/

namespace Svc

/-- The big-endian word at an address. -/
def loadWord (m : Storage) (a : Nat) : UInt32 :=
  UInt32.ofNat ((((m a).toNat * 256 + (m (a + 1)).toNat) * 256 + (m (a + 2)).toNat) * 256 +
    (m (a + 3)).toNat)

def storeWord (m : Storage) (a : Nat) (w : UInt32) : Storage :=
  (((m.write a (UInt8.ofNat (w.toNat / 16777216))).write (a + 1)
    (UInt8.ofNat (w.toNat / 65536 % 256))).write (a + 2)
    (UInt8.ofNat (w.toNat / 256 % 256))).write (a + 3) (UInt8.ofNat (w.toNat % 256))

theorem loadWord_storeWord (m : Storage) (a : Nat) (w : UInt32) :
    loadWord (storeWord m a w) a = w := by
  have range := w.toNat_lt
  have b0 : storeWord m a w a = UInt8.ofNat (w.toNat / 16777216) := by
    simp [storeWord, Storage.write]
  have b1 : storeWord m a w (a + 1) = UInt8.ofNat (w.toNat / 65536 % 256) := by
    simp [storeWord, Storage.write]
  have b2 : storeWord m a w (a + 2) = UInt8.ofNat (w.toNat / 256 % 256) := by
    simp [storeWord, Storage.write]
  have b3 : storeWord m a w (a + 3) = UInt8.ofNat (w.toNat % 256) := by
    simp [storeWord, Storage.write]
  apply UInt32.toNat_inj.mp
  rw [loadWord, b0, b1, b2, b3, UInt32.toNat_ofNat']
  simp only [UInt8.toNat_ofNat']
  omega

/-- The registers of the scratch context frame that the handler uses. -/
structure Frame where
  r0 : UInt32
  r1 : UInt32
  r2 : UInt32
  r3 : UInt32
  r4 : UInt32
  r15 : UInt32

/-- A call of a kernel function, with its arguments. -/
inductive KernelCall where
  | schedule
  | readStdin (buf n : UInt32)
  | debugPrint (str : UInt32)
  | allocate (size : UInt32)
  | free (ptr : UInt32)
  | reallocate (ptr size : UInt32)
  | openFsNode (path mode : UInt32)
  | closeFsNode (hdl : UInt32)
  | copyFdscb (src : UInt32)
deriving DecidableEq

/-- What a service does: it calls a kernel function or stores a word. -/
inductive Effect where
  | call (kernelCall : KernelCall)
  | store (address word : UInt32)
deriving DecidableEq

/-- The result of a kernel function and the storage it leaves. -/
abbrev Kernel := KernelCall → Storage → UInt32 × Storage

structure Machine where
  frame : Frame
  storage : Storage
  effects : List Effect

def Machine.call (s : Machine) (kernel : Kernel) (kernelCall : KernelCall) : UInt32 × Machine :=
  let done := kernel kernelCall s.storage
  (done.1, { s with storage := done.2, effects := s.effects ++ [.call kernelCall] })

def Machine.store (s : Machine) (address word : UInt32) : Machine :=
  { s with
    storage := storeWord s.storage address.toNat word
    effects := s.effects ++ [.store address word] }

/-- The services of codes 10 and 120 for programs of another system. -/
def getmain (kernel : Kernel) (code : Nat) (s : Machine) : Machine :=
  if (code = 10 ∧ s.frame.r1.toNat ≥ 2147483648) ∨ (code = 120 ∧ s.frame.r1 = 0) then
    let len := if code = 10 then s.frame.r0 &&& 0xFFFFFF else s.frame.r0
    let (p, s) := s.call kernel (.allocate len)
    { s with frame := { s.frame with r15 := if p = 0 then 4 else 0, r1 := p } }
  else (s.call kernel (.free s.frame.r1)).2

/-- `KeSupervisorCallHandler` for a call with this interruption code. -/
def keSupervisorCallHandler (kernel : Kernel) (code : Nat) (s : Machine) : Machine :=
  if code = 120 ∨ code = 10 then getmain kernel code s
  else match s.frame.r4.toNat % 65536 with
    | 50 => (s.call kernel .schedule).2
    | 90 => (s.call kernel (.readStdin s.frame.r1 s.frame.r2)).2
    | 100 => (s.call kernel (.debugPrint s.frame.r1)).2
    | 180 => s
    | 190 =>
      let (p, s) := s.call kernel (.allocate s.frame.r1)
      { s with frame := { s.frame with r4 := p } }
    | 191 => (s.call kernel (.free s.frame.r1)).2
    | 192 =>
      let slot := s.frame.r1
      let (p, s) := s.call kernel (.reallocate (loadWord s.storage slot.toNat) s.frame.r2)
      s.store slot p
    | 200 =>
      let (hdl, s) := s.call kernel (.openFsNode s.frame.r1 s.frame.r2)
      { s with frame := { s.frame with r4 := hdl } }
    | 201 => (s.call kernel (.closeFsNode s.frame.r1)).2
    | 202 => (s.call kernel (.copyFdscb s.frame.r3)).2
    | _ => s

end Svc
