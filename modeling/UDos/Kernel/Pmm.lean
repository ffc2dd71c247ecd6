import UDos.Kernel.Memory

/-!
# The physical memory manager

`pmm.c` on a table of regions. The descriptors of a region are an array at its
base, linked by index; `size_t` and addresses have 32 bits and wrap. A list
without a cycle has fewer blocks than its region has bytes, so that number
bounds the loops over a list, and a loop that uses it up does not end.
-/

namespace Pmm

open KernelMemory

def blockNotPresent : UInt8 := 0
def blockFree : UInt8 := 1
def blockUsed : UInt8 := 2

def regionNotPresent : UInt8 := 0
def regionPublic : UInt8 := 1

def maxPmmRegions : Nat := 8

/-- `sizeof(struct PmmBlock)` -/
def sizeofPmmBlock : Nat := 12

/-- Subtraction of 32-bit numbers. -/
def sub32 (a b : Nat) : Nat := u32 (a + (4294967296 - b % 4294967296))

structure PmmBlock where
  size : Nat
  next : Option Nat
  flags : UInt8
  jobId : Nat

def zeroBlock : PmmBlock := ⟨0, none, blockNotPresent, 0⟩

structure PmmRegion where
  base : Nat
  size : Nat
  flags : UInt8
  heap : Nat → PmmBlock

/-- What else the functions depend on: the build, the current job, and the
word at storage address 4, which is `block->next` of a null pointer. -/
structure Env where
  debug : Bool
  currentJobId : Nat
  lowWord : Nat

def PmmRegion.setBlock (r : PmmRegion) (i : Nat) (block : PmmBlock) : PmmRegion :=
  { r with heap := fun j => if j = i then block else r.heap j }

/-- `MmCreateRegion` in a region that is not present; `storage` is what the
bytes from the base on say when read as descriptors. -/
def createIn (env : Env) (base size : Nat) (storage : Nat → PmmBlock) : Outcome PmmRegion := do
  let r : PmmRegion := ⟨base, size, regionPublic, storage⟩
  let headSize := u32 ((size / 2048 + 1) * sizeofPmmBlock)
  let r := r.setBlock 0 ⟨headSize, some 1, blockUsed, 65535⟩
  let r := r.setBlock 1 ⟨sub32 size headSize, none, blockFree, 65535⟩
  Outcome.check (env.debug = true → u32 ((r.heap 0).size + (r.heap 1).size) = r.size)
    "Assertion region->head[0].size + region->head[1].size == region->size failed!\r\n"
  .ok r

/-- `MmCreateRegion` -/
def mmCreateRegion (env : Env) (base size : Nat) (storage : Nat → PmmBlock) :
    List PmmRegion → Outcome (List PmmRegion)
  | [] => .panic "TODO: Do a method for getting more regions\r\n"
  | r :: others =>
    if r.flags ≠ regionNotPresent then do
      let others ← mmCreateRegion env base size storage others
      .ok (r :: others)
    else do
      let r ← createIn env base size storage
      .ok (r :: others)

/-- The table expands by 32 descriptors into the block behind it. -/
def expandTable (r : PmmRegion) : PmmRegion :=
  let n := (r.heap 0).size / sizeofPmmBlock
  let r := r.setBlock 0 { r.heap 0 with size := u32 ((r.heap 0).size + sizeofPmmBlock * 32) }
  let r := r.setBlock 1 { r.heap 1 with size := sub32 (r.heap 1).size (sizeofPmmBlock * 32) }
  { r with heap := fun j => if n ≤ j ∧ j < n + 32 then zeroBlock else r.heap j }

/-- `MmCreateBlock`: the index of the block. -/
def mmCreateBlock (r : PmmRegion) (size : Nat) (flags : UInt8) (next : Option Nat) :
    Outcome (Nat × PmmRegion) :=
  let n := (r.heap 0).size / sizeofPmmBlock
  match (List.range n).find? fun i => (r.heap i).flags == blockNotPresent with
  | some i => .ok (i, r.setBlock i { r.heap i with size := size, next := next, flags := flags })
  | none => do
    Outcome.check (¬ ((r.heap 1).flags ≠ blockFree ∨ (r.heap 1).size < sizeofPmmBlock * 32))
      "Out of memory for heap\r\n"
    let r := expandTable r
    .ok (n, r.setBlock n { r.heap n with size := size, next := next, flags := flags })

/-- `block == block->next`. -/
def selfReference (env : Env) (heap : Nat → PmmBlock) : Option Nat → Bool
  | none => env.lowWord == 0
  | some i => (heap i).next == some i

/-- The loop over a region's blocks: the sum of their sizes. -/
def checkLoop (env : Env) (heap : Nat → PmmBlock) : Nat → Option Nat → Nat → Outcome Nat
  | _, none, size => .ok size
  | 0, some _, _ => .diverge
  | fuel + 1, some i, size => do
    let size := u32 (size + (heap i).size)
    let block := (heap i).next
    Outcome.check (selfReference env heap block = false) "Self reference to self block\r\n"
    checkLoop env heap fuel block size

/-- `MmCheckHeap`, without its output. -/
def mmCheckHeap (env : Env) : List PmmRegion → Outcome Unit
  | [] => .ok ()
  | r :: others =>
    if r.flags ≠ regionPublic then mmCheckHeap env others
    else do
      let size ← checkLoop env r.heap r.size (some 0) 0
      Outcome.check (size = r.size) "Size recollected %zu... but it should be %zu!\r\n"
      mmCheckHeap env others

def debugCheck (env : Env) (regions : List PmmRegion) : Outcome Unit :=
  if env.debug then mmCheckHeap env regions else .ok ()

/-- Whether a block is passed over: it is used, or too small. -/
def unfit (size align : Nat) (block : PmmBlock) (currentPtr : Nat) : Prop :=
  block.flags = blockUsed ∨
    (align ≠ 0 ∧ block.size < u32 (size + currentPtr % align)) ∨ block.size < size

instance (size align : Nat) (block : PmmBlock) (currentPtr : Nat) :
    Decidable (unfit size align block currentPtr) :=
  inferInstanceAs (Decidable (_ ∨ _ ∨ _))

/-- The loop over a region's blocks: the first block that fits, and its address. -/
def findFit (heap : Nat → PmmBlock) (size align : Nat) :
    Nat → Option Nat → Nat → Outcome (Option (Nat × Nat))
  | _, none, _ => .ok none
  | 0, some _, _ => .diverge
  | fuel + 1, some i, currentPtr =>
    if unfit size align (heap i) currentPtr then
      findFit heap size align fuel (heap i).next (u32 (currentPtr + (heap i).size))
    else .ok (some (i, currentPtr))

/-- The bytes to leave in front of the object in a block that fits. -/
def leftSize (size align : Nat) (block : PmmBlock) (currentPtr : Nat) : Nat :=
  if align ≠ 0 then
    let last := sub32 (u32 (currentPtr + block.size)) size
    sub32 (sub32 last (last % align)) currentPtr
  else sub32 block.size size

/-- The block on the left: the index of the block behind it. -/
def splitLeft (r : PmmRegion) (i left : Nat) : Outcome (Nat × PmmRegion) :=
  if left ≠ 0 then do
    let nextSize := sub32 (r.heap i).size left
    let r := r.setBlock i { r.heap i with size := left, flags := blockFree }
    let (j, r) ← mmCreateBlock r nextSize blockUsed (r.heap i).next
    .ok (j, r.setBlock i { r.heap i with next := some j })
  else .ok (i, r)

/-- The block on the right. -/
def splitRight (r : PmmRegion) (i right : Nat) : Outcome PmmRegion :=
  if right ≠ 0 then do
    let (j, r) ← mmCreateBlock r right blockFree (r.heap i).next
    .ok (r.setBlock i { r.heap i with next := some j })
  else .ok r

/-- The rest of the allocation in the block found: the address of the object. -/
def allocateIn (env : Env) (r : PmmRegion) (size align i currentPtr : Nat) :
    Outcome (Nat × PmmRegion) := do
  let left := leftSize size align (r.heap i) currentPtr
  let (i, r) ← splitLeft r i left
  let currentPtr := u32 (currentPtr + left)
  Outcome.check (env.debug = true → align ≠ 0 → currentPtr % align = 0)
    "Assertion current_ptr % align == 0 failed!\r\n"
  let r := r.setBlock i { r.heap i with flags := blockUsed, jobId := env.currentJobId }
  let r ← splitRight r i (sub32 (r.heap i).size size)
  .ok (currentPtr, r.setBlock i { r.heap i with size := size })

/-- The loop over the regions. -/
def allocateFrom (env : Env) (size align : Nat) :
    List PmmRegion → Outcome (Nat × List PmmRegion)
  | [] => .ok (0, [])
  | r :: others =>
    if r.flags ≠ regionPublic then do
      let (p, others) ← allocateFrom env size align others
      .ok (p, r :: others)
    else do
      match ← findFit r.heap size align r.size (some 0) r.base with
      | some (i, currentPtr) =>
        let (p, r) ← allocateIn env r size align i currentPtr
        .ok (p, r :: others)
      | none =>
        let (p, others) ← allocateFrom env size align others
        .ok (p, r :: others)

/-- `MmAllocatePhysical`; the address is 0 for NULL. -/
def mmAllocatePhysical (env : Env) (regions : List PmmRegion) (size align : Nat) :
    Outcome (Nat × List PmmRegion) := do
  Outcome.check (size ≠ 0) "Invalid size\r\n"
  let (p, regions) ← allocateFrom env size align regions
  debugCheck env regions
  .ok (p, regions)

/-- How the search of a region for a pointer ends. -/
inductive Search where
  | block (i : Nat) (prev : Option Nat)
  | stop
  | nextRegion

def findBlock (heap : Nat → PmmBlock) (ptr : Nat) :
    Nat → Option Nat → Nat → Option Nat → Outcome Search
  | _, none, _, _ => .ok .nextRegion
  | 0, some _, _, _ => .diverge
  | fuel + 1, some i, currentPtr, prev =>
    let behind := u32 (currentPtr + (heap i).size)
    if (heap i).flags = blockFree then findBlock heap ptr fuel (heap i).next behind (some i)
    else if currentPtr ≤ ptr ∧ ptr ≤ behind then .ok (.block i prev)
    else if ptr < currentPtr then .ok .stop
    else findBlock heap ptr fuel (heap i).next behind (some i)

/-- Coalescence of a block with the one behind it. -/
def coalesce (r : PmmRegion) (i next : Nat) : PmmRegion :=
  let r := r.setBlock next { r.heap next with flags := blockNotPresent }
  r.setBlock i { r.heap i with
    size := u32 ((r.heap i).size + (r.heap next).size)
    next := (r.heap next).next }

def coalesceAfter (r : PmmRegion) (i : Nat) : PmmRegion :=
  match (r.heap i).next with
  | some next => if (r.heap next).flags = blockFree then coalesce r i next else r
  | none => r

def coalesceBehind (r : PmmRegion) (i : Nat) (prev : Option Nat) : PmmRegion :=
  match prev with
  | some prev => if (r.heap prev).flags = blockFree then coalesce r prev i else r
  | none => r

/-- The release of the block found. -/
def freeIn (r : PmmRegion) (i : Nat) (prev : Option Nat) : PmmRegion :=
  let r := r.setBlock i { r.heap i with flags := blockFree }
  coalesceBehind (coalesceAfter r i) i prev

/-- The loop over the regions, and whether it comes to its end. -/
def freeFrom (ptr : Nat) : List PmmRegion → Outcome (Bool × List PmmRegion)
  | [] => .ok (true, [])
  | r :: others =>
    if r.flags ≠ regionPublic ∨ ptr < r.base ∨ u32 (r.base + r.size) < ptr then do
      let (atEnd, others) ← freeFrom ptr others
      .ok (atEnd, r :: others)
    else do
      match ← findBlock r.heap ptr r.size (some 0) r.base none with
      | .block i prev => .ok (false, freeIn r i prev :: others)
      | .stop => .ok (false, r :: others)
      | .nextRegion =>
        let (atEnd, others) ← freeFrom ptr others
        .ok (atEnd, r :: others)

/-- `MmFreePhysical` -/
def mmFreePhysical (env : Env) (regions : List PmmRegion) (ptr : Nat) :
    Outcome (List PmmRegion) := do
  Outcome.check (env.debug = true → ptr ≠ 0) "Assertion ptr != NULL failed!\r\n"
  let (atEnd, regions) ← freeFrom ptr regions
  if atEnd then do
    debugCheck env regions
    .ok regions
  else .ok regions

end Pmm
