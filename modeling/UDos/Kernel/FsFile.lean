import UDos.Kernel.FsHandle
import UDos.Kernel.Reallocate

/-!
# File handles on a heap

The operations on handles of `fs.c` with the blocks that they allocate and
return. Which callbacks a driver has is part of it; what a callback answers is
an argument of the call, and calling one that is NULL is a fault. What a call
does to the handle and to storage is what the call on storage alone does.
-/

namespace FsFile

open KernelMemory MmHeap Storage
open FsStream (FsHandle zeroHandle vfsModeBuffered)

/-- The callbacks of `struct fs_driver` used here, false for NULL. -/
structure FsDriver where
  openCallback : Bool
  close : Bool
  write : Bool
  read : Bool
  ioctl : Bool
  writeFdscb : Bool
  readFdscb : Bool
deriving DecidableEq

/-- A call through a pointer to a callback. -/
def invoke (callback : Bool) (answer : Int) : Outcome Int := if callback then .ok answer else .fault

/-- The size of `struct fs_handle`. -/
def handleSize : Nat := 28

/-- `KeOpenFromFsNode` of a node with this driver: where the handle is, and what
is in it. `allocated` is the block for it, `answer` that of the callback. -/
def keOpenFromFsNode (driver : Option FsDriver) (h : Heap) (flags : UInt32) (allocated : Nat)
    (answer : Int) : Outcome (Option (Nat × FsHandle) × Heap) :=
  match driver with
  | none => .ok (none, h)
  | some driver => do
    let (hdl, h) ← mmAllocateZero h allocated handleSize
    if driver.openCallback then do
      let r ← invoke driver.openCallback answer
      if r ≠ 0 then do
        let h ← mmFree h hdl
        .ok (none, h)
      else .ok (some (hdl, { zeroHandle with flags := flags }), h)
    else .ok (some (hdl, { zeroHandle with flags := flags }), h)

/-- `KeCloseFsNode` of the handle at an address. -/
def keCloseFsNode (driver : FsDriver) (h : Heap) (hdl : Nat) (answer : Int) : Outcome Heap :=
  if driver.close then do
    let _ ← invoke driver.close answer
    mmFree h hdl
  else mmFree h hdl

/-- What a call leaves: its result, the handle, the heap, and the bytes that
`driver->write` was called with. -/
structure Done where
  result : Int
  handle : FsHandle
  heap : Heap
  handed : Option (List UInt8)

/-- `allocated` is the block that `MmAllocate` returns to `MmReallocate`. -/
def keWriteFsNode (debug : Bool) (driver : FsDriver) (h : Heap) (hdl : FsHandle)
    (buf n allocated : Nat) (answer : Int) : Outcome Done :=
  if n = 0 then .ok ⟨0, hdl, h, none⟩
  else if driver.write = false then .ok ⟨-1, hdl, h, none⟩
  else if hdl.flags &&& vfsModeBuffered ≠ 0 then do
    let (writeBuf, h) ← mmReallocate h allocated hdl.writeBuf (u32 (hdl.writeBufSize + n))
    let hdl := { hdl with writeBuf := writeBuf }
    if hdl.writeBuf = 0 then .ok ⟨-1, hdl, h, none⟩
    else do
      let (_, m) ← keCopyMemory debug h.storage (u32 (hdl.writeBuf + hdl.writeBufSize)) buf n
      let size := u32 (hdl.writeBufSize + n)
      .ok ⟨signed32 n, { hdl with writeBufSize := size }, { h with storage := m }, none⟩
  else do
    let r ← invoke driver.write answer
    .ok ⟨r, hdl, h, some (h.storage.bytes buf n)⟩

def keFlushFsNode (driver : FsDriver) (h : Heap) (hdl : FsHandle) (answer : Int) : Outcome Done :=
  if hdl.flags &&& vfsModeBuffered ≠ 0 then
    if driver.write = false ∧ hdl.writeBufSize ≠ 0 then .ok ⟨-1, hdl, h, none⟩
    else do
      let pending := h.storage.bytes hdl.writeBuf hdl.writeBufSize
      let r ← invoke driver.write answer
      -- write_buf goes to MmFree, and write_buf_size stays as it is
      let h ← mmFree h hdl.writeBuf
      .ok ⟨r, { hdl with writeBuf := 0, readBufSize := 0 }, h, some pending⟩
  else .ok ⟨0, hdl, h, none⟩

/-- The body shared by the functions that hand a request over to a callback:
nothing is done for no bytes, and -1 returned when there is no callback. The
assertion is that of debug builds on the pointers. -/
def handOver (debug pointers : Bool) (message : String) (callback : Bool) (n : Nat)
    (answer : Int) : Outcome Int := do
  Outcome.check (debug = true → pointers = true) message
  if n = 0 then .ok 0
  else if callback = false then .ok (-1)
  else invoke callback answer

def keReadFsNode (debug : Bool) (driver : FsDriver) (buf n : Nat) (answer : Int) : Outcome Int :=
  handOver debug (buf ≠ 0) "Assertion hdl != NULL && buf != NULL failed!\r\n" driver.read n answer

def keWriteWithFdscbFsNode (debug : Bool) (driver : FsDriver) (fdscb buf n : Nat) (answer : Int) :
    Outcome Int :=
  handOver debug (fdscb ≠ 0 ∧ buf ≠ 0)
    "Assertion hdl != NULL && fdscb != NULL && buf != NULL failed!\r\n" driver.writeFdscb n answer

def keReadWithFdscbFsNode (debug : Bool) (driver : FsDriver) (fdscb buf n : Nat) (answer : Int) :
    Outcome Int :=
  handOver debug (fdscb ≠ 0 ∧ buf ≠ 0)
    "Assertion hdl != NULL && fdscb != NULL && buf != NULL failed!\r\n" driver.readFdscb n answer

def keIoControlFsNode (driver : FsDriver) (answer : Int) : Outcome Int :=
  if driver.ioctl = false then .ok (-1) else invoke driver.ioctl answer

section
variable {driver : FsDriver}

/-- What a write leaves: everything as it was, no buffer and its block lost, or
the bytes behind those in a new buffer. -/
theorem keWriteFsNode_sound (debug : Bool) (driver : FsDriver) {h : Heap} {hdl : FsHandle}
    {old : Nat} (buf n allocated : Nat) (answer : Int)
    (block : hdl.writeBuf = 0 ∨ (hdl.writeBuf, old) ∈ h.live) :
    Outcome.Sound (fun done =>
        done.handle = hdl ∧ done.heap = h ∧
          (hdl.flags &&& vfsModeBuffered ≠ 0 → n = 0 ∨ driver.write = false) ∨
        driver.write = true ∧ n ≠ 0 ∧ allocated = 0 ∧
          done.result = -1 ∧ done.handle = { hdl with writeBuf := 0 } ∧ done.heap = h ∧
          done.handed = none ∨
        driver.write = true ∧ n ≠ 0 ∧ allocated ≠ 0 ∧
          ∃ h', mmReallocate h allocated hdl.writeBuf (u32 (hdl.writeBufSize + n)) =
              .ok (allocated, h') ∧
            done.result = signed32 n ∧
            done.handle =
              { hdl with writeBuf := allocated, writeBufSize := u32 (hdl.writeBufSize + n) } ∧
            done.heap = ⟨h'.storage.copyUp (u32 (allocated + hdl.writeBufSize)) buf n, h'.live⟩ ∧
            done.handed = none)
      (keWriteFsNode debug driver h hdl buf n allocated answer) := by
  rw [keWriteFsNode]
  by_cases empty : n = 0
  · rw [if_pos empty]
    exact Or.inl ⟨rfl, rfl, fun _ => Or.inl empty⟩
  rw [if_neg empty]
  by_cases write : driver.write = false
  · rw [if_pos write]
    exact Or.inl ⟨rfl, rfl, fun _ => Or.inr write⟩
  rw [if_neg write]
  have set : driver.write = true := by simpa using write
  by_cases mode : hdl.flags &&& vfsModeBuffered ≠ 0
  · rw [if_pos mode]
    by_cases none : allocated = 0
    · subst none
      refine (mmReallocate_null h _ _).bind ?_
      rintro _ rfl
      exact Or.inr (Or.inl ⟨set, empty, rfl, rfl, rfl, rfl, rfl⟩)
    · by_cases wraps : u32 (hdl.writeBufSize + n) = 0
      · rw [wraps]
        trivial
      · obtain ⟨h', grown, -⟩ := mmReallocate_some block none (Nat.pos_of_ne_zero wraps)
        rw [grown, Outcome.ok_bind]
        simp only [if_neg none]
        refine (keCopyMemory_sound debug _ _ _ _).bind ?_
        rintro _ rfl
        exact Or.inr (Or.inr ⟨set, empty, none, h', rfl, rfl, rfl, rfl, rfl⟩)
  · rw [if_neg mode, set]
    exact Or.inl ⟨rfl, rfl, fun buffered => absurd buffered mode⟩

theorem keFlushFsNode_eq {h h' : Heap} {hdl : FsHandle} (answer : Int)
    (mode : hdl.flags &&& vfsModeBuffered ≠ 0) (write : driver.write = true)
    (freed : mmFree h hdl.writeBuf = .ok h') :
    keFlushFsNode driver h hdl answer =
      .ok ⟨answer, { hdl with writeBuf := 0, readBufSize := 0 }, h',
        some (h.storage.bytes hdl.writeBuf hdl.writeBufSize)⟩ := by
  rw [keFlushFsNode, if_pos mode, if_neg (by simp [write]), write, freed]
  rfl

end

section
variable {debug : Bool} {driver : FsDriver} {h : Heap} {hdl : FsHandle} {answer : Int}
variable {buf n allocated : Nat} {done : Done}

/-- The driver with the callbacks of the calls on storage. -/
def FsDriver.onStorage (driver : FsDriver) (answer : Int) : FsStream.FsDriver :=
  ⟨if driver.openCallback then some answer else none,
    if driver.write then some fun _ => answer else none⟩

/-- What the call leaves, without the blocks in use. -/
def Done.onStorage (done : Done) : FsStream.Done :=
  ⟨done.result, done.handle, done.heap.storage, done.handed⟩

/-- A call that opens gives the handle that the call on storage gives. -/
theorem keOpenFromFsNode_onStorage {driver : Option FsDriver} {flags : UInt32}
    {r : Option (Nat × FsHandle) × Heap}
    (returned : keOpenFromFsNode driver h flags allocated answer = .ok r) :
    FsStream.keOpenFromFsNode (driver.map fun d => d.onStorage answer) flags =
      r.1.map Prod.snd := by
  cases driver with
  | none =>
    cases returned
    rfl
  | some driver =>
    obtain ⟨⟨hdl, h'⟩, made, opened⟩ := Outcome.bind_eq_ok.mp returned
    rw [Option.map_some, FsStream.keOpenFromFsNode, FsDriver.onStorage]
    cases callback : driver.openCallback with
    | false =>
      rw [callback] at opened
      cases opened
      rfl
    | true =>
      rw [callback] at opened
      dsimp only at opened ⊢
      rw [if_pos rfl, invoke, if_pos rfl, Outcome.ok_bind] at opened
      rw [if_pos rfl]
      by_cases refused : answer ≠ 0
      · rw [if_pos refused] at opened
        obtain ⟨h2, freed, same⟩ := Outcome.bind_eq_ok.mp opened
        cases same
        exact if_pos refused
      · rw [if_neg refused] at opened
        cases opened
        exact if_neg refused

/-- A write does to the handle and to storage what the write on storage does. -/
theorem keWriteFsNode_onStorage
    (returned : keWriteFsNode debug driver h hdl buf n allocated answer = .ok done)
    (room : allocated + hdl.writeBufSize < 4294967296) :
    FsStream.keWriteFsNode debug (driver.onStorage answer) h.storage hdl buf n allocated =
      .ok done.onStorage := by
  rw [keWriteFsNode] at returned
  rw [FsStream.keWriteFsNode]
  by_cases empty : n = 0
  · rw [if_pos empty] at returned ⊢
    cases returned
    rfl
  · rw [if_neg empty] at returned ⊢
    cases write : driver.write with
    | false =>
      rw [if_pos write] at returned
      cases returned
      simp [FsDriver.onStorage, write, Done.onStorage]
    | true =>
      have callback : (driver.onStorage answer).write = some fun _ => answer := by
        simp [FsDriver.onStorage, write]
      rw [if_neg (by simp [write])] at returned
      rw [callback]
      by_cases buffered : hdl.flags &&& vfsModeBuffered ≠ 0
      · rw [if_pos buffered] at returned
        obtain ⟨⟨ptr, h'⟩, grown, stored⟩ := Outcome.bind_eq_ok.mp returned
        obtain ⟨pointer, storage⟩ := mmReallocate_onStorage grown
        rw [Mm.mmReallocate_ptr] at pointer
        dsimp only at pointer storage stored ⊢
        rw [if_pos buffered, ← storage, Mm.mmReallocate_ptr, ← pointer]
        rw [← pointer] at room
        by_cases null : ptr = 0
        · rw [if_pos null] at stored ⊢
          cases stored
          rfl
        · rw [if_neg null, u32_eq_self room] at stored
          obtain ⟨r, copied, stored⟩ := Outcome.bind_eq_ok.mp stored
          rw [if_neg null, copied, Outcome.ok_bind, ← Outcome.ok.inj stored, Done.onStorage]
      · rw [if_neg buffered] at returned
        rw [write, invoke, if_pos rfl] at returned
        cases returned
        dsimp only
        rw [if_neg buffered]
        rfl

/-- So does a flush. -/
theorem keFlushFsNode_onStorage (returned : keFlushFsNode driver h hdl answer = .ok done) :
    FsStream.keFlushFsNode (driver.onStorage answer) h.storage hdl = .ok done.onStorage := by
  rw [keFlushFsNode] at returned
  rw [FsStream.keFlushFsNode]
  by_cases buffered : hdl.flags &&& vfsModeBuffered ≠ 0
  · rw [if_pos buffered] at returned ⊢
    cases write : driver.write with
    | false =>
      have callback : (driver.onStorage answer).write = none := by
        simp [FsDriver.onStorage, write]
      rw [callback]
      by_cases some : hdl.writeBufSize ≠ 0
      · rw [if_pos ⟨write, some⟩] at returned
        cases returned
        dsimp only
        rw [if_pos some]
        rfl
      · rw [if_neg fun both => some both.2, write] at returned
        cases returned
    | true =>
      have callback : (driver.onStorage answer).write = some fun _ => answer := by
        simp [FsDriver.onStorage, write]
      rw [if_neg (by simp [write]), write] at returned
      obtain ⟨r, invoked, returned⟩ := Outcome.bind_eq_ok.mp returned
      cases invoked
      obtain ⟨h', freed, returned⟩ := Outcome.bind_eq_ok.mp returned
      cases returned
      rw [callback, Done.onStorage, mmFree_storage freed]
  · rw [if_neg buffered] at returned ⊢
    cases returned
    rfl

end

section
variable {debug : Bool} {driver : FsDriver} {h : Heap} {hdl : FsHandle}

/-- The buffer of the handle is a block in use that is as long as the size says. -/
def Buffered (h : Heap) (hdl : FsHandle) : Prop :=
  hdl.flags &&& vfsModeBuffered ≠ 0 ∧
    (hdl.writeBuf = 0 ∨ (hdl.writeBuf, hdl.writeBufSize) ∈ h.live) ∧
    hdl.writeBufSize < 4294967296

/-- The bytes in the write buffer, none when there are bytes and no buffer, and
how many there are. -/
def pending (h : Heap) (hdl : FsHandle) : Option (List UInt8) × Nat :=
  (if hdl.writeBuf = 0 then none else some (h.storage.bytes hdl.writeBuf hdl.writeBufSize),
    hdl.writeBufSize)

/-- A call that can fail, with what the allocator and the driver answer. -/
inductive IoCall where
  | write (buf n allocated : Nat) (answer : Int)
  | flush (answer : Int)

def ioCall (debug : Bool) (driver : FsDriver) (h : Heap) (hdl : FsHandle) : IoCall → Outcome Done
  | .write buf n allocated answer => keWriteFsNode debug driver h hdl buf n allocated answer
  | .flush answer => keFlushFsNode driver h hdl answer

/-- A call that fails leaves the pending bytes as they were. -/
def KeepsPending (h : Heap) (hdl : FsHandle) (done : Done) : Prop :=
  done.result < 0 → pending done.heap done.handle = pending h hdl

/-- A write that is stored in the buffer has fewer than 2^31 bytes or is stopped
by the overlap assertion, and one that finds no room has no buffer to lose; the
driver refuses nothing that was in the buffer. -/
def NothingLost (debug : Bool) (driver : FsDriver) (hdl : FsHandle) : IoCall → Prop
  | .write buf n allocated _ =>
    driver.write = true → n ≠ 0 → u32 (hdl.writeBufSize + n) ≠ 0 →
      if allocated = 0 then hdl.writeBuf = 0
      else n < 2147483648 ∨
        debug = true ∧ copyGap (u32 (allocated + hdl.writeBufSize)) buf < n
  | .flush answer => driver.write = true → answer < 0 → hdl.writeBuf = 0

/-- The arguments of a call have 32 bits. -/
def IoCall.Ranged : IoCall → Prop
  | .write _ n _ _ => n < 4294967296
  | .flush _ => True

theorem pending_null_iff (h h' : Heap) (hdl hdl' : FsHandle) (null : hdl'.writeBuf = 0)
    (size : hdl'.writeBufSize = hdl.writeBufSize) :
    pending h' hdl' = pending h hdl ↔ hdl.writeBuf = 0 := by
  rw [pending, pending, if_pos null, size]
  by_cases none : hdl.writeBuf = 0
  · rw [if_pos none]
    exact iff_of_true rfl none
  · rw [if_neg none]
    simp [none]

theorem after_ok {done : Done} {good : Done → Prop} :
    Outcome.After good (.ok done) ↔ good done := by
  constructor
  · exact fun after => after done rfl
  · intro holds other same
    cases same
    exact holds

/-- What is pending stays as it was in a write that fails exactly when nothing is lost. -/
theorem keWriteFsNode_keeps_iff (buffered : Buffered h hdl) {buf n allocated : Nat}
    (ranged : n < 4294967296) (answer : Int) :
    Outcome.After (KeepsPending h hdl)
        (keWriteFsNode debug driver h hdl buf n allocated answer) ↔
      NothingLost debug driver hdl (.write buf n allocated answer) := by
  obtain ⟨mode, block, size⟩ := buffered
  rw [keWriteFsNode, NothingLost]
  by_cases empty : n = 0
  · rw [if_pos empty, after_ok]
    exact iff_of_true (fun negative => absurd negative (by simp)) fun _ some => absurd empty some
  rw [if_neg empty]
  by_cases write : driver.write = false
  · rw [if_pos write, after_ok]
    exact iff_of_true (fun _ => rfl) fun set => absurd (write.symm.trans set) (by decide)
  rw [if_neg write, if_pos mode]
  have set : driver.write = true := by simpa using write
  by_cases wraps : u32 (hdl.writeBufSize + n) = 0
  · rw [wraps]
    exact iff_of_true (fun done returned => by cases returned) fun _ _ some => absurd rfl some
  have positive : 0 < u32 (hdl.writeBufSize + n) := Nat.pos_of_ne_zero wraps
  by_cases none : allocated = 0
  · rw [none, mmReallocate_none positive, Outcome.ok_bind]
    simp only [if_true, after_ok]
    have same := pending_null_iff h h hdl { hdl with writeBuf := 0 } rfl rfl
    constructor
    · exact fun keeps _ _ _ => same.mp (keeps (by simp))
    · exact fun nothing _ => same.mpr (nothing set empty wraps)
  · obtain ⟨h', grown, -⟩ := mmReallocate_some block none positive
    rw [grown, Outcome.ok_bind]
    simp only [if_neg none]
    by_cases apart : debug = true → ¬ copyGap (u32 (allocated + hdl.writeBufSize)) buf < n
    · rw [keCopyMemory, Outcome.check_of apart, Outcome.ok_bind, Outcome.ok_bind, after_ok]
      have changed : u32 (hdl.writeBufSize + n) ≠ hdl.writeBufSize := by
        unfold u32
        omega
      have negative : signed32 n < 0 ↔ ¬ n < 2147483648 := by
        unfold signed32
        omega
      constructor
      · intro keeps _ _ _
        by_contra lost
        rw [not_or] at lost
        have same := keeps (negative.mpr lost.1)
        exact changed (Prod.mk.inj same).2
      · intro nothing
        rcases nothing set empty wraps with few | ⟨debugged, overlap⟩
        · exact fun below => absurd few (negative.mp below)
        · exact absurd overlap (apart debugged)
    · have stops : ∃ message, keCopyMemory debug h'.storage
          (u32 (allocated + hdl.writeBufSize)) buf n = .panic message := by
        rw [keCopyMemory, Outcome.check, if_neg apart]
        exact ⟨_, rfl⟩
      obtain ⟨message, stops⟩ := stops
      rw [stops]
      refine iff_of_true (fun done returned => by cases returned) fun _ _ _ => Or.inr ?_
      simpa using apart

/-- And so in a flush. -/
theorem keFlushFsNode_keeps_iff (buffered : Buffered h hdl) (answer : Int) :
    Outcome.After (KeepsPending h hdl) (keFlushFsNode driver h hdl answer) ↔
      NothingLost debug driver hdl (.flush answer) := by
  obtain ⟨mode, block, _⟩ := buffered
  rw [NothingLost]
  cases write : driver.write with
  | false =>
    rw [keFlushFsNode, if_pos mode, write]
    by_cases some : hdl.writeBufSize ≠ 0
    · rw [if_pos ⟨rfl, some⟩, after_ok]
      exact iff_of_true (fun _ => rfl) fun set => by cases set
    · rw [if_neg fun both => some both.2]
      exact iff_of_true (fun done returned => by cases returned) fun set => by cases set
  | true =>
    obtain ⟨h', freed⟩ : ∃ h', mmFree h hdl.writeBuf = .ok h' := by
      by_cases null : hdl.writeBuf = 0
      · exact ⟨h, by rw [mmFree, if_pos null]⟩
      · rw [mmFree, if_neg null, Heap.free_of_mem (block.resolve_left null)]
        exact ⟨_, rfl⟩
    rw [keFlushFsNode_eq answer mode write freed, after_ok]
    have same := pending_null_iff h h' hdl { hdl with writeBuf := 0, readBufSize := 0 } rfl rfl
    constructor
    · exact fun keeps _ negative => same.mp (keeps negative)
    · exact fun nothing negative => same.mpr (nothing rfl negative)

end

/-- A write or a flush of a buffered handle that fails keeps what is pending if
and only if the allocator or the driver fails only where there is no buffer,
and no more than 2^31 - 1 bytes are stored by one write. -/
theorem failed_call_keeps_pending_iff (debug : Bool) (driver : FsDriver) (h : Heap)
    (hdl : FsHandle) (buffered : Buffered h hdl) (call : IoCall) (ranged : call.Ranged) :
    Outcome.After (KeepsPending h hdl) (ioCall debug driver h hdl call) ↔
      NothingLost debug driver hdl call := by
  cases call with
  | write buf n allocated answer => exact keWriteFsNode_keeps_iff buffered ranged answer
  | flush answer => exact keFlushFsNode_keeps_iff buffered answer

/-- A driver with all callbacks, and a handle with the byte 7 in its buffer. -/
def allSet : FsDriver := ⟨true, true, true, true, true, true, true⟩
def oneByte : Heap := ⟨fun _ => 7, [(16, 1)]⟩
def oneByteHandle : FsHandle :=
  { zeroHandle with writeBuf := 16, writeBufSize := 1, flags := vfsModeBuffered }

theorem oneByte_buffered : Buffered oneByte oneByteHandle :=
  ⟨by decide, Or.inr (by decide), by decide⟩

/-- The driver takes the byte. -/
theorem flush_keeps_pending :
    Outcome.After (KeepsPending oneByte oneByteHandle)
        (ioCall false allSet oneByte oneByteHandle (.flush 1)) ↔
      NothingLost false allSet oneByteHandle (.flush 1) :=
  failed_call_keeps_pending_iff false allSet oneByte oneByteHandle oneByte_buffered (.flush 1) trivial

/-- A second byte finds no room, and the first one is gone; a driver that
refuses the first byte is the last to see it. -/
theorem failed_calls_lose_pending :
    (∃ done, ioCall false allSet oneByte oneByteHandle (.write 32 1 0 0) = .ok done ∧
      done.result = -1 ∧ pending oneByte oneByteHandle = (some [7], 1) ∧
      pending done.heap done.handle = (none, 1)) ∧
    ∃ done, ioCall false allSet oneByte oneByteHandle (.flush (-1)) = .ok done ∧
      done.result = -1 ∧ pending done.heap done.handle = (none, 1) :=
  ⟨⟨_, rfl, by decide, by decide, by decide⟩, ⟨_, rfl, by decide, by decide⟩⟩

end FsFile
