import UDos.Kernel.FsFile
import UDos.Library.Runs

/-!
# Sessions on a file handle

A handle from its opening to its closing, with every call that can be made on
it in between. The heap of a session has the blocks allocated for the handle and
no others. Before each call everything but the write buffer may have changed.
-/

namespace FsFile

open KernelMemory MmHeap Storage Heap
open FsStream (FsHandle zeroHandle vfsModeBuffered)

/-- A handle in use, with the bytes that writes have accepted and those that
`driver->write` has been called with. `idle` records a flush that called it with
no buffer. -/
structure Session where
  heap : Heap
  address : Nat
  handle : FsHandle
  written : List UInt8
  handed : List UInt8
  idle : Bool

/-- A call on the handle, with what the callback answers. -/
inductive Call where
  | io (call : IoCall)
  | read (buf n : Nat) (answer : Int)
  | writeFdscb (fdscb buf n : Nat) (answer : Int)
  | readFdscb (fdscb buf n : Nat) (answer : Int)
  | ioctl (answer : Int)

/-- A call, and the rest of storage at its time. -/
structure Event where
  other : Storage
  call : Call

/-- The heap at the time of a call. -/
def settled (s : Session) (other : Storage) : Heap :=
  { s.heap with storage :=
      if s.handle.writeBuf = 0 then other
      else s.heap.storage.outsideFrom other s.handle.writeBuf s.handle.writeBufSize }

/-- The bytes that a call accepts: all of them when it returns their number. -/
def accepted (h : Heap) (done : Done) : IoCall → List UInt8
  | .write buf n _ _ => if done.result = n then h.storage.bytes buf n else []
  | .flush _ => []

/-- A flush has called the driver although there is no write buffer. -/
def wasIdle (hdl : FsHandle) (done : Done) : IoCall → Bool
  | .write .. => false
  | .flush _ => done.handed.isSome && hdl.writeBuf == 0

/-- The session behind a write or a flush on this heap. -/
def Session.after (s : Session) (h : Heap) (call : IoCall) (done : Done) : Session :=
  { s with
    heap := done.heap
    handle := done.handle
    written := s.written ++ accepted h done call
    handed := s.handed ++ done.handed.getD []
    idle := s.idle || wasIdle s.handle done call }

def sessionStep (debug : Bool) (driver : FsDriver) (s : Session) (event : Event) :
    Outcome Session :=
  let h := settled s event.other
  match event.call with
  | .io call => do
    let done ← ioCall debug driver h s.handle call
    .ok (s.after h call done)
  | .read buf n answer => do
    let _ ← keReadFsNode debug driver buf n answer
    .ok { s with heap := h }
  | .writeFdscb fdscb buf n answer => do
    let _ ← keWriteWithFdscbFsNode debug driver fdscb buf n answer
    .ok { s with heap := h }
  | .readFdscb fdscb buf n answer => do
    let _ ← keReadWithFdscbFsNode debug driver fdscb buf n answer
    .ok { s with heap := h }
  | .ioctl answer => do
    let _ ← keIoControlFsNode driver answer
    .ok { s with heap := h }

/-- A session just opened, on a heap without a block of its own before. -/
def openSession (driver : FsDriver) (m : Storage) (flags : UInt32) (allocated : Nat)
    (answer : Int) : Outcome (Option Session) := do
  let (hdl, h) ← keOpenFromFsNode (some driver) ⟨m, []⟩ flags allocated answer
  .ok (hdl.map fun hdl => ⟨h, hdl.1, hdl.2, [], [], false⟩)

/-- Calls on the handle, if it is opened. -/
def history (debug : Bool) (driver : FsDriver) (opening : Outcome (Option Session))
    (events : List Event) : Outcome (Option Session) := do
  match ← opening with
  | none => .ok none
  | some s => do
    let s ← Runs.run (sessionStep debug driver) s events
    .ok (some s)

/-- The closing of the handle at the end of a session. -/
def closing (driver : FsDriver) (s : Session) (answer : Int) : Outcome Heap :=
  keCloseFsNode driver s.heap s.address answer

section
variable {debug : Bool} {driver : FsDriver} {s : Session}

/-- A handle that is opened has a cleared buffer and one block. -/
theorem openSession_sound (driver : FsDriver) (m : Storage) (flags : UInt32) (allocated : Nat)
    (answer : Int) :
    Outcome.Sound (fun o => ∀ s ∈ o, allocated ≠ 0 ∧
      s = ⟨⟨m.fill allocated 0 handleSize, [(allocated, handleSize)]⟩, allocated,
        { zeroHandle with flags := flags }, [], [], false⟩)
      (openSession driver m flags allocated answer) := by
  have cleared := mmAllocateZero_sound ⟨m, []⟩ allocated handleSize
  cases returned : mmAllocateZero ⟨m, []⟩ allocated handleSize with
  | panic message =>
    rw [openSession, keOpenFromFsNode, returned]
    trivial
  | fault =>
    rw [returned] at cleared
    exact cleared.elim
  | diverge =>
    rw [returned] at cleared
    exact cleared.elim
  | ok r =>
    rw [returned] at cleared
    obtain ⟨notNull, _, rfl⟩ := cleared
    rw [openSession, keOpenFromFsNode, returned]
    simp only [Outcome.ok_bind]
    cases callback : driver.openCallback with
    | false =>
      rw [if_neg (by simp)]
      rintro s ⟨⟩
      exact ⟨notNull, rfl⟩
    | true =>
      rw [if_pos rfl, invoke, if_pos rfl, Outcome.ok_bind]
      by_cases refused : answer ≠ 0
      · have freed : mmFree ⟨m.fill allocated 0 handleSize, [(allocated, handleSize)]⟩ allocated =
            .ok ⟨m.fill allocated 0 handleSize, []⟩ := by
          simp [mmFree, notNull, Heap.free]
        rw [if_pos refused, freed]
        rintro s ⟨⟩
      · rw [if_neg refused]
        rintro s ⟨⟩
        exact ⟨notNull, rfl⟩

theorem handOver_sound (debug pointers : Bool) (message : String) (callback : Bool) (n : Nat)
    (answer : Int) :
    Outcome.Sound (fun _ => True) (handOver debug pointers message callback n answer) := by
  refine (Outcome.sound_check _).bind fun _ _ => ?_
  by_cases empty : n = 0
  · rw [if_pos empty]
    trivial
  · rw [if_neg empty]
    cases callback with
    | false => trivial
    | true => trivial

theorem keIoControlFsNode_sound (driver : FsDriver) (answer : Int) :
    Outcome.Sound (fun _ => True) (keIoControlFsNode driver answer) := by
  rw [keIoControlFsNode]
  cases driver.ioctl with
  | false => trivial
  | true => trivial

theorem sessionStep_other {inv : Session → Prop} {event : Event}
    (keep : inv { s with heap := settled s event.other })
    (other : ∀ call, event.call ≠ .io call) :
    Outcome.Sound inv (sessionStep debug driver s event) := by
  rw [sessionStep]
  cases called : event.call with
  | io call => exact absurd called (other call)
  | read buf n answer => exact (handOver_sound ..).bind fun _ _ => keep
  | writeFdscb fdscb buf n answer => exact (handOver_sound ..).bind fun _ _ => keep
  | readFdscb fdscb buf n answer => exact (handOver_sound ..).bind fun _ _ => keep
  | ioctl answer => exact (keIoControlFsNode_sound driver answer).bind fun _ _ => keep

/-- No flush has called the driver for nothing, and the handle can be closed. -/
def Undisturbing (driver : FsDriver) (s : Session) : Prop :=
  s.idle = false ∧ ∀ answer, Outcome.Sound (fun _ => True) (closing driver s answer)

/-- The allocator hands out no block that is in use. -/
def Answers (s : Session) (event : Event) : Prop :=
  match event.call with
  | .io (.write _ _ allocated _) => allocated ∉ s.heap.live.map Prod.fst
  | _ => True

/-- A buffered handle is flushed only when it has a write buffer. -/
def FlushesBuffer (s : Session) (event : Event) : Prop :=
  match event.call with
  | .io (.flush _) => s.handle.flags &&& vfsModeBuffered ≠ 0 → s.handle.writeBuf ≠ 0
  | _ => True

/-- The blocks of the handle are in use, and a buffer is there only when the
driver can write. -/
structure Guarded (driver : FsDriver) (s : Session) : Prop where
  notIdle : s.idle = false
  handle : (s.address, handleSize) ∈ s.heap.live
  null : 0 ∉ s.heap.live.map Prod.fst
  buffer : s.handle.writeBuf = 0 ∨
    s.handle.writeBuf ≠ s.address ∧ (s.handle.writeBuf, s.handle.writeBufSize) ∈ s.heap.live
  noWrite : driver.write = false → s.handle.writeBuf = 0 ∧ s.handle.writeBufSize = 0

theorem Guarded.address (guarded : Guarded driver s) : s.address ≠ 0 := by
  intro null
  have start := List.mem_map_of_mem (f := Prod.fst) guarded.handle
  exact guarded.null (null ▸ start)

theorem closing_eq (address : s.address ≠ 0) (handle : (s.address, handleSize) ∈ s.heap.live)
    (answer : Int) :
    closing driver s answer =
      .ok { s.heap with live := s.heap.live.filter fun x => x.1 ≠ s.address } := by
  have freed : mmFree s.heap s.address =
      .ok { s.heap with live := s.heap.live.filter fun x => x.1 ≠ s.address } := by
    rw [mmFree, if_neg address, Heap.free_of_mem handle]
  rw [closing, keCloseFsNode, freed]
  cases driver.close with
  | false => rfl
  | true => rfl

theorem Guarded.undisturbing (guarded : Guarded driver s) : Undisturbing driver s := by
  refine ⟨guarded.notIdle, fun answer => ?_⟩
  rw [closing_eq guarded.address guarded.handle]
  trivial

/-- A write keeps the blocks of the handle in use. -/
theorem Guarded.write (debug : Bool) (guarded : Guarded driver s) (other : Storage)
    {buf n allocated : Nat} (answer : Int) (answers : allocated ∉ s.heap.live.map Prod.fst) :
    Outcome.Sound (Guarded driver)
      (sessionStep debug driver s ⟨other, .io (.write buf n allocated answer)⟩) := by
  have block : s.handle.writeBuf = 0 ∨
      (s.handle.writeBuf, s.handle.writeBufSize) ∈ (settled s other).live :=
    guarded.buffer.imp_right And.right
  have idle : ∀ done, (s.idle || wasIdle s.handle done (.write buf n allocated answer)) = false :=
    fun _ => by rw [guarded.notIdle, wasIdle, Bool.or_false]
  refine (keWriteFsNode_sound debug driver buf n allocated answer block).bind ?_
  rintro ⟨result, hdl, h, handed⟩ (⟨handle, heap, -⟩ | ⟨set, -, -, -, handle, heap, -⟩ |
    ⟨set, -, some, h', grown, -, handle, heap, -⟩)
  · cases handle
    cases heap
    exact ⟨idle _, guarded.handle, guarded.null, guarded.buffer, guarded.noWrite⟩
  · cases handle
    cases heap
    exact ⟨idle _, guarded.handle, guarded.null, Or.inl rfl,
      fun missing => absurd (set.symm.trans missing) (by simp)⟩
  · cases handle
    cases heap
    have newSize : 0 < u32 (s.handle.writeBufSize + n) := by
      by_contra wraps
      rw [Nat.eq_zero_of_not_pos wraps] at grown
      cases grown
    obtain ⟨h'', again, live⟩ := mmReallocate_some block some newSize
    obtain rfl : h'' = h' := by
      rw [grown] at again
      exact (Prod.mk.inj (Outcome.ok.inj again)).2.symm
    have notHeld : ∀ {x : Nat × Nat}, x ∈ s.heap.live → x.1 ≠ allocated :=
      fun held same => answers (same ▸ List.mem_map_of_mem held)
    have buffers : s.handle.writeBuf = 0 ∨ s.handle.writeBuf ≠ allocated :=
      guarded.buffer.imp_right fun held => notHeld held.2
    refine ⟨idle _, (live _).mpr ⟨Or.inr guarded.handle, ?_⟩, ?_, Or.inr ⟨?_, ?_⟩, ?_⟩
    · exact guarded.buffer.imp_right fun held => held.1.symm
    · intro null
      obtain ⟨x, held, start⟩ := List.mem_map.mp null
      rcases ((live x).mp held).1 with rfl | old
      · exact some start
      · exact guarded.null (start ▸ List.mem_map_of_mem old)
    · exact (notHeld guarded.handle).symm
    · exact (live _).mpr ⟨Or.inl rfl, buffers.imp_right Ne.symm⟩
    · exact fun missing => absurd (set.symm.trans missing) (by simp)

/-- A flush of a buffer returns it. -/
theorem Guarded.flush (debug : Bool) (guarded : Guarded driver s) (other : Storage) (answer : Int)
    (some : s.handle.flags &&& vfsModeBuffered ≠ 0 → s.handle.writeBuf ≠ 0) :
    Outcome.Sound (Guarded driver)
      (sessionStep debug driver s ⟨other, .io (.flush answer)⟩) := by
  by_cases mode : s.handle.flags &&& vfsModeBuffered ≠ 0
  · have buffer := some mode
    obtain ⟨apart, block⟩ := guarded.buffer.resolve_left buffer
    have write : driver.write = true := by
      by_contra missing
      exact buffer (guarded.noWrite (by simpa using missing)).1
    have freed : mmFree (settled s other) s.handle.writeBuf = .ok ⟨(settled s other).storage,
        s.heap.live.filter fun x => x.1 ≠ s.handle.writeBuf⟩ := by
      have held : (s.handle.writeBuf, s.handle.writeBufSize) ∈ (settled s other).live := block
      rw [mmFree, if_neg buffer]
      exact Heap.free_of_mem held
    have flushed := keFlushFsNode_eq answer mode write freed
    simp only [sessionStep, ioCall, flushed, Outcome.ok_bind]
    refine ⟨?_, ?_, ?_, Or.inl rfl, fun missing => absurd (write.symm.trans missing) (by simp)⟩
    · simp [Session.after, guarded.notIdle, wasIdle, buffer]
    · exact List.mem_filter.mpr ⟨guarded.handle, decide_eq_true apart.symm⟩
    · intro null
      obtain ⟨x, held, start⟩ := List.mem_map.mp null
      exact guarded.null (start ▸ List.mem_map_of_mem (List.mem_of_mem_filter held))
  · simp only [sessionStep, ioCall, keFlushFsNode, if_neg mode, Outcome.ok_bind]
    refine ⟨?_, guarded.handle, guarded.null, guarded.buffer, guarded.noWrite⟩
    simp [Session.after, guarded.notIdle, wasIdle]

theorem Guarded.step (debug : Bool) (guarded : Guarded driver s) {event : Event}
    (answers : Answers s event) (flushes : FlushesBuffer s event) :
    Outcome.Sound (Guarded driver) (sessionStep debug driver s event) := by
  obtain ⟨other, call⟩ := event
  by_cases io : ∃ ioCall, call = .io ioCall
  · obtain ⟨ioCall, rfl⟩ := io
    cases ioCall with
    | write buf n allocated answer => exact guarded.write debug other answer answers
    | flush answer => exact guarded.flush debug other answer flushes
  · refine sessionStep_other ?_ fun ioCall called => io ⟨ioCall, called⟩
    exact ⟨guarded.notIdle, guarded.handle, guarded.null, guarded.buffer, guarded.noWrite⟩

/-- A call disturbs nobody exactly when it is no flush of a handle without a buffer. -/
theorem Guarded.step_iff (debug : Bool) (guarded : Guarded driver s) {event : Event}
    (answers : Answers s event) :
    Outcome.Sound (Undisturbing driver) (sessionStep debug driver s event) ↔
      FlushesBuffer s event := by
  constructor
  · intro sound
    by_contra idle
    obtain ⟨other, call⟩ := event
    cases call with
    | io ioCall =>
      cases ioCall with
      | write buf n allocated answer => exact idle trivial
      | flush answer =>
        rw [FlushesBuffer] at idle
        simp only [not_forall, not_not] at idle
        obtain ⟨mode, none⟩ := idle
        simp only [sessionStep, FsFile.ioCall] at sound
        cases write : driver.write with
        | false =>
          have size := (guarded.noWrite write).2
          rw [keFlushFsNode, if_pos mode, if_neg fun both => both.2 size, write] at sound
          exact sound
        | true =>
          have freed : mmFree (settled s other) s.handle.writeBuf = .ok (settled s other) := by
            rw [mmFree, if_pos none]
          rw [keFlushFsNode_eq _ mode write freed] at sound
          simpa [Session.after, wasIdle, none] using sound.1
    | read buf n answer => exact idle trivial
    | writeFdscb fdscb buf n answer => exact idle trivial
    | readFdscb fdscb buf n answer => exact idle trivial
    | ioctl answer => exact idle trivial
  · exact fun flushes => (guarded.step debug answers flushes).mono fun _ kept => kept.undisturbing

/-- The caller's bytes are stored behind those that are pending: the allocator
finds room whenever there is a buffer, and the new block keeps what the old one
had and is apart from the caller's. -/
def Retains (s : Session) (event : Event) : Prop :=
  match event.call with
  | .io (.write buf n allocated _) =>
    n = 0 ∨ allocated = 0 ∧ s.handle.writeBuf = 0 ∨
      Keeping (settled s event.other) allocated s.handle.writeBuf (s.handle.writeBufSize + n) ∧
        Apart (allocated, s.handle.writeBufSize + n) (buf, n)
  | _ => True

/-- The blocks in use are that of the handle and the write buffer, and what has
been accepted was handed over but for a part that the buffer has. -/
structure Intact (s : Session) : Prop where
  mode : s.handle.flags &&& vfsModeBuffered ≠ 0
  sane : s.heap.Sane
  live : ∀ x, x ∈ s.heap.live ↔ x = (s.address, handleSize) ∨
    s.handle.writeBuf ≠ 0 ∧ x = (s.handle.writeBuf, s.handle.writeBufSize)
  apart : s.handle.writeBuf ≠ s.address
  delivered : ∃ due pending, s.written = due ++ pending ∧ due.Sublist s.handed ∧
    (s.handle.writeBuf = 0 → pending = []) ∧
    (s.handle.writeBuf ≠ 0 →
      pending.Sublist (s.heap.storage.bytes s.handle.writeBuf s.handle.writeBufSize))

theorem settled_bytes (other : Storage) (buffer : s.handle.writeBuf ≠ 0) :
    (settled s other).storage.bytes s.handle.writeBuf s.handle.writeBufSize =
      s.heap.storage.bytes s.handle.writeBuf s.handle.writeBufSize := by
  simp only [settled, if_neg buffer]
  exact outsideFrom_bytes ..

theorem Intact.changed (intact : Intact s) (other : Storage) :
    Intact { s with heap := settled s other } := by
  obtain ⟨due, pending, written, handed, none, some⟩ := intact.delivered
  refine ⟨intact.mode, intact.sane.write _, intact.live, intact.apart,
    due, pending, written, handed, none, fun (buffer : s.handle.writeBuf ≠ 0) => ?_⟩
  have kept : pending.Sublist
      ((settled s other).storage.bytes s.handle.writeBuf s.handle.writeBufSize) := by
    rw [settled_bytes other buffer]
    exact some buffer
  exact kept

theorem Intact.others (intact : Intact s) (x : Nat × Nat) :
    x ∈ s.heap.live ∧ x.1 ≠ s.handle.writeBuf ↔ x = (s.address, handleSize) := by
  rw [intact.live]
  constructor
  · rintro ⟨rfl | ⟨-, rfl⟩, other⟩
    · rfl
    · exact absurd rfl other
  · rintro rfl
    exact ⟨Or.inl rfl, intact.apart.symm⟩

theorem Intact.hand (intact : Intact s) (more : List UInt8) (idle : Bool) :
    Intact { s with handed := s.handed ++ more, idle := idle } := by
  obtain ⟨due, pending, written, taken, none, some⟩ := intact.delivered
  exact ⟨intact.mode, intact.sane, intact.live, intact.apart, due, pending, written,
    taken.trans (List.sublist_append_left _ _), none, some⟩

/-- A write that retains what is pending accepts nothing and changes nothing, or its
bytes are stored behind those that are pending, in a block that replaces the buffer. -/
theorem keWriteFsNode_retaining (debug : Bool) {h : Heap} {hdl : FsHandle} {buf n allocated : Nat}
    (answer : Int) (sane : h.Sane) (mode : hdl.flags &&& vfsModeBuffered ≠ 0)
    (write : driver.write = true)
    (block : hdl.writeBuf = 0 ∨ (hdl.writeBuf, hdl.writeBufSize) ∈ h.live)
    (retains : n = 0 ∨ allocated = 0 ∧ hdl.writeBuf = 0 ∨
      Keeping h allocated hdl.writeBuf (hdl.writeBufSize + n) ∧
        Apart (allocated, hdl.writeBufSize + n) (buf, n)) :
    Outcome.Sound (fun done =>
        done.handle = hdl ∧ done.heap = h ∧
          accepted h done (.write buf n allocated answer) = [] ∧ done.handed = none ∨
        ∃ h', Replaced h h' hdl.writeBuf hdl.writeBufSize (hdl.writeBufSize + n) allocated ∧
          Apart (allocated, hdl.writeBufSize + n) (buf, n) ∧
          done.handle = { hdl with writeBuf := allocated, writeBufSize := hdl.writeBufSize + n } ∧
          done.heap = ⟨h'.storage.copyUp (allocated + hdl.writeBufSize) buf n, h'.live⟩ ∧
          accepted h done (.write buf n allocated answer) = h.storage.bytes buf n ∧
          done.handed = none)
      (keWriteFsNode debug driver h hdl buf n allocated answer) := by
  by_cases empty : n = 0
  · subst empty
    rw [keWriteFsNode, if_pos rfl]
    exact Or.inl ⟨rfl, rfl, by simp [accepted, bytes], rfl⟩
  refine (keWriteFsNode_sound debug driver buf n allocated answer block).mono ?_
  rintro ⟨result, hdl', h1, handed⟩ (⟨-, -, nothing⟩ | ⟨-, -, null, failed, handle, heap, noCall⟩ |
    ⟨-, -, notNull, h', grown, counted, handle, heap, noCall⟩)
  · rcases nothing mode with zero | missing
    · exact absurd zero empty
    · rw [write] at missing
      cases missing
  · have none : hdl.writeBuf = 0 := by
      rcases retains with zero | ⟨-, none⟩ | ⟨keeping, -⟩
      · exact absurd zero empty
      · exact none
      · have proper := keeping.1.1.1
        simp only at proper
        omega
    have refused : result ≠ n := by
      rw [show result = -1 from failed]
      omega
    exact Or.inl ⟨handle.trans (by rw [← none]), heap, if_neg refused, noCall⟩
  · obtain ⟨keeping, apart⟩ := (retains.resolve_left empty).resolve_left fun both =>
      absurd both.1 notNull
    obtain ⟨h'', again, replaced⟩ := mmReallocate_replaces sane block keeping
    have range := replaced.fresh.1
    simp only [Proper] at range
    have size : u32 (hdl.writeBufSize + n) = hdl.writeBufSize + n := u32_eq_self (by omega)
    have start : u32 (allocated + hdl.writeBufSize) = allocated + hdl.writeBufSize :=
      u32_eq_self (by omega)
    rw [size] at grown handle
    rw [start] at heap
    obtain rfl : h' = h'' := by
      rw [grown] at again
      exact (Prod.mk.inj (Outcome.ok.inj again)).2
    have all : result = n := (show result = signed32 n from counted).trans
      (signed32_eq_self (by omega) (by omega))
    exact Or.inr ⟨h', replaced, apart, handle, heap, if_pos all, noCall⟩

/-- Bytes are stored behind those that are pending, in a block that replaces the buffer. -/
theorem Intact.store (intact : Intact s) {h' : Heap} {buf n allocated : Nat}
    (replaced : Replaced s.heap h' s.handle.writeBuf s.handle.writeBufSize
      (s.handle.writeBufSize + n) allocated)
    (apart : Apart (allocated, s.handle.writeBufSize + n) (buf, n)) :
    Intact { s with
      heap := ⟨h'.storage.copyUp (allocated + s.handle.writeBufSize) buf n, h'.live⟩
      handle := { s.handle with
        writeBuf := allocated
        writeBufSize := s.handle.writeBufSize + n }
      written := s.written ++ s.heap.storage.bytes buf n } := by
  obtain ⟨due, pending, written, taken, none, some⟩ := intact.delivered
  have notNull : allocated ≠ 0 := Nat.ne_of_gt replaced.fresh.1.1
  have stored : (pending ++ s.heap.storage.bytes buf n).Sublist
      ((h'.storage.copyUp (allocated + s.handle.writeBufSize) buf n).bytes allocated
        (s.handle.writeBufSize + n)) := by
    rw [replaced.copied apart]
    refine List.Sublist.append ?_ (List.Sublist.refl _)
    by_cases first : s.handle.writeBuf = 0
    · rw [none first]
      exact List.nil_sublist _
    · have front : h'.storage.bytes allocated s.handle.writeBufSize =
          s.heap.storage.bytes s.handle.writeBuf s.handle.writeBufSize :=
        bytes_congr fun i hi => replaced.contents first i (by omega)
      rw [front]
      exact some first
  refine ⟨intact.mode, replaced.sane.write _, fun x => ?_, ?_, due,
    pending ++ s.heap.storage.bytes buf n, ?_, taken, fun null => absurd null notNull,
    fun _ => stored⟩
  · refine (replaced.live x).trans ?_
    rw [intact.others, or_comm]
    exact or_congr_right ⟨fun new => ⟨notNull, new⟩, fun new => new.2⟩
  · exact (replaced.fresh.start_ne ((intact.live _).mpr (Or.inl rfl)) intact.sane).symm
  · rw [written, List.append_assoc]

/-- A write that retains what is pending appends to it. -/
theorem Intact.write (debug : Bool) (intact : Intact s) (write : driver.write = true)
    (other : Storage) {buf n allocated : Nat} (answer : Int)
    (retains : Retains s ⟨other, .io (.write buf n allocated answer)⟩) :
    Outcome.Sound Intact
      (sessionStep debug driver s ⟨other, .io (.write buf n allocated answer)⟩) := by
  have kept := intact.changed other
  have block : s.handle.writeBuf = 0 ∨
      (s.handle.writeBuf, s.handle.writeBufSize) ∈ (settled s other).live := by
    by_cases none : s.handle.writeBuf = 0
    · exact Or.inl none
    · exact Or.inr ((intact.live _).mpr (Or.inr ⟨none, rfl⟩))
  refine (keWriteFsNode_retaining debug answer kept.sane intact.mode write block retains).bind ?_
  rintro ⟨result, hdl, h, handed⟩ (⟨handle, heap, nothing, -⟩ |
    ⟨h', replaced, apart, handle, heap, all, -⟩)
  · cases handle
    cases heap
    simp only [Session.after, nothing, List.append_nil]
    exact kept.hand _ _
  · cases handle
    cases heap
    simp only [Session.after, all]
    exact (kept.store replaced apart).hand _ _

/-- A flush hands over what is pending and returns the buffer. -/
theorem Intact.flush (debug : Bool) (intact : Intact s) (write : driver.write = true)
    (other : Storage) (answer : Int) :
    Outcome.Sound Intact (sessionStep debug driver s ⟨other, .io (.flush answer)⟩) := by
  have kept := intact.changed other
  have address := (intact.sane.proper _ ((intact.live _).mpr (Or.inl rfl))).1
  obtain ⟨h, freed, sane, live⟩ : ∃ h, mmFree (settled s other) s.handle.writeBuf = .ok h ∧
      h.Sane ∧ ∀ x, x ∈ h.live ↔ x = (s.address, handleSize) := by
    by_cases none : s.handle.writeBuf = 0
    · refine ⟨settled s other, if_pos none, kept.sane, fun x => ?_⟩
      exact (kept.live x).trans (or_iff_left fun buffer => buffer.1 none)
    · have held : (s.handle.writeBuf, s.handle.writeBufSize) ∈ (settled s other).live :=
        (intact.live _).mpr (Or.inr ⟨none, rfl⟩)
      refine ⟨_, mmFree_of_mem kept.sane held, kept.sane.filter _, fun x => ?_⟩
      rw [List.mem_filter, decide_eq_true_iff]
      exact kept.others x
  simp only [sessionStep, ioCall, keFlushFsNode_eq answer intact.mode write freed, Outcome.ok_bind]
  obtain ⟨due, pending, written, taken, none, some⟩ := kept.delivered
  have whole : s.written = due ++ pending := written
  refine ⟨intact.mode, sane, fun x => ?_, ?_, s.written, [], ?_, ?_, fun _ => rfl,
    fun buffer => absurd rfl buffer⟩
  · exact (live x).trans (or_iff_left fun buffer => buffer.1 rfl).symm
  · exact Nat.ne_of_lt address
  · simp [Session.after, accepted]
  · have last : pending.Sublist
        ((settled s other).storage.bytes s.handle.writeBuf s.handle.writeBufSize) := by
      by_cases first : s.handle.writeBuf = 0
      · rw [none first]
        exact List.nil_sublist _
      · exact some first
    rw [whole]
    exact taken.append last

theorem Intact.step (debug : Bool) (intact : Intact s) (write : driver.write = true)
    {event : Event} (retains : Retains s event) :
    Outcome.Sound Intact (sessionStep debug driver s event) := by
  obtain ⟨other, call⟩ := event
  by_cases io : ∃ ioCall, call = .io ioCall
  · obtain ⟨ioCall, rfl⟩ := io
    cases ioCall with
    | write buf n allocated answer => exact intact.write debug write other answer retains
    | flush answer => exact intact.flush debug write other answer
  · exact sessionStep_other (intact.changed other) fun ioCall called => io ⟨ioCall, called⟩

/-- What is accepted is delivered and no block remains, if the handle is closed now. -/
def Delivers (driver : FsDriver) (s : Session) : Prop :=
  ∀ answer, Outcome.Sound (fun h => s.written.Sublist s.handed ∧ h.live = [])
    (closing driver s answer)

/-- Nothing is left exactly when there is no write buffer any more. -/
theorem Intact.delivers_iff (intact : Intact s) :
    Delivers driver s ↔ s.handle.writeBuf = 0 := by
  have handle : (s.address, handleSize) ∈ s.heap.live := (intact.live _).mpr (Or.inl rfl)
  have address : 0 < s.address := (intact.sane.proper _ handle).1
  rw [Delivers]
  simp only [closing_eq (Nat.ne_of_gt address) handle]
  constructor
  · intro delivers
    by_contra buffer
    have held : (s.handle.writeBuf, s.handle.writeBufSize) ∈
        s.heap.live.filter fun x => x.1 ≠ s.address :=
      List.mem_filter.mpr ⟨(intact.live _).mpr (Or.inr ⟨buffer, rfl⟩), decide_eq_true intact.apart⟩
    have empty := (delivers 0).2
    rw [show s.heap.live.filter _ = [] from empty] at held
    exact List.not_mem_nil held
  · intro none answer
    obtain ⟨due, pending, written, taken, nothing, -⟩ := intact.delivered
    refine ⟨?_, List.filter_eq_nil_iff.mpr fun x held => ?_⟩
    · rw [written, nothing none, List.append_nil]
      exact taken
    · rcases (intact.live x).mp held with rfl | ⟨buffer, -⟩
      · simp
      · exact absurd none buffer

end

section
variable (debug : Bool) (driver : FsDriver) (m : Storage) (flags : UInt32) (allocated : Nat)
variable (answer : Int) (events : List Event)

/-- What holds of every history of the handle, if it is opened. -/
theorem history_sound {good : Option Session → Prop} (refused : good none)
    (used : ∀ s, openSession driver m flags allocated answer = .ok (some s) →
      Outcome.Sound (fun t => good (some t)) (Runs.run (sessionStep debug driver) s events)) :
    Outcome.Sound good
      (history debug driver (openSession driver m flags allocated answer) events) := by
  have opening := openSession_sound driver m flags allocated answer
  rw [history]
  cases opened : openSession driver m flags allocated answer with
  | panic message => trivial
  | fault =>
    rw [opened] at opening
    exact opening
  | diverge =>
    rw [opened] at opening
    exact opening
  | ok o =>
    cases o with
    | none => exact refused
    | some s => exact (used s opened).bind fun t kept => kept

variable {driver m flags allocated answer} {s : Session}

theorem opened_eq (opened : openSession driver m flags allocated answer = .ok (some s)) :
    allocated ≠ 0 ∧ s = ⟨⟨m.fill allocated 0 handleSize, [(allocated, handleSize)]⟩, allocated,
      { zeroHandle with flags := flags }, [], [], false⟩ := by
  have opening := openSession_sound driver m flags allocated answer
  rw [opened] at opening
  exact opening s rfl

theorem opened_intact (opened : openSession driver m flags allocated answer = .ok (some s))
    (mode : flags &&& vfsModeBuffered ≠ 0) (placed : Proper (allocated, handleSize)) :
    Intact s := by
  obtain ⟨notNull, rfl⟩ := opened_eq opened
  refine ⟨mode, ⟨List.pairwise_singleton _ _, fun x held => ?_⟩, fun x => ?_, notNull.symm,
    [], [], rfl, List.Sublist.refl _, fun _ => rfl, fun buffer => absurd rfl buffer⟩
  · rw [List.mem_singleton.mp held]
    exact placed
  · exact List.mem_singleton.trans (or_iff_left fun buffer => buffer.1 rfl).symm

theorem opened_guarded (opened : openSession driver m flags allocated answer = .ok (some s)) :
    Guarded driver s := by
  obtain ⟨notNull, rfl⟩ := opened_eq opened
  refine ⟨rfl, List.mem_singleton_self _, ?_, Or.inl rfl, fun _ => ⟨rfl, rfl⟩⟩
  simpa using notNull.symm

variable (driver m flags allocated answer)

/-- As long as the allocator finds room for what is written and keeps it, closing
a buffered handle delivers all that was accepted and leaves no block if and only
if the handle has no write buffer then: nothing was stored since the last flush. -/
theorem close_delivers_iff (write : driver.write = true) (mode : flags &&& vfsModeBuffered ≠ 0)
    (placed : Proper (allocated, handleSize))
    (retains : ∀ s, openSession driver m flags allocated answer = .ok (some s) →
      Runs.Meets (sessionStep debug driver) Retains s events) :
    Outcome.Sound (fun o => ∀ s ∈ o, Delivers driver s ↔ s.handle.writeBuf = 0)
      (history debug driver (openSession driver m flags allocated answer) events) := by
  refine history_sound debug driver m flags allocated answer events ?_ fun s opened => ?_
  · rintro s ⟨⟩
  · refine (Runs.run_sound (fun t event kept => kept.step debug write)
      (opened_intact opened mode placed) (retains s opened)).mono fun t kept => ?_
    rintro _ ⟨⟩
    exact kept.delivers_iff

end

/-- Storage that is 5 everywhere, where one byte is written to a buffer at 128
and flushed. -/
def fives : Storage := fun _ => 5
def oneWrite : Event := ⟨fives, .io (.write 64 1 128 0)⟩
def oneFlush : Event := ⟨fives, .io (.flush 1)⟩

theorem oneWrite_delivered :
    Outcome.Sound (fun o => ∀ s ∈ o, Delivers allSet s ↔ s.handle.writeBuf = 0)
      (history false allSet (openSession allSet fives vfsModeBuffered 16 0)
        [oneWrite, oneFlush]) :=
  close_delivers_iff false allSet fives vfsModeBuffered 16 0 [oneWrite, oneFlush] rfl (by decide)
    (by decide) fun s opened => by
      obtain ⟨-, rfl⟩ := opened_eq opened
      exact ⟨Or.inr (Or.inr ⟨by decide, by decide⟩), fun _ _ => ⟨trivial, fun _ _ => trivial⟩⟩

/-- Without the flush the byte is not handed over and its block stays in use. -/
theorem oneWrite_lost_at_close :
    ∃ s, history false allSet (openSession allSet fives vfsModeBuffered 16 0) [oneWrite] =
        .ok (some s) ∧ s.written = [5] ∧ s.handed = [] ∧
      ∃ h, closing allSet s 0 = .ok h ∧ h.live = [(128, 1)] :=
  ⟨_, rfl, rfl, rfl, _, rfl, rfl⟩

/-- As long as the allocator hands out no block in use, no missing callback is
called and no flush calls the driver for nothing, however long the handle is
used, if and only if every flush of a buffered handle finds a write buffer. -/
theorem no_missing_callback_iff (debug : Bool) (driver : FsDriver) (m : Storage)
    (flags : UInt32) (allocated : Nat) (answer : Int) (events : List Event)
    (answers : ∀ s, openSession driver m flags allocated answer = .ok (some s) →
      Runs.Meets (sessionStep debug driver) Answers s events) :
    (∀ k, Outcome.Sound (fun o => ∀ s ∈ o, Undisturbing driver s)
      (history debug driver (openSession driver m flags allocated answer) (events.take k))) ↔
      ∀ s, openSession driver m flags allocated answer = .ok (some s) →
        Runs.Meets (sessionStep debug driver) FlushesBuffer s events := by
  have exact : ∀ s, openSession driver m flags allocated answer = .ok (some s) →
      ((∀ k, Outcome.Sound (Undisturbing driver)
        (Runs.run (sessionStep debug driver) s (events.take k))) ↔
        Runs.Meets (sessionStep debug driver) FlushesBuffer s events) := fun s opened =>
    Runs.prefixes_sound_iff (fun t guarded => guarded.undisturbing)
      (fun t event guarded given => guarded.step_iff debug given)
      (fun t event guarded given => guarded.step debug given) (opened_guarded opened)
      (answers s opened)
  constructor
  · intro sound s opened
    refine (exact s opened).mp fun k => ?_
    have now := sound k
    rw [opened, history, Outcome.ok_bind] at now
    cases ran : Runs.run (sessionStep debug driver) s (events.take k) with
    | panic message => trivial
    | fault =>
      simp only [ran] at now
      exact now
    | diverge =>
      simp only [ran] at now
      exact now
    | ok t =>
      simp only [ran] at now
      exact now t rfl
  · intro meets k
    refine history_sound debug driver m flags allocated answer _ ?_ fun s opened => ?_
    · rintro s ⟨⟩
    · refine ((exact s opened).mpr (meets s opened) k).mono fun t kept => ?_
      rintro _ ⟨⟩
      exact kept

theorem oneWrite_misses_nothing :
    (∀ k, Outcome.Sound (fun o => ∀ s ∈ o, Undisturbing allSet s)
      (history false allSet (openSession allSet fives vfsModeBuffered 16 0)
        ([oneWrite, oneFlush].take k))) ↔
      ∀ s, openSession allSet fives vfsModeBuffered 16 0 = .ok (some s) →
        Runs.Meets (sessionStep false allSet) FlushesBuffer s [oneWrite, oneFlush] :=
  no_missing_callback_iff false allSet fives vfsModeBuffered 16 0 [oneWrite, oneFlush]
    fun s opened => by
      obtain ⟨-, rfl⟩ := opened_eq opened
      have apart : 128 ∉ [(16, handleSize)].map Prod.fst := by decide
      exact ⟨apart, fun _ _ => ⟨trivial, fun _ _ => trivial⟩⟩

/-- A driver without callbacks is called by the first flush of a buffered handle,
and one with all of them is called by it for nothing. -/
theorem first_flush_calls :
    history false ⟨false, false, false, false, false, false, false⟩
        (openSession ⟨false, false, false, false, false, false, false⟩ fives vfsModeBuffered 16 0)
        [oneFlush] = .fault ∧
      ∃ s, history false allSet (openSession allSet fives vfsModeBuffered 16 0) [oneFlush] =
        .ok (some s) ∧ s.idle = true :=
  ⟨rfl, _, rfl, rfl⟩

end FsFile
