import UDos.Kernel.Mm
import UDos.Library.Runs

/-!
# Buffered file handles

`KeWriteFsNode` and `KeFlushFsNode` of `fs.c` on a handle whose buffer lives
in byte storage. A flush clears `read_buf_size` and keeps `write_buf_size`, so
the size left behind by one flush is counted again by the next write and by
the next flush. The abstract queue a handle stands for is the byte string
written to it; a run compares it with what the driver was given.
-/

namespace FsStream

open KernelMemory Mm

def vfsModeBuffered : UInt32 := 0x04

/-- The callbacks of `struct fs_driver` used here: `open` by the status it
returns, `write` by its result for the bytes it is given. -/
structure FsDriver where
  openCallback : Option Int
  write : Option (List UInt8 → Int)

/-- `struct fs_handle`; a pointer is an address, 0 for NULL. -/
structure FsHandle where
  mode : Int
  readBuf : Nat
  readBufSize : Nat
  writeBuf : Nat
  writeBufSize : Nat
  flags : UInt32

def zeroHandle : FsHandle := ⟨0, 0, 0, 0, 0, 0⟩

/-- `KeOpenFromFsNode` of a node with this driver. -/
def keOpenFromFsNode (driver : Option FsDriver) (flags : UInt32) : Option FsHandle :=
  match driver with
  | none => none
  | some driver =>
    match driver.openCallback with
    | none => some { zeroHandle with flags := flags }
    | some r => if r ≠ 0 then none else some { zeroHandle with flags := flags }

/-- What a call leaves: its result, the handle, storage, and the byte string
that `driver->write` was called with. -/
structure Done where
  result : Int
  handle : FsHandle
  storage : Storage
  handed : Option (List UInt8)

/-- `allocated` is the block that `MmAllocate` returns to `MmReallocate`. -/
def keWriteFsNode (debug : Bool) (driver : FsDriver) (m : Storage) (hdl : FsHandle)
    (buf n allocated : Nat) : Outcome Done :=
  if n = 0 then .ok ⟨0, hdl, m, none⟩
  else
    match driver.write with
    | none => .ok ⟨-1, hdl, m, none⟩
    | some write =>
      if hdl.flags &&& vfsModeBuffered ≠ 0 then
        let grown := mmReallocate m allocated hdl.writeBuf (u32 (hdl.writeBufSize + n))
        let hdl := { hdl with writeBuf := grown.ptr }
        if hdl.writeBuf = 0 then .ok ⟨-1, hdl, grown.storage, none⟩
        else do
          let (_, m) ← keCopyMemory debug grown.storage (hdl.writeBuf + hdl.writeBufSize) buf n
          .ok ⟨signed32 n, { hdl with writeBufSize := u32 (hdl.writeBufSize + n) }, m, none⟩
      else .ok ⟨write (m.bytes buf n), hdl, m, some (m.bytes buf n)⟩

def keFlushFsNode (driver : FsDriver) (m : Storage) (hdl : FsHandle) : Outcome Done :=
  if hdl.flags &&& vfsModeBuffered ≠ 0 then
    match driver.write with
    | none => if hdl.writeBufSize ≠ 0 then .ok ⟨-1, hdl, m, none⟩ else .fault
    | some write =>
      let pending := m.bytes hdl.writeBuf hdl.writeBufSize
      -- write_buf goes to MmFree, and write_buf_size stays as it is
      .ok ⟨write pending, { hdl with writeBuf := 0, readBufSize := 0 }, m, some pending⟩
  else .ok ⟨0, hdl, m, none⟩

/-- A handle in use: its storage, the bytes accepted so far, those accepted
before the last flush, and those handed to `driver->write` by flushes. -/
structure Stream where
  storage : Storage
  handle : FsHandle
  written : List UInt8
  due : List UInt8
  handed : List UInt8

/-- A call on the handle. Before it, everything but the buffer of the handle
may have changed: `other` is the rest of storage at the time of the call. -/
inductive StreamOp where
  | write (other : Storage) (buf n allocated : Nat)
  | flush (other : Storage)

/-- Storage at the time of a call. -/
def settle (s : Stream) (other : Storage) : Storage :=
  if s.handle.writeBuf = 0 then other
  else s.storage.outsideFrom other s.handle.writeBuf s.handle.writeBufSize

def streamStep (debug : Bool) (driver : FsDriver) (s : Stream) : StreamOp → Outcome Stream
  | .write other buf n allocated => do
    let m := settle s other
    let done ← keWriteFsNode debug driver m s.handle buf n allocated
    let accepted := if done.result = n then m.bytes buf n else []
    .ok { s with
      storage := done.storage
      handle := done.handle
      written := s.written ++ accepted }
  | .flush other => do
    let done ← keFlushFsNode driver (settle s other) s.handle
    .ok { s with
      storage := done.storage
      handle := done.handle
      due := s.written
      handed := s.handed ++ done.handed.getD [] }

/-- A stream just opened. -/
def opened (m : Storage) (handle : FsHandle) : Stream := ⟨m, handle, [], [], []⟩

/-- The block for the grown buffer is where the code can use it: apart from
the caller's buffer, inside the 31-bit address range, and below the block it
replaces. -/
def Placed (s : Stream) : StreamOp → Prop
  | .write _ buf n allocated =>
    0 < n ∧ allocated ≠ 0 ∧ buf + n ≤ 2147483648 ∧
    allocated + (s.handle.writeBufSize + n) ≤ 2147483648 ∧
    (buf + n ≤ allocated ∨ allocated + (s.handle.writeBufSize + n) ≤ buf) ∧
    (s.handle.writeBuf = 0 ∨
      allocated + (s.handle.writeBufSize + n) ≤ s.handle.writeBuf)
  | .flush _ => True

instance (s : Stream) : (op : StreamOp) → Decidable (Placed s op)
  | .write _ _ _ _ => inferInstanceAs (Decidable (_ ∧ _ ∧ _ ∧ _ ∧ (_ ∨ _) ∧ (_ ∨ _)))
  | .flush _ => instDecidableTrue

/-- No bytes are pending, or no flush has handed any bytes over before. -/
def FirstDelivery (s : Stream) : StreamOp → Prop
  | .write .. => True
  | .flush _ => s.handle.writeBufSize = 0 ∨ s.handed = []

instance (s : Stream) : (op : StreamOp) → Decidable (FirstDelivery s op)
  | .write _ _ _ _ => instDecidableTrue
  | .flush _ => inferInstanceAs (Decidable (_ ∨ _))

/-- The size field counts the bytes accepted, and the buffer is low in storage. -/
structure Tracks (s : Stream) : Prop where
  buffered : s.handle.flags &&& vfsModeBuffered ≠ 0
  size : s.handle.writeBufSize = s.written.length
  low : s.handle.writeBuf < 2147483648

/-- The flushes so far have handed over what was due, and as long as that is
nothing the buffer holds all bytes accepted. -/
structure Faithful (s : Stream) : Prop extends Tracks s where
  delivered : s.handed = s.due
  dueLength : s.due.length ≤ s.written.length
  empty : s.handed = [] → s.handle.writeBuf = 0 → s.written = []
  pending : s.handed = [] →
    s.storage.bytes s.handle.writeBuf s.handle.writeBufSize = s.written

/-- The flushes so far have handed over more bytes than were due. -/
structure Overrun (s : Stream) : Prop extends Tracks s where
  more : s.due.length < s.handed.length

theorem settle_bytes {s : Stream} (other : Storage) (live : s.handle.writeBuf ≠ 0) :
    (settle s other).bytes s.handle.writeBuf s.handle.writeBufSize =
      s.storage.bytes s.handle.writeBuf s.handle.writeBufSize := by
  rw [settle, if_neg live, Storage.outsideFrom_bytes]

section
variable {debug : Bool} {driver : FsDriver} {s : Stream} {other : Storage}
variable {buf n allocated : Nat}

/-- A write appends the caller's bytes to the buffer in its new place. -/
theorem write_step (debug : Bool) (tracks : Tracks s) (write : driver.write.isSome)
    (placed : Placed s (.write other buf n allocated)) :
    ∃ m, streamStep debug driver s (.write other buf n allocated) = .ok { s with
        storage := m
        handle := { s.handle with
          writeBuf := allocated
          writeBufSize := s.handle.writeBufSize + n }
        written := s.written ++ (settle s other).bytes buf n } ∧
      (s.handle.writeBuf ≠ 0 → m.bytes allocated s.handle.writeBufSize =
        s.storage.bytes s.handle.writeBuf s.handle.writeBufSize) ∧
      m.bytes (allocated + s.handle.writeBufSize) n = (settle s other).bytes buf n := by
  obtain ⟨positive, nonNull, lowBuf, lowNew, apart, below⟩ := placed
  obtain ⟨callback, hcallback⟩ := Option.isSome_iff_exists.mp write
  have low := tracks.low
  have notEmpty : n ≠ 0 := by omega
  have size : u32 (s.handle.writeBufSize + n) = s.handle.writeBufSize + n :=
    u32_eq_self (by omega)
  have result : signed32 (n : Int) = n := signed32_eq_self (by omega) (by omega)
  have lower : s.handle.writeBuf = 0 ∨ allocated < s.handle.writeBuf := by omega
  let grown := mmReallocate (settle s other) allocated s.handle.writeBuf
    (s.handle.writeBufSize + n)
  have ptr : grown.ptr = allocated := mmReallocate_ptr _
  have copied : keCopyMemory debug grown.storage (allocated + s.handle.writeBufSize) buf n =
      .ok (_, grown.storage.copyUp (allocated + s.handle.writeBufSize) buf n) :=
    keCopyMemory_eq debug grown.storage (by omega) (by omega) (by omega) (by omega)
  refine ⟨grown.storage.copyUp (allocated + s.handle.writeBufSize) buf n, ?_, ?_, ?_⟩
  · simp only [streamStep, keWriteFsNode, if_neg notEmpty, hcallback, size]
    rw [if_pos tracks.buffered]
    change (if grown.ptr = 0 then _ else _) >>= _ = _
    rw [ptr, if_neg nonNull, copied]
    simp [result]
  · intro live
    have moved := mmReallocate_bytes (settle s other) live nonNull (lower.resolve_left live)
      (by omega) (by omega) (Nat.le_add_right s.handle.writeBufSize n)
    rw [← settle_bytes other live, ← moved]
    apply Storage.bytes_congr
    intro i hi
    exact Storage.copyUp_outside _ (by omega)
  · apply Storage.bytes_congr
    intro i hi
    rw [Storage.copyUp_inside _ (by omega) hi]
    exact mmReallocate_outside _ nonNull lower (by omega) (by omega) (by omega)

theorem flush_step (tracks : Tracks s) (write : driver.write.isSome) :
    streamStep debug driver s (.flush other) = .ok { s with
      storage := settle s other
      handle := { s.handle with writeBuf := 0, readBufSize := 0 }
      due := s.written
      handed := s.handed ++
        (settle s other).bytes s.handle.writeBuf s.handle.writeBufSize } := by
  obtain ⟨callback, hcallback⟩ := Option.isSome_iff_exists.mp write
  simp only [streamStep, keFlushFsNode, hcallback]
  rw [if_pos tracks.buffered]
  rfl

theorem Tracks.write (tracks : Tracks s) (write : driver.write.isSome)
    (placed : Placed s (.write other buf n allocated)) {t : Stream}
    (ran : streamStep debug driver s (.write other buf n allocated) = .ok t) :
    Tracks t ∧ t.due = s.due ∧ t.handed = s.handed ∧
      s.written.length < t.written.length := by
  obtain ⟨m, step, _, _⟩ := write_step debug tracks write placed
  rw [step] at ran
  cases ran
  obtain ⟨positive, _, _, lowNew, _, _⟩ := placed
  refine ⟨⟨tracks.buffered, ?_, ?_⟩, rfl, rfl, ?_⟩
  · simp [tracks.size]
  · change allocated < 2147483648
    omega
  · simpa using positive

theorem Tracks.flush (tracks : Tracks s) (write : driver.write.isSome) {t : Stream}
    (ran : streamStep debug driver s (.flush other) = .ok t) : Tracks t := by
  rw [flush_step tracks write] at ran
  cases ran
  exact ⟨tracks.buffered, tracks.size, show 0 < 2147483648 by decide⟩

theorem Faithful.write (faithful : Faithful s) (write : driver.write.isSome)
    (placed : Placed s (.write other buf n allocated)) {t : Stream}
    (ran : streamStep debug driver s (.write other buf n allocated) = .ok t) : Faithful t := by
  have tracks := (faithful.toTracks.write write placed ran).1
  obtain ⟨m, step, front, back⟩ := write_step debug faithful.toTracks write placed
  rw [step] at ran
  cases ran
  refine ⟨tracks, faithful.delivered, ?_, ?_, ?_⟩
  · have length := faithful.dueLength
    simp only [List.length_append]
    omega
  · intro _ null
    exact absurd null placed.2.1
  · intro none
    change m.bytes allocated (s.handle.writeBufSize + n) = _
    rw [Storage.bytes_add, back]
    congr 1
    by_cases live : s.handle.writeBuf = 0
    · have written := faithful.empty none live
      simp [faithful.size, written, Storage.bytes]
    · rw [front live, faithful.pending none]

theorem Faithful.settled (faithful : Faithful s) (other : Storage) (none : s.handed = []) :
    (settle s other).bytes s.handle.writeBuf s.handle.writeBufSize = s.written := by
  by_cases live : s.handle.writeBuf = 0
  · have written := faithful.empty none live
    simp [faithful.size, written, Storage.bytes]
  · rw [settle_bytes other live, faithful.pending none]

/-- A first delivery hands over exactly the bytes written. -/
theorem Faithful.flush (faithful : Faithful s) (write : driver.write.isSome)
    (firstDelivery : FirstDelivery s (.flush other)) {t : Stream}
    (ran : streamStep debug driver s (.flush other) = .ok t) : Faithful t := by
  have tracks := faithful.toTracks.flush write ran
  have none : s.handed = [] := by
    rcases firstDelivery with nothing | none
    · have length := faithful.dueLength
      rw [← faithful.size, nothing, ← faithful.delivered] at length
      exact List.eq_nil_of_length_eq_zero (Nat.le_zero.mp length)
    · exact none
  rw [flush_step faithful.toTracks write] at ran
  cases ran
  have whole := faithful.settled other none
  refine ⟨tracks, by simp [none, whole], Nat.le_refl _, ?_, ?_⟩
  · intro nothing _
    simpa [none, whole] using nothing
  · intro nothing
    have written : s.written = [] := by simpa [none, whole] using nothing
    simp [faithful.size, written, Storage.bytes]

theorem Faithful.overrun (faithful : Faithful s) (write : driver.write.isSome)
    (again : ¬ FirstDelivery s (.flush other)) {t : Stream}
    (ran : streamStep debug driver s (.flush other) = .ok t) : Overrun t := by
  have tracks := faithful.toTracks.flush write ran
  rw [flush_step faithful.toTracks write] at ran
  cases ran
  refine ⟨tracks, ?_⟩
  have some : s.handed ≠ [] := fun none => again (Or.inr none)
  have positive := List.length_pos_iff.mpr some
  simp only [List.length_append, Storage.bytes_length, faithful.size]
  omega

theorem Overrun.write (overrun : Overrun s) (write : driver.write.isSome)
    (placed : Placed s (.write other buf n allocated)) {t : Stream}
    (ran : streamStep debug driver s (.write other buf n allocated) = .ok t) : Overrun t := by
  obtain ⟨tracks, due, handed, _⟩ := overrun.toTracks.write write placed ran
  exact ⟨tracks, by rw [due, handed]; exact overrun.more⟩

theorem Overrun.flush (overrun : Overrun s) (write : driver.write.isSome) {t : Stream}
    (ran : streamStep debug driver s (.flush other) = .ok t) : Overrun t := by
  have tracks := overrun.toTracks.flush write ran
  rw [flush_step overrun.toTracks write] at ran
  cases ran
  refine ⟨tracks, ?_⟩
  have more := overrun.more
  simp only [List.length_append, Storage.bytes_length, overrun.size]
  omega

end

theorem step_returns (debug : Bool) {driver : FsDriver} (write : driver.write.isSome)
    {s : Stream} {op : StreamOp} (tracks : Tracks s) (placed : Placed s op) :
    ∃ t, streamStep debug driver s op = .ok t := by
  cases op with
  | write other buf n allocated =>
    obtain ⟨m, step, _, _⟩ := write_step debug tracks write placed
    exact ⟨_, step⟩
  | flush other => exact ⟨_, flush_step tracks write⟩

theorem Overrun.step (debug : Bool) {driver : FsDriver} (write : driver.write.isSome)
    (s : Stream) (op : StreamOp) (overrun : Overrun s) (placed : Placed s op) :
    ∃ t, streamStep debug driver s op = .ok t ∧ Overrun t := by
  obtain ⟨t, ran⟩ := step_returns debug write overrun.toTracks placed
  cases op with
  | write other buf n allocated => exact ⟨t, ran, overrun.write write placed ran⟩
  | flush other => exact ⟨t, ran, overrun.flush write ran⟩

theorem Faithful.step {debug : Bool} {driver : FsDriver} (write : driver.write.isSome)
    {s t : Stream} {op : StreamOp} (faithful : Faithful s) (placed : Placed s op)
    (ran : streamStep debug driver s op = .ok t) :
    (FirstDelivery s op → Faithful t) ∧ (¬ FirstDelivery s op → Overrun t) := by
  cases op with
  | write other buf n allocated =>
    exact ⟨fun _ => faithful.write write placed ran, fun again => absurd trivial again⟩
  | flush other =>
    exact ⟨fun firstDelivery => faithful.flush write firstDelivery ran,
      fun again => faithful.overrun write again ran⟩

/-- From a faithful state on, the bytes handed over are those due at the end
of a run exactly when every flush of the run is a first delivery. -/
theorem run_delivers_iff (debug : Bool) {driver : FsDriver} (write : driver.write.isSome)
    {s : Stream} {ops : List StreamOp} (faithful : Faithful s)
    (placed : Runs.Meets (streamStep debug driver) Placed s ops) :
    ∃ t, Runs.run (streamStep debug driver) s ops = .ok t ∧
      (t.handed = t.due ↔ Runs.Meets (streamStep debug driver) FirstDelivery s ops) := by
  induction ops generalizing s with
  | nil => exact ⟨s, rfl, iff_of_true faithful.delivered trivial⟩
  | cons op rest ih =>
    obtain ⟨m, ran⟩ := step_returns debug write faithful.toTracks placed.1
    have next := faithful.step write placed.1 ran
    have later := placed.2 m ran
    by_cases firstDelivery : FirstDelivery s op
    · obtain ⟨t, tail, iff⟩ := ih (next.1 firstDelivery) later
      refine ⟨t, by rw [Runs.run_cons, ran]; exact tail, ?_⟩
      rw [iff, Runs.meets_cons ran, and_iff_right firstDelivery]
    · -- once too many bytes are handed over no later call takes them back
      obtain ⟨t, tail, overrun⟩ :=
        Runs.run_returns (Overrun.step debug write) (next.2 firstDelivery) later
      refine ⟨t, by rw [Runs.run_cons, ran]; exact tail, iff_of_false ?_ ?_⟩
      · intro same
        have more := overrun.more
        rw [same] at more
        exact Nat.lt_irrefl _ more
      · exact fun meets => firstDelivery meets.1

/-- The handle of a driver with a write callback, opened in buffered mode. -/
theorem opened_faithful {driver : FsDriver} {flags : UInt32} {hdl : FsHandle}
    (m : Storage) (isOpen : keOpenFromFsNode (some driver) flags = some hdl)
    (buffered : flags &&& vfsModeBuffered ≠ 0) : Faithful (opened m hdl) := by
  have handle : hdl = { zeroHandle with flags := flags } := by
    unfold keOpenFromFsNode at isOpen
    cases status : driver.openCallback with
    | none => simpa [status] using isOpen.symm
    | some r =>
      simp only [status] at isOpen
      split at isOpen
      · cases isOpen
      · exact (Option.some.inj isOpen).symm
  subst handle
  exact ⟨⟨buffered, rfl, show 0 < 2147483648 by decide⟩, rfl, Nat.le_refl _,
    fun _ _ => rfl, fun _ => rfl⟩

/-- On a handle opened in buffered mode whose buffer the allocator places
below the block it replaces, every run of writes and flushes returns, and the
driver is handed exactly the bytes written before the last flush if and only
if no flush with bytes pending follows one that handed bytes over. -/
theorem flushes_deliver_iff (debug : Bool) (driver : FsDriver) (write : driver.write.isSome)
    (flags : UInt32) (hdl : FsHandle)
    (isOpen : keOpenFromFsNode (some driver) flags = some hdl)
    (buffered : flags &&& vfsModeBuffered ≠ 0) (m : Storage) (ops : List StreamOp)
    (placed : Runs.Meets (streamStep debug driver) Placed (opened m hdl) ops) :
    ∃ t, Runs.run (streamStep debug driver) (opened m hdl) ops = .ok t ∧
      (t.handed = t.due ↔
        Runs.Meets (streamStep debug driver) FirstDelivery (opened m hdl) ops) :=
  run_delivers_iff debug write (opened_faithful m isOpen buffered) placed

/-- A driver that accepts everything. -/
def sink : FsDriver := ⟨none, some fun _ => 0⟩

def sinkHandle : FsHandle := { zeroHandle with flags := vfsModeBuffered }

def blank : Storage := fun _ => 0

/-- Nothing is flushed, then the bytes of two writes, then nothing again. -/
def threeFlushes : List StreamOp :=
  [.flush blank, .write (fun _ => 5) 16 1 64, .write (fun _ => 6) 16 2 32, .flush blank,
    .flush blank]

/-- The first two flushes deliver, and the third hands over what the second has. -/
theorem flushes_deliver_sink :
    (∃ t, Runs.run (streamStep false sink) (opened blank sinkHandle) (threeFlushes.take 4) = .ok t ∧
      t.handed = t.due) ∧
    ∃ t, Runs.run (streamStep false sink) (opened blank sinkHandle) threeFlushes = .ok t ∧
      t.handed ≠ t.due := by
  obtain ⟨t, ran, iff⟩ := flushes_deliver_iff false sink rfl vfsModeBuffered sinkHandle rfl
    (by decide) blank (threeFlushes.take 4) (by decide +kernel)
  obtain ⟨t', ran', iff'⟩ := flushes_deliver_iff false sink rfl vfsModeBuffered sinkHandle rfl
    (by decide) blank threeFlushes (by decide +kernel)
  exact ⟨⟨t, ran, iff.mpr (by decide +kernel)⟩, t', ran', fun same =>
    absurd (iff'.mp same) (by decide +kernel)⟩

/-- One byte is written and flushed, then another one. -/
def twoDeliveries : List StreamOp :=
  [.write (fun _ => 5) 16 1 32, .flush blank, .write (fun _ => 6) 16 1 32, .flush blank]

/-- The second flush hands over a byte that nobody wrote before the right one. -/
theorem second_delivery_invents :
    ∃ t, Runs.run (streamStep false sink) (opened blank sinkHandle) twoDeliveries = .ok t ∧
      t.due = [5, 6] ∧ t.handed = [5, 6, 6] := by
  refine ⟨_, rfl, ?_, ?_⟩
  · decide
  · decide +kernel

end FsStream
