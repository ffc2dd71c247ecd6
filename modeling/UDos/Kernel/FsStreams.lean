import UDos.Kernel.FsSession
import UDos.Library.Owners
import UDos.Library.Runs

/-!
# Streams on one heap

Any number of handles that are opened, written to, flushed and closed in any order,
all with their blocks on one heap. A flush returns the write buffer and keeps its
length, so that the next buffer starts with as many bytes as were ever written, and
these are what the new block happens to hold. What a driver is handed behind them is
its own handle's, whatever the other handles do.
-/

namespace FsStreams

open KernelMemory MmHeap Storage Heap FsFile
open FsStream (FsHandle zeroHandle vfsModeBuffered)

/-- A handle in use: the number of bytes accepted before its last flush, and the bytes
accepted since. -/
structure Stream where
  driver : FsDriver
  address : Nat
  handle : FsHandle
  accepted : Nat
  pending : List UInt8

/-- A call of `driver->write` by a flush, with what was accepted before. -/
structure Flush where
  who : Nat
  before : Nat
  due : List UInt8
  handed : List UInt8

/-- The drivers' calls so far are in the log. -/
structure System where
  heap : Heap
  streams : Nat → Option Stream
  log : List Flush

inductive Call where
  | opening (driver : FsDriver) (flags : UInt32) (allocated : Nat) (answer : Int)
  | io (call : IoCall)
  | closing (answer : Int)

/-- A call on a handle, and at its time the storage that is not in use. -/
structure Event where
  who : Nat
  other : Storage
  call : Call

instance (h : Heap) (a : Nat) : Decidable (h.Held a) := inferInstanceAs (Decidable (∃ _ ∈ _, _))

/-- What is in no block may have changed. -/
def settled (h : Heap) (other : Storage) : Heap :=
  { h with storage := fun a => if h.Held a then h.storage a else other a }

/-- A write adds what it accepts, and a flush hands over. -/
def System.after (s : System) (who : Nat) (t : Stream) (h : Heap) (call : IoCall) (done : Done) :
    System :=
  match done.handed with
  | none =>
    { s with
      heap := done.heap
      streams := Function.update s.streams who (some { t with
        handle := done.handle
        pending := t.pending ++ FsFile.accepted h done call }) }
  | some handed =>
    { heap := done.heap
      streams := Function.update s.streams who (some { t with
        handle := done.handle
        accepted := t.accepted + t.pending.length
        pending := [] })
      log := s.log ++ [⟨who, t.accepted, t.pending, handed⟩] }

def step (debug : Bool) (s : System) (e : Event) : Outcome System :=
  let h := settled s.heap e.other
  match e.call, s.streams e.who with
  | .opening driver flags allocated answer, none =>
    keOpenFromFsNode (some driver) h flags allocated answer >>= fun r =>
    .ok { s with
      heap := r.2
      streams := Function.update s.streams e.who
        (r.1.map fun hdl => ⟨driver, hdl.1, hdl.2, 0, []⟩) }
  | .io call, some t =>
    ioCall debug t.driver h t.handle call >>= fun done => .ok (s.after e.who t h call done)
  | .closing answer, some t =>
    keCloseFsNode t.driver h t.address answer >>= fun h =>
    .ok { s with heap := h, streams := Function.update s.streams e.who none }
  | _, _ => .fault

inductive Part where
  | record (who : Nat)
  | buffer (who : Nat)
deriving DecidableEq

def Stream.buffer (t : Stream) : Option (Nat × Nat) :=
  if t.handle.writeBuf = 0 then none else some (t.handle.writeBuf, t.handle.writeBufSize)

def blockOf (streams : Nat → Option Stream) : Part → Option (Nat × Nat)
  | .record who => (streams who).map fun t => (t.address, handleSize)
  | .buffer who => (streams who).bind Stream.buffer

section
variable {streams : Nat → Option Stream} {who : Nat} {t t' : Stream}

theorem blockOf_buffer (found : streams who = some t) :
    blockOf streams (.buffer who) = t.buffer := by
  rw [blockOf, found]
  rfl

theorem blockOf_record (found : streams who = some t) :
    blockOf streams (.record who) = some (t.address, handleSize) := by
  rw [blockOf, found]
  rfl

/-- A handle with another buffer. -/
theorem blockOf_update (found : streams who = some t) (same : t'.address = t.address) :
    blockOf (Function.update streams who (some t')) =
      Function.update (blockOf streams) (.buffer who) t'.buffer := by
  funext part
  cases part with
  | record j =>
    rw [Function.update_of_ne (by simp)]
    by_cases own : j = who
    · subst own
      rw [blockOf_record found, blockOf_record (Function.update_self ..), same]
    · rw [blockOf, Function.update_of_ne own]
      rfl
  | buffer j =>
    by_cases own : j = who
    · subst own
      rw [blockOf_buffer (Function.update_self ..), Function.update_self]
    · rw [Function.update_of_ne (by simpa using own), blockOf, Function.update_of_ne own]
      rfl

end

/-- What is handed over ends with what the handle accepted since its last flush, and
there are as many bytes before as it accepted before. -/
def Flush.Exact (f : Flush) : Prop :=
  f.handed.length = f.before + f.due.length ∧ f.handed.drop f.before = f.due

/-- What was accepted since the last flush is at the end of the write buffer. -/
structure Stream.Holds (t : Stream) (m : Storage) : Prop where
  mode : t.handle.flags &&& vfsModeBuffered ≠ 0
  write : t.driver.write = true
  size : t.handle.writeBufSize = t.accepted + t.pending.length
  nothing : t.handle.writeBuf = 0 → t.pending = []
  ends : t.handle.writeBuf ≠ 0 →
    (m.bytes t.handle.writeBuf t.handle.writeBufSize).drop t.accepted = t.pending

structure Separate (s : System) : Prop where
  owns : s.heap.Owns (blockOf s.streams)
  holds : ∀ {i t}, s.streams i = some t → t.Holds s.heap.storage
  exact : ∀ f ∈ s.log, f.Exact

/-- There is storage for what is written whenever there is a buffer, and a reallocation
keeps what the buffer has; the caller's bytes are not in the new block. -/
def Retained (h : Heap) (hdl : FsHandle) : IoCall → Prop
  | .write buf n allocated _ =>
    n = 0 ∨ allocated = 0 ∧ hdl.writeBuf = 0 ∨
      Keeping h allocated hdl.writeBuf (hdl.writeBufSize + n) ∧
        Apart (allocated, hdl.writeBufSize + n) (buf, n)
  | .flush _ => True

instance (h : Heap) (hdl : FsHandle) : (call : IoCall) → Decidable (Retained h hdl call)
  | .write .. => inferInstanceAs (Decidable (_ ∨ _))
  | .flush _ => isTrue trivial

/-- Handles are opened for buffered writing, and used between opening and closing. -/
def Allowed (s : System) (e : Event) : Prop :=
  match e.call, s.streams e.who with
  | .opening driver flags allocated _, none =>
    driver.write = true ∧ flags &&& vfsModeBuffered ≠ 0 ∧
      (allocated = 0 ∨ (settled s.heap e.other).Fresh (allocated, handleSize))
  | .io call, some t => Retained (settled s.heap e.other) t.handle call
  | .closing _, some _ => True
  | _, _ => False

instance (s : System) (e : Event) : Decidable (Allowed s e) := by
  unfold Allowed
  split <;> infer_instance

section
variable {s : System} {who i : Nat} {t u : Stream} {h h' : Heap} {m m' : Storage}

theorem Stream.Holds.congr (holds : t.Holds m)
    (same : ∀ b, t.buffer = some b → m'.bytes b.1 b.2 = m.bytes b.1 b.2) : t.Holds m' := by
  refine ⟨holds.mode, holds.write, holds.size, holds.nothing, fun buffer => ?_⟩
  have block : t.buffer = some (t.handle.writeBuf, t.handle.writeBufSize) := if_neg buffer
  have bytes : m'.bytes t.handle.writeBuf t.handle.writeBufSize =
      m.bytes t.handle.writeBuf t.handle.writeBufSize := same _ block
  rw [bytes]
  exact holds.ends buffer

theorem settled_bytes (other : Storage) {b : Nat × Nat} (live : b ∈ h.live) :
    (settled h other).storage.bytes b.1 b.2 = h.storage.bytes b.1 b.2 := by
  apply bytes_congr
  intro i inside
  exact if_pos ⟨b, live, by omega, by omega⟩

theorem Separate.settle (separate : Separate s) (other : Storage) :
    Separate { s with heap := settled s.heap other } := by
  refine ⟨separate.owns.write _, fun {i t} found => ?_, separate.exact⟩
  refine (separate.holds found).congr fun b buffer => settled_bytes other ?_
  exact separate.owns.held (i := .buffer i) ((blockOf_buffer found).trans buffer)

theorem Separate.buffer (separate : Separate s) (found : s.streams who = some t) :
    t.handle.writeBuf = 0 ∨ (t.handle.writeBuf, t.handle.writeBufSize) ∈ s.heap.live := by
  by_cases buffer : t.handle.writeBuf = 0
  · exact Or.inl buffer
  · apply Or.inr
    apply separate.owns.held (i := .buffer who)
    rw [blockOf_buffer found, Stream.buffer, if_neg buffer]

theorem Separate.others (separate : Separate s)
    (kept : ∀ b ∈ s.heap.live, m.bytes b.1 b.2 = s.heap.storage.bytes b.1 b.2)
    (other : s.streams i = some u) : u.Holds m := by
  refine (separate.holds other).congr fun b buffer => kept b ?_
  exact separate.owns.held (i := .buffer i) ((blockOf_buffer other).trans buffer)

theorem Separate.same (separate : Separate s) (found : s.streams who = some t) :
    Separate { s with streams := Function.update s.streams who (some t) } := by
  rw [← found, Function.update_eq_self]
  exact separate

theorem Stream.Holds.moved {n allocated : Nat} (holds : t.Holds h.storage)
    (replaced : Replaced h h' t.handle.writeBuf t.handle.writeBufSize
      (t.handle.writeBufSize + n) allocated) :
    (h'.storage.bytes allocated t.handle.writeBufSize).drop t.accepted = t.pending := by
  by_cases first : t.handle.writeBuf = 0
  · have empty := holds.nothing first
    have size := holds.size
    rw [empty, List.length_nil, Nat.add_zero] at size
    rw [empty, List.drop_eq_nil_iff, bytes_length, size]
  · rw [← holds.ends first]
    congr 1
    exact bytes_congr fun i inside => replaced.contents first i (by omega)

/-- One stream gets another buffer, and the others keep what theirs have. -/
theorem Separate.update {log : List Flush} (separate : Separate s)
    (found : s.streams who = some t) (address : u.address = t.address)
    (owns : h.Owns (Function.update (blockOf s.streams) (.buffer who) u.buffer))
    (mine : u.Holds h.storage)
    (kept : ∀ b ∈ s.heap.live, h.storage.bytes b.1 b.2 = s.heap.storage.bytes b.1 b.2)
    (exact : ∀ f ∈ log, f.Exact) :
    Separate ⟨h, Function.update s.streams who (some u), log⟩ := by
  refine ⟨(blockOf_update found address).symm ▸ owns, fun {j v} other => ?_, exact⟩
  dsimp only at other
  by_cases own : j = who
  · rw [own, Function.update_self] at other
    exact Option.some.inj other ▸ mine
  · rw [Function.update_of_ne own] at other
    exact separate.others kept other

/-- The caller's bytes are added to its stream, in a block that replaces the buffer. -/
theorem Separate.store (separate : Separate s) (found : s.streams who = some t)
    {buf n allocated : Nat}
    (replaced : Replaced s.heap h' t.handle.writeBuf t.handle.writeBufSize
      (t.handle.writeBufSize + n) allocated)
    (apart : Apart (allocated, t.handle.writeBufSize + n) (buf, n)) :
    Separate { s with
      heap := ⟨h'.storage.copyUp (allocated + t.handle.writeBufSize) buf n, h'.live⟩
      streams := Function.update s.streams who (some { t with
        handle := { t.handle with
          writeBuf := allocated
          writeBufSize := t.handle.writeBufSize + n }
        pending := t.pending ++ s.heap.storage.bytes buf n }) } := by
  have holds := separate.holds found
  have size := holds.size
  have notNull : allocated ≠ 0 := Nat.ne_of_gt replaced.fresh.1.1
  refine separate.update found rfl ?_ ?_ (fun b live => bytes_congr fun k inside => ?_)
    separate.exact
  · simp only [Stream.buffer, if_neg notNull]
    refine separate.owns.replace (replaced.sane.write _) replaced.fresh
      ((replaced.live _).mpr (Or.inl rfl)) fun {part b} theirs differ => ?_
    refine (replaced.live b).mpr (Or.inr ⟨separate.owns.held theirs, ?_⟩)
    have positive := (separate.owns.sane.proper b (separate.owns.held theirs)).1
    by_cases none : t.handle.writeBuf = 0
    · rw [none]
      exact Nat.ne_of_gt positive
    · intro same
      have mine : blockOf s.streams (.buffer who) =
          some (t.handle.writeBuf, t.handle.writeBufSize) :=
        (blockOf_buffer found).trans (if_neg none)
      exact differ (separate.owns.single theirs mine same)
  · refine ⟨holds.mode, holds.write, ?_, fun null => absurd null notNull, fun _ => ?_⟩
    · rw [List.length_append, bytes_length]
      dsimp only
      omega
    · dsimp only
      rw [replaced.copied apart, List.drop_append_of_le_length (by rw [bytes_length]; omega),
        holds.moved replaced]
  · have outside := replaced.fresh.2 b live
    simp only [Apart] at outside
    exact (copyUp_outside _ (by omega)).trans (replaced.kept _ (by omega))

theorem Separate.write (debug : Bool) (separate : Separate s) (found : s.streams who = some t)
    {buf n allocated : Nat} (answer : Int)
    (retained : Retained s.heap t.handle (.write buf n allocated answer)) :
    Outcome.Sound Separate
      (ioCall debug t.driver s.heap t.handle (.write buf n allocated answer) >>= fun done =>
        .ok (s.after who t s.heap (.write buf n allocated answer) done)) := by
  have holds := separate.holds found
  refine (FsFile.keWriteFsNode_retaining debug answer separate.owns.sane holds.mode holds.write
    (separate.buffer found) retained).bind ?_
  rintro ⟨result, hdl, h, handed⟩ (⟨handle, heap, nothing, noCall⟩ |
    ⟨h', replaced, apart, handle, heap, all, noCall⟩)
  · cases handle
    cases heap
    cases noCall
    rw [System.after]
    dsimp only
    rw [nothing, List.append_nil]
    exact separate.same found
  · cases handle
    cases heap
    cases noCall
    rw [System.after]
    dsimp only
    rw [all]
    exact separate.store found replaced apart

/-- The log gets a call that ends with what was accepted, and the buffer is returned. -/
theorem Separate.flush (debug : Bool) (separate : Separate s) (found : s.streams who = some t)
    (answer : Int) :
    Outcome.Sound Separate
      (ioCall debug t.driver s.heap t.handle (.flush answer) >>= fun done =>
        .ok (s.after who t s.heap (.flush answer) done)) := by
  have holds := separate.holds found
  obtain ⟨h, freed, owns⟩ : ∃ h, mmFree s.heap t.handle.writeBuf = .ok h ∧
      h.Owns (Function.update (blockOf s.streams) (.buffer who) none) := by
    by_cases none : t.handle.writeBuf = 0
    · have block : blockOf s.streams (.buffer who) = Option.none :=
        (blockOf_buffer found).trans (if_pos none)
      refine ⟨s.heap, if_pos none, ?_⟩
      rw [← block, Function.update_eq_self]
      exact separate.owns
    · have block : blockOf s.streams (.buffer who) =
          some (t.handle.writeBuf, t.handle.writeBufSize) :=
        (blockOf_buffer found).trans (if_neg none)
      exact ⟨_, mmFree_of_mem separate.owns.sane (separate.owns.held block),
        separate.owns.free block⟩
  have storage : h.storage = s.heap.storage := mmFree_storage freed
  rw [ioCall, keFlushFsNode_eq answer holds.mode holds.write freed, Outcome.ok_bind,
    System.after]
  refine separate.update found rfl owns ?_ (fun b _ => by rw [storage]) fun f entered => ?_
  · exact ⟨holds.mode, holds.write, holds.size, fun _ => rfl, fun some => absurd rfl some⟩
  · rcases List.mem_append.mp entered with earlier | new
    · exact separate.exact f earlier
    · rw [List.mem_singleton.mp new]
      refine ⟨(bytes_length ..).trans holds.size, ?_⟩
      by_cases none : t.handle.writeBuf = 0
      · have size := holds.size
        dsimp only
        rw [holds.nothing none, List.drop_eq_nil_iff, bytes_length, size, holds.nothing none]
        exact le_rfl
      · exact holds.ends none

theorem blockOf_none (closed : s.streams who = none) (u : Stream) (empty : u.buffer = none) :
    blockOf (Function.update s.streams who (some u)) =
      Function.update (blockOf s.streams) (.record who) (some (u.address, handleSize)) := by
  funext part
  cases part with
  | record j =>
    by_cases own : j = who
    · subst own
      rw [blockOf_record (Function.update_self ..), Function.update_self]
    · rw [Function.update_of_ne (by simpa using own), blockOf, Function.update_of_ne own]
      rfl
  | buffer j =>
    rw [Function.update_of_ne (by simp)]
    by_cases own : j = who
    · subst own
      rw [blockOf_buffer (Function.update_self ..), empty, blockOf, closed]
      rfl
    · rw [blockOf, Function.update_of_ne own]
      rfl

/-- A handle is opened in a fresh block, or refused and its block returned. -/
theorem keOpenFromFsNode_sound (driver : FsDriver) (h : Heap) (flags : UInt32) (allocated : Nat)
    (answer : Int) :
    Outcome.Sound (fun r => allocated ≠ 0 ∧
        (r = (some (allocated, { zeroHandle with flags := flags }),
          ⟨h.storage.fill allocated 0 handleSize, (allocated, handleSize) :: h.live⟩) ∨
        r = (none, ⟨h.storage.fill allocated 0 handleSize,
          h.live.filter fun x => x.1 ≠ allocated⟩)))
      (keOpenFromFsNode (some driver) h flags allocated answer) := by
  rw [keOpenFromFsNode]
  refine (mmAllocateZero_sound h allocated handleSize).bind ?_
  rintro _ ⟨notNull, -, rfl⟩
  dsimp only
  cases callback : driver.openCallback with
  | false =>
    rw [if_neg (by simp)]
    exact ⟨notNull, Or.inl rfl⟩
  | true =>
    rw [if_pos rfl, invoke, if_pos rfl, Outcome.ok_bind]
    by_cases refused : answer ≠ 0
    · have freed : mmFree ⟨h.storage.fill allocated 0 handleSize, (allocated, handleSize) :: h.live⟩
          allocated = .ok ⟨h.storage.fill allocated 0 handleSize,
            h.live.filter fun x => x.1 ≠ allocated⟩ := by
        simp [mmFree, notNull, Heap.free]
      rw [if_pos refused, freed]
      exact ⟨notNull, Or.inr rfl⟩
    · rw [if_neg refused]
      exact ⟨notNull, Or.inl rfl⟩

theorem keCloseFsNode_eq (driver : FsDriver) (h : Heap) (hdl : Nat) (answer : Int) :
    keCloseFsNode driver h hdl answer = mmFree h hdl := by
  rw [keCloseFsNode]
  cases driver.close with
  | false => rfl
  | true => rfl

theorem filled_bytes {allocated n : Nat} (fresh : h.Fresh (allocated, n)) {b : Nat × Nat}
    (live : b ∈ h.live) :
    (h.storage.fill allocated 0 n).bytes b.1 b.2 = h.storage.bytes b.1 b.2 := by
  have outside := fresh.2 b live
  simp only [Apart] at outside
  exact bytes_congr fun k inside => fill_outside _ (by omega)

/-- A handle is opened with nothing pending. -/
theorem Separate.opened (separate : Separate s) (closed : s.streams who = none)
    {driver : FsDriver} {flags : UInt32} {allocated : Nat} (write : driver.write = true)
    (mode : flags &&& vfsModeBuffered ≠ 0) (fresh : s.heap.Fresh (allocated, handleSize)) :
    Separate { s with
      heap := ⟨s.heap.storage.fill allocated 0 handleSize, (allocated, handleSize) :: s.heap.live⟩
      streams := Function.update s.streams who
        (some ⟨driver, allocated, { zeroHandle with flags := flags }, 0, []⟩) } := by
  refine ⟨?_, fun {j v} other => ?_, separate.exact⟩
  · have blocks := blockOf_none closed
      ⟨driver, allocated, { zeroHandle with flags := flags }, 0, []⟩ (if_pos rfl)
    exact blocks.symm ▸ (separate.owns.hold fresh).write _
  · dsimp only at other
    by_cases own : j = who
    · rw [own, Function.update_self] at other
      obtain rfl := Option.some.inj other
      exact ⟨mode, write, rfl, fun _ => rfl, fun some => absurd rfl some⟩
    · rw [Function.update_of_ne own] at other
      exact separate.others (fun b => filled_bytes fresh) other

theorem Separate.refused (separate : Separate s) {allocated : Nat}
    (fresh : s.heap.Fresh (allocated, handleSize)) :
    Separate { s with
      heap := ⟨s.heap.storage.fill allocated 0 handleSize,
        s.heap.live.filter fun x => x.1 ≠ allocated⟩ } := by
  have owns : Heap.Owns { s.heap with live := s.heap.live.filter fun x => x.1 ≠ allocated }
      (blockOf s.streams) := by
    refine ⟨separate.owns.sane.filter _, fun {part b} mine => ?_, separate.owns.single⟩
    have differ := separate.owns.fresh_ne fresh mine
    exact List.mem_filter.mpr ⟨separate.owns.held mine, decide_eq_true differ⟩
  exact ⟨owns.write _, separate.others fun b => filled_bytes fresh, separate.exact⟩

theorem Separate.opening (separate : Separate s) (closed : s.streams who = none)
    {driver : FsDriver} {flags : UInt32} {allocated : Nat} (answer : Int)
    (write : driver.write = true) (mode : flags &&& vfsModeBuffered ≠ 0)
    (placed : allocated = 0 ∨ s.heap.Fresh (allocated, handleSize)) :
    Outcome.Sound Separate
      (keOpenFromFsNode (some driver) s.heap flags allocated answer >>= fun r =>
        .ok { s with
          heap := r.2
          streams := Function.update s.streams who
            (r.1.map fun hdl => ⟨driver, hdl.1, hdl.2, 0, []⟩) }) := by
  refine (keOpenFromFsNode_sound driver s.heap flags allocated answer).bind ?_
  rintro _ ⟨notNull, rfl | rfl⟩
  · exact separate.opened closed write mode (placed.resolve_left notNull)
  · have unchanged : Function.update s.streams who none = s.streams := by
      rw [← closed, Function.update_eq_self]
    have refused := separate.refused (placed.resolve_left notNull)
    rw [← unchanged] at refused
    exact refused

/-- The record of a handle is returned, and no stream has the buffer that it leaves. -/
theorem Separate.closing (separate : Separate s) (found : s.streams who = some t) (answer : Int) :
    Outcome.Sound Separate
      (keCloseFsNode t.driver s.heap t.address answer >>= fun h =>
        .ok { s with heap := h, streams := Function.update s.streams who none }) := by
  have record := blockOf_record found
  have live := separate.owns.held record
  rw [keCloseFsNode_eq, mmFree_of_mem separate.owns.sane live, Outcome.ok_bind]
  refine ⟨(separate.owns.free record).weaken fun {part b} mine => ?_, fun {j v} other => ?_,
    separate.exact⟩
  · cases part with
    | record j =>
      by_cases own : j = who
      · subst own
        rw [blockOf] at mine
        dsimp only at mine
        rw [Function.update_self] at mine
        cases mine
      · rw [Function.update_of_ne (by simpa using own)]
        rw [blockOf] at mine
        dsimp only at mine
        rwa [Function.update_of_ne own] at mine
    | buffer j =>
      rw [Function.update_of_ne (by simp)]
      rw [blockOf] at mine
      dsimp only at mine
      by_cases own : j = who
      · subst own
        rw [Function.update_self] at mine
        cases mine
      · rwa [Function.update_of_ne own] at mine
  · dsimp only at other
    by_cases own : j = who
    · rw [own, Function.update_self] at other
      cases other
    · rw [Function.update_of_ne own] at other
      exact separate.others (fun _ _ => rfl) other

theorem Separate.step (debug : Bool) (separate : Separate s) {e : Event} (allowed : Allowed s e) :
    Outcome.Sound Separate (step debug s e) := by
  obtain ⟨who, other, call⟩ := e
  have settled := separate.settle other
  rw [Allowed] at allowed
  rw [FsStreams.step]
  dsimp only at allowed ⊢
  cases found : s.streams who with
  | none =>
    rw [found] at allowed
    cases call with
    | opening driver flags allocated answer =>
      exact settled.opening found answer allowed.1 allowed.2.1 allowed.2.2
    | io call => exact allowed.elim
    | closing answer => exact allowed.elim
  | some t =>
    rw [found] at allowed
    cases call with
    | opening driver flags allocated answer => exact allowed.elim
    | io call =>
      cases call with
      | write buf n allocated answer => exact settled.write debug found answer allowed
      | flush answer => exact settled.flush debug found answer
    | closing answer => exact settled.closing found answer

end

/-- No handle is in use. -/
def unused (h : Heap) : System := ⟨h, fun _ => none, []⟩

theorem unused_separate {h : Heap} (sane : h.Sane) : Separate (unused h) := by
  refine ⟨⟨sane, fun {part b} mine => ?_, fun {part part' b b'} mine => ?_⟩, fun found => ?_,
    fun f entered => absurd entered List.not_mem_nil⟩
  · cases part <;> cases mine
  · cases part <;> cases mine
  · cases found

/-- Handles may be opened, written to, flushed and closed in any order on a heap that is
used for anything else too. Whatever a driver is handed by a flush ends with exactly
what was accepted on that handle since its last flush, behind as many bytes as were
accepted on it before. -/
theorem flushes_exact (debug : Bool) (h : Heap) (sane : h.Sane) (events : List Event)
    (allowed : Runs.Meets (step debug) Allowed (unused h) events) :
    Outcome.Sound (fun s => ∀ f ∈ s.log, f.Exact) (Runs.run (step debug) (unused h) events) :=
  (Runs.run_sound (fun _ _ separate given => separate.step debug given) (unused_separate sane)
    allowed).mono fun _ separate => separate.exact

/-- Storage that has the byte wherever nothing is in use. -/
def filled (c : UInt8) : Storage := fun _ => c

/-- Two handles at 16 and 48: each is written to and flushed, and then the second is
written to again, in the block that the first returned. What it is handed at last starts
with a byte of the first. -/
def twoStreams : List Event :=
  [⟨0, filled 0, .opening allSet vfsModeBuffered 16 0⟩,
    ⟨1, filled 0, .opening allSet vfsModeBuffered 48 0⟩,
    ⟨0, filled 0xC1, .io (.write 1000 2 100 0)⟩,
    ⟨1, filled 0xC2, .io (.write 1000 1 200 0)⟩,
    ⟨1, filled 0, .io (.flush 0)⟩,
    ⟨0, filled 0, .io (.flush 0)⟩,
    ⟨1, filled 0xC3, .io (.write 1000 1 100 0)⟩,
    ⟨1, filled 0, .io (.flush 0)⟩]

theorem twoStreams_exact :
    Outcome.Sound (fun s => ∀ f ∈ s.log, f.Exact)
      (Runs.run (step false) (unused ⟨filled 0, []⟩) twoStreams) :=
  flushes_exact false ⟨filled 0, []⟩ ⟨List.Pairwise.nil, fun _ none => absurd none List.not_mem_nil⟩
    twoStreams (by decide +kernel)

end FsStreams
