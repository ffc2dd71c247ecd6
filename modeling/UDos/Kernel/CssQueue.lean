import UDos.Kernel.Css

/-!
# The queue while a request is performed

`CssPerformRequest` may fail at any of its channel instructions, and the loop
that waits for attention goes on for as long as the device answers without it.
What the call does to `g_queue` is stated for all answers of the device, and
that it returns for the answers on which it does.
-/

namespace CssQueue

open Css KernelMemory MmHeap Storage

/-- The elements of `g_queue.requests`. -/
def entriesOf (m : Storage) (queue : Nat) : List (List UInt8) :=
  (List.range (word m (queue + 4))).map fun i => m.bytes (word m queue + i * 16) 16

/-- The address of the element at the end. -/
def lastEntry (m : Storage) (queue : Nat) : Nat :=
  word m queue + (word m (queue + 4) - 1) * 16

/-- What `CssPerformRequest` works on: the queue, its array, the channel address
word, the device of the last request, and the record of the caller. -/
def objects (m : Storage) (queue req : Nat) : List (Nat × Nat) :=
  [(queue, 8), (word m queue, word m (queue + 4) * 16), (psaCcaw, 4),
    (word m (lastEntry m queue + 4), 192), (req, 16)]

/-- The objects have their own storage. -/
structure Separate (m : Storage) (queue req : Nat) : Prop where
  proper : ∀ b ∈ objects m queue req, Heap.Proper b
  apart : (objects m queue req).Pairwise Heap.Apart

instance (m : Storage) (queue req : Nat) : Decidable (Separate m queue req) :=
  decidable_of_iff ((∀ b ∈ objects m queue req, Heap.Proper b) ∧
    (objects m queue req).Pairwise Heap.Apart) ⟨fun s => ⟨s.1, s.2⟩, fun s => ⟨s.1, s.2⟩⟩

/-- The program has the words of the record at an address. -/
def RecordedAt (m : Storage) (a : Nat) (p : Program) : Prop :=
  p.ccws = word m a ∧ p.dev = word m (a + 4) ∧ p.nCcws = word m (a + 8) ∧
    p.flags = word m (a + 12)

/-- `g_queue` is what it was. -/
structure Unaffected (queue : Nat) (m m' : Storage) : Prop where
  pointer : word m' queue = word m queue
  count : word m' (queue + 4) = word m (queue + 4)
  entries : entriesOf m' queue = entriesOf m queue

/-- The request that was started is no longer in the queue; the others are. -/
structure Removed (queue : Nat) (m m' : Storage) (started : Option Program) : Prop where
  pointer : word m' queue = word m queue
  entries : entriesOf m' queue = (entriesOf m queue).dropLast
  last : ∃ p, started = some p ∧ RecordedAt m (lastEntry m queue) p

section
variable {debug : Bool} {queue req : Nat} {h : Heap} {io : Script}

/-- The queue and its array are not written to. -/
def Kept (queue : Nat) (m m' : Storage) : Prop :=
  (∀ x, queue ≤ x → x < queue + 8 → m' x = m x) ∧
    ∀ x, word m queue ≤ x → x < word m queue + word m (queue + 4) * 16 → m' x = m x

theorem Kept.word {m m' : Storage} (kept : Kept queue m m') {o : Nat} (ho : o + 4 ≤ 8) :
    word m' (queue + o) = word m (queue + o) :=
  word_congr fun i hi => kept.1 _ (by omega) (by omega)

theorem Kept.entry {m m' : Storage} (kept : Kept queue m m') {i : Nat}
    (hi : i < Storage.word m (queue + 4)) :
    m'.bytes (Storage.word m queue + i * 16) 16 = m.bytes (Storage.word m queue + i * 16) 16 := by
  apply bytes_congr
  intro j hj
  exact kept.2 _ (by omega) (by omega)

theorem Kept.unaffected {m m' : Storage} (kept : Kept queue m m') : Unaffected queue m m' := by
  have pointer : Storage.word m' queue = Storage.word m queue := kept.word (o := 0) (by decide)
  have count := kept.word (o := 4) (by decide)
  refine ⟨pointer, count, ?_⟩
  rw [entriesOf, entriesOf, pointer, count]
  apply List.map_congr_left
  intro i hi
  exact kept.entry (List.mem_range.mp hi)

/-- The device of the last request. -/
def lastDevice (m : Storage) (queue : Nat) : Nat := word m (lastEntry m queue + 4)

/-- Storage once the last request is copied and its device is cleared. -/
def prepared (m : Storage) (queue req : Nat) : Storage :=
  clearDevice (m.copyUp req (lastEntry m queue) 16) req

/-- The request that the channel instructions are for. -/
def lastProgram (m : Storage) (queue req : Nat) : Program := programAt (prepared m queue req) req

theorem Separate.of_queue {m : Storage} (separate : Separate m queue req) {b : Nat × Nat}
    (which : b = (queue, 8) ∨ b = (word m queue, word m (queue + 4) * 16)) :
    Heap.Apart b (psaCcaw, 4) ∧ Heap.Apart b (lastDevice m queue, 192) ∧
      Heap.Apart b (req, 16) := by
  have apart := separate.apart
  simp only [objects, List.pairwise_cons, List.mem_cons, forall_eq_or_imp] at apart
  rcases which with rfl | rfl
  · exact ⟨apart.1.2.1, apart.1.2.2.1, apart.1.2.2.2.1⟩
  · exact ⟨apart.2.1.1, apart.2.1.2.1, apart.2.1.2.2.1⟩

theorem Separate.of_record {m : Storage} (separate : Separate m queue req) :
    Heap.Apart (psaCcaw, 4) (req, 16) ∧ Heap.Apart (lastDevice m queue, 192) (req, 16) := by
  have apart := separate.apart
  simp only [objects, List.pairwise_cons, List.mem_cons, forall_eq_or_imp] at apart
  exact ⟨apart.2.2.1.2.1, apart.2.2.2.1.1⟩

theorem Separate.copied {m : Storage} (separate : Separate m queue req)
    (notEmpty : word m (queue + 4) ≠ 0) {j : Nat} (hj : j < 16) :
    m.copyUp req (lastEntry m queue) 16 (req + j) = m (lastEntry m queue + j) := by
  have apart := (separate.of_queue (Or.inr rfl)).2.2
  simp only [Heap.Apart] at apart
  apply copyUp_inside _ _ hj
  unfold lastEntry
  omega

theorem Separate.copied_word {m : Storage} (separate : Separate m queue req)
    (notEmpty : word m (queue + 4) ≠ 0) {o : Nat} (ho : o + 4 ≤ 16) :
    word (m.copyUp req (lastEntry m queue) 16) (req + o) = word m (lastEntry m queue + o) :=
  word_within (fun _ => separate.copied notEmpty) ho

/-- What the call stores is in the record of the caller, the device of the last
request and the channel address word. -/
theorem Separate.elsewhere {m m' : Storage} (separate : Separate m queue req)
    (notEmpty : word m (queue + 4) ≠ 0)
    (outside : OutsideDevice (lastDevice m queue) (prepared m queue req) m') {x : Nat}
    (offRecord : x < req ∨ req + 16 ≤ x) (offPsa : x < psaCcaw ∨ psaCcaw + 4 ≤ x)
    (offDevice : x < lastDevice m queue ∨ lastDevice m queue + 192 ≤ x) : m' x = m x := by
  have device := separate.copied_word notEmpty (o := 4) (by decide)
  have cleared : prepared m queue req x = m.copyUp req (lastEntry m queue) 16 x := by
    refine clearDevice_outside _ ?_ offPsa
    rw [device]
    exact offDevice
  exact (outside x offDevice).trans (cleared.trans (copyUp_outside _ offRecord))

/-- Whatever the channel stores into the device, the record of the caller stays
the last request, and the queue and its array stay. -/
theorem Separate.stable {m m' : Storage} (separate : Separate m queue req)
    (notEmpty : word m (queue + 4) ≠ 0)
    (outside : OutsideDevice (lastDevice m queue) (prepared m queue req) m') :
    Kept queue m m' ∧ ∀ j, j < 16 → m' (req + j) = m (lastEntry m queue + j) := by
  have device := separate.copied_word notEmpty (o := 4) (by decide)
  have ofQueue := separate.of_queue (Or.inl rfl)
  have ofArray := separate.of_queue (Or.inr rfl)
  have ofRecord := separate.of_record
  simp only [Heap.Apart] at ofQueue ofArray ofRecord
  refine ⟨⟨fun x lo hi => ?_, fun x lo hi => ?_⟩, fun j hj => ?_⟩
  · exact separate.elsewhere notEmpty outside (by omega) (by omega) (by omega)
  · exact separate.elsewhere notEmpty outside (by omega) (by omega) (by omega)
  · refine (outside _ (by omega)).trans ((clearDevice_outside _ ?_ (by omega)).trans ?_)
    · rw [device]
      change _ < lastDevice m queue ∨ lastDevice m queue + 192 ≤ _
      omega
    · exact separate.copied notEmpty hj

theorem recordedAt_programAt {m m' : Storage} {a : Nat}
    (same : ∀ j, j < 16 → m' (req + j) = m (a + j)) : RecordedAt m a (programAt m' req) := by
  have field : ∀ o, o + 4 ≤ 16 → word m' (req + o) = word m (a + o) := fun _ => word_within same
  exact ⟨field 0 (by decide), field 4 (by decide), field 8 (by decide), field 12 (by decide)⟩

/-- From `CssStartChannel` on the request counts as started, however it ends. -/
theorem startChannel_keeps (m : Storage) (req : Nat) (io : Script) :
    OutsideDevice (programAt m req).dev m (startChannel m req io).storage ∧
      (startChannel m req io).started = some (programAt m req) := by
  have test := cssTestChannel_outside m (programAt m req).dev io.final
  rw [startChannel]
  by_cases start : Rejected (programAt m req).flags io.startCc
  · simp only [start, if_true, and_true]
    exact fun _ _ => rfl
  · by_cases final : Rejected (programAt m req).flags io.final.cc
    · simp only [start, final, if_true, if_false, and_true]
      exact test
    · simp only [start, final, if_false]
      split
      · exact ⟨test, rfl⟩
      · exact ⟨test, rfl⟩

section
variable {m : Storage} (separate : Separate m queue req) (notEmpty : word m (queue + 4) ≠ 0)
include separate notEmpty

theorem Separate.recorded {m' : Storage}
    (outside : OutsideDevice (lastDevice m queue) (prepared m queue req) m') :
    RecordedAt m (lastEntry m queue) (programAt m' req) :=
  recordedAt_programAt (separate.stable notEmpty outside).2

theorem Separate.lastProgram : RecordedAt m (lastEntry m queue) (lastProgram m queue req) :=
  separate.recorded notEmpty fun _ _ => rfl

theorem Separate.addresses {m' : Storage}
    (outside : OutsideDevice (lastDevice m queue) (prepared m queue req) m') :
    Addresses m' req (CssQueue.lastProgram m queue req) := by
  have now := separate.recorded notEmpty outside
  have first := separate.lastProgram notEmpty
  exact ⟨now.2.1.trans first.2.1.symm, now.2.2.2.trans first.2.2.2.symm⟩

/-- The channel stores into the device alone, and if it finished, the request
that was started is the last one. -/
theorem Separate.runChannel_outside :
    Outcome.After (fun c => OutsideDevice (lastDevice m queue) (prepared m queue req) c.storage ∧
        (c.finished = true →
          ∃ p, c.started = some p ∧ RecordedAt m (lastEntry m queue) p))
      (runChannel (prepared m queue req) req io) := by
  intro c ran
  have device : (CssQueue.lastProgram m queue req).dev = lastDevice m queue :=
    (separate.lastProgram notEmpty).2.1
  have course := runChannel_course (p := CssQueue.lastProgram m queue req)
    (fun m' outside => separate.addresses notEmpty (device ▸ outside)) c ran
  rw [device] at course
  cases course with
  | refused outside _ => exact ⟨outside, fun finished => absurd finished Bool.false_ne_true⟩
  | @started m' outside _ =>
    have recorded := separate.recorded notEmpty outside
    obtain ⟨after, isStarted⟩ := startChannel_keeps m' req io
    rw [recorded.2.1] at after
    exact ⟨outside.trans after, fun _ => ⟨_, isStarted, recorded⟩⟩

/-- What the channel leaves: the queue as it was, and if it finished, a request
that was started is the last one. -/
theorem Separate.runChannel_keeps :
    Outcome.After (fun c => Kept queue m c.storage ∧ (c.finished = true →
        ∃ p, c.started = some p ∧ RecordedAt m (lastEntry m queue) p))
      (runChannel (prepared m queue req) req io) := fun c ran =>
  have left := separate.runChannel_outside notEmpty c ran
  ⟨(separate.stable notEmpty left.1).1, left.2⟩

/-- The count that is stored when the request is completed drops the last element. -/
theorem Separate.removed {m' : Storage} (kept : Kept queue m m') {started : Option Program}
    (last : ∃ p, started = some p ∧ RecordedAt m (lastEntry m queue) p) :
    Removed queue m (m'.setWord (queue + 4) (u32 (word m' (queue + 4) + 4294967295))) started := by
  have array := separate.apart
  simp only [objects, List.pairwise_cons, List.mem_cons, forall_eq_or_imp, Heap.Apart] at array
  have apart := array.1.1
  have count : word m' (queue + 4) = word m (queue + 4) := kept.word (o := 4) (by decide)
  have less : u32 (word m' (queue + 4) + 4294967295) = word m (queue + 4) - 1 := by
    rw [count]
    exact u32_pred (Nat.pos_of_ne_zero notEmpty) (word_lt m (queue + 4))
  rw [less]
  have pointer : word (m'.setWord (queue + 4) (word m (queue + 4) - 1)) queue = word m queue :=
    (word_setWord_other _ (by omega)).trans (kept.word (o := 0) (by decide))
  have stored : word (m'.setWord (queue + 4) (word m (queue + 4) - 1)) (queue + 4) =
      word m (queue + 4) - 1 := by
    have few := word_lt m (queue + 4)
    exact word_setWord _ _ (by omega)
  refine ⟨pointer, ?_, last⟩
  have shorter : List.range (word m (queue + 4) - 1) =
      (List.range (word m (queue + 4))).dropLast := by
    rw [List.dropLast_eq_take, List.length_range, List.take_range, Nat.min_eq_left (Nat.sub_le _ _)]
  rw [entriesOf, entriesOf, stored, pointer, ← List.map_dropLast, ← shorter]
  apply List.map_congr_left
  intro i hi
  have inside := List.mem_range.mp hi
  rw [← kept.entry (by omega : i < word m (queue + 4))]
  exact bytes_congr fun j hj => setWord_outside _ (by omega)

end

end

/-- What the call returns after the channel instructions. -/
def concluded (queue : Nat) (h : Heap) (c : Channel) : Performed :=
  let m := c.storage
  if c.finished then
    ⟨0, { h with storage := m.setWord (queue + 4) (u32 (word m (queue + 4) + 4294967295)) },
      c.started⟩
  else ⟨-1, { h with storage := m }, c.started⟩

theorem concluded_eq (queue : Nat) (h : Heap) (c : Channel) :
    (if c.finished then
      .ok ⟨0, ⟨c.storage.setWord (queue + 4) (u32 (word c.storage (queue + 4) + 4294967295)),
        h.live⟩, c.started⟩
    else .ok ⟨-1, ⟨c.storage, h.live⟩, c.started⟩ : Outcome Performed) =
      .ok (concluded queue h c) := by
  unfold concluded
  split <;> rfl

/-- The call once the last request is copied. -/
theorem cssPerformRequest_eq (debug : Bool) {queue req : Nat} {h : Heap} {io : Script}
    (separate : Separate h.storage queue req) (notEmpty : word h.storage (queue + 4) ≠ 0) :
    cssPerformRequest debug queue h req io =
      (runChannel (prepared h.storage queue req) req io >>= fun c =>
        .ok (concluded queue h c)) := by
  have array := separate.proper _ (List.mem_cons_of_mem _ List.mem_cons_self)
  have record := separate.proper (req, 16) (by simp [objects])
  have apart := (separate.of_queue (Or.inr rfl)).2.2
  simp only [Heap.Proper] at array record
  simp only [Heap.Apart] at apart
  have here : u32 (word h.storage queue + (word h.storage (queue + 4) - 1) * 16) =
      lastEntry h.storage queue := u32_eq_self (by omega)
  have last : lastEntry h.storage queue + 16 =
      word h.storage queue + word h.storage (queue + 4) * 16 := by
    unfold lastEntry
    omega
  have above : word h.storage queue ≤ lastEntry h.storage queue := Nat.le_add_right _ _
  rw [cssPerformRequest]
  rw [if_neg notEmpty, here,
    keCopyMemory_eq debug h.storage (by omega) (by omega) (by omega) (by omega), Outcome.ok_bind]
  exact congrArg (runChannel (prepared h.storage queue req) req io).bind
    (funext fun c => concluded_eq queue h c)

/-- A request that is performed is removed, and one that fails is not. -/
theorem perform_keeps (debug : Bool) {queue req : Nat} {h : Heap} {io : Script}
    (separate : Separate h.storage queue req) (notEmpty : word h.storage (queue + 4) ≠ 0) :
    Outcome.After (fun d =>
        (d.result ≠ 0 → Unaffected queue h.storage d.heap.storage) ∧
          (d.result = 0 → Removed queue h.storage d.heap.storage d.started))
      (cssPerformRequest debug queue h req io) := by
  rw [cssPerformRequest_eq debug separate notEmpty]
  refine (separate.runChannel_keeps notEmpty).bind ?_
  rintro c ⟨kept, last⟩
  apply Outcome.after_ok
  rw [concluded]
  by_cases finished : c.finished = true
  · simp only [finished, if_true]
    exact ⟨fun other => absurd rfl other, fun _ => separate.removed notEmpty kept (last finished)⟩
  · simp only [finished]
    have other : (-1 : Int) ≠ 0 := by decide
    exact ⟨fun _ => kept.unaffected, fun zero => absurd zero other⟩

/-- `CssPerformRequest` is all or nothing on the queue: if it returns a value
other than 0 the queue is as it was, and if it returns 0 the request that it
started, the last one, is removed and all others are kept in order. -/
theorem perform_all_or_nothing (debug : Bool) (queue req : Nat) (h : Heap) (io : Script)
    (separate : word h.storage (queue + 4) ≠ 0 → Separate h.storage queue req) :
    Outcome.After (fun d =>
        (d.result ≠ 0 → Unaffected queue h.storage d.heap.storage) ∧
          (d.result = 0 → Removed queue h.storage d.heap.storage d.started))
      (cssPerformRequest debug queue h req io) := by
  by_cases empty : word h.storage (queue + 4) = 0
  · rw [cssPerformRequest_empty debug empty]
    apply Outcome.after_ok
    exact ⟨fun _ => ⟨rfl, rfl, rfl⟩, fun zero => absurd zero Int.one_ne_zero⟩
  · exact perform_keeps debug (separate empty) empty

/-- Beside the count of the queue, a call changes the record of the caller, the
device of the last request and the channel address word alone. -/
theorem perform_frame (debug : Bool) {queue req : Nat} {h : Heap} {io : Script}
    (separate : Separate h.storage queue req) (notEmpty : word h.storage (queue + 4) ≠ 0) :
    Outcome.After (fun d => d.heap.live = h.live ∧ ∀ x, (x < req ∨ req + 16 ≤ x) →
        (x < psaCcaw ∨ psaCcaw + 4 ≤ x) →
        (x < lastDevice h.storage queue ∨ lastDevice h.storage queue + 192 ≤ x) →
        (x < queue + 4 ∨ queue + 8 ≤ x) → d.heap.storage x = h.storage x)
      (cssPerformRequest debug queue h req io) := by
  rw [cssPerformRequest_eq debug separate notEmpty]
  refine (separate.runChannel_outside notEmpty).bind ?_
  rintro c ⟨outside, -⟩
  apply Outcome.after_ok
  rw [concluded]
  by_cases finished : c.finished = true
  · simp only [finished, if_true]
    refine ⟨trivial, fun x offRecord offPsa offDevice offCount => ?_⟩
    refine (setWord_outside _ (by omega)).trans ?_
    exact separate.elsewhere notEmpty outside offRecord offPsa offDevice
  · simp only [finished]
    exact ⟨rfl, fun x offRecord offPsa offDevice _ =>
      separate.elsewhere notEmpty outside offRecord offPsa offDevice⟩

/-- Two requests for a device at 200, in an array at 1000. -/
def twoQueued : Heap :=
  let empty : Storage := fun _ => 0
  let queue := (empty.setWord 100 1000).setWord 104 2
  let first := (queue.setWord 1000 2900).setWord 1004 200
  let second := ((first.setWord 1016 3000).setWord 1020 200).setWord 1024 1
  ⟨second, [(100, 8), (psaCcaw, 4), (200, 192), (1000, 32), (600, 16)]⟩

/-- A channel program with one word that runs to its end. -/
def completing : Script := ⟨⟨0, 0, 0⟩, 0, ⟨0, 0, 0⟩, [], 0, ⟨0, 3008, 0⟩⟩

theorem perform_twoQueued :
    Separate twoQueued.storage 100 600 ∧
      Outcome.After (fun d =>
          (d.result ≠ 0 → Unaffected 100 twoQueued.storage d.heap.storage) ∧
            (d.result = 0 → Removed 100 twoQueued.storage d.heap.storage d.started))
        (cssPerformRequest true 100 twoQueued 600 completing) := by
  have separate : Separate twoQueued.storage 100 600 := by decide
  exact ⟨separate, perform_all_or_nothing true 100 600 twoQueued completing fun _ => separate⟩

/-- The flags of the last request. -/
def lastFlags (m : Storage) (queue : Nat) : Nat := word m (lastEntry m queue + 12)

/-- The call returns exactly when there is no request, when the device rejects
it before the loop, when it does not wait, or when the device ends the loop. -/
theorem cssPerformRequest_returns_iff (debug : Bool) {queue req : Nat} {h : Heap} {io : Script}
    (separate : word h.storage (queue + 4) ≠ 0 → Separate h.storage queue req) :
    (cssPerformRequest debug queue h req io).returns = true ↔
      word h.storage (queue + 4) = 0 ∨ Refused (lastFlags h.storage queue) io ∨
        (lastFlags h.storage queue &&& requestWaitAttention ≠ 0 →
          Ends (lastFlags h.storage queue) io.test.deviceStatus io.attention) := by
  by_cases empty : word h.storage (queue + 4) = 0
  · rw [cssPerformRequest_empty debug empty]
    exact iff_of_true rfl (Or.inl empty)
  · have apart := separate empty
    have last := apart.lastProgram empty
    have flags : (lastProgram h.storage queue req).flags = lastFlags h.storage queue := last.2.2.2
    have device : (lastProgram h.storage queue req).dev = lastDevice h.storage queue := last.2.1
    have channel : (runChannel (prepared h.storage queue req) req io).returns = true ↔ _ :=
      runChannel_returns_iff fun m' outside => apart.addresses empty (device ▸ outside)
    rw [flags] at channel
    simp only [empty, false_or]
    rw [← channel, cssPerformRequest_eq debug apart empty]
    cases runChannel (prepared h.storage queue req) req io with
    | ok c => exact iff_of_true rfl rfl
    | panic message => exact Iff.rfl
    | fault => exact Iff.rfl
    | diverge => exact Iff.rfl

/-- The device is not there, and without the attention bit. -/
def Gone (t : Test) : Prop := t.cc = statusNotPresent ∧ t.deviceStatus &&& attentionBit = 0

instance (t : Test) : Decidable (Gone t) := inferInstanceAs (Decidable (_ ∧ _))

/-- After what it answers first, the device goes on with one answer. -/
def thenGone (io : Script) (gone : Test) (k : Nat) : Script :=
  { io with attention := io.attention ++ List.replicate k gone }

/-- The attention bit is set before the device is gone. -/
def Attends (io : Script) : Prop :=
  io.test.deviceStatus &&& attentionBit ≠ 0 ∨
    ∃ t ∈ io.attention, t.deviceStatus &&& attentionBit ≠ 0

theorem counts_of_refused {flags : Nat} {io : Script} (refused : Refused flags io) :
    flags &&& requestIgnoreCc = 0 := by
  rcases refused with ⟨-, tested | modified⟩ | rejected
  · exact tested.2
  · exact modified.2
  · exact rejected.2

/-- A device that is gone ends the loop only if condition codes count. -/
theorem ends_gone_iff (flags : Nat) (io : Script) {gone : Test} (isGone : Gone gone) :
    (∃ k, Ends flags io.test.deviceStatus (thenGone io gone k).attention) ↔
      flags &&& requestIgnoreCc = 0 ∨ Attends io := by
  constructor
  · rintro ⟨k, bit | ⟨t, member, ends⟩⟩
    · exact Or.inr (Or.inl bit)
    · rcases ends with bit | rejected
      · rcases List.mem_append.mp member with first | later
        · exact Or.inr (Or.inr ⟨t, first, bit⟩)
        · rw [List.eq_of_mem_replicate later] at bit
          exact absurd isGone.2 bit
      · exact Or.inl rejected.2
  · rintro (counts | bit | ⟨t, member, bit⟩)
    · refine ⟨1, Or.inr ⟨gone, ?_, Or.inr ⟨isGone.1, counts⟩⟩⟩
      exact List.mem_append_right _ (List.mem_singleton_self gone)
    · exact ⟨0, Or.inl bit⟩
    · exact ⟨0, Or.inr ⟨t, List.mem_append_left _ member, Or.inl bit⟩⟩

/-- With a device that answers in any way and is gone from then on, the call
returns exactly when the queue is empty, when the last request does not wait for
attention or does not ignore condition codes, or when the attention bit is set
before the device is gone. -/
theorem attention_wait_ends_iff (debug : Bool) (queue req : Nat) (h : Heap) (io : Script)
    (gone : Test) (isGone : Gone gone)
    (separate : word h.storage (queue + 4) ≠ 0 → Separate h.storage queue req) :
    (∃ k, (cssPerformRequest debug queue h req (thenGone io gone k)).returns = true) ↔
      word h.storage (queue + 4) = 0 ∨
        lastFlags h.storage queue &&& requestWaitAttention = 0 ∨
        lastFlags h.storage queue &&& requestIgnoreCc = 0 ∨ Attends io := by
  simp only [cssPerformRequest_returns_iff debug separate]
  constructor
  · rintro ⟨k, empty | refused | ends⟩
    · exact Or.inl empty
    · exact Or.inr (Or.inr (Or.inl (counts_of_refused refused)))
    · by_cases waits : lastFlags h.storage queue &&& requestWaitAttention = 0
      · exact Or.inr (Or.inl waits)
      · exact Or.inr (Or.inr ((ends_gone_iff _ _ isGone).mp ⟨k, ends waits⟩))
  · rintro (empty | quick | stops)
    · exact ⟨0, Or.inl empty⟩
    · exact ⟨0, Or.inr (Or.inr fun waits => absurd quick waits)⟩
    · obtain ⟨k, ends⟩ := (ends_gone_iff _ _ isGone).mpr stops
      exact ⟨k, Or.inr (Or.inr fun _ => ends)⟩

/-- A request as `DevReadTerm` sends it, for a device at 200. -/
def terminalRead : Heap :=
  let empty : Storage := fun _ => 0
  let queue := (empty.setWord 100 1000).setWord 104 1
  let entry := ((queue.setWord 1000 3000).setWord 1004 200).setWord 1008 1
  ⟨entry.setWord 1012 (requestModify ||| requestIgnoreCc ||| requestWaitAttention),
    [(100, 8), (psaCcaw, 4), (200, 192), (1000, 16), (600, 16)]⟩

/-- A terminal that is there, without attention, and then is switched off. -/
def switchedOff : Script := ⟨⟨0, 0, 0⟩, 0, ⟨0, 0, 0⟩, [⟨0, 0, 0⟩], 0, ⟨3, 0, 0⟩⟩

def absent : Test := ⟨3, 0, 0⟩

theorem terminalRead_separate : Separate terminalRead.storage 100 600 := by decide

theorem attention_wait_terminalRead :
    (∃ k, (cssPerformRequest true 100 terminalRead 600
        (thenGone switchedOff absent k)).returns = true) ↔
      word terminalRead.storage 104 = 0 ∨
        lastFlags terminalRead.storage 100 &&& requestWaitAttention = 0 ∨
        lastFlags terminalRead.storage 100 &&& requestIgnoreCc = 0 ∨ Attends switchedOff :=
  attention_wait_ends_iff true 100 600 terminalRead switchedOff absent (by decide)
    fun _ => terminalRead_separate

/-- The loop of a terminal read goes on for ever once the terminal is off. -/
theorem terminalRead_never_returns :
    Gone absent ∧ ¬ ∃ k, (cssPerformRequest true 100 terminalRead 600
      (thenGone switchedOff absent k)).returns = true := by
  refine ⟨by decide, ?_⟩
  rintro ⟨k, returns⟩
  have answered := (cssPerformRequest_returns_iff true fun _ => terminalRead_separate).mp returns
  have flags : lastFlags terminalRead.storage 100 = 7 := by decide
  rw [flags] at answered
  rcases answered with empty | refused | ends
  · exact absurd empty (by decide +kernel)
  · exact absurd (counts_of_refused refused) (by decide)
  · have isGone : Gone absent := by decide
    have stops := (ends_gone_iff 7 switchedOff isGone).mp ⟨k, ends (by decide)⟩
    rcases stops with counts | bit | ⟨t, member, bit⟩
    · exact absurd counts (by decide)
    · exact absurd bit (by decide)
    · rw [List.mem_singleton.mp member] at bit
      exact absurd bit (by decide)

end CssQueue
