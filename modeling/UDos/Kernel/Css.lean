import UDos.Kernel.MmHeap
import UDos.Library.Owners
import UDos.Library.Runs

/-!
# Channel requests

The request queue of `css.c`, with what drivers do with a request: create it,
fill it in, send it, perform it and destroy it. `g_queue` describes an array of
copies of the requests that were sent. `CssPerformRequest` takes the copy at
the end of the array, whoever sent it, and drops it when the channel program
has run to its end.

A `struct css_request` has 16 bytes: `ccws`, `dev`, `n_ccws` and `flags`. Of a
`struct css_device` the operation block has the address of the channel program
at 8, the interruption response block is at 32 with `cpa_addr` at 36 and
`device_status` at 40, and the subchannel information block is at 132.
-/

namespace Css

open KernelMemory MmHeap Storage

def statusNotPresent : Nat := 3
def requestModify : Nat := 0x01
def requestIgnoreCc : Nat := 0x02
def requestWaitAttention : Nat := 0x04
def attentionBit : UInt8 := 0x80

/-- The channel address word of the prefixed storage area. -/
def psaCcaw : Nat := 0x48

/-- A request with the words of its channel program. -/
structure Program where
  ccws : Nat
  dev : Nat
  nCcws : Nat
  flags : Nat
  words : List UInt8
deriving DecidableEq

/-- The request at an address. -/
def programAt (m : Storage) (req : Nat) : Program :=
  ⟨word m req, word m (req + 4), word m (req + 8), word m (req + 12),
    m.bytes (word m req) (u32 (word m (req + 8) * 8))⟩

/-- The blocks that the allocations of `CssNewRequest` are answered with. -/
structure Answers where
  record : Nat
  ccws : Nat

def cssNewRequest (h : Heap) (answers : Answers) (dev nCcws : UInt32) : Outcome (Nat × Heap) := do
  let (req, h) ← mmAllocateZero h answers.record 16
  Outcome.check (req ≠ 0) "Out of memory"
  let m := h.storage.setWord (req + 8) nCcws.toNat
  let size := u32 (word m (req + 8) * 8)
  let (ccws, h) ← mmAllocatePhysical { h with storage := m } answers.ccws size
  let m := h.storage.setWord req ccws
  Outcome.check (ccws ≠ 0) "Out of memory"
  let m := (m.fill ccws 0 size).setWord (req + 4) dev.toNat
  .ok (req, { h with storage := m })

def cssDestroyRequest (h : Heap) (req : Nat) : Outcome Heap := do
  let h ← mmFree h (word h.storage req)
  mmFree h req

/-- Without storage for the array the pointer to it is NULL, and the length stays. -/
def cssSendRequest (debug : Bool) (queue : Nat) (h : Heap) (req answer : Nat) : Outcome Heap := do
  let (requests, h) ← growArray h queue 16 answer
  if requests = 0 then .ok h
  else do
    let n := word h.storage (queue + 4)
    let (_, m) ← keCopyMemory debug h.storage (u32 (requests + n * 16)) req 16
    .ok { h with storage := m.setWord (queue + 4) (u32 (word m (queue + 4) + 1)) }

/-- What a test of the subchannel answers: the condition code, and what the
response block then holds. -/
structure Test where
  cc : Nat
  cpaAddr : UInt32
  deviceStatus : UInt8

/-- What the device answers while a request is performed. -/
structure Script where
  modifyTest : Test
  modifyCc : Nat
  test : Test
  attention : List Test
  startCc : Nat
  final : Test

def cssTestChannel (m : Storage) (dev : Nat) (t : Test) : Storage :=
  (m.setWord (dev + 36) t.cpaAddr.toNat).write (dev + 40) t.deviceStatus

/-- The condition code makes `CssPerformRequest` give up. -/
def Rejected (flags cc : Nat) : Prop := cc = statusNotPresent ∧ flags &&& requestIgnoreCc = 0

instance (flags cc : Nat) : Decidable (Rejected flags cc) := inferInstanceAs (Decidable (_ ∧ _))

/-- The loop that waits for the attention bit; the flag is whether it went on.
A device that answers no more keeps the loop waiting. -/
def awaitAttention (dev flags : Nat) : Storage → List Test → Outcome (Storage × Bool)
  | m, tests =>
    if m (dev + 40) &&& attentionBit ≠ 0 then .ok (m, true)
    else
      match tests with
      | [] => .diverge
      | t :: rest =>
        let m := cssTestChannel m dev t
        if Rejected flags t.cc then .ok (m, false) else awaitAttention dev flags m rest

/-- What the channel leaves: the program that was started, if any, and whether
it ran to its end. -/
structure Channel where
  storage : Storage
  started : Option Program
  finished : Bool

/-- From `CssStartChannel` on. -/
def startChannel (m : Storage) (req : Nat) (io : Script) : Channel :=
  let p := programAt m req
  if Rejected p.flags io.startCc then ⟨m, some p, false⟩
  else
    let m := cssTestChannel m p.dev io.final
    if Rejected p.flags io.final.cc then ⟨m, some p, false⟩
    else if word m (p.dev + 36) ≠ u32 (p.ccws + p.nCcws * 8) then ⟨m, some p, false⟩
    else ⟨m, some p, true⟩

/-- From the test that the device is online on. -/
def testAndStart (m : Storage) (req : Nat) (io : Script) : Outcome Channel := do
  let dev := word m (req + 4)
  let flags := word m (req + 12)
  let m := cssTestChannel m dev io.test
  if Rejected flags io.test.cc then .ok ⟨m, none, false⟩
  else if flags &&& requestWaitAttention ≠ 0 then do
    let (m, attended) ← awaitAttention dev flags m io.attention
    if attended then .ok (startChannel m req io) else .ok ⟨m, none, false⟩
  else .ok (startChannel m req io)

/-- The channel instructions of `CssPerformRequest` for the request at an address. -/
def runChannel (m : Storage) (req : Nat) (io : Script) : Outcome Channel :=
  let dev := word m (req + 4)
  let flags := word m (req + 12)
  if flags &&& requestModify ≠ 0 then
    let m := cssTestChannel m dev io.modifyTest
    if Rejected flags io.modifyTest.cc then .ok ⟨m, none, false⟩
    else if Rejected flags io.modifyCc then .ok ⟨m, none, false⟩
    else testAndStart m req io
  else testAndStart m req io

/-- The stores into the device and the prefixed storage area before the channel is used. -/
def clearDevice (m : Storage) (req : Nat) : Storage :=
  let dev := word m (req + 4)
  let m := (m.fill (dev + 32) 0 96).fill (dev + 132) 0 56
  let m := m.setWord (dev + 8) (word m req)
  m.setWord psaCcaw (word m req)

/-- The result of `CssPerformRequest`, and the program that it started, if any. -/
structure Performed where
  result : Int
  heap : Heap
  started : Option Program

def cssPerformRequest (debug : Bool) (queue : Nat) (h : Heap) (req : Nat) (io : Script) :
    Outcome Performed :=
  let n := word h.storage (queue + 4)
  if n = 0 then .ok ⟨1, h, none⟩
  else do
    let (_, m) ← keCopyMemory debug h.storage req
      (u32 (word h.storage queue + (n - 1) * 16)) 16
    let channel ← runChannel (clearDevice m req) req io
    let m := channel.storage
    if channel.finished then
      .ok ⟨0, { h with storage := m.setWord (queue + 4) (u32 (word m (queue + 4) + 4294967295)) },
        channel.started⟩
    else .ok ⟨-1, { h with storage := m }, channel.started⟩

theorem cssPerformRequest_empty (debug : Bool) {queue : Nat} {h : Heap}
    (empty : word h.storage (queue + 4) = 0) (req : Nat) (io : Script) :
    cssPerformRequest debug queue h req io = .ok ⟨1, h, none⟩ := if_pos empty

/-- The device stops the loop that waits for attention, with the bit or by a
condition code. -/
def Ends (flags : Nat) (status : UInt8) (tests : List Test) : Prop :=
  status &&& attentionBit ≠ 0 ∨
    ∃ t ∈ tests, t.deviceStatus &&& attentionBit ≠ 0 ∨ Rejected flags t.cc

/-- The attention bit comes before a condition code that is not accepted. -/
def Attended (flags : Nat) : UInt8 → List Test → Prop
  | status, [] => status &&& attentionBit ≠ 0
  | status, t :: rest => status &&& attentionBit ≠ 0 ∨
      ¬ Rejected flags t.cc ∧ Attended flags t.deviceStatus rest

/-- The device accepts every instruction before `CssStartChannel`. -/
def Ready (p : Program) (io : Script) : Prop :=
  (p.flags &&& requestModify ≠ 0 →
    ¬ Rejected p.flags io.modifyTest.cc ∧ ¬ Rejected p.flags io.modifyCc) ∧
  ¬ Rejected p.flags io.test.cc ∧
  (p.flags &&& requestWaitAttention ≠ 0 →
    Attended p.flags io.test.deviceStatus io.attention)

/-- The device accepts every instruction and the channel program runs to its end. -/
def Accepted (p : Program) (io : Script) : Prop :=
  Ready p io ∧ ¬ Rejected p.flags io.startCc ∧ ¬ Rejected p.flags io.final.cc ∧
    io.final.cpaAddr.toNat = u32 (p.ccws + p.nCcws * 8)

instance (flags : Nat) (status : UInt8) (tests : List Test) : Decidable (Ends flags status tests) :=
  inferInstanceAs (Decidable (_ ∨ ∃ t ∈ tests, _))

instance decidableAttended (flags : Nat) :
    (status : UInt8) → (tests : List Test) → Decidable (Attended flags status tests)
  | _, [] => inferInstanceAs (Decidable (_ ≠ _))
  | _, t :: rest =>
    have _later := decidableAttended flags t.deviceStatus rest
    inferInstanceAs (Decidable (_ ∨ _))

instance (p : Program) (io : Script) : Decidable (Ready p io) :=
  inferInstanceAs (Decidable (_ ∧ _))

instance (p : Program) (io : Script) : Decidable (Accepted p io) :=
  inferInstanceAs (Decidable (_ ∧ _))

variable {m m' : Storage} {req dev flags : Nat} {io : Script}

/-- Storage is kept outside the device. -/
def OutsideDevice (dev : Nat) (m m' : Storage) : Prop :=
  ∀ x, x < dev ∨ dev + 192 ≤ x → m' x = m x

theorem OutsideDevice.trans {m'' : Storage} (first : OutsideDevice dev m m')
    (second : OutsideDevice dev m' m'') : OutsideDevice dev m m'' := fun x outside =>
  (second x outside).trans (first x outside)

theorem cssTestChannel_outside (m : Storage) (dev : Nat) (t : Test) :
    OutsideDevice dev m (cssTestChannel m dev t) := fun x outside => by
  rw [cssTestChannel, write_other _ _ (by omega), setWord_outside _ (by omega)]

theorem cssTestChannel_status (m : Storage) (dev : Nat) (t : Test) :
    cssTestChannel m dev t (dev + 40) = t.deviceStatus := write_same _ _ _

theorem cssTestChannel_cpaAddr (m : Storage) (dev : Nat) (t : Test) :
    word (cssTestChannel m dev t) (dev + 36) = t.cpaAddr.toNat := by
  have kept : word (cssTestChannel m dev t) (dev + 36) =
      word (m.setWord (dev + 36) t.cpaAddr.toNat) (dev + 36) :=
    word_congr fun i _ => write_other _ _ (by omega)
  exact kept.trans (word_setWord _ _ t.cpaAddr.toNat_lt)

theorem awaitAttention_after (tests : List Test) :
    Outcome.After (fun r => OutsideDevice dev m r.1 ∧
        (r.2 = true ↔ Attended flags (m (dev + 40)) tests))
      (awaitAttention dev flags m tests) := by
  induction tests generalizing m with
  | nil =>
    by_cases bit : m (dev + 40) &&& attentionBit ≠ 0
    · rw [awaitAttention, if_pos bit]
      apply Outcome.after_ok
      exact ⟨fun _ _ => rfl, fun _ => bit, fun _ => rfl⟩
    · rw [awaitAttention, if_neg bit]
      intro _ never
      cases never
  | cons t rest ih =>
    by_cases bit : m (dev + 40) &&& attentionBit ≠ 0
    · rw [awaitAttention, if_pos bit]
      apply Outcome.after_ok
      exact ⟨fun _ _ => rfl, fun _ => Or.inl bit, fun _ => rfl⟩
    · rw [awaitAttention, if_neg bit]
      have outside := cssTestChannel_outside m dev t
      have status := cssTestChannel_status m dev t
      by_cases rejected : Rejected flags t.cc
      · simp only [rejected, if_true]
        apply Outcome.after_ok
        refine ⟨outside, fun goesOn => absurd goesOn Bool.false_ne_true, fun attended => ?_⟩
        exact absurd rejected (attended.resolve_left bit).1
      · simp only [rejected, if_false]
        intro r ran
        obtain ⟨kept, goesOn⟩ := ih r ran
        rw [status] at goesOn
        refine ⟨outside.trans kept, goesOn.trans ⟨fun attended => Or.inr ⟨rejected, attended⟩, ?_⟩⟩
        exact fun attended => (attended.resolve_left bit).2

/-- The loop ends exactly when the device stops it. -/
theorem awaitAttention_returns_iff (tests : List Test) :
    (awaitAttention dev flags m tests).returns = true ↔ Ends flags (m (dev + 40)) tests := by
  induction tests generalizing m with
  | nil =>
    by_cases bit : m (dev + 40) &&& attentionBit ≠ 0
    · rw [awaitAttention, if_pos bit]
      exact iff_of_true rfl (Or.inl bit)
    · rw [awaitAttention, if_neg bit]
      refine iff_of_false Bool.false_ne_true ?_
      rintro (set | ⟨t, none, -⟩)
      · exact bit set
      · cases none
  | cons t rest ih =>
    by_cases bit : m (dev + 40) &&& attentionBit ≠ 0
    · rw [awaitAttention, if_pos bit]
      exact iff_of_true rfl (Or.inl bit)
    · rw [awaitAttention, if_neg bit]
      by_cases rejected : Rejected flags t.cc
      · simp only [rejected, if_true]
        exact iff_of_true rfl (Or.inr ⟨t, List.mem_cons_self, Or.inr rejected⟩)
      · simp only [rejected, if_false]
        rw [ih, cssTestChannel_status]
        simp only [Ends, bit, rejected, List.mem_cons, exists_eq_or_imp, false_or, or_false]

/-- What the channel instructions do for a request p: storage changes in the
device alone, p is started if the device is ready for it, and it runs to its
end if it is accepted. -/
structure Serves (m : Storage) (p : Program) (io : Script) (c : Channel) : Prop where
  outside : OutsideDevice p.dev m c.storage
  started : c.started = if Ready p io then some p else none
  finished : c.finished = true ↔ Accepted p io

theorem serves_refused {p : Program} (outside : OutsideDevice p.dev m m')
    (refused : ¬ Ready p io) : Serves m p io ⟨m', none, false⟩ :=
  ⟨outside, (if_neg refused).symm, fun finished => absurd finished Bool.false_ne_true,
    fun accepted => absurd accepted.1 refused⟩

theorem serves_failed {p : Program} (outside : OutsideDevice p.dev m m') (ready : Ready p io)
    (refused : ¬ Accepted p io) : Serves m p io ⟨m', some p, false⟩ :=
  ⟨outside, (if_pos ready).symm, fun finished => absurd finished Bool.false_ne_true,
    fun accepted => absurd accepted refused⟩

theorem startChannel_serves {p : Program} (outside : OutsideDevice p.dev m m')
    (here : programAt m' req = p) (ready : Ready p io) :
    Serves m p io (startChannel m' req io) := by
  rw [startChannel, here]
  have test := outside.trans (cssTestChannel_outside m' p.dev io.final)
  by_cases start : Rejected p.flags io.startCc
  · simp only [start, if_true]
    exact serves_failed outside ready fun accepted => accepted.2.1 start
  · by_cases final : Rejected p.flags io.final.cc
    · simp only [start, final, if_true, if_false]
      exact serves_failed test ready fun accepted => accepted.2.2.1 final
    · simp only [start, final, if_false, cssTestChannel_cpaAddr]
      by_cases ended : io.final.cpaAddr.toNat = u32 (p.ccws + p.nCcws * 8)
      · simp only [ended, ne_eq, not_true, if_false]
        exact ⟨test, (if_pos ready).symm, fun _ => ⟨ready, start, final, ended⟩, fun _ => rfl⟩
      · simp only [ended, ne_eq, not_false_iff, if_true]
        exact serves_failed test ready fun accepted => ended accepted.2.2.2

/-- The way of a request through the channel: it is refused before
`CssStartChannel`, or it gets there. Storage changes in the device alone. -/
inductive Course (m : Storage) (dev req : Nat) (ready : Prop) (io : Script) : Channel → Prop where
  | refused {m' : Storage} (outside : OutsideDevice dev m m') (refused : ¬ ready) :
      Course m dev req ready io ⟨m', none, false⟩
  | started {m' : Storage} (outside : OutsideDevice dev m m') (accepted : ready) :
      Course m dev req ready io (startChannel m' req io)

/-- The request at an address is for the device and has the flags of p. -/
def Addresses (m : Storage) (req : Nat) (p : Program) : Prop :=
  word m (req + 4) = p.dev ∧ word m (req + 12) = p.flags

theorem addresses_of_programAt {p : Program} (here : programAt m req = p) : Addresses m req p :=
  ⟨congrArg Program.dev here, congrArg Program.flags here⟩

theorem testAndStart_course {p : Program} (outside : OutsideDevice p.dev m m')
    (here : Addresses m' req p)
    (modify : p.flags &&& requestModify ≠ 0 →
      ¬ Rejected p.flags io.modifyTest.cc ∧ ¬ Rejected p.flags io.modifyCc) :
    Outcome.After (Course m p.dev req (Ready p io) io) (testAndStart m' req io) := by
  have test := outside.trans (cssTestChannel_outside m' p.dev io.test)
  rw [testAndStart, here.1, here.2]
  by_cases rejected : Rejected p.flags io.test.cc
  · simp only [rejected, if_true]
    apply Outcome.after_ok
    exact .refused test fun ready => ready.2.1 rejected
  · by_cases waits : p.flags &&& requestWaitAttention ≠ 0
    · simp only [rejected, if_false, waits, ne_eq, not_false_iff, if_true]
      have status := cssTestChannel_status m' p.dev io.test
      refine (awaitAttention_after io.attention).bind ?_
      rintro ⟨m1, on⟩ ⟨kept, goesOn⟩
      rw [status] at goesOn
      cases on with
      | true =>
        apply Outcome.after_ok
        exact .started (test.trans kept) ⟨modify, rejected, fun _ => goesOn.mp rfl⟩
      | false =>
        apply Outcome.after_ok
        exact .refused (test.trans kept) fun ready =>
          Bool.false_ne_true (goesOn.mpr (ready.2.2 waits))
    · simp only [rejected, if_false, waits]
      apply Outcome.after_ok
      exact .started test ⟨modify, rejected, fun bit => absurd bit waits⟩

theorem runChannel_course {p : Program}
    (stable : ∀ m', OutsideDevice p.dev m m' → Addresses m' req p) :
    Outcome.After (Course m p.dev req (Ready p io) io) (runChannel m req io) := by
  have same : OutsideDevice p.dev m m := fun _ _ => rfl
  have here := stable m same
  have test := cssTestChannel_outside m p.dev io.modifyTest
  rw [runChannel, here.1, here.2]
  by_cases modify : p.flags &&& requestModify ≠ 0
  · by_cases tested : Rejected p.flags io.modifyTest.cc
    · simp only [modify, tested, ne_eq, not_false_iff, if_true]
      apply Outcome.after_ok
      exact .refused test fun ready => (ready.1 modify).1 tested
    · by_cases modified : Rejected p.flags io.modifyCc
      · simp only [modify, tested, modified, ne_eq, not_false_iff, if_true, if_false]
        apply Outcome.after_ok
        exact .refused test fun ready => (ready.1 modify).2 modified
      · simp only [modify, tested, modified, ne_eq, not_false_iff, if_true, if_false]
        exact testAndStart_course test (stable _ test) fun _ => ⟨tested, modified⟩
  · simp only [modify, if_false]
    exact testAndStart_course same here fun bit => absurd bit modify

theorem runChannel_after {p : Program}
    (stable : ∀ m', OutsideDevice p.dev m m' → programAt m' req = p) :
    Outcome.After (Serves m p io) (runChannel m req io) := by
  intro c ran
  have course := runChannel_course (fun m' outside => addresses_of_programAt (stable m' outside))
    c ran
  cases course with
  | refused outside refused => exact serves_refused outside refused
  | started outside ready => exact startChannel_serves outside (stable _ outside) ready

/-- The device rejects the request before the loop that waits for attention. -/
def Refused (flags : Nat) (io : Script) : Prop :=
  flags &&& requestModify ≠ 0 ∧
      (Rejected flags io.modifyTest.cc ∨ Rejected flags io.modifyCc) ∨
    Rejected flags io.test.cc

theorem testAndStart_returns_iff {flags : Nat} (mode : word m (req + 12) = flags) :
    (testAndStart m req io).returns = true ↔ Rejected flags io.test.cc ∨
      (flags &&& requestWaitAttention ≠ 0 → Ends flags io.test.deviceStatus io.attention) := by
  rw [testAndStart, mode]
  by_cases rejected : Rejected flags io.test.cc
  · simp only [rejected, if_true]
    exact iff_of_true rfl (Or.inl trivial)
  · by_cases waits : flags &&& requestWaitAttention ≠ 0
    · have loop : (awaitAttention (word m (req + 4)) flags
          (cssTestChannel m (word m (req + 4)) io.test) io.attention).returns = true ↔ _ :=
        awaitAttention_returns_iff io.attention
      rw [cssTestChannel_status] at loop
      simp only [rejected, if_false, waits, ne_eq, not_false_iff, if_true, false_or, true_implies]
      rw [← loop]
      cases awaitAttention (word m (req + 4)) flags (cssTestChannel m (word m (req + 4)) io.test)
          io.attention with
      | ok r =>
        obtain ⟨m1, on⟩ := r
        cases on <;> exact iff_of_true rfl rfl
      | panic message => exact Iff.rfl
      | fault => exact Iff.rfl
      | diverge => exact Iff.rfl
    · simp only [rejected, if_false, waits]
      exact iff_of_true rfl (Or.inr fun bit => bit.elim)

/-- The channel instructions come to an end when the request is refused before
the loop, when it does not wait, or when the device ends the loop. -/
theorem runChannel_returns_iff {p : Program}
    (stable : ∀ m', OutsideDevice p.dev m m' → Addresses m' req p) :
    (runChannel m req io).returns = true ↔ Refused p.flags io ∨
      (p.flags &&& requestWaitAttention ≠ 0 →
        Ends p.flags io.test.deviceStatus io.attention) := by
  have here := stable m fun _ _ => rfl
  have tested := stable _ (cssTestChannel_outside m p.dev io.modifyTest)
  rw [runChannel, here.1, here.2, Refused]
  by_cases modify : p.flags &&& requestModify ≠ 0
  · by_cases refused : Rejected p.flags io.modifyTest.cc
    · simp only [modify, refused, ne_eq, not_false_iff, if_true]
      exact iff_of_true rfl (Or.inl (Or.inl ⟨trivial, Or.inl trivial⟩))
    · by_cases modified : Rejected p.flags io.modifyCc
      · simp only [modify, refused, modified, ne_eq, not_false_iff, if_true, if_false]
        exact iff_of_true rfl (Or.inl (Or.inl ⟨trivial, Or.inr trivial⟩))
      · simp only [modify, refused, modified, ne_eq, not_false_iff, if_true, if_false]
        rw [testAndStart_returns_iff tested.2]
        simp
  · simp only [modify, if_false]
    rw [testAndStart_returns_iff here.2]
    simp

theorem runChannel_sound {p : Program}
    (stable : ∀ m', OutsideDevice p.dev m m' → programAt m' req = p)
    (ends : p.flags &&& requestWaitAttention ≠ 0 → Ends p.flags io.test.deviceStatus io.attention) :
    Outcome.Sound (Serves m p io) (runChannel m req io) :=
  (runChannel_after stable).sound ((runChannel_returns_iff fun m' outside =>
    addresses_of_programAt (stable m' outside)).mpr (Or.inr ends))

theorem clearDevice_outside (m : Storage) {req x : Nat}
    (device : x < word m (req + 4) ∨ word m (req + 4) + 192 ≤ x)
    (psa : x < psaCcaw ∨ psaCcaw + 4 ≤ x) : clearDevice m req x = m x := by
  rw [clearDevice, setWord_outside _ psa, setWord_outside _ (by omega), fill_outside _ (by omega),
    fill_outside _ (by omega)]

theorem programAt_congr (record : ∀ j, j < 16 → m' (req + j) = m (req + j))
    (words : ∀ j, j < u32 (word m (req + 8) * 8) →
      m' (word m req + j) = m (word m req + j)) : programAt m' req = programAt m req := by
  have field : ∀ o, o + 4 ≤ 16 → word m' (req + o) = word m (req + o) := fun o ho =>
    word_congr fun i _ => by
      rw [Nat.add_assoc]
      exact record _ (by omega)
  have ccws : word m' req = word m req := field 0 (by decide)
  have size : word m' (req + 8) = word m (req + 8) := field 8 (by decide)
  simp only [programAt, ccws, size, field 4 (by decide), field 12 (by decide)]
  congr 1
  exact bytes_congr words

end Css
