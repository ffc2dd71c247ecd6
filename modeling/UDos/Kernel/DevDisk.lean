import UDos.Kernel.CssOperations

/-!
# Reading a disk

`DevFDSCB_ReadDisk` runs a channel program of four words: seek, search, the
repetition of the search, and the transfer into the caller's buffer. What it
returns is computed from the length that the caller passed; the channel is
given the last 16 bits of it.
-/

namespace DevDisk

open Css KernelMemory MmHeap Storage
open CssClients (Client Holds Part fillIn entriesSent entriesPerformed blockOf SuppliedNew)
open CssOperations (ccw)

/-- The place of a record on a disk, `struct fs_fdscb`. -/
structure FsFdscb where
  cyl : UInt16
  head : UInt16
  record : UInt8

def bigEndian (v : UInt16) : List UInt8 := [UInt8.ofNat (v.toNat / 256), UInt8.ofNat v.toNat]

/-- `seek_ptr`, with block 0. -/
def seekPtr (fdscb : FsFdscb) : List UInt8 :=
  [0, 0] ++ bigEndian fdscb.cyl ++ bigEndian fdscb.head ++ [fdscb.record]

/-- The words of the channel program. The third one is a transfer to the second. -/
def readCcws (esa : Bool) (ccws : Nat) (seek buf n : UInt32) : List UInt8 :=
  ccw esa 0x07 0x40 6 seek ++ ccw esa 0x31 0x40 5 (seek + 2) ++
    ccw esa 0x08 0 0 (UInt32.ofNat (ccws + 8)) ++ ccw esa 0x0E 0x20 n.toUInt16 buf

/-- What the caller passes, and where `seek_ptr` is on the stack. -/
structure Read where
  dev : UInt32
  fdscb : FsFdscb
  buf : UInt32
  n : UInt32
  seek : UInt32

/-- Up to `CssSendRequest`. -/
def prepareRead (esa : Bool) (h : Heap) (answers : Answers) (r : Read) : Outcome (Nat × Heap) := do
  let (req, h) ← cssNewRequest h answers r.dev 4
  Outcome.check (req ≠ 0) "Out of memory"
  let h := fillIn h req 0 (readCcws esa (word h.storage req) r.seek r.buf r.n)
  let m := h.storage.setWord (r.dev.toNat + 4) 0x0080FF00
  .ok (req, { h with storage := m.store r.seek.toNat (seekPtr r.fdscb) })

/-- The bytes that the channel transfers, and the residual count that it reports. -/
structure Transfer where
  data : List UInt8
  count : UInt16

/-- The channel stores the bytes into the buffer while its program runs, and the
count into the response block. Nothing else that is read is there. -/
def transferred (m : Storage) (r : Read) (t : Transfer) : Storage :=
  (m.store r.buf.toNat t.data).store (r.dev.toNat + 42) (bigEndian t.count)

@[irreducible] def devFDSCBReadDisk (debug esa : Bool) (queue : Nat) (h : Heap)
    (answers : Answers) (answer : Nat) (io : Script) (t : Transfer) (r : Read) :
    Outcome (Int × Heap) := do
  let (req, h) ← prepareRead esa h answers r
  let h ← cssSendRequest debug queue h req answer
  let done ← cssPerformRequest debug queue h req io
  if done.result ≠ 0 then .ok (-1, done.heap)
  else do
    let m := transferred done.heap.storage r t
    let h ← cssDestroyRequest { done.heap with storage := m } req
    .ok (signed32 (signed32 r.n.toNat - half h.storage (r.dev.toNat + 42)), h)

/-- At most the length in the channel command word is transferred, and the
residual count is what is left of it. -/
def Transfer.Of (t : Transfer) (n : UInt32) : Prop :=
  t.data.length + t.count.toNat = n.toUInt16.toNat

/-- The read failed or returns the number of bytes transferred, and the request
and its channel program are not in use any more. -/
structure Reports (r : Read) (t : Transfer) (answers : Answers) (result : Int × Heap) : Prop where
  value : result.1 = -1 ∨ result.1 = t.data.length ∧ t.data.length ≤ r.n.toNat
  freed : ∀ b ∈ result.2.live, b.1 ≠ answers.record ∧ b.1 ≠ answers.ccws

section
variable {debug esa : Bool} {queue : Nat} {devices : List Nat} {h : Heap} {clients : List Client}
  {entries : List (Option Nat)} {array : Option (Nat × Nat)} {answers : Answers} {answer : Nat}
  {io : Script} {t : Transfer} {r : Read}

/-- The range is apart from the queue, from all requests and from the blocks
that the allocations are answered with. -/
structure Reserved (queue : Nat) (devices : List Nat) (array : Option (Nat × Nat))
    (clients : List Client) (count : Nat) (answers : Answers) (answer : Nat) (b : Nat × Nat) :
    Prop where
  old : ∀ {part b'}, blockOf queue devices array clients part = some b' → part.OfQueue →
    Heap.Apart b' b
  record : Heap.Apart (answers.record, 16) b
  ccws : Heap.Apart (answers.ccws, 32) b
  array : answer ≠ 0 → Heap.Apart (answer, (count + 1) * 16) b

/-- The allocations are answered with NULL or with fresh blocks, and the array
of the queue keeps its elements. -/
def Supplied (esa : Bool) (queue : Nat) (h : Heap) (answers : Answers) (answer : Nat) (r : Read) :
    Prop :=
  SuppliedNew h answers 4 ∧
    Outcome.After (fun x => answer = 0 ∨ Keeping x.2 answer (word x.2.storage queue)
      ((word x.2.storage (queue + 4) + 1) * 16)) (prepareRead esa h answers r)

/-- The client whose request is read with. -/
def reader (answers : Answers) (p : Program) : Client := ⟨answers.record, .prepared, p⟩

theorem Reserved.created {b : Nat × Nat} {p : Program} {r : Read}
    (reserved : Reserved queue devices array clients entries.length answers answer b)
    (filled : CssClients.Filled p answers r.dev 4 0) {part : Part} {b' : Nat × Nat}
    (found : blockOf queue devices array (clients ++ [reader answers p]) part = some b')
    (which : part.OfQueue) : Heap.Apart b' b := by
  have program : (reader answers p).ccws = some (answers.ccws, 32) := by
    simp only [Client.ccws, reader, filled.ccws, filled.nCcws]
    rfl
  have record : (reader answers p).record = some (answers.record, 16) := rfl
  rw [CssClients.blockOf_append, program, record] at found
  by_cases ccws : part = .ccws clients.length
  · rw [ccws, Function.update_self] at found
    cases found
    exact reserved.ccws
  · rw [Function.update_of_ne ccws] at found
    by_cases record : part = .record clients.length
    · rw [record, Function.update_self] at found
      cases found
      exact reserved.record
    · rw [Function.update_of_ne record] at found
      exact reserved.old found which

theorem Reserved.sent {b : Nat × Nat} {p : Program} {r : Read}
    (reserved : Reserved queue devices array clients entries.length answers answer b)
    (filled : CssClients.Filled p answers r.dev 4 0) {part : Part} {b' : Nat × Nat}
    (found : blockOf queue devices (CssClients.arraySent entries answer)
      (clients ++ [reader answers p]) part = some b')
    (which : part.OfQueue) : Heap.Apart b' b := by
  rw [CssClients.blockOf_array array] at found
  by_cases isArray : part = .array
  · rw [isArray, Function.update_self, CssClients.arraySent] at found
    by_cases null : answer = 0
    · rw [if_pos null] at found
      cases found
    · rw [if_neg null] at found
      cases found
      exact reserved.array null
  · rw [Function.update_of_ne isArray] at found
    exact reserved.created filled found which

theorem ccw_length (esa : Bool) (cmd flags : UInt8) (length : UInt16) (addr : UInt32) :
    (ccw esa cmd flags length addr).length = 8 := by
  cases esa <;> rfl

theorem readCcws_length (esa : Bool) (ccws : Nat) (seek buf n : UInt32) :
    (readCcws esa ccws seek buf n).length = 32 := by
  simp only [readCcws, List.length_append, ccw_length]

theorem bigEndian_length (v : UInt16) : (bigEndian v).length = 2 := rfl

theorem seekPtr_length (fdscb : FsFdscb) : (seekPtr fdscb).length = 7 := rfl

/-- The request is prepared, and the queue is as it was. -/
theorem prepareRead_holds (esa : Bool) (holds : Holds queue devices h clients entries array)
    (supplied : SuppliedNew h answers 4) (known : r.dev.toNat ∈ devices)
    (seek : Reserved queue devices array clients entries.length answers answer (r.seek.toNat, 7)) :
    Outcome.Sound (fun x => x.1 = answers.record ∧ ∃ p,
        Holds queue devices x.2 (clients ++ [reader answers p]) entries array ∧
          CssClients.Filled p answers r.dev 4 0)
      (prepareRead esa h answers r) := by
  have fits : (readCcws esa answers.ccws r.seek r.buf r.n).length ≤ u32 ((4 : UInt32).toNat * 8) :=
    (readCcws_length ..).le
  have created := (CssClients.cssNewRequest_holds holds 0 supplied known fits).strengthen
    fun x ran filled => And.intro filled
      ((CssClients.cssNewRequest_prepared h supplied).after x ran)
  refine created.bind ?_
  rintro ⟨req, h1⟩ ⟨⟨held, filled⟩, isRecord, -, prepared⟩
  simp only at isRecord held filled prepared
  subst isRecord
  refine (Outcome.sound_check _).bind fun _ _ => ?_
  simp only [prepared.pointer]
  refine ⟨rfl, _, ?_, filled⟩
  -- neither the operation block nor the stack is part of the queue
  have flagged := held.stored (r := (r.dev.toNat, 192))
    (m := (fillIn h1 answers.record 0
      (readCcws esa answers.ccws r.seek r.buf r.n)).storage.setWord (r.dev.toNat + 4) 0x0080FF00)
    (fun x outside => setWord_outside _ (by simp only at outside; omega))
    (held.apart_device known)
  refine flagged.stored (r := (r.seek.toNat, 7)) (fun x outside => ?_)
    (fun found which => seek.created filled found which)
  exact store_outside _ (by rw [seekPtr_length]; exact outside)

theorem half_bigEndian (m : Storage) (a : Nat) (v : UInt16) :
    half (m.store a (bigEndian v)) a = v.toNat := by
  have two := bigEndian_length v
  have high : m.store a (bigEndian v) a = _ := store_inside m (show 0 < _ by omega)
  have low : m.store a (bigEndian v) (a + 1) = _ := store_inside m (show 1 < _ by omega)
  have range := v.toNat_lt
  rw [half, high, low]
  simp only [bigEndian, List.getElem_cons_zero, List.getElem_cons_succ, UInt8.toNat_ofNat']
  omega

theorem value_iff (possible : t.Of r.n) (natural : r.n.toNat < 2147483648) :
    (signed32 (signed32 r.n.toNat - (t.count.toNat : Int)) = -1 ∨
      signed32 (signed32 r.n.toNat - (t.count.toNat : Int)) = t.data.length ∧
        t.data.length ≤ r.n.toNat) ↔ r.n.toNat < 65536 := by
  have rest : t.data.length + t.count.toNat = r.n.toNat % 65536 := possible
  have whole : signed32 r.n.toNat = r.n.toNat := signed32_eq_self (by omega) (by omega)
  rw [whole, signed32_eq_self (by omega) (by omega)]
  omega

theorem prepared_active : CssClients.Phase.prepared ≠ .destroyed := by decide

theorem not_freed {h' : Heap} {p : Program} {array' : Option (Nat × Nat)}
    {entries' : List (Option Nat)} {value : Int}
    (holds : Holds queue devices h' (clients ++ [reader answers p]) entries' array') :
    ¬ Reports r t answers (value, h') := by
  intro reports
  have here : (clients ++ [reader answers p])[clients.length]? = some (reader answers p) :=
    List.getElem?_concat_length
  have active : (reader answers p).phase ≠ .destroyed := prepared_active
  have inUse := holds.owns.held (CssClients.record_of here active)
  exact (reports.freed _ inUse).1 rfl

/-- What the channel stores is not part of the queue. -/
theorem transferred_holds {h' : Heap} {p : Program} {entries' : List (Option Nat)}
    (holds : Holds queue devices h' (clients ++ [reader answers p]) entries'
      (CssClients.arraySent entries answer))
    (filled : CssClients.Filled p answers r.dev 4 0) (known : r.dev.toNat ∈ devices)
    (buf : Reserved queue devices array clients entries.length answers answer
      (r.buf.toNat, r.n.toNat)) (possible : t.Of r.n) :
    Holds queue devices { h' with storage := transferred h'.storage r t }
      (clients ++ [reader answers p]) entries' (CssClients.arraySent entries answer) := by
  have rest : t.data.length + t.count.toNat = r.n.toNat % 65536 := possible
  have data := holds.stored (r := (r.buf.toNat, r.n.toNat))
    (m := h'.storage.store r.buf.toNat t.data)
    (fun x outside => store_outside _ (by simp only at outside; omega))
    (fun found which => buf.sent filled found which)
  refine data.stored (r := (r.dev.toNat, 192)) (fun x outside => ?_)
    (data.apart_device known)
  exact store_outside _ (by rw [bigEndian_length]; simp only at outside; omega)

/-- A read reports what was transferred and gives its request back exactly when
there is storage for the queue, the device accepts the program and runs it to
its end, and the length fits into 16 bits. -/
theorem read_reports_iff (debug esa : Bool) (holds : Holds queue devices h clients entries array)
    (supplied : Supplied esa queue h answers answer r) (known : r.dev.toNat ∈ devices)
    (alone : answer = 0 → entries = [])
    (seek : Reserved queue devices array clients entries.length answers answer (r.seek.toNat, 7))
    (buf : Reserved queue devices array clients entries.length answers answer
      (r.buf.toNat, r.n.toNat))
    (natural : r.n.toNat < 2147483648) (possible : t.Of r.n) :
    Outcome.Sound (fun x => Reports r t answers x ↔
        answer ≠ 0 ∧ Accepted ⟨answers.ccws, r.dev.toNat, 4, 0, []⟩ io ∧ r.n.toNat < 65536)
      (devFDSCBReadDisk debug esa queue h answers answer io t r) := by
  have prepared := (prepareRead_holds esa holds supplied.1 known seek).strengthen
    fun x ran held => And.intro held (supplied.2 x ran)
  rw [devFDSCBReadDisk]
  refine prepared.bind ?_
  rintro ⟨_, h1⟩ ⟨⟨rfl, p, held, filled⟩, answered⟩
  have here : (clients ++ [reader answers p])[clients.length]? = some (reader answers p) :=
    List.getElem?_concat_length
  have active : (reader answers p).phase ≠ .destroyed := prepared_active
  have accepts : Accepted p io ↔ Accepted ⟨answers.ccws, r.dev.toNat, 4, 0, []⟩ io := by
    simp only [Accepted, Ready, filled.ccws, filled.nCcws, filled.flags]
    exact Iff.rfl
  refine (CssClients.cssSendRequest_answered held here active answered).bind ?_
  intro h2 sent
  by_cases failed : answer = 0
  · -- nothing was sent, and there is nothing to perform
    have none : entriesSent entries clients.length answer = [] := by
      rw [entriesSent, if_pos failed, alone failed]
      rfl
    rw [none] at sent
    have count : word h2.storage (queue + 4) = 0 := sent.count
    rw [cssPerformRequest_empty debug count, Outcome.ok_bind]
    exact iff_of_false (not_freed sent) fun completes => completes.1 failed
  · have last : (entriesSent entries clients.length answer).getLast? =
        some (some clients.length) := by
      rw [entriesSent, if_neg failed]
      exact List.getLast?_concat
    have waits : (reader answers p).program.flags &&& requestWaitAttention ≠ 0 →
        Ends (reader answers p).program.flags io.test.deviceStatus io.attention := fun bit => by
      have zero : (reader answers p).program.flags = 0 := filled.flags
      rw [zero] at bit
      exact absurd rfl bit
    refine (CssClients.cssPerformRequest_holds sent here active last waits).bind ?_
    rintro ⟨result, h3, started⟩ ⟨performed, -, ran⟩
    have ran : result = 0 ↔ Accepted ⟨answers.ccws, r.dev.toNat, 4, 0, []⟩ io := ran.trans accepts
    by_cases complete : result = 0
    · simp only [ne_eq, complete, not_true, if_false]
      have stored := transferred_holds performed filled known buf possible
      have count : half (transferred h3.storage r t) (r.dev.toNat + 42) = t.count.toNat :=
        half_bigEndian _ _ _
      generalize transferred h3.storage r t = m at stored count ⊢
      have destroyed := CssClients.cssDestroyRequest_eq stored here active
      simp only [reader] at destroyed
      rw [destroyed]
      simp only [Outcome.ok_bind, count]
      refine ⟨fun reports => ?_, fun completes => ⟨?_, ?_⟩⟩
      · exact ⟨failed, ran.mp complete, (value_iff possible natural).mp reports.value⟩
      · exact (value_iff possible natural).mpr completes.2.2
      · intro b member
        have offRecord := List.mem_filter.mp member
        have offCcws := List.mem_filter.mp offRecord.1
        have differs : b.1 ≠ p.ccws := of_decide_eq_true offCcws.2
        rw [filled.ccws] at differs
        exact ⟨of_decide_eq_true offRecord.2, differs⟩
    · simp only [ne_eq, complete, not_false_iff, if_true]
      exact iff_of_false (not_freed performed) fun completes => complete (ran.mpr completes.2.1)

end

instance (r : Read) (t : Transfer) (answers : Answers) (result : Int × Heap) :
    Decidable (Reports r t answers result) :=
  decidable_of_iff ((result.1 = -1 ∨ result.1 = t.data.length ∧ t.data.length ≤ r.n.toNat) ∧
    ∀ b ∈ result.2.live, b.1 ≠ answers.record ∧ b.1 ≠ answers.ccws)
    ⟨fun reports => ⟨reports.1, reports.2⟩, fun reports => ⟨reports.1, reports.2⟩⟩

instance (esa : Bool) (queue : Nat) (h : Heap) (answers : Answers) (answer : Nat) (r : Read) :
    Decidable (Supplied esa queue h answers answer r) :=
  inferInstanceAs (Decidable (_ ∧ _))

/-- Record 1 of a cylinder is read from a device at 200. -/
def readRecord (n : UInt32) : Read := ⟨200, ⟨5, 0, 1⟩, 9000, n, 8000⟩

def eighty : Transfer := ⟨List.replicate 80 0xC1, 432⟩

theorem reserved_booted {b : Nat × Nat} (low : 6000 ≤ b.1) :
    Reserved 100 [200] none [] 0 ⟨1000, 1100⟩ 5000 b := by
  refine ⟨fun {part b'} found which => ?_, ?_, ?_, fun _ => ?_⟩
  · rcases which with client | rfl | rfl
    · cases part with
      | record i => cases found
      | ccws i => cases found
      | _ => cases client
    · cases found
    · cases found
      exact Or.inl (by simp only; omega)
  · exact Or.inl (by simp only; omega)
  · exact Or.inl (by simp only; omega)
  · exact Or.inl (by simp only; omega)

/-- A record of 80 bytes is read into a buffer of 512. -/
theorem read_reports_record :
    Outcome.Sound (fun x => Reports (readRecord 512) eighty ⟨1000, 1100⟩ x ↔
        5000 ≠ 0 ∧ Accepted ⟨1100, (readRecord 512).dev.toNat, 4, 0, []⟩
          (CssClients.accepting 1132) ∧ (readRecord 512).n.toNat < 65536)
      (devFDSCBReadDisk true true 100 CssOperations.booted ⟨1000, 1100⟩ 5000
        (CssClients.accepting 1132) eighty (readRecord 512)) := by
  have holds : Holds 100 [200] CssOperations.booted [] [] none :=
    CssClients.start_holds CssOperations.booted_sane (by decide) (by decide) (by decide)
  have supplied : Supplied true 100 CssOperations.booted ⟨1000, 1100⟩ 5000 (readRecord 512) := by
    decide
  have known : (readRecord 512).dev.toNat ∈ [200] := by decide
  have seek : Reserved 100 [200] none [] 0 ⟨1000, 1100⟩ 5000 ((readRecord 512).seek.toNat, 7) :=
    reserved_booted (by decide)
  have buf : Reserved 100 [200] none [] 0 ⟨1000, 1100⟩ 5000
      ((readRecord 512).buf.toNat, (readRecord 512).n.toNat) := reserved_booted (by decide)
  have natural : (readRecord 512).n.toNat < 2147483648 := by decide
  have possible : eighty.Of (readRecord 512).n := by
    unfold Transfer.Of
    decide
  exact read_reports_iff true true holds supplied known (fun _ => rfl) seek buf natural possible

/-- A drive that is not there leaves the request in use, and of 65540 bytes the
channel is asked for 4. -/
theorem read_leaks_and_miscounts :
    ¬ Outcome.Sound (Reports (readRecord 512) eighty ⟨1000, 1100⟩)
        (devFDSCBReadDisk true true 100 CssOperations.booted ⟨1000, 1100⟩ 5000
          ⟨⟨0, 0, 0⟩, 0, ⟨3, 0, 0⟩, [], 0, ⟨0, 0, 0⟩⟩ eighty (readRecord 512)) ∧
      ¬ Outcome.Sound (Reports (readRecord 65540) ⟨[1, 2, 3, 4], 0⟩ ⟨1000, 1100⟩)
        (devFDSCBReadDisk true true 100 CssOperations.booted ⟨1000, 1100⟩ 5000
          (CssClients.accepting 1132) ⟨[1, 2, 3, 4], 0⟩ (readRecord 65540)) :=
  ⟨by decide +kernel, by decide +kernel⟩

end DevDisk
