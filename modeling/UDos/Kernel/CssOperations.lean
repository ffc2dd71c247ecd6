import UDos.Kernel.CssClients

/-!
# Operations of the drivers

A driver creates a request, fills it in, sends it, performs it and destroys it,
whatever `CssPerformRequest` returned. All drivers here use one channel command
word. A request that did not run to its end stays in the queue, and its program
has been returned.
-/

namespace CssOperations

open Css KernelMemory MmHeap Storage
open CssClients (Client Holds fillIn entriesSent entriesPerformed blockOf SuppliedNew)

/-- What a driver fills in. -/
structure Request where
  dev : UInt32
  nCcws : UInt32
  flags : UInt32
  words : List UInt8

/-- A channel command word: of format 1 from `MACHINE` 390 on, of format 0 before. -/
def ccw (esa : Bool) (cmd flags : UInt8) (length : UInt16) (addr : UInt32) : List UInt8 :=
  let byte (v i : Nat) := UInt8.ofNat (v / 256 ^ i % 256)
  let a := addr.toNat
  let n := length.toNat
  if esa then [cmd, flags, byte n 1, byte n 0, byte a 3, byte a 2, byte a 1, byte a 0]
  else [cmd, byte a 1, byte a 0, byte a 2, flags, 0, byte n 1, byte n 0]

def oneCcw (esa : Bool) (dev flags : UInt32) (cmd ccwFlags : UInt8) (addr : UInt32)
    (length : UInt16) : Request :=
  ⟨dev, 1, flags, ccw esa cmd ccwFlags length addr⟩

/-- One turn of the loop over the subchannels. -/
def modProbeCss (esa : Bool) (dev sensebuf : UInt32) : Request :=
  oneCcw esa dev 0 0xE4 0 sensebuf 40

def devWritePrinter (esa : Bool) (dev buf n : UInt32) : Request :=
  oneCcw esa dev 0x01 0x01 0 buf n.toUInt16

def devEnableTerm (esa : Bool) (dev : UInt32) : Request :=
  oneCcw esa dev 0x03 0x27 0 0 0

def devWriteTerm (esa : Bool) (dev buf n : UInt32) : Request :=
  oneCcw esa dev 0x01 0x01 0 buf n.toUInt16

def devReadTerm (esa : Bool) (dev buf n : UInt32) : Request :=
  oneCcw esa dev 0x07 0x0A 0x20 buf n.toUInt16

inductive Driver where
  | probeCss (sensebuf : UInt32)
  | writePrinter (buf n : UInt32)
  | enableTerm
  | writeTerm (buf n : UInt32)
  | readTerm (buf n : UInt32)

def Driver.request (esa : Bool) (dev : UInt32) : Driver → Request
  | .probeCss sensebuf => modProbeCss esa dev sensebuf
  | .writePrinter buf n => devWritePrinter esa dev buf n
  | .enableTerm => devEnableTerm esa dev
  | .writeTerm buf n => devWriteTerm esa dev buf n
  | .readTerm buf n => devReadTerm esa dev buf n

/-- The calls that all drivers make. -/
def operate (debug : Bool) (queue : Nat) (h : Heap) (r : Request) (answers : Answers)
    (answer : Nat) (io : Script) : Outcome (Int × Heap) := do
  let (req, h) ← cssNewRequest h answers r.dev r.nCcws
  let h ← cssSendRequest debug queue (fillIn h req r.flags r.words) req answer
  let done ← cssPerformRequest debug queue h req io
  let h ← cssDestroyRequest done.heap req
  .ok (done.result, h)

/-- Every element of the queue has a channel program that was not returned. -/
def NoDangling (queue : Nat) (h : Heap) : Prop :=
  ∀ i, i < word h.storage (queue + 4) →
    ∃ b ∈ h.live, b.1 = word h.storage (u32 (word h.storage queue + i * 16))

/-- There is no storage for the queue, or the request runs to its end. -/
def Completes (r : Request) (answers : Answers) (answer : Nat) (io : Script) : Prop :=
  answer = 0 ∨
    Accepted ⟨answers.ccws, r.dev.toNat, r.nCcws.toNat, r.flags.toNat, r.words⟩ io

variable {debug : Bool} {queue : Nat} {devices : List Nat} {h : Heap} {r : Request}
  {array : Option (Nat × Nat)} {answers : Answers} {answer : Nat} {io : Script}

/-- The allocations of an operation are answered with NULL or fresh blocks. -/
def Supplied (queue : Nat) (h : Heap) (r : Request) (answers : Answers) (answer : Nat) : Prop :=
  SuppliedNew h answers r.nCcws ∧
    Outcome.After (fun x => Placed x.2 answer (word h.storage queue)
      ((word h.storage (queue + 4) + 1) * 16)) (cssNewRequest h answers r.dev r.nCcws)

theorem noDangling_of_empty {clients : List Client}
    (holds : Holds queue devices h clients [] array) : NoDangling queue h := fun i hi => by
  rw [holds.count] at hi
  exact absurd hi (Nat.not_lt_zero i)

/-- The only client returns its request while the queue is empty. -/
theorem destroy_last {client : Client} (holds : Holds queue devices h [client] [] array)
    (active : client.phase ≠ .destroyed) :
    ∃ h', cssDestroyRequest h client.request = .ok h' ∧ Holds queue devices h' [] [] array := by
  have here : [client][0]? = some client := rfl
  refine ⟨_, CssClients.cssDestroyRequest_eq holds here active, ?_⟩
  have gone := holds.destroyed here active
  refine ⟨gone.owns.weaken fun {part b} found => ?_, gone.pointer, gone.count, gone.enough,
    fun found => ?_, fun found => ?_⟩
  · cases part with
    | record i => cases found
    | ccws i => cases found
    | _ => exact found
  · cases found
  · cases found

/-- The only client returns its request while the queue has a copy of it. -/
theorem destroy_queued {client : Client} (holds : Holds queue devices h [client] [some 0] array)
    (active : client.phase ≠ .destroyed) :
    ∃ h', cssDestroyRequest h client.request = .ok h' ∧ ¬ NoDangling queue h' := by
  have here : [client][0]? = some client := rfl
  refine ⟨_, CssClients.cssDestroyRequest_eq holds here active, fun noDangling => ?_⟩
  obtain ⟨-, notNone, same⟩ := holds.entry (show [some 0][0]? = some (some 0) from rfl)
  obtain ⟨b, isArray⟩ := Option.ne_none_iff_exists'.mp notNone
  have arrayBlock : blockOf queue devices array [client] .array = some b := isArray
  have range := holds.owns.sane.proper b (holds.owns.held arrayBlock)
  simp only [Heap.Proper] at range
  have pointer : word h.storage queue = b.1 := by
    rw [holds.pointer, isArray]
    rfl
  have row : u32 (b.1 + 0 * 16) = b.1 + 0 * 16 := u32_eq_self (by omega)
  have copied : word h.storage (b.1 + 0 * 16) = client.program.ccws := by
    refine (word_congr fun j hj => same here active isArray j (by omega)).trans ?_
    exact congrArg Program.ccws (holds.content here active).1
  obtain ⟨x, inUse, start⟩ := noDangling 0 (by
    simp only [holds.count]
    decide)
  simp only [pointer, row, copied] at start
  have kept := List.mem_of_mem_filter inUse
  exact absurd start (of_decide_eq_true (List.mem_filter.mp kept).2)

/-- An operation on a queue without elements leaves none that dangles exactly
when its request completes, and the queue is empty then. -/
theorem operate_exact (holds : Holds queue devices h [] [] array)
    (supplied : Supplied queue h r answers answer) (known : r.dev.toNat ∈ devices)
    (fits : r.words.length ≤ u32 (r.nCcws.toNat * 8))
    (ends : r.flags.toNat &&& requestWaitAttention ≠ 0 →
      Ends r.flags.toNat io.test.deviceStatus io.attention) :
    Outcome.Sound (fun x => (Completes r answers answer io →
        ∃ array', Holds queue devices x.2 [] [] array') ∧
        (NoDangling queue x.2 ↔ Completes r answers answer io))
      (operate debug queue h r answers answer io) := by
  have created := (CssClients.cssNewRequest_holds holds r.flags supplied.1 known fits).strengthen
    fun x ran filled => And.intro filled (supplied.2 x ran)
  refine created.bind ?_
  rintro ⟨req, h1⟩ ⟨⟨held, filled⟩, placed⟩
  set p := programAt (fillIn h1 req r.flags r.words).storage req with hp
  have here : [(⟨req, .prepared, p⟩ : Client)][0]? = some ⟨req, .prepared, p⟩ := rfl
  have active : (CssClients.Phase.prepared : CssClients.Phase) ≠ .destroyed := by decide
  have placed' : Placed (fillIn h1 req r.flags r.words) answer
      (word (fillIn h1 req r.flags r.words).storage queue)
      ((word (fillIn h1 req r.flags r.words).storage (queue + 4) + 1) * 16) := by
    rw [held.pointer, held.count, ← holds.pointer, ← holds.count]
    exact placed.of_live rfl
  have accepts : Accepted p io ↔
      Accepted ⟨answers.ccws, r.dev.toNat, r.nCcws.toNat, r.flags.toNat, r.words⟩ io := by
    simp only [Accepted, Ready, filled.ccws, filled.nCcws, filled.flags]
  refine (CssClients.cssSendRequest_holds held here active placed').bind ?_
  rintro h2 ⟨array', sent⟩
  by_cases failed : answer = 0
  · -- nothing was sent, and there is nothing to perform
    rw [entriesSent, if_pos failed] at sent
    obtain ⟨h3, destroyed, empty⟩ := destroy_last sent active
    have count : word h2.storage (queue + 4) = 0 := sent.count
    rw [cssPerformRequest_empty debug count, Outcome.ok_bind]
    simp only at destroyed
    rw [destroyed]
    exact ⟨fun _ => ⟨array', empty⟩, fun _ => Or.inl failed, fun _ => noDangling_of_empty empty⟩
  · rw [entriesSent, if_neg failed] at sent
    have waits : p.flags &&& requestWaitAttention ≠ 0 →
        Ends p.flags io.test.deviceStatus io.attention := by
      rw [filled.flags]
      exact ends
    refine (CssClients.cssPerformRequest_holds sent here active rfl waits).bind ?_
    rintro ⟨result, h3, started⟩ ⟨performed, -, ran⟩
    rw [accepts] at ran
    by_cases complete : result = 0
    · rw [entriesPerformed, if_pos complete] at performed
      obtain ⟨h4, destroyed, empty⟩ := destroy_last performed active
      simp only at destroyed
      simp only [destroyed, Outcome.ok_bind]
      have completes : Completes r answers answer io := Or.inr (ran.mp complete)
      exact ⟨fun _ => ⟨array', empty⟩, fun _ => completes, fun _ => noDangling_of_empty empty⟩
    · rw [entriesPerformed, if_neg complete] at performed
      obtain ⟨h4, destroyed, dangling⟩ := destroy_queued performed active
      simp only at destroyed
      simp only [destroyed, Outcome.ok_bind]
      have refused : ¬ Completes r answers answer io := fun completes =>
        complete (ran.mpr (completes.resolve_left failed))
      exact ⟨fun completes => absurd completes refused, fun safe => absurd safe dangling,
        fun completes => absurd completes refused⟩

/-- A driver's operation, with the blocks that its allocations are answered with
and what the device answers. -/
structure Call where
  driver : Driver
  dev : UInt32
  answers : Answers
  answer : Nat
  io : Script

@[irreducible] def step (debug esa : Bool) (queue : Nat) (h : Heap) (c : Call) : Outcome Heap := do
  let (_, h) ← operate debug queue h (c.driver.request esa c.dev) c.answers c.answer c.io
  .ok h

theorem request_fits (esa : Bool) (dev : UInt32) (driver : Driver) :
    (driver.request esa dev).words.length ≤ u32 ((driver.request esa dev).nCcws.toNat * 8) := by
  have eight : ∀ cmd flags length addr, (ccw esa cmd flags length addr).length = 8 := by
    intro cmd flags length addr
    cases esa <;> rfl
  cases driver <;> exact Nat.le_of_eq (eight _ _ _ _)

theorem request_dev (esa : Bool) (dev : UInt32) (driver : Driver) :
    (driver.request esa dev).dev = dev := by
  cases driver <;> rfl

/-- The device is known and does not let the driver wait for ever, and the
allocations are answered with NULL or fresh blocks. -/
def Allowed (esa : Bool) (queue : Nat) (devices : List Nat) (h : Heap) (c : Call) : Prop :=
  (c.dev.toNat ∈ devices ∧
    ((c.driver.request esa c.dev).flags.toNat &&& requestWaitAttention ≠ 0 →
      Ends (c.driver.request esa c.dev).flags.toNat c.io.test.deviceStatus c.io.attention)) ∧
  Supplied queue h (c.driver.request esa c.dev) c.answers c.answer

def Clear (esa : Bool) (queue : Nat) (devices : List Nat) (h : Heap) (c : Call) : Prop :=
  Allowed esa queue devices h c ∧
    Completes (c.driver.request esa c.dev) c.answers c.answer c.io

theorem step_empty {esa : Bool} (empty : ∃ array, Holds queue devices h [] [] array) (c : Call)
    (clear : Clear esa queue devices h c) :
    Outcome.Sound (fun h' => ∃ array, Holds queue devices h' [] [] array)
      (step debug esa queue h c) := by
  obtain ⟨array, holds⟩ := empty
  obtain ⟨⟨⟨known, ends⟩, supplied⟩, completes⟩ := clear
  have device : (c.driver.request esa c.dev).dev.toNat ∈ devices := by
    rw [request_dev]
    exact known
  rw [step]
  refine (operate_exact holds supplied device (request_fits esa c.dev c.driver) ends).bind ?_
  rintro ⟨result, h'⟩ ⟨emptied, -⟩
  exact emptied completes

/-- No element of the queue dangles after any sequence of operations that each
run to their end or find no storage for the queue. -/
theorem queue_noDangling {esa : Bool} (devices : List Nat) (sane : h.Sane)
    (static : ∀ b ∈ (queue, 8) :: (psaCcaw, 4) :: devices.map fun dev => (dev, 192), b ∈ h.live)
    (distinct : queue ≠ psaCcaw ∧ queue ∉ devices ∧ psaCcaw ∉ devices)
    (cleared : word h.storage queue = 0 ∧ word h.storage (queue + 4) = 0) (calls : List Call)
    (clear : Runs.Meets (step debug esa queue) (Clear esa queue devices) h calls) :
    Outcome.Sound (NoDangling queue) (Runs.run (step debug esa queue) h calls) := by
  have keep : ∀ h c, (∃ array, Holds queue devices h [] [] array) → Clear esa queue devices h c →
      Outcome.Sound (fun h' => ∃ array, Holds queue devices h' [] [] array)
        (step debug esa queue h c) := fun h c empty ok => step_empty empty c ok
  have start := CssClients.start_holds sane static distinct cleared
  refine (Runs.run_sound keep ⟨none, start⟩ clear).mono ?_
  rintro h' ⟨array, holds⟩
  exact noDangling_of_empty holds

instance (queue : Nat) (h : Heap) : Decidable (NoDangling queue h) :=
  Nat.decidableBallLT _ _

instance (r : Request) (answers : Answers) (answer : Nat) (io : Script) :
    Decidable (Completes r answers answer io) :=
  inferInstanceAs (Decidable (_ ∨ _))

instance (queue : Nat) (h : Heap) (r : Request) (answers : Answers) (answer : Nat) :
    Decidable (Supplied queue h r answers answer) :=
  inferInstanceAs (Decidable (_ ∧ _))

instance (esa : Bool) (queue : Nat) (devices : List Nat) (h : Heap) (c : Call) :
    Decidable (Allowed esa queue devices h c) :=
  inferInstanceAs (Decidable ((_ ∧ _) ∧ _))

instance (esa : Bool) (queue : Nat) (devices : List Nat) (h : Heap) (c : Call) :
    Decidable (Clear esa queue devices h c) :=
  inferInstanceAs (Decidable (_ ∧ _))

/-- Cleared storage with `g_queue` at 100 and a device at 200. -/
def booted : Heap := ⟨fun _ => 0, [(100, 8), (psaCcaw, 4), (200, 192)]⟩

theorem booted_sane : booted.Sane := ⟨by decide, by decide⟩

/-- A terminal is written, and written again while there is no storage for the queue. -/
def writeTwice : List Call :=
  [⟨.writeTerm 900 5, 200, ⟨1000, 1100⟩, 5000, CssClients.accepting 1108⟩,
    ⟨.writeTerm 900 5, 200, ⟨1000, 1100⟩, 0, CssClients.accepting 0⟩]

theorem writeTwice_noDangling :
    ∃ h, Runs.run (step false true 100) booted writeTwice = .ok h ∧ NoDangling 100 h :=
  (queue_noDangling [200] booted_sane (by decide) (by decide) (by decide) writeTwice
    (by decide +kernel)).returned (by decide +kernel)

/-- A subchannel without a device is probed: condition code 3 leaves the request queued. -/
def probeAbsent : List Call :=
  [⟨.probeCss 900, 200, ⟨1000, 1100⟩, 5000, ⟨⟨0, 0, 0⟩, 0, ⟨3, 0, 0⟩, [], 0, ⟨0, 0, 0⟩⟩⟩]

theorem probeAbsent_dangles :
    Runs.Meets (step false true 100) (Allowed true 100 [200]) booted probeAbsent ∧
      ¬ Outcome.Sound (NoDangling 100) (Runs.run (step false true 100) booted probeAbsent) := by
  decide +kernel

end CssOperations
