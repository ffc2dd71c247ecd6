import Mathlib.Data.List.Nodup
import UDos.Kernel.Css
import UDos.Kernel.Reallocate

/-!
# Clients of the channel queue

Clients that create, send, perform and destroy requests in any order of their
calls. Beside the heap a state has what each client did, and for every element
of `g_queue.requests` the client whose request it is, if it still holds one.
-/

namespace CssClients

open Css KernelMemory MmHeap Storage
open Arena (found_concat)

inductive Phase where
  | prepared
  | sent
  | performed
  | destroyed
deriving DecidableEq, Repr

/-- The pointer to a client's request, and the request as it was filled in. -/
structure Client where
  request : Nat
  phase : Phase
  program : Program

/-- What a client stores into its request before it sends it: the flags and the
words of the channel program. -/
def fillIn (h : Heap) (req : Nat) (flags : UInt32) (words : List UInt8) : Heap :=
  let m := h.storage.setWord (req + 12) flags.toNat
  { h with storage := m.store (word m req) words }

/-- Clients are known by the order in which they create their requests. -/
inductive Op where
  | new (dev nCcws flags : UInt32) (words : List UInt8) (answers : Answers)
  | send (client answer : Nat)
  | perform (client : Nat) (io : Script)
  | destroy (client : Nat)

/-- What a client's `CssPerformRequest` started, and what the device answered. -/
structure Performance where
  client : Nat
  io : Script
  started : Option Program

structure State where
  heap : Heap
  clients : List Client
  entries : List (Option Nat)
  sent : List (Nat × Program)
  performed : List Performance
  returned : List (Nat × Nat)

/-- Elements are added at the end, and are lost when there is no storage for the array. -/
def entriesSent (entries : List (Option Nat)) (client answer : Nat) : List (Option Nat) :=
  if answer = 0 then entries.map fun _ => none else entries ++ [some client]

/-- The last element is dropped when the request was completed. -/
def entriesPerformed (entries : List (Option Nat)) (result : Int) : List (Option Nat) :=
  if result = 0 then entries.dropLast else entries

def setPhase (clients : List Client) (i : Nat) (client : Client) (phase : Phase) : List Client :=
  clients.set i { client with phase := phase }

@[irreducible] def step (debug : Bool) (queue : Nat) (s : State) (op : Op) : Outcome State :=
  match op with
  | .new dev nCcws flags words answers => do
    let (req, h) ← cssNewRequest s.heap answers dev nCcws
    let h := fillIn h req flags words
    .ok { s with heap := h, clients := s.clients ++ [⟨req, .prepared, programAt h.storage req⟩] }
  | .send i answer =>
    match s.clients[i]? with
    | none => .ok s
    | some client => do
      let h ← cssSendRequest debug queue s.heap client.request answer
      .ok { s with
        heap := h
        clients := setPhase s.clients i client .sent
        entries := entriesSent s.entries i answer
        sent := s.sent ++ [(i, programAt s.heap.storage client.request)] }
  | .perform i io =>
    match s.clients[i]? with
    | none => .ok s
    | some client => do
      let done ← cssPerformRequest debug queue s.heap client.request io
      .ok { s with
        heap := done.heap
        clients := setPhase s.clients i client .performed
        entries := entriesPerformed s.entries done.result
        performed := s.performed ++ [⟨i, io, done.started⟩] }
  | .destroy i =>
    match s.clients[i]? with
    | none => .ok s
    | some client => do
      let h ← cssDestroyRequest s.heap client.request
      .ok { s with
        heap := h
        clients := setPhase s.clients i client .destroyed
        returned := s.returned ++ [(i, word s.heap.storage client.request)] }

/-- A `CssPerformRequest` starts the program that its client sent, as soon as the
device is ready for it, and a `CssDestroyRequest` returns the words of the
channel program that its client prepared, once for each client. -/
structure NotMixed (s : State) : Prop where
  performed : ∀ e ∈ s.performed, ∃ p, (e.client, p) ∈ s.sent ∧
    e.started = if Ready p e.io then some p else none
  returned : ∀ e ∈ s.returned, ∃ c, s.clients[e.1]? = some c ∧ c.program.ccws = e.2
  once : (s.returned.map Prod.fst).Nodup

/-- What has a block: the static data, the devices, the array of the queue, and
the requests with their channel programs. -/
inductive Part where
  | queue
  | psa
  | device (dev : Nat)
  | array
  | record (client : Nat)
  | ccws (client : Nat)
deriving DecidableEq

def Client.record (c : Client) : Option (Nat × Nat) :=
  if c.phase = .destroyed then none else some (c.request, 16)

def Client.ccws (c : Client) : Option (Nat × Nat) :=
  if c.phase = .destroyed then none
  else some (c.program.ccws, u32 (c.program.nCcws * 8))

def blockOf (queue : Nat) (devices : List Nat) (array : Option (Nat × Nat))
    (clients : List Client) : Part → Option (Nat × Nat)
  | .queue => some (queue, 8)
  | .psa => some (psaCcaw, 4)
  | .device dev => if dev ∈ devices then some (dev, 192) else none
  | .array => array
  | .record i => (clients[i]?).bind Client.record
  | .ccws i => (clients[i]?).bind Client.ccws

/-- What every state reached holds: all blocks have one owner, requests hold
what was filled in, and an element of the queue holds the request of its client. -/
structure Holds (queue : Nat) (devices : List Nat) (h : Heap) (clients : List Client)
    (entries : List (Option Nat)) (array : Option (Nat × Nat)) : Prop where
  owns : h.Owns (blockOf queue devices array clients)
  pointer : word h.storage queue = (array.map Prod.fst).getD 0
  count : word h.storage (queue + 4) = entries.length
  enough : ∀ b ∈ array, entries.length * 16 ≤ b.2
  content : ∀ {i : Nat} {c : Client}, clients[i]? = some c → c.phase ≠ .destroyed →
    programAt h.storage c.request = c.program ∧ c.program.dev ∈ devices
  entry : ∀ {i k : Nat}, entries[i]? = some (some k) → k < clients.length ∧ array ≠ none ∧
    ∀ {c : Client} {b : Nat × Nat}, clients[k]? = some c → c.phase ≠ .destroyed →
      array = some b → ∀ j, j < 16 → h.storage (b.1 + i * 16 + j) = h.storage (c.request + j)

section
variable {debug : Bool} {queue : Nat} {devices : List Nat} {h : Heap} {clients : List Client}
  {entries : List (Option Nat)} {array : Option (Nat × Nat)} {i : Nat} {client : Client}

theorem record_of (here : clients[i]? = some client) (active : client.phase ≠ .destroyed) :
    blockOf queue devices array clients (.record i) = some (client.request, 16) := by
  simp only [blockOf, here, Option.bind_some, Client.record, active, if_false]

theorem ccws_of (here : clients[i]? = some client) (active : client.phase ≠ .destroyed) :
    blockOf queue devices array clients (.ccws i) =
      some (client.program.ccws, u32 (client.program.nCcws * 8)) := by
  simp only [blockOf, here, Option.bind_some, Client.ccws, active, if_false]

/-- The part is a request or its channel program. -/
def Part.OfClient : Part → Prop
  | .record _ => True
  | .ccws _ => True
  | _ => False

/-- Storage with the same bytes in requests and programs keeps what was filled in. -/
theorem Holds.programs_kept (holds : Holds queue devices h clients entries array) {m : Storage}
    (kept : ∀ {part b}, blockOf queue devices array clients part = some b → part.OfClient →
      ∀ x, b.1 ≤ x → x < b.1 + b.2 → m x = h.storage x)
    (here : clients[i]? = some client) (active : client.phase ≠ .destroyed) :
    programAt m client.request = client.program ∧
      ∀ j, j < 16 → m (client.request + j) = h.storage (client.request + j) := by
  have record : ∀ j, j < 16 → m (client.request + j) = h.storage (client.request + j) := fun j hj =>
    kept (record_of here active) trivial _ (Nat.le_add_right _ _) (Nat.add_lt_add_left hj _)
  have content := (holds.content here active).1
  have ccws : word h.storage client.request = client.program.ccws := congrArg Program.ccws content
  have size : word h.storage (client.request + 8) = client.program.nCcws :=
    congrArg Program.nCcws content
  refine ⟨(programAt_congr record fun j hj => ?_).trans content, record⟩
  rw [size] at hj
  rw [ccws]
  exact kept (ccws_of here active) trivial _ (Nat.le_add_right _ _) (Nat.add_lt_add_left hj _)

/-- Storage with the same bytes in requests, programs and the array, and with a
shorter queue, keeps the invariant. -/
theorem Holds.write (holds : Holds queue devices h clients entries array) {m : Storage}
    {entries' : List (Option Nat)} (shorter : entries' <+: entries)
    (kept : ∀ {part b}, blockOf queue devices array clients part = some b →
      part.OfClient ∨ part = .array → ∀ x, b.1 ≤ x → x < b.1 + b.2 → m x = h.storage x)
    (pointer : word m queue = word h.storage queue)
    (count : word m (queue + 4) = entries'.length) :
    Holds queue devices { h with storage := m } clients entries' array := by
  have programs : ∀ {i : Nat} {c : Client}, clients[i]? = some c → c.phase ≠ .destroyed → _ :=
    holds.programs_kept fun found ofClient => kept found (Or.inl ofClient)
  have less := shorter.length_le
  refine ⟨holds.owns.write m, pointer.trans holds.pointer, count, ?_, ?_, ?_⟩
  · intro b found
    have enough := holds.enough b found
    omega
  · exact fun here active => ⟨(programs here active).1, (holds.content here active).2⟩
  · intro i k found
    have inShort := (List.getElem?_eq_some_iff.mp found).1
    have inLong : entries[i]? = some (some k) := by
      obtain ⟨rest, rfl⟩ := shorter
      rwa [List.getElem?_append_left inShort]
    obtain ⟨known, notNone, same⟩ := holds.entry inLong
    refine ⟨known, notNone, fun {c b} here active some j hj => ?_⟩
    have enough := holds.enough b some
    have arrayBlock : blockOf queue devices array clients .array = Option.some b := some
    refine (kept arrayBlock (Or.inr rfl) _ (by omega) (by omega)).trans ?_
    exact (same here active some j hj).trans ((programs here active).2 j hj).symm

/-- What the queue depends on: the queue, its array, requests and programs. -/
def Part.OfQueue (part : Part) : Prop := part.OfClient ∨ part = .array ∨ part = .queue

/-- Stores into a range apart from all that keep the invariant. -/
theorem Holds.stored (holds : Holds queue devices h clients entries array) {m : Storage}
    {r : Nat × Nat} (outside : ∀ x, x < r.1 ∨ r.1 + r.2 ≤ x → m x = h.storage x)
    (apart : ∀ {part b}, blockOf queue devices array clients part = some b → part.OfQueue →
      Heap.Apart b r) :
    Holds queue devices { h with storage := m } clients entries array := by
  have kept : ∀ {part b}, blockOf queue devices array clients part = some b → part.OfQueue →
      ∀ x, b.1 ≤ x → x < b.1 + b.2 → m x = h.storage x := fun found which x lo hi => by
    have away := apart found which
    simp only [Heap.Apart] at away
    exact outside x (by omega)
  have queueBlock : blockOf queue devices array clients .queue = some (queue, 8) := rfl
  have words : ∀ o, o + 4 ≤ 8 → word m (queue + o) = word h.storage (queue + o) := fun o ho =>
    word_congr fun i hi => kept queueBlock (Or.inr (Or.inr rfl)) _ (by simp only; omega)
      (by simp only; omega)
  exact holds.write (List.prefix_refl entries)
    (fun found which => kept found (which.imp_right Or.inl)) (words 0 (by decide))
    ((words 4 (by decide)).trans holds.count)

theorem Holds.apart_device (holds : Holds queue devices h clients entries array) {dev : Nat}
    (known : dev ∈ devices) {part : Part} {b : Nat × Nat}
    (found : blockOf queue devices array clients part = some b) (which : part.OfQueue) :
    Heap.Apart b (dev, 192) := by
  have device : blockOf queue devices array clients (.device dev) = some (dev, 192) := if_pos known
  refine holds.owns.apart found device ?_
  rintro rfl
  rcases which with no | no | no <;> cases no

theorem setPhase_getElem (here : clients[i]? = some client) (phase : Phase) (j : Nat) :
    (setPhase clients i client phase)[j]? =
      if j = i then some { client with phase := phase } else clients[j]? := by
  have inList : i < clients.length := (List.getElem?_eq_some_iff.mp here).1
  rw [setPhase, List.getElem?_set]
  by_cases same : j = i
  · simp [same, inList]
  · simp [same, Ne.symm same]

theorem blockOf_array (array array' : Option (Nat × Nat)) :
    blockOf queue devices array' clients =
      Function.update (blockOf queue devices array clients) .array array' := by
  funext part
  cases part <;> rfl

theorem blockOf_setPhase (here : clients[i]? = some client) (active : client.phase ≠ .destroyed)
    {phase : Phase} (remains : phase ≠ .destroyed) :
    blockOf queue devices array (setPhase clients i client phase) =
      blockOf queue devices array clients := by
  funext part
  cases part with
  | record j =>
    by_cases same : j = i
    · subst same
      simp only [blockOf, setPhase_getElem here, if_true, here, Option.bind_some, Client.record,
        active, remains, if_false]
    · simp only [blockOf, setPhase_getElem here, same, if_false]
  | ccws j =>
    by_cases same : j = i
    · subst same
      simp only [blockOf, setPhase_getElem here, if_true, here, Option.bind_some, Client.ccws,
        active, remains, if_false]
    · simp only [blockOf, setPhase_getElem here, same, if_false]
  | _ => rfl

theorem blockOf_destroyed (here : clients[i]? = some client) :
    blockOf queue devices array (setPhase clients i client .destroyed) =
      Function.update (Function.update (blockOf queue devices array clients) (.ccws i) none)
        (.record i) none := by
  funext part
  cases part with
  | record j =>
    by_cases same : j = i
    · subst same
      rw [Function.update_self]
      simp only [blockOf, setPhase_getElem here, if_true, Option.bind_some, Client.record]
    · rw [Function.update_of_ne (by simpa using same), Function.update_of_ne (by simp)]
      simp only [blockOf, setPhase_getElem here, same, if_false]
  | ccws j =>
    rw [Function.update_of_ne (by simp)]
    by_cases same : j = i
    · subst same
      rw [Function.update_self]
      simp only [blockOf, setPhase_getElem here, if_true, Option.bind_some, Client.ccws]
    · rw [Function.update_of_ne (by simpa using same)]
      simp only [blockOf, setPhase_getElem here, same, if_false]
  | _ => rfl

theorem blockOf_append (clients : List Client) (client : Client) :
    blockOf queue devices array (clients ++ [client]) =
      Function.update (Function.update (blockOf queue devices array clients)
        (.record clients.length) client.record) (.ccws clients.length) client.ccws := by
  have next : ∀ j, j ≠ clients.length → (clients ++ [client])[j]? = clients[j]? := fun j differ => by
    rcases Nat.lt_or_gt_of_ne differ with old | behind
    · exact List.getElem?_append_left old
    · rw [List.getElem?_eq_none (by simp; omega), List.getElem?_eq_none (by omega)]
  funext part
  cases part with
  | record j =>
    rw [Function.update_of_ne (by simp)]
    by_cases same : j = clients.length
    · subst same
      rw [Function.update_self]
      simp only [blockOf, List.getElem?_concat_length, Option.bind_some]
    · rw [Function.update_of_ne (by simpa using same)]
      simp only [blockOf, next j same]
  | ccws j =>
    by_cases same : j = clients.length
    · subst same
      rw [Function.update_self]
      simp only [blockOf, List.getElem?_concat_length, Option.bind_some]
    · rw [Function.update_of_ne (by simpa using same), Function.update_of_ne (by simp)]
      simp only [blockOf, next j same]
  | _ => rfl

/-- A client goes on to its next call. -/
theorem Holds.advance (holds : Holds queue devices h clients entries array)
    (here : clients[i]? = some client) (active : client.phase ≠ .destroyed) {phase : Phase}
    (remains : phase ≠ .destroyed) :
    Holds queue devices h (setPhase clients i client phase) entries array := by
  have found : ∀ {j : Nat} {c : Client}, (setPhase clients i client phase)[j]? = some c →
      ∃ c0, clients[j]? = some c0 ∧ (c.phase ≠ .destroyed → c0.phase ≠ .destroyed) ∧
        c0.request = c.request ∧ c0.program = c.program := fun {j c} at0 => by
    rw [setPhase_getElem here] at at0
    by_cases same : j = i
    · subst same
      rw [if_pos rfl] at at0
      cases at0
      exact ⟨client, here, fun _ => active, rfl, rfl⟩
    · rw [if_neg same] at at0
      exact ⟨c, at0, id, rfl, rfl⟩
  refine ⟨?_, holds.pointer, holds.count, holds.enough, ?_, ?_⟩
  · rw [blockOf_setPhase here active remains]
    exact holds.owns
  · intro j c at0 stays
    obtain ⟨c0, old, wasActive, request, program⟩ := found at0
    rw [← request, ← program]
    exact holds.content old (wasActive stays)
  · intro k j at0
    obtain ⟨known, notNone, same⟩ := holds.entry at0
    refine ⟨by rw [setPhase, List.length_set]; exact known, notNone, ?_⟩
    intro c b atJ stays some
    obtain ⟨c0, old, wasActive, request, -⟩ := found atJ
    rw [← request]
    exact same old (wasActive stays) some

/-- A client's request and its program are returned. -/
theorem Holds.destroyed (holds : Holds queue devices h clients entries array)
    (here : clients[i]? = some client) (active : client.phase ≠ .destroyed) :
    Holds queue devices ⟨h.storage, (h.live.filter fun x => x.1 ≠ client.program.ccws).filter
      fun x => x.1 ≠ client.request⟩ (setPhase clients i client .destroyed) entries array := by
  have record : Function.update (blockOf queue devices array clients) (.ccws i) none (.record i) =
      some (client.request, 16) := by
    rw [Function.update_of_ne (by simp)]
    exact record_of here active
  have found : ∀ {j : Nat} {c : Client}, (setPhase clients i client .destroyed)[j]? = some c →
      c.phase ≠ .destroyed → clients[j]? = some c := fun {j c} at0 stays => by
    rw [setPhase_getElem here] at at0
    by_cases same : j = i
    · rw [if_pos same] at at0
      cases at0
      exact absurd rfl stays
    · rwa [if_neg same] at at0
  refine ⟨?_, holds.pointer, holds.count, holds.enough, fun at0 stays =>
    holds.content (found at0 stays) stays, ?_⟩
  · rw [blockOf_destroyed here]
    exact (holds.owns.free (ccws_of here active)).free record
  · intro k j at0
    obtain ⟨known, notNone, same⟩ := holds.entry at0
    refine ⟨by rw [setPhase, List.length_set]; exact known, notNone, ?_⟩
    exact fun atJ stays some => same (found atJ stays) stays some

theorem cssDestroyRequest_eq (holds : Holds queue devices h clients entries array)
    (here : clients[i]? = some client) (active : client.phase ≠ .destroyed) :
    cssDestroyRequest h client.request =
      .ok ⟨h.storage, (h.live.filter fun x => x.1 ≠ client.program.ccws).filter
        fun x => x.1 ≠ client.request⟩ := by
  have ccws : word h.storage client.request = client.program.ccws :=
    congrArg Program.ccws (holds.content here active).1
  have ccwsLive := holds.owns.held (ccws_of here active)
  have recordLive := holds.owns.held (record_of here active)
  have owns := holds.owns.free (ccws_of here active)
  have differ : client.request ≠ client.program.ccws := fun same => by
    have part := holds.owns.single (record_of here active) (ccws_of here active) same
    cases part
  have stays : (client.request, 16) ∈ h.live.filter fun x => x.1 ≠ client.program.ccws :=
    List.mem_filter.mpr ⟨recordLive, decide_eq_true differ⟩
  rw [cssDestroyRequest, ccws, mmFree_of_mem holds.owns.sane ccwsLive, Outcome.ok_bind,
    mmFree_of_mem owns.sane stays]

/-- The answers are NULL or fresh blocks. -/
def SuppliedNew (h : Heap) (answers : Answers) (nCcws : UInt32) : Prop :=
  answers.record = 0 ∨ h.Fresh (answers.record, 16) ∧
    (u32 (nCcws.toNat * 8) = 0 ∨ answers.ccws = 0 ∨
      (h.hold (answers.record, 16)).Fresh (answers.ccws, u32 (nCcws.toNat * 8)))

/-- The storage of a request that was created and filled in. -/
structure Prepared (h : Heap) (m : Storage) (req ccws dev n : Nat) : Prop where
  freshRecord : h.Fresh (req, 16)
  freshCcws : (h.hold (req, 16)).Fresh (ccws, u32 (n * 8))
  kept : ∀ x, h.Held x → m x = h.storage x
  pointer : word m req = ccws
  device : word m (req + 4) = dev
  length : word m (req + 8) = n

theorem Holds.added (holds : Holds queue devices h clients entries array) {m : Storage}
    {req ccws dev n : Nat} (prepared : Prepared h m req ccws dev n) (known : dev ∈ devices) :
    Holds queue devices ⟨m, (ccws, u32 (n * 8)) :: (req, 16) :: h.live⟩
      (clients ++ [⟨req, .prepared, programAt m req⟩]) entries array := by
  have kept : ∀ {part b}, blockOf queue devices array clients part = some b → ∀ x, b.1 ≤ x →
      x < b.1 + b.2 → m x = h.storage x := fun found x lo hi =>
    prepared.kept x ⟨_, holds.owns.held found, lo, hi⟩
  have words : ∀ o, o + 4 ≤ 8 → word m (queue + o) = word h.storage (queue + o) := fun o ho => by
    have block : blockOf queue devices array clients .queue = some (queue, 8) := rfl
    exact word_congr fun j hj => kept block _ (by omega) (by simp only; omega)
  -- the clients so far keep their requests in the larger heap
  have before : Holds queue devices { h with storage := m } clients entries array :=
    holds.write (List.prefix_refl entries) (fun found _ => kept found) (words 0 (by decide))
      ((words 4 (by decide)).trans holds.count)
  have freshRecord : Heap.Fresh ⟨m, h.live⟩ (req, 16) := prepared.freshRecord
  have freshCcws : Heap.Fresh (Heap.hold ⟨m, h.live⟩ (req, 16)) (ccws, u32 (n * 8)) :=
    prepared.freshCcws
  refine ⟨?_, before.pointer, before.count, before.enough, ?_, ?_⟩
  · have record : Client.record ⟨req, .prepared, programAt m req⟩ = some (req, 16) := rfl
    have program : Client.ccws ⟨req, .prepared, programAt m req⟩ = some (ccws, u32 (n * 8)) := by
      simp [Client.ccws, programAt, prepared.pointer, prepared.length]
    rw [blockOf_append, record, program]
    exact (before.owns.hold freshRecord).hold freshCcws
  · intro j c at0 active
    rcases found_concat at0 with old | ⟨-, rfl⟩
    · exact before.content old active
    · exact ⟨rfl, by rw [programAt, prepared.device]; exact known⟩
  · intro j k at0
    obtain ⟨inList, notNone, same⟩ := before.entry at0
    refine ⟨by rw [List.length_append]; omega, notNone, ?_⟩
    intro c b atK active some
    rw [List.getElem?_append_left inList] at atK
    exact same atK active some

theorem prepared_stores {req ccws dev n : Nat} (freshRecord : h.Fresh (req, 16))
    (freshCcws : (h.hold (req, 16)).Fresh (ccws, u32 (n * 8))) (rangeN : n < 4294967296)
    (rangeDev : dev < 4294967296) :
    Prepared h ((((((h.storage.fill req 0 16).setWord (req + 8) n).setWord req ccws).fill ccws 0
      (u32 (n * 8))).setWord (req + 4) dev)) req ccws dev n := by
  have apart := freshCcws.2 (req, 16) List.mem_cons_self
  have range := freshCcws.1
  simp only [Heap.Apart, Heap.Proper] at apart range
  refine ⟨freshRecord, freshCcws, ?_, ?_, ?_, ?_⟩
  · intro x inUse
    have offRecord := freshRecord.not_held inUse
    have offCcws := freshCcws.not_held (inUse.hold (b := (req, 16)))
    simp only at offRecord offCcws
    rw [setWord_outside _ (by omega), fill_outside _ offCcws, setWord_outside _ (by omega),
      setWord_outside _ (by omega), fill_outside _ offRecord]
  · rw [word_setWord_other _ (by omega), word_fill_other _ (by omega)]
    exact word_setWord _ _ (by omega)
  · exact word_setWord _ _ rangeDev
  · rw [word_setWord_other _ (by omega), word_fill_other _ (by omega),
      word_setWord_other _ (by omega)]
    exact word_setWord _ _ rangeN

theorem cssNewRequest_prepared (h : Heap) {answers : Answers} {dev nCcws : UInt32}
    (supplied : SuppliedNew h answers nCcws) :
    Outcome.Sound (fun r => r.1 = answers.record ∧
        r.2.live = (answers.ccws, u32 (nCcws.toNat * 8)) :: (answers.record, 16) :: h.live ∧
        Prepared h r.2.storage answers.record answers.ccws dev.toNat nCcws.toNat)
      (cssNewRequest h answers dev nCcws) := by
  refine (mmAllocateZero_sound _ _ _).bind ?_
  rintro _ ⟨notNull, -, rfl⟩
  obtain ⟨freshRecord, suppliedCcws⟩ := supplied.resolve_left notNull
  refine (Outcome.sound_check _).bind fun _ _ => ?_
  have size : u32 (word ((h.storage.fill answers.record 0 16).setWord (answers.record + 8)
      nCcws.toNat) (answers.record + 8) * 8) = u32 (nCcws.toNat * 8) := by
    rw [word_setWord _ _ nCcws.toNat_lt]
  dsimp only
  rw [size]
  refine (mmAllocatePhysical_sound _ _ _).bind ?_
  rintro ⟨_, after⟩ ⟨someSize, rfl, held⟩
  refine (Outcome.sound_check _).bind fun _ notNull' => ?_
  have freshCcws := (suppliedCcws.resolve_left someSize).resolve_left notNull'
  have same : after = _ := held notNull'
  subst same
  exact ⟨rfl, rfl, prepared_stores freshRecord freshCcws nCcws.toNat_lt dev.toNat_lt⟩

/-- The client's stores keep the request prepared. -/
theorem Prepared.fillIn {m : Storage} {req ccws dev n : Nat} (prepared : Prepared h m req ccws dev n)
    (flags : UInt32) {words : List UInt8} (fits : words.length ≤ u32 (n * 8)) :
    Prepared h ((m.setWord (req + 12) flags.toNat).store ccws words) req ccws dev n := by
  obtain ⟨freshRecord, freshCcws, kept, pointer, device, length⟩ := prepared
  have apart := freshCcws.2 (req, 16) List.mem_cons_self
  simp only [Heap.Apart] at apart
  have field : ∀ o, o + 4 ≤ 12 → word ((m.setWord (req + 12) flags.toNat).store ccws words)
      (req + o) = word m (req + o) := fun o ho => word_congr fun j hj => by
    rw [store_outside _ (by omega), setWord_outside _ (by omega)]
  refine ⟨freshRecord, freshCcws, ?_, (field 0 (by decide)).trans pointer,
    (field 4 (by decide)).trans device, (field 8 (by decide)).trans length⟩
  intro x inUse
  have offRecord := freshRecord.not_held inUse
  have offCcws := freshCcws.not_held (inUse.hold (b := (req, 16)))
  simp only at offRecord offCcws
  rw [store_outside _ (by omega), setWord_outside _ (by omega)]
  exact kept x inUse

/-- The request is what its client filled in. -/
structure Filled (p : Program) (answers : Answers) (dev nCcws flags : UInt32) : Prop where
  ccws : p.ccws = answers.ccws
  dev : p.dev = dev.toNat
  nCcws : p.nCcws = nCcws.toNat
  flags : p.flags = flags.toNat

theorem cssNewRequest_holds (holds : Holds queue devices h clients entries array)
    {dev nCcws : UInt32} (flags : UInt32) {words : List UInt8} {answers : Answers}
    (supplied : SuppliedNew h answers nCcws) (known : dev.toNat ∈ devices)
    (fits : words.length ≤ u32 (nCcws.toNat * 8)) :
    Outcome.Sound (fun r =>
        Holds queue devices (fillIn r.2 r.1 flags words)
          (clients ++ [⟨r.1, .prepared, programAt (fillIn r.2 r.1 flags words).storage r.1⟩])
          entries array ∧
        Filled (programAt (fillIn r.2 r.1 flags words).storage r.1) answers dev nCcws flags)
      (cssNewRequest h answers dev nCcws) := by
  refine (cssNewRequest_prepared h supplied).mono ?_
  rintro ⟨_, ⟨m, live⟩⟩ ⟨rfl, same, prepared⟩
  cases same
  have pointer : word (m.setWord (answers.record + 12) flags.toNat) answers.record =
      answers.ccws := (word_setWord_other _ (by omega)).trans prepared.pointer
  have filled := prepared.fillIn flags fits
  have apart := prepared.freshCcws.2 (answers.record, 16) List.mem_cons_self
  simp only [Heap.Apart] at apart
  have mode : word ((m.setWord (answers.record + 12) flags.toNat).store answers.ccws words)
      (answers.record + 12) = flags.toNat :=
    (word_congr fun j hj => store_outside _ (by omega)).trans (word_setWord _ _ flags.toNat_lt)
  simp only [CssClients.fillIn, pointer]
  exact ⟨holds.added filled known, filled.pointer, filled.device, filled.length, mode⟩

/-- The room of the array, 0 when there is none. -/
def room (array : Option (Nat × Nat)) : Nat := (array.map Prod.snd).getD 0

theorem Holds.array_block (holds : Holds queue devices h clients entries array) :
    (word h.storage queue = 0 ∨ (word h.storage queue, room array) ∈ h.live) ∧
      (word h.storage queue ≠ 0 → entries.length * 16 ≤ room array) := by
  rw [holds.pointer]
  cases some : array with
  | none => exact ⟨Or.inl rfl, fun other => absurd rfl other⟩
  | some b =>
    have block : blockOf queue devices array clients .array = Option.some b := some
    exact ⟨Or.inr (holds.owns.held block), fun _ => holds.enough b some⟩

/-- The queue without an array: its elements are lost. -/
theorem Holds.lost (holds : Holds queue devices h clients entries array) :
    Holds queue devices ⟨h.storage.setWord queue 0, h.live⟩ clients (entries.map fun _ => none)
      none := by
  have queueBlock : blockOf queue devices array clients .queue = some (queue, 8) := rfl
  have programs : ∀ {i : Nat} {c : Client}, clients[i]? = some c → c.phase ≠ .destroyed → _ :=
    holds.programs_kept (m := h.storage.setWord queue 0) fun {part b} found ofClient x lo hi => by
      have differ : part ≠ .queue := by
        rintro rfl
        exact ofClient
      have apart := holds.owns.apart found queueBlock differ
      simp only [Heap.Apart] at apart
      exact setWord_outside _ (by omega)
  refine ⟨?_, word_setWord _ _ (by decide), ?_, fun _ none => (Option.some_ne_none _ none.symm).elim,
    ?_, ?_⟩
  · refine (holds.owns.weaken fun {part b} found => ?_).write _
    cases part with
    | array => cases found
    | _ => exact found
  · rw [List.length_map]
    exact (word_setWord_other _ (by omega)).trans holds.count
  · exact fun here active => ⟨(programs here active).1, (holds.content here active).2⟩
  · intro j k found
    rw [List.getElem?_map] at found
    cases some : entries[j]? with
    | none =>
      rw [some] at found
      cases found
    | some e =>
      rw [some] at found
      cases found

/-- A larger array with the old elements and a copy of a client's request. -/
theorem Holds.extended (holds : Holds queue devices h clients entries array) {h' : Heap}
    {answer : Nat} (here : clients[i]? = some client) (active : client.phase ≠ .destroyed)
    (extended : Extended h h' queue (word h.storage queue) entries.length 16 answer
      fun j => h.storage (client.request + j)) :
    Holds queue devices h' clients (entries ++ [some i])
      (some (answer, (entries.length + 1) * 16)) := by
  have queueBlock : blockOf queue devices array clients .queue = some (queue, 8) := rfl
  have kept : ∀ {part b}, blockOf queue devices array clients part = some b → part.OfClient →
      ∀ x, b.1 ≤ x → x < b.1 + b.2 → h'.storage x = h.storage x := by
    intro part b found ofClient x lo hi
    have differ : part ≠ .queue := by
      rintro rfl
      exact ofClient
    have apart := holds.owns.apart found queueBlock differ
    simp only [Heap.Apart] at apart
    exact extended.kept x ⟨b, holds.owns.held found, lo, hi⟩ (by omega)
  have programs : ∀ {i : Nat} {c : Client}, clients[i]? = some c → c.phase ≠ .destroyed → _ :=
    holds.programs_kept kept
  refine ⟨?_, extended.pointer, by rw [List.length_append]; exact extended.count, ?_, ?_, ?_⟩
  · rw [blockOf_array array]
    refine holds.owns.replace extended.sane extended.fresh
      ((extended.live _).mpr (Or.inl rfl)) fun {part b} found differ => ?_
    refine extended.stays holds.owns.sane (holds.owns.held found) fun some same => differ ?_
    rw [holds.pointer] at some same
    cases isArray : array with
    | none =>
      rw [isArray] at some
      exact absurd rfl some
    | some b' =>
      have block : blockOf queue devices array clients .array = Option.some b' := isArray
      rw [isArray] at same
      exact (holds.owns.single block found same).symm
  · rintro b ⟨⟩
    rw [List.length_append]
    exact Nat.le_refl _
  · exact fun here active => ⟨(programs here active).1, (holds.content here active).2⟩
  · intro j k found
    rcases found_concat found with old | ⟨rfl, ⟨⟩⟩
    · have inList := (List.getElem?_eq_some_iff.mp old).1
      obtain ⟨known, notNone, same⟩ := holds.entry old
      refine ⟨known, by simp, ?_⟩
      rintro c _ atK stays ⟨⟩ o ho
      obtain ⟨b, isArray⟩ := Option.ne_none_iff_exists'.mp notNone
      have pointer : word h.storage queue = b.1 := by rw [holds.pointer, isArray]; rfl
      have block : blockOf queue devices array clients .array = some b := isArray
      have positive := (holds.owns.sane.proper b (holds.owns.held block)).1
      have row := extended.rows (by omega) (j * 16 + o) (by omega)
      rw [pointer, ← Nat.add_assoc, ← Nat.add_assoc] at row
      exact row.trans ((same atK stays isArray o ho).trans ((programs atK stays).2 o ho).symm)
    · refine ⟨(List.getElem?_eq_some_iff.mp here).1, by simp, ?_⟩
      rintro c _ atI stays ⟨⟩ o ho
      rw [here] at atI
      cases atI
      exact (extended.row o ho).trans ((programs here active).2 o ho).symm

/-- The array of the queue after that. -/
def arraySent (entries : List (Option Nat)) (answer : Nat) : Option (Nat × Nat) :=
  if answer = 0 then none else some (answer, (entries.length + 1) * 16)

/-- `CssSendRequest` adds a copy of the request, or loses the array. -/
theorem cssSendRequest_answered (holds : Holds queue devices h clients entries array)
    (here : clients[i]? = some client) (active : client.phase ≠ .destroyed) {answer : Nat}
    (answered : answer = 0 ∨
      Keeping h answer (word h.storage queue) ((word h.storage (queue + 4) + 1) * 16)) :
    Outcome.Sound (fun h' => Holds queue devices h' clients (entriesSent entries i answer)
      (arraySent entries answer)) (cssSendRequest debug queue h client.request answer) := by
  have queueLive : (queue, 8) ∈ h.live :=
    holds.owns.held (show blockOf queue devices array clients .queue = _ from rfl)
  have recordLive := holds.owns.held (record_of here active)
  rw [holds.count] at answered
  obtain ⟨block, enough⟩ := holds.array_block
  refine (growArray_answered holds.owns.sane rfl holds.count block enough
    ⟨_, queueLive, Nat.le_refl _, by simp only; omega⟩ answered).bind ?_
  rintro ⟨ptr, h1⟩ ⟨same, null, grew⟩
  obtain rfl : answer = ptr := same.symm
  by_cases failed : answer = 0
  · have lost : h1 = _ := null failed
    subst lost
    simp only [failed, if_true, entriesSent, arraySent]
    exact holds.lost
  · obtain ⟨grown, rows⟩ := grew failed
    simp only [failed, if_false, entriesSent, arraySent]
    have count : word h1.storage (queue + 4) = entries.length :=
      (grown.word_kept queueLive (by simp only; omega) (by simp only; omega) (by omega)).trans
        holds.count
    have range := grown.fresh.1
    have apartRecord := grown.fresh.2 _ recordLive
    have apartQueue := grown.fresh.2 _ queueLive
    simp only [Heap.Proper, Heap.Apart] at range apartRecord apartQueue
    have row : u32 (answer + entries.length * 16) = answer + entries.length * 16 :=
      u32_eq_self (by omega)
    rw [count, row]
    refine (keCopyMemory_sound _ _ _ _ _).bind ?_
    rintro _ rfl
    have kept : word (h1.storage.copyUp (answer + entries.length * 16) client.request 16)
        (queue + 4) = entries.length :=
      (word_congr fun j hj => copyUp_outside _ (by omega)).trans count
    have next : u32 (entries.length + 1) = entries.length + 1 := u32_eq_self (by omega)
    dsimp only
    rw [kept, next]
    have counted := grown.counted ⟨_, queueLive, Nat.le_refl _, Nat.le_refl _⟩
      (m := (h1.storage.copyUp (answer + entries.length * 16) client.request 16).setWord
        (queue + 4) (entries.length + 1)) (n := entries.length + 1) (by omega) fun x outside =>
        setWord_congr (copyUp_outside _ (by omega))
    refine holds.extended here active ⟨counted, ?_, ?_⟩
    · intro some o ho
      refine (setWord_outside _ (by omega)).trans ?_
      exact (copyUp_outside _ (by omega)).trans (rows some o ho)
    · intro o ho
      refine (setWord_outside _ (by omega)).trans ?_
      refine (copyUp_inside _ (by omega) ho).trans ?_
      have apart : client.request + 16 ≤ queue ∨ queue + 8 ≤ client.request := by
        have apart := holds.owns.apart (record_of here active)
          (show blockOf queue devices array clients .queue = some (queue, 8) from rfl) (by simp)
        exact apart
      exact grown.kept _ ⟨_, recordLive, by simp only; omega, by simp only; omega⟩ (by omega)

theorem cssSendRequest_holds (holds : Holds queue devices h clients entries array)
    (here : clients[i]? = some client) (active : client.phase ≠ .destroyed) {answer : Nat}
    (placed : Placed h answer (word h.storage queue) ((word h.storage (queue + 4) + 1) * 16)) :
    Outcome.Sound (fun h' => ∃ array', Holds queue devices h' clients (entriesSent entries i answer)
      array') (cssSendRequest debug queue h client.request answer) :=
  (cssSendRequest_answered holds here active placed.keeping).mono fun _ sent => ⟨_, sent⟩

/-- The device and the prefixed storage area have the only bytes that the channel changes. -/
theorem cleared_outside (holds : Holds queue devices h clients entries array)
    (here : clients[i]? = some client) (active : client.phase ≠ .destroyed) {m : Storage}
    (changed : OutsideDevice client.program.dev (clearDevice h.storage client.request) m)
    {part : Part} {b : Nat × Nat} (found : blockOf queue devices array clients part = some b)
    (notDevice : part ≠ .device client.program.dev) (notPsa : part ≠ .psa) {x : Nat}
    (lo : b.1 ≤ x) (hi : x < b.1 + b.2) : m x = h.storage x := by
  obtain ⟨content, known⟩ := holds.content here active
  have device : word h.storage (client.request + 4) = client.program.dev :=
    congrArg Program.dev content
  have deviceBlock : blockOf queue devices array clients (.device client.program.dev) =
      some (client.program.dev, 192) := if_pos known
  have psaBlock : blockOf queue devices array clients .psa = some (psaCcaw, 4) := rfl
  have offDevice := holds.owns.apart found deviceBlock notDevice
  have offPsa := holds.owns.apart found psaBlock notPsa
  simp only [Heap.Apart] at offDevice offPsa
  refine (changed x (by omega)).trans ?_
  exact clearDevice_outside h.storage (by omega) (by omega)

/-- `CssPerformRequest` of a client whose request is at the end of the queue. -/
theorem cssPerformRequest_holds (holds : Holds queue devices h clients entries array)
    (here : clients[i]? = some client) (active : client.phase ≠ .destroyed) {io : Script}
    (own : entries.getLast? = some (some i))
    (ends : client.program.flags &&& requestWaitAttention ≠ 0 →
      Ends client.program.flags io.test.deviceStatus io.attention) :
    Outcome.Sound (fun d => Holds queue devices d.heap clients (entriesPerformed entries d.result)
        array ∧ d.started = (if Ready client.program io then some client.program else none) ∧
        (d.result = 0 ↔ Accepted client.program io))
      (cssPerformRequest debug queue h client.request io) := by
  rw [List.getLast?_eq_getElem?] at own
  have some := (List.getElem?_eq_some_iff.mp own).1
  obtain ⟨-, notNone, same⟩ := holds.entry own
  obtain ⟨b, isArray⟩ := Option.ne_none_iff_exists'.mp notNone
  have pointer : word h.storage queue = b.1 := by
    rw [holds.pointer, isArray]
    rfl
  have arrayBlock : blockOf queue devices array clients .array = Option.some b := isArray
  have range := holds.owns.sane.proper b (holds.owns.held arrayBlock)
  have enough := holds.enough b isArray
  simp only [Heap.Proper] at range
  have row : u32 (b.1 + (entries.length - 1) * 16) = b.1 + (entries.length - 1) * 16 :=
    u32_eq_self (by omega)
  have queueBlock : blockOf queue devices array clients .queue = Option.some (queue, 8) := rfl
  have notEmpty : entries.length ≠ 0 := by omega
  rw [cssPerformRequest]
  simp only [holds.count, pointer, row, notEmpty, if_false]
  refine (keCopyMemory_sound _ _ _ _ _).bind ?_
  rintro _ rfl
  -- the copy at the end of the array is the client's request
  have copied : h.storage.copyUp client.request (b.1 + (entries.length - 1) * 16) 16 = h.storage :=
    copyUp_same h.storage (same here active isArray)
  rw [copied]
  have stable : ∀ m, OutsideDevice client.program.dev (clearDevice h.storage client.request) m →
      programAt m client.request = client.program := fun m changed =>
    (holds.programs_kept (fun {part b} found ofClient x lo hi =>
      cleared_outside holds here active changed found (by rintro rfl; exact ofClient)
        (by rintro rfl; exact ofClient) lo hi) here active).1
  refine (runChannel_sound stable ends).bind ?_
  rintro ⟨m, started, finished⟩ ⟨outside, rfl, ran⟩
  have kept : ∀ {part b}, blockOf queue devices array clients part = Option.some b →
      part.OfClient ∨ part = .array ∨ part = .queue → ∀ x, b.1 ≤ x → x < b.1 + b.2 →
        m x = h.storage x := fun {part b} found which x lo hi =>
    cleared_outside holds here active outside found
      (by rintro rfl; rcases which with no | no | no <;> cases no)
      (by rintro rfl; rcases which with no | no | no <;> cases no) lo hi
  have words : ∀ o, o + 4 ≤ 8 → word m (queue + o) = word h.storage (queue + o) := fun o ho =>
    word_congr fun j hj => kept queueBlock (Or.inr (Or.inr rfl)) _ (by simp only; omega)
      (by simp only; omega)
  have count : word m (queue + 4) = entries.length := (words 4 (by decide)).trans holds.count
  by_cases complete : finished = true
  · have less : u32 (entries.length + 4294967295) = entries.length - 1 := by
      have few := word_lt h.storage (queue + 4)
      rw [holds.count] at few
      exact u32_pred (Nat.pos_of_ne_zero notEmpty) few
    simp only [complete, if_true, count, less]
    refine ⟨?_, rfl, fun _ => ran.mp complete, fun _ => rfl⟩
    simp only [entriesPerformed, if_true]
    refine holds.write (List.dropLast_prefix entries) ?_ ?_ ?_
    · intro part b found which x lo hi
      have differ : part ≠ .queue := by
        rintro rfl
        rcases which with no | no <;> cases no
      have apart := holds.owns.apart found queueBlock differ
      simp only [Heap.Apart] at apart
      refine (setWord_outside _ (by omega)).trans ?_
      exact kept found (which.imp_right Or.inl) x lo hi
    · exact (word_setWord_other _ (by omega)).trans (words 0 (by decide))
    · rw [List.length_dropLast]
      exact word_setWord _ _ (by omega)
  · simp only [complete]
    refine ⟨?_, rfl, fun zero => absurd zero (show (-1 : Int) ≠ 0 by decide),
      fun accepted => absurd (ran.mpr accepted) complete⟩
    exact holds.write (List.prefix_refl entries)
      (fun found which => kept found (which.imp_right Or.inl)) (words 0 (by decide)) count

/-- Every client makes its calls in order, for a device that is known, and the
device does not let it wait for ever. -/
def Allowed (devices : List Nat) (s : State) : Op → Prop
  | .new dev nCcws _ words _ => dev.toNat ∈ devices ∧ words.length ≤ u32 (nCcws.toNat * 8)
  | .send i _ => ∀ c ∈ s.clients[i]?, c.phase = .prepared
  | .perform i io => ∀ c ∈ s.clients[i]?, c.phase = .sent ∧
      (c.program.flags &&& requestWaitAttention ≠ 0 →
        Ends c.program.flags io.test.deviceStatus io.attention)
  | .destroy i => ∀ c ∈ s.clients[i]?, c.phase = .performed

/-- The allocations are answered with NULL or fresh blocks. -/
def Supplied (queue : Nat) (s : State) : Op → Prop
  | .new _ nCcws _ _ answers => SuppliedNew s.heap answers nCcws
  | .send _ answer =>
    Placed s.heap answer (word s.heap.storage queue) ((word s.heap.storage (queue + 4) + 1) * 16)
  | _ => True

/-- At the end of the queue is the request of the client that performs one. -/
def OwnEntry (s : State) : Op → Prop
  | .perform i _ => ∀ _c ∈ s.clients[i]?, s.entries.getLast? = some (some i)
  | _ => True

def Clear (queue : Nat) (devices : List Nat) (s : State) (op : Op) : Prop :=
  (Allowed devices s op ∧ Supplied queue s op) ∧ OwnEntry s op

/-- The invariant of a run: the log is about the clients as they are. -/
structure Running (queue : Nat) (devices : List Nat) (s : State) : Prop where
  holds : ∃ array, Holds queue devices s.heap s.clients s.entries array
  sent : ∀ {i : Nat} {c : Client}, s.clients[i]? = some c → c.phase = .sent →
    (i, c.program) ∈ s.sent
  performed : ∀ e ∈ s.performed, ∃ p, (e.client, p) ∈ s.sent ∧
    e.started = if Ready p e.io then some p else none
  returned : ∀ e ∈ s.returned, ∃ c, s.clients[e.1]? = some c ∧ c.phase = .destroyed ∧
    c.program.ccws = e.2
  once : (s.returned.map Prod.fst).Nodup

theorem Running.notMixed {s : State} (running : Running queue devices s) : NotMixed s :=
  ⟨running.performed, fun e member => by
    obtain ⟨c, here, -, same⟩ := running.returned e member
    exact ⟨c, here, same⟩, running.once⟩

/-- The clients that returned their requests stay as they are when one that has
not does its next call. -/
theorem returned_setPhase {returned : List (Nat × Nat)} (here : clients[i]? = some client)
    (active : client.phase ≠ .destroyed) (phase : Phase)
    (known : ∀ e ∈ returned, ∃ c, clients[e.1]? = some c ∧ c.phase = .destroyed ∧
      c.program.ccws = e.2) :
    ∀ e ∈ returned, ∃ c, (setPhase clients i client phase)[e.1]? = some c ∧
      c.phase = .destroyed ∧ c.program.ccws = e.2 := fun e member => by
  obtain ⟨c, found, gone, same⟩ := known e member
  refine ⟨c, ?_, gone, same⟩
  rw [setPhase_getElem here, if_neg]
  · exact found
  · intro own
    rw [own, here] at found
    cases found
    exact active gone

/-- The other clients' phases are kept. -/
theorem sent_setPhase {sent : List (Nat × Program)} (here : clients[i]? = some client)
    {phase : Phase} (own : phase = .sent → (i, client.program) ∈ sent)
    (known : ∀ {j : Nat} {c : Client}, clients[j]? = some c → c.phase = .sent →
      (j, c.program) ∈ sent) {j : Nat} {c : Client}
    (found : (setPhase clients i client phase)[j]? = some c) (isSent : c.phase = .sent) :
    (j, c.program) ∈ sent := by
  rw [setPhase_getElem here] at found
  by_cases same : j = i
  · rw [if_pos same] at found
    cases found
    rw [same]
    exact own isSent
  · rw [if_neg same] at found
    exact known found isSent

theorem step_new {s : State} (running : Running queue devices s) {dev nCcws flags : UInt32}
    {words : List UInt8} {answers : Answers}
    (clear : Clear queue devices s (.new dev nCcws flags words answers)) :
    Outcome.Sound (Running queue devices) (step debug queue s (.new dev nCcws flags words answers)) := by
  obtain ⟨array, holds⟩ := running.holds
  obtain ⟨⟨⟨known, fits⟩, supplied⟩, -⟩ := clear
  rw [step]
  refine (cssNewRequest_holds holds flags supplied known fits).bind ?_
  rintro ⟨req, h⟩ ⟨kept, -⟩
  refine ⟨⟨array, kept⟩, ?_, running.performed, ?_, running.once⟩
  · intro j c found isSent
    rcases found_concat found with old | ⟨-, rfl⟩
    · exact running.sent old isSent
    · cases isSent
  · intro e member
    obtain ⟨c, found, gone⟩ := running.returned e member
    have inList := (List.getElem?_eq_some_iff.mp found).1
    exact ⟨c, (List.getElem?_append_left inList).trans found, gone⟩

theorem step_send {s : State} (running : Running queue devices s) {answer : Nat}
    (clear : Clear queue devices s (.send i answer)) :
    Outcome.Sound (Running queue devices) (step debug queue s (.send i answer)) := by
  obtain ⟨array, holds⟩ := running.holds
  obtain ⟨⟨allowed, supplied⟩, -⟩ := clear
  rw [step]
  cases here : s.clients[i]? with
  | none => exact running
  | some client =>
    have prepared := allowed client here
    have active : client.phase ≠ .destroyed := by simp [prepared]
    refine (cssSendRequest_holds holds here active supplied).bind ?_
    rintro h ⟨array', kept⟩
    rw [(holds.content here active).1]
    refine ⟨⟨array', kept.advance here active (by decide)⟩, ?_, ?_,
      returned_setPhase here active .sent running.returned, running.once⟩
    · exact sent_setPhase here
        (fun _ => List.mem_append_right s.sent List.mem_cons_self)
        fun found isSent => List.mem_append_left _ (running.sent found isSent)
    · intro e member
      obtain ⟨p, sent, started⟩ := running.performed e member
      exact ⟨p, List.mem_append_left _ sent, started⟩

theorem step_perform {s : State} (running : Running queue devices s) {io : Script}
    (clear : Clear queue devices s (.perform i io)) :
    Outcome.Sound (Running queue devices) (step debug queue s (.perform i io)) := by
  obtain ⟨array, holds⟩ := running.holds
  obtain ⟨⟨allowed, -⟩, own⟩ := clear
  rw [step]
  cases here : s.clients[i]? with
  | none => exact running
  | some client =>
    obtain ⟨isSent, ends⟩ := allowed client here
    have active : client.phase ≠ .destroyed := by simp [isSent]
    refine (cssPerformRequest_holds holds here active (own client here) ends).bind ?_
    rintro ⟨result, h, _⟩ ⟨kept, rfl, -⟩
    refine ⟨⟨array, kept.advance here active (by decide)⟩, ?_, ?_,
      returned_setPhase here active .performed running.returned, running.once⟩
    · exact sent_setPhase here (fun no => by cases no) running.sent
    · intro e member
      rcases List.mem_append.mp member with old | new
      · exact running.performed e old
      · cases List.mem_singleton.mp new
        exact ⟨client.program, running.sent here isSent, rfl⟩

theorem step_destroy {s : State} (running : Running queue devices s)
    (clear : Clear queue devices s (.destroy i)) :
    Outcome.Sound (Running queue devices) (step debug queue s (.destroy i)) := by
  obtain ⟨array, holds⟩ := running.holds
  obtain ⟨⟨allowed, -⟩, -⟩ := clear
  rw [step]
  cases here : s.clients[i]? with
  | none => exact running
  | some client =>
    have performed := allowed client here
    have active : client.phase ≠ .destroyed := by simp [performed]
    have kept := holds.destroyed here active
    dsimp only
    rw [cssDestroyRequest_eq holds here active, Outcome.ok_bind]
    have ccws : word s.heap.storage client.request = client.program.ccws :=
      congrArg Program.ccws (holds.content here active).1
    rw [ccws]
    refine ⟨⟨array, kept⟩, sent_setPhase here (fun no => by cases no) running.sent,
      running.performed, ?_, ?_⟩
    · intro e member
      rcases List.mem_append.mp member with old | new
      · exact returned_setPhase here active .destroyed running.returned e old
      · cases List.mem_singleton.mp new
        have gone := (setPhase_getElem here .destroyed i).trans (if_pos rfl)
        exact ⟨{ client with phase := .destroyed }, gone, rfl, rfl⟩
    · rw [List.map_append, List.map_cons, List.map_nil]
      refine List.nodup_append.mpr ⟨running.once, List.nodup_singleton i, ?_⟩
      rintro j returned _ last rfl
      obtain ⟨e, member, rfl⟩ := List.mem_map.mp returned
      obtain ⟨c, found, gone, -⟩ := running.returned e member
      rw [List.mem_singleton.mp last, here] at found
      cases found
      exact active gone

theorem step_running {s : State} (running : Running queue devices s) (op : Op)
    (clear : Clear queue devices s op) :
    Outcome.Sound (Running queue devices) (step debug queue s op) := by
  cases op with
  | new dev nCcws flags words answers => exact step_new running clear
  | send i answer => exact step_send running clear
  | perform i io => exact step_perform running clear
  | destroy i => exact step_destroy running clear

/-- Before the first request. -/
def State.start (h : Heap) : State := ⟨h, [], [], [], [], []⟩

/-- Without clients and an array the static data and the devices have blocks. -/
theorem static_block {part : Part} {b : Nat × Nat}
    (found : blockOf queue devices none [] part = some b) :
    part = .queue ∧ b = (queue, 8) ∨ part = .psa ∧ b = (psaCcaw, 4) ∨
      ∃ dev ∈ devices, part = .device dev ∧ b = (dev, 192) := by
  cases part with
  | queue =>
    cases found
    exact Or.inl ⟨rfl, rfl⟩
  | psa =>
    cases found
    exact Or.inr (Or.inl ⟨rfl, rfl⟩)
  | device dev =>
    by_cases known : dev ∈ devices
    · rw [blockOf, if_pos known] at found
      exact Or.inr (Or.inr ⟨dev, known, rfl, (Option.some.inj found).symm⟩)
    · rw [blockOf, if_neg known] at found
      cases found
  | array => cases found
  | record j => cases found
  | ccws j => cases found

theorem start_holds (sane : h.Sane)
    (static : ∀ b ∈ (queue, 8) :: (psaCcaw, 4) :: devices.map fun dev => (dev, 192), b ∈ h.live)
    (distinct : queue ≠ psaCcaw ∧ queue ∉ devices ∧ psaCcaw ∉ devices)
    (cleared : word h.storage queue = 0 ∧ word h.storage (queue + 4) = 0) :
    Holds queue devices h [] [] none := by
  obtain ⟨psaApart, queueApart, devicesApart⟩ := distinct
  have owns : h.Owns (blockOf queue devices none []) := by
    refine ⟨sane, ?_, ?_⟩
    · intro part b found
      rcases static_block found with ⟨-, rfl⟩ | ⟨-, rfl⟩ | ⟨dev, known, -, rfl⟩
      · exact static _ List.mem_cons_self
      · exact static _ (List.mem_cons_of_mem _ List.mem_cons_self)
      · exact static _ (List.mem_cons_of_mem _ (List.mem_cons_of_mem _
          (List.mem_map_of_mem known)))
    · intro part part' b b' found found' same
      rcases static_block found with ⟨rfl, rfl⟩ | ⟨rfl, rfl⟩ | ⟨dev, known, rfl, rfl⟩ <;>
        rcases static_block found' with ⟨rfl, rfl⟩ | ⟨rfl, rfl⟩ | ⟨dev', known', rfl, rfl⟩ <;>
        grind
  exact ⟨owns, cleared.1, cleared.2, fun _ found => (Option.some_ne_none _ found.symm).elim,
    fun found _ => (Option.some_ne_none _ found.symm).elim,
    fun found => (Option.some_ne_none _ found.symm).elim⟩

theorem start_running (holds : Holds queue devices h [] [] none) :
    Running queue devices (State.start h) :=
  ⟨⟨none, holds⟩, fun found _ => (Option.some_ne_none _ found.symm).elim,
    fun _ member => (List.not_mem_nil member).elim,
    fun _ member => (List.not_mem_nil member).elim, List.nodup_nil⟩

variable (devices) in
/-- Requests are not mixed up in any run in which whoever performs a request has
the last one in the queue. -/
theorem requests_notMixed (sane : h.Sane)
    (static : ∀ b ∈ (queue, 8) :: (psaCcaw, 4) :: devices.map fun dev => (dev, 192), b ∈ h.live)
    (distinct : queue ≠ psaCcaw ∧ queue ∉ devices ∧ psaCcaw ∉ devices)
    (cleared : word h.storage queue = 0 ∧ word h.storage (queue + 4) = 0) (ops : List Op)
    (clear : Runs.Meets (step debug queue) (Clear queue devices) (State.start h) ops) :
    Outcome.Sound NotMixed (Runs.run (step debug queue) (State.start h) ops) := by
  have keep : ∀ s op, Running queue devices s → Clear queue devices s op →
      Outcome.Sound (Running queue devices) (step debug queue s op) := fun s op running ok =>
    step_running running op ok
  have start := start_running (start_holds sane static distinct cleared)
  exact (Runs.run_sound keep start clear).mono fun s running => running.notMixed

instance (h : Heap) (answers : Answers) (nCcws : UInt32) :
    Decidable (SuppliedNew h answers nCcws) :=
  inferInstanceAs (Decidable (_ ∨ _ ∧ _))

instance (devices : List Nat) (s : State) (op : Op) : Decidable (Allowed devices s op) :=
  match op with
  | .new _ _ _ _ _ => inferInstanceAs (Decidable (_ ∧ _))
  | .send i _ => inferInstanceAs (Decidable (∀ c ∈ s.clients[i]?, _))
  | .perform i _ => inferInstanceAs (Decidable (∀ c ∈ s.clients[i]?, _))
  | .destroy i => inferInstanceAs (Decidable (∀ c ∈ s.clients[i]?, _))

instance (queue : Nat) (s : State) (op : Op) : Decidable (Supplied queue s op) :=
  match op with
  | .new _ nCcws _ _ answers => inferInstanceAs (Decidable (SuppliedNew s.heap answers nCcws))
  | .send _ answer => inferInstanceAs (Decidable (Placed s.heap answer _ _))
  | .perform _ _ => inferInstanceAs (Decidable True)
  | .destroy _ => inferInstanceAs (Decidable True)

instance (s : State) (op : Op) : Decidable (OwnEntry s op) :=
  match op with
  | .perform i _ => inferInstanceAs (Decidable (∀ _c ∈ s.clients[i]?, _))
  | .new _ _ _ _ _ => inferInstanceAs (Decidable True)
  | .send _ _ => inferInstanceAs (Decidable True)
  | .destroy _ => inferInstanceAs (Decidable True)

instance (queue : Nat) (devices : List Nat) (s : State) (op : Op) :
    Decidable (Clear queue devices s op) :=
  inferInstanceAs (Decidable ((_ ∧ _) ∧ _))

end

/-- Cleared storage with `g_queue` at 100 and devices at 200 and 400. -/
def booted : Heap := ⟨fun _ => 0, [(100, 8), (psaCcaw, 4), (200, 192), (400, 192)]⟩

theorem booted_sane : booted.Sane := ⟨by decide, by decide⟩

/-- The device accepts every instruction and stops at an address. -/
def accepting (cpaAddr : UInt32) : Script := ⟨⟨0, 0, 0⟩, 0, ⟨0, 0, 0⟩, [], 0, ⟨0, cpaAddr, 0⟩⟩

def newFirst : Op := .new 200 1 0 [1] ⟨1000, 1100⟩
def newSecond : Op := .new 400 1 0 [2] ⟨2000, 2100⟩

/-- Two clients, one inside the other: the second has sent its request behind
the first one's, and performs it first. -/
theorem nested_notMixed :
    ∃ s, Runs.run (step false 100) (State.start booted)
        [newFirst, newSecond, .send 0 5000, .send 1 4000, .perform 1 (accepting 2108),
          .perform 0 (accepting 1108), .destroy 0, .destroy 1] = .ok s ∧ NotMixed s :=
  (requests_notMixed [200, 400] booted_sane (by decide) (by decide) (by decide)
    [newFirst, newSecond, .send 0 5000, .send 1 4000, .perform 1 (accepting 2108),
      .perform 0 (accepting 1108), .destroy 0, .destroy 1] (by decide +kernel)).returned
    (by decide +kernel)

/-- Two clients that send and perform in the same order: the first one starts
the program of the second, and when that does not run to its end both return
the words of the same program. -/
theorem in_order_mixed :
    Runs.Meets (step false 100) (fun s op => Allowed [200, 400] s op ∧ Supplied 100 s op)
        (State.start booted)
        [newFirst, newSecond, .send 0 5000, .send 1 4000, .perform 0 (accepting 0),
          .perform 1 (accepting 0), .destroy 0, .destroy 1] ∧
      ¬ Outcome.Sound NotMixed (Runs.run (step false 100) (State.start booted)
        [newFirst, newSecond, .send 0 5000, .send 1 4000, .perform 0 (accepting 0)]) ∧
      ¬ Outcome.Sound NotMixed (Runs.run (step false 100) (State.start booted)
        [newFirst, newSecond, .send 0 5000, .send 1 4000, .perform 0 (accepting 0),
          .perform 1 (accepting 0), .destroy 0, .destroy 1]) := by
  refine ⟨by decide +kernel, fun notMixed => ?_, fun notMixed => ?_⟩
  · have own : Outcome.Sound (fun s => ∀ e ∈ s.performed, ∀ p ∈ e.started, (e.client, p) ∈ s.sent)
        (Runs.run (step false 100) (State.start booted)
          [newFirst, newSecond, .send 0 5000, .send 1 4000, .perform 0 (accepting 0)]) :=
      notMixed.mono fun s kept e member p started => by
        obtain ⟨q, sent, same⟩ := kept.performed e member
        rw [same] at started
        by_cases ready : Ready q e.io
        · rw [if_pos ready] at started
          cases started
          exact sent
        · rw [if_neg ready] at started
          cases started
    exact absurd own (by decide +kernel)
  · have noFault : Outcome.Sound (fun _ => True) (Runs.run (step false 100) (State.start booted)
        [newFirst, newSecond, .send 0 5000, .send 1 4000, .perform 0 (accepting 0),
          .perform 1 (accepting 0), .destroy 0, .destroy 1]) := notMixed.mono fun _ _ => trivial
    exact absurd noFault (by decide +kernel)

end CssClients
