import Mathlib.Data.List.Basic
import Mathlib.Data.UInt
import UDos.Library.Outcome
import UDos.Library.Recorded

/-!
# ARC4

`CryptoARC4Encode` of `crypto.c`. The key schedule and the generator work on a
permutation of the bytes and never look at the text, so the keystream is a
function of the key and the position, and the text meets it in the last loop.
At the end the loops are run with plain numbers as indexes, on the record of the
indexes and of the array after each turn.
-/

namespace Crypto

/-- The array `S`. -/
abbrev State := Vector UInt8 256

def swap (s : State) (i j : Fin 256) : State :=
  (s.set i s[j]).set j s[i]

def initial : State := Vector.ofFn fun i => UInt8.ofNat i

/-- The loop that mixes the key into the state. -/
def keySchedule (key : List UInt8) : State :=
  ((List.finRange 256).foldl (fun (j, s) i =>
    let j := Fin.ofNat 256 (j.val + s[i].toNat + (key.getD (i.val % key.length) 0).toNat)
    (j, swap s i j)) ((0 : Fin 256), initial)).2

/-- The generator loop: the bytes `K[k]` of the remaining turns. -/
def generate : Nat → Fin 256 → Fin 256 → State → List UInt8
  | 0, _, _, _ => []
  | k + 1, i, j, s =>
    let i := i + 1
    let j := Fin.ofNat 256 (j.val + s[i].toNat)
    let s := swap s i j
    s[Fin.ofNat 256 (s[i].toNat + s[j].toNat)] :: generate k i j s

/-- What the generator loop stores in `K`. -/
def keystream (n : Nat) (s : State) : List UInt8 := generate n 0 0 s

/-- The text met with the keystream. -/
def cipher (text key : List UInt8) : List UInt8 :=
  List.zipWith (· ^^^ ·) text (keystream text.length (keySchedule key))

/-- `CryptoARC4Encode` without its blocks of storage; `roomK` and `roomText` are
whether `MmAllocate` finds room for the keystream and for the result. -/
def encoded (roomK roomText : Bool) (bitstream key : List UInt8) : Outcome (List UInt8) :=
  -- the remainder by a zero `keylen` is a program check
  if key = [] then .fault
  else do
    Outcome.check (bitstream.length ≠ 0) "Invalid size\r\n"
    Outcome.check (roomK = true) "Out of memory"
    Outcome.check (roomText = true) "Out of memory"
    .ok (cipher bitstream key)

theorem generate_length (n : Nat) (i j : Fin 256) (s : State) :
    (generate n i j s).length = n := by
  induction n generalizing i j s with
  | zero => rfl
  | succ n ih => simp [generate, ih]

theorem keystream_length (n : Nat) (s : State) : (keystream n s).length = n :=
  generate_length n 0 0 s

theorem generate_take {m n : Nat} (le : m ≤ n) (i j : Fin 256) (s : State) :
    (generate n i j s).take m = generate m i j s := by
  induction n generalizing m i j s with
  | zero =>
    obtain rfl : m = 0 := by omega
    rfl
  | succ n ih =>
    cases m with
    | zero => rfl
    | succ m =>
      rw [generate, generate, List.take_succ_cons]
      exact congrArg _ (ih (by omega) _ _ _)

theorem xor_xor_cancel (x k : List UInt8) (same : x.length = k.length) :
    List.zipWith (· ^^^ ·) (List.zipWith (· ^^^ ·) x k) k = x := by
  induction x generalizing k with
  | nil => simp
  | cons a x ih =>
    cases k with
    | nil => cases same
    | cons b k =>
      simp only [List.zipWith_cons_cons]
      rw [ih k (by simpa using same), UInt8.xor_assoc, UInt8.xor_self, UInt8.xor_zero]

theorem xor_self_zeros (k : List UInt8) :
    List.zipWith (· ^^^ ·) k k = List.replicate k.length 0 := by
  induction k with
  | nil => rfl
  | cons b k ih =>
    rw [List.zipWith_cons_cons, ih, UInt8.xor_self, List.length_cons, List.replicate_succ]

theorem cipher_length (text key : List UInt8) : (cipher text key).length = text.length := by
  rw [cipher, List.length_zipWith, keystream_length, Nat.min_self]

theorem cipher_take (text key : List UInt8) (m : Nat) :
    (cipher text key).take m = cipher (text.take m) key := by
  have front : (keystream text.length (keySchedule key)).take m =
      keystream (text.take m).length (keySchedule key) := by
    rw [List.length_take]
    rcases Nat.le_total m text.length with short | long
    · rw [Nat.min_eq_left short]
      exact generate_take short 0 0 _
    · rw [Nat.min_eq_right long, List.take_of_length_le]
      rw [keystream_length]
      exact long
  rw [cipher, cipher, List.take_zipWith, front]

theorem cipher_cipher (text key : List UInt8) : cipher (cipher text key) key = text := by
  have length := cipher_length text key
  rw [cipher, length, cipher]
  exact xor_xor_cancel _ _ (keystream_length _ _).symm

/-- An index into `S` that is used, and what is in `S` after a turn of one of the
two loops that exchange bytes. -/
inductive Event where
  | index (i : Nat)
  | turn (s : List UInt8)

def fetch (s : List UInt8) (i : Nat) : Recorded Event UInt8 := do
  Recorded.emit (.index i)
  Recorded.lift (match s[i]? with
    | some value => .ok value
    | none => .fault)

def store (s : List UInt8) (i : Nat) (value : UInt8) : Recorded Event (List UInt8) := do
  Recorded.emit (.index i)
  if i < s.length then pure (s.set i value) else Recorded.lift .fault

/-- The statements with `swp`, which are the same in both loops. -/
def exchange (s : List UInt8) (i j : Nat) : Recorded Event (List UInt8) := do
  let swp ← fetch s i
  let other ← fetch s j
  let s ← store s i other
  store s j swp

/-- The loop that fills `S`, with the number of its turns that are left. -/
def initLoop : Nat → Nat → List UInt8 → Recorded Event (List UInt8)
  | 0, _, s => pure s
  | turns + 1, i, s => do
    let s ← store s i (UInt8.ofNat i)
    initLoop turns (i + 1) s

def scheduleLoop (key : List UInt8) :
    Nat → Nat → Nat → List UInt8 → Recorded Event (List UInt8)
  | 0, _, _, s => pure s
  | turns + 1, i, j, s => do
    let here ← fetch s i
    let j := (j + here.toNat + (key.getD (i % key.length) 0).toNat) % 256
    let s ← exchange s i j
    Recorded.emit (.turn s)
    scheduleLoop key turns (i + 1) j s

def generatorLoop : Nat → Nat → Nat → List UInt8 → Recorded Event (List UInt8)
  | 0, _, _, _ => pure []
  | k + 1, i, j, s => do
    let i := (i + 1) % 256
    let here ← fetch s i
    let j := (j + here.toNat) % 256
    let s ← exchange s i j
    let x ← fetch s i
    let y ← fetch s j
    let byte ← fetch s ((x.toNat + y.toNat) % 256)
    Recorded.emit (.turn s)
    let rest ← generatorLoop k i j s
    pure (byte :: rest)

/-- `CryptoARC4Encode` with all that it does to `S`, whose bytes are not known
before the first loop. -/
def recordedARC4Encode (unknown : State) (roomK roomText : Bool) (bitstream key : List UInt8) :
    Recorded Event (List UInt8) := do
  let s ← initLoop 256 0 unknown.toList
  if key = [] then Recorded.lift .fault
  else do
    let s ← scheduleLoop key 256 0 0 s
    Recorded.lift (Outcome.check (bitstream.length ≠ 0) "Invalid size\r\n")
    Recorded.lift (Outcome.check (roomK = true) "Out of memory")
    let k ← generatorLoop bitstream.length 0 0 s
    Recorded.lift (Outcome.check (roomText = true) "Out of memory")
    pure (List.zipWith (· ^^^ ·) bitstream k)

/-- Each of the numbers 0 to 255 is in the array once. -/
def Permutes (s : List UInt8) : Prop := s.Perm ((List.range 256).map UInt8.ofNat)

/-- The index is inside of `S`; after a turn `S` is a permutation. -/
def Event.Good : Event → Prop
  | .index i => i < 256
  | .turn s => Permutes s

def Event.isTurn : Event → Bool
  | .index _ => false
  | .turn _ => true

section
variable {s : State} {i j : Fin 256}

theorem initial_toList : initial.toList = (List.range 256).map UInt8.ofNat := by
  refine List.ext_getElem (by simp) fun i inside _ => ?_
  rw [List.getElem_map, List.getElem_range]
  simp [initial, UInt8.ofNatLT_eq_ofNat]

theorem swap_toList (s : State) (i j : Fin 256) :
    (swap s i j).toList = (s.toList.set i s[j]).set j s[i] := by
  rw [swap, Vector.toList_set, Vector.toList_set]

theorem permutes_swap (permutes : Permutes s.toList) (i j : Fin 256) :
    Permutes (swap s i j).toList := by
  have insideI : i.val < s.toList.length := by simp
  have insideJ : j.val < s.toList.length := by simp
  have exchanged := List.set_set_perm insideI insideJ
  rw [swap_toList]
  exact exchanged.trans permutes

theorem fetch_state (s : State) (i : Fin 256) : fetch s.toList i = ⟨[.index i], .ok s[i]⟩ := by
  have here : s.toList[i.val]? = some s[i] := by simp
  rw [fetch, here]
  rfl

theorem store_state (s : State) (i : Fin 256) (value : UInt8) :
    store s.toList i value = ⟨[.index i], .ok (s.set i value).toList⟩ := by
  have inside : i.val < s.toList.length := by simp
  rw [store, if_pos inside, Vector.toList_set]
  rfl

theorem exchange_state (s : State) (i j : Fin 256) :
    exchange s.toList i j =
      ⟨[.index i, .index j, .index i, .index j], .ok (swap s i j).toList⟩ := by
  simp only [exchange, fetch_state, store_state, Recorded.returned_bind, swap]
  rfl

end

/-- The computation returns the value after this many turns, and all is good. -/
structure Turns {α : Type} (n : Nat) (x : Recorded Event α) (value : α) : Prop where
  returns : x.result = .ok value
  good : Recorded.All Event.Good x
  counted : x.events.countP Event.isTurn = n

section
variable {α β : Type} {n k i : Nat} {s : State}

theorem Turns.all_bind {x : Recorded Event α} {f : α → Recorded Event β} {a : α}
    (first : Turns n x a) (rest : Recorded.All Event.Good (f a)) :
    Recorded.All Event.Good (x >>= f) := by
  refine Recorded.all_bind.mpr ⟨first.good, fun b returned => ?_⟩
  have same := Outcome.ok.inj (first.returns.symm.trans returned)
  exact same ▸ rest

theorem Turns.count_bind {x : Recorded Event α} {a : α} (first : Turns n x a)
    (f : α → Recorded Event β) :
    (x >>= f).events.countP Event.isTurn = n + (f a).events.countP Event.isTurn := by
  rw [Recorded.bind_events first.returns, List.countP_append, first.counted]

theorem Turns.bind {x : Recorded Event α} {f : α → Recorded Event β} {a : α} {b : β}
    (first : Turns n x a) (second : Turns k (f a) b) : Turns (n + k) (x >>= f) b := by
  refine ⟨?_, first.all_bind second.good, ?_⟩
  · rw [Recorded.bind_result, first.returns, Outcome.ok_bind, second.returns]
  · rw [first.count_bind f, second.counted]

theorem turns_pure (a : α) : Turns 0 (pure a) a := ⟨rfl, Recorded.all_pure a, rfl⟩

theorem turns_check {condition : Prop} [Decidable condition] (holds : condition)
    (message : String) : Turns 0 (Recorded.lift (Outcome.check condition message)) () :=
  ⟨Outcome.check_of holds message, Recorded.all_lift _, rfl⟩

theorem turns_fetch (s : State) (i : Fin 256) : Turns 0 (fetch s.toList i) s[i] := by
  rw [fetch_state]
  refine ⟨rfl, fun e member => ?_, rfl⟩
  obtain rfl := List.mem_singleton.mp member
  exact i.isLt

theorem turns_exchange (s : State) (i j : Fin 256) :
    Turns 0 (exchange s.toList i j) (swap s i j).toList := by
  rw [exchange_state]
  refine ⟨rfl, fun e member => ?_, rfl⟩
  simp only [List.mem_cons, List.not_mem_nil, or_false] at member
  rcases member with rfl | rfl | rfl | rfl
  · exact i.isLt
  · exact j.isLt
  · exact i.isLt
  · exact j.isLt

theorem turns_emit (permutes : Permutes s.toList) :
    Turns 1 (Recorded.emit (.turn s.toList)) PUnit.unit :=
  ⟨rfl, (Recorded.all_emit _).mpr permutes, rfl⟩

/-- The first loop has filled the array up to i. -/
theorem turns_initLoop {turns : Nat} {s : List UInt8} (counted : i + turns = 256)
    (size : s.length = 256) (filled : s.take i = (List.range i).map UInt8.ofNat) :
    Turns 0 (initLoop turns i s) initial.toList := by
  induction turns generalizing i s with
  | zero =>
    obtain rfl : i = 256 := counted
    have whole : s = initial.toList := by
      rw [initial_toList, ← filled, ← size, List.take_length]
    rw [initLoop, whole]
    exact turns_pure initial.toList
  | succ turns ih =>
    have inside : i < s.length := by omega
    have next : (s.set i (UInt8.ofNat i)).take (i + 1) =
        (List.range (i + 1)).map UInt8.ofNat := by
      rw [List.range_succ, List.map_append, ← filled, List.take_add_one, List.take_set,
        List.set_eq_of_length_le (by simp)]
      simp [inside]
    have stored : Turns 0 (store s i (UInt8.ofNat i)) (s.set i (UInt8.ofNat i)) := by
      rw [store, if_pos inside]
      refine ⟨rfl, fun e member => ?_, rfl⟩
      obtain rfl := List.mem_singleton.mp member
      have index : i < 256 := by omega
      exact index
    exact stored.bind (ih (by omega) (List.length_set.trans size) next)

/-- One turn of `keySchedule`. -/
def keyTurn (key : List UInt8) (js : Fin 256 × State) (i : Fin 256) : Fin 256 × State :=
  let j := Fin.ofNat 256 (js.1.val + js.2[i].toNat + (key.getD (i.val % key.length) 0).toNat)
  (j, swap js.2 i j)

theorem keySchedule_eq (key : List UInt8) :
    keySchedule key = ((List.finRange 256).foldl (keyTurn key) (0, initial)).2 := rfl

theorem turns_scheduleLoop (key : List UInt8) {turns : Nat} (inside : i + turns = 256)
    (j : Fin 256) (permutes : Permutes s.toList) :
    Turns turns (scheduleLoop key turns i j s.toList)
        (((List.finRange 256).drop i).foldl (keyTurn key) (j, s)).2.toList ∧
      Permutes (((List.finRange 256).drop i).foldl (keyTurn key) (j, s)).2.toList := by
  induction turns generalizing i j s with
  | zero =>
    obtain rfl : i = 256 := inside
    rw [List.drop_of_length_le (by simp), List.foldl_nil, scheduleLoop]
    exact ⟨turns_pure s.toList, permutes⟩
  | succ turns ih =>
    have low : i < 256 := by omega
    have remaining : (List.finRange 256).drop i = ⟨i, low⟩ :: (List.finRange 256).drop (i + 1) := by
      rw [List.drop_eq_getElem_cons (by simpa using low), List.getElem_finRange]
      rfl
    have swapped := permutes_swap permutes ⟨i, low⟩ (keyTurn key (j, s) ⟨i, low⟩).1
    obtain ⟨rest, after⟩ := @ih (i + 1) _ (by omega) (keyTurn key (j, s) ⟨i, low⟩).1 swapped
    have count : turns + 1 = 0 + (0 + (1 + turns)) := by omega
    rw [remaining, List.foldl_cons, scheduleLoop, count]
    refine ⟨?_, after⟩
    apply (turns_fetch s ⟨i, low⟩).bind
    apply (turns_exchange s ⟨i, low⟩ (keyTurn key (j, s) ⟨i, low⟩).1).bind
    exact (turns_emit swapped).bind rest

theorem turns_generatorLoop (k : Nat) (i j : Fin 256) (permutes : Permutes s.toList) :
    Turns k (generatorLoop k i j s.toList) (generate k i j s) := by
  induction k generalizing i j s with
  | zero => exact turns_pure []
  | succ k ih =>
    have swapped := permutes_swap permutes (i + 1) (Fin.ofNat 256 (j.val + s[i + 1].toNat))
    have rest := ih (i + 1) (Fin.ofNat 256 (j.val + s[i + 1].toNat)) swapped
    have count : k + 1 = 0 + (0 + (0 + (0 + (0 + (1 + (k + 0)))))) := by omega
    rw [generatorLoop, generate, count]
    apply (turns_fetch s (i + 1)).bind
    apply (turns_exchange s (i + 1) (Fin.ofNat 256 (j.val + s[i + 1].toNat))).bind
    apply (turns_fetch _ (i + 1)).bind
    apply (turns_fetch _ (Fin.ofNat 256 (j.val + s[i + 1].toNat))).bind
    apply (turns_fetch _ (Fin.ofNat 256 _)).bind
    apply (turns_emit swapped).bind
    exact rest.bind (turns_pure _)

end

section
variable (unknown : State) (roomK roomText : Bool) (bitstream : List UInt8) {key : List UInt8}

theorem turns_filled (unknown : State) : Turns 0 (initLoop 256 0 unknown.toList) initial.toList :=
  turns_initLoop rfl Vector.length_toList rfl

theorem permutes_initial : Permutes initial.toList := by
  rw [initial_toList]
  exact List.Perm.refl _

theorem turns_scheduled (key : List UInt8) :
    Turns 256 (scheduleLoop key 256 0 0 initial.toList) (keySchedule key).toList ∧
      Permutes (keySchedule key).toList := by
  have scheduled := @turns_scheduleLoop 0 initial key 256 rfl 0 permutes_initial
  have start : ((0 : Fin 256) : Nat) = 0 := rfl
  rwa [List.drop_zero, ← keySchedule_eq, start] at scheduled

theorem turns_generated (key : List UInt8) (k : Nat) :
    Turns k (generatorLoop k 0 0 (keySchedule key).toList) (keystream k (keySchedule key)) := by
  have generated := turns_generatorLoop k 0 0 (turns_scheduled key).2
  have start : ((0 : Fin 256) : Nat) = 0 := rfl
  rwa [start] at generated

variable (keyed : key ≠ [])
include keyed

theorem recordedARC4Encode_result :
    (recordedARC4Encode unknown roomK roomText bitstream key).result =
      encoded roomK roomText bitstream key := by
  have scheduled := (turns_scheduled key).1
  have generated := turns_generated key bitstream.length
  rw [recordedARC4Encode, encoded, Recorded.bind_result, (turns_filled unknown).returns,
    Outcome.ok_bind, if_neg keyed, if_neg keyed, Recorded.bind_result, scheduled.returns,
    Outcome.ok_bind]
  simp only [Recorded.bind_result, Recorded.lift_result, Recorded.pure_result, generated.returns,
    Outcome.ok_bind, cipher]

theorem recordedARC4Encode_good :
    Recorded.All Event.Good (recordedARC4Encode unknown roomK roomText bitstream key) := by
  rw [recordedARC4Encode]
  apply (turns_filled unknown).all_bind
  rw [if_neg keyed]
  apply (turns_scheduled key).1.all_bind
  refine Recorded.all_bind.mpr ⟨Recorded.all_lift _, fun _ _ => ?_⟩
  refine Recorded.all_bind.mpr ⟨Recorded.all_lift _, fun _ _ => ?_⟩
  apply (turns_generated key bitstream.length).all_bind
  exact Recorded.all_bind.mpr ⟨Recorded.all_lift _, fun _ _ => Recorded.all_pure _⟩

/-- All turns of both loops are in the record when there is room for the keystream. -/
theorem recordedARC4Encode_turns (nonempty : bitstream ≠ []) :
    (recordedARC4Encode unknown true roomText bitstream key).events.countP Event.isTurn =
      256 + bitstream.length := by
  have long : bitstream.length ≠ 0 := fun zero => nonempty (List.eq_nil_of_length_eq_zero zero)
  rw [recordedARC4Encode, (turns_filled unknown).count_bind, if_neg keyed,
    (turns_scheduled key).1.count_bind, (turns_check long _).count_bind,
    (turns_check rfl _).count_bind, (turns_generated key bitstream.length).count_bind]
  cases roomText with
  | false =>
    have stopped : ∀ f : Unit → Recorded Event (List UInt8),
        (Recorded.lift (Outcome.check (false = true) "Out of memory") >>= f).events = [] :=
      fun _ => rfl
    rw [stopped, List.countP_nil]
    omega
  | true =>
    rw [(turns_check rfl _).count_bind, (turns_pure _).counted]
    omega

/-- After every turn of the loop that mixes the key in and of the generator the
array is a permutation of 0 to 255, and no index is outside of it. -/
theorem recordedARC4Encode_permutes :
    Recorded.All Event.Good (recordedARC4Encode unknown roomK roomText bitstream key) ∧
      (recordedARC4Encode unknown roomK roomText bitstream key).result =
        encoded roomK roomText bitstream key ∧
      (bitstream ≠ [] →
        (recordedARC4Encode unknown true roomText bitstream key).events.countP Event.isTurn =
          256 + bitstream.length) :=
  ⟨recordedARC4Encode_good unknown roomK roomText bitstream keyed,
    recordedARC4Encode_result unknown roomK roomText bitstream keyed,
    recordedARC4Encode_turns unknown roomText bitstream keyed⟩

end

theorem recordedARC4Encode_permutes_key :
    Recorded.All Event.Good (recordedARC4Encode initial true true [0xC1, 0xC4] [1, 2, 3]) ∧
      (recordedARC4Encode initial true true [0xC1, 0xC4] [1, 2, 3]).events.countP
        Event.isTurn = 258 := by
  obtain ⟨good, _, turned⟩ :=
    recordedARC4Encode_permutes initial true true [0xC1, 0xC4] (List.cons_ne_nil 1 [2, 3])
  exact ⟨good, turned (List.cons_ne_nil _ _)⟩

end Crypto
