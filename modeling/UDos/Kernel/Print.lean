import UDos.Kernel.Hdebug
import UDos.Kernel.PrintfMeaning

/-!
# Printing

`kvprintf` formats into a buffer of 160 bytes and hands the text to the standard
output, or to the debug channel while there is none. `print_lock` keeps the debug
prints that a driver makes while it writes from starting another write. `KePanic`
falls back to the debug channel. Characters are EBCDIC.
-/

namespace Print

open KernelMemory Buffer Printf

/-- The text that `kvprintf` hands on: what is before the first NUL of its buffer. -/
def printed (fmt : CString) (args : List Arg) : Outcome (List UInt8) := do
  let tmpbuf ← kvsnprintf 160 fmt args
  let len ← textLength tmpbuf
  .ok (tmpbuf.take len)

/-- A format that is read as it is meant, with a short expansion, comes to it. -/
theorem printed_items {items : List Item} (clear : Clear items)
    (room : (expansion items).length + 12 < 160) :
    printed (format items) (arguments items) = .ok (expansion items) := by
  have width : (160 : UInt32).toNat = 160 := rfl
  have left := kvsnprintf_of_clear clear (show _ < (160 : UInt32).toNat by omega)
  rw [padded_cons (by omega)] at left
  rw [printed, left, Outcome.ok_bind, textLength_append (expansion_noNul items), Outcome.ok_bind,
    List.take_left]

/-- A text of which no character is a percent sign, as a format. -/
def plain (text : List UInt8) : List Item :=
  text.filterMap fun c => if fit : c ≠ percent ∧ c ≠ 0 then some (.literal c fit.1 fit.2) else none

theorem plain_cons {c : UInt8} (fit : c ≠ percent ∧ c ≠ 0) (text : List UInt8) :
    plain (c :: text) = .literal c fit.1 fit.2 :: plain text :=
  List.filterMap_cons_some (dif_pos fit)

theorem plain_clear (text : List UInt8) : Clear (plain text) := by
  induction text with
  | nil => trivial
  | cons c text ih =>
    by_cases fit : c ≠ percent ∧ c ≠ 0
    · rw [plain_cons fit]
      exact ih
    · rw [plain, List.filterMap_cons_none (dif_neg fit)]
      exact ih

theorem plain_text {text : List UInt8} (fit : ∀ c ∈ text, c ≠ percent ∧ c ≠ 0) :
    (format (plain text)).chars = text ∧ arguments (plain text) = [] ∧
      expansion (plain text) = text := by
  induction text with
  | nil => exact ⟨rfl, rfl, rfl⟩
  | cons c text ih =>
    obtain ⟨chars, args, expanded⟩ :=
      ih fun other member => fit other (List.mem_cons_of_mem c member)
    rw [plain_cons (fit c List.mem_cons_self)]
    exact ⟨congrArg (c :: ·) chars, args, congrArg (c :: ·) expanded⟩

theorem printed_plain (fmt : CString) (fit : ∀ c ∈ fmt.chars, c ≠ percent)
    (room : fmt.chars.length + 12 < 160) : printed fmt [] = .ok fmt.chars := by
  have fitNul : ∀ c ∈ fmt.chars, c ≠ percent ∧ c ≠ 0 :=
    fun c member => ⟨fit c member, fun nul => fmt.noNul (nul ▸ member)⟩
  obtain ⟨chars, args, expanded⟩ := plain_text fitNul
  have same : format (plain fmt.chars) = fmt := by
    generalize format (plain fmt.chars) = read at chars ⊢
    cases read
    cases chars
    rfl
  have came := printed_items (plain_clear fmt.chars) (by rwa [expanded])
  rwa [same, args, expanded] at came

/-- A call of `KePrint`, or of `KeDebugPrint`. -/
structure PrintCall where
  debug : Bool
  fmt : CString
  args : List Arg

/-- The calls in turn, from a state of `print_lock`: the texts that the driver of the
standard output is given, and the lock they leave. `write` is what the driver prints
itself while it writes a text; the handle is not buffered, and an empty text is not
written. -/
def prints (write : List UInt8 → List PrintCall) :
    Nat → Bool → List PrintCall → Outcome (List (List UInt8) × Bool)
  | 0, _, _ => .diverge
  | _ + 1, lock, [] => .ok ([], lock)
  | fuel + 1, lock, call :: rest =>
    if call.debug ∧ lock then prints write fuel lock rest
    else
      -- print_lock is 1 from here to the return of kvprintf
      printed call.fmt call.args >>= fun text =>
      (if text = [] then .ok []
        else prints write fuel true (write text) >>= fun inner => .ok (text :: inner.1)) >>=
        fun own =>
      prints write fuel false rest >>= fun later => .ok (own ++ later.1, later.2)

/-- No text comes of these calls: they are debug prints under the lock, or print an
empty text, which gives up the lock. -/
def Silent : Bool → List PrintCall → Prop
  | _, [] => True
  | lock, call :: rest =>
    if call.debug ∧ lock then Silent lock rest
    else printed call.fmt call.args = .ok [] ∧ Silent false rest

section
variable {write : List UInt8 → List PrintCall} {fuel : Nat} {lock lock' : Bool}
  {calls : List PrintCall} {texts written : List (List UInt8)}

theorem prints_silent (silent : Silent lock calls) (enough : calls.length < fuel) :
    ∃ lock', prints write fuel lock calls = .ok ([], lock') := by
  induction calls generalizing fuel lock with
  | nil =>
    cases fuel with
    | zero => exact absurd enough (Nat.not_lt_zero _)
    | succ fuel => exact ⟨lock, rfl⟩
  | cons call rest ih =>
    cases fuel with
    | zero => exact absurd enough (Nat.not_lt_zero _)
    | succ fuel =>
      have fewer : rest.length < fuel := Nat.lt_of_succ_lt_succ enough
      rw [Silent] at silent
      rw [prints]
      split at silent
      · next skipped =>
        rw [if_pos skipped]
        exact ih silent fewer
      · next made =>
        obtain ⟨lock', later⟩ := ih silent.2 fewer
        refine ⟨lock', ?_⟩
        rw [if_neg made, silent.1, Outcome.ok_bind, if_pos rfl, Outcome.ok_bind, later]
        rfl

theorem silent_of_prints (ran : prints write fuel lock calls = .ok ([], lock')) :
    Silent lock calls := by
  induction fuel generalizing lock lock' calls with
  | zero => cases ran
  | succ fuel ih =>
    cases calls with
    | nil => trivial
    | cons call rest =>
      rw [prints] at ran
      rw [Silent]
      split at ran
      · next skipped =>
        rw [if_pos skipped]
        exact ih ran
      · next made =>
        rw [if_neg made]
        obtain ⟨text, formatted, ran⟩ := Outcome.bind_eq_ok.mp ran
        obtain ⟨own, wrote, ran⟩ := Outcome.bind_eq_ok.mp ran
        obtain ⟨⟨later, last⟩, ranLater, ran⟩ := Outcome.bind_eq_ok.mp ran
        obtain ⟨nothing, -⟩ := Prod.mk.inj (Outcome.ok.inj ran)
        obtain ⟨rfl, rfl⟩ := List.append_eq_nil_iff.mp nothing
        have empty : text = [] := by
          by_contra some
          rw [if_neg some] at wrote
          obtain ⟨inner, -, wrote⟩ := Outcome.bind_eq_ok.mp wrote
          cases wrote
        exact ⟨empty ▸ formatted, ih ranLater⟩

/-- Every call at the top writes its text, an empty one apart, and a driver that is not
silent adds to it. -/
theorem prints_length
    (formats : List.Forall₂ (fun call text => printed call.fmt call.args = .ok text) calls texts)
    (ran : prints write fuel false calls = .ok (written, lock')) :
    (texts.filter (· ≠ [])).length ≤ written.length ∧
      (written.length ≤ (texts.filter (· ≠ [])).length →
        ∀ text ∈ texts, text ≠ [] → Silent true (write text)) := by
  induction formats generalizing fuel written lock' with
  | nil => exact ⟨Nat.zero_le _, fun _ text none => absurd none List.not_mem_nil⟩
  | @cons call text rest texts formatted _ ih =>
    cases fuel with
    | zero => cases ran
    | succ fuel =>
      rw [prints, if_neg (by simp), formatted, Outcome.ok_bind] at ran
      obtain ⟨own, wrote, ran⟩ := Outcome.bind_eq_ok.mp ran
      obtain ⟨⟨later, last⟩, ranLater, ran⟩ := Outcome.bind_eq_ok.mp ran
      obtain ⟨rfl, -⟩ := Prod.mk.inj (Outcome.ok.inj ran)
      obtain ⟨atLeast, exactly⟩ := ih ranLater
      rw [List.length_append]
      by_cases empty : text = []
      · rw [if_pos empty] at wrote
        cases wrote
        rw [List.filter_cons_of_neg (by simpa using empty)]
        refine ⟨by simpa using atLeast, fun few other member some => ?_⟩
        rcases List.mem_cons.mp member with rfl | member
        · exact absurd empty some
        · exact exactly (by simpa using few) other member some
      · rw [if_neg empty] at wrote
        obtain ⟨⟨inner, lock⟩, ranInner, wrote⟩ := Outcome.bind_eq_ok.mp wrote
        cases wrote
        rw [List.filter_cons_of_pos (by simpa using empty), List.length_cons, List.length_cons]
        dsimp only
        refine ⟨by omega, fun few other member some => ?_⟩
        rcases List.mem_cons.mp member with rfl | member
        · obtain rfl : inner = [] := List.eq_nil_of_length_eq_zero (by omega)
          exact silent_of_prints ranInner
        · exact exactly (by omega) other member some

theorem prints_texts
    (formats : List.Forall₂ (fun call text => printed call.fmt call.args = .ok text) calls texts)
    (silent : ∀ text ∈ texts, text ≠ [] → Silent true (write text)) :
    ∃ need, ∀ fuel, need ≤ fuel →
      ∃ lock', prints write fuel false calls = .ok (texts.filter (· ≠ []), lock') := by
  induction formats with
  | nil =>
    refine ⟨1, fun fuel enough => ?_⟩
    obtain ⟨fuel, rfl⟩ := Nat.exists_eq_succ_of_ne_zero (by omega : fuel ≠ 0)
    exact ⟨false, rfl⟩
  | @cons call text rest texts formatted _ ih =>
    obtain ⟨need, later⟩ := ih fun other member => silent other (List.mem_cons_of_mem _ member)
    refine ⟨need + (write text).length + 2, fun fuel enough => ?_⟩
    obtain ⟨fuel, rfl⟩ := Nat.exists_eq_succ_of_ne_zero (by omega : fuel ≠ 0)
    obtain ⟨lock', ran⟩ := later fuel (by omega)
    refine ⟨lock', ?_⟩
    rw [prints, if_neg (by simp), formatted, Outcome.ok_bind]
    by_cases empty : text = []
    · rw [if_pos empty, Outcome.ok_bind, ran, List.filter_cons_of_neg (by simpa using empty)]
      rfl
    · obtain ⟨inner, quiet⟩ := prints_silent (silent text List.mem_cons_self empty)
        (by omega : (write text).length < fuel)
      rw [if_neg empty, quiet, Outcome.ok_bind, Outcome.ok_bind, ran,
        List.filter_cons_of_pos (by simpa using empty)]
      rfl

/-- The texts of the calls are what the driver of the standard output is given, each
once and nothing between them, exactly when the driver's own prints come to nothing. -/
theorem prints_only_texts_iff (write : List UInt8 → List PrintCall) (calls : List PrintCall)
    (texts : List (List UInt8))
    (formats : List.Forall₂ (fun call text => printed call.fmt call.args = .ok text) calls texts) :
    (∃ fuel lock', prints write fuel false calls = .ok (texts.filter (· ≠ []), lock')) ↔
      ∀ text ∈ texts, text ≠ [] → Silent true (write text) := by
  constructor
  · rintro ⟨fuel, lock', ran⟩
    exact (prints_length formats ran).2 le_rfl
  · intro silent
    obtain ⟨need, ran⟩ := prints_texts formats silent
    exact ⟨need, ran need le_rfl⟩

end

/-- "OK", printed by a driver that reports each text it writes with `KeDebugPrint`. -/
def okCall : PrintCall := ⟨false, format (plain [0xD6, 0xD2]), arguments (plain [0xD6, 0xD2])⟩

def reported (_ : List UInt8) : List PrintCall := [{ okCall with debug := true }]

theorem okCall_printed :
    (∃ fuel lock', prints reported fuel false [okCall] =
      .ok ([[0xD6, 0xD2]].filter (· ≠ []), lock')) ↔
      ∀ text ∈ [[(0xD6 : UInt8), 0xD2]], text ≠ [] → Silent true (reported text) :=
  prints_only_texts_iff reported [okCall] [[0xD6, 0xD2]]
    (.cons (printed_items (plain_clear _) (by decide)) .nil)

/-- "Taking down CPU...\r\n" -/
def takingDown : CString :=
  ⟨[0xE3, 0x81, 0x92, 0x89, 0x95, 0x87, 0x40, 0x84, 0x96, 0xA6, 0x95, 0x40, 0xC3, 0xD7, 0xE4,
    0x4B, 0x4B, 0x4B, 0x0D, 0x15], by decide⟩

/-- "CPU should be down by now...\r\n" -/
def shouldBeDown : CString :=
  ⟨[0xC3, 0xD7, 0xE4, 0x40, 0xA2, 0x88, 0x96, 0xA4, 0x93, 0x84, 0x40, 0x82, 0x85, 0x40, 0x84,
    0x96, 0xA6, 0x95, 0x40, 0x82, 0xA8, 0x40, 0x95, 0x96, 0xA6, 0x4B, 0x4B, 0x4B, 0x0D, 0x15],
    by decide⟩

/-- `kvprintf` without a standard output: what `__DIAG8` is called with. -/
def sent (tmpbuf : List UInt8) (fmt : CString) (args : List Arg) : Outcome (List UInt8) := do
  let text ← printed fmt args
  Hdebug.modWriteHercDebug tmpbuf text

/-- The address of the CPU is stored as a half word, at the front of the word that is
read; `behind` is the other half of `PGT0`. -/
def hwCpuId (address behind : UInt16) : UInt32 := address.toUInt32 <<< 16 ||| behind.toUInt32

/-- The CPU that an order with this word goes to: its right half counts. -/
def addressed (word : UInt32) : UInt16 := word.toUInt16

/-- What is left of a panic: the messages in the log, and the CPU that was told to
stop. -/
structure Panicked where
  messages : List (List UInt8)
  stopped : UInt16
deriving DecidableEq

/-- `KePanic` on the CPU with the address; `held` is what the buffers on the stack held
at each message. The standard output is given up first, so that `kflush` has nothing to
do and every message goes to the debug channel, whatever `print_lock` is. -/
def kePanic (address behind : UInt16) (held : Nat → List UInt8) (fmt : CString)
    (args : List Arg) : Outcome Panicked := do
  let reason ← sent (held 0) fmt args
  let last ← sent (held 1) takingDown []
  let stopped := addressed (hwCpuId address behind)
  -- the CPU that told itself to stop goes no further
  if stopped = address then .ok ⟨[reason, last], stopped⟩
  else do
    let more ← sent (held 2) shouldBeDown []
    .ok ⟨[reason, last, more], stopped⟩

theorem addressed_hwCpuId (address behind : UInt16) :
    addressed (hwCpuId address behind) = behind := by
  unfold addressed hwCpuId
  apply UInt16.toBitVec_inj.mp
  simp only [UInt32.toBitVec_toUInt16, UInt32.toBitVec_or, UInt32.toBitVec_shiftLeft,
    UInt16.toBitVec_toUInt32]
  ext i
  simp

/-- A text in the log: upper case, of at most 50 characters, and without the last of
them. -/
def entry (text : List UInt8) : List UInt8 :=
  Hdebug.cmd ++ (text.take 50).dropLast.map Hdebug.logged

theorem sent_eq {tmpbuf text : List UInt8} {fmt : CString} {args : List Arg}
    (size : tmpbuf.length = 56) (came : printed fmt args = .ok text) :
    sent tmpbuf fmt args = .ok (entry text) := by
  rw [sent, came, Outcome.ok_bind]
  exact Hdebug.modWriteHercDebug_eq tmpbuf text size

/-- A panic enters its reason in the log and says that the CPU is taken down. The order
to stop goes to the CPU whose address lies behind the stored half word; any other CPU
that panics stays up, and says so. -/
theorem kePanic_leaves (address behind : UInt16) (held : Nat → List UInt8) (items : List Item)
    (sizes : ∀ n, (held n).length = 56) (clear : Clear items)
    (room : (expansion items).length + 12 < 160) :
    kePanic address behind held (format items) (arguments items) =
      .ok ⟨entry (expansion items) :: entry takingDown.chars ::
        (if behind = address then [] else [entry shouldBeDown.chars]), behind⟩ := by
  have reason := sent_eq (sizes 0) (printed_items clear room)
  have last := sent_eq (sizes 1)
    (printed_plain takingDown (by simp [takingDown, percent]) (by decide))
  have more := sent_eq (sizes 2)
    (printed_plain shouldBeDown (by simp [shouldBeDown, percent]) (by decide))
  rw [kePanic, addressed_hwCpuId]
  simp only [reason, last, more, Outcome.ok_bind]
  by_cases itself : behind = address
  · rw [if_pos itself, if_pos itself]
  · rw [if_neg itself, if_neg itself]

/-- "%s" with "ABCD". -/
def named : List Item := [.string (some nameABCD)]

/-- The second CPU panics, and stops the first. -/
theorem named_panic :
    kePanic 1 0 (fun _ => List.replicate 56 0) (format named) (arguments named) =
      .ok ⟨entry (expansion named) :: entry takingDown.chars ::
        (if (0 : UInt16) = 1 then [] else [entry shouldBeDown.chars]), 0⟩ :=
  kePanic_leaves 1 0 _ named (fun _ => List.length_replicate) trivial (by decide)

end Print
