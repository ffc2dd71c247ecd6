import UDos.Kernel.Memory
import UDos.Library.Patches

/-!
# Loading an MVS executable as if at location 0

`fixPE` and `processRLD` of `loadzero.c` on byte storage. `char` is unsigned,
`short` and `int` have 16 and 32 bits and are big-endian. The text of a module
is moved together at the start of the buffer it was read into while the records
behind it are still being read, and relocations are made in that text. The
loops over records read lengths that may be negative, so they have an iteration
budget; the loop of `processRLD` always ends.
-/

namespace Loadzero

open Storage KernelMemory

/-- `MAXEXE` -/
def maxExe : Nat := 5000000

/-- `*(short *)p` -/
def short (m : Storage) (p : Nat) : Int :=
  if half m p < 32768 then half m p else (half m p : Int) - 65536

/-- Three bytes copied into the low end of an `int` that is 0. -/
def address (m : Storage) (p : Nat) : Nat :=
  (m p).toNat * 65536 + (m (p + 1)).toNat * 256 + (m (p + 2)).toNat

/-- A pointer moved by a number of bytes that may be negative. -/
def advance (p : Nat) (l : Int) : Nat := (((p : Int) + l) % 4294967296).toNat

/-- `memmove`: the bytes are as if copied elsewhere first. -/
def memmove (m : Storage) (dest src n : Nat) : Storage := store m dest (bytes m src n)

/-- What is printed before a failure, with the number that is in it. -/
inductive Complaint where
  | notAnExecutable
  | corruptModule
  | corrupt1 (position : Int)
  | negativeAdjustment
  | unsupportedRelocation (ll : Nat)
  | al3Prevents (rlad : Int)
  | corrupt2 (position : Int)
  | executableTooBig
  | errorFixingPE
deriving DecidableEq, Repr

/-- Where the flags of the next field are: R and P are skipped unless the field before
said that they are continued. -/
def skipRP (r : Nat) (cont : Bool) : Nat := if cont then r else r + 4

theorem le_skipRP (r : Nat) (cont : Bool) : r ≤ skipRP r cont := by
  cases cont <;> simp [skipRP]

/-- The loop of `processRLD`: `r` counts from `rld`, and `fin` is at `len`. -/
def rldLoop (buf : Nat) (rlad : Int) (rld : Nat) (len : Int) (m : Storage) (r : Nat) (cont : Bool) :
    Storage × Option Complaint :=
  if r = len then (m, none)
  else
    let r' := skipRP r cont
    if cont = false ∧ len ≤ r' then (m, some (.corrupt1 (r' - 4)))
    else
      let flags := m (rld + r')
      if flags &&& 0x02 ≠ 0 then (m, some .negativeAdjustment)
      else
        let ll := ((flags &&& 0x0c) >>> 2).toNat + 1
        if ll ≠ 4 ∧ ll ≠ 3 then (m, some (.unsupportedRelocation ll))
        else if ll = 3 ∧ rlad > 0xffffff then (m, some (.al3Prevents rlad))
        else if r' + 1 + 3 > len then (m, some (.corrupt2 (r' + 1)))
        else
          let a := address m (rld + (r' + 1))
          let zaploc := advance buf (a - (if ll = 3 then 1 else 0))
          rldLoop buf rlad rld len (patch m zaploc rlad) (r' + 1 + 3) (flags &&& 0x01 ≠ 0)
termination_by (len - r).toNat
decreasing_by
  have le := le_skipRP r cont
  omega

def processRLD (m : Storage) (buf : Nat) (rlad : Int) (rld : Nat) (len : Int) :
    Storage × Option Complaint :=
  rldLoop buf rlad rld len m 16 false

/-- What the loops of `fixPE` carry along, and what they print. -/
structure Work where
  storage : Storage
  upto : Nat
  lastt : Int
  said : List Complaint

/-- How a loop is left: with `corrupt` still set, or with `corrupt` cleared. -/
inductive Left where
  | corrupt
  | loaded
deriving DecidableEq, Repr

/-- A record with relocations; `last` is set for the last record of a module. -/
def relocationRecord (buf : Nat) (rlad : Int) (w : Work) (q : Nat) (len : Int) (last : Bool) :
    Work × Option Left :=
  match processRLD w.storage buf rlad q len with
  | (m, some complaint) =>
    ({ w with storage := m, said := w.said ++ [complaint] }, some .corrupt)
  | (m, none) =>
    if last then ({ w with storage := m }, some .loaded)
    else ({ w with storage := m, lastt := (w.storage q).toNat }, none)

/-- One record of `l2` bytes at `q`. A record behind one of the types 1, 3 and 0x0d
is program text; `memmove` cannot be asked for less than no bytes. The types 0x20,
1, 0x0d and 0x80, and those that are not known, are remembered alone. -/
def loadRecord (buf : Nat) (rlad : Int) (w : Work) (q : Nat) (l2 : Int) :
    Outcome (Work × Option Left) :=
  let t : Int := (w.storage q).toNat
  if w.lastt = 1 ∨ w.lastt = 3 ∨ w.lastt = 0x0d then
    if l2 < 0 then .fault
    else
      let w' := { w with
        storage := memmove w.storage w.upto q l2.toNat
        upto := w.upto + l2.toNat }
      if w.lastt = 0x0d then .ok (w', some .loaded) else .ok ({ w' with lastt := -1 }, none)
  else if t = 2 then .ok (relocationRecord buf rlad w q l2 false)
  else if t = 3 then
    .ok (relocationRecord buf rlad w q (short w.storage (q + 6) + 16) false)
  else if t = 0x0e then .ok (relocationRecord buf rlad w q l2 true)
  else .ok ({ w with lastt := t }, none)

/-- The loop over the records of a block: `q` is at a length, and `r2` bytes of the
block are left. It is left without a `Left` when the next block is to be read. -/
def recordLoop (buf : Nat) (rlad : Int) : Nat → Work → Nat → Int → Outcome (Work × Option Left)
  | 0, _, _, _ => .diverge
  | fuel + 1, w, q, r2 => do
    let l2 := short w.storage q
    let r2 := r2 - 2
    if l2 > r2 then .ok (w, some .corrupt)
    else
      let r2 := r2 - l2
      if l2 = 0 then .ok (w, none)
      else
        let q := q + 2
        let (w, left) ← loadRecord buf rlad w q l2
        match left with
        | some left => .ok (w, some left)
        | none =>
          let q := advance q l2
          if r2 = 0 then .ok (w, none)
          else if r2 < 12 then .ok (w, some .corrupt)
          else recordLoop buf rlad fuel w (q + 10) (r2 - 10)

/-- The body of the loop over the blocks, for block `rec` of `l` bytes at `p`. The
third one is the directory; the entry point is in the fields of `IHAPDS` at `q + 2`. -/
def loadBlock (buf : Nat) (rlad : Int) (fuel : Nat) (w : Work) (entry : Option Nat) (rec p : Nat)
    (l : Int) : Outcome (Work × Option Nat × Option Left) := do
  if rec = 3 then
    if l < 292 then .ok (w, entry, some .corrupt)
    else
      let q := p + 24
      let l2 := short w.storage q
      if l2 < 32 then .ok (w, entry, some .corrupt)
      else
        let ent := address w.storage (q + 2 + 27)
        .ok (w, some (u32 (buf + ent)), none)
  else if rec > 3 then
    if l < 16 then .ok (w, entry, some .corrupt)
    else
      let (w, left) ← recordLoop buf rlad fuel w (p + 14) (l - 4 - 10)
      .ok (w, entry, left)
  else .ok (w, entry, none)

/-- The loop over the blocks: `rec` of them were read, and `rem` bytes are left at `p`.
When no byte is left the loop goes on all the same. -/
def blockLoop (buf : Nat) (rlad : Int) (inner : Nat) :
    Nat → Work → Option Nat → Nat → Nat → Int → Outcome (Work × Option Nat × Left)
  | 0, _, _, _, _, _ => .diverge
  | fuel + 1, w, entry, rec, p, rem => do
    let l := short w.storage p
    if l > rem then .ok (w, entry, .corrupt)
    else
      let rem := rem - l
      let (w, entry, left) ← loadBlock buf rlad inner w entry (rec + 1) p l
      match left with
      | some left => .ok (w, entry, left)
      | none =>
        if rem ≠ 0 ∧ rem < 2 then .ok (w, entry, .corrupt)
        else blockLoop buf rlad inner fuel w entry (rec + 1) (advance p l) rem

/-- What `fixPE` leaves and returns: `*len` and `*entry`, which may not have been set. -/
structure Fixed where
  storage : Storage
  len : Int
  entry : Option Nat
  said : List Complaint
  result : Int

def fixPE (fuel : Nat) (m : Storage) (buf len : Nat) (rlad : Int) : Outcome Fixed := do
  if len ≤ 8 ∨ word m (buf + 4) ≠ 0xca6d0f then
    .ok ⟨m, len, none, [.notAnExecutable], -1⟩
  else
    let (w, entry, left) ← blockLoop buf rlad fuel fuel ⟨m, buf, -1, []⟩ none 0 buf len
    match left with
    | .corrupt => .ok ⟨w.storage, len, entry, w.said ++ [.corruptModule], -1⟩
    | .loaded => .ok ⟨w.storage, signed32 ((w.upto : Int) - buf), entry, w.said, 0⟩

/-- `main` behind its arguments: the file is read into a buffer of `MAXEXE` bytes, and
what is written is given with the entry point. `strtoul` gives the address. -/
def main (fuel : Nat) (m : Storage) (buf : Nat) (file : List UInt8) (rlad : Nat) :
    Outcome (List Complaint × Option (Option Nat × List UInt8)) := do
  let read := file.take maxExe
  if read.length = maxExe then .ok ([.executableTooBig], none)
  else
    let fixed ← fixPE fuel (store m buf read) buf read.length (signed32 rlad)
    if fixed.result ≠ 0 then .ok (fixed.said ++ [.errorFixingPE], none)
    else .ok (fixed.said, some (fixed.entry, bytes fixed.storage buf fixed.len.toNat))

end Loadzero
