import UDos.Kernel.Zdsfs
import UDos.Library.Loops

/-!
# How long the scan of a disk goes on

The loop of `ModGetZdsfsFile` has no bound. The numbers of records, tracks and
cylinders wrap, a track is left at two record numbers in a row without a record,
and a cylinder at a track without a first record.
-/

namespace Zdsfs

open KernelMemory StateTransition Loops
open DevDisk (FsFdscb)

section
variable (volume : Volume) (name : CString)

/-- The record ends the scan: it ends the table of contents or is taken for the
dataset. -/
def stops (place : FsFdscb) : Bool :=
  match volume place with
  | none => false
  | some record =>
    match kind (record.take sizeofDscb1) with
    | .dataset => alike name (record.take sizeofDscb1)
    | .tableEnd => true
    | .other => false

/-- The loop as a function of the error count and the place. -/
def scanNext : Nat × FsFdscb → Option (Nat × FsFdscb)
  | (errcnt, place) =>
    if errcnt < 4 then
      if volume place = none then some (errcnt + 1, afterError place (errcnt + 1))
      else if stops volume name place then none
      else some (0, nextRecord place)
    else none

/-- The scan that starts at this place comes to an end. -/
def ScanTerminates (start : FsFdscb) : Prop :=
  ∀ r outFdscb, ∃ fuel, searchLoop volume name fuel 0 start r outFdscb ≠ .diverge

/-- The place k record numbers behind on the same track. -/
def onTrack (place : FsFdscb) (k : Nat) : FsFdscb :=
  { place with record := place.record + UInt8.ofNat k }

/-- The first record of the track i tracks behind in the same cylinder. -/
def inCylinder (place : FsFdscb) (i : Nat) : FsFdscb :=
  ⟨place.cyl, place.head + UInt16.ofNat i, 1⟩

/-- The first record of the cylinder i cylinders behind. -/
def onVolume (place : FsFdscb) (i : Nat) : FsFdscb := ⟨place.cyl + UInt16.ofNat i, 0, 1⟩

/-- Two record numbers in a row without a record. -/
def Gap (place : FsFdscb) : Prop := volume place = none ∧ volume (nextRecord place) = none

/-- From this place on the track has a record that ends the scan before a gap. -/
def TrackStops (place : FsFdscb) : Prop :=
  Before (fun k => stops volume name (onTrack place k) = true) fun k => Gap volume (onTrack place k)

/-- From this place on the track has a gap before a record that ends the scan. -/
def TrackLeft (place : FsFdscb) : Prop :=
  Before (fun k => Gap volume (onTrack place k)) fun k => stops volume name (onTrack place k) = true

/-- The track has its first record and is left. -/
def Passed (first : FsFdscb) : Prop := volume first ≠ none ∧ TrackLeft volume name first

/-- The first track of the cylinder that is not passed has a first record and
ends the scan. -/
def CylinderStops (first : FsFdscb) : Prop :=
  Before (fun i => volume (inCylinder first i) ≠ none ∧ TrackStops volume name (inCylinder first i))
    fun i => ¬ Passed volume name (inCylinder first i)

/-- The first track of the cylinder that is not passed has no first record. -/
def CylinderLeft (first : FsFdscb) : Prop :=
  Before (fun i => volume (inCylinder first i) = none) fun i =>
    ¬ Passed volume name (inCylinder first i)

/-- The first cylinder that is not left has no first record or ends the scan. -/
def VolumeStops (first : FsFdscb) : Prop :=
  Before (fun i => volume (onVolume first i) = none ∨ CylinderStops volume name (onVolume first i))
    fun i => ¬ (volume (onVolume first i) ≠ none ∧ CylinderLeft volume name (onVolume first i))

/-- The scan is not caught on a track, in a cylinder or on the volume. -/
def ScanStops (start : FsFdscb) : Prop :=
  TrackStops volume name start ∨ TrackLeft volume name start ∧
    (CylinderStops volume name (afterError start 2) ∨
      CylinderLeft volume name (afterError start 2) ∧ VolumeStops volume name (afterError start 3))

end

section
variable {volume : Volume} {name : CString} {place : FsFdscb}

theorem scanNext_missing {errcnt : Nat} (trying : errcnt < 4) (missing : volume place = none) :
    scanNext volume name (errcnt, place) = some (errcnt + 1, afterError place (errcnt + 1)) := by
  rw [scanNext, if_pos trying, if_pos missing]

theorem scanNext_present {errcnt : Nat} (trying : errcnt < 4) (present : volume place ≠ none) :
    scanNext volume name (errcnt, place) =
      if stops volume name place then none else some (0, nextRecord place) := by
  rw [scanNext, if_pos trying, if_neg present]

theorem present_of_stops (stop : stops volume name place = true) : volume place ≠ none := by
  intro missing
  rw [stops, missing] at stop
  cases stop

/-- The loop of the source follows these steps. -/
theorem searchLoop_step {s t : Nat × FsFdscb} (step : scanNext volume name s = some t)
    (r : Int × FsFdscb) :
    ∃ r' : Int × FsFdscb, ∀ fuel,
      searchLoop volume name (fuel + 1) s.1 s.2 r.1 r.2 =
        searchLoop volume name fuel t.1 t.2 r'.1 r'.2 := by
  obtain ⟨errcnt, place⟩ := s
  by_cases trying : errcnt < 4
  · cases read : volume place with
    | none =>
      rw [scanNext_missing trying read] at step
      cases step
      refine ⟨(-1, r.2), fun fuel => ?_⟩
      rw [searchLoop, if_pos trying]
      simp only [readDisk, read]
      rfl
    | some record =>
      have present : volume place ≠ none := by simp [read]
      rw [scanNext_present trying present, stops, read] at step
      refine ⟨(((record.take sizeofDscb1).length : Int), r.2), fun fuel => ?_⟩
      have nonneg : ¬ ((record.take sizeofDscb1).length : Int) < 0 := by omega
      rw [searchLoop, if_pos trying]
      simp only [readDisk, read, if_neg nonneg]
      cases which : kind (record.take sizeofDscb1) with
      | dataset =>
        simp only [which] at step
        by_cases found : alike name (record.take sizeofDscb1) = true
        · rw [if_pos found] at step
          cases step
        · rw [if_neg found] at step
          cases step
          simp only [if_neg found]
      | tableEnd =>
        simp only [which] at step
        cases step
      | other =>
        simp only [which] at step
        cases step
        rfl
  · rw [scanNext, if_neg trying] at step
    cases step

theorem searchLoop_last {s : Nat × FsFdscb} (last : scanNext volume name s = none) (fuel : Nat)
    (r : Int × FsFdscb) : searchLoop volume name (fuel + 1) s.1 s.2 r.1 r.2 ≠ .diverge := by
  obtain ⟨errcnt, place⟩ := s
  rw [searchLoop]
  by_cases trying : errcnt < 4
  · rw [if_pos trying]
    cases read : volume place with
    | none =>
      rw [scanNext_missing trying read] at last
      cases last
    | some record =>
      have present : volume place ≠ none := by simp [read]
      rw [scanNext_present trying present, stops, read] at last
      have nonneg : ¬ ((record.take sizeofDscb1).length : Int) < 0 := by omega
      simp only [readDisk, read, if_neg nonneg]
      cases which : kind (record.take sizeofDscb1) with
      | dataset =>
        simp only [which] at last
        by_cases found : alike name (record.take sizeofDscb1) = true
        · simp only [if_pos found]
          simp
        · rw [if_neg found] at last
          cases last
      | tableEnd => simp
      | other =>
        simp only [which] at last
        cases last
  · rw [if_neg trying]
    simp

theorem search_ends_iff (start : FsFdscb) (r : Int) (outFdscb : FsFdscb) :
    (∃ fuel, searchLoop volume name fuel 0 start r outFdscb ≠ .diverge) ↔
      Ends (scanNext volume name) (0, start) :=
  @ends_iff_budget _ (scanNext volume name) _ _
    (fun fuel (s : Nat × FsFdscb) (r : Int × FsFdscb) =>
      searchLoop volume name fuel s.1 s.2 r.1 r.2)
    (fun _ _ => rfl) (fun _ _ r step => searchLoop_step step r)
    (fun fuel _ r last => searchLoop_last last fuel r) (0, start) (r, outFdscb)

theorem scanTerminates_iff (start : FsFdscb) :
    ScanTerminates volume name start ↔ Ends (scanNext volume name) (0, start) := by
  constructor
  · exact fun terminates => (search_ends_iff start 0 start).mp (terminates 0 start)
  · exact fun ends r outFdscb => (search_ends_iff start r outFdscb).mpr ends

@[simp] theorem onTrack_zero (place : FsFdscb) : onTrack place 0 = place := by
  obtain ⟨cyl, head, record⟩ := place
  simp [onTrack]

theorem nextRecord_onTrack (place : FsFdscb) (k : Nat) :
    nextRecord (onTrack place k) = onTrack place (k + 1) := by
  simp only [nextRecord, onTrack, UInt8.ofNat_add, UInt8.add_assoc]
  rfl

theorem gap_onTrack {k : Nat} : Gap volume (onTrack place k) ↔
    volume (onTrack place k) = none ∧ volume (onTrack place (k + 1)) = none := by
  rw [Gap, nextRecord_onTrack]

/-- The error count at the k-th record number from a place on. -/
def errorsAt (volume : Volume) (place : FsFdscb) : Nat → Nat
  | 0 => 0
  | k + 1 => if volume (onTrack place k) = none then 1 else 0

/-- The state of the scan at the k-th record number. -/
def turn (volume : Volume) (place : FsFdscb) (k : Nat) : Nat × FsFdscb :=
  (errorsAt volume place k, onTrack place k)

theorem turn_zero (volume : Volume) (place : FsFdscb) : turn volume place 0 = (0, place) := by
  rw [turn, onTrack_zero]
  rfl

theorem errorsAt_le (volume : Volume) (place : FsFdscb) (k : Nat) : errorsAt volume place k ≤ 1 := by
  cases k with
  | zero => exact Nat.zero_le 1
  | succ k =>
    rw [errorsAt]
    split
    · exact Nat.le_refl 1
    · exact Nat.zero_le 1

/-- The scan goes on to the next record number of the track. -/
def GoesOn (volume : Volume) (name : CString) (place : FsFdscb) (k : Nat) : Prop :=
  stops volume name (onTrack place k) = false ∧
    (errorsAt volume place k = 1 → volume (onTrack place k) ≠ none)

theorem goesOn_step {k : Nat} (goesOn : GoesOn volume name place k) :
    scanNext volume name (turn volume place k) = some (turn volume place (k + 1)) := by
  obtain ⟨quiet, single⟩ := goesOn
  have few := errorsAt_le volume place k
  rw [turn, turn, errorsAt]
  by_cases missing : volume (onTrack place k) = none
  · have first : errorsAt volume place k = 0 := by
      have notOne := mt single (not_not.mpr missing)
      omega
    rw [scanNext_missing (by omega) missing, first, if_pos missing, ← nextRecord_onTrack]
    rfl
  · rw [scanNext_present (by omega) missing, quiet, if_neg missing, nextRecord_onTrack]
    rfl

theorem goesOn_leads (k : Nat) (goesOn : GoesOn volume name place k) :
    Reaches₁ (scanNext volume name) (turn volume place k) (turn volume place (k + 1)) :=
  Relation.TransGen.single (goesOn_step goesOn)

theorem goesOn_of_quiet {k : Nat} (quiet : ¬ stops volume name (onTrack place k) = true)
    (noGap : ∀ j < k, ¬ Gap volume (onTrack place j)) : GoesOn volume name place k := by
  refine ⟨Bool.not_eq_true _ ▸ quiet, fun one missing => ?_⟩
  cases k with
  | zero => cases one
  | succ k =>
    rw [errorsAt] at one
    by_cases before : volume (onTrack place k) = none
    · exact noGap k (Nat.lt_succ_self k) (gap_onTrack.mpr ⟨before, missing⟩)
    · rw [if_neg before] at one
      cases one

/-- A track with a gap is left for the next one. -/
theorem TrackLeft.leads (left : TrackLeft volume name place) :
    Reaches₁ (scanNext volume name) (0, place) (2, afterError place 2) := by
  obtain ⟨k, gap, before⟩ := Before.first left
  obtain ⟨missing, next⟩ := gap_onTrack.mp gap
  have noGap : ∀ j < k, ¬ Gap volume (onTrack place j) := fun j hj => (before j hj).1
  have passed : ∀ j < k + 1, GoesOn volume name place j := fun j hj => by
    refine goesOn_of_quiet ?_ fun i hi => noGap i (by omega)
    by_cases last : j = k
    · rw [last]
      exact fun stop => present_of_stops stop missing
    · exact (before j (by omega)).2
  have reached := reaches_of_pass goesOn_leads passed
  have second : errorsAt volume place (k + 1) = 1 := if_pos missing
  have onward : scanNext volume name (turn volume place (k + 1)) = some (2, afterError place 2) := by
    rw [turn, second]
    exact scanNext_missing (by decide) next
  rw [turn_zero] at reached
  exact Relation.TransGen.trans_right reached (Relation.TransGen.single onward)

theorem TrackStops.ends (stop : TrackStops volume name place) :
    Ends (scanNext volume name) (0, place) := by
  obtain ⟨k, here, before⟩ := Before.first stop
  have passed : ∀ j < k, GoesOn volume name place j := fun j hj =>
    goesOn_of_quiet (before j hj).1 fun i hi => (before i (by omega)).2
  have reached := reaches_of_pass goesOn_leads passed
  have few := errorsAt_le volume place k
  have last : scanNext volume name (turn volume place k) = none := by
    rw [turn, scanNext_present (by omega) (present_of_stops here), if_pos here]
  rw [turn_zero] at reached
  exact (ends_iff_of_reaches reached).mpr (ends_of_none last)

theorem not_ends_of_track (noStop : ¬ TrackStops volume name place)
    (noGap : ¬ TrackLeft volume name place) : ¬ Ends (scanNext volume name) (0, place) := by
  have none0 : ∀ k, ¬ stops volume name (onTrack place k) = true ∧
      ¬ Gap volume (onTrack place k) := fun k => by
    constructor
    · exact fun stop => (before_or_before (Or.inl stop)).elim noStop noGap
    · exact fun gap => (before_or_before (Or.inl gap)).elim noGap noStop
  have goesOn : ∀ k, GoesOn volume name place k := fun k =>
    goesOn_of_quiet (none0 k).1 fun j _ => (none0 j).2
  have endless := not_ends_of_chain fun k => goesOn_leads k (goesOn k)
  rwa [turn_zero] at endless

theorem ends_track_iff (place : FsFdscb) : Ends (scanNext volume name) (0, place) ↔
    TrackStops volume name place ∨
      TrackLeft volume name place ∧ Ends (scanNext volume name) (2, afterError place 2) := by
  by_cases left : TrackLeft volume name place
  · have same := ends_iff_of_reaches left.leads.to_reflTransGen
    constructor
    · exact fun ends => Or.inr ⟨left, same.mp ends⟩
    · rintro (stop | ⟨_, ends⟩)
      · exact stop.ends
      · exact same.mpr ends
  · constructor
    · intro ends
      by_contra none0
      exact not_ends_of_track (fun stop => none0 (Or.inl stop)) left ends
    · rintro (stop | ⟨left', _⟩)
      · exact stop.ends
      · exact absurd left' left

theorem scanNext_count {errcnt errcnt' : Nat} (trying : errcnt < 4) (trying' : errcnt' < 4)
    (present : volume place ≠ none) :
    scanNext volume name (errcnt, place) = scanNext volume name (errcnt', place) := by
  rw [scanNext_present trying present, scanNext_present trying' present]

section
variable {first : FsFdscb}

theorem inCylinder_zero (isFirst : first.record = 1) : inCylinder first 0 = first := by
  obtain ⟨cyl, head, record⟩ := first
  cases isFirst
  simp [inCylinder]

theorem inCylinder_next (first : FsFdscb) (i : Nat) :
    afterError (inCylinder first i) 2 = inCylinder first (i + 1) := by
  simp only [afterError, inCylinder, UInt16.ofNat_add, UInt16.add_assoc]
  rfl

theorem passed_leads (i : Nat) (passed : Passed volume name (inCylinder first i)) :
    Reaches₁ (scanNext volume name) (2, inCylinder first i) (2, inCylinder first (i + 1)) := by
  obtain ⟨present, left⟩ := passed
  have same : scanNext volume name (2, inCylinder first i) =
      scanNext volume name (0, inCylinder first i) := scanNext_count (by decide) (by decide) present
  rw [reaches₁_eq same, ← inCylinder_next]
  exact left.leads

theorem CylinderLeft.leads (left : CylinderLeft volume name first) (isFirst : first.record = 1) :
    Reaches₁ (scanNext volume name) (2, first) (3, afterError first 3) := by
  obtain ⟨k, missing, before⟩ := left
  have reached := reaches_of_pass passed_leads fun i hi => not_not.mp (before i hi)
  have onward : scanNext volume name (2, inCylinder first k) = some (3, afterError first 3) :=
    scanNext_missing (by decide) missing
  rw [inCylinder_zero isFirst] at reached
  exact Relation.TransGen.trans_right reached (Relation.TransGen.single onward)

theorem ends_first_iff {errcnt : Nat} (trying : errcnt < 4) (present : volume first ≠ none)
    (kept : ¬ TrackLeft volume name first) :
    Ends (scanNext volume name) (errcnt, first) ↔ TrackStops volume name first := by
  rw [ends_congr (scanNext_count trying (show 0 < 4 by decide) present), ends_track_iff]
  simp only [kept, false_and, or_false]

theorem ends_cylinder_iff (isFirst : first.record = 1) :
    Ends (scanNext volume name) (2, first) ↔ CylinderStops volume name first ∨
      CylinderLeft volume name first ∧ Ends (scanNext volume name) (3, afterError first 3) := by
  have chain := ends_iff_of_chain (@passed_leads volume name first)
  rw [inCylinder_zero isFirst] at chain
  rw [chain]
  constructor
  · rintro ⟨k, passed, stuck, ends⟩
    have before : ∀ i < k, ¬ ¬ Passed volume name (inCylinder first i) := fun i hi =>
      not_not.mpr (passed i hi)
    by_cases missing : volume (inCylinder first k) = none
    · have onward : scanNext volume name (2, inCylinder first k) = some (3, afterError first 3) :=
        scanNext_missing (by decide) missing
      exact Or.inr ⟨⟨k, missing, before⟩, (ends_iff_of_next onward).mp ends⟩
    · have kept : ¬ TrackLeft volume name (inCylinder first k) := fun left => stuck ⟨missing, left⟩
      exact Or.inl ⟨k, ⟨missing, (ends_first_iff (by decide) missing kept).mp ends⟩, before⟩
  · rw [← chain]
    rintro (⟨k, ⟨present, stop⟩, before⟩ | ⟨left, ends⟩)
    · have reached := reaches_of_pass passed_leads fun i hi => not_not.mp (before i hi)
      rw [inCylinder_zero isFirst] at reached
      have same : scanNext volume name (2, inCylinder first k) =
          scanNext volume name (0, inCylinder first k) :=
        scanNext_count (by decide) (by decide) present
      exact (ends_iff_of_reaches reached).mpr ((ends_congr same).mpr stop.ends)
    · exact (ends_iff_of_reaches (left.leads isFirst).to_reflTransGen).mpr ends

theorem onVolume_zero (isFirst : first.record = 1) (onHead : first.head = 0) :
    onVolume first 0 = first := by
  obtain ⟨cyl, head, record⟩ := first
  cases isFirst
  cases onHead
  simp [onVolume]

theorem onVolume_next (first : FsFdscb) (i : Nat) :
    afterError (onVolume first i) 3 = onVolume first (i + 1) := by
  simp only [afterError, onVolume, UInt16.ofNat_add, UInt16.add_assoc]
  rfl

theorem cylinder_leads (i : Nat) (passed : volume (onVolume first i) ≠ none ∧
      CylinderLeft volume name (onVolume first i)) :
    Reaches₁ (scanNext volume name) (3, onVolume first i) (3, onVolume first (i + 1)) := by
  obtain ⟨present, left⟩ := passed
  have same : scanNext volume name (3, onVolume first i) =
      scanNext volume name (2, onVolume first i) := scanNext_count (by decide) (by decide) present
  rw [reaches₁_eq same, ← onVolume_next]
  exact left.leads rfl

theorem ends_volume_iff (isFirst : first.record = 1) (onHead : first.head = 0) :
    Ends (scanNext volume name) (3, first) ↔ VolumeStops volume name first := by
  have chain := ends_iff_of_chain (@cylinder_leads volume name first)
  rw [onVolume_zero isFirst onHead] at chain
  rw [chain]
  constructor
  · rintro ⟨k, passed, stuck, ends⟩
    refine ⟨k, ?_, fun i hi => not_not.mpr (passed i hi)⟩
    by_cases missing : volume (onVolume first k) = none
    · exact Or.inl missing
    · rw [ends_congr (scanNext_count (show 3 < 4 by decide) (show 2 < 4 by decide) missing),
        ends_cylinder_iff rfl] at ends
      exact Or.inr (ends.resolve_right fun left => stuck ⟨missing, left.1⟩)
  · rw [← chain]
    rintro ⟨k, stop, before⟩
    have reached := reaches_of_pass cylinder_leads fun i hi => not_not.mp (before i hi)
    rw [onVolume_zero isFirst onHead] at reached
    refine (ends_iff_of_reaches reached).mpr ?_
    by_cases missing : volume (onVolume first k) = none
    · have step : scanNext volume name (3, onVolume first k) = _ :=
        scanNext_missing (by decide) missing
      exact (ends_iff_of_next step).mpr (ends_of_none rfl)
    · have ends := (ends_cylinder_iff rfl).mpr (Or.inl (stop.resolve_left missing))
      exact (ends_congr (scanNext_count (by decide) (by decide) missing)).mpr ends

end

/-- The scan terminates where every track has a gap, every cylinder a track
without a first record, and the volume a cylinder without one. -/
theorem scanTerminates_of_gaps (gaps : ∀ place, ∃ k, Gap volume (onTrack place k))
    (tracks : ∀ first, ∃ i, volume (inCylinder first i) = none)
    (cylinders : ∀ first, ∃ i, volume (onVolume first i) = none) (start : FsFdscb) :
    ScanTerminates volume name start := by
  have track : ∀ place, TrackStops volume name place ∨ TrackLeft volume name place := fun place => by
    obtain ⟨k, gap⟩ := gaps place
    exact before_or_before (Or.inr gap)
  have cylinder : ∀ first, CylinderStops volume name first ∨ CylinderLeft volume name first := by
    intro first
    obtain ⟨i, missing⟩ := tracks first
    have some : ∃ i, ¬ Passed volume name (inCylinder first i) :=
      ⟨i, fun passed => passed.1 missing⟩
    obtain ⟨k, stuck, before⟩ := exists_first some
    by_cases absent : volume (inCylinder first k) = none
    · exact Or.inr ⟨k, absent, before⟩
    · have stop := (track (inCylinder first k)).resolve_right fun left => stuck ⟨absent, left⟩
      exact Or.inl ⟨k, ⟨absent, stop⟩, before⟩
  have whole : ∀ first, VolumeStops volume name first := by
    intro first
    obtain ⟨i, missing⟩ := cylinders first
    have some : ∃ i, ¬ (volume (onVolume first i) ≠ none ∧
        CylinderLeft volume name (onVolume first i)) := ⟨i, fun left => left.1 missing⟩
    obtain ⟨k, stuck, before⟩ := exists_first some
    refine ⟨k, ?_, before⟩
    by_cases absent : volume (onVolume first k) = none
    · exact Or.inl absent
    · exact Or.inr ((cylinder _).resolve_right fun left => stuck ⟨absent, left⟩)
  rw [scanTerminates_iff, ends_track_iff, ends_cylinder_iff rfl, ends_volume_iff rfl rfl]
  exact (track start).imp_right fun left =>
    ⟨left, (cylinder _).imp_right fun leaves => ⟨leaves, whole _⟩⟩

/-- The scan terminates on every volume whose record numbers stay below 254 and
whose tracks and cylinders do not use up their numbers. -/
theorem scanTerminates_of_geometry
    (inside : ∀ place, volume place ≠ none →
      place.record < 254 ∧ place.head < 65535 ∧ place.cyl < 65535) (start : FsFdscb) :
    ScanTerminates volume name start := by
  have outside : ∀ place : FsFdscb,
      ¬ (place.record < 254 ∧ place.head < 65535 ∧ place.cyl < 65535) → volume place = none :=
    fun place away => not_not.mp fun present => away (inside place present)
  refine scanTerminates_of_gaps (fun place => ?_) (fun first => ?_) (fun first => ?_) start
  · have last : (onTrack place (254 - place.record).toNat).record = 254 := by
      rw [onTrack, UInt8.ofNat_toNat, UInt8.add_comm, UInt8.sub_add_cancel]
    refine ⟨(254 - place.record).toNat, outside _ ?_, outside _ ?_⟩
    · rw [last]
      exact fun within => absurd within.1 (by decide)
    · rw [nextRecord, last]
      exact fun within => absurd within.1 (show ¬ (254 + 1 : UInt8) < 254 by decide)
  · have last : (inCylinder first (65535 - first.head).toNat).head = 65535 := by
      rw [inCylinder, UInt16.ofNat_toNat, UInt16.add_comm, UInt16.sub_add_cancel]
    refine ⟨(65535 - first.head).toNat, outside _ ?_⟩
    rw [last]
    exact fun within => absurd within.2.1 (by decide)
  · have last : (onVolume first (65535 - first.cyl).toNat).cyl = 65535 := by
      rw [onVolume, UInt16.ofNat_toNat, UInt16.add_comm, UInt16.sub_add_cancel]
    refine ⟨(65535 - first.cyl).toNat, outside _ ?_⟩
    rw [last]
    exact fun within => absurd within.2.2 (by decide)

end

/-- The scan terminates exactly when it is caught on no track, in no cylinder and
not on the volume: a track catches it that has neither a record that ends the
scan nor two record numbers in a row without a record, a cylinder if all its
tracks are passed, and the volume if all its cylinders are left. Volumes that
keep below the ends of the three numbers catch it nowhere. -/
theorem scanTerminates_iff_stops (volume : Volume) (name : CString) (start : FsFdscb) :
    (ScanTerminates volume name start ↔ ScanStops volume name start) ∧
      ((∀ place, volume place ≠ none →
          place.record < 254 ∧ place.head < 65535 ∧ place.cyl < 65535) →
        ScanTerminates volume name start) := by
  refine ⟨?_, fun inside => scanTerminates_of_geometry inside start⟩
  rw [scanTerminates_iff, ends_track_iff, ends_cylinder_iff rfl, ends_volume_iff rfl rfl, ScanStops]
  rfl

/-- A volume of one track with all 256 records, of 20 bytes each. -/
def fullTrack : Volume := fun place =>
  if place.cyl = 0 ∧ place.head = 0 then some (List.replicate 20 0) else none

theorem fullTrack_present (k : Nat) :
    fullTrack (onTrack ⟨0, 0, 0⟩ k) = some (List.replicate 20 0) := if_pos ⟨rfl, rfl⟩

/-- The scan goes round this track. -/
theorem full_track_endless : ¬ ScanTerminates fullTrack nameA ⟨0, 0, 0⟩ ∧
    ∀ fuel, modGetZdsfsFile fuel 1 fullTrack ⟨0, 0, 0⟩ nameA = .diverge := by
  have noGap : ¬ TrackLeft fullTrack nameA ⟨0, 0, 0⟩ := by
    rintro ⟨k, ⟨missing, _⟩, _⟩
    rw [fullTrack_present] at missing
    cases missing
  have noStop : ¬ TrackStops fullTrack nameA ⟨0, 0, 0⟩ := by
    rintro ⟨k, stop, _⟩
    simp only [stops, fullTrack_present] at stop
    exact absurd stop (by decide)
  have endless := not_ends_of_track noStop noGap
  refine ⟨fun terminates => endless ((scanTerminates_iff _).mp terminates), fun fuel => ?_⟩
  have caught : ∀ r outFdscb, searchLoop fullTrack nameA fuel 0 ⟨0, 0, 0⟩ r outFdscb = .diverge :=
    fun r outFdscb => by
      by_contra stops
      exact endless ((search_ends_iff _ r outFdscb).mp ⟨fuel, stops⟩)
  have label : fullTrack labelPlace = some (List.replicate 20 0) := if_pos ⟨rfl, rfl⟩
  have start : tableStart ((List.replicate 20 0).take 20) = ⟨0, 0, 0⟩ := rfl
  rw [modGetZdsfsFile, Outcome.check_of (by decide), Outcome.ok_bind]
  simp only [readDisk, label, start, caught]
  rfl

end Zdsfs
