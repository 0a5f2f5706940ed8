import Mathlib.Order.Bounds.Basic
import BaselineTier.Proofs.Allocation.Pressure

/-! # Supply and demand of a scan

A range covers the positions from its start to its effective end.  A scan with enough
registers for the ranges that cover a position, at every position, spills nothing; one that
spills nothing has enough, since ranges that cover one position are in different registers.

The pressure is only counted where a range gets a register.  That loses nothing: of the ranges
in registers that cover a position, the last to start sees all the others at its own start, so
the count there is no lower.
-/

set_option autoImplicit false

namespace BaselineTier

open Machine (Register RegisterSet)

namespace LiveRange

/-- Whether a position lies in the range, for interference. -/
def covers (r : LiveRange) (position : Nat) : Bool :=
  r.start ≤ position && position < r.effectiveEnd

theorem covers_iff {r : LiveRange} {position : Nat} :
    r.covers position = true ↔ r.start ≤ position ∧ position < r.effectiveEnd := by
  simp only [covers, Bool.and_eq_true, decide_eq_true_eq]

/-- Before the last position there is, a range covers its start. -/
theorem covers_start {r : LiveRange} (h : r.start < positionLimit) :
    r.covers r.start = true := by
  refine covers_iff.mpr ⟨Nat.le_refl _, ?_⟩
  unfold effectiveEnd
  omega

theorem needsAt_eq_covers {r : LiveRange} (h : r.start < positionLimit) (position : Nat) :
    r.needsAt position = r.covers position := by
  have hstart := (covers_iff.mp (covers_start h)).2
  rw [Bool.eq_iff_iff, needsAt_iff, covers_iff]
  constructor
  · rintro (rfl | ⟨hlt, hend⟩)
    · exact ⟨Nat.le_refl _, hstart⟩
    · exact ⟨Nat.le_of_lt hlt, hend⟩
  · rintro ⟨hle, hend⟩
    exact (Nat.lt_or_eq_of_le hle).elim (fun hlt => .inr ⟨hlt, hend⟩) .inl

end LiveRange

namespace LinearScan

/-- How many ranges cover a position. -/
def coverage (ranges : List LiveRange) (position : Nat) : Nat :=
  ranges.countP (·.covers position)

/-- How many of the ranges that cover a position are in registers. -/
def heldCoverage (a : Allocation) (ranges : List LiveRange) (position : Nat) : Nat :=
  ranges.countP fun r => (a.register? r.value).isSome && r.covers position

/-- How many ranges that cover a position were given registers. -/
def granted (decided : List Decision) (position : Nat) : Nat :=
  decided.countP fun d => d.place.register?.isSome && d.range.covers position

/-! ## The peak is the greatest coverage -/

section Decisions

variable {decided : List Decision} {d : Decision} {position : Nat}

theorem granted_cons (d : Decision) (decided : List Decision) (position : Nat) :
    granted (d :: decided) position = granted decided position +
      if d.place.register?.isSome && d.range.covers position then 1 else 0 :=
  List.countP_cons ..

theorem granted_le_cons (d : Decision) (decided : List Decision) (position : Nat) :
    granted decided position ≤ granted (d :: decided) position :=
  (List.sublist_cons_self d decided).countP_le

/-- The registers in use at a position, as holdings, are at least those of the ranges that
cover a later one. -/
theorem granted_le_length (decided : List Decision) {earliest : Nat} (hle : earliest ≤ position) :
    granted decided position ≤
      ((holdings decided).filter (earliest < ·.expiry)).length := by
  induction decided with
  | nil => exact Nat.le_refl _
  | cons d decided ih =>
    obtain ⟨range, place⟩ := d
    rw [granted_cons]
    cases place with
    | spilled => exact ih
    | register q =>
      rw [holdings_cons_register]
      by_cases hcovers : range.covers position = true
      · have hlasts : earliest < range.effectiveEnd :=
          Nat.lt_of_le_of_lt hle (LiveRange.covers_iff.mp hcovers).2
        rw [List.filter_cons_of_pos (by simpa using hlasts), List.length_cons]
        simpa [Place.register?, hcovers] using ih
      · have hrest := Nat.le_trans ih
          ((List.sublist_cons_self ⟨range.value, q, range.effectiveEnd⟩
            (holdings decided)).filter _).length_le
        simpa [Place.register?, hcovers] using hrest

/-- Where all ranges have started, the registers in use are those of the ranges that cover
the position. -/
theorem length_le_granted (hstarts : ∀ e ∈ decided, e.range.start ≤ position) :
    ((holdings decided).filter (position < ·.expiry)).length ≤ granted decided position := by
  induction decided with
  | nil => exact Nat.le_refl _
  | cons d decided ih =>
    obtain ⟨hstart, hrest⟩ := List.forall_mem_cons.mp hstarts
    obtain ⟨range, place⟩ := d
    cases place with
    | spilled => exact ih hrest
    | register q =>
      rw [holdings_cons_register, granted_cons]
      by_cases hlasts : position < range.effectiveEnd
      · have hcovers := LiveRange.covers_iff.mpr ⟨hstart, hlasts⟩
        rw [List.filter_cons_of_pos (by simpa using hlasts), List.length_cons]
        simpa [Place.register?, hcovers] using ih hrest
      · rw [List.filter_cons_of_neg (by simpa using hlasts)]
        exact Nat.le_trans (ih hrest) (Nat.le_add_right _ _)

/-- At no position do more ranges have registers than the peak says. -/
theorem granted_le_peak (decided : List Decision) (position : Nat) :
    granted decided position ≤ peak decided := by
  induction decided with
  | nil => exact Nat.le_refl _
  | cons d decided ih =>
    obtain ⟨range, place⟩ := d
    rw [granted_cons]
    cases place with
    | spilled => exact ih
    | register q =>
      by_cases hcovers : range.covers position = true
      · -- the newest range sees those that it meets at the position at its own start
        have hheld := granted_le_length decided (LiveRange.covers_iff.mp hcovers).1
        rw [if_pos (by simp [Place.register?, hcovers])]
        exact Nat.le_trans (Nat.succ_le_succ hheld) (Nat.le_max_right _ _)
      · rw [if_neg (by simp [hcovers])]
        exact Nat.le_trans ih (Nat.le_max_left _ _)

/-- The peak is reached at some position. -/
theorem exists_peak_le_granted
    (hsorted : decided.Pairwise fun d earlier => earlier.range.start ≤ d.range.start)
    (hstarts : ∀ d ∈ decided, d.range.start < LiveRange.positionLimit) :
    ∃ position, peak decided ≤ granted decided position := by
  induction decided with
  | nil => exact ⟨0, Nat.le_refl _⟩
  | cons d decided ih =>
    obtain ⟨hbefore, hrest⟩ := List.pairwise_cons.mp hsorted
    obtain ⟨hstart, hstarts⟩ := List.forall_mem_cons.mp hstarts
    obtain ⟨position, hposition⟩ := ih hrest hstarts
    have hearlier := Nat.le_trans hposition (granted_le_cons d decided position)
    obtain ⟨range, place⟩ := d
    cases place with
    | spilled => exact ⟨position, hearlier⟩
    | register q =>
      rcases Nat.le_total (peak decided)
        (((holdings decided).filter (range.start < ·.expiry)).length + 1) with hle | hle
      · refine ⟨range.start, Nat.le_trans (Nat.le_of_eq (Nat.max_eq_right hle)) ?_⟩
        rw [granted_cons, if_pos (by simp [Place.register?, LiveRange.covers_start hstart])]
        exact Nat.succ_le_succ (length_le_granted hbefore)
      · exact ⟨position, Nat.le_trans (Nat.le_of_eq (Nat.max_eq_left hle)) hearlier⟩

end Decisions

/-! ## Scans -/

section Scans

variable {registers : RegisterSet} {ranges : List LiveRange}

theorem demand_eq_coverage (hstarts : ∀ r ∈ ranges, r.start < LiveRange.positionLimit)
    (position : Nat) : demand ranges position = coverage ranges position :=
  List.countP_congr fun r hr => by rw [LiveRange.needsAt_eq_covers (hstarts r hr)]

theorem register?_run (hnodup : (ranges.map (·.value)).Nodup) {d : Decision}
    (hd : d ∈ greedy registers (ordered ranges)) :
    (allocate registers ranges).1.register? d.range.value = d.place.register? := by
  have hplace : (allocate registers ranges).1.place? d.range.value = some d.place :=
    (place?_run hnodup).mpr ⟨d, hd, rfl, rfl⟩
  rw [Allocation.register?, hplace, Option.bind_some]

theorem perm_map_range (registers : RegisterSet) (ranges : List LiveRange) :
    ((greedy registers (ordered ranges)).map (·.range)).Perm ranges := by
  rw [map_range_greedy]
  exact (List.reverse_perm _).trans (ordered_perm ranges)

/-- The ranges in registers are those that the greedy rule gave one. -/
theorem heldCoverage_eq_granted (hnodup : (ranges.map (·.value)).Nodup) (position : Nat) :
    heldCoverage (allocate registers ranges).1 ranges position =
      granted (greedy registers (ordered ranges)) position := by
  rw [heldCoverage, ← (perm_map_range registers ranges).countP_eq, List.countP_map]
  refine List.countP_congr fun d hd => ?_
  rw [Function.comp_apply, register?_run hnodup hd]

/-- A scan that spills nothing has all ranges in registers. -/
theorem coverage_eq_granted (hnodup : (ranges.map (·.value)).Nodup)
    (hspilled : (allocate registers ranges).2.spilled = 0) (position : Nat) :
    coverage ranges position = granted (greedy registers (ordered ranges)) position := by
  obtain ⟨last, h⟩ := run_follows_greedy registers hnodup
  have hnone := List.countP_eq_zero.mp (h.spilled_eq.symm.trans hspilled)
  rw [coverage, ← (perm_map_range registers ranges).countP_eq, List.countP_map]
  refine List.countP_congr fun d hd => ?_
  have hplace : d.place ≠ .spilled := fun heq => hnone d hd (decide_eq_true heq)
  cases hplace' : d.place with
  | spilled => exact absurd hplace' hplace
  | register q => simp [Place.register?]

/-- A scan spills exactly when demand exceeds supply.  For all ranges of different values that
start before the last position there is, and every set of registers:

* nothing is spilled exactly if at every position there are as many registers as ranges that
  cover it;
* the pressure is the greatest number of ranges in registers that cover one position, and it
  is at most the number of registers. -/
theorem spills_iff_demand_exceeds_supply (registers : RegisterSet) {ranges : List LiveRange}
    (hnodup : (ranges.map (·.value)).Nodup)
    (hstarts : ∀ r ∈ ranges, r.start < LiveRange.positionLimit) :
    let a := (allocate registers ranges).1
    let stats := (allocate registers ranges).2
    (stats.spilled = 0 ↔ ∀ position, coverage ranges position ≤ registers.size) ∧
    IsGreatest (Set.range (heldCoverage a ranges)) stats.maxPressure ∧
    stats.maxPressure ≤ registers.size := by
  intro a stats
  obtain ⟨last, h⟩ := run_follows_greedy registers hnodup
  have hpeak : stats.maxPressure = peak (greedy registers (ordered ranges)) := h.maxPressure_eq
  have hsupply : stats.maxPressure ≤ registers.size := h.maxPressure_le
  refine ⟨⟨fun hspilled position => ?_, fun hcoverage => ?_⟩, ⟨?_, ?_⟩, hsupply⟩
  · calc coverage ranges position
        = granted (greedy registers (ordered ranges)) position :=
          coverage_eq_granted hnodup hspilled position
      _ ≤ stats.maxPressure := hpeak ▸ granted_le_peak _ position
      _ ≤ registers.size := hsupply
  · refine spilled_eq_zero_of_demand hnodup fun position => ?_
    rw [demand_eq_coverage hstarts]
    exact hcoverage position
  · have hstarts' : ∀ d ∈ greedy registers (ordered ranges),
        d.range.start < LiveRange.positionLimit := fun d hd =>
      hstarts _ ((perm_map_range registers ranges).mem_iff.mp (List.mem_map_of_mem hd))
    obtain ⟨position, hposition⟩ :=
      exists_peak_le_granted (pairwise_start_greedy registers ranges) hstarts'
    refine ⟨position, ?_⟩
    rw [heldCoverage_eq_granted hnodup, hpeak]
    exact Nat.le_antisymm (granted_le_peak _ position) hposition
  · rintro n ⟨position, rfl⟩
    rw [heldCoverage_eq_granted hnodup, hpeak]
    exact granted_le_peak _ position

/-- Ranges of which four meet at one position. -/
def crossingRanges : List LiveRange :=
  [⟨2, 2, 9⟩, ⟨0, 0, 5⟩, ⟨4, 3, 3⟩, ⟨1, 1, 4⟩, ⟨9, 0xFFFFFFFE, 0xFFFFFFFF⟩]

theorem crossingRanges_spill :
    (allocate smallRegisters crossingRanges).2.spilled ≠ 0 ∧
    (allocate smallRegisters crossingRanges).2.maxPressure ≤ 3 ∧
    (allocate .allocatable crossingRanges).2.spilled = 0 := by
  have hnodup : (crossingRanges.map (·.value)).Nodup := by decide
  have hstarts : ∀ r ∈ crossingRanges, r.start < LiveRange.positionLimit := by decide
  obtain ⟨hfew, -, hpressure⟩ := spills_iff_demand_exceeds_supply smallRegisters hnodup hstarts
  obtain ⟨hmany, -, -⟩ := spills_iff_demand_exceeds_supply .allocatable hnodup hstarts
  refine ⟨fun hnone => ?_, hpressure, hmany.mpr fun position => ?_⟩
  · exact absurd (hfew.mp hnone 3) (by decide)
  · have henough : crossingRanges.length ≤ RegisterSet.allocatable.size := by decide
    exact Nat.le_trans List.countP_le_length henough

end Scans

end LinearScan

end BaselineTier
