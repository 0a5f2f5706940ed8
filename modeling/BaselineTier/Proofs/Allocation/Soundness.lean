import Mathlib.Data.List.Nodup
import BaselineTier.Proofs.Allocation.Greedy
import BaselineTier.Proofs.Allocation.Liveness

/-! # Soundness of register allocation

The allocation of a program gives every value that the program defines one place, and
values that need different registers get different ones.  Both are read off the
greedy rule: it decides every range once, and hands out a register only when no
earlier range still holds it.
-/

set_option autoImplicit false

namespace BaselineTier.LinearScan

open Machine (Register RegisterSet)
open Bytecode (Program)

/-! ## Places and registers -/

theorem register?_eq_some_iff {a : Allocation} {v : Nat} {q : Register} :
    a.register? v = some q ↔ a.place? v = some (.register q) := by
  unfold Allocation.register?
  cases a.place? v with
  | none => simp
  | some place => cases place <;> simp [Place.register?]

/-- A value that has a place is in a register or spilled, and not both. -/
theorem isSome_register?_ne_isSpilled {a : Allocation} {v : Nat} {place : Place}
    (h : a.place? v = some place) : (a.register? v).isSome ≠ a.isSpilled v := by
  cases place with
  | register q => simp [Allocation.register?, Allocation.isSpilled, h, Place.register?]
  | spilled => simp [Allocation.register?, Allocation.isSpilled, h, Place.register?]

theorem ne_reserved_of_contains_unreserved {gprs : RegisterSet} {q : Register}
    (h : gprs.unreserved.contains q = true) : q ≠ .stackPointer ∧ q ≠ .framePointer := by
  simp only [RegisterSet.unreserved, RegisterSet.contains_erase, Bool.and_eq_true,
    decide_eq_true_eq] at h
  exact ⟨h.1.2.symm, h.2.symm⟩

/-! ## Scans of ranges with distinct values -/

section Ranges

variable {registers : RegisterSet} {ranges : List LiveRange}

/-- Exactly the values of the ranges have a place. -/
theorem exists_place?_iff (hnodup : (ranges.map (·.value)).Nodup) {v : Nat} :
    (∃ place, (allocate registers ranges).1.place? v = some place) ↔
      v ∈ ranges.map (·.value) := by
  have hdecided : ∀ r, r ∈ ranges ↔ r ∈ (greedy registers (ordered ranges)).map (·.range) := by
    intro r
    rw [map_range_greedy, List.mem_reverse, (ordered_perm ranges).mem_iff]
  constructor
  · rintro ⟨place, hplace⟩
    obtain ⟨d, hd, rfl, -⟩ := (place?_run hnodup).mp hplace
    exact List.mem_map.mpr ⟨d.range, (hdecided _).mpr (List.mem_map.mpr ⟨d, hd, rfl⟩), rfl⟩
  · intro hv
    obtain ⟨r, hr, rfl⟩ := List.mem_map.mp hv
    obtain ⟨d, hd, rfl⟩ := List.mem_map.mp ((hdecided r).mp hr)
    exact ⟨d.place, (place?_run hnodup).mpr ⟨d, hd, rfl, rfl⟩⟩

/-- A register in use comes from the set the scan was given. -/
theorem contains_of_register? (hnodup : (ranges.map (·.value)).Nodup) {v : Nat}
    {q : Register} (h : (allocate registers ranges).1.register? v = some q) :
    registers.contains q = true := by
  obtain ⟨d, hd, -, hplace⟩ := (place?_run hnodup).mp (register?_eq_some_iff.mp h)
  exact contains_of_mem_greedy hd hplace

theorem overlaps_eq_false_of_le {r s : LiveRange} (h : r.effectiveEnd ≤ s.start) :
    r.overlaps s = false := by
  simp only [LiveRange.overlaps, Bool.and_eq_false_iff, decide_eq_false_iff_not]
  omega

/-- Decisions for different values agree on a register only when their ranges do not
overlap. -/
theorem overlaps_eq_false_of_mem_greedy {d e : Decision}
    (hd : d ∈ greedy registers ranges) (he : e ∈ greedy registers ranges)
    (hne : d.range.value ≠ e.range.value) {q : Register} (hdq : d.place = .register q)
    (heq : e.place = .register q) : d.range.overlaps e.range = false := by
  -- the greedy rule orders any two decisions, and the statement does not care which way
  have hpairwise := pairwise_greedy registers ranges
  have hall := List.Pairwise.forall_of_forall_of_flip
    (R := fun d e => d.range.value ≠ e.range.value → ∀ q, d.place = .register q →
      e.place = .register q → d.range.overlaps e.range = false)
    (fun d _ hself => absurd rfl hself)
    (hpairwise.imp fun hended _ q hlater hearlier => by
      rw [LiveRange.overlaps_comm]
      exact overlaps_eq_false_of_le (hended q hlater hearlier))
    (hpairwise.imp fun hended _ q hearlier hlater =>
      overlaps_eq_false_of_le (hended q hlater hearlier))
  exact hall hd he hne q hdq heq

/-- Overlapping ranges of different values are not in one register. -/
theorem register?_ne_of_overlaps (hnodup : (ranges.map (·.value)).Nodup) {r s : LiveRange}
    (hr : r ∈ ranges) (hs : s ∈ ranges) (hne : r.value ≠ s.value)
    (hoverlaps : r.overlaps s = true) {q q' : Register}
    (hq : (allocate registers ranges).1.register? r.value = some q)
    (hq' : (allocate registers ranges).1.register? s.value = some q') : q ≠ q' := by
  rintro rfl
  have hrange : ∀ {d : Decision} {t : LiveRange}, d ∈ greedy registers (ordered ranges) →
      t ∈ ranges → d.range.value = t.value → d.range = t := by
    intro d t hd ht hvalue
    have hmem : d.range ∈ ranges := by
      rw [← (ordered_perm ranges).mem_iff, ← List.mem_reverse, ← map_range_greedy registers]
      exact List.mem_map.mpr ⟨d, hd, rfl⟩
    exact List.inj_on_of_nodup_map hnodup hmem ht hvalue
  obtain ⟨d, hd, hdr, hdq⟩ := (place?_run hnodup).mp (register?_eq_some_iff.mp hq)
  obtain ⟨e, he, hes, heq⟩ := (place?_run hnodup).mp (register?_eq_some_iff.mp hq')
  have hdisjoint := overlaps_eq_false_of_mem_greedy hd he (by rw [hdr, hes]; exact hne) hdq heq
  rw [hrange hd hr hdr, hrange he hs hes, hoverlaps] at hdisjoint
  cases hdisjoint

/-- The statistics count every range once, and every range has one place. -/
theorem stats_run (hnodup : (ranges.map (·.value)).Nodup) :
    let result := allocate registers ranges
    result.2.allocated + result.2.spilled = result.2.values ∧
      result.2.values = result.1.size := by
  intro result
  obtain ⟨last, h⟩ := run_follows_greedy registers hnodup
  have hvalues : result.2.values = ranges.length := values_foldl_visit _ _
  have hlength : (greedy registers (ordered ranges)).length = ranges.length := by
    rw [← List.length_map, map_range_greedy, List.length_reverse]
    exact (ordered_perm ranges).length_eq
  have hsize : result.1.size = ranges.length := by
    rw [← hlength]
    exact (congrArg List.length h.pairs_eq).trans (List.length_map _)
  have hcounts : result.2.allocated + result.2.spilled =
      (greedy registers (ordered ranges)).length := by
    rw [List.length_eq_countP_add_countP (fun d => decide (d.place ≠ .spilled))]
    refine congr (congrArg _ h.allocated_eq) (h.spilled_eq.trans ?_)
    congr 1
    funext d
    simp
  omega

end Ranges

/-! ## Programs -/

/-- Register allocation is sound.  For every program, whether its stack underflows or
not, and every set of registers:

* different values whose live ranges overlap are not in one register;
* each value that the program defines is in a register or spilled, not both, and no
  other value has a place;
* registers come from the given set, so the registers that hold the frame are not
  among them when the set was made without them;
* the counts of the scan add up to the number of values, which is the size of the
  allocation. -/
theorem allocateProgram_is_sound (registers : RegisterSet) (p : Program) :
    let ranges := (Liveness.ofProgram p).ranges
    let a := (allocateProgram registers p).1
    let stats := (allocateProgram registers p).2
    (∀ r ∈ ranges, ∀ s ∈ ranges, r.value ≠ s.value → r.overlaps s = true →
      ∀ q q', a.register? r.value = some q → a.register? s.value = some q' → q ≠ q') ∧
    (∀ v, p.Defines v → (a.register? v).isSome ≠ a.isSpilled v) ∧
    (∀ v, ¬ p.Defines v → a.register? v = none ∧ a.isSpilled v = false) ∧
    (∀ v q, a.register? v = some q → registers.contains q = true) ∧
    (∀ gprs : RegisterSet, registers = gprs.unreserved → ∀ v q, a.register? v = some q →
      q ≠ .stackPointer ∧ q ≠ .framePointer) ∧
    stats.allocated + stats.spilled = stats.values ∧ stats.values = a.size := by
  intro ranges a stats
  have hnodup : (ranges.map (·.value)).Nodup := Liveness.nodup_value_ranges p
  have hplaces : ∀ v, (∃ place, a.place? v = some place) ↔ p.Defines v := by
    intro v
    rw [← Program.mem_definitions, ← Liveness.map_value_ranges]
    exact exists_place?_iff hnodup
  have hwithin : ∀ v q, a.register? v = some q → registers.contains q = true :=
    fun v q hq => contains_of_register? hnodup hq
  refine ⟨?_, ?_, ?_, hwithin, ?_, stats_run hnodup⟩
  · intro r hr s hs hne hoverlaps q q' hq hq'
    exact register?_ne_of_overlaps hnodup hr hs hne hoverlaps hq hq'
  · intro v hv
    obtain ⟨place, hplace⟩ := (hplaces v).mpr hv
    exact isSome_register?_ne_isSpilled hplace
  · intro v hv
    have hnone : a.place? v = none := by
      cases hplace : a.place? v with
      | none => rfl
      | some place => exact absurd ((hplaces v).mp ⟨place, hplace⟩) hv
    simp [Allocation.register?, Allocation.isSpilled, hnone]
  · rintro gprs rfl v q hq
    exact ne_reserved_of_contains_unreserved (hwithin v q hq)

end BaselineTier.LinearScan
