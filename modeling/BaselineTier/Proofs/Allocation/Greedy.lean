import Mathlib.Data.List.Nodup
import BaselineTier.Allocation.LinearScan
import BaselineTier.Proofs.Table

/-! # The greedy rule behind linear scan

A scan keeps a set of free registers and a list of the registers in use, and
updates both as ranges start and end.  What it decides can be said without them:
each range, in the order of the starts, takes the lowest register that no earlier
range still holds, and is spilled when there is none.  `greedy` is that rule, and
`run_follows_greedy` says that a scan follows it.

The link between the two is that, from any position on, the registers in use are
those of the earlier decisions that last beyond the position.
-/

set_option autoImplicit false

namespace BaselineTier.LinearScan

open Machine (Register RegisterSet)

/-- A range with the place found for it. -/
structure Decision where
  range : LiveRange
  place : Place
  deriving DecidableEq

namespace Decision

/-- The register that the range of a decision holds, if any. -/
def holding? (d : Decision) : Option Holding :=
  d.place.register?.map fun q => ⟨d.range.value, q, d.range.effectiveEnd⟩

end Decision

/-- The registers held by the ranges of earlier decisions, newest first. -/
def holdings (decided : List Decision) : List Holding :=
  decided.filterMap Decision.holding?

/-- Whether a register is available at a position: no earlier range holds it beyond
that position. -/
def isFreeAt (registers : RegisterSet) (decided : List Decision) (position : Nat)
    (q : Register) : Bool :=
  registers.contains q &&
    decided.all fun d => d.place ≠ .register q || d.range.effectiveEnd ≤ position

/-- The place of a range after earlier decisions: the lowest register available at its
start. -/
def choice (registers : RegisterSet) (decided : List Decision) (range : LiveRange) : Place :=
  match Register.all.find? (isFreeAt registers decided range.start) with
  | some q => .register q
  | none => .spilled

/-- The decisions with one more range. -/
def decideNext (registers : RegisterSet) (decided : List Decision) (range : LiveRange) :
    List Decision :=
  ⟨range, choice registers decided range⟩ :: decided

/-- The decisions for ranges in order, newest first. -/
def greedy (registers : RegisterSet) (ranges : List LiveRange) : List Decision :=
  ranges.foldl (decideNext registers) []

/-- The most registers in use at once, counted whenever a range gets one. -/
def peak : List Decision → Nat
  | [] => 0
  | d :: earlier =>
    match d.place with
    | .spilled => peak earlier
    | .register _ =>
      max (peak earlier) (((holdings earlier).filter (d.range.start < ·.expiry)).length + 1)

theorem holdings_cons_register (range : LiveRange) (q : Register) (decided : List Decision) :
    holdings (⟨range, .register q⟩ :: decided) =
      ⟨range.value, q, range.effectiveEnd⟩ :: holdings decided := rfl

theorem mem_holdings {decided : List Decision} {h : Holding} :
    h ∈ holdings decided ↔
      ∃ d ∈ decided, d.place = .register h.register ∧ d.range.value = h.value ∧
        d.range.effectiveEnd = h.expiry := by
  simp only [holdings, List.mem_filterMap]
  constructor
  · rintro ⟨⟨range, place⟩, hmem, hholding⟩
    cases place with
    | spilled => cases hholding
    | register q =>
      obtain rfl := Option.some.inj hholding
      exact ⟨_, hmem, rfl, rfl, rfl⟩
  · rintro ⟨⟨range, place⟩, hmem, hplace, hvalue, hend⟩
    refine ⟨_, hmem, ?_⟩
    cases h
    simp only at hplace hvalue hend
    subst hplace hvalue hend
    rfl

/-- A register is available when no holding that lasts beyond the position has it. -/
theorem isFreeAt_iff {registers : RegisterSet} {decided : List Decision} {position : Nat}
    {q : Register} :
    isFreeAt registers decided position q = true ↔
      registers.contains q = true ∧
        ∀ h ∈ (holdings decided).filter (position < ·.expiry), h.register ≠ q := by
  simp only [isFreeAt, Bool.and_eq_true, List.all_eq_true, Bool.or_eq_true,
    decide_eq_true_eq, List.mem_filter]
  refine and_congr_right fun _ => ⟨?_, ?_⟩
  · rintro hall h ⟨hmem, hlast⟩ rfl
    obtain ⟨d, hd, hplace, -, hend⟩ := mem_holdings.mp hmem
    rcases hall d hd with hne | hle
    · exact hne hplace
    · omega
  · intro hnone d hd
    by_cases hplace : d.place = .register q
    · refine .inr (Nat.le_of_not_lt fun hlast => ?_)
      exact hnone ⟨d.range.value, q, d.range.effectiveEnd⟩
        ⟨mem_holdings.mpr ⟨d, hd, hplace, rfl, rfl⟩, hlast⟩ rfl
    · exact .inl hplace

/-! ## Decisions of the greedy rule -/

theorem greedy_induction {P : List Decision → Prop} (registers : RegisterSet)
    (hnil : P []) (hnext : ∀ decided r, P decided → P (decideNext registers decided r))
    (ranges : List LiveRange) : P (greedy registers ranges) :=
  List.foldlRecOn ranges (decideNext registers) hnil fun decided h r _ => hnext decided r h

theorem isFreeAt_of_choice {registers : RegisterSet} {decided : List Decision}
    {range : LiveRange} {q : Register} (h : choice registers decided range = .register q) :
    isFreeAt registers decided range.start q = true := by
  unfold choice at h
  split at h
  · rename_i r hfind
    obtain rfl := Place.register.inj h
    exact List.find?_some hfind
  · cases h

/-- Every range gets one decision. -/
theorem map_range_greedy (registers : RegisterSet) (ranges : List LiveRange) :
    (greedy registers ranges).map (·.range) = ranges.reverse := by
  have hfold : ∀ (decided : List Decision) (ranges : List LiveRange),
      (ranges.foldl (decideNext registers) decided).map (·.range) =
        ranges.reverse ++ decided.map (·.range) := by
    intro decided ranges
    induction ranges generalizing decided with
    | nil => rfl
    | cons r ranges ih => simp [ih, decideNext]
  simpa [greedy] using hfold [] ranges

theorem contains_of_mem_greedy {registers : RegisterSet} {ranges : List LiveRange}
    {d : Decision} (hd : d ∈ greedy registers ranges) {q : Register}
    (hplace : d.place = .register q) : registers.contains q = true := by
  have hall : ∀ d ∈ greedy registers ranges, ∀ q, d.place = .register q →
      registers.contains q = true :=
    greedy_induction
      (P := fun decided => ∀ d ∈ decided, ∀ q, d.place = .register q →
        registers.contains q = true)
      registers (fun _ hd => absurd hd List.not_mem_nil)
      (fun decided r ih d hd q hplace => by
        rcases List.mem_cons.mp hd with rfl | hd
        · exact (isFreeAt_iff.mp (isFreeAt_of_choice hplace)).1
        · exact ih d hd q hplace) ranges
  exact hall d hd q hplace

/-- Of two ranges in one register, the earlier one has ended when the later one
starts. -/
theorem pairwise_greedy (registers : RegisterSet) (ranges : List LiveRange) :
    (greedy registers ranges).Pairwise fun d earlier =>
      ∀ q, d.place = .register q → earlier.place = .register q →
        earlier.range.effectiveEnd ≤ d.range.start := by
  refine greedy_induction registers List.Pairwise.nil (fun decided r ih => ?_) ranges
  refine List.pairwise_cons.mpr ⟨fun earlier hearlier q hplace hsame => ?_, ih⟩
  have hfree := isFreeAt_of_choice hplace
  simp only [isFreeAt, Bool.and_eq_true, List.all_eq_true, Bool.or_eq_true,
    decide_eq_true_eq] at hfree
  exact (hfree.2 earlier hearlier).resolve_left (not_not_intro hsame)

/-! ## What a scan has to keep -/

/-- A scan that has come to a position agrees with the decisions made so far. -/
structure Follows (registers : RegisterSet) (decided : List Decision) (position : Nat)
    (s : Scan) : Prop where
  /-- From the position on, the registers in use are those of the decisions. -/
  active_eq : ∀ later, position ≤ later →
    s.active.filter (later < ·.expiry) = (holdings decided).filter (later < ·.expiry)
  /-- No register is in use twice. -/
  nodup : (s.active.map (·.register)).Nodup
  within : ∀ h ∈ s.active, registers.contains h.register = true
  /-- The free registers are the ones not in use. -/
  free_iff : ∀ q, s.free.contains q = true ↔
    registers.contains q = true ∧ ∀ h ∈ s.active, h.register ≠ q
  pairs_eq : s.allocation.places.pairs = decided.map fun d => (d.range.value, d.place)
  allocated_eq : s.stats.allocated = decided.countP (·.place ≠ .spilled)
  spilled_eq : s.stats.spilled = decided.countP (·.place = .spilled)
  maxPressure_eq : s.stats.maxPressure = peak decided
  maxPressure_le : s.stats.maxPressure ≤ registers.size

/-- Distinct registers of a set are no more than the set has. -/
theorem length_le_size {registers : RegisterSet} {qs : List Register} (hnodup : qs.Nodup)
    (hwithin : ∀ q ∈ qs, registers.contains q = true) : qs.length ≤ registers.size :=
  hnodup.length_le_of_subset fun q hq => RegisterSet.mem_toList.mpr (hwithin q hq)

theorem contains_foldl_insert (hs : List Holding) (free : RegisterSet) (q : Register) :
    (hs.foldl (fun free h => free.insert h.register) free).contains q = true ↔
      free.contains q = true ∨ ∃ h ∈ hs, h.register = q := by
  induction hs generalizing free with
  | nil => simp
  | cons h hs ih =>
    rw [List.foldl_cons, ih, RegisterSet.contains_insert]
    simp only [Bool.or_eq_true, decide_eq_true_eq, List.mem_cons, exists_eq_or_imp, or_assoc]

namespace Follows

variable {registers : RegisterSet} {decided : List Decision} {position later : Nat} {s : Scan}

/-- At a later position the registers in use are the holdings that last beyond it. -/
theorem active_expire (h : Follows registers decided position s) (hle : position ≤ later) :
    (s.expire later).active = (holdings decided).filter (later < ·.expiry) :=
  h.active_eq later hle

/-- A register is free again once its range has ended. -/
theorem contains_free_expire (h : Follows registers decided position s) (q : Register) :
    (s.expire later).free.contains q = true ↔
      registers.contains q = true ∧ ∀ g ∈ (s.expire later).active, g.register ≠ q := by
  simp only [Scan.expire, contains_foldl_insert, h.free_iff, List.mem_filter,
    decide_eq_true_eq]
  constructor
  · rintro (⟨hin, hunused⟩ | ⟨g, ⟨hg, hended⟩, rfl⟩)
    · exact ⟨hin, fun g hg => hunused g hg.1⟩
    · refine ⟨h.within g hg, fun g' ⟨hg', hlasts⟩ heq => ?_⟩
      -- two holdings of one register are the same one, which cannot have ended and last
      obtain rfl := List.inj_on_of_nodup_map h.nodup hg' hg heq
      omega
  · rintro ⟨hin, hunused⟩
    by_cases hused : ∃ g ∈ s.active, g.register = q
    · obtain ⟨g, hg, rfl⟩ := hused
      refine .inr ⟨g, ⟨hg, Nat.le_of_not_lt fun hlasts => ?_⟩, rfl⟩
      exact hunused g ⟨hg, hlasts⟩ rfl
    · exact .inl ⟨hin, fun g hg heq => hused ⟨g, hg, heq⟩⟩

theorem expire (h : Follows registers decided position s) (hle : position ≤ later) :
    Follows registers decided later (s.expire later) where
  active_eq := by
    intro beyond hbeyond
    rw [h.active_expire hle, List.filter_filter]
    congr 1
    funext g
    simp only [Bool.and_eq_left_iff_imp, decide_eq_true_eq]
    omega
  nodup := h.nodup.sublist (List.filter_sublist.map _)
  within := fun g hg => h.within g (List.mem_filter.mp hg).1
  free_iff := h.contains_free_expire
  pairs_eq := h.pairs_eq
  allocated_eq := h.allocated_eq
  spilled_eq := h.spilled_eq
  maxPressure_eq := h.maxPressure_eq
  maxPressure_le := h.maxPressure_le

/-- The lowest free register is the one that the greedy rule finds. -/
theorem lowest?_free_expire (h : Follows registers decided position s)
    (hle : position ≤ later) :
    (s.expire later).free.lowest? = Register.all.find? (isFreeAt registers decided later) := by
  unfold RegisterSet.lowest?
  congr 1
  funext q
  rw [Bool.eq_iff_iff, h.contains_free_expire, isFreeAt_iff, h.active_expire hle]

theorem pairs_insert (h : Follows registers decided position s) {value : Nat}
    (hnew : value ∉ decided.map (·.range.value)) (place : Place) :
    (s.allocation.places.insert value place).pairs =
      (value, place) :: decided.map fun d => (d.range.value, d.place) := by
  have hkeys : s.allocation.places.keys = decided.map (·.range.value) := by
    rw [Table.keys, h.pairs_eq, List.map_map]
    rfl
  rw [Table.pairs_insert_of_notMem _ _ (hkeys ▸ hnew), h.pairs_eq]

/-- One range more: the scan makes the greedy choice. -/
theorem visit (h : Follows registers decided position s) {range : LiveRange}
    (hle : position ≤ range.start) (hnew : range.value ∉ decided.map (·.range.value)) :
    Follows registers (decideNext registers decided range) range.start (s.visit range) := by
  have he := h.expire hle
  have hlowest := h.lowest?_free_expire hle
  have hactive := h.active_expire hle
  unfold Scan.visit
  generalize s.expire range.start = e at he hlowest hactive
  unfold Scan.place decideNext choice
  rw [hlowest]
  cases hfind : Register.all.find? (isFreeAt registers decided range.start) with
  | none =>
    exact {
      active_eq := he.active_eq
      nodup := he.nodup
      within := he.within
      free_iff := he.free_iff
      pairs_eq := he.pairs_insert hnew .spilled
      allocated_eq := by simp [he.allocated_eq]
      spilled_eq := by simp [he.spilled_eq]
      maxPressure_eq := he.maxPressure_eq
      maxPressure_le := he.maxPressure_le }
  | some q =>
    have hfree : e.free.contains q = true := List.find?_some (hlowest.trans hfind)
    obtain ⟨hin, hunused⟩ := (he.free_iff q).mp hfree
    have hnodup : (q :: e.active.map (·.register)).Nodup := by
      refine List.nodup_cons.mpr ⟨fun hmem => ?_, he.nodup⟩
      obtain ⟨g, hg, heq⟩ := List.mem_map.mp hmem
      exact hunused g hg heq
    have hwithin : ∀ r ∈ q :: e.active.map (·.register), registers.contains r = true := by
      intro r hr
      rcases List.mem_cons.mp hr with rfl | hr
      · exact hin
      · obtain ⟨g, hg, rfl⟩ := List.mem_map.mp hr
        exact he.within g hg
    refine {
      active_eq := ?_
      nodup := hnodup
      within := fun g hg => hwithin _ (List.mem_map_of_mem hg)
      free_iff := ?_
      pairs_eq := he.pairs_insert hnew (.register q)
      allocated_eq := by simp [he.allocated_eq]
      spilled_eq := by simp [he.spilled_eq]
      maxPressure_eq := by rw [he.maxPressure_eq, hactive]; rfl
      maxPressure_le := Nat.max_le.mpr ⟨he.maxPressure_le, ?_⟩ }
    · intro later hlater
      rw [holdings_cons_register, List.filter_cons, List.filter_cons, he.active_eq later hlater]
    · intro r
      simp only [RegisterSet.contains_erase, Bool.and_eq_true, he.free_iff, decide_eq_true_eq,
        List.mem_cons, forall_eq_or_imp]
      rw [and_assoc, and_comm (b := q ≠ r)]
    · simpa using length_le_size hnodup hwithin

end Follows

/-! ## Whole scans -/

theorem follows_initial (registers : RegisterSet) (count : Nat) :
    Follows registers [] 0 { free := registers, stats := { values := count } } where
  active_eq := fun _ _ => rfl
  nodup := List.nodup_nil
  within := fun _ hg => absurd hg List.not_mem_nil
  free_iff := fun q => by simp
  pairs_eq := rfl
  allocated_eq := rfl
  spilled_eq := rfl
  maxPressure_eq := rfl
  maxPressure_le := Nat.zero_le _

/-- A scan over ranges in order follows the greedy rule from one position to the
next. -/
theorem Follows.foldl_visit {registers : RegisterSet} {decided : List Decision}
    {position : Nat} {s : Scan} (h : Follows registers decided position s)
    {ranges : List LiveRange}
    (hsorted : (position :: ranges.map (·.start)).Pairwise (· ≤ ·))
    (hnodup : (ranges.map (·.value)).Nodup)
    (hnew : ∀ r ∈ ranges, r.value ∉ decided.map (·.range.value)) :
    ∃ last, Follows registers (ranges.foldl (decideNext registers) decided) last
      (ranges.foldl Scan.visit s) := by
  induction ranges generalizing decided position s with
  | nil => exact ⟨position, h⟩
  | cons r ranges ih =>
    simp only [List.map_cons, List.pairwise_cons, List.nodup_cons] at hsorted hnodup
    have hle : position ≤ r.start := hsorted.1 _ (by simp)
    have hvisited := h.visit hle (hnew r (by simp))
    refine ih hvisited ?_ hnodup.2 ?_
    · exact List.pairwise_cons.mpr hsorted.2
    · intro t ht
      simp only [decideNext, List.map_cons, List.mem_cons, not_or]
      refine ⟨fun heq => hnodup.1 (heq ▸ List.mem_map.mpr ⟨t, ht, rfl⟩), ?_⟩
      exact hnew t (List.mem_cons_of_mem r ht)

theorem ordered_perm (ranges : List LiveRange) : (ordered ranges).Perm ranges :=
  List.mergeSort_perm ..

section Key

variable {α : Type} (key : α → Nat)

theorem decide_key_trans (a b c : α) (hab : decide (key a ≤ key b) = true)
    (hbc : decide (key b ≤ key c) = true) : decide (key a ≤ key c) = true :=
  decide_eq_true (Nat.le_trans (of_decide_eq_true hab) (of_decide_eq_true hbc))

theorem decide_key_total (a b : α) : (decide (key a ≤ key b) || decide (key b ≤ key a)) = true := by
  simpa using Nat.le_total (key a) (key b)

/-- Sorting by a number puts it in ascending order. -/
theorem pairwise_mergeSort_key (xs : List α) :
    (xs.mergeSort fun a b => decide (key a ≤ key b)).Pairwise fun a b => key a ≤ key b :=
  (List.pairwise_mergeSort (decide_key_trans key) (decide_key_total key) xs).imp of_decide_eq_true

end Key

theorem pairwise_start_ordered (ranges : List LiveRange) :
    ((ordered ranges).map (·.start)).Pairwise (· ≤ ·) :=
  List.pairwise_map.mpr (pairwise_mergeSort_key LiveRange.start ranges)

/-- The scan of ranges with distinct values follows the greedy rule to its end. -/
theorem run_follows_greedy (registers : RegisterSet) {ranges : List LiveRange}
    (hnodup : (ranges.map (·.value)).Nodup) :
    ∃ last, Follows registers (greedy registers (ordered ranges)) last
      (run registers ranges) := by
  have hinitial := follows_initial registers ranges.length
  refine hinitial.foldl_visit ?_ ?_ (fun r _ => by simp)
  · exact List.pairwise_cons.mpr ⟨fun _ _ => Nat.zero_le _, pairwise_start_ordered ranges⟩
  · exact ((ordered_perm ranges).map _).nodup_iff.mpr hnodup

theorem values_foldl_visit (ranges : List LiveRange) (s : Scan) :
    (ranges.foldl Scan.visit s).stats.values = s.stats.values := by
  induction ranges generalizing s with
  | nil => rfl
  | cons r ranges ih =>
    rw [List.foldl_cons, ih]
    unfold Scan.visit Scan.place
    split <;> rfl

/-- The place of a value is the one decided for its range. -/
theorem place?_run {registers : RegisterSet} {ranges : List LiveRange}
    (hnodup : (ranges.map (·.value)).Nodup) {v : Nat} {place : Place} :
    (run registers ranges).allocation.place? v = some place ↔
      ∃ d ∈ greedy registers (ordered ranges), d.range.value = v ∧ d.place = place := by
  obtain ⟨last, h⟩ := run_follows_greedy registers hnodup
  rw [Allocation.place?, ← Table.mem_pairs_iff_get?, h.pairs_eq]
  simp only [List.mem_map, Prod.mk.injEq]

end BaselineTier.LinearScan
