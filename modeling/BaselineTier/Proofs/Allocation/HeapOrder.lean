import Mathlib.Data.List.Nodup
import Mathlib.Data.List.Sort
import BaselineTier.Proofs.Allocation.Greedy

/-! # What a scan leaves open does not show

Two things about a scan are not fixed by its rule.  The ranges may come in any order, and the
registers in use may be kept in any priority queue, which gives out one that ends first but may
choose among those that end together.

Neither shows in the result.  The scan goes through the ranges in *the* stable order of their
starts (`StableOrder`), and `Heap.allocate`, the scan driven by a priority queue, is `allocate`
whatever the queue.  So all of them follow the greedy rule, which speaks of earlier decisions
only.
-/

set_option autoImplicit false

namespace BaselineTier

open Machine (Register RegisterSet)

namespace Machine.RegisterSet

theorem exists_number_eq {n : Nat} (h : n < 16) : ∃ r : Register, r.number = n := by
  have hall : ∀ k < 16, ((Register.ofNumber? k).map Register.number) = some k := by decide
  obtain ⟨r, -, hr⟩ := Option.map_eq_some_iff.mp (hall n h)
  exact ⟨r, hr⟩

/-- Sets with the same members are equal. -/
theorem eq_of_contains_iff {s t : RegisterSet}
    (h : ∀ r, s.contains r = true ↔ t.contains r = true) : s = t := by
  obtain ⟨bits⟩ := s
  obtain ⟨bits'⟩ := t
  congr 1
  refine BitVec.eq_of_getLsbD_eq fun n hn => ?_
  obtain ⟨r, rfl⟩ := exists_number_eq hn
  exact Bool.eq_iff_iff.mpr (h r)

end Machine.RegisterSet

namespace LinearScan

/-! ## The stable order of the starts -/

/-- The ranges by ascending start, those with equal starts as given. -/
structure StableOrder (ranges order : List LiveRange) : Prop where
  perm : order.Perm ranges
  ascending : order.Pairwise fun r s => r.start ≤ s.start
  stable : ∀ start, order.filter (·.start = start) = ranges.filter (·.start = start)

theorem stableOrder_ordered (ranges : List LiveRange) : StableOrder ranges (ordered ranges) where
  perm := ordered_perm ranges
  ascending := List.pairwise_map.mp (pairwise_start_ordered ranges)
  stable := by
    intro start
    -- ranges with one start are in order, so the sort keeps them as they are
    have hsublist : (ranges.filter (·.start = start)).Sublist (ordered ranges) := by
      refine List.sublist_mergeSort (decide_key_trans LiveRange.start)
        (decide_key_total LiveRange.start) ?_ List.filter_sublist
      refine List.pairwise_iff_forall_sublist.mpr fun {r s} hpair => ?_
      have hr := (List.mem_filter.mp (hpair.subset List.mem_cons_self)).2
      have hs := (List.mem_filter.mp (hpair.subset (List.mem_cons_of_mem r List.mem_cons_self))).2
      simp only [decide_eq_true_eq] at hr hs ⊢
      omega
    have hfiltered := hsublist.filter (·.start = start)
    rw [List.filter_filter] at hfiltered
    simp only [Bool.and_self] at hfiltered
    exact (hfiltered.eq_of_length ((ordered_perm ranges).filter _).length_eq.symm).symm

theorem start_head_le {r s : LiveRange} {order : List LiveRange}
    (horder : (r :: order).Pairwise fun r s => r.start ≤ s.start) (hs : s ∈ r :: order) :
    r.start ≤ s.start := by
  rcases List.mem_cons.mp hs with rfl | hs
  · exact Nat.le_refl _
  · exact (List.pairwise_cons.mp horder).1 s hs

/-- Lists in ascending order are equal if they agree on the ranges of each start. -/
theorem eq_of_filter_start_eq {order other : List LiveRange}
    (horder : order.Pairwise fun r s => r.start ≤ s.start)
    (hother : other.Pairwise fun r s => r.start ≤ s.start)
    (hstable : ∀ start, order.filter (·.start = start) = other.filter (·.start = start)) :
    order = other := by
  induction order generalizing other with
  | nil =>
    cases other with
    | nil => rfl
    | cons s other => simpa using hstable s.start
  | cons r order ih =>
    cases other with
    | nil => simpa using hstable r.start
    | cons s other =>
      have hmem : ∀ t : LiveRange, t ∈ r :: order ↔ t ∈ s :: other := by
        intro t
        have hfilter := congrArg (t ∈ ·) (hstable t.start)
        simpa [List.mem_filter] using hfilter
      have hstart : r.start = s.start :=
        Nat.le_antisymm (start_head_le horder ((hmem s).mpr List.mem_cons_self))
          (start_head_le hother ((hmem r).mp List.mem_cons_self))
      have hheads := hstable r.start
      rw [List.filter_cons_of_pos (by simp), List.filter_cons_of_pos (by simp [hstart])] at hheads
      obtain ⟨rfl, hrest⟩ := List.cons.inj hheads
      refine congrArg (r :: ·) (ih horder.of_cons hother.of_cons fun start => ?_)
      by_cases hs : r.start = start
      · exact hs ▸ hrest
      · have hothers := hstable start
        rwa [List.filter_cons_of_neg (by simpa using hs),
          List.filter_cons_of_neg (by simpa using hs)] at hothers

theorem StableOrder.eq_ordered {ranges order : List LiveRange} (h : StableOrder ranges order) :
    order = ordered ranges := by
  have hordered := stableOrder_ordered ranges
  exact eq_of_filter_start_eq h.ascending hordered.ascending fun start =>
    (h.stable start).trans (hordered.stable start).symm

/-- With different starts, the order does not depend on how the ranges are given. -/
theorem ordered_eq_of_perm {ranges others : List LiveRange} (hperm : others.Perm ranges)
    (hstarts : (ranges.map (·.start)).Nodup) : ordered others = ordered ranges := by
  refine List.Perm.eq_of_pairwise ?_ (stableOrder_ordered others).ascending
    (stableOrder_ordered ranges).ascending
    ((ordered_perm others).trans (hperm.trans (ordered_perm ranges).symm))
  intro r s hr hs hle hge
  have hr' : r ∈ ranges := hperm.mem_iff.mp ((ordered_perm others).mem_iff.mp hr)
  have hs' : s ∈ ranges := (ordered_perm ranges).mem_iff.mp hs
  exact List.inj_on_of_nodup_map hstarts hr' hs' (Nat.le_antisymm hle hge)

/-! ## Scans with a priority queue -/

/-- A priority queue of registers in use, as far as a scan relies on it.  What it shows and
what it gives out is one that ends first; of several that end together, it may be any. -/
structure Heap where
  Carrier : Type
  /-- What the queue holds, in whatever order. -/
  contents : Carrier → List Holding
  empty : Carrier
  push : Holding → Carrier → Carrier
  peek? : Carrier → Option Holding
  pop? : Carrier → Option (Holding × Carrier)
  contents_empty : contents empty = []
  contents_push : ∀ g c, (contents (push g c)).Perm (g :: contents c)
  peek?_none : ∀ c, peek? c = none → contents c = []
  peek?_some : ∀ c g, peek? c = some g →
    g ∈ contents c ∧ ∀ g' ∈ contents c, g.expiry ≤ g'.expiry
  pop?_none : ∀ c, pop? c = none → contents c = []
  pop?_some : ∀ c g rest, pop? c = some (g, rest) →
    (contents c).Perm (g :: contents rest) ∧ ∀ g' ∈ contents c, g.expiry ≤ g'.expiry

/-- The registers in use, in the order in which they end. -/
def byExpiry (c : List Holding) : List Holding :=
  c.mergeSort (·.expiry ≤ ·.expiry)

theorem eq_nil_of_head?_byExpiry {c : List Holding} (h : (byExpiry c).head? = none) : c = [] := by
  have hperm : (byExpiry c).Perm c := List.mergeSort_perm ..
  exact List.Perm.eq_nil (List.head?_eq_none_iff.mp h ▸ hperm.symm)

theorem head?_byExpiry {c : List Holding} {g : Holding} (h : (byExpiry c).head? = some g) :
    c.Perm (g :: (byExpiry c).tail) ∧ ∀ g' ∈ c, g.expiry ≤ g'.expiry := by
  have hperm : (byExpiry c).Perm c := List.mergeSort_perm ..
  have hsorted : (byExpiry c).Pairwise (fun g g' => g.expiry ≤ g'.expiry) :=
    pairwise_mergeSort_key Holding.expiry c
  obtain ⟨rest, hrest⟩ := List.head?_eq_some_iff.mp h
  rw [hrest] at hperm hsorted ⊢
  refine ⟨hperm.symm, fun g' hg' => ?_⟩
  rcases List.mem_cons.mp (hperm.mem_iff.mpr hg') with rfl | hmem
  · exact Nat.le_refl _
  · exact (List.pairwise_cons.mp hsorted).1 g' hmem

/-- A queue as a plain list, sorted whenever something is taken out. -/
def Heap.ofList : Heap where
  Carrier := List Holding
  contents := id
  empty := []
  push := List.cons
  peek? c := (byExpiry c).head?
  pop? c := (byExpiry c).head?.map fun g => (g, (byExpiry c).tail)
  contents_empty := rfl
  contents_push := fun _ _ => List.Perm.refl _
  peek?_none := fun _ h => eq_nil_of_head?_byExpiry h
  peek?_some := by
    intro c g h
    obtain ⟨hperm, hleast⟩ := head?_byExpiry h
    exact ⟨hperm.mem_iff.mpr List.mem_cons_self, hleast⟩
  pop?_none := fun _ h => eq_nil_of_head?_byExpiry (Option.map_eq_none_iff.mp h)
  pop?_some := by
    intro c g rest h
    obtain ⟨g', hhead, heq⟩ := Option.map_eq_some_iff.mp h
    obtain ⟨rfl, rfl⟩ := Prod.mk.inj heq
    exact head?_byExpiry hhead

namespace Heap

/-- The state of a scan that keeps the registers in use in a priority queue. -/
structure Scan (H : Heap) where
  free : RegisterSet
  active : H.Carrier := H.empty
  allocation : Allocation := .empty
  stats : ScanStats := {}

variable {H : Heap}

theorem length_lt_of_pop? {c rest : H.Carrier} {g : Holding} (h : H.pop? c = some (g, rest)) :
    (H.contents rest).length < (H.contents c).length := by
  rw [(H.pop?_some c g rest h).1.length_eq]
  exact Nat.lt_succ_self _

/-- Takes registers out of the queue as long as the first one has ended, and gives them
back. -/
def drain (position : Nat) (active : H.Carrier) (free : RegisterSet) : H.Carrier × RegisterSet :=
  match H.peek? active with
  | none => (active, free)
  | some first =>
    if position < first.expiry then (active, free)
    else
      match _ : H.pop? active with
      | none => (active, free)
      | some (ended, rest) => drain position rest (free.insert ended.register)
termination_by (H.contents active).length
decreasing_by exact length_lt_of_pop? ‹_›

namespace Scan

/-- One range of the scan. -/
def visit (s : Scan H) (range : LiveRange) : Scan H :=
  let drained := drain range.start s.active s.free
  match drained.2.lowest? with
  | none =>
    { active := drained.1
      free := drained.2
      allocation := s.allocation.spill range.value
      stats := { s.stats with spilled := s.stats.spilled + 1 } }
  | some r =>
    let active := H.push ⟨range.value, r, range.effectiveEnd⟩ drained.1
    { active
      free := drained.2.erase r
      allocation := s.allocation.assign range.value r
      stats :=
        { s.stats with
          allocated := s.stats.allocated + 1
          maxPressure := max s.stats.maxPressure (H.contents active).length } }

end Scan

/-- The allocation of a list of ranges, found with a priority queue. -/
def allocate (H : Heap) (registers : RegisterSet) (ranges : List LiveRange) :
    Allocation × ScanStats :=
  let first : Scan H := { free := registers, stats := { values := ranges.length } }
  let scan := (ordered ranges).foldl Scan.visit first
  (scan.allocation, scan.stats)

/-- What draining leaves in the queue, and which registers are free after it. -/
theorem drain_spec (position : Nat) (active : H.Carrier) (free : RegisterSet) :
    (H.contents (drain position active free).1).Perm
      ((H.contents active).filter (position < ·.expiry)) ∧
    ∀ q, (drain position active free).2.contains q = true ↔
      free.contains q = true ∨
        ∃ g ∈ H.contents active, g.expiry ≤ position ∧ g.register = q := by
  fun_induction drain position active free with
  | case1 active free hpeek => simp [H.peek?_none _ hpeek]
  | case2 active free first hpeek hlasts =>
    have hall : ∀ g ∈ H.contents active, position < g.expiry := fun g hg =>
      Nat.lt_of_lt_of_le hlasts ((H.peek?_some _ _ hpeek).2 g hg)
    refine ⟨?_, fun q => ?_⟩
    · rw [List.filter_eq_self.mpr fun g hg => decide_eq_true (hall g hg)]
    · refine (or_iff_left ?_).symm
      rintro ⟨g, hg, hended, -⟩
      exact Nat.not_lt.mpr hended (hall g hg)
  | case3 active free first hpeek hlasts hpop =>
    have hmem := (H.peek?_some _ _ hpeek).1
    rw [H.pop?_none _ hpop] at hmem
    cases hmem
  | case4 active free first hpeek hlasts ended rest hpop ih =>
    obtain ⟨hperm, hleast⟩ := H.pop?_some _ _ _ hpop
    have hended : ended.expiry ≤ position :=
      Nat.le_trans (hleast first (H.peek?_some _ _ hpeek).1) (Nat.le_of_not_lt hlasts)
    refine ⟨ih.1.trans ?_, fun q => ?_⟩
    · refine List.Perm.trans (List.Perm.of_eq ?_) (hperm.filter _).symm
      exact (List.filter_cons_of_neg (by simpa using hended)).symm
    · rw [ih.2, RegisterSet.contains_insert, Bool.or_eq_true, decide_eq_true_eq, or_assoc]
      refine or_congr_right ?_
      simp only [hperm.mem_iff, List.mem_cons, exists_eq_or_imp, hended, true_and]

/-- A scan with a priority queue and one without are at the same point. -/
structure Matches (t : Scan H) (s : LinearScan.Scan) : Prop where
  free_eq : t.free = s.free
  active_perm : (H.contents t.active).Perm s.active
  allocation_eq : t.allocation = s.allocation
  stats_eq : t.stats = s.stats

namespace Matches

variable {t : Scan H} {s : LinearScan.Scan}

/-- Draining the queue gives back the registers whose ranges have ended. -/
theorem drain (h : Matches t s) (position : Nat) :
    (H.contents (Heap.drain position t.active t.free).1).Perm (s.expire position).active ∧
      (Heap.drain position t.active t.free).2 = (s.expire position).free := by
  obtain ⟨hactive, hfree⟩ := drain_spec position t.active t.free
  refine ⟨hactive.trans (h.active_perm.filter _), RegisterSet.eq_of_contains_iff fun q => ?_⟩
  rw [hfree, h.free_eq]
  simp only [LinearScan.Scan.expire, contains_foldl_insert, List.mem_filter, decide_eq_true_eq,
    h.active_perm.mem_iff, and_assoc]

theorem visit (h : Matches t s) (range : LiveRange) :
    Matches (t.visit range) (s.visit range) := by
  obtain ⟨hactive, hfree⟩ := h.drain range.start
  have hallocation : t.allocation = (s.expire range.start).allocation := h.allocation_eq
  have hstats : t.stats = (s.expire range.start).stats := h.stats_eq
  unfold Scan.visit LinearScan.Scan.visit
  generalize s.expire range.start = e at hactive hfree hallocation hstats
  generalize Heap.drain range.start t.active t.free = drained at hactive hfree
  unfold LinearScan.Scan.place
  dsimp only
  rw [hfree]
  cases e.free.lowest? with
  | none =>
    exact {
      free_eq := rfl
      active_perm := hactive
      allocation_eq := by rw [hallocation]
      stats_eq := by rw [hstats] }
  | some r =>
    have hpushed := (H.contents_push ⟨range.value, r, range.effectiveEnd⟩ drained.1).trans
      (hactive.cons _)
    exact {
      free_eq := rfl
      active_perm := hpushed
      allocation_eq := by rw [hallocation]
      stats_eq := by dsimp only; rw [hstats, hpushed.length_eq, List.length_cons] }

theorem foldl_visit (h : Matches t s) (ranges : List LiveRange) :
    Matches (ranges.foldl Scan.visit t) (ranges.foldl LinearScan.Scan.visit s) := by
  induction ranges generalizing t s with
  | nil => exact h
  | cons r ranges ih => exact ih (h.visit r)

end Matches

/-- A scan with a priority queue finds the same allocation and counts the same. -/
theorem allocate_eq (H : Heap) (registers : RegisterSet) (ranges : List LiveRange) :
    H.allocate registers ranges = LinearScan.allocate registers ranges := by
  have hinitial : Matches (H := H) { free := registers, stats := { values := ranges.length } }
      { free := registers, stats := { values := ranges.length } } :=
    ⟨rfl, List.Perm.of_eq H.contents_empty, rfl, rfl⟩
  have hfinal := hinitial.foldl_visit (ordered ranges)
  exact Prod.ext hfinal.allocation_eq hfinal.stats_eq

end Heap

/-! ## The result of a scan -/

section Result

variable {registers : RegisterSet} {ranges : List LiveRange}

/-- The place of a value is the one that the greedy rule decides for its range. -/
theorem place?_allocate (hnodup : (ranges.map (·.value)).Nodup) (v : Nat) :
    (allocate registers ranges).1.place? v =
      ((greedy registers (ordered ranges)).find? (·.range.value = v)).map (·.place) := by
  obtain ⟨last, h⟩ := run_follows_greedy registers hnodup
  have hpairs : (allocate registers ranges).1.places.pairs =
      (greedy registers (ordered ranges)).map fun d => (d.range.value, d.place) := h.pairs_eq
  rw [Allocation.place?, Table.get?, hpairs, List.find?_map, Option.map_map]
  rfl

theorem allocate_eq_of_perm {others : List LiveRange} (hperm : others.Perm ranges)
    (hstarts : (ranges.map (·.start)).Nodup) :
    allocate registers others = allocate registers ranges := by
  rw [allocate, allocate, run, run, ordered_eq_of_perm hperm hstarts, hperm.length_eq]

/-- Linear scan is the greedy rule.  For all ranges of different values, in any order and with
any bounds, and every set of registers:

* the ranges have one stable order by start, and in that order each range is given the lowest
  register of the set that no earlier range holds beyond its start, and is spilled if there is
  none;
* a scan that keeps the registers in use in a priority queue comes to the same allocation and
  the same counts, whichever of the ranges that end together the queue gives out first;
* if the starts are different, any other order of the ranges leads to the same allocation and
  the same counts. -/
theorem allocate_is_greedy (registers : RegisterSet) {ranges : List LiveRange}
    (hnodup : (ranges.map (·.value)).Nodup) :
    (∃ order, StableOrder ranges order) ∧
    (∀ order, StableOrder ranges order → ∀ v,
      (allocate registers ranges).1.place? v =
        ((greedy registers order).find? (·.range.value = v)).map (·.place)) ∧
    (∀ H : Heap, H.allocate registers ranges = allocate registers ranges) ∧
    ((ranges.map (·.start)).Nodup → ∀ others, others.Perm ranges →
      allocate registers others = allocate registers ranges) := by
  refine ⟨⟨_, stableOrder_ordered ranges⟩, ?_, fun H => H.allocate_eq registers ranges, ?_⟩
  · rintro order horder v
    rw [horder.eq_ordered]
    exact place?_allocate hnodup v
  · intro hstarts others hperm
    exact allocate_eq_of_perm hperm hstarts

/-- Ranges that start and end together, in the wrong order, up to the last position there
is. -/
def tiedRanges : List LiveRange :=
  [⟨8, 0xFFFFFFFF, 0xFFFFFFFF⟩, ⟨5, 4, 6⟩, ⟨0, 0, 4⟩, ⟨6, 4, 4⟩, ⟨1, 0, 4⟩, ⟨3, 4, 9⟩,
    ⟨7, 0xFFFFFFFF, 0xFFFFFFFF⟩]

theorem stableOrder_tiedRanges :
    StableOrder tiedRanges
      [⟨0, 0, 4⟩, ⟨1, 0, 4⟩, ⟨5, 4, 6⟩, ⟨6, 4, 4⟩, ⟨3, 4, 9⟩, ⟨8, 0xFFFFFFFF, 0xFFFFFFFF⟩,
        ⟨7, 0xFFFFFFFF, 0xFFFFFFFF⟩] where
  perm := by decide
  ascending := by decide
  stable := by
    intro start
    by_cases hfirst : 0 = start
    · subst hfirst; decide
    by_cases hsecond : 4 = start
    · subst hsecond; decide
    by_cases hlast : 0xFFFFFFFF = start
    · subst hlast; decide
    simp [tiedRanges, hfirst, hsecond, hlast]

theorem tiedRanges_follow_greedy :
    let registers := RegisterSet.ofList [.rax, .rcx]
    Heap.ofList.allocate registers tiedRanges = allocate registers tiedRanges ∧
    (allocate registers tiedRanges).1.place? 5 = some (.register .rax) ∧
    (allocate registers tiedRanges).1.place? 6 = some (.register .rcx) ∧
    (allocate registers tiedRanges).1.place? 3 = some .spilled ∧
    (allocate registers tiedRanges).1.place? 7 = some (.register .rax) := by
  intro registers
  have hnodup : (tiedRanges.map (·.value)).Nodup := by decide
  obtain ⟨-, hgreedy, hheap, -⟩ := allocate_is_greedy registers hnodup
  have hplace := hgreedy _ stableOrder_tiedRanges
  refine ⟨hheap Heap.ofList, ?_, ?_, ?_, ?_⟩
  · rw [hplace]; decide
  · rw [hplace]; decide
  · rw [hplace]; decide
  · rw [hplace]; decide

end Result

end LinearScan

end BaselineTier
