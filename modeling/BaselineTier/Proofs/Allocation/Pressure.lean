import Mathlib.Data.List.Nodup
import BaselineTier.Proofs.Allocation.Greedy
import BaselineTier.Proofs.Allocation.Liveness

/-! # Stack depth and register pressure

The walk over a program and the scan of its ranges never see each other's state.  What
they have in common is the demand for registers: the number of ranges that need one at a
position.  A scan never has more registers in use than the demand at some position, and it
spills only where the demand is larger than the set of registers.  On the other side, a
range of a program that needs a register at a position belongs to a value that is on the
stack of the walk after the instruction there, for the range of a value that has left the
stack has ended.  So the depth of the stack bounds the demand, and with it the pressure.
-/

set_option autoImplicit false

namespace BaselineTier

open Machine (Register RegisterSet)
open Bytecode (Opcode Program Instruction)

namespace LiveRange

/-- Whether the range needs a register at a position: where it starts, and after that as
long as it has not ended. -/
def needsAt (r : LiveRange) (position : Nat) : Bool :=
  r.start = position || (r.start < position && position < r.effectiveEnd)

theorem needsAt_iff {r : LiveRange} {position : Nat} :
    r.needsAt position = true ↔
      r.start = position ∨ r.start < position ∧ position < r.effectiveEnd := by
  simp only [needsAt, Bool.or_eq_true, Bool.and_eq_true, decide_eq_true_eq]

theorem needsAt_start (r : LiveRange) : r.needsAt r.start = true :=
  needsAt_iff.mpr (.inl rfl)

theorem needsAt_of_lt {r : LiveRange} {position : Nat} (hstart : r.start ≤ position)
    (hend : position < r.effectiveEnd) : r.needsAt position = true :=
  needsAt_iff.mpr ((Nat.lt_or_eq_of_le hstart).elim (fun hlt => .inr ⟨hlt, hend⟩) .inl)

/-- A range with no use behind a position needs a register there only if it starts
there. -/
theorem start_eq_of_needsAt {r : LiveRange} {position : Nat}
    (h : r.needsAt position = true) (huse : r.lastUse ≤ position) : r.start = position := by
  rcases needsAt_iff.mp h with heq | ⟨hlt, hend⟩
  · exact heq
  · unfold effectiveEnd at hend
    omega

theorem start_le_of_needsAt {r : LiveRange} {position : Nat}
    (h : r.needsAt position = true) : r.start ≤ position :=
  (needsAt_iff.mp h).elim Nat.le_of_eq fun hlater => Nat.le_of_lt hlater.1

end LiveRange

/-! ## Scans and demand -/

namespace LinearScan

/-- How many ranges need a register at a position. -/
def demand (ranges : List LiveRange) (position : Nat) : Nat :=
  ranges.countP (·.needsAt position)

theorem demand_cons_of_needsAt {r : LiveRange} {position : Nat}
    (h : r.needsAt position = true) (ranges : List LiveRange) :
    demand (r :: ranges) position = demand ranges position + 1 :=
  List.countP_cons_of_pos h

theorem demand_le_cons (r : LiveRange) (ranges : List LiveRange) (position : Nat) :
    demand ranges position ≤ demand (r :: ranges) position :=
  (List.sublist_cons_self r ranges).countP_le

section Decisions

variable {registers : RegisterSet} {ranges : List LiveRange} {later earlier : List Decision}
  {d : Decision}

/-- Every decision is the greedy choice after the ones before it. -/
theorem place_eq_choice (h : greedy registers ranges = later ++ d :: earlier) :
    d.place = choice registers earlier d.range := by
  have hall : ∀ later d earlier, greedy registers ranges = later ++ d :: earlier →
      d.place = choice registers earlier d.range := by
    refine greedy_induction (P := fun decided => ∀ later d earlier,
      decided = later ++ d :: earlier → d.place = choice registers earlier d.range)
      registers ?_ ?_ ranges
    · intro later d earlier hnil
      simp at hnil
    · intro decided r ih later d earlier hsplit
      cases later with
      | nil =>
        obtain ⟨rfl, rfl⟩ := List.cons.inj hsplit
        rfl
      | cons e later => exact ih later d earlier (List.cons.inj hsplit).2
  exact hall later d earlier h

/-- A register that is not available is held beyond the position. -/
theorem exists_holding_of_not_free {position : Nat} {q : Register}
    (hq : registers.contains q = true) (h : isFreeAt registers earlier position q ≠ true) :
    ∃ g ∈ (holdings earlier).filter (position < ·.expiry), g.register = q := by
  rw [ne_eq, isFreeAt_iff] at h
  by_contra hfree
  exact h ⟨hq, fun g hg heq => hfree ⟨g, hg, heq⟩⟩

/-- A range is spilled only when no register is available. -/
theorem not_free_of_choice {range : LiveRange}
    (h : choice registers earlier range = .spilled) (q : Register) :
    isFreeAt registers earlier range.start q ≠ true := by
  unfold choice at h
  split at h
  · cases h
  · rename_i hnone
    exact List.find?_eq_none.mp hnone q q.mem_all

/-- Decisions are made in the order of the starts. -/
theorem pairwise_start_greedy (registers : RegisterSet) (ranges : List LiveRange) :
    (greedy registers (ordered ranges)).Pairwise fun d earlier =>
      earlier.range.start ≤ d.range.start := by
  have hstarts : ((ordered ranges).reverse.map (·.start)).Pairwise (fun a b => b ≤ a) := by
    rw [List.map_reverse]
    exact List.pairwise_reverse.mpr (pairwise_start_ordered ranges)
  rw [← map_range_greedy registers, List.map_map] at hstarts
  exact List.pairwise_map.mp hstarts

theorem length_holdings_le {decided : List Decision} {position : Nat}
    (hstarts : ∀ d ∈ decided, d.range.start ≤ position) :
    ((holdings decided).filter (position < ·.expiry)).length ≤
      demand (decided.map (·.range)) position := by
  induction decided with
  | nil => exact Nat.le_refl _
  | cons d decided ih =>
    have hrest := ih fun e he => hstarts e (List.mem_cons_of_mem d he)
    have hmore := Nat.le_trans hrest (demand_le_cons d.range _ position)
    obtain ⟨range, place⟩ := d
    cases place with
    | spilled => exact hmore
    | register q =>
      rw [holdings_cons_register]
      by_cases hlasts : position < range.effectiveEnd
      · have hneeds := LiveRange.needsAt_of_lt (hstarts _ List.mem_cons_self) hlasts
        rw [List.filter_cons_of_pos (by simpa using hlasts), List.length_cons, List.map_cons,
          demand_cons_of_needsAt hneeds]
        exact Nat.succ_le_succ hrest
      · rw [List.filter_cons_of_neg (by simpa using hlasts)]
        exact hmore

/-- Where a range starts, it and the ranges that hold registers there are part of the
demand. -/
theorem length_holdings_lt_demand
    (h : greedy registers (ordered ranges) = later ++ d :: earlier) :
    ((holdings earlier).filter (d.range.start < ·.expiry)).length <
      demand ranges d.range.start := by
  have hpairwise := pairwise_start_greedy registers ranges
  rw [h] at hpairwise
  have hstarts := (List.pairwise_cons.mp (List.pairwise_append.mp hpairwise).2.1).1
  have hpart : ((d :: earlier).map (·.range)).Sublist (ordered ranges).reverse := by
    rw [← map_range_greedy registers, h]
    exact (List.sublist_append_right later _).map _
  calc ((holdings earlier).filter (d.range.start < ·.expiry)).length
      ≤ demand (earlier.map (·.range)) d.range.start := length_holdings_le hstarts
    _ < demand ((d :: earlier).map (·.range)) d.range.start := by
        rw [List.map_cons, demand_cons_of_needsAt d.range.needsAt_start]
        exact Nat.lt_succ_self _
    _ ≤ demand (ordered ranges).reverse d.range.start := hpart.countP_le
    _ = demand ranges d.range.start :=
        ((List.reverse_perm _).trans (ordered_perm ranges)).countP_eq _

theorem peak_le {decided : List Decision} {n : Nat}
    (h : ∀ later d earlier, decided = later ++ d :: earlier →
      ((holdings earlier).filter (d.range.start < ·.expiry)).length < n) :
    peak decided ≤ n := by
  induction decided with
  | nil => exact Nat.zero_le n
  | cons d decided ih =>
    have hrest := ih fun later e earlier hsplit =>
      h (d :: later) e earlier (congrArg (d :: ·) hsplit)
    have hfirst := h [] d decided rfl
    unfold peak
    split
    · exact hrest
    · exact Nat.max_le.mpr ⟨hrest, hfirst⟩

/-- Where a range starts, the demand is larger than any number of registers that are not
available. -/
theorem length_lt_demand_of_not_free
    (h : greedy registers (ordered ranges) = later ++ d :: earlier) {qs : List Register}
    (hnodup : qs.Nodup) (hqs : ∀ q ∈ qs, registers.contains q = true ∧
      isFreeAt registers earlier d.range.start q ≠ true) :
    qs.length < demand ranges d.range.start := by
  have hheld : qs ⊆ ((holdings earlier).filter (d.range.start < ·.expiry)).map (·.register) := by
    intro q hq
    obtain ⟨hin, hfree⟩ := hqs q hq
    obtain ⟨g, hg, rfl⟩ := exists_holding_of_not_free hin hfree
    exact List.mem_map_of_mem hg
  have hlength := hnodup.length_le_of_subset hheld
  rw [List.length_map] at hlength
  exact Nat.lt_of_le_of_lt hlength (length_holdings_lt_demand h)

/-- A range is spilled only where the demand is larger than the set of registers. -/
theorem size_lt_demand_of_spilled
    (h : greedy registers (ordered ranges) = later ++ d :: earlier)
    (hspilled : d.place = .spilled) : registers.size < demand ranges d.range.start := by
  have hchoice := (place_eq_choice h).symm.trans hspilled
  refine length_lt_demand_of_not_free h (Register.nodup_all.sublist List.filter_sublist) ?_
  intro q hq
  exact ⟨RegisterSet.mem_toList.mp hq, not_free_of_choice hchoice q⟩

end Decisions

section Scans

variable {registers : RegisterSet} {ranges : List LiveRange}

/-- The pressure is at most what the demand never exceeds. -/
theorem maxPressure_le_of_demand (hnodup : (ranges.map (·.value)).Nodup) {n : Nat}
    (hdemand : ∀ position, demand ranges position ≤ n) :
    (allocate registers ranges).2.maxPressure ≤ n := by
  obtain ⟨last, h⟩ := run_follows_greedy registers hnodup
  refine Nat.le_trans (Nat.le_of_eq h.maxPressure_eq) (peak_le fun later d earlier hsplit => ?_)
  exact Nat.lt_of_lt_of_le (length_holdings_lt_demand hsplit) (hdemand _)

theorem maxPressure_le_size (hnodup : (ranges.map (·.value)).Nodup) :
    (allocate registers ranges).2.maxPressure ≤ registers.size := by
  obtain ⟨last, h⟩ := run_follows_greedy registers hnodup
  exact h.maxPressure_le

/-- Nothing is spilled when there are registers for the demand at every position. -/
theorem place_ne_spilled_of_demand
    (hdemand : ∀ position, demand ranges position ≤ registers.size) {d : Decision}
    (hd : d ∈ greedy registers (ordered ranges)) : d.place ≠ .spilled := by
  intro hspilled
  obtain ⟨later, earlier, hsplit⟩ := List.append_of_mem hd
  have hlt := size_lt_demand_of_spilled hsplit hspilled
  exact absurd (hdemand d.range.start) (Nat.not_le.mpr hlt)

theorem spilled_eq_zero_of_demand (hnodup : (ranges.map (·.value)).Nodup)
    (hdemand : ∀ position, demand ranges position ≤ registers.size) :
    (allocate registers ranges).2.spilled = 0 := by
  obtain ⟨last, h⟩ := run_follows_greedy registers hnodup
  refine h.spilled_eq.trans (List.countP_eq_zero.mpr fun d hd hspilled => ?_)
  exact place_ne_spilled_of_demand hdemand hd (of_decide_eq_true hspilled)

theorem isSpilled_eq_false_of_demand (hnodup : (ranges.map (·.value)).Nodup)
    (hdemand : ∀ position, demand ranges position ≤ registers.size) (v : Nat) :
    (allocate registers ranges).1.isSpilled v = false := by
  refine decide_eq_false fun hspilled => ?_
  obtain ⟨d, hd, -, hplace⟩ := (place?_run hnodup).mp hspilled
  exact place_ne_spilled_of_demand hdemand hd hplace

end Scans

end LinearScan

/-! ## The walk and demand -/

namespace Liveness.Walk

/-- All ranges so far have a property. -/
def Every (P : LiveRange → Prop) (w : Walk) : Prop :=
  ∀ (index : Nat) (r : LiveRange), w.ranges[index]? = some r → P r

namespace Every

variable {P : LiveRange → Prop} {position : Nat} {w : Walk}

theorem touch (hused : ∀ r, P r → P (r.usedAt position)) (h : Every P w) (index : Nat) :
    Every P (w.touch index position) := by
  intro k r hr
  simp only [Walk.touch, Array.getElem?_modify] at hr
  split at hr
  · obtain ⟨s, hs, rfl⟩ := Option.map_eq_some_iff.mp hr
    exact hused s (h k s hs)
  · exact h k r hr

theorem pop (hused : ∀ r, P r → P (r.usedAt position)) (h : Every P w) :
    Every P (pop position w) := by
  unfold Walk.pop
  split
  · exact h
  · exact h.touch hused _

theorem peek (hused : ∀ r, P r → P (r.usedAt position)) (h : Every P w) :
    Every P (peek position w) := by
  unfold Walk.peek
  split
  · exact h
  · exact h.touch hused _

theorem define (hdefined : P (.definedAt position)) (h : Every P w) :
    Every P (define position w) := by
  intro k r hr
  simp only [Walk.define, Array.getElem?_push] at hr
  split at hr
  · obtain rfl := Option.some.inj hr
    exact hdefined
  · exact h k r hr

/-- An instruction keeps what its uses keep and its definition has. -/
theorem step (hused : ∀ r, P r → P (r.usedAt position)) (hdefined : P (.definedAt position))
    (h : Every P w) (op : Opcode) : Every P (w.step op position) := by
  have happlied : Every P (w.apply op position) :=
    apply_induction (fun _ hv => hv.pop hused) (fun _ hv => hv.peek hused)
      (fun _ hv => hv.define hdefined) op h
  exact happlied

end Every

theorem maxDepth_apply (op : Opcode) (position : Nat) (w : Walk) :
    (w.apply op position).maxDepth = w.maxDepth := by
  refine apply_induction (P := fun v => v.maxDepth = w.maxDepth) ?_ ?_ (fun _ hv => hv) op rfl
  · intro v hv
    unfold pop
    split
    · exact hv
    · exact hv
  · intro v hv
    unfold peek
    split
    · exact hv
    · exact hv

/-- A walk that has come to a position. -/
structure Reached (position : Nat) (w : Walk) : Prop where
  bounds : Every (fun r => r.start ≤ r.lastUse ∧ r.lastUse < position) w
  /-- A value of the last instruction is on the stack. -/
  newest : ∀ (index : Nat) (r : LiveRange), w.ranges[index]? = some r →
    r.start + 1 = position → index ∈ w.stack
  depth : w.stack.length ≤ w.maxDepth

theorem reached_initial : Reached 0 {} where
  bounds := fun index r hr => by simp at hr
  newest := fun index r hr => by simp at hr
  depth := Nat.le_refl _

theorem mem_spans {w : Walk} {index : Nat} {r : LiveRange} (hr : w.ranges[index]? = some r) :
    (r.value, r.start) ∈ w.spans :=
  List.mem_map.mpr ⟨r, Array.mem_toList_iff.mpr (Array.mem_of_getElem? hr), rfl⟩

namespace Reached

variable {position : Nat} {w : Walk}

theorem spans_lt (h : Reached position w) : ∀ span ∈ w.spans, span.2 < position := by
  intro span hspan
  obtain ⟨r, hr, rfl⟩ := List.mem_map.mp hspan
  obtain ⟨index, hindex⟩ := List.mem_iff_getElem?.mp hr
  rw [Array.getElem?_toList] at hindex
  obtain ⟨hstart, huse⟩ := h.bounds index r hindex
  exact Nat.lt_of_le_of_lt hstart huse

/-- The instruction at the position takes the walk to the next one. -/
theorem step (h : Reached position w) (op : Opcode) :
    Reached (position + 1) (w.step op position) where
  bounds := by
    refine Every.step (fun r hr => ?_) ⟨Nat.le_refl _, Nat.lt_succ_self _⟩ (fun index r hr => ?_) op
    · simp only [LiveRange.usedAt]
      omega
    · have hbounds := h.bounds index r hr
      omega
  newest := by
    intro index r hr hstart
    have hstep : (w.step op position).ranges = (w.apply op position).ranges ∧
        (w.step op position).stack = (w.apply op position).stack := ⟨rfl, rfl⟩
    rw [hstep.1] at hr
    rw [hstep.2]
    -- only the value that the instruction defines starts at its position
    have hnone : ∀ v : Walk, v.spans = w.spans → v.ranges[index]? = some r → False := by
      intro v hv hvr
      have hlt : r.start < position := h.spans_lt _ (hv ▸ mem_spans hvr)
      omega
    rcases apply_cases op position w with ⟨-, happly⟩ | ⟨-, v, hv, happly⟩
    · rw [happly] at hr
      exact (hnone _ (spans_repeat_pop position _ w) hr).elim
    · rw [happly] at hr ⊢
      simp only [define, Array.getElem?_push] at hr
      split at hr
      · rename_i hindex
        rw [hindex]
        exact List.mem_cons_self
      · refine (hnone v ?_ hr).elim
        rcases hv with rfl | rfl
        · exact spans_peek position w
        · exact spans_repeat_pop position _ w
  depth := Nat.le_max_right _ _

theorem along (h : Reached position w) (is : List Instruction) :
    Reached (position + is.length) (w.along position is) := by
  induction is generalizing position w with
  | nil => exact h
  | cons i is ih =>
    have hrest := ih (h.step i.opcode)
    rwa [Nat.add_assoc, Nat.add_comm 1] at hrest

end Reached

theorem along_append (w : Walk) (position : Nat) (is js : List Instruction) :
    w.along position (is ++ js) = (w.along position is).along (position + is.length) js := by
  induction is generalizing position w with
  | nil => rfl
  | cons i is ih =>
    rw [List.cons_append, along, ih, along, List.length_cons, Nat.add_assoc, Nat.add_comm 1]

theorem maxDepth_le_along (w : Walk) (position : Nat) (is : List Instruction) :
    w.maxDepth ≤ (w.along position is).maxDepth := by
  induction is generalizing position w with
  | nil => exact Nat.le_refl _
  | cons i is ih =>
    have hstep : w.maxDepth ≤ (w.step i.opcode position).maxDepth := by
      rw [← maxDepth_apply i.opcode position w]
      exact Nat.le_max_left _ _
    exact Nat.le_trans hstep (ih _ _)

/-- A range that starts before the position that a walk has come to is among those of the
walk, however the walk goes on. -/
theorem lt_size_of_start_lt {position : Nat} {w : Walk} {is : List Instruction} {index : Nat}
    {r : LiveRange} (hr : (w.along position is).ranges[index]? = some r)
    (hstart : r.start < position) : index < w.ranges.size := by
  refine Nat.lt_of_not_le fun hle => ?_
  have hspan : (w.along position is).spans[index]? = some (r.value, r.start) := by
    simp [spans, hr]
  rw [spans_along, List.getElem?_append_right (by rwa [length_spans])] at hspan
  obtain ⟨x, hx, hpair⟩ := List.mem_map.mp (List.mem_of_getElem? hspan)
  have hlater := List.le_snd_of_mem_zipIdx (List.mem_filter.mp hx).1
  have heq : x.2 = r.start := (Prod.mk.inj hpair).2
  omega

/-- A value that needs a register at the last position that a walk has come by is on the
stack there: once it has left the stack, its last use is behind it. -/
theorem mem_stack_of_needsAt {position : Nat} {w : Walk} (h : Reached (position + 1) w)
    {is : List Instruction} {index : Nat} {r : LiveRange}
    (hr : (w.along (position + 1) is).ranges[index]? = some r)
    (hneeds : r.needsAt position = true) : index ∈ w.stack := by
  have hlt := lt_size_of_start_lt hr (Nat.lt_succ_of_le (LiveRange.start_le_of_needsAt hneeds))
  obtain ⟨s, hs⟩ : ∃ s, w.ranges[index]? = some s := ⟨_, Array.getElem?_eq_getElem hlt⟩
  by_contra hgone
  have hsettled : Settled index s w := ⟨hs, hgone⟩
  obtain rfl : r = s := Option.some.inj (hr.symm.trans (hsettled.along is (position + 1)).1)
  have huse := Nat.le_of_lt_succ (h.bounds index r hs).2
  exact hgone (h.newest index r hs (congrArg (· + 1) (LiveRange.start_eq_of_needsAt hneeds huse)))

/-- Behind the last position that a walk has come by, no range needs a register. -/
theorem needsAt_eq_false_of_reached {position last : Nat} {w : Walk} (h : Reached last w)
    (hle : last ≤ position) {index : Nat} {r : LiveRange} (hr : w.ranges[index]? = some r) :
    r.needsAt position = false := by
  obtain ⟨hstart, huse⟩ := h.bounds index r hr
  rw [Bool.eq_false_iff]
  intro hneeds
  have heq := LiveRange.start_eq_of_needsAt hneeds (by omega)
  omega

end Liveness.Walk

namespace Liveness

theorem ranges_eq_along (p : Program) :
    (ofProgram p).ranges = (({} : Walk).along 0 p.instructions).ranges.toList := by
  rw [← walk_eq_along]
  rfl

theorem maxDepth_eq_along (p : Program) :
    (ofProgram p).maxDepth = (({} : Walk).along 0 p.instructions).maxDepth := by
  rw [← walk_eq_along]
  rfl

/-- No range ends before it starts. -/
theorem start_le_lastUse {p : Program} {r : LiveRange} (hr : r ∈ (ofProgram p).ranges) :
    r.start ≤ r.lastUse := by
  rw [ranges_eq_along] at hr
  obtain ⟨index, hindex⟩ := List.mem_iff_getElem?.mp hr
  rw [Array.getElem?_toList] at hindex
  exact ((Walk.reached_initial.along p.instructions).bounds index r hindex).1

end Liveness

namespace LinearScan

open Liveness (Walk)

/-- At a position where all ranges in need of a register have their indices in a list,
the demand is at most the length of the list. -/
theorem demand_le_length {ranges : List LiveRange} {position : Nat} {stack : List Nat}
    (h : ∀ (index : Nat) (r : LiveRange), ranges[index]? = some r →
      r.needsAt position = true → index ∈ stack) :
    demand ranges position ≤ stack.length := by
  let needy := ranges.zipIdx.filter fun x => x.1.needsAt position
  have hcount : demand ranges position = (needy.map Prod.snd).length := by
    rw [List.length_map, demand, ← List.countP_eq_length_filter]
    conv_lhs => rw [← List.zipIdx_map_fst 0 ranges, List.countP_map]
    rfl
  have hnodup : (needy.map Prod.snd).Nodup := by
    refine List.Nodup.sublist (List.filter_sublist.map _) ?_
    rw [List.zipIdx_map_snd]
    exact List.nodup_range'
  rw [hcount]
  refine hnodup.length_le_of_subset fun index hindex => ?_
  obtain ⟨⟨r, k⟩, hmem, rfl⟩ := List.mem_map.mp hindex
  obtain ⟨hzip, hneeds⟩ := List.mem_filter.mp hmem
  exact h k r (List.mk_mem_zipIdx_iff_getElem?.mp hzip) hneeds

/-- At every position, the depth of the stack is enough for the demand. -/
theorem demand_le_maxDepth (p : Program) (position : Nat) :
    demand (Liveness.ofProgram p).ranges position ≤ (Liveness.ofProgram p).maxDepth := by
  rw [Liveness.ranges_eq_along, Liveness.maxDepth_eq_along]
  by_cases hposition : position < p.instructions.length
  · obtain ⟨before, later, hsplit, hlength⟩ : ∃ before later,
        p.instructions = before ++ later ∧ 0 + before.length = position + 1 := by
      refine ⟨_, _, (List.take_append_drop (position + 1) p.instructions).symm, ?_⟩
      rw [List.length_take]
      omega
    have hreached := Walk.reached_initial.along before
    rw [hlength] at hreached
    rw [hsplit, Walk.along_append, hlength]
    calc demand _ position
        ≤ (({} : Walk).along 0 before).stack.length := by
          refine demand_le_length fun index r hr hneeds => ?_
          rw [Array.getElem?_toList] at hr
          exact Walk.mem_stack_of_needsAt hreached hr hneeds
      _ ≤ (({} : Walk).along 0 before).maxDepth := hreached.depth
      _ ≤ _ := Walk.maxDepth_le_along ..
  · have hreached := Walk.reached_initial.along p.instructions
    have hnone : demand (({} : Walk).along 0 p.instructions).ranges.toList position ≤
        ([] : List Nat).length := by
      refine demand_le_length fun index r hr hneeds => ?_
      rw [Array.getElem?_toList] at hr
      rw [Walk.needsAt_eq_false_of_reached hreached (by omega) hr] at hneeds
      cases hneeds
    exact Nat.le_trans hnone (Nat.zero_le _)

/-- The depth of the stack bounds the pressure on registers.  For every program, whether
its stack underflows or not, and every set of registers, the scan never has more registers
in use than the stack is deep at its deepest, nor more than there are; and if there are as
many as the stack is deep, no value is spilled. -/
theorem depth_bounds_pressure (registers : RegisterSet) (p : Program) :
    let depth := (Liveness.ofProgram p).maxDepth
    let a := (allocateProgram registers p).1
    let stats := (allocateProgram registers p).2
    stats.maxPressure ≤ min depth registers.size ∧
    (depth ≤ registers.size → stats.spilled = 0 ∧ ∀ v, a.isSpilled v = false) := by
  intro depth a stats
  have hnodup := Liveness.nodup_value_ranges p
  have hdemand : ∀ position, demand (Liveness.ofProgram p).ranges position ≤ depth :=
    demand_le_maxDepth p
  refine ⟨Nat.le_min.mpr ⟨maxPressure_le_of_demand hnodup hdemand,
    maxPressure_le_size hnodup⟩, fun hdepth => ?_⟩
  have henough : ∀ position,
      demand (Liveness.ofProgram p).ranges position ≤ registers.size := fun position =>
    Nat.le_trans (hdemand position) hdepth
  exact ⟨spilled_eq_zero_of_demand hnodup henough, isSpilled_eq_false_of_demand hnodup henough⟩

end LinearScan

end BaselineTier
