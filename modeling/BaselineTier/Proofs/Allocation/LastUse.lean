import Mathlib.Algebra.BigOperators.Group.Finset.Basic
import Mathlib.Order.Bounds.Basic
import BaselineTier.Proofs.Allocation.Pressure

/-! # Last uses, from the depth of the stack alone

The walk over a program keeps a stack of values.  What it records can be said without
values, for the depth of the stack tells which of them an instruction reaches: a value sits
where the stack ended behind its definition, and it is taken by the first instruction that
cuts the stack below that place.  Up to then, it is on top when the stack is as deep as
behind its definition, and a copy made there uses it.

`depth` follows the depth of the stack through a program, and `lastUse` reads the last use of
a value off it.  `Measured` relates the walk to both, and `liveness_of_depth` says that the
walk computes them, whether the stack underflows or not.
-/

set_option autoImplicit false

namespace BaselineTier

open Bytecode (Opcode Program Instruction)

/-! ## Depth and last uses -/

namespace Bytecode

/-- The depth of the stack behind an instruction.  What is missing on the stack cannot be
taken off it, and a copy leaves its source in place. -/
def Opcode.depthAfter (op : Opcode) (depth : Nat) : Nat :=
  match op with
  | .dup => depth + 1
  | _ => depth - op.effect.pops + op.effect.pushes

namespace Program

/-- The depth of the stack before the instruction at a position, and behind the last one. -/
def depth (p : Program) : Nat → Nat
  | 0 => 0
  | position + 1 =>
    match p.instructions[position]? with
    | some i => i.opcode.depthAfter (p.depth position)
    | none => p.depth position

/-- How many operands the instruction at a position does not find on the stack.  A copy needs
its source. -/
def missing (p : Program) (position : Nat) : Nat :=
  match p.instructions[position]? with
  | some i => i.opcode.effect.pops - p.depth position
  | none => 0

/-- Whether the instruction at a position cuts the stack below the place that the value
defined at `value` has on it. -/
def takes (p : Program) (value position : Nat) : Bool :=
  (p.instructions[position]?).any fun i =>
    i.opcode ≠ .dup && p.depth position < p.depth (value + 1) + i.opcode.effect.pops

/-- Whether the instruction at a position copies the top of a stack that ends at the place of
the value defined at `value`. -/
def copies (p : Program) (value position : Nat) : Bool :=
  (p.instructions[position]?).any fun i =>
    i.opcode = .dup && p.depth position = p.depth (value + 1)

/-- The positions behind a definition and before another position, ascending. -/
def between (value stop : Nat) : List Nat :=
  List.range' (value + 1) (stop - (value + 1))

/-- Whether a value is taken off the stack before a position. -/
def takenBefore (p : Program) (value stop : Nat) : Bool :=
  (between value stop).any (p.takes value)

/-- The last use of a value before a position: where it is first taken off the stack; if it
is not, the last copy of it; and its definition if there is none. -/
def lastUseBefore (p : Program) (value stop : Nat) : Nat :=
  ((between value stop).find? (p.takes value)).getD
    (((between value stop).filter (p.copies value)).getLastD value)

/-- The last use of a value in the program. -/
def lastUse (p : Program) (value : Nat) : Nat :=
  p.lastUseBefore value p.size

section Step

variable {p : Program} {value position : Nat} {i : Instruction}

theorem depth_succ (hi : p.instructions[position]? = some i) :
    p.depth (position + 1) = i.opcode.depthAfter (p.depth position) := by
  rw [depth, hi]

theorem between_succ (h : value < position) :
    between value (position + 1) = between value position ++ [position] := by
  have hlength : position + 1 - (value + 1) = position - (value + 1) + 1 := by omega
  have hlast : value + 1 + (position - (value + 1)) = position := by omega
  rw [between, hlength, List.range'_1_concat, hlast, between]

theorem between_self (value : Nat) : between value (value + 1) = [] := by
  simp [between]

theorem takenBefore_succ (h : value < position) :
    p.takenBefore value (position + 1) =
      (p.takenBefore value position || p.takes value position) := by
  simp [takenBefore, between_succ h]

/-- Once a value has been taken, its last use is settled; before that, the instruction at
hand is a use if it takes the value or copies it. -/
theorem lastUseBefore_succ (h : value < position) :
    p.lastUseBefore value (position + 1) =
      if p.takenBefore value position = false ∧
          (p.takes value position = true ∨ p.copies value position = true) then position
      else p.lastUseBefore value position := by
  have htaken : p.takenBefore value position =
      ((between value position).find? (p.takes value)).isSome := by
    rw [takenBefore, Bool.eq_iff_iff, List.any_eq_true, List.find?_isSome]
  rw [lastUseBefore, between_succ h, List.find?_append, List.filter_append, htaken]
  cases hfind : (between value position).find? (p.takes value) with
  | some earlier => simp [lastUseBefore, hfind]
  | none =>
    cases htakes : p.takes value position with
    | true => simp [htakes]
    | false =>
      cases hcopies : p.copies value position with
      | true => simp [htakes, hcopies]
      | false => simp [lastUseBefore, hfind, htakes, hcopies]

end Step

end Program

end Bytecode

/-! ## What an instruction does to the walk -/

namespace Liveness.Walk

/-- How many values an instruction takes off the stack: the source of a copy stays. -/
def removed (op : Opcode) : Nat :=
  if op = .dup then 0 else op.effect.pops

/-- The walk after an instruction has used its operands, before it defines its result. -/
def use (op : Opcode) (position : Nat) (w : Walk) : Walk :=
  if op = .dup then w.peek position else Nat.repeat (pop position) op.effect.pops w

theorem apply_eq_use (op : Opcode) (position : Nat) (w : Walk) :
    w.apply op position =
      if op.effect.pushes = 0 then w.use op position else (w.use op position).define position := by
  cases op <;> rfl

theorem depthAfter_eq (op : Opcode) (depth : Nat) :
    op.depthAfter depth =
      depth - removed op + if op.effect.pushes = 0 then 0 else 1 := by
  cases op <;> rfl

theorem usedAt_usedAt (r : LiveRange) (position : Nat) :
    (r.usedAt position).usedAt position = r.usedAt position := by
  simp [LiveRange.usedAt]

/-- Popping uses the values on top of the stack and takes them off; what is missing there is
counted. -/
theorem repeat_pop_eq (position n : Nat) (w : Walk) :
    (Nat.repeat (pop position) n w).stack = w.stack.drop n ∧
    (Nat.repeat (pop position) n w).underflows = w.underflows + (n - w.stack.length) ∧
    ∀ index : Nat, (Nat.repeat (pop position) n w).ranges[index]? =
      (w.ranges[index]?).map fun r =>
        if index ∈ w.stack.take n then r.usedAt position else r := by
  induction n with
  | zero => simp [Nat.repeat]
  | succ n ih =>
    obtain ⟨hstack, hunderflows, hranges⟩ := ih
    rw [Nat.repeat]
    generalize Nat.repeat (pop position) n w = v at hstack hunderflows hranges
    unfold pop
    split
    · rename_i hnil
      have hle : w.stack.length ≤ n := List.drop_eq_nil_iff.mp (hstack ▸ hnil)
      refine ⟨?_, ?_, fun index => ?_⟩
      · rw [hnil, List.drop_eq_nil_of_le (Nat.le_succ_of_le hle)]
      · simp only [hunderflows]
        omega
      · rw [hranges, List.take_of_length_le hle, List.take_of_length_le (Nat.le_succ_of_le hle)]
    · rename_i top rest hcons
      have htop : w.stack[n]? = some top := by
        rw [← List.head?_drop, ← hstack, hcons]
        rfl
      have hlt : n < w.stack.length := (List.getElem?_eq_some_iff.mp htop).1
      refine ⟨?_, ?_, fun index => ?_⟩
      · rw [← List.tail_drop, ← hstack, hcons]
        rfl
      · simp only [touch, hunderflows]
        omega
      · simp only [touch, Array.getElem?_modify, hranges, List.take_add_one, htop]
        by_cases hindex : top = index
        · by_cases hearlier : index ∈ w.stack.take n
          · simp [hindex, hearlier, Function.comp_def, usedAt_usedAt]
          · simp [hindex, hearlier]
        · simp [hindex, Ne.symm hindex]

/-- An instruction uses as many values from the top of the stack as its opcode says, and
leaves the source of a copy where it is. -/
theorem use_eq (op : Opcode) (position : Nat) (w : Walk) :
    (w.use op position).stack = w.stack.drop (removed op) ∧
    (w.use op position).underflows = w.underflows + (op.effect.pops - w.stack.length) ∧
    ∀ index : Nat, (w.use op position).ranges[index]? =
      (w.ranges[index]?).map fun r =>
        if index ∈ w.stack.take op.effect.pops then r.usedAt position else r := by
  unfold use removed
  split
  · rename_i hdup
    subst hdup
    have hone : Opcode.dup.effect.pops = 1 := rfl
    rw [hone]
    unfold peek
    cases hstack : w.stack with
    | nil => simp
    | cons top rest =>
      refine ⟨hstack, by simp [touch], fun index => ?_⟩
      by_cases hindex : top = index
      · simp [touch, Array.getElem?_modify, hindex]
      · simp [touch, Array.getElem?_modify, hindex, Ne.symm hindex]
  · exact repeat_pop_eq position op.effect.pops w

theorem stack_step (op : Opcode) (position : Nat) (w : Walk) :
    (w.step op position).stack =
      (if op.effect.pushes = 0 then [] else [w.ranges.size]) ++ w.stack.drop (removed op) := by
  have hsize : (w.use op position).ranges.size = w.ranges.size := by
    rw [← length_spans, ← length_spans]
    unfold use
    split
    · rw [spans_peek]
    · rw [spans_repeat_pop]
  have hstep : (w.step op position).stack = (w.apply op position).stack := rfl
  rw [hstep, apply_eq_use, ← (use_eq op position w).1, ← hsize]
  split
  · rfl
  · rfl

theorem underflows_step (op : Opcode) (position : Nat) (w : Walk) :
    (w.step op position).underflows = w.underflows + (op.effect.pops - w.stack.length) := by
  have hstep : (w.step op position).underflows = (w.apply op position).underflows := rfl
  rw [hstep, apply_eq_use, ← (use_eq op position w).2.1]
  split
  · rfl
  · rfl

/-- A range after an instruction is an earlier one, used if its value is among the operands,
or it is the range of the result. -/
theorem ranges_step_cases {op : Opcode} {position : Nat} {w : Walk} {index : Nat} {s : LiveRange}
    (hs : (w.step op position).ranges[index]? = some s) :
    (∃ r, w.ranges[index]? = some r ∧
      s = if index ∈ w.stack.take op.effect.pops then r.usedAt position else r) ∨
    (s = .definedAt position ∧ index ∈ (w.step op position).stack ∧ w.ranges[index]? = none) := by
  have hstep : (w.step op position).ranges = (w.apply op position).ranges ∧
      (w.step op position).stack = (w.apply op position).stack := ⟨rfl, rfl⟩
  have hranges := (use_eq op position w).2.2 index
  rw [hstep.1, apply_eq_use] at hs
  rw [hstep.2, apply_eq_use]
  have hused : (w.use op position).ranges[index]? = some s →
      ∃ r, w.ranges[index]? = some r ∧
        s = if index ∈ w.stack.take op.effect.pops then r.usedAt position else r := by
    intro hold
    obtain ⟨r, hr, heq⟩ := Option.map_eq_some_iff.mp (hranges.symm.trans hold)
    exact ⟨r, hr, heq.symm⟩
  split at hs
  · exact .inl (hused hs)
  · rename_i hpushes
    simp only [define, Array.getElem?_push] at hs
    split at hs
    · rename_i hindex
      have hnone : w.ranges[index]? = none := by
        rw [← Option.map_eq_none_iff, ← hranges, hindex]
        exact Array.getElem?_eq_none (Nat.le_refl _)
      refine .inr ⟨(Option.some.inj hs).symm, ?_, hnone⟩
      rw [if_neg hpushes, hindex]
      exact List.mem_cons_self
    · exact .inl (hused hs)

/-! ## The walk and the depth of the stack -/

/-- A walk that has come to a position of a program agrees with the depth of the stack. -/
structure Measured (p : Program) (position : Nat) (w : Walk) : Prop where
  reached : Reached position w
  depth_eq : w.stack.length = p.depth position
  /-- A value on the stack is where the stack ended behind its definition. -/
  height : ∀ (above index : Nat), w.stack[above]? = some index →
    ∃ r, w.ranges[index]? = some r ∧ p.depth (r.start + 1) + above = p.depth position
  mem_stack_iff : ∀ (index : Nat) (r : LiveRange), w.ranges[index]? = some r →
    (index ∈ w.stack ↔ p.takenBefore r.start position = false)
  lastUse_eq : ∀ (index : Nat) (r : LiveRange), w.ranges[index]? = some r →
    r.lastUse = p.lastUseBefore r.start position
  maxDepth_eq : IsGreatest {n | ∃ k ≤ position, p.depth k = n} w.maxDepth
  underflows_eq : w.underflows = ∑ k ∈ Finset.range position, p.missing k

theorem measured_initial (p : Program) : Measured p 0 {} where
  reached := reached_initial
  depth_eq := rfl
  height := fun above index h => by simp at h
  mem_stack_iff := fun index r hr => by simp at hr
  lastUse_eq := fun index r hr => by simp at hr
  maxDepth_eq := by
    refine ⟨⟨0, Nat.le_refl 0, rfl⟩, ?_⟩
    rintro n ⟨k, hk, rfl⟩
    obtain rfl := Nat.le_zero.mp hk
    exact Nat.le_refl 0
  underflows_eq := rfl

namespace Measured

variable {p : Program} {position : Nat} {w : Walk} {i : Instruction}

theorem start_lt (h : Measured p position w) {index : Nat} {r : LiveRange}
    (hr : w.ranges[index]? = some r) : r.start < position :=
  h.reached.spans_lt _ (mem_spans hr)

theorem height_eq (h : Measured p position w) {above index : Nat} {r : LiveRange}
    (habove : w.stack[above]? = some index) (hr : w.ranges[index]? = some r) :
    p.depth (r.start + 1) + above = p.depth position := by
  obtain ⟨s, hs, hheight⟩ := h.height above index habove
  obtain rfl := Option.some.inj (hs.symm.trans hr)
  exact hheight

theorem depth_le (h : Measured p position w) {index : Nat} {r : LiveRange}
    (hr : w.ranges[index]? = some r) (hmem : index ∈ w.stack) :
    p.depth (r.start + 1) ≤ p.depth position := by
  obtain ⟨above, habove⟩ := List.mem_iff_getElem?.mp hmem
  exact Nat.le.intro (h.height_eq habove hr)

/-- The values among the topmost of the stack are those whose place the stack does not reach
without them. -/
theorem mem_take_iff (h : Measured p position w) {index : Nat} {r : LiveRange}
    (hr : w.ranges[index]? = some r) (n : Nat) :
    index ∈ w.stack.take n ↔ index ∈ w.stack ∧ p.depth position < p.depth (r.start + 1) + n := by
  constructor
  · intro hmem
    obtain ⟨above, habove⟩ := List.mem_iff_getElem?.mp hmem
    rw [List.getElem?_take] at habove
    split at habove
    · have hheight := h.height_eq habove hr
      exact ⟨List.mem_of_mem_take hmem, by omega⟩
    · cases habove
  · rintro ⟨hmem, hdepth⟩
    obtain ⟨above, habove⟩ := List.mem_iff_getElem?.mp hmem
    have hheight := h.height_eq habove hr
    refine List.mem_iff_getElem?.mpr ⟨above, ?_⟩
    rw [List.getElem?_take, if_pos (by omega), habove]

theorem mem_drop_iff (h : Measured p position w) {index : Nat} {r : LiveRange}
    (hr : w.ranges[index]? = some r) (n : Nat) :
    index ∈ w.stack.drop n ↔ index ∈ w.stack ∧ p.depth (r.start + 1) + n ≤ p.depth position := by
  constructor
  · intro hmem
    obtain ⟨above, habove⟩ := List.mem_iff_getElem?.mp hmem
    rw [List.getElem?_drop] at habove
    have hheight := h.height_eq habove hr
    exact ⟨List.mem_of_mem_drop hmem, by omega⟩
  · rintro ⟨hmem, hdepth⟩
    obtain ⟨above, habove⟩ := List.mem_iff_getElem?.mp hmem
    have hheight := h.height_eq habove hr
    obtain ⟨rest, rfl⟩ : ∃ rest, above = n + rest := ⟨above - n, by omega⟩
    exact List.mem_iff_getElem?.mpr ⟨rest, by rw [List.getElem?_drop, habove]⟩

/-- The values that leave the stack are the ones that are taken. -/
theorem takes_eq_false_iff (h : Measured p position w) (hi : p.instructions[position]? = some i)
    {index : Nat} {r : LiveRange} (hr : w.ranges[index]? = some r) (hmem : index ∈ w.stack) :
    p.takes r.start position = false ↔ index ∈ w.stack.drop (removed i.opcode) := by
  rw [h.mem_drop_iff hr, Program.takes, hi, Option.any_some]
  by_cases hdup : i.opcode = .dup
  · simp [hdup, removed, hmem, h.depth_le hr hmem]
  · simp [hdup, removed, hmem]

/-- The values among the operands are the ones that are taken or copied. -/
theorem mem_operands_iff (h : Measured p position w) (hi : p.instructions[position]? = some i)
    {index : Nat} {r : LiveRange} (hr : w.ranges[index]? = some r) :
    index ∈ w.stack.take i.opcode.effect.pops ↔
      p.takenBefore r.start position = false ∧
        (p.takes r.start position = true ∨ p.copies r.start position = true) := by
  rw [h.mem_take_iff hr, ← h.mem_stack_iff index r hr]
  refine and_congr_right fun hmem => ?_
  rw [Program.takes, Program.copies, hi, Option.any_some, Option.any_some]
  by_cases hdup : i.opcode = .dup
  · have hle := h.depth_le hr hmem
    have hone : Opcode.dup.effect.pops = 1 := rfl
    simp only [hdup, hone, ne_eq, not_true, decide_false, Bool.false_and, Bool.false_eq_true,
      false_or, decide_true, Bool.true_and, decide_eq_true_eq]
    omega
  · simp [hdup]

theorem depth_step (h : Measured p position w) (hi : p.instructions[position]? = some i) :
    (w.step i.opcode position).stack.length = p.depth (position + 1) := by
  rw [stack_step, Program.depth_succ hi, depthAfter_eq, ← h.depth_eq, List.length_append,
    List.length_drop, Nat.add_comm]
  split
  · rfl
  · rfl

/-- The place of a value on the stack stays what it is, and that of a new one is the top. -/
theorem height_step (h : Measured p position w) (hi : p.instructions[position]? = some i)
    (above index : Nat) (habove : (w.step i.opcode position).stack[above]? = some index) :
    ∃ r, (w.step i.opcode position).ranges[index]? = some r ∧
      p.depth (r.start + 1) + above = p.depth (position + 1) := by
  have hdepth := h.depth_step hi
  rw [stack_step] at habove hdepth
  have hkept : ∀ below : Nat, (w.stack.drop (removed i.opcode))[below]? = some index →
      ∃ r, (w.step i.opcode position).ranges[index]? = some r ∧
        p.depth (r.start + 1) + below = (w.stack.drop (removed i.opcode)).length := by
    intro below hbelow
    rw [List.getElem?_drop] at hbelow
    obtain ⟨r, hr, hheight⟩ := h.height _ index hbelow
    obtain ⟨s, hs, -, hstart⟩ := exists_range_along [i] position hr
    refine ⟨s, hs, ?_⟩
    rw [hstart, List.length_drop, h.depth_eq]
    omega
  by_cases hpushes : i.opcode.effect.pushes = 0
  · rw [if_pos hpushes, List.nil_append] at habove hdepth
    rw [← hdepth]
    exact hkept above habove
  · rw [if_neg hpushes, List.singleton_append] at habove hdepth
    cases above with
    | zero =>
      obtain rfl : w.ranges.size = index := Option.some.inj habove
      exact ⟨_, (step_of_pushes hpushes position w).2, rfl⟩
    | succ below =>
      obtain ⟨r, hr, hheight⟩ := hkept below habove
      refine ⟨r, hr, ?_⟩
      rw [← hdepth, List.length_cons, ← hheight]
      rfl

theorem mem_stack_step_iff (h : Measured p position w)
    (hi : p.instructions[position]? = some i) {index : Nat} {r : LiveRange}
    (hr : w.ranges[index]? = some r) :
    index ∈ (w.step i.opcode position).stack ↔
      p.takenBefore r.start (position + 1) = false := by
  have hlt : index < w.ranges.size := (Array.getElem?_eq_some_iff.mp hr).1
  have hold : index ∈ (w.step i.opcode position).stack ↔
      index ∈ w.stack.drop (removed i.opcode) := by
    rw [stack_step, List.mem_append]
    refine or_iff_right fun hnew => ?_
    split at hnew
    · cases hnew
    · exact Nat.ne_of_lt hlt (List.mem_singleton.mp hnew)
  rw [hold, Program.takenBefore_succ (h.start_lt hr), Bool.or_eq_false_iff,
    ← h.mem_stack_iff index r hr]
  constructor
  · intro hmem
    have hmem' := List.mem_of_mem_drop hmem
    exact ⟨hmem', (h.takes_eq_false_iff hi hr hmem').mpr hmem⟩
  · rintro ⟨hmem, htakes⟩
    exact (h.takes_eq_false_iff hi hr hmem).mp htakes

theorem maxDepth_step (h : Measured p position w) (hi : p.instructions[position]? = some i) :
    IsGreatest {n | ∃ k ≤ position + 1, p.depth k = n} (w.step i.opcode position).maxDepth := by
  have hmax : (w.step i.opcode position).maxDepth =
      max w.maxDepth (p.depth (position + 1)) := by
    rw [← h.depth_step hi, ← maxDepth_apply i.opcode position w]
    rfl
  obtain ⟨⟨k, hk, hattained⟩, hbound⟩ := h.maxDepth_eq
  rw [hmax]
  constructor
  · rcases Nat.le_total w.maxDepth (p.depth (position + 1)) with hle | hle
    · exact ⟨position + 1, Nat.le_refl _, (Nat.max_eq_right hle).symm⟩
    · exact ⟨k, Nat.le_succ_of_le hk, hattained.trans (Nat.max_eq_left hle).symm⟩
  · rintro n ⟨j, hj, rfl⟩
    rcases Nat.le_succ_iff.mp hj with hle | rfl
    · exact Nat.le_trans (hbound ⟨j, hle, rfl⟩) (Nat.le_max_left _ _)
    · exact Nat.le_max_right _ _

/-- The instruction at the position takes the walk to the next one. -/
theorem step (h : Measured p position w) (hi : p.instructions[position]? = some i) :
    Measured p (position + 1) (w.step i.opcode position) where
  reached := h.reached.step i.opcode
  depth_eq := h.depth_step hi
  height := h.height_step hi
  mem_stack_iff := by
    intro index s hs
    rcases ranges_step_cases hs with ⟨r, hr, rfl⟩ | ⟨rfl, hmem, -⟩
    · rw [h.mem_stack_step_iff hi hr]
      split
      · rfl
      · rfl
    · simp [hmem, Program.takenBefore, LiveRange.definedAt, Program.between_self]
  lastUse_eq := by
    intro index s hs
    rcases ranges_step_cases hs with ⟨r, hr, rfl⟩ | ⟨rfl, -, -⟩
    · have hlast : max r.lastUse position = position :=
        Nat.max_eq_right (Nat.le_of_lt (h.reached.bounds index r hr).2)
      have hnext : p.lastUseBefore r.start (position + 1) =
          if index ∈ w.stack.take i.opcode.effect.pops then position else r.lastUse := by
        rw [Program.lastUseBefore_succ (h.start_lt hr), h.lastUse_eq index r hr]
        simp only [h.mem_operands_iff hi hr]
      split
      · rename_i hused
        rw [if_pos hused] at hnext
        exact hlast.trans hnext.symm
      · rename_i hunused
        rw [if_neg hunused] at hnext
        exact hnext.symm
    · simp [Program.lastUseBefore, LiveRange.definedAt, Program.between_self]
  maxDepth_eq := h.maxDepth_step hi
  underflows_eq := by
    rw [underflows_step, Finset.sum_range_succ, h.underflows_eq, h.depth_eq, Program.missing, hi]

/-- The rest of the program takes the walk to its end. -/
theorem along (h : Measured p position w) {is : List Instruction}
    (his : p.instructions.drop position = is) :
    Measured p (position + is.length) (w.along position is) := by
  induction is generalizing position w with
  | nil => exact h
  | cons i is ih =>
    have hi : p.instructions[position]? = some i := by
      rw [← List.head?_drop, his]
      rfl
    have hrest : p.instructions.drop (position + 1) = is := by
      rw [← List.tail_drop, his]
      rfl
    have hend := ih (h.step hi) hrest
    rwa [Nat.add_assoc, Nat.add_comm 1] at hend

end Measured

end Liveness.Walk

/-! ## Whole programs -/

namespace Liveness

theorem measured_walk (p : Program) : Walk.Measured p p.size (walk p) := by
  have hall : p.instructions.drop 0 = p.instructions := List.drop_zero
  have hend := (Walk.measured_initial p).along hall
  rwa [Nat.zero_add, ← walk_eq_along] at hend

/-- Each range is the one that the depth of the stack gives to its start. -/
theorem eq_of_mem_ranges {p : Program} {r : LiveRange} (hr : r ∈ (ofProgram p).ranges) :
    r = ⟨r.start, r.start, p.lastUse r.start⟩ := by
  obtain ⟨index, hindex⟩ := List.mem_iff_getElem?.mp hr
  have hlast : r.lastUse = p.lastUse r.start :=
    (measured_walk p).lastUse_eq index r ((Array.getElem?_toList ..).symm.trans hindex)
  have hspan : (r.value, r.start) ∈ p.definitions.map fun d => (d, d) :=
    spans_ranges p ▸ List.mem_map_of_mem hr
  obtain ⟨d, -, hd⟩ := List.mem_map.mp hspan
  obtain ⟨value, start, last⟩ := r
  obtain ⟨rfl, rfl⟩ := Prod.mk.inj hd
  exact congrArg (LiveRange.mk d d) hlast

theorem ranges_eq (p : Program) :
    (ofProgram p).ranges = p.definitions.map fun d => ⟨d, d, p.lastUse d⟩ := by
  rw [← map_start_ranges, List.map_map]
  conv_lhs => rw [← List.map_id (ofProgram p).ranges]
  exact List.map_congr_left fun r hr => eq_of_mem_ranges hr

theorem range?_eq_some {p : Program} {d : Nat} (hd : p.Defines d) :
    (ofProgram p).range? d = some ⟨d, d, p.lastUse d⟩ := by
  unfold range?
  cases hfind : (ofProgram p).ranges.find? (·.value = d) with
  | none =>
    have hmem := Program.mem_definitions.mpr hd
    rw [← map_value_ranges] at hmem
    obtain ⟨r, hr, hvalue⟩ := List.mem_map.mp hmem
    exact absurd (decide_eq_true hvalue) (List.find?_eq_none.mp hfind r hr)
  | some r =>
    have hrange := eq_of_mem_ranges (List.mem_of_find?_eq_some hfind)
    have hvalue : r.value = d := by simpa using List.find?_some hfind
    have hstart : r.start = d := (congrArg LiveRange.value hrange).symm.trans hvalue
    rw [hrange, hstart]

theorem range?_eq_none {p : Program} {d : Nat} (hd : ¬ p.Defines d) :
    (ofProgram p).range? d = none := by
  refine List.find?_eq_none.mpr fun r hr hvalue => hd ?_
  rw [← Program.mem_definitions, ← map_value_ranges, ← of_decide_eq_true hvalue]
  exact List.mem_map_of_mem hr

/-- Liveness computes exact last uses.  For every program, whether its stack underflows or
not:

* there is one range for each instruction that defines a value, in program order; it is named
  after the position of the instruction and starts there, and it is the one found for it;
* it ends where the depth of the stack says: at the first later instruction that cuts the
  stack below the place of the value; if there is none, at the last later copy that is made
  with the value on top; and where it starts, if there is none either;
* the depth recorded is the greatest that the stack has before, between and behind the
  instructions, and the underflows are the operands that they miss. -/
theorem liveness_of_depth (p : Program) :
    (ofProgram p).ranges = p.definitions.map (fun d => ⟨d, d, p.lastUse d⟩) ∧
    p.definitions.Pairwise (· < ·) ∧
    (∀ d, p.Defines d → (ofProgram p).range? d = some ⟨d, d, p.lastUse d⟩) ∧
    (∀ d, ¬ p.Defines d → (ofProgram p).range? d = none) ∧
    IsGreatest {n | ∃ k ≤ p.size, p.depth k = n} (ofProgram p).maxDepth ∧
    (ofProgram p).underflows = ∑ k ∈ Finset.range p.size, p.missing k :=
  ⟨ranges_eq p, p.pairwise_lt_definitions, fun _ => range?_eq_some, fun _ => range?_eq_none,
    (measured_walk p).maxDepth_eq, (measured_walk p).underflows_eq⟩

end Liveness

end BaselineTier
