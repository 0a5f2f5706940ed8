import BaselineTier.Lowering
import BaselineTier.Proofs.Allocation.Soundness

/-! # Registers of two-deep arithmetic

Arithmetic is lowered to one fixed pair of registers, while the constants it works on
go wherever the scan puts them.  That the two meet is a fact about programs whose
stack never holds more than two values: the lower value is in the accumulator, and
the upper one is in the operand register as long as an operation on both is still to
come.  When none is, the lower value is never used again, its range has ended before
the upper value is defined, and the upper value gets the accumulator.

`Planned` says this of an allocation, instruction by instruction, and
`planned_allocateProgram` says that the scan produces such an allocation.
-/

set_option autoImplicit false

namespace BaselineTier

namespace Bytecode

/-- The opcodes of straight arithmetic on constants. -/
def Opcode.isStraight : Opcode → Bool
  | .nop | .loadConst | .add | .sub | .mul => true
  | _ => false

/-- From a stack of a given depth on, no instruction misses an operand and the stack
never holds more than `limit` values. -/
def StaysWithin (limit : Nat) : Nat → List Instruction → Prop
  | _, [] => True
  | depth, i :: is =>
    let effect := i.opcode.effect
    effect.pops ≤ depth ∧ depth - effect.pops + effect.pushes ≤ limit ∧
      StaysWithin limit (depth - effect.pops + effect.pushes) is

/-- Programs of straight arithmetic with one return at the end, whose constants fit a
signed 32-bit field and whose stack holds at most two values. -/
structure Program.TwoDeep (p : Program) : Prop where
  straight : ∃ before last, p.instructions = before ++ [last] ∧ last.opcode = .ret ∧
    ∀ i ∈ before, i.opcode.isStraight = true
  constants : ∀ i ∈ p.instructions, i.opcode = .loadConst →
    ∃ c v, p.constant? i.arg = some c ∧ c.integer? = some v ∧
      -0x80000000 ≤ v.toInt ∧ v.toInt < 0x80000000
  depth : StaysWithin 2 0 p.instructions

end Bytecode

namespace LinearScan

open Machine (Register RegisterSet)
open Bytecode (Opcode Program Instruction StaysWithin)
open Liveness (Walk)

/-! ## The plan -/

/-- What the registers have of the stack: nothing, its one value, or of two values the
upper one in the register named. -/
inductive Shape where
  | empty
  | single
  | double (upper : Register)
  deriving DecidableEq

def Shape.depth : Shape → Nat
  | .empty => 0
  | .single => 1
  | .double _ => 2

/-- An allocation that keeps the values of the stack where arithmetic and return look
for them. -/
inductive Planned (a : Allocation) : Shape → Nat → List Instruction → Prop where
  | retSingle {position : Nat} {i : Instruction} (hi : i.opcode = .ret) :
      Planned a .single position [i]
  | retDouble {position : Nat} {i : Instruction} (hi : i.opcode = .ret) :
      Planned a (.double .rax) position [i]
  | nop {shape : Shape} {position : Nat} {i : Instruction} {is : List Instruction}
      (hi : i.opcode = .nop) (hrest : Planned a shape (position + 1) is) :
      Planned a shape position (i :: is)
  | lower {position : Nat} {i : Instruction} {is : List Instruction}
      (hi : i.opcode = .loadConst) (hregister : a.register? position = some .rax)
      (hrest : Planned a .single (position + 1) is) :
      Planned a .empty position (i :: is)
  | upper {position : Nat} {q : Register} {i : Instruction} {is : List Instruction}
      (hi : i.opcode = .loadConst) (hregister : a.register? position = some q)
      (hrest : Planned a (.double q) (position + 1) is) :
      Planned a .single position (i :: is)
  | arithmetic {position : Nat} {i : Instruction} {is : List Instruction}
      (hi : i.opcode ∈ [Opcode.add, .sub, .mul])
      (hrest : Planned a .single (position + 1) is) :
      Planned a (.double .rcx) position (i :: is)

/-! ## The choice among the two lowest registers -/

section Choice

variable {registers : RegisterSet} {decided : List Decision} {range : LiveRange}

theorem isFreeAt_of_ended {q : Register} (hq : registers.contains q = true)
    (hended : ∀ d ∈ decided, d.place = .register q →
      d.range.effectiveEnd ≤ range.start) :
    isFreeAt registers decided range.start q = true := by
  simp only [isFreeAt, hq, Bool.true_and, List.all_eq_true, Bool.or_eq_true,
    decide_eq_true_eq]
  intro d hd
  by_cases hplace : d.place = .register q
  · exact .inr (hended d hd hplace)
  · exact .inl hplace

theorem choice_eq_rax (hrax : registers.contains .rax = true)
    (hended : ∀ d ∈ decided, d.range.effectiveEnd ≤ range.start) :
    choice registers decided range = .register .rax := by
  have hfree : isFreeAt registers decided range.start .rax = true :=
    isFreeAt_of_ended hrax fun d hd _ => hended d hd
  simp [choice, Register.all, hfree]

theorem choice_eq_rcx {r : LiveRange} (hrcx : registers.contains .rcx = true)
    (hlasts : range.start < r.effectiveEnd)
    (hended : ∀ d ∈ decided, d.range.effectiveEnd ≤ range.start) :
    choice registers (⟨r, .register .rax⟩ :: decided) range = .register .rcx := by
  have htaken : isFreeAt registers (⟨r, .register .rax⟩ :: decided) range.start .rax =
      false := by
    simp [isFreeAt, Nat.not_le.mpr hlasts]
  have hfree : isFreeAt registers (⟨r, .register .rax⟩ :: decided) range.start .rcx =
      true := by
    refine isFreeAt_of_ended hrcx fun d hd hplace => ?_
    rcases List.mem_cons.mp hd with rfl | hd
    · cases hplace
    · exact hended d hd
  simp [choice, Register.all, htaken, hfree]

theorem mem_foldl_decideNext {d : Decision} (hd : d ∈ decided) (ranges : List LiveRange) :
    d ∈ ranges.foldl (decideNext registers) decided := by
  induction ranges generalizing decided with
  | nil => exact hd
  | cons r ranges ih => exact ih (List.mem_cons_of_mem _ hd)

end Choice

/-! ## The walk and the decisions side by side -/

/-- A value that is on the stack of the walk, unused so far, with its final range. -/
structure Waiting (ranges : List LiveRange) (w : Walk) (index start : Nat) (r : LiveRange) :
    Prop where
  walked : w.ranges[index]? = some (.definedAt start)
  final : ranges[index]? = some r
  start_eq : r.start = start

/-- How far the decisions for the values defined so far go with the stack of the
walk.  Only the values on the stack can still hold a register. -/
def Tracks (ranges : List LiveRange) (position : Nat) (w : Walk) (decided : List Decision) :
    Shape → Prop
  | .empty => w.ranges.size = 0 ∧ w.stack = [] ∧ decided = []
  | .single =>
    ∃ k start r older, w.ranges.size = k + 1 ∧ w.stack = [k] ∧ Waiting ranges w k start r ∧
      start < position ∧ decided = ⟨r, .register .rax⟩ :: older ∧
      ∀ d ∈ older, d.range.effectiveEnd ≤ start
  | .double upper =>
    ∃ k start start' r r' older, w.ranges.size = k + 2 ∧ w.stack = [k + 1, k] ∧
      Waiting ranges w k start r ∧ Waiting ranges w (k + 1) start' r' ∧
      start < start' ∧ start' < position ∧
      decided = ⟨r', .register upper⟩ :: ⟨r, .register .rax⟩ :: older ∧
      (∀ d ∈ older, d.range.effectiveEnd ≤ start) ∧
      (upper = .rcx ∧ start' < r.effectiveEnd ∨ upper = .rax ∧ r.effectiveEnd ≤ start')

section Steps

variable {registers : RegisterSet} {ranges : List LiveRange} {position : Nat} {w : Walk}
  {decided : List Decision} {shape : Shape}

/-- The range of a value defined by the next instruction, at the end of the walk. -/
theorem exists_defined_range {is : List Instruction} {op : Opcode}
    (hpushes : op.effect.pushes ≠ 0)
    (hwalk : ((w.step op position).along (position + 1) is).ranges.toList = ranges) :
    ∃ r, ranges[w.ranges.size]? = some r ∧ r.value = position ∧ r.start = position := by
  obtain ⟨r, hr, hvalue, hstart⟩ :=
    Walk.exists_range_along is (position + 1) (Walk.step_of_pushes hpushes position w).2
  refine ⟨r, ?_, hvalue, hstart⟩
  rw [← hwalk, Array.getElem?_toList]
  exact hr

/-- A value that the next instruction pops has its last use there. -/
theorem lastUse_of_popped {is : List Instruction} {op : Opcode} {index start : Nat}
    {r : LiveRange} (hwaiting : Waiting ranges w index start r)
    (hsettled : Walk.Settled index (LiveRange.usedAt (.definedAt start) position)
      (w.step op position))
    (hwalk : ((w.step op position).along (position + 1) is).ranges.toList = ranges) :
    r = LiveRange.usedAt (.definedAt start) position := by
  have hfinal := (hsettled.along is (position + 1)).1
  rw [← Array.getElem?_toList, hwalk, hwaiting.final] at hfinal
  exact Option.some.inj hfinal

theorem effectiveEnd_usedAt {start : Nat} (h : start < position) :
    (LiveRange.usedAt (.definedAt start) position).effectiveEnd = position := by
  simp only [LiveRange.usedAt, LiveRange.definedAt, LiveRange.effectiveEnd]
  omega

theorem effectiveEnd_definedAt_le (start : Nat) :
    (LiveRange.definedAt start).effectiveEnd ≤ start + 1 := by
  simp only [LiveRange.definedAt, LiveRange.effectiveEnd]
  omega

/-- The next range of the scan, once it is known. -/
theorem foldl_drop_of_getElem? {r : LiveRange} (hr : ranges[w.ranges.size]? = some r) :
    (ranges.drop w.ranges.size).foldl (decideNext registers) decided =
      (ranges.drop (w.ranges.size + 1)).foldl (decideNext registers)
        (decideNext registers decided r) := by
  obtain ⟨hlt, hget⟩ := List.getElem?_eq_some_iff.mp hr
  rw [List.drop_eq_getElem_cons hlt, hget, List.foldl_cons]

theorem Tracks.nop (h : Tracks ranges position w decided shape) :
    Tracks ranges (position + 1) (w.step .nop position) decided shape := by
  cases shape with
  | empty => exact h
  | single =>
    obtain ⟨k, start, r, older, hsize, hstack, hwaiting, hlt, hdecided, hended⟩ := h
    exact ⟨k, start, r, older, hsize, hstack, ⟨hwaiting.1, hwaiting.2, hwaiting.3⟩,
      Nat.lt_succ_of_lt hlt, hdecided, hended⟩
  | double upper =>
    obtain ⟨k, start, start', r, r', older, hsize, hstack, hlow, hhigh, hlt, hlt', hdecided,
      hended, hupper⟩ := h
    exact ⟨k, start, start', r, r', older, hsize, hstack, ⟨hlow.1, hlow.2, hlow.3⟩,
      ⟨hhigh.1, hhigh.2, hhigh.3⟩, hlt, Nat.lt_succ_of_lt hlt', hdecided, hended, hupper⟩

theorem ranges_step_loadConst (w : Walk) (position : Nat) :
    (w.step .loadConst position).ranges = w.ranges.push (.definedAt position) := rfl

theorem stack_step_loadConst (w : Walk) (position : Nat) :
    (w.step .loadConst position).stack = w.ranges.size :: w.stack := rfl

/-- The first value takes the accumulator. -/
theorem Tracks.lower (h : Tracks ranges position w decided .empty)
    (hrax : registers.contains .rax = true) {r : LiveRange}
    (hr : ranges[w.ranges.size]? = some r) (hstart : r.start = position) :
    choice registers decided r = .register .rax ∧
      Tracks ranges (position + 1) (w.step .loadConst position)
        (decideNext registers decided r) .single := by
  obtain ⟨hsize, hstack, rfl⟩ := h
  have hchoice : choice registers [] r = .register .rax :=
    choice_eq_rax hrax (fun _ hd => absurd hd List.not_mem_nil)
  refine ⟨hchoice, 0, position, r, [], ?_, ?_, ⟨?_, ?_, hstart⟩, Nat.lt_succ_self _, ?_, ?_⟩
  · rw [ranges_step_loadConst, Array.size_push, hsize]
  · rw [stack_step_loadConst, hstack, hsize]
  · rw [ranges_step_loadConst, Array.getElem?_push, if_pos hsize.symm]
  · rw [← hr, hsize]
  · rw [decideNext, hchoice]
  · exact fun _ hd => absurd hd List.not_mem_nil

/-- A value above another one takes the operand register if the lower one is still
needed, and the accumulator if not. -/
theorem Tracks.upper (h : Tracks ranges position w decided .single)
    (hrax : registers.contains .rax = true) (hrcx : registers.contains .rcx = true)
    {r' : LiveRange} (hr : ranges[w.ranges.size]? = some r') (hstart : r'.start = position) :
    ∃ q, choice registers decided r' = .register q ∧
      Tracks ranges (position + 1) (w.step .loadConst position)
        (decideNext registers decided r') (.double q) := by
  obtain ⟨k, start, r, older, hsize, hstack, hwaiting, hlt, rfl, hended⟩ := h
  have hpassed : ∀ d ∈ older, d.range.effectiveEnd ≤ r'.start := fun d hd => by
    have hle := hended d hd
    omega
  obtain ⟨q, hchoice, hneeded⟩ : ∃ q,
      choice registers (⟨r, .register .rax⟩ :: older) r' = .register q ∧
        (q = .rcx ∧ position < r.effectiveEnd ∨ q = .rax ∧ r.effectiveEnd ≤ position) := by
    by_cases hlasts : position < r.effectiveEnd
    · exact ⟨.rcx, choice_eq_rcx hrcx (by omega) hpassed, .inl ⟨rfl, hlasts⟩⟩
    · refine ⟨.rax, choice_eq_rax hrax fun d hd => ?_, .inr ⟨rfl, Nat.le_of_not_lt hlasts⟩⟩
      rcases List.mem_cons.mp hd with rfl | hd
      · simp only
        omega
      · exact hpassed d hd
  refine ⟨q, hchoice, k, start, position, r, r', older, ?_, ?_, ⟨?_, hwaiting.2, hwaiting.3⟩,
    ⟨?_, ?_, hstart⟩, hlt, Nat.lt_succ_self _, ?_, hended, hneeded⟩
  · rw [ranges_step_loadConst, Array.size_push, hsize]
  · rw [stack_step_loadConst, hstack, hsize]
  · rw [ranges_step_loadConst, Array.getElem?_push, if_neg (by omega)]
    exact hwaiting.1
  · rw [ranges_step_loadConst, Array.getElem?_push, if_pos hsize.symm]
  · rw [← hsize, hr]
  · rw [decideNext, hchoice]

theorem stack_step_arithmetic (position : Nat) {op : Opcode}
    (hop : op ∈ [Opcode.add, .sub, .mul]) {k : Nat} (hstack : w.stack = [k + 1, k]) :
    (w.step op position).stack = [w.ranges.size] ∧
      (w.step op position).ranges =
        ((w.ranges.modify (k + 1) (·.usedAt position)).modify k (·.usedAt position)).push
          (.definedAt position) := by
  simp only [List.mem_cons, List.not_mem_nil, or_false] at hop
  rcases hop with rfl | rfl | rfl <;>
    simp [Walk.step, Walk.apply, Walk.pop, Walk.touch, Walk.define, Opcode.effect,
      Nat.repeat, hstack]

/-- An operation finds its operands in the fixed pair of registers, and its result
takes the accumulator again. -/
theorem Tracks.arithmetic {upper : Register} {op : Opcode} {is : List Instruction}
    (h : Tracks ranges position w decided (.double upper))
    (hop : op ∈ [Opcode.add, .sub, .mul]) (hrax : registers.contains .rax = true)
    (hwalk : ((w.step op position).along (position + 1) is).ranges.toList = ranges)
    {s : LiveRange} (hs : ranges[w.ranges.size]? = some s) (hstart : s.start = position) :
    upper = .rcx ∧ Tracks ranges (position + 1) (w.step op position)
      (decideNext registers decided s) .single := by
  obtain ⟨k, start, start', r, r', older, hsize, hstack, hlow, hhigh, hlt, hlt', rfl,
    hended, hupper⟩ := h
  obtain ⟨hstack', hranges⟩ := stack_step_arithmetic position hop hstack
  have hr : r = LiveRange.usedAt (.definedAt start) position := by
    refine lastUse_of_popped hlow ⟨?_, ?_⟩ hwalk
    · rw [hranges, Array.getElem?_push, if_neg (by simp; omega), Array.getElem?_modify,
        if_pos rfl, Array.getElem?_modify, if_neg (by omega), hlow.walked]
      rfl
    · rw [hstack', List.mem_singleton]
      omega
  have hr' : r' = LiveRange.usedAt (.definedAt start') position := by
    refine lastUse_of_popped hhigh ⟨?_, ?_⟩ hwalk
    · rw [hranges, Array.getElem?_push, if_neg (by simp; omega), Array.getElem?_modify,
        if_neg (by omega), Array.getElem?_modify, if_pos rfl, hhigh.walked]
      rfl
    · rw [hstack', List.mem_singleton]
      omega
  have hend : r.effectiveEnd = position := by
    rw [hr]; exact effectiveEnd_usedAt (by omega)
  have hend' : r'.effectiveEnd = position := by
    rw [hr']; exact effectiveEnd_usedAt hlt'
  have hpassed : ∀ d ∈ (⟨r', .register upper⟩ :: ⟨r, .register .rax⟩ :: older : List Decision),
      d.range.effectiveEnd ≤ position := by
    intro d hd
    rcases List.mem_cons.mp hd with rfl | hd
    · exact Nat.le_of_eq hend'
    rcases List.mem_cons.mp hd with rfl | hd
    · exact Nat.le_of_eq hend
    · have hle := hended d hd
      omega
  have hchoice : choice registers _ s = .register .rax :=
    choice_eq_rax hrax (hstart ▸ hpassed)
  refine ⟨?_, w.ranges.size, position, s, _, ?_, hstack', ⟨?_, hs, hstart⟩,
    Nat.lt_succ_self _, ?_, hpassed⟩
  · rcases hupper with ⟨hrcx, -⟩ | ⟨-, hle⟩
    · exact hrcx
    · omega
  · rw [hranges, Array.size_push, Array.size_modify, Array.size_modify]
  · rw [hranges, Array.getElem?_push, if_pos (by simp)]
  · rw [decideNext, hchoice]

/-- At the end, a value below the returned one has never been used, so the returned one
took the accumulator. -/
theorem Tracks.ret {upper : Register} (h : Tracks ranges position w decided (.double upper))
    (hwalk : (w.step .ret position).ranges.toList = ranges) : upper = .rax := by
  obtain ⟨k, start, start', r, r', older, hsize, hstack, hlow, -, hlt, -, -, -, hupper⟩ := h
  have hranges : (w.step .ret position).ranges = w.ranges.modify (k + 1) (·.usedAt position) := by
    simp [Walk.step, Walk.apply, Walk.pop, Walk.touch, Opcode.effect, Nat.repeat, hstack]
  have hfinal : ranges[k]? = some (.definedAt start) := by
    rw [← hwalk, Array.getElem?_toList, hranges, Array.getElem?_modify, if_neg (by omega)]
    exact hlow.walked
  obtain rfl : r = .definedAt start := Option.some.inj (hlow.final.symm.trans hfinal)
  have hle := effectiveEnd_definedAt_le start
  rcases hupper with ⟨-, hlasts⟩ | ⟨hrax, -⟩
  · omega
  · exact hrax

end Steps

/-! ## Whole programs -/

section Program

variable {registers : RegisterSet} {ranges : List LiveRange} {a : Allocation}

/-- A step of the walk that defines a value takes one decision: the value is placed by
the greedy choice, and the rest of the ranges is decided after it. -/
theorem decision_of_defined {position : Nat} {w : Walk} {decided : List Decision} {op : Opcode}
    {is : List Instruction}
    (hplaces : ∀ d ∈ greedy registers ranges, ∀ q, d.place = .register q →
      a.register? d.range.value = some q)
    (hpushes : op.effect.pushes ≠ 0)
    (hwalk : ((w.step op position).along (position + 1) is).ranges.toList = ranges)
    (hgreedy : (ranges.drop w.ranges.size).foldl (decideNext registers) decided =
      greedy registers ranges) :
    ∃ r, ranges[w.ranges.size]? = some r ∧ r.start = position ∧
      (∀ q, choice registers decided r = .register q → a.register? position = some q) ∧
      (ranges.drop (w.step op position).ranges.size).foldl (decideNext registers)
        (decideNext registers decided r) = greedy registers ranges := by
  obtain ⟨r, hr, hvalue, hstart⟩ := exists_defined_range hpushes hwalk
  have hnext := (foldl_drop_of_getElem? hr).symm.trans hgreedy
  refine ⟨r, hr, hstart, fun q hchoice => ?_, ?_⟩
  swap
  · rw [(Walk.step_of_pushes hpushes position w).1, hnext]
  have hmem : ⟨r, choice registers decided r⟩ ∈ greedy registers ranges := by
    rw [← hnext]
    exact mem_foldl_decideNext List.mem_cons_self _
  rw [← hvalue]
  exact hplaces _ hmem q hchoice

/-- The plan follows from the walk and the decisions, one instruction after the
other. -/
theorem planned_of_tracks {before : List Instruction} {last : Instruction}
    (hrax : registers.contains .rax = true) (hrcx : registers.contains .rcx = true)
    (hplaces : ∀ d ∈ greedy registers ranges, ∀ q, d.place = .register q →
      a.register? d.range.value = some q)
    (hlast : last.opcode = .ret) (hstraight : ∀ i ∈ before, i.opcode.isStraight = true)
    {position : Nat} {w : Walk} {decided : List Decision} {shape : Shape}
    (hdepth : StaysWithin 2 shape.depth (before ++ [last]))
    (htracks : Tracks ranges position w decided shape)
    (hwalk : (w.along position (before ++ [last])).ranges.toList = ranges)
    (hgreedy : (ranges.drop w.ranges.size).foldl (decideNext registers) decided =
      greedy registers ranges) :
    Planned a shape position (before ++ [last]) := by
  induction before generalizing position w decided shape with
  | nil =>
    cases shape with
    | empty =>
      have hpops : last.opcode.effect.pops ≤ 0 := hdepth.1
      rw [hlast] at hpops
      cases hpops
    | single => exact .retSingle hlast
    | double upper =>
      have hfinal : (w.step .ret position).ranges.toList = ranges := hlast ▸ hwalk
      obtain rfl := htracks.ret hfinal
      exact .retDouble hlast
  | cons i is ih =>
    have hi := hstraight i List.mem_cons_self
    have his : ∀ j ∈ is, j.opcode.isStraight = true := fun j hj =>
      hstraight j (List.mem_cons_of_mem i hj)
    obtain ⟨hpops, hlimit, hrest⟩ := hdepth
    simp only [List.cons_append, Walk.along] at hwalk ⊢
    cases hopcode : i.opcode with
    | nop =>
      rw [hopcode] at hwalk hrest
      exact .nop hopcode (ih his hrest htracks.nop hwalk hgreedy)
    | loadConst =>
      rw [hopcode] at hwalk hrest hlimit
      obtain ⟨r, hr, hstart, hregister, hnext⟩ :=
        decision_of_defined hplaces (by decide) hwalk hgreedy
      cases shape with
      | empty =>
        obtain ⟨hchoice, hsingle⟩ := htracks.lower hrax hr hstart
        exact .lower hopcode (hregister _ hchoice) (ih his hrest hsingle hwalk hnext)
      | single =>
        obtain ⟨q, hchoice, hdouble⟩ := htracks.upper hrax hrcx hr hstart
        exact .upper hopcode (hregister _ hchoice) (ih his hrest hdouble hwalk hnext)
      | double upper => exact absurd hlimit (by simp [Shape.depth, Opcode.effect])
    | add | sub | mul =>
      have hop : i.opcode ∈ [Opcode.add, .sub, .mul] := by simp [hopcode]
      have heffect : i.opcode.effect = ⟨2, 1⟩ := by rw [hopcode]; rfl
      obtain ⟨r, hr, hstart, -, hnext⟩ :=
        decision_of_defined hplaces (by simp [heffect]) hwalk hgreedy
      rw [heffect] at hpops hrest
      cases shape with
      | empty => cases hpops
      | single => exact absurd hpops (by simp [Shape.depth])
      | double upper =>
        obtain ⟨rfl, hsingle⟩ := htracks.arithmetic hop hrax hwalk hr hstart
        exact .arithmetic hop (ih his hrest hsingle hwalk hnext)
    | loadLocal | storeLocal | div | pop | dup | jump | jumpIfFalse | ret =>
      rw [hopcode] at hi
      cases hi

theorem ordered_ranges (p : Program) :
    ordered (Liveness.ofProgram p).ranges = (Liveness.ofProgram p).ranges := by
  have hstarts : ((Liveness.ofProgram p).ranges.map (·.start)).Pairwise (· < ·) := by
    rw [Liveness.map_start_ranges]
    exact p.pairwise_lt_definitions
  refine List.mergeSort_of_pairwise ((List.pairwise_map.mp hstarts).imp ?_)
  intro r s hlt
  simpa using Nat.le_of_lt hlt

/-- The scan of a two-deep program allocates as arithmetic needs it. -/
theorem planned_allocateProgram {p : Program} (hp : p.TwoDeep)
    (hrax : registers.contains .rax = true) (hrcx : registers.contains .rcx = true) :
    Planned (allocateProgram registers p).1 .empty 0 p.instructions := by
  obtain ⟨before, last, heq, hlast, hstraight⟩ := hp.straight
  have hplaces : ∀ d ∈ greedy registers (Liveness.ofProgram p).ranges, ∀ q,
      d.place = .register q →
      (allocateProgram registers p).1.register? d.range.value = some q := by
    intro d hd q hplace
    refine register?_eq_some_iff.mpr ((place?_run (Liveness.nodup_value_ranges p)).mpr ?_)
    rw [ordered_ranges]
    exact ⟨d, hd, rfl, hplace⟩
  have hwalk : (({} : Walk).along 0 p.instructions).ranges.toList =
      (Liveness.ofProgram p).ranges := by
    rw [← Liveness.walk_eq_along]
    rfl
  have hdepth := hp.depth
  rw [heq] at hwalk hdepth ⊢
  have htracks : Tracks (Liveness.ofProgram p).ranges 0 {} [] .empty := ⟨rfl, rfl, rfl⟩
  exact planned_of_tracks hrax hrcx hplaces hlast hstraight hdepth htracks hwalk rfl

end Program

end LinearScan

end BaselineTier
