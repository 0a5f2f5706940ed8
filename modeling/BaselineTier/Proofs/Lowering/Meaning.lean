import BaselineTier.Bytecode.Evaluation
import BaselineTier.Proofs.Allocation.TwoDeep
import BaselineTier.Proofs.Lowering.Layout
import BaselineTier.Proofs.Machine.StraightLine

/-! # Lowering keeps the meaning of two-deep arithmetic

A two-deep program and its machine code are executed side by side.  What relates the
operand stack to the registers is the `Shape` that the allocation was planned with: it
says which register has which value of the stack.  Each bytecode instruction takes the
relation from one shape to the next, and at the return the accumulator has the top of
the stack.
-/

set_option autoImplicit false

namespace BaselineTier

open Machine (Register RegisterSet State Reaches FitsField afterRun?)
open Bytecode (Opcode Program OperandStack)
open LinearScan (Shape Planned)

namespace LinearScan

/-- The registers have of the stack what the shape says. -/
def Shape.Holds (s : State) (stack : OperandStack) : Shape → Prop
  | .empty => stack = []
  | .single => stack = [s.registers .rax]
  | .double upper =>
    ∃ below, stack = [s.registers upper, below] ∧ (upper = .rcx → s.registers .rax = below)

end LinearScan

namespace Lowering

variable {p : Program} {a : Allocation}

/-- The constants that instructions load have an integer view. -/
def LoadsIntegers (p : Program) (is : List Bytecode.Instruction) : Prop :=
  ∀ i ∈ is, i.opcode = .loadConst → ∃ v, loadedInteger? p i.arg = some v

theorem LoadsIntegers.tail {i : Bytecode.Instruction} {is : List Bytecode.Instruction}
    (h : LoadsIntegers p (i :: is)) : LoadsIntegers p is :=
  fun j hj => h j (List.mem_cons_of_mem i hj)

/-! ## One instruction of each kind -/

/-- A constant load puts the constant on the stack and into the register of its
position. -/
theorem load_step {i : Bytecode.Instruction} (hi : i.opcode = .loadConst) {v : Int64}
    (hv : loadedInteger? p i.arg = some v) {position : Nat} {q : Register}
    (hq : a.register? position = some q) (s : State) (stack : OperandStack) :
    afterRun? s (lower p a i position) = some (s.set q v.toBitVec) ∧
      p.stackAfter? stack i = some (v.toBitVec :: stack) := by
  constructor
  · have hvalue : loadedValue p i.arg = v.toInt := by rw [loadedValue, hv]; rfl
    simp only [lower, hi, hq, hvalue, Option.getD_some]
    simp [afterRun?, Machine.Instruction.effect?, State.operand]
  · obtain ⟨c, hc, hinteger⟩ := Option.bind_eq_some_iff.mp hv
    simp [Program.stackAfter?, hi, hc, hinteger]

/-- An operation combines the fixed pair of registers as it combines the two values on
top of the stack. -/
theorem arithmetic_step {i : Bytecode.Instruction} (hi : i.opcode ∈ [Opcode.add, .sub, .mul])
    (position : Nat) (s : State) :
    ∃ v, afterRun? s (lower p a i position) = some (s.set .rax v) ∧
      p.stackAfter? [s.registers .rcx, s.registers .rax] i = some [v] := by
  simp only [List.mem_cons, List.not_mem_nil, or_false] at hi
  rcases hi with hi | hi | hi
  · refine ⟨s.registers .rax + s.registers .rcx, ?_, ?_⟩
    · simp [lower, hi, afterRun?, Machine.Instruction.effect?, Machine.Instruction.add,
        Machine.AluOp.apply, State.operand, accumulator, operand]
    · simp [Program.stackAfter?, hi, Opcode.arithmetic?]
  · refine ⟨s.registers .rax - s.registers .rcx, ?_, ?_⟩
    · simp [lower, hi, afterRun?, Machine.Instruction.effect?, Machine.Instruction.sub,
        Machine.AluOp.apply, State.operand, accumulator, operand]
    · simp [Program.stackAfter?, hi, Opcode.arithmetic?]
  · refine ⟨s.registers .rax * s.registers .rcx, ?_, ?_⟩
    · simp [lower, hi, afterRun?, Machine.Instruction.effect?, accumulator, operand]
    · simp [Program.stackAfter?, hi, Opcode.arithmetic?]

/-- Both sides go on behind an instruction that does not return. -/
theorem simulates_cons {i : Bytecode.Instruction} {is : List Bytecode.Instruction}
    {position : Nat} {s s' : State} {stack stack' : OperandStack} (hi : i.opcode ≠ .ret)
    (hmachine : afterRun? s (lower p a i position) = some s')
    (hstack : p.stackAfter? stack i = some stack')
    (hrest : ∃ t, afterRun? s' (body p a (position + 1) is) = some t ∧
      p.evaluateFrom? is stack' = some (t.registers .rax)) :
    ∃ t, afterRun? s (body p a position (i :: is)) = some t ∧
      p.evaluateFrom? (i :: is) stack = some (t.registers .rax) := by
  obtain ⟨t, hrun, hvalue⟩ := hrest
  refine ⟨t, ?_, ?_⟩
  · rw [body_cons, Machine.afterRun?_append, hmachine]
    exact hrun
  · rw [Program.evaluateFrom?, if_neg hi, hstack]
    exact hvalue

/-! ## Whole bodies -/

/-- The machine code of a planned body computes what the bytecode computes, and leaves
it in the accumulator. -/
theorem body_simulates {shape : Shape} {position : Nat} {is : List Bytecode.Instruction}
    (hplan : Planned a shape position is) (hloads : LoadsIntegers p is) {s : State}
    {stack : OperandStack} (hholds : shape.Holds s stack) :
    ∃ t, afterRun? s (body p a position is) = some t ∧
      p.evaluateFrom? is stack = some (t.registers .rax) := by
  induction hplan generalizing s stack with
  | @retSingle position i hi =>
    obtain rfl : stack = [s.registers .rax] := hholds
    refine ⟨s, ?_, ?_⟩
    · simp [body, lower, hi, afterRun?]
    · simp [Program.evaluateFrom?, hi]
  | @retDouble position i hi =>
    obtain ⟨below, rfl, -⟩ := hholds
    refine ⟨s, ?_, ?_⟩
    · simp [body, lower, hi, afterRun?]
    · simp [Program.evaluateFrom?, hi]
  | nop hi _ ih =>
    refine simulates_cons (by simp [hi]) ?_ ?_ (ih hloads.tail hholds)
    · simp [lower, hi, afterRun?, Machine.Instruction.effect?]
    · simp [Program.stackAfter?, hi]
  | @lower position i is hi hregister _ ih =>
    obtain rfl : stack = [] := hholds
    obtain ⟨v, hv⟩ := hloads i List.mem_cons_self hi
    obtain ⟨hmachine, hstack⟩ := load_step hi hv hregister s []
    refine simulates_cons (by simp [hi]) hmachine hstack (ih hloads.tail ?_)
    simp [Shape.Holds]
  | @upper position q i is hi hregister _ ih =>
    obtain rfl : stack = [s.registers .rax] := hholds
    obtain ⟨v, hv⟩ := hloads i List.mem_cons_self hi
    obtain ⟨hmachine, hstack⟩ := load_step hi hv hregister s [s.registers .rax]
    refine simulates_cons (by simp [hi]) hmachine hstack (ih hloads.tail ?_)
    refine ⟨s.registers .rax, by simp, ?_⟩
    rintro rfl
    exact State.registers_set_of_ne s (by decide) _
  | @arithmetic position i is hi _ ih =>
    obtain ⟨below, rfl, hbelow⟩ := hholds
    obtain rfl := hbelow rfl
    obtain ⟨v, hmachine, hstack⟩ := arithmetic_step (p := p) (a := a) hi position s
    have hnotRet : i.opcode ≠ .ret := by
      intro hret
      rw [hret] at hi
      exact absurd hi (by decide)
    refine simulates_cons hnotRet hmachine hstack (ih hloads.tail ?_)
    simp [Shape.Holds]

/-! ## Whole programs -/

theorem exists_afterRun?_prologue (frameSize : UInt32) (s : State) :
    ∃ t, afterRun? s (prologue frameSize) = some t :=
  ⟨_, rfl⟩

/-- Giving up the frame does not touch the accumulator. -/
theorem afterRun?_leave (s : State) :
    ∃ t, afterRun? s
        [.mov .stackPointer (.reg .framePointer), .pop .framePointer] = some t ∧
      t.registers .rax = s.registers .rax :=
  ⟨_, rfl, rfl⟩

/-- Two-deep arithmetic keeps its meaning.  For every two-deep program, every frame size
below 2^31 and every set of registers that has the two registers of arithmetic,
allocation and generation succeed, the program returns a value, and executing the code
from its entry in any state reaches the return at its end with that value in the
accumulator. -/
theorem twoDeep_code_computes_value {p : Program} (hp : p.TwoDeep) {registers : RegisterSet}
    (hrax : registers.contains .rax = true) (hrcx : registers.contains .rcx = true)
    {frameSize : UInt32} (hframe : frameSize.toNat < 0x80000000) :
    ∃ code value,
      generate frameSize p (LinearScan.allocateProgram registers p).1 = .ok code ∧
      p.evaluate? = some value ∧
      ∀ s : State, ∃ t,
        Reaches code.bytes code.entryPoint s (code.size - 1) t ∧
        Machine.decode? (code.bytes.drop (code.size - 1)) = some (.ret, []) ∧
        t.registers .rax = value ∧
        Machine.run code.bytes code.entryPoint s = some ⟨t.top, t.drop⟩ := by
  generalize ha : (LinearScan.allocateProgram registers p).1 = a
  have hplan : Planned a .empty 0 p.instructions :=
    ha ▸ LinearScan.planned_allocateProgram hp hrax hrcx
  have hinteger : ∀ i ∈ p.instructions, i.opcode = .loadConst →
      ∃ v, loadedInteger? p i.arg = some v ∧ FitsField v.toInt := by
    intro i hi hload
    obtain ⟨c, v, hc, hv, hfits⟩ := hp.constants i hi hload
    exact ⟨v, Option.bind_eq_some_iff.mpr ⟨c, hc, hv⟩, hfits⟩
  obtain ⟨code, hcode⟩ : ∃ code, generate frameSize p a = .ok code := by
    refine exists_generate_of_fits a ⟨by omega, by omega⟩ fun i hi hload => ?_
    obtain ⟨v, hv, hfits⟩ := hinteger i hi hload
    rw [loadedValue, hv]
    exact hfits
  have hloads : LoadsIntegers p p.instructions := fun i hi hload =>
    (hinteger i hi hload).imp fun _ h => h.1
  -- the value does not depend on the state the code is entered in
  have hexecute : ∀ s : State, ∃ t,
      afterRun? s (prologue frameSize ++ (body p a 0 p.instructions ++
        [.mov .stackPointer (.reg .framePointer), .pop .framePointer])) = some t ∧
      p.evaluate? = some (t.registers .rax) := by
    intro s
    obtain ⟨s₁, hprologue⟩ := exists_afterRun?_prologue frameSize s
    have hempty : Shape.empty.Holds s₁ [] := rfl
    obtain ⟨s₂, hbody, hvalue⟩ := body_simulates hplan hloads hempty
    obtain ⟨s₃, hleave, hkept⟩ := afterRun?_leave s₂
    refine ⟨s₃, ?_, by rw [hkept]; exact hvalue⟩
    simp only [Machine.afterRun?_append, hprologue, hbody, hleave, Option.bind_some]
  obtain ⟨_, -, hvalue⟩ := hexecute ⟨fun _ => 0, fun _ => 0⟩
  refine ⟨code, _, hcode, hvalue, fun s => ?_⟩
  obtain ⟨t, hrun, ht⟩ := hexecute s
  have hassemble := assemble_listing_of_generate hcode
  have hlisting : listing frameSize p a =
      prologue frameSize ++ (body p a 0 p.instructions ++
        [.mov .stackPointer (.reg .framePointer), .pop .framePointer]) ++ [.ret] := by
    simp [listing, epilogue]
  rw [hlisting] at hassemble
  obtain ⟨hreaches, hret, hexit⟩ := Machine.run_assemble_ret hassemble hrun
  exact ⟨t, hreaches, hret, Option.some.inj (ht.symm.trans hvalue), hexit⟩

/-- Returns `-9` over the unused value `(7 - 5) * true`, so that the stack holds two values
at the return. -/
def coveredProduct : Program where
  instructions :=
    [⟨.loadConst, 0, 0⟩, ⟨.loadConst, 1, 0⟩, ⟨.sub, 0, 0⟩, ⟨.nop, 0, 0⟩, ⟨.loadConst, 2, 0⟩,
     ⟨.mul, 0, 0⟩, ⟨.loadConst, 3, 0⟩, ⟨.ret, 0, 0⟩]
  constants := #[.int 7, .int 5, .bool true, .int (-9)]

theorem coveredProduct_twoDeep : coveredProduct.TwoDeep where
  straight := ⟨coveredProduct.instructions.dropLast, ⟨.ret, 0, 0⟩, by decide⟩
  constants := by
    intro i hi hload
    simp only [coveredProduct, List.mem_cons, List.not_mem_nil, or_false] at hi
    rcases hi with rfl | rfl | rfl | rfl | rfl | rfl | rfl | rfl
    · exact ⟨.int 7, 7, by decide⟩
    · exact ⟨.int 5, 5, by decide⟩
    · cases hload
    · cases hload
    · exact ⟨.bool true, 1, by decide⟩
    · cases hload
    · exact ⟨.int (-9), -9, by decide⟩
    · cases hload
  depth := by simp [coveredProduct, Bytecode.StaysWithin, Opcode.effect]

theorem coveredProduct_code_computes_value :
    ∃ code,
      generate 64 coveredProduct
        (LinearScan.allocateProgram .allocatable coveredProduct).1 = .ok code ∧
      coveredProduct.evaluate? = some (-9) ∧
      ∀ s : State, ∃ t,
        Reaches code.bytes code.entryPoint s (code.size - 1) t ∧
        Machine.decode? (code.bytes.drop (code.size - 1)) = some (.ret, []) ∧
        t.registers .rax = -9 ∧
        Machine.run code.bytes code.entryPoint s = some ⟨t.top, t.drop⟩ := by
  have hrax : RegisterSet.allocatable.contains .rax = true := by decide
  have hrcx : RegisterSet.allocatable.contains .rcx = true := by decide
  have hframe : (64 : UInt32).toNat < 0x80000000 := by decide
  obtain ⟨code, value, hcode, hvalue, hrun⟩ :=
    twoDeep_code_computes_value coveredProduct_twoDeep hrax hrcx hframe
  have hreturned : coveredProduct.evaluate? = some (-9) := by decide
  obtain rfl := Option.some.inj (hvalue.symm.trans hreturned)
  exact ⟨code, hcode, hvalue, hrun⟩

end Lowering

end BaselineTier
