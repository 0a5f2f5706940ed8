import BaselineTier.Bytecode.Program

/-! # Evaluation of arithmetic programs

What a program of constant loads and arithmetic computes, read off the bytecode
with an operand stack.  Values are 64-bit words and arithmetic is modulo 2^64.
Instructions outside this fragment, a constant without an integer view and a
missing operand have no meaning here.
-/

set_option autoImplicit false

namespace BaselineTier.Bytecode

/-- The operand stack, top first. -/
abbrev OperandStack := List (BitVec 64)

namespace Opcode

/-- The arithmetic of an opcode on its left and right operand. -/
def arithmetic? : Opcode → Option (BitVec 64 → BitVec 64 → BitVec 64)
  | .add => some (· + ·)
  | .sub => some (· - ·)
  | .mul => some (· * ·)
  | _ => none

end Opcode

namespace Program

/-- The stack after an instruction that does not return.  The right operand is on
top and the left one below it. -/
def stackAfter? (p : Program) (stack : OperandStack) (i : Instruction) : Option OperandStack :=
  match i.opcode with
  | .nop => some stack
  | .loadConst => do
    let c ← p.constant? i.arg
    let value ← c.integer?
    return value.toBitVec :: stack
  | opcode => do
    let f ← opcode.arithmetic?
    match stack with
    | right :: left :: rest => return f left right :: rest
    | _ => none

/-- The value returned by instructions that start with a given stack. -/
def evaluateFrom? (p : Program) : List Instruction → OperandStack → Option (BitVec 64)
  | [], _ => none
  | i :: rest, stack =>
    if i.opcode = .ret then stack.head?
    else (p.stackAfter? stack i).bind (p.evaluateFrom? rest)

/-- The value a program returns. -/
def evaluate? (p : Program) : Option (BitVec 64) :=
  p.evaluateFrom? p.instructions []

end Program

end BaselineTier.Bytecode
