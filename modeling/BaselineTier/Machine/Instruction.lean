import BaselineTier.Machine.Register

/-! # Machine instructions

The instructions generated code is made of.  Immediates and displacements are
integers here; whether one fits its 32-bit field is a matter of encoding.
-/

set_option autoImplicit false

namespace BaselineTier.Machine

/-- The source of a move or of an addition or subtraction. -/
inductive Operand where
  | reg (r : Register)
  | imm (value : Int)
  deriving DecidableEq

/-- The two operations that share one instruction format. -/
inductive AluOp where
  | add
  | sub
  deriving DecidableEq

/-- A machine instruction.  Destinations come before sources. -/
inductive Instruction where
  /-- Copies the source into the destination. -/
  | mov (dst : Register) (src : Operand)
  /-- Combines destination and source into the destination. -/
  | alu (op : AluOp) (dst : Register) (src : Operand)
  /-- Multiplies the destination by the source. -/
  | imul (dst src : Register)
  /-- Calls the code at a displacement from the end of the instruction. -/
  | call (displacement : Int)
  | push (r : Register)
  | pop (r : Register)
  | ret
  | nop
  deriving DecidableEq

namespace Instruction

/-- Adds the source to the destination. -/
def add (dst : Register) (src : Operand) : Instruction := .alu .add dst src

/-- Subtracts the source from the destination. -/
def sub (dst : Register) (src : Operand) : Instruction := .alu .sub dst src

end Instruction

end BaselineTier.Machine
