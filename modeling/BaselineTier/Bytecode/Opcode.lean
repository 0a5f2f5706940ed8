/-! # Opcodes of the stack bytecode

The bytecode works on an operand stack.  What an opcode takes from the stack and
leaves on it is fixed by the opcode alone, which is what lets live ranges be
computed without running a program.
-/

set_option autoImplicit false

namespace BaselineTier.Bytecode

/-- A bytecode operation. -/
inductive Opcode where
  /-- Does nothing. -/
  | nop
  /-- Pushes a constant from the pool. -/
  | loadConst
  /-- Pushes a local variable. -/
  | loadLocal
  /-- Pops into a local variable. -/
  | storeLocal
  /-- Pops two values and pushes their sum. -/
  | add
  /-- Pops two values and pushes their difference. -/
  | sub
  /-- Pops two values and pushes their product. -/
  | mul
  /-- Pops two values and pushes their quotient. -/
  | div
  /-- Discards the top value. -/
  | pop
  /-- Pushes a copy of the top value. -/
  | dup
  /-- Continues at the target position. -/
  | jump
  /-- Pops a condition and continues at the target position when it is falsy. -/
  | jumpIfFalse
  /-- Pops the result and leaves the function. -/
  | ret
  deriving DecidableEq

/-- How many values an opcode takes from the stack and puts on it. -/
structure StackEffect where
  pops : Nat
  pushes : Nat
  deriving DecidableEq

namespace Opcode

/-- Every opcode, in the order of the numbers that encode them. -/
def all : List Opcode :=
  [nop, loadConst, loadLocal, storeLocal, add, sub, mul, div, pop, dup, jump, jumpIfFalse, ret]

/-- The number that encodes an opcode: its place in `all`. -/
def number : Opcode → Nat
  | nop => 0
  | loadConst => 1
  | loadLocal => 2
  | storeLocal => 3
  | add => 4
  | sub => 5
  | mul => 6
  | div => 7
  | pop => 8
  | dup => 9
  | jump => 10
  | jumpIfFalse => 11
  | ret => 12

/-- The opcode that a number encodes, if any. -/
def ofNumber? (n : Nat) : Option Opcode :=
  all[n]?

@[simp] theorem ofNumber?_number (op : Opcode) : ofNumber? op.number = some op := by
  cases op <;> rfl

/-- The name used in listings and logs. -/
def mnemonic : Opcode → String
  | nop => "NOP"
  | loadConst => "LOAD_CONST"
  | loadLocal => "LOAD_LOCAL"
  | storeLocal => "STORE_LOCAL"
  | add => "ADD"
  | sub => "SUB"
  | mul => "MUL"
  | div => "DIV"
  | pop => "POP"
  | dup => "DUP"
  | jump => "JUMP"
  | jumpIfFalse => "JUMP_IF_FALSE"
  | ret => "RETURN"

/-- The stack effect.  A copy counts as taking its source and leaving two
values, so that source and copy each have a live range. -/
def effect : Opcode → StackEffect
  | nop | jump => ⟨0, 0⟩
  | loadConst | loadLocal => ⟨0, 1⟩
  | storeLocal | pop | jumpIfFalse | ret => ⟨1, 0⟩
  | add | sub | mul | div => ⟨2, 1⟩
  | dup => ⟨1, 2⟩

/-- How many operands the opcode reads. -/
def arity : Opcode → Nat
  | loadConst | loadLocal | storeLocal | jump | jumpIfFalse => 1
  | _ => 0

/-- Whether the operand is a position to continue at. -/
def isBranch : Opcode → Bool
  | jump | jumpIfFalse => true
  | _ => false

/-- Whether the opcode combines the two top values. -/
def isArithmetic : Opcode → Bool
  | add | sub | mul | div => true
  | _ => false

/-- Whether the operand names a local variable. -/
def isLocalAccess : Opcode → Bool
  | loadLocal | storeLocal => true
  | _ => false

end Opcode

end BaselineTier.Bytecode
