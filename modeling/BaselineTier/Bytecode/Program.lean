import BaselineTier.Bytecode.Opcode
import BaselineTier.Bytecode.Constant
import BaselineTier.Fault

/-! # Programs

A program is a list of instructions with a constant pool.  The position of an
instruction in the list is its bytecode offset, and branch targets are
positions.  A `Draft` is a program under construction.
-/

set_option autoImplicit false

namespace BaselineTier.Bytecode

/-- An opcode with its two operand fields.  Opcodes that read fewer operands
ignore the rest. -/
structure Instruction where
  opcode : Opcode
  arg : UInt32 := 0
  arg2 : UInt32 := 0
  deriving DecidableEq

namespace Instruction

/-- The position a branch continues at. -/
def target? (i : Instruction) : Option Nat :=
  if i.opcode.isBranch then some i.arg.toNat else none

/-- The listing form: the mnemonic, with the operand if one is read. -/
def listing (i : Instruction) : String :=
  if i.opcode.arity = 0 then i.opcode.mnemonic
  else i.opcode.mnemonic ++ " " ++ toString i.arg

end Instruction

/-- A named list of instructions and the constants they load. -/
structure Program where
  name : String := "<anonymous>"
  instructions : List Instruction := []
  constants : Array Constant := #[]
  deriving DecidableEq

namespace Program

/-- The program without instructions and constants. -/
def empty : Program := {}

/-- The number of instructions. -/
def size (p : Program) : Nat :=
  p.instructions.length

/-- The instructions with their positions. -/
def numbered (p : Program) : List (Instruction × Nat) :=
  p.instructions.zipIdx

/-- The constant an operand names, if the pool has it. -/
def constant? (p : Program) (index : UInt32) : Option Constant :=
  p.constants[index.toNat]?

/-- The largest number of local variables a program is said to have. -/
def localLimit : Nat := 0xFFFF

/-- The number of local variables: one more than the highest one accessed, and
never more than `localLimit`. -/
def localCount (p : Program) : Nat :=
  let needed := (p.instructions.filter (·.opcode.isLocalAccess)).map (·.arg.toNat + 1)
  min (needed.foldl max 0) localLimit

/-- The positions of branches that do not go forward, in program order. -/
def backEdges (p : Program) : List Nat :=
  p.numbered.filterMap fun (i, position) =>
    match i.target? with
    | some target => if target ≤ position then some position else none
    | none => none

end Program

/-! ## Drafts -/

/-- A program under construction. -/
structure Draft where
  name? : Option String := none
  instructions : Array Instruction := #[]
  constants : Array Constant := #[]

namespace Draft

/-- The position of the next instruction. -/
def position (d : Draft) : Nat :=
  d.instructions.size

/-- Names the program. -/
def named (d : Draft) (name : String) : Draft :=
  { d with name? := some name }

/-- Appends an instruction. -/
def emit (d : Draft) (i : Instruction) : Draft :=
  { d with instructions := d.instructions.push i }

/-- Appends a constant to the pool and an instruction that loads it. -/
def loadConst (d : Draft) (c : Constant) : Draft :=
  let index := UInt32.ofNat d.constants.size
  { d with constants := d.constants.push c }.emit ⟨.loadConst, index, 0⟩

/-- Appends the load of an integer constant. -/
def loadInt (d : Draft) (i : Int64) : Draft :=
  d.loadConst (.int i)

/-- Appends the load of a local variable. -/
def loadLocal (d : Draft) (slot : UInt32) : Draft :=
  d.emit ⟨.loadLocal, slot, 0⟩

/-- Appends a store to a local variable. -/
def storeLocal (d : Draft) (slot : UInt32) : Draft :=
  d.emit ⟨.storeLocal, slot, 0⟩

/-- Appends an instruction without operands. -/
def op (d : Draft) (opcode : Opcode) : Draft :=
  d.emit ⟨opcode, 0, 0⟩

/-- Appends a branch to a position. -/
def jump (d : Draft) (opcode : Opcode) (target : UInt32) : Except Fault Draft :=
  if opcode.isBranch then .ok (d.emit ⟨opcode, target, 0⟩) else .error .notBranch

/-- The finished program. -/
def finish (d : Draft) : Program :=
  let p : Program := { instructions := d.instructions.toList, constants := d.constants }
  match d.name? with
  | some name => { p with name }
  | none => p

end Draft

end BaselineTier.Bytecode
