import BaselineTier.Allocation.Placement
import BaselineTier.Bytecode.Program
import BaselineTier.Event

/-! # Lowering

Each bytecode instruction becomes a short run of machine instructions, and the
code of a program is the prologue, these runs one after the other, and the
epilogue:

```text
  [rbp + 8]           return address
  [rbp]               saved rbp           <- rbp
  [rbp - 8]           first frame slot
  ...
  [rbp - frameSize]                       <- rsp
```

Arithmetic works on the fixed pair of `accumulator` and `operand`; the allocation
only chooses where constants are loaded.  An opcode without a lowering becomes a
`nop`, so every instruction has a size that its opcode alone decides.
-/

set_option autoImplicit false

namespace BaselineTier.Lowering

open Machine (Register Instruction EncodeError assemble)
open Bytecode (Opcode Program)

/-- The register that holds the left operand and receives the result. -/
def accumulator : Register := .rax

/-- The register that holds the right operand. -/
def operand : Register := .rcx

/-- The frame size of a generator that is not told otherwise. -/
def defaultFrameSize : UInt32 := 64

/-! ## Coverage -/

/-- Whether an opcode has a lowering of its own. -/
def isLowered : Opcode → Bool
  | .nop | .loadConst | .add | .sub | .mul | .ret => true
  | _ => false

/-- The instructions of a program that become placeholders. -/
def unlowered (p : Program) : List Unlowered :=
  p.numbered.filterMap fun (i, position) =>
    if isLowered i.opcode then none else some ⟨position, i.opcode⟩

/-! ## Static sizes -/

/-- The size of an opcode's code in bytes. -/
def opcodeSize : Opcode → Nat
  | .loadConst => Machine.immediateFormLength
  | .add | .sub => Machine.registerFormLength
  | .mul => Machine.multiplyLength
  | .ret => 0
  | _ => 1

/-- The size of the prologue in bytes. -/
def prologueSize : Nat := 1 + Machine.registerFormLength + Machine.immediateFormLength

/-- The size of the epilogue in bytes. -/
def epilogueSize : Nat := Machine.registerFormLength + 1 + 1

/-- The size of the code of instructions in bytes. -/
def bodySize (is : List Bytecode.Instruction) : Nat :=
  is.foldr (fun i total => opcodeSize i.opcode + total) 0

/-- The size of a program's code in bytes. -/
def codeSize (p : Program) : Nat :=
  prologueSize + bodySize p.instructions + epilogueSize

/-! ## Machine instructions -/

/-- Saves the caller's frame and reserves one of the given size. -/
def prologue (frameSize : UInt32) : List Instruction :=
  [.push .framePointer,
   .mov .framePointer (.reg .stackPointer),
   .sub .stackPointer (.imm frameSize.toNat)]

/-- Gives up the frame and returns. -/
def epilogue : List Instruction :=
  [.mov .stackPointer (.reg .framePointer), .pop .framePointer, .ret]

/-- The integer view of the constant an operand names, if it has one. -/
def loadedInteger? (p : Program) (index : UInt32) : Option Int64 :=
  (p.constant? index).bind (·.integer?)

/-- The integer a constant load puts into its register: zero stands in for a
constant that is missing or not numeric. -/
def loadedValue (p : Program) (index : UInt32) : Int :=
  ((loadedInteger? p index).getD 0).toInt

/-- The machine instructions of the bytecode instruction at a position. -/
def lower (p : Program) (a : Allocation) (i : Bytecode.Instruction) (position : Nat) :
    List Instruction :=
  match i.opcode with
  | .loadConst =>
    [.mov ((a.register? position).getD accumulator) (.imm (loadedValue p i.arg))]
  | .add => [.add accumulator (.reg operand)]
  | .sub => [.sub accumulator (.reg operand)]
  | .mul => [.imul accumulator operand]
  | .ret => []
  | _ => [.nop]

/-- The report on the bytecode instruction at a position, if only a placeholder stands
for it. -/
def unlowered? (i : Bytecode.Instruction) (position : Nat) : Option Unlowered :=
  match i.opcode with
  | .nop | .loadConst | .add | .sub | .mul | .ret => none
  | opcode => some ⟨position, opcode⟩

/-! ## Code -/

/-- The offset at which each of several consecutive chunks begins. -/
def chunkOffsets (start : Nat) : List (List UInt8) → List Nat
  | [] => []
  | chunk :: rest => start :: chunkOffsets (start + chunk.length) rest

/-- The code of a program.  It fails when the frame size or a loaded constant
does not fit its immediate field; the first in code order decides the error. -/
def generate (frameSize : UInt32) (p : Program) (a : Allocation) :
    Except EncodeError NativeCode := do
  let head ← assemble (prologue frameSize)
  let chunks ← p.numbered.mapM fun (i, position) => assemble (lower p a i position)
  let tail ← assemble epilogue
  return {
    bytes := head ++ chunks.flatten ++ tail
    offsets := chunkOffsets head.length chunks
    frameSize
    unlowered := p.numbered.filterMap fun (i, position) => unlowered? i position }

/-! ## Placeholder loads -/

/-- A constant load that loads zero in place of a constant without an integer
view. -/
structure PlaceholderLoad where
  position : Nat
  index : UInt32
  deriving DecidableEq

/-- The placeholder load of an instruction, if it is one. -/
def placeholderLoad? (p : Program) (i : Bytecode.Instruction) (position : Nat) :
    Option PlaceholderLoad :=
  if i.opcode = .loadConst ∧ (loadedInteger? p i.arg).isNone then some ⟨position, i.arg⟩
  else none

/-- The placeholder loads that generation comes across: all of them when it
succeeds, and those before the failing instruction when it does not. -/
def placeholderLoads (frameSize : UInt32) (p : Program) (a : Allocation) :
    List PlaceholderLoad :=
  if (assemble (prologue frameSize)).isOk then
    let reached := p.numbered.takeWhile fun (i, position) =>
      (assemble (lower p a i position)).isOk
    reached.filterMap fun (i, position) => placeholderLoad? p i position
  else
    []

/-- The code of a program, with a report of the placeholder loads. -/
def generateTraced (frameSize : UInt32) (p : Program) (a : Allocation) :
    Traced (Except EncodeError NativeCode) :=
  { value := generate frameSize p a
    events := (placeholderLoads frameSize p a).map fun load =>
      .placeholderLoaded load.position load.index }

end BaselineTier.Lowering
