import BaselineTier.Bytecode.Opcode
import BaselineTier.Machine.Encoding
import BaselineTier.Text.Record

/-! # Native code

The machine code of one function with the tables that describe it.  It is plain
data: two compilations of a program give equal code.  Where it matters which
compilation a piece of code came from, it is a `CodeObject`, and a stamp tells
equal code apart.
-/

set_option autoImplicit false

namespace BaselineTier

/-- An instruction that code generation has no lowering for. -/
structure Unlowered where
  position : Nat
  opcode : Bytecode.Opcode
  deriving DecidableEq

/-- Metadata for leaving compiled code, encoded by the tier that needs it. -/
structure ExitMetadata where
  bytes : List UInt8
  deriving DecidableEq

namespace ExitMetadata

/-- The listing shows only the size. -/
def listing (m : ExitMetadata) : String :=
  "DeoptMetadata(" ++ toString m.bytes.length ++ " bytes)"

end ExitMetadata

/-- The machine code of a function. -/
structure NativeCode where
  bytes : List UInt8
  /-- For each bytecode position, the offset where its code begins. -/
  offsets : List Nat
  /-- The bytes reserved below the frame pointer. -/
  frameSize : UInt32
  /-- The instructions that only a placeholder stands for. -/
  unlowered : List Unlowered
  deriving DecidableEq

namespace NativeCode

/-- The number of bytes. -/
def size (c : NativeCode) : Nat :=
  c.bytes.length

/-- Execution enters at the first byte. -/
def entryPoint (_ : NativeCode) : Nat := 0

/-- Baseline code never leaves early, so it has no exit metadata. -/
def exitMetadata? (_ : NativeCode) : Option ExitMetadata := none

/-- Baseline code has no sites to patch. -/
def patchSites (_ : NativeCode) : List Nat := []

/-- The offset where the code of a bytecode position begins. -/
def offset? (c : NativeCode) (position : Nat) : Option Nat :=
  c.offsets[position]?

/-- Whether an offset lies inside the code. -/
def containsOffset (c : NativeCode) (offset : Nat) : Bool :=
  offset < c.size

/-- Whether every instruction has a lowering. -/
def isFullyLowered (c : NativeCode) : Bool :=
  c.unlowered.isEmpty

/-- The listing gives sizes only. -/
def listing (c : NativeCode) : String :=
  Text.record "CompiledCode"
    [("size", toString c.size),
     ("entry_point", toString c.entryPoint),
     ("frame_size", toString c.frameSize),
     ("instructions", toString c.offsets.length),
     ("unlowered", toString c.unlowered.length)]

end NativeCode

/-- Native code as an object of its own.  Objects with different stamps are
different, whatever their code. -/
structure CodeObject where
  stamp : Nat
  code : NativeCode
  deriving DecidableEq

namespace CodeObject

/-- The size of the object's code in bytes. -/
def size (o : CodeObject) : Nat :=
  o.code.size

end CodeObject

end BaselineTier
