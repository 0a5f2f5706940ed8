import BaselineTier.Machine.Encoding

/-! # Code buffers

A growing run of machine code.  The offset of the next instruction is the number
of bytes so far, and an instruction that has no encoding leaves the buffer as it
was.
-/

set_option autoImplicit false

namespace BaselineTier.Machine

/-- Machine code under construction. -/
structure CodeBuffer where
  code : Array UInt8 := #[]

namespace CodeBuffer

/-- The buffer without code. -/
def empty : CodeBuffer := {}

/-- The bytes so far. -/
def bytes (b : CodeBuffer) : List UInt8 :=
  b.code.toList

/-- The offset of the next instruction. -/
def offset (b : CodeBuffer) : Nat :=
  b.code.size

/-- The buffer with one more encoded instruction. -/
def append (b : CodeBuffer) (e : Encoded) : CodeBuffer :=
  ⟨b.code ++ e.bytes⟩

/-- The buffer with one more instruction. -/
def emit (b : CodeBuffer) (i : Instruction) : Except EncodeError CodeBuffer :=
  i.encode.map b.append

/-- The displacement, from the end of a call placed next, of an offset in the
buffer. -/
def displacementTo (b : CodeBuffer) (target : Nat) : Int :=
  (target : Int) - ((b.offset + callLength : Nat) : Int)

/-- The buffer with a call to the code at an offset. -/
def emitCall (b : CodeBuffer) (target : Nat) : Except EncodeError CodeBuffer :=
  b.emit (.call (b.displacementTo target))

@[simp] theorem bytes_empty : empty.bytes = [] := rfl

@[simp] theorem bytes_append (b : CodeBuffer) (e : Encoded) :
    (b.append e).bytes = b.bytes ++ e.bytes := by
  simp [bytes, append]

theorem offset_eq_length (b : CodeBuffer) : b.offset = b.bytes.length := by
  simp [bytes, offset]

end CodeBuffer

end BaselineTier.Machine
