import BaselineTier.Fault
import BaselineTier.Machine.Instruction

/-! # Instruction encoding

| Instruction        | Bytes                |
|--------------------|----------------------|
| `mov r64, r64`     | `REX.W 89 /r`        |
| `mov r64, imm32`   | `REX.W C7 /0 id`     |
| `add r64, r64`     | `REX.W 01 /r`        |
| `add r64, imm32`   | `REX.W 81 /0 id`     |
| `sub r64, r64`     | `REX.W 29 /r`        |
| `sub r64, imm32`   | `REX.W 81 /5 id`     |
| `imul r64, r64`    | `REX.W 0F AF /r`     |
| `call rel32`       | `E8 cd`              |
| `push r64`         | `[41] 50+r`          |
| `pop r64`          | `[41] 58+r`          |
| `ret`              | `C3`                 |
| `nop`              | `90`                 |

Moves, additions and subtractions between registers have the source in the `reg`
field and the destination in the `rm` field; multiplication has them the other
way round.  Immediates are signed 32-bit fields, lowest byte first, which the
processor extends to 64 bits.  A value outside that range is refused: it is never
cut down.
-/

set_option autoImplicit false

namespace BaselineTier.Machine

/-- Why an instruction has no encoding. -/
inductive EncodeError where
  /-- The immediate or displacement does not fit a signed 32-bit field. -/
  | immediateOutOfRange (value : Int)
  deriving DecidableEq

namespace EncodeError

/-- The text an encoding error is reported with. -/
def message : EncodeError → String
  | .immediateOutOfRange value =>
    "immediate " ++ toString value ++ " does not fit in a signed 32-bit field"

end EncodeError

/-! ## Immediates -/

/-- A value that fits a signed 32-bit field. -/
structure Immediate where
  value : Int
  fits : -0x80000000 ≤ value ∧ value < 0x80000000

namespace Immediate

/-- The value as an immediate, refused when it does not fit. -/
def ofInt (value : Int) : Except EncodeError Immediate :=
  if fits : -0x80000000 ≤ value ∧ value < 0x80000000 then .ok ⟨value, fits⟩
  else .error (.immediateOutOfRange value)

/-- The four bytes of the two's-complement field, lowest first. -/
def bytes (imm : Immediate) : List UInt8 :=
  let field := (imm.value % 0x100000000).toNat
  [UInt8.ofNat field, UInt8.ofNat (field / 0x100), UInt8.ofNat (field / 0x10000),
    UInt8.ofNat (field / 0x1000000)]

@[simp] theorem length_bytes (imm : Immediate) : imm.bytes.length = 4 := rfl

end Immediate

/-! ## Encoded instructions -/

/-- The most bytes one instruction can have. -/
def maxInstructionLength : Nat := 15

/-- The bytes of one instruction. -/
structure Encoded where
  bytes : List UInt8
  length_le : bytes.length ≤ maxInstructionLength

namespace Encoded

/-- Bytes taken as one instruction. -/
def ofBytes (bytes : List UInt8) : Except Fault Encoded :=
  if h : bytes.length ≤ maxInstructionLength then .ok ⟨bytes, h⟩
  else .error .oversizedInstruction

/-- The number of bytes. -/
def length (e : Encoded) : Nat :=
  e.bytes.length

/-- A byte as two upper-case hexadecimal digits. -/
def byteListing (b : UInt8) : String :=
  let digit (n : Nat) : Char := (Nat.digitChar n).toUpper
  String.ofList [digit (b.toNat / 16), digit (b.toNat % 16)]

/-- The bytes in brackets. -/
def listing (e : Encoded) : String :=
  "EncodedInst[" ++ " ".intercalate (e.bytes.map byteListing) ++ "]"

end Encoded

/-! ## Opcode bytes and fields -/

/-- The extension byte that selects 64-bit operands. -/
def rexWide : UInt8 := 0x48

/-- The extension byte of `push` and `pop` for the upper eight registers. -/
def rexBase : UInt8 := 0x41

/-- The byte of `ret`. -/
def retByte : UInt8 := 0xC3

/-- The byte of `nop`. -/
def nopByte : UInt8 := 0x90

namespace AluOp

/-- The opcode of the form between registers. -/
def registerOpcode : AluOp → UInt8
  | .add => 0x01
  | .sub => 0x29

/-- The number in the `reg` field of the immediate form. -/
def immediateDigit : AluOp → Nat
  | .add => 0
  | .sub => 5

end AluOp

/-- The extension byte for 64-bit operands with the given `reg` and `rm` extension
bits. -/
def rexFor (regBit rmBit : Nat) : UInt8 :=
  rexWide + UInt8.ofNat (4 * regBit + rmBit)

/-- The byte that names two registers, or a digit and a register. -/
def modRM (reg : Nat) (rm : Register) : UInt8 :=
  UInt8.ofNat (0xC0 + 8 * reg + rm.lowBits)

/-- The length of a move, addition or subtraction between registers. -/
def registerFormLength : Nat := 3

/-- The length of a move, addition or subtraction of an immediate. -/
def immediateFormLength : Nat := 7

/-- The length of a multiplication. -/
def multiplyLength : Nat := 4

/-- The length of a call. -/
def callLength : Nat := 5

namespace Instruction

/-- The form between registers: `REX.W opcode /r`. -/
def registerForm (opcode : UInt8) (reg rm : Register) : Encoded :=
  ⟨[rexFor reg.extensionBit rm.extensionBit, opcode, modRM reg.lowBits rm],
    by simp [maxInstructionLength]⟩

/-- The immediate form: `REX.W opcode /digit id`. -/
def immediateForm (opcode : UInt8) (digit : Nat) (rm : Register) (imm : Immediate) : Encoded :=
  ⟨[rexFor 0 rm.extensionBit, opcode, modRM digit rm] ++ imm.bytes,
    by simp [maxInstructionLength]⟩

/-- The form with the register in the opcode byte. -/
def plusForm (opcode : UInt8) (r : Register) : Encoded :=
  let final := opcode + UInt8.ofNat r.lowBits
  if r.isExtended then ⟨[rexBase, final], by simp [maxInstructionLength]⟩
  else ⟨[final], by simp [maxInstructionLength]⟩

/-- The bytes of an instruction. -/
def encode : Instruction → Except EncodeError Encoded
  | .mov dst (.reg src) => .ok (registerForm 0x89 src dst)
  | .mov dst (.imm value) => (Immediate.ofInt value).map (immediateForm 0xC7 0 dst)
  | .alu op dst (.reg src) => .ok (registerForm op.registerOpcode src dst)
  | .alu op dst (.imm value) =>
    (Immediate.ofInt value).map (immediateForm 0x81 op.immediateDigit dst)
  | .imul dst src =>
    .ok ⟨[rexFor dst.extensionBit src.extensionBit, 0x0F, 0xAF, modRM dst.lowBits src],
      by simp [maxInstructionLength]⟩
  | .call displacement =>
    (Immediate.ofInt displacement).map fun imm =>
      ⟨0xE8 :: imm.bytes, by simp [maxInstructionLength]⟩
  | .push r => .ok (plusForm 0x50 r)
  | .pop r => .ok (plusForm 0x58 r)
  | .ret => .ok ⟨[retByte], by simp [maxInstructionLength]⟩
  | .nop => .ok ⟨[nopByte], by simp [maxInstructionLength]⟩

end Instruction

/-- The bytes of a run of instructions, one after the other.  The first
instruction without an encoding decides the error. -/
def assemble (instructions : List Instruction) : Except EncodeError (List UInt8) := do
  let encoded ← instructions.mapM Instruction.encode
  return encoded.flatMap Encoded.bytes

end BaselineTier.Machine
