import BaselineTier.Machine.Encoding

/-! # Instruction decoding

Reads machine code back into instructions.  The reader is written from the table of
encodings: it looks at the first byte, then at the fields that this byte
announces.  It takes one instruction off the front and returns the rest, so that
what it says about an instruction does not depend on what follows it.
-/

set_option autoImplicit false

namespace BaselineTier.Machine

/-! ## Fields -/

/-- Reads a signed 32-bit field, lowest byte first. -/
def readImmediate? : List UInt8 → Option (Int × List UInt8)
  | b₀ :: b₁ :: b₂ :: b₃ :: rest =>
    let field : Nat := b₀.toNat + 0x100 * b₁.toNat + 0x10000 * b₂.toNat + 0x1000000 * b₃.toNat
    some ((field : Int).bmod 0x100000000, rest)
  | _ => none

/-- The two fields of a byte that names registers.  The two high bits say that both
operands are registers; memory operands are not in the subset. -/
def modRMFields? (m : UInt8) : Option (Nat × Nat) :=
  if m.toNat / 64 = 3 then some (m.toNat / 8 % 8, m.toNat % 8) else none

/-- Reads two registers, first the one in the `reg` field. -/
def readRegisters? (regBit rmBit : Nat) : List UInt8 → Option (Register × Register × List UInt8)
  | [] => none
  | m :: rest => do
    let (reg, rm) ← modRMFields? m
    let first ← Register.ofNumber? (8 * regBit + reg)
    let second ← Register.ofNumber? (8 * rmBit + rm)
    return (first, second, rest)

/-- Reads a digit, a register and an immediate. -/
def readDigitForm? (rmBit : Nat) : List UInt8 → Option (Nat × Register × Int × List UInt8)
  | [] => none
  | m :: rest => do
    let (digit, rm) ← modRMFields? m
    let r ← Register.ofNumber? (8 * rmBit + rm)
    let (value, rest) ← readImmediate? rest
    return (digit, r, value, rest)

/-! ## Instructions -/

/-- Reads what follows the extension byte for 64-bit operands. -/
def decodeWide? (regBit rmBit : Nat) : List UInt8 → Option (Instruction × List UInt8)
  | [] => none
  | opcode :: rest =>
    if opcode = 0x89 then do
      let (src, dst, rest) ← readRegisters? regBit rmBit rest
      return (.mov dst (.reg src), rest)
    else if opcode = 0x01 then do
      let (src, dst, rest) ← readRegisters? regBit rmBit rest
      return (.alu .add dst (.reg src), rest)
    else if opcode = 0x29 then do
      let (src, dst, rest) ← readRegisters? regBit rmBit rest
      return (.alu .sub dst (.reg src), rest)
    else if opcode = 0x0F then
      match rest with
      | [] => none
      | second :: rest =>
        if second = 0xAF then do
          let (dst, src, rest) ← readRegisters? regBit rmBit rest
          return (.imul dst src, rest)
        else none
    else if regBit = 0 ∧ (opcode = 0xC7 ∨ opcode = 0x81) then do
      let (digit, dst, value, rest) ← readDigitForm? rmBit rest
      if opcode = 0xC7 then
        if digit = 0 then return (.mov dst (.imm value), rest) else none
      else if digit = 0 then return (.alu .add dst (.imm value), rest)
      else if digit = 5 then return (.alu .sub dst (.imm value), rest)
      else none
    else none

/-- The instruction whose register is in the opcode byte. -/
def decodePlus? (extension : Nat) (opcode : UInt8) : Option Instruction :=
  if 0x50 ≤ opcode.toNat ∧ opcode.toNat < 0x58 then
    (Register.ofNumber? (8 * extension + (opcode.toNat - 0x50))).map .push
  else if 0x58 ≤ opcode.toNat ∧ opcode.toNat < 0x60 then
    (Register.ofNumber? (8 * extension + (opcode.toNat - 0x58))).map .pop
  else none

/-- Takes one instruction off the front of machine code. -/
def decode? : List UInt8 → Option (Instruction × List UInt8)
  | [] => none
  | first :: rest =>
    if first = 0xC3 then some (.ret, rest)
    else if first = 0x90 then some (.nop, rest)
    else if first = 0xE8 then do
      let (displacement, rest) ← readImmediate? rest
      return (.call displacement, rest)
    else if first = 0x48 then decodeWide? 0 0 rest
    else if first = 0x49 then decodeWide? 0 1 rest
    else if first = 0x4C then decodeWide? 1 0 rest
    else if first = 0x4D then decodeWide? 1 1 rest
    else if first = 0x41 then
      match rest with
      | [] => none
      | opcode :: rest => (decodePlus? 1 opcode).map (·, rest)
    else (decodePlus? 0 first).map (·, rest)

/-- Reads at most `fuel` instructions, which have to use up the code. -/
def decodeWithin : Nat → List UInt8 → Option (List Instruction)
  | _, [] => some []
  | 0, _ :: _ => none
  | fuel + 1, bytes => do
    let (i, rest) ← decode? bytes
    let following ← decodeWithin fuel rest
    return i :: following

/-- The instructions that machine code consists of, if it does so without a rest.
Each has at least one byte, so there are at most as many as bytes. -/
def decodeAll? (code : List UInt8) : Option (List Instruction) :=
  decodeWithin code.length code

end BaselineTier.Machine
