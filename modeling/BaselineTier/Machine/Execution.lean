import BaselineTier.Machine.Decoding

/-! # Execution of machine code

A processor with sixteen 64-bit registers and a memory of bytes, as far as the
instructions of generated code reach.  Arithmetic is modulo 2^64 and the stack
grows downward.  Code is executed from its bytes: at each offset the next
instruction is decoded and carried out, until a return hands control to an address
taken from the stack.
-/

set_option autoImplicit false

namespace BaselineTier.Machine

/-- A 64-bit word: the content of a register, or an address. -/
abbrev Word := BitVec 64

/-! ## Memory -/

/-- A byte at every address. -/
abbrev Memory := Word → UInt8

namespace Memory

/-- The eight bytes from an address on, lowest first, as a word. -/
def readWord (m : Memory) (address : Word) : Word :=
  BitVec.ofNat 64
    ((List.range 8).foldr (fun k high => (m (address + BitVec.ofNat 64 k)).toNat + 256 * high) 0)

/-- The memory with a word stored from an address on. -/
def writeWord (m : Memory) (address value : Word) : Memory := fun place =>
  let k := (place - address).toNat
  if k < 8 then UInt8.ofNat (value.toNat >>> (8 * k)) else m place

end Memory

/-! ## Registers and memory together -/

/-- The state of the processor apart from the place in the code. -/
structure State where
  registers : Register → Word
  memory : Memory

namespace State

/-- The state with a new content of one register. -/
def set (s : State) (r : Register) (value : Word) : State :=
  { s with registers := fun q => if q = r then value else s.registers q }

/-- The value of a source operand.  Immediates are extended with their sign. -/
def operand (s : State) : Operand → Word
  | .reg r => s.registers r
  | .imm value => BitVec.ofInt 64 value

/-- Puts a word on the stack. -/
def push (s : State) (value : Word) : State :=
  let top := s.registers .stackPointer - 8
  { s.set .stackPointer top with memory := s.memory.writeWord top value }

/-- The word on top of the stack. -/
def top (s : State) : Word :=
  s.memory.readWord (s.registers .stackPointer)

/-- Takes the top word off the stack. -/
def drop (s : State) : State :=
  s.set .stackPointer (s.registers .stackPointer + 8)

end State

namespace AluOp

/-- The result of an operation on destination and source. -/
def apply : AluOp → Word → Word → Word
  | .add, x, y => x + y
  | .sub, x, y => x - y

end AluOp

/-! ## Steps -/

/-- What one instruction leads to. -/
inductive Effect where
  /-- Execution goes on behind the instruction. -/
  | next (s : State)
  /-- Control goes to an address outside the code. -/
  | returned (address : Word) (s : State)

/-- The effect of an instruction.  A call leaves the code at hand and has none
here. -/
def Instruction.effect? (s : State) : Instruction → Option Effect
  | .mov dst src => some (.next (s.set dst (s.operand src)))
  | .alu op dst src => some (.next (s.set dst (op.apply (s.registers dst) (s.operand src))))
  | .imul dst src => some (.next (s.set dst (s.registers dst * s.registers src)))
  | .push r => some (.next (s.push (s.registers r)))
  | .pop r => some (.next (s.drop.set r s.top))
  | .ret => some (.returned s.top s.drop)
  | .nop => some (.next s)
  | .call _ => none

/-- Where a run ended. -/
structure Exit where
  /-- The address that control went to. -/
  address : Word
  /-- The state when it did. -/
  state : State

/-- Executes at most `fuel` instructions of the code, from an offset on.  There is no
exit when bytes do not decode, or when the return is not reached. -/
def runWithin (code : List UInt8) : Nat → Nat → State → Option Exit
  | 0, _, _ => none
  | fuel + 1, offset, s =>
    match decode? (code.drop offset) with
    | none => none
    | some (i, rest) =>
      match i.effect? s with
      | none => none
      | some (.returned address t) => some ⟨address, t⟩
      | some (.next t) => runWithin code fuel (code.length - rest.length) t

/-- Executes code from an offset on.  Without branches execution only moves
forward, so it takes at most as many instructions as there are bytes. -/
def run (code : List UInt8) (offset : Nat) (s : State) : Option Exit :=
  runWithin code code.length offset s

/-! ## Elementary facts -/

namespace State

@[simp] theorem registers_set_self (s : State) (r : Register) (value : Word) :
    (s.set r value).registers r = value := by
  simp [set]

theorem registers_set_of_ne (s : State) {q r : Register} (h : q ≠ r) (value : Word) :
    (s.set r value).registers q = s.registers q := by
  simp [set, h]

@[simp] theorem memory_set (s : State) (r : Register) (value : Word) :
    (s.set r value).memory = s.memory := rfl

end State

namespace Memory

/-- A byte outside the eight that are stored keeps its value. -/
theorem writeWord_of_le (m : Memory) (address value : Word) {place : Word}
    (h : 8 ≤ (place - address).toNat) : m.writeWord address value place = m place :=
  if_neg (Nat.not_lt.mpr h)

/-- The byte at distance `k` of a stored word. -/
theorem writeWord_add (m : Memory) (address value : Word) {k : Nat} (h : k < 8) :
    m.writeWord address value (address + BitVec.ofNat 64 k) =
      UInt8.ofNat (value.toNat >>> (8 * k)) := by
  have distance : (address + BitVec.ofNat 64 k - address).toNat = k := by
    rw [BitVec.add_comm, BitVec.add_sub_cancel, BitVec.toNat_ofNat]
    omega
  simp only [writeWord, distance, if_pos h]

/-- A stored word is read back. -/
@[simp] theorem readWord_writeWord (m : Memory) (address value : Word) :
    (m.writeWord address value).readWord address = value := by
  have byte (k : Nat) (h : k < 8) :
      (m.writeWord address value (address + BitVec.ofNat 64 k)).toNat =
        value.toNat >>> (8 * k) % 256 := by
    rw [writeWord_add m address value h, UInt8.toNat_ofNat']
  have bound := value.isLt
  apply BitVec.eq_of_toNat_eq
  simp only [readWord, List.range, List.range.loop, List.foldr, BitVec.toNat_ofNat,
    byte 0 (by decide), byte 1 (by decide), byte 2 (by decide), byte 3 (by decide),
    byte 4 (by decide), byte 5 (by decide), byte 6 (by decide), byte 7 (by decide)]
  omega

end Memory

end BaselineTier.Machine
