/-! # General-purpose registers

The sixteen 64-bit registers of an x86-64 processor, with the numbers that
machine code knows them by.
-/

set_option autoImplicit false

namespace BaselineTier.Machine

/-- A 64-bit general-purpose register. -/
inductive Register where
  | rax | rcx | rdx | rbx | rsp | rbp | rsi | rdi
  | r8 | r9 | r10 | r11 | r12 | r13 | r14 | r15
  deriving DecidableEq

namespace Register

/-- Every register, in the order of their numbers. -/
def all : List Register :=
  [rax, rcx, rdx, rbx, rsp, rbp, rsi, rdi, r8, r9, r10, r11, r12, r13, r14, r15]

/-- The number of a register in machine code. -/
def number : Register → Nat
  | rax => 0
  | rcx => 1
  | rdx => 2
  | rbx => 3
  | rsp => 4
  | rbp => 5
  | rsi => 6
  | rdi => 7
  | r8 => 8
  | r9 => 9
  | r10 => 10
  | r11 => 11
  | r12 => 12
  | r13 => 13
  | r14 => 14
  | r15 => 15

/-- The register with a given number, if there is one. -/
def ofNumber? (n : Nat) : Option Register :=
  all[n]?

@[simp] theorem ofNumber?_number (r : Register) : ofNumber? r.number = some r := by
  cases r <;> rfl

theorem number_lt (r : Register) : r.number < 16 := by
  cases r <;> decide

theorem number_injective {r s : Register} (h : r.number = s.number) : r = s := by
  have : ofNumber? r.number = ofNumber? s.number := by rw [h]
  simpa using this

theorem mem_all (r : Register) : r ∈ all := by
  cases r <;> decide

theorem nodup_all : all.Nodup := by
  decide

/-- The assembly name. -/
def name : Register → String
  | rax => "rax"
  | rcx => "rcx"
  | rdx => "rdx"
  | rbx => "rbx"
  | rsp => "rsp"
  | rbp => "rbp"
  | rsi => "rsi"
  | rdi => "rdi"
  | r8 => "r8"
  | r9 => "r9"
  | r10 => "r10"
  | r11 => "r11"
  | r12 => "r12"
  | r13 => "r13"
  | r14 => "r14"
  | r15 => "r15"

/-- The stack pointer. -/
def stackPointer : Register := rsp

/-- The frame pointer. -/
def framePointer : Register := rbp

/-- Whether the register holds the frame and is never handed out. -/
def isReserved (r : Register) : Bool :=
  r = stackPointer || r = framePointer

/-- The low three bits of the number, which fill the register fields of an
instruction. -/
def lowBits (r : Register) : Nat :=
  r.number % 8

/-- The fourth bit of the number, which goes into an extension bit. -/
def extensionBit (r : Register) : Nat :=
  r.number / 8

/-- Whether the register needs an extension bit. -/
def isExtended (r : Register) : Bool :=
  8 ≤ r.number

end Register

end BaselineTier.Machine
