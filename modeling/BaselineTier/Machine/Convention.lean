import BaselineTier.Machine.RegisterSet

/-! # The calling convention

How functions pass integers in registers, and which registers a callee has to
preserve.
-/

set_option autoImplicit false

namespace BaselineTier.Machine

namespace RegisterSet

/-- The set without the two registers that hold the frame. -/
def unreserved (s : RegisterSet) : RegisterSet :=
  (s.erase .stackPointer).erase .framePointer

/-- The registers values may be kept in: all but the two that hold the frame. -/
def allocatable : RegisterSet :=
  full.unreserved

end RegisterSet

namespace Convention

open Register

/-- The registers that carry integer arguments, in order. -/
def arguments : List Register := [rdi, rsi, rdx, rcx, r8, r9]

/-- The register that carries the argument with an index, if it is passed in
one. -/
def argument? (index : Nat) : Option Register :=
  arguments[index]?

/-- The register that carries the result. -/
def result : Register := rax

/-- The registers a callee may overwrite. -/
def callerSaved : RegisterSet :=
  .ofList [rax, rcx, rdx, rsi, rdi, r8, r9, r10, r11]

/-- The registers a callee has to preserve. -/
def calleeSaved : RegisterSet :=
  .ofList [rbx, rsp, rbp, r12, r13, r14, r15]

/-- The alignment of the stack at a call, in bytes. -/
def stackAlignment : Nat := 16

end Convention

end BaselineTier.Machine
