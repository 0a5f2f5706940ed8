/-! # Faults: broken preconditions

Some operations are only defined for arguments that meet a stated condition: a
live range may not end before it starts, only a branch takes a jump target, and
64-bit arithmetic on counters may not leave its range.  A caller that breaks
such a condition gets a `Fault`, which is kept apart from the errors of a
well-formed request.
-/

set_option autoImplicit false

namespace BaselineTier

/-- The arithmetic step whose exact result left the 64-bit range. -/
inductive ArithmeticStep where
  | add
  | multiply
  | negate
  deriving DecidableEq

namespace ArithmeticStep

/-- The verb that names the step in a message. -/
def verb : ArithmeticStep → String
  | .add => "add"
  | .multiply => "multiply"
  | .negate => "negate"

end ArithmeticStep

/-- A precondition that the caller did not meet. -/
inductive Fault where
  /-- A live range would end before it starts. -/
  | reversedRange
  /-- More bytes than one machine instruction can hold. -/
  | oversizedInstruction
  /-- A jump target was given to an opcode that is not a branch. -/
  | notBranch
  /-- An exact result does not fit its 64-bit field. -/
  | overflow (step : ArithmeticStep)
  deriving DecidableEq

namespace Fault

/-- The text a fault is reported with. -/
def message : Fault → String
  | .reversedRange => "assertion failed: start <= end"
  | .oversizedInstruction => "assertion failed: bytes.len() <= MAX_INST_LEN"
  | .notBranch => "assertion failed: opcode.is_branch()"
  | .overflow step => "attempt to " ++ step.verb ++ " with overflow"

end Fault

/-! ## Checked counters -/

/-- Counters are unsigned 64-bit words: every count is below this bound. -/
def counterBound : Nat := 0x10000000000000000

/-- The sum of two counters, refused when it is not a counter itself. -/
def checkedSum (a b : Nat) : Except Fault Nat :=
  if a + b < counterBound then .ok (a + b) else .error (.overflow .add)

/-- The successor of a counter, which stays at the largest counter once there. -/
def saturatingSucc (n : Nat) : Nat :=
  min (n + 1) (counterBound - 1)

theorem saturatingSucc_of_lt {n : Nat} (h : n + 1 < counterBound) :
    saturatingSucc n = n + 1 := by
  unfold saturatingSucc
  omega

end BaselineTier
