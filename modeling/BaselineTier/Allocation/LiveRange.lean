import BaselineTier.Fault

/-! # Live ranges

A value is named by the position of the instruction that defines it, and its
live range runs from there to its last use.  A value whose last use is the
instruction that defines another value may share a register with it, so for
interference a range is half open; a value that is never used still needs a
register at its definition.
-/

set_option autoImplicit false

namespace BaselineTier

/-- The positions over which a value is live. -/
structure LiveRange where
  /-- The value, named by its defining position. -/
  value : Nat
  /-- Where the range starts. -/
  start : Nat
  /-- The last use, or `start` when there is none. -/
  lastUse : Nat
  deriving DecidableEq

namespace LiveRange

/-- The largest position: positions are 32-bit words. -/
def positionLimit : Nat := 0xFFFFFFFF

/-- A range with given bounds. -/
def ofBounds (value start lastUse : Nat) : Except Fault LiveRange :=
  if start ≤ lastUse then .ok ⟨value, start, lastUse⟩ else .error .reversedRange

/-- The range of a value that has not been used yet. -/
def definedAt (position : Nat) : LiveRange :=
  ⟨position, position, position⟩

/-- The range with one more use. -/
def usedAt (r : LiveRange) (position : Nat) : LiveRange :=
  { r with lastUse := max r.lastUse position }

/-- The first position at which the range no longer needs its register.  It is
past the start, except at the last position there is. -/
def effectiveEnd (r : LiveRange) : Nat :=
  max r.lastUse (min (r.start + 1) positionLimit)

/-- Whether two ranges need different registers. -/
def overlaps (r s : LiveRange) : Bool :=
  r.start < s.effectiveEnd && s.start < r.effectiveEnd

theorem overlaps_comm (r s : LiveRange) : r.overlaps s = s.overlaps r := by
  simp [overlaps, Bool.and_comm]

/-- The name of a value in listings. -/
def valueName (value : Nat) : String :=
  "v" ++ toString value

end LiveRange

end BaselineTier
