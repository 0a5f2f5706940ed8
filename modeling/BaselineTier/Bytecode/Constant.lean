import BaselineTier.Binary64

/-! # Constants

The entries of a program's constant pool, and the integer that a constant stands
for when generated code loads it.
-/

set_option autoImplicit false

namespace BaselineTier.Bytecode

/-- An entry of the constant pool. -/
inductive Constant where
  | none
  | bool (b : Bool)
  | int (i : Int64)
  | float (x : Binary64)
  | str (s : String)
  deriving DecidableEq

namespace Constant

/-- The integer view: integers as they are, truth values as zero and one, and a
double when it is exactly an integer of the signed 64-bit range.  Everything else
is not numeric. -/
def integer? : Constant → Option Int64
  | .int i => some i
  | .bool b => some (if b then 1 else 0)
  | .float x =>
    -- the largest integer is no double: it rounds up to the first one behind the range
    if x.fract.numericEq .zero && (Binary64.ofInt64 .minValue).numericLe x &&
        x.numericLt (.ofInt64 .maxValue) then
      some x.toInt64
    else
      Option.none
  | .none | .str _ => Option.none

/-- Whether the constant has an integer view. -/
def isNumeric (c : Constant) : Bool :=
  c.integer?.isSome

end Constant

end BaselineTier.Bytecode
