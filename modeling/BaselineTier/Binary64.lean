/-! # Binary64 floating-point values

A double is its 64-bit pattern: a sign bit, eleven exponent bits and fifty-two
fraction bits.  All questions about it are answered by exact integer arithmetic
on these fields.  A finite double is the rational number `scaled / 2 ^ 1074`.
Results that need not be doubles are rounded to the nearest one, ties to even.
-/

set_option autoImplicit false

namespace BaselineTier

/-- A double, as its bit pattern.  Not-a-number payloads and the sign of zero
are kept. -/
structure Binary64 where
  bits : UInt64
  deriving DecidableEq

namespace Binary64

/-! ## Fields -/

/-- The bit pattern as a number. -/
def word (x : Binary64) : Nat :=
  x.bits.toNat

/-- Whether the sign bit is set. -/
def isNegative (x : Binary64) : Bool :=
  0x8000000000000000 ≤ x.word

/-- The eleven exponent bits. -/
def exponentField (x : Binary64) : Nat :=
  x.word / 0x10000000000000 % 0x800

/-- The fifty-two fraction bits. -/
def fractionField (x : Binary64) : Nat :=
  x.word % 0x10000000000000

/-- The exponent field that marks infinities and not-a-number. -/
def specialExponent : Nat := 0x7FF

/-- Whether the pattern stands for a number. -/
def isFinite (x : Binary64) : Bool :=
  x.exponentField ≠ specialExponent

/-- Whether the pattern is not-a-number. -/
def isNaN (x : Binary64) : Bool :=
  x.exponentField = specialExponent ∧ x.fractionField ≠ 0

/-- Whether the pattern is one of the two zeros. -/
def isZero (x : Binary64) : Bool :=
  x.exponentField = 0 ∧ x.fractionField = 0

/-! ## The exact value of a finite double -/

/-- The significand: the fraction with its leading one, which subnormal patterns
(exponent field zero) lack. -/
def significand (x : Binary64) : Nat :=
  if x.exponentField = 0 then x.fractionField else 0x10000000000000 + x.fractionField

/-- The exponent of the significand's unit, counted from the smallest unit
`2 ^ (-1074)`.  Subnormal patterns share the smallest unit with the first normal
ones. -/
def unitExponent (x : Binary64) : Nat :=
  x.exponentField - 1

/-- The value in smallest units, without its sign. -/
def magnitude (x : Binary64) : Nat :=
  x.significand <<< x.unitExponent

/-- The value in smallest units: a finite double is `scaled / unitsPerOne`. -/
def scaled (x : Binary64) : Int :=
  if x.isNegative then -(x.magnitude : Int) else x.magnitude

/-- How many smallest units make one. -/
def unitsPerOne : Nat := 1 <<< 1074

/-! ## Comparison -/

/-- Numeric equality: not-a-number differs from everything, itself included, and
the two zeros are equal. -/
def numericEq (x y : Binary64) : Bool :=
  !x.isNaN && !y.isNaN && (x.bits == y.bits || (x.isZero && y.isZero))

/-- The place of a pattern in the numeric order.  Patterns with a clear sign bit come in
the order of their words, the others in the reverse one, and the two zeros share a
place. -/
def orderKey (x : Binary64) : Int :=
  if x.isNegative then 0x8000000000000000 - (x.word : Int) else x.word

/-- Numeric order: not-a-number is not comparable. -/
def numericLt (x y : Binary64) : Bool :=
  !x.isNaN && !y.isNaN && x.orderKey < y.orderKey

/-- Numeric order, equality included. -/
def numericLe (x y : Binary64) : Bool :=
  !x.isNaN && !y.isNaN && x.orderKey ≤ y.orderKey

/-- The double with value zero and a clear sign bit. -/
def zero : Binary64 := ⟨0⟩

/-- A quiet not-a-number. -/
def quietNaN : Binary64 := ⟨0x7FF8000000000000⟩

/-! ## Rounding -/

/-- A number without its lowest bits, rounded to the nearest and to the even one of two
equally near. -/
def dropBits (n count : Nat) : Nat :=
  let kept := n >>> count
  let remainder := n % (1 <<< count)
  if 2 * remainder < 1 <<< count ∨ 2 * remainder = 1 <<< count ∧ kept % 2 = 0 then kept
  else kept + 1

/-- The word of positive infinity. -/
def infinityWord : Nat := 0x7FF0000000000000

/-- The word of the nearest double to a number of smallest units.  Fifty-three bits are
kept and the exponent field counts the others.  The leading one of the significand
carries into the exponent field, and so does a significand that is rounded up to the
next power of two. -/
def nearestWord (units : Nat) : Nat :=
  let dropped := units.log2 - 52
  min (dropped * 0x10000000000000 + dropBits units dropped) infinityWord

/-- The nearest double to a signed number of smallest units. -/
def ofScaled (n : Int) : Binary64 :=
  ⟨UInt64.ofNat ((if n < 0 then 0x8000000000000000 else 0) + nearestWord n.natAbs)⟩

/-! ## Integers and fractional parts -/

/-- The nearest double to an integer. -/
def ofInt64 (i : Int64) : Binary64 :=
  ofScaled (i.toInt * unitsPerOne)

/-- What is left of a double without its integral part, with the sign of the double.
Infinities have no fractional part. -/
def fract (x : Binary64) : Binary64 :=
  if x.isFinite then ofScaled (x.scaled.tmod unitsPerOne) else quietNaN

/-- The nearest integer of the signed 64-bit range. -/
def saturated (n : Int) : Int64 :=
  if n < Int64.minValue.toInt then Int64.minValue
  else if Int64.maxValue.toInt < n then Int64.maxValue
  else Int64.ofInt n

/-- Conversion to an integer: the fractional part is cut off, what lies outside the range
goes to its nearer end, and not-a-number goes to zero. -/
def toInt64 (x : Binary64) : Int64 :=
  if x.isNaN then 0
  else if x.isFinite then saturated (x.scaled.tdiv unitsPerOne)
  else if x.isNegative then Int64.minValue
  else Int64.maxValue

end Binary64

end BaselineTier
