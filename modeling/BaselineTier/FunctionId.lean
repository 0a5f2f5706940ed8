/-! # Function identities

Compiled code is kept per function, and a function is known by a 64-bit number.
A `Supply` issues fresh numbers.
-/

set_option autoImplicit false

namespace BaselineTier

/-- The identity of a function. -/
structure FunctionId where
  raw : UInt64
  deriving DecidableEq

namespace FunctionId

/-- The form used in logs. -/
def text (id : FunctionId) : String :=
  "fn#" ++ toString id.raw

/-- A source of identities; `next` is the one issued next. -/
structure Supply where
  next : FunctionId := ⟨1⟩

/-- Issues an identity.  After the largest one the supply starts over at zero. -/
def Supply.issue (s : Supply) : FunctionId × Supply :=
  (s.next, ⟨⟨s.next.raw + 1⟩⟩)

end FunctionId

end BaselineTier
