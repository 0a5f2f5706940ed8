import BaselineTier.Bytecode.Constant
import BaselineTier.Decimal
import BaselineTier.Text.Quoted

/-! # Interpreter values

The values an interpreter computes with, and the `Snapshot` of a frame that it
hands over when a loop gets hot.
-/

set_option autoImplicit false

namespace BaselineTier

/-- An interpreter value. -/
inductive Value where
  | none
  | bool (b : Bool)
  | int (i : Int64)
  | float (x : Binary64)
  | str (s : String)
  | list (items : List Value)
  deriving Inhabited

namespace Value

/-- The value of a constant. -/
def ofConstant : Bytecode.Constant → Value
  | .none => .none
  | .bool b => .bool b
  | .int i => .int i
  | .float x => .float x
  | .str s => .str s

/-- The machine word a value is held in.  Texts and lists live outside a word. -/
def word? : Value → Option Int64
  | .none => some 0
  | .bool b => some (if b then 1 else 0)
  | .int i => some i
  | .float x => some x.bits.toInt64
  | .str _ | .list _ => Option.none

/-- Whether a condition holds: nothing, zero and the empty text and list are
falsy. -/
def isTruthy : Value → Bool
  | .none => false
  | .bool b => b
  | .int i => i != 0
  | .float x => !x.numericEq Binary64.zero
  | .str s => !s.isEmpty
  | .list items => !items.isEmpty

mutual

/-- Equality of values: the same kind and equal contents, doubles by their
numeric value. -/
def equal : Value → Value → Bool
  | .none, .none => true
  | .bool a, .bool b => a == b
  | .int a, .int b => a == b
  | .float a, .float b => a.numericEq b
  | .str a, .str b => a == b
  | .list a, .list b => equalItems a b
  | _, _ => false

/-- Equality of lists, item by item. -/
def equalItems : List Value → List Value → Bool
  | [], [] => true
  | a :: as, b :: bs => equal a b && equalItems as bs
  | _, _ => false

end

mutual

/-- The text of a value.  Texts are quoted, so that a list shows where its items
end. -/
def text : Value → String
  | .none => "None"
  | .bool b => if b then "true" else "false"
  | .int i => toString i.toInt
  | .float x => x.text
  | .str s => Text.quote s
  | .list [] => "[]"
  | .list (v :: vs) => "[" ++ text v ++ textRest vs ++ "]"

/-- The texts of the items after the first, each behind a separator. -/
def textRest : List Value → String
  | [] => ""
  | v :: vs => ", " ++ text v ++ textRest vs

end

end Value

/-- A captured interpreter frame: the operand stack, bottom first, and the local
variables. -/
structure Snapshot where
  stack : List Value := []
  locals : List Value := []

namespace Snapshot

/-- How many values were captured. -/
def size (s : Snapshot) : Nat :=
  s.stack.length + s.locals.length

/-- Whether nothing was captured. -/
def isEmpty (s : Snapshot) : Bool :=
  s.stack.isEmpty && s.locals.isEmpty

/-- Equality of snapshots, value by value. -/
def equal (s t : Snapshot) : Bool :=
  Value.equalItems s.stack t.stack && Value.equalItems s.locals t.locals

end Snapshot

end BaselineTier
