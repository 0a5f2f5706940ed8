import BaselineTier.Allocation.LiveRange
import BaselineTier.Bytecode.Program

/-! # Liveness

Live ranges are found by walking the instructions in program order with a stack
of the values an execution would have on its operand stack.  What an instruction
pops is used there, and what it pushes is defined there.  Copying uses the top
value, leaves it in place and defines the copy above it.

Control flow is not followed: ranges are about program order.  A pop from the
empty stack is counted and otherwise ignored.
-/

set_option autoImplicit false

namespace BaselineTier

open Bytecode (Opcode Program)

namespace Liveness

/-- The state of the walk. -/
structure Walk where
  /-- The ranges of the values defined so far, in order of definition. -/
  ranges : Array LiveRange := #[]
  /-- The values on the stack, top first, as indices into `ranges`. -/
  stack : List Nat := []
  /-- Pops that found the stack empty. -/
  underflows : Nat := 0
  /-- The deepest stack after an instruction. -/
  maxDepth : Nat := 0

namespace Walk

/-- Records a use of the value with an index. -/
def touch (w : Walk) (index position : Nat) : Walk :=
  { w with ranges := w.ranges.modify index (·.usedAt position) }

/-- Pops the top value, which is used here. -/
def pop (position : Nat) (w : Walk) : Walk :=
  match w.stack with
  | [] => { w with underflows := w.underflows + 1 }
  | top :: rest => { w.touch top position with stack := rest }

/-- Uses the top value and leaves it on the stack. -/
def peek (position : Nat) (w : Walk) : Walk :=
  match w.stack with
  | [] => { w with underflows := w.underflows + 1 }
  | top :: _ => w.touch top position

/-- Defines a value here and pushes it. -/
def define (position : Nat) (w : Walk) : Walk :=
  { w with
    ranges := w.ranges.push (.definedAt position)
    stack := w.ranges.size :: w.stack }

/-- What an opcode does to the ranges and the stack. -/
def apply (op : Opcode) (position : Nat) (w : Walk) : Walk :=
  match op with
  | .dup => (w.peek position).define position
  | _ =>
    let popped := Nat.repeat (pop position) op.effect.pops w
    Nat.repeat (define position) op.effect.pushes popped

/-- One instruction of the walk. -/
def step (w : Walk) (op : Opcode) (position : Nat) : Walk :=
  let next := w.apply op position
  { next with maxDepth := max next.maxDepth next.stack.length }

end Walk

end Liveness

/-- The live ranges of a program's values and what the walk saw of the stack. -/
structure Liveness where
  /-- The ranges in order of definition. -/
  ranges : List LiveRange
  /-- Pops that found the stack empty. -/
  underflows : Nat
  /-- The deepest stack after an instruction. -/
  maxDepth : Nat

namespace Liveness

/-- The walk over a whole program. -/
def walk (p : Program) : Walk :=
  p.numbered.foldl (fun w (i, position) => w.step i.opcode position) {}

/-- The liveness of a program. -/
def ofProgram (p : Program) : Liveness :=
  let w := walk p
  { ranges := w.ranges.toList, underflows := w.underflows, maxDepth := w.maxDepth }

/-- The range of a value, if the program defines it. -/
def range? (l : Liveness) (value : Nat) : Option LiveRange :=
  l.ranges.find? (·.value = value)

end Liveness

end BaselineTier
