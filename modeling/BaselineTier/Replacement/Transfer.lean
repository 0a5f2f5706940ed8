import BaselineTier.Event
import BaselineTier.Value

/-! # Frame transfers

A captured frame enters compiled code as a run of 8-byte slots below the frame
pointer: the local variables first, then the operand stack from the bottom up.

```text
  [rbp - 8]              first local
  [rbp - 8 * L]          last of L locals
  [rbp - 8 * (L + 1)]    bottom of the stack
```
-/

set_option autoImplicit false

namespace BaselineTier.Replacement

/-- The size of a frame slot in bytes. -/
def slotSize : Nat := 8

/-- The displacement of the frame slot with an index from the frame pointer. -/
def slotDisplacement (index : Nat) : Int :=
  -((slotSize * (index + 1) : Nat) : Int)

/-! ## Displacements in 64-bit arithmetic -/

/-- The result of a signed 64-bit step, refused when it is out of range. -/
def checkedWord (step : ArithmeticStep) (n : Int) : Except Fault Int :=
  if -0x8000000000000000 ≤ n ∧ n < 0x8000000000000000 then .ok n else .error (.overflow step)

/-- The displacement of a slot, computed in signed 64-bit arithmetic from an
index word: one is added, the sum is scaled and the product negated. -/
def wordDisplacement (index : UInt64) : Except Fault Int := do
  let next ← checkedWord .add (index.toInt64.toInt + 1)
  let scaled ← checkedWord .multiply (slotSize * next)
  checkedWord .negate (-scaled)

/-! ## Slots -/

/-- Where in the captured frame a value comes from. -/
inductive SlotSource where
  /-- A local variable. -/
  | localVar (index : Nat)
  /-- A place on the operand stack, counted from the bottom. -/
  | operand (index : Nat)
  deriving DecidableEq

namespace SlotSource

/-- Whether the value is a local variable. -/
def isVariable : SlotSource → Bool
  | .localVar _ => true
  | .operand _ => false

end SlotSource

/-- A value and its place in the compiled frame. -/
structure FrameSlot where
  source : SlotSource
  displacement : Int
  value : Value

/-- The values of a captured frame in slot order, with their sources. -/
def sourcedValues (s : Snapshot) : List (SlotSource × Value) :=
  s.locals.zipIdx.map (fun (v, i) => (.localVar i, v)) ++
    s.stack.zipIdx.map (fun (v, i) => (.operand i, v))

/-- The slots of a captured frame. -/
def frameSlots (s : Snapshot) : List FrameSlot :=
  (sourcedValues s).zipIdx.map fun ((source, value), index) =>
    { source, displacement := slotDisplacement index, value }

/-- All that is needed to go on in compiled code. -/
structure Transfer where
  /-- The bytecode offset the interpreter was at. -/
  position : Nat
  /-- The offset in the code to jump to. -/
  resumeOffset : Nat
  slots : List FrameSlot

namespace Transfer

/-- The bytes the slots take up. -/
def frameBytes (t : Transfer) : Nat :=
  t.slots.length * slotSize

/-- Whether the slots fit a frame of a given size. -/
def fitsIn (t : Transfer) (frameSize : UInt32) : Bool :=
  t.frameBytes ≤ frameSize.toNat

/-- The slots of local variables. -/
def localVars (t : Transfer) : List FrameSlot :=
  t.slots.filter (·.source.isVariable)

/-- The slots of the operand stack. -/
def operands (t : Transfer) : List FrameSlot :=
  t.slots.filter (!·.source.isVariable)

/-- What the transfer reports. -/
def event (t : Transfer) : Event :=
  .transferred t.position t.resumeOffset t.slots.length

end Transfer

end BaselineTier.Replacement
