import BaselineTier.Replacement.Manager

/-! # The manager registry

Each function whose compiled code was entered has a registered manager.  The
registry also remembers the managers that are no longer registered, for callers
may still hold them; a manager's number is its place among all managers ever
made.
-/

set_option autoImplicit false

namespace BaselineTier.Replacement

/-- All managers, and which of them is registered for which function. -/
structure Registry where
  managers : Array Manager := #[]
  registered : Table FunctionId Nat := .empty

/-- The outcome of asking for the manager of a function. -/
inductive Enrolment where
  /-- The registered manager already runs the code. -/
  | known (manager : Nat)
  /-- A new manager was registered. -/
  | registered (manager : Nat)
  /-- The code is no longer current, so nothing was registered. -/
  | refused
  deriving DecidableEq

namespace Enrolment

/-- The manager of the outcome, if there is one. -/
def manager? : Enrolment → Option Nat
  | .known manager | .registered manager => some manager
  | .refused => none

end Enrolment

namespace Registry

/-- The manager with a number. -/
def manager? (r : Registry) (manager : Nat) : Option Manager :=
  r.managers[manager]?

/-- The number of the manager registered for a function. -/
def registered? (r : Registry) (id : FunctionId) : Option Nat :=
  r.registered.get? id

/-- The number of registered managers. -/
def size (r : Registry) : Nat :=
  r.registered.size

/-- Whether no manager is registered. -/
def isEmpty (r : Registry) : Bool :=
  r.registered.isEmpty

/-- Makes a manager for an object, registered for no function. -/
def newManager (r : Registry) (object : CodeObject) : Registry × Nat :=
  let id := r.managers.size
  ({ r with managers := r.managers.push { id, object } }, id)

/-- Puts a manager in its place. -/
def update (r : Registry) (m : Manager) : Registry :=
  { r with managers := r.managers.setIfInBounds m.id m }

/-- Retires the manager with a number. -/
def retire (r : Registry) (manager : Nat) : Registry :=
  { r with managers := r.managers.modify manager Manager.retire }

/-- The registered manager of a function, if it runs this very object. -/
def running? (r : Registry) (id : FunctionId) (object : CodeObject) : Option Nat := do
  let number ← r.registered? id
  let manager ← r.manager? number
  if manager.object.stamp = object.stamp then some number else none

/-- The manager of a function for an object.  A new one is registered only if the
object is the function's current code; the manager it replaces is retired. -/
def enrol (r : Registry) (id : FunctionId) (object : CodeObject) (isCurrent : Bool) :
    Registry × Enrolment :=
  match r.running? id object with
  | some number => (r, .known number)
  | none =>
    if isCurrent then
      let (grown, number) := r.newManager object
      let cleared :=
        match r.registered? id with
        | some old => grown.retire old
        | none => grown
      ({ cleared with registered := cleared.registered.insert id number }, .registered number)
    else
      (r, .refused)

/-- Retires the manager of a function and takes it out of the registry.  The
answer is whether there was one. -/
def invalidate (r : Registry) (id : FunctionId) : Registry × Bool :=
  match r.registered? id with
  | some number =>
    ({ r.retire number with registered := r.registered.erase id }, true)
  | none => (r, false)

/-- Retires all registered managers and takes them out of the registry. -/
def clear (r : Registry) : Registry :=
  { r.registered.values.foldl retire r with registered := .empty }

end Registry

end BaselineTier.Replacement
