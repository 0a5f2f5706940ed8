import BaselineTier.Bytecode.Program
import BaselineTier.FunctionId
import BaselineTier.Profile

/-! # The request queue

Requests to compile, most urgent first and otherwise in the order they came.  A
function has at most one request that is pending or being worked on, so it is
never compiled twice at the same time.
-/

set_option autoImplicit false

namespace BaselineTier

/-- A request to compile a function. -/
structure Request where
  id : FunctionId
  program : Bytecode.Program
  /-- Larger is more urgent. -/
  priority : Nat := 0
  profile? : Option Profile := none

/-- Pending and running requests. -/
structure Queue where
  /-- Requests nobody has taken yet, in the order they will be taken. -/
  pending : List Request := []
  /-- The functions with a request that is pending or taken. -/
  busy : List FunctionId := []
  /-- How many requests are taken and not completed. -/
  inFlight : Nat := 0
  /-- A closed queue accepts no requests. -/
  closed : Bool := false

namespace Queue

/-- Whether a function has a request that is pending or taken. -/
def isBusy (q : Queue) (id : FunctionId) : Bool :=
  q.busy.contains id

/-- The number of pending requests. -/
def size (q : Queue) : Nat :=
  q.pending.length

/-- Whether no request is pending. -/
def isEmpty (q : Queue) : Bool :=
  q.pending.isEmpty

/-- Puts a request behind those that are at least as urgent. -/
def insertByPriority (r : Request) : List Request → List Request
  | [] => [r]
  | first :: rest =>
    if first.priority < r.priority then r :: first :: rest
    else first :: insertByPriority r rest

/-- Adds a request.  It is turned away when the queue is closed or the function
is busy. -/
def submit (q : Queue) (r : Request) : Queue × Bool :=
  if q.closed || q.isBusy r.id then (q, false)
  else
    ({ q with pending := insertByPriority r q.pending, busy := r.id :: q.busy }, true)

/-- Takes the first pending request. -/
def take? (q : Queue) : Option (Request × Queue) :=
  match q.pending with
  | [] => none
  | first :: rest => some (first, { q with pending := rest, inFlight := q.inFlight + 1 })

/-- Takes the first pending request, unless the queue is closed. -/
def takeOpen? (q : Queue) : Option (Request × Queue) :=
  if q.closed then none else q.take?

/-- Marks the request of a function as completed. -/
def complete (q : Queue) (id : FunctionId) : Queue :=
  { q with busy := q.busy.filter (· ≠ id), inFlight := q.inFlight - 1 }

/-- Closes the queue. -/
def close (q : Queue) : Queue :=
  { q with closed := true }

end Queue

end BaselineTier
