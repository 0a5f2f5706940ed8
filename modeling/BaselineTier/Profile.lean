import BaselineTier.Fault
import BaselineTier.Table

/-! # Execution profiles

What an interpreter observed about one function: how often it was called, and
how often each of its back edges was taken.
-/

set_option autoImplicit false

namespace BaselineTier

/-- Call and back-edge counts of one function. -/
structure Profile where
  calls : Nat := 0
  edges : Table Nat Nat := .empty

namespace Profile

/-- Counts one call. -/
def recordCall (p : Profile) : Profile :=
  { p with calls := saturatingSucc p.calls }

/-- How often the back edge at a position was taken. -/
def edgeCount (p : Profile) (position : Nat) : Nat :=
  (p.edges.get? position).getD 0

/-- Counts one iteration of the loop that the back edge at a position closes. -/
def recordEdge (p : Profile) (position : Nat) : Profile :=
  { p with edges := p.edges.insert position (saturatingSucc (p.edgeCount position)) }

/-- Whether the first of two positions with their counts is hotter: it has the
larger count, or the same count at a lower position. -/
def hotter (a b : Nat × Nat) : Bool :=
  b.2 < a.2 || (a.2 == b.2 && a.1 < b.1)

/-- The hottest back edge with its count, if any was taken. -/
def hottest? (p : Profile) : Option (Nat × Nat) :=
  p.edges.pairs.foldl
    (fun best edge =>
      match best with
      | none => some edge
      | some b => if hotter edge b then some edge else some b)
    none

end Profile

end BaselineTier
