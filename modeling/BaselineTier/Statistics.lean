import BaselineTier.Binary64
import BaselineTier.Fault

/-! # Derived statistics

Rates and averages over counters.  Counters are 64-bit words, so a sum of two may
overflow.
-/

set_option autoImplicit false

namespace BaselineTier.Statistics

/-- The quotient of two counters as a double, each of them rounded first. -/
def ratio (a b : Nat) : Binary64 :=
  ⟨(a.toUInt64.toFloat / b.toUInt64.toFloat).toBits⟩

/-- The share of hits among all lookups, and zero before the first lookup. -/
def hitRate (hits misses : Nat) : Except Fault Binary64 := do
  let total ← checkedSum hits misses
  return if total = 0 then Binary64.zero else ratio hits total

/-- The average time of an attempt, in whole microseconds, and zero before the
first attempt. -/
def averageTime (successes failures total : Nat) : Except Fault Nat := do
  let attempts ← checkedSum successes failures
  return if attempts = 0 then 0 else total / attempts

/-- The time of both compile phases. -/
def totalTime (allocation generation : Nat) : Except Fault Nat :=
  checkedSum allocation generation

end BaselineTier.Statistics
