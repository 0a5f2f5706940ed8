import BaselineTier.Allocation.Liveness
import BaselineTier.Allocation.Placement
import BaselineTier.Machine.Convention
import BaselineTier.Text.Record

/-! # Linear scan

Ranges are visited by ascending start.  At each start the registers of the
ranges that have ended become free again; the range then takes the free register
with the lowest number, or is spilled when there is none.  A range that holds a
register keeps it until it ends.
-/

set_option autoImplicit false

namespace BaselineTier

open Machine (Register RegisterSet)

/-- What a scan counted. -/
structure ScanStats where
  /-- Ranges visited. -/
  values : Nat := 0
  /-- Ranges that got a register. -/
  allocated : Nat := 0
  /-- Ranges that were spilled. -/
  spilled : Nat := 0
  /-- The most ranges that held registers at once. -/
  maxPressure : Nat := 0
  deriving DecidableEq

namespace LinearScan

/-- A register held by a value until a position. -/
structure Holding where
  value : Nat
  register : Register
  expiry : Nat
  deriving DecidableEq

/-- The state of a scan. -/
structure Scan where
  free : RegisterSet
  active : List Holding := []
  allocation : Allocation := .empty
  stats : ScanStats := {}

namespace Scan

/-- Gives back the registers of the ranges that have ended at a position. -/
def expire (s : Scan) (position : Nat) : Scan :=
  let ended := s.active.filter (·.expiry ≤ position)
  { s with
    active := s.active.filter (position < ·.expiry)
    free := ended.foldl (fun free h => free.insert h.register) s.free }

/-- Finds a place for a range: the lowest free register, or none. -/
def place (s : Scan) (range : LiveRange) : Scan :=
  match s.free.lowest? with
  | none =>
    { s with
      allocation := s.allocation.spill range.value
      stats := { s.stats with spilled := s.stats.spilled + 1 } }
  | some r =>
    { free := s.free.erase r
      active := ⟨range.value, r, range.effectiveEnd⟩ :: s.active
      allocation := s.allocation.assign range.value r
      stats :=
        { s.stats with
          allocated := s.stats.allocated + 1
          maxPressure := max s.stats.maxPressure (s.active.length + 1) } }

/-- One range of the scan. -/
def visit (s : Scan) (range : LiveRange) : Scan :=
  (s.expire range.start).place range

/-- The listing of a scan's state. -/
def listing (s : Scan) : String :=
  let active := ", ".intercalate (s.active.map fun h => LiveRange.valueName h.value)
  Text.record "LinearScanAllocator"
    [("active", "[" ++ active ++ "]"),
     ("free_gprs", s.free.listing),
     ("stats", Text.record "AllocatorStats"
       [("num_values", toString s.stats.values),
        ("num_allocated", toString s.stats.allocated),
        ("num_spilled", toString s.stats.spilled),
        ("max_pressure", toString s.stats.maxPressure),
        ("time_us", "0")])]

end Scan

/-- The ranges in the order of the scan: by start, ranges with equal starts as
given. -/
def ordered (ranges : List LiveRange) : List LiveRange :=
  ranges.mergeSort (fun r s => r.start ≤ s.start)

/-- The scan of all ranges with the given registers. -/
def run (registers : RegisterSet) (ranges : List LiveRange) : Scan :=
  let first : Scan := { free := registers, stats := { values := ranges.length } }
  (ordered ranges).foldl Scan.visit first

/-- The allocation of a list of ranges. -/
def allocate (registers : RegisterSet) (ranges : List LiveRange) : Allocation × ScanStats :=
  let scan := run registers ranges
  (scan.allocation, scan.stats)

/-- The allocation of a program's values. -/
def allocateProgram (registers : RegisterSet) (p : Bytecode.Program) :
    Allocation × ScanStats :=
  allocate registers (Liveness.ofProgram p).ranges

/-- A register file small enough to make spilling common. -/
def smallRegisters : RegisterSet :=
  .ofList [.rax, .rcx, .rdx]

end LinearScan

end BaselineTier
