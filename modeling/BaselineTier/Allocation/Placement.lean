import BaselineTier.Machine.RegisterSet
import BaselineTier.Table

/-! # Allocations

An allocation says for each value where it is kept: in a register, or spilled.
A value has one place, so it is never both.
-/

set_option autoImplicit false

namespace BaselineTier

open Machine (Register RegisterSet)

/-- Where a value is kept. -/
inductive Place where
  | register (r : Register)
  | spilled
  deriving DecidableEq

namespace Place

/-- The register of a place, if it is one. -/
def register? : Place → Option Register
  | .register r => some r
  | .spilled => none

end Place

/-- The places of values. -/
structure Allocation where
  places : Table Nat Place

namespace Allocation

/-- The allocation without values. -/
def empty : Allocation := ⟨.empty⟩

/-- The place of a value, if it has one. -/
def place? (a : Allocation) (value : Nat) : Option Place :=
  a.places.get? value

/-- Keeps a value in a register, wherever it was before. -/
def assign (a : Allocation) (value : Nat) (r : Register) : Allocation :=
  ⟨a.places.insert value (.register r)⟩

/-- Spills a value, wherever it was before. -/
def spill (a : Allocation) (value : Nat) : Allocation :=
  ⟨a.places.insert value .spilled⟩

/-- The register of a value, if it is kept in one. -/
def register? (a : Allocation) (value : Nat) : Option Register :=
  (a.place? value).bind Place.register?

/-- Whether a value is spilled. -/
def isSpilled (a : Allocation) (value : Nat) : Bool :=
  a.place? value = some .spilled

/-- The values with their places, by ascending value. -/
def toList (a : Allocation) : List (Nat × Place) :=
  a.places.pairs.mergeSort (fun p q => p.1 ≤ q.1)

/-- The values in registers, by ascending value. -/
def assigned (a : Allocation) : List (Nat × Register) :=
  a.toList.filterMap fun p => p.2.register?.map (p.1, ·)

/-- The spilled values, ascending. -/
def spilled (a : Allocation) : List Nat :=
  (a.toList.filter (·.2 = .spilled)).map Prod.fst

/-- The number of values that have a place. -/
def size (a : Allocation) : Nat :=
  a.places.size

/-- The registers that hold at least one value. -/
def usedRegisters (a : Allocation) : RegisterSet :=
  .ofList (a.assigned.map Prod.snd)

/-- Whether two allocations give the same values the same places. -/
def agrees (a b : Allocation) : Bool :=
  a.toList = b.toList

@[simp] theorem place?_empty (value : Nat) : empty.place? value = none := rfl

@[simp] theorem place?_assign_self (a : Allocation) (value : Nat) (r : Register) :
    (a.assign value r).place? value = some (.register r) := by
  simp [place?, assign]

theorem place?_assign_of_ne (a : Allocation) {v w : Nat} (r : Register) (h : w ≠ v) :
    (a.assign v r).place? w = a.place? w := by
  simp [place?, assign, Table.get?_insert_of_ne _ _ h]

@[simp] theorem place?_spill_self (a : Allocation) (value : Nat) :
    (a.spill value).place? value = some .spilled := by
  simp [place?, spill]

theorem place?_spill_of_ne (a : Allocation) {v w : Nat} (h : w ≠ v) :
    (a.spill v).place? w = a.place? w := by
  simp [place?, spill, Table.get?_insert_of_ne _ _ h]

end Allocation

end BaselineTier
