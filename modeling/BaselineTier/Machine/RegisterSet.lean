import BaselineTier.Machine.Register

/-! # Register sets

A set of registers is a 16-bit mask with one bit per register.  Membership is
the view through which the operations are described.
-/

set_option autoImplicit false

namespace BaselineTier.Machine

/-- A set of registers: register `r` is a member when bit `r.number` is set. -/
structure RegisterSet where
  bits : BitVec 16
  deriving DecidableEq

namespace RegisterSet

/-- The set without registers. -/
def empty : RegisterSet := ⟨0⟩

/-- The set of all registers. -/
def full : RegisterSet := ⟨BitVec.allOnes 16⟩

/-- Whether a register is in the set. -/
def contains (s : RegisterSet) (r : Register) : Bool :=
  s.bits.getLsbD r.number

/-- The set with one more register. -/
def insert (s : RegisterSet) (r : Register) : RegisterSet :=
  ⟨s.bits ||| BitVec.twoPow 16 r.number⟩

/-- The set without a register. -/
def erase (s : RegisterSet) (r : Register) : RegisterSet :=
  ⟨s.bits &&& ~~~BitVec.twoPow 16 r.number⟩

/-- The registers of the first set that are not in the second. -/
def difference (s t : RegisterSet) : RegisterSet :=
  ⟨s.bits &&& ~~~t.bits⟩

/-- The set of the listed registers. -/
def ofList (rs : List Register) : RegisterSet :=
  rs.foldl insert empty

/-- The set of one register. -/
def singleton (r : Register) : RegisterSet :=
  empty.insert r

/-- The members, by ascending number. -/
def toList (s : RegisterSet) : List Register :=
  Register.all.filter s.contains

/-- The number of members. -/
def size (s : RegisterSet) : Nat :=
  s.toList.length

/-- Whether the set has no members. -/
def isEmpty (s : RegisterSet) : Bool :=
  s.bits = 0

/-- The member with the lowest number. -/
def lowest? (s : RegisterSet) : Option Register :=
  Register.all.find? s.contains

/-- The set in braces, the members by their capitalised names. -/
def listing (s : RegisterSet) : String :=
  "\x7b" ++ ", ".intercalate (s.toList.map (·.name.capitalize)) ++ "\x7d"

/-! ## Membership -/

@[simp] theorem contains_empty (r : Register) : empty.contains r = false := by
  simp [contains, empty]

@[simp] theorem contains_full (r : Register) : full.contains r = true := by
  cases r <;> rfl

theorem contains_insert (s : RegisterSet) (q r : Register) :
    (s.insert q).contains r = (s.contains r || decide (q = r)) := by
  by_cases h : q = r
  · subst h
    simp [contains, insert, q.number_lt]
  · have hne : q.number ≠ r.number := fun e => h (Register.number_injective e)
    simp [contains, insert, BitVec.getLsbD_twoPow, h, hne]

theorem contains_erase (s : RegisterSet) (q r : Register) :
    (s.erase q).contains r = (s.contains r && decide (q ≠ r)) := by
  by_cases h : q = r
  · subst h
    simp [contains, erase, q.number_lt]
  · have hne : r.number ≠ q.number := fun e => h (Register.number_injective e.symm)
    simp [contains, erase, h, hne, r.number_lt]

theorem contains_difference (s t : RegisterSet) (r : Register) :
    (s.difference t).contains r = (s.contains r && !t.contains r) := by
  simp [contains, difference, r.number_lt]

theorem mem_toList {s : RegisterSet} {r : Register} : r ∈ s.toList ↔ s.contains r = true := by
  simp [toList, Register.mem_all]

end RegisterSet

end BaselineTier.Machine
