import BaselineTier.Replacement.Transfer
import BaselineTier.Table

/-! # Entry managers

A manager keeps the entries into one piece of compiled code, at most one per
bytecode offset.  Clearing it starts a new generation, and entries of an older
generation are no longer performed.  A retired manager, whose code is no longer
installed, takes no more entries.
-/

set_option autoImplicit false

namespace BaselineTier.Replacement

/-- A frame captured for entry into compiled code. -/
structure Entry where
  /-- The manager that made the entry. -/
  manager : Nat
  /-- How many entries the manager had made before. -/
  serial : Nat
  /-- The manager's generation at the time. -/
  generation : Nat
  /-- The bytecode offset the interpreter was at. -/
  position : Nat
  /-- The offset in the code to resume at. -/
  offset : Nat
  state : Snapshot

namespace Entry

/-- Whether two entries capture the same thing: they agree in everything but
their serial numbers. -/
def equal (a b : Entry) : Bool :=
  a.position = b.position && a.offset = b.offset && a.state.equal b.state &&
    a.generation = b.generation && a.manager = b.manager

/-- What the making of the entry reports. -/
def event (e : Entry) : Event :=
  .entryCreated e.position e.offset e.state.size

end Entry

/-- The entries into one piece of compiled code. -/
structure Manager where
  /-- The number of the manager, which its entries carry. -/
  id : Nat
  /-- The code that entries resume in. -/
  object : CodeObject
  /-- The entries by bytecode offset. -/
  entries : Table Nat Entry := .empty
  generation : Nat := 0
  retired : Bool := false
  /-- How many entries were made so far. -/
  issued : Nat := 0

namespace Manager

/-- Captures a frame at a bytecode offset to resume at a given offset in the
code.  An earlier entry for the same bytecode offset is replaced. -/
def createAt (m : Manager) (position offset : Nat) (state : Snapshot) :
    Except ReplacementError (Manager × Entry) :=
  if !m.object.code.containsOffset offset then
    .error (.offsetOutOfRange offset m.object.size)
  else if m.retired then
    .error (.retired position)
  else
    let entry : Entry :=
      { manager := m.id, serial := m.issued, generation := m.generation, position, offset, state }
    .ok ({ m with entries := m.entries.insert position entry, issued := m.issued + 1 }, entry)

/-- Captures a frame at a bytecode offset to resume where the code of that
offset begins. -/
def create (m : Manager) (position : Nat) (state : Snapshot) :
    Except ReplacementError (Manager × Entry) :=
  match m.object.code.offset? position with
  | none => .error (.unmappedOffset position)
  | some offset => m.createAt position offset state

/-- The entry at a bytecode offset, if there is one. -/
def entry? (m : Manager) (position : Nat) : Option Entry :=
  m.entries.get? position

/-- Drops all entries and starts a new generation. -/
def clear (m : Manager) : Manager :=
  { m with entries := .empty, generation := m.generation + 1 }

/-- Drops all entries for good. -/
def retire (m : Manager) : Manager :=
  { m.clear with retired := true }

/-- The transfer of an entry, which must be the manager's own and of its current
generation.  Neither of them changes. -/
def perform (m : Manager) (e : Entry) : Except ReplacementError Transfer :=
  if e.manager ≠ m.id then
    .error (.foreignEntry e.position)
  else if e.generation ≠ m.generation then
    .error (.staleEntry e.position e.generation m.generation)
  else
    .ok {
      position := e.position
      resumeOffset := m.object.code.entryPoint + e.offset
      slots := frameSlots e.state }

end Manager

end BaselineTier.Replacement
