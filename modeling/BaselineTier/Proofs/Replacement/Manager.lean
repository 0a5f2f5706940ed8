import BaselineTier.Replacement.Manager

/-! # What entry managers do

The capture of a frame is described once, by `createAt_eq_ok_iff` and `create_eq_ok_iff`:
when it succeeds, which entry it makes, and that it does nothing to the manager but add this
entry.  Whatever else is said of it follows from the two.
-/

set_option autoImplicit false

namespace BaselineTier.Replacement.Manager

variable {m m' : Manager} {position offset : Nat} {s : Snapshot} {e : Entry}

/-! ## Capturing frames -/

/-- The entry for a frame at a position, to resume at an offset in the code. -/
def capture (m : Manager) (position offset : Nat) (state : Snapshot) : Entry :=
  { manager := m.id, serial := m.issued, generation := m.generation, position, offset, state }

/-- The manager with one more entry. -/
def adding (m : Manager) (e : Entry) : Manager :=
  { m with entries := m.entries.insert e.position e, issued := m.issued + 1 }

theorem entry?_adding (m : Manager) (e : Entry) (position : Nat) :
    Manager.entry? (m.adding e) position =
      if position = e.position then some e else m.entry? position := by
  unfold Manager.entry?
  split
  · rename_i heq
    rw [heq]
    exact m.entries.get?_insert_self e.position e
  · rename_i hne
    exact m.entries.get?_insert_of_ne e hne

/-- All that the capture of a frame does. -/
theorem createAt_eq_ok_iff : m.createAt position offset s = .ok (m', e) ↔
    (m.retired = false ∧ m.object.code.containsOffset offset = true) ∧
      e = m.capture position offset s ∧ m' = m.adding e := by
  unfold createAt
  constructor
  · intro h
    split at h
    · cases h
    · rename_i hinside
      split at h
      · cases h
      · rename_i hactive
        cases h
        exact ⟨⟨by simpa using hactive, by simpa using hinside⟩, rfl, rfl⟩
  · rintro ⟨⟨hactive, hinside⟩, rfl, rfl⟩
    rw [if_neg (by simp [hinside]), if_neg (by simp [hactive])]
    rfl

theorem create_of_unmapped (hunmapped : m.object.code.offset? position = none)
    (s : Snapshot) : m.create position s = .error (.unmappedOffset position) := by
  unfold create
  rw [hunmapped]

theorem create_eq_ok_iff : m.create position s = .ok (m', e) ↔
    ∃ offset, m.object.code.offset? position = some offset ∧
      m.createAt position offset s = .ok (m', e) := by
  unfold create
  cases m.object.code.offset? position with
  | none => simp
  | some offset => simp

theorem create_of_mapped (hactive : m.retired = false)
    (hmapped : m.object.code.offset? position = some offset)
    (hinside : m.object.code.containsOffset offset = true) (s : Snapshot) :
    m.create position s =
      .ok (m.adding (m.capture position offset s), m.capture position offset s) :=
  create_eq_ok_iff.mpr ⟨offset, hmapped, createAt_eq_ok_iff.mpr ⟨⟨hactive, hinside⟩, rfl, rfl⟩⟩

/-! ## The entries of a manager -/

/-- An entry that a manager can make: the manager takes entries, and the entry has its
number, its generation and an offset inside its code. -/
structure Issues (m : Manager) (e : Entry) : Prop where
  active : m.retired = false
  inside : m.object.code.containsOffset e.offset = true
  number : e.manager = m.id
  generation : e.generation = m.generation

theorem issues_of_createAt (h : m.createAt position offset s = .ok (m', e)) :
    m.Issues e ∧ m' = m.adding e := by
  obtain ⟨⟨hactive, hinside⟩, rfl, hadded⟩ := createAt_eq_ok_iff.mp h
  exact ⟨⟨hactive, hinside, rfl, rfl⟩, hadded⟩

theorem issues_of_create (h : m.create position s = .ok (m', e)) :
    m.Issues e ∧ m' = m.adding e := by
  obtain ⟨offset, -, h⟩ := create_eq_ok_iff.mp h
  exact issues_of_createAt h

theorem createAt_of_retired (m : Manager) (hretired : m.retired = true) (position offset : Nat)
    (s : Snapshot) : ∃ cause, m.createAt position offset s = .error cause := by
  cases h : m.createAt position offset s with
  | error cause => exact ⟨cause, rfl⟩
  | ok made =>
    have hactive := (issues_of_createAt h).1.active
    cases hactive.symm.trans hretired

theorem create_of_retired (m : Manager) (hretired : m.retired = true) (position : Nat)
    (s : Snapshot) : ∃ cause, m.create position s = .error cause := by
  cases h : m.create position s with
  | error cause => exact ⟨cause, rfl⟩
  | ok made =>
    have hactive := (issues_of_create h).1.active
    cases hactive.symm.trans hretired

theorem isEmpty_entries_retire (m : Manager) : m.retire.entries.isEmpty = true := rfl

/-! ## Performing entries -/

/-- The transfer into a manager's code that an entry stands for. -/
def transferOf (m : Manager) (e : Entry) : Transfer where
  position := e.position
  resumeOffset := m.object.code.entryPoint + e.offset
  slots := frameSlots e.state

/-- A manager performs an entry that has its number and its generation. -/
theorem perform_eq_ok (hnumber : e.manager = m.id) (hgeneration : e.generation = m.generation) :
    m.perform e = .ok (m.transferOf e) := by
  unfold perform
  rw [if_neg (not_not_intro hnumber), if_neg (not_not_intro hgeneration)]
  rfl

theorem perform_of_foreign (hforeign : e.manager ≠ m.id) :
    m.perform e = .error (.foreignEntry e.position) := by
  unfold perform
  rw [if_pos hforeign]

theorem perform_of_stale (hnumber : e.manager = m.id) (hstale : e.generation ≠ m.generation) :
    m.perform e = .error (.staleEntry e.position e.generation m.generation) := by
  unfold perform
  rw [if_neg (not_not_intro hnumber), if_pos hstale]

end BaselineTier.Replacement.Manager
