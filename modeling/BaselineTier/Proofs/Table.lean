import BaselineTier.Table

/-! # Bindings of a table

The list behind a table and the lookup `get?` say the same thing: a pair is in the
list exactly when its key is bound to its value.
-/

set_option autoImplicit false

namespace BaselineTier.Table

variable {κ ν : Type} [DecidableEq κ]

/-- The pairs of a table are its bindings. -/
theorem mem_pairs_iff_get? (t : Table κ ν) {k : κ} {v : ν} :
    (k, v) ∈ t.pairs ↔ t.get? k = some v := by
  obtain ⟨pairs, hnodup⟩ := t
  simp only [get?]
  induction pairs with
  | nil => simp
  | cons p rest ih =>
    simp only [List.map_cons, List.nodup_cons] at hnodup
    by_cases hkey : p.1 = k
    · subst hkey
      have hfresh : (p.1, v) ∉ rest := fun hmem =>
        hnodup.1 (List.mem_map.mpr ⟨_, hmem, rfl⟩)
      simp [hfresh, Prod.ext_iff, eq_comm]
    · have hne : (k, v) ≠ p := fun heq => hkey (by rw [← heq])
      simp [hkey, hne, ih hnodup.2]

/-- A new binding stands in front of the others. -/
theorem pairs_insert_of_notMem (t : Table κ ν) {k : κ} (v : ν) (hk : k ∉ t.keys) :
    (t.insert k v).pairs = (k, v) :: t.pairs := by
  have hkept : t.pairs.filter (fun p => p.1 ≠ k) = t.pairs := by
    rw [List.filter_eq_self]
    intro p hp
    have hne : p.1 ≠ k := fun heq => hk (heq ▸ List.mem_map.mpr ⟨p, hp, rfl⟩)
    simpa using hne
  simp only [insert, erase, hkept]

/-- A table that binds no key is empty. -/
theorem isEmpty_of_get?_eq_none {t : Table κ ν} (h : ∀ k, t.get? k = none) :
    t.isEmpty = true := by
  rw [isEmpty, List.isEmpty_iff, List.eq_nil_iff_forall_not_mem]
  rintro ⟨k, v⟩ hmem
  rw [mem_pairs_iff_get?, h k] at hmem
  cases hmem

end BaselineTier.Table
