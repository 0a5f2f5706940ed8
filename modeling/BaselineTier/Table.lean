/-! # Finite tables

A `Table κ ν` binds keys to values, each key at most once.  It is a list of
pairs with the newest binding in front; uniqueness of the keys is part of the
type, so the number of pairs is the number of keys bound.

Everything else in the library speaks of tables through `get?`: the lemmas here
say what each operation does to it.
-/

set_option autoImplicit false

namespace BaselineTier

/-- A finite map as a list of bindings with pairwise distinct keys. -/
structure Table (κ ν : Type) where
  pairs : List (κ × ν)
  nodup : (pairs.map Prod.fst).Nodup

namespace Table

variable {κ ν : Type}

/-- The table that binds nothing. -/
def empty : Table κ ν :=
  ⟨[], List.nodup_nil⟩

/-- The bound keys, newest binding first. -/
def keys (t : Table κ ν) : List κ :=
  t.pairs.map Prod.fst

/-- The bound values, newest binding first. -/
def values (t : Table κ ν) : List ν :=
  t.pairs.map Prod.snd

/-- How many keys are bound. -/
def size (t : Table κ ν) : Nat :=
  t.pairs.length

/-- Whether no key is bound. -/
def isEmpty (t : Table κ ν) : Bool :=
  t.pairs.isEmpty

@[simp] theorem size_empty : (empty : Table κ ν).size = 0 := rfl

variable [DecidableEq κ]

/-- The value bound to a key, if any. -/
def get? (t : Table κ ν) (k : κ) : Option ν :=
  (t.pairs.find? (fun p => p.1 = k)).map Prod.snd

/-- Whether a key is bound. -/
def contains (t : Table κ ν) (k : κ) : Bool :=
  (t.get? k).isSome

/-- The table without the binding of `k`. -/
def erase (t : Table κ ν) (k : κ) : Table κ ν :=
  ⟨t.pairs.filter (fun p => p.1 ≠ k), t.nodup.sublist (List.filter_sublist.map _)⟩

/-- The table with `k` bound to `v` and every other key as before. -/
def insert (t : Table κ ν) (k : κ) (v : ν) : Table κ ν :=
  ⟨(k, v) :: (t.erase k).pairs, by
    simp only [List.map_cons, List.nodup_cons]
    refine ⟨?_, (t.erase k).nodup⟩
    simp [erase]⟩

@[simp] theorem get?_empty (k : κ) : (empty : Table κ ν).get? k = none := rfl

@[simp] theorem get?_erase_self (t : Table κ ν) (k : κ) : (t.erase k).get? k = none := by
  simp [get?, erase]

theorem get?_erase_of_ne (t : Table κ ν) {j k : κ} (h : j ≠ k) :
    (t.erase k).get? j = t.get? j := by
  simp only [get?, erase, List.find?_filter]
  congr 1
  apply congrArg (fun p => List.find? p t.pairs)
  funext p
  by_cases hp : p.1 = j <;> simp [hp, h]

@[simp] theorem get?_insert_self (t : Table κ ν) (k : κ) (v : ν) :
    (t.insert k v).get? k = some v := by
  simp [get?, insert]

theorem get?_insert_of_ne (t : Table κ ν) {j k : κ} (v : ν) (h : j ≠ k) :
    (t.insert k v).get? j = t.get? j := by
  rw [← get?_erase_of_ne t h]
  simp [get?, insert, h.symm]

end Table

end BaselineTier
