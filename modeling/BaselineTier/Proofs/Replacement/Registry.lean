import BaselineTier.Proofs.Replacement.Manager
import BaselineTier.Replacement.Registry

/-! # The registry through its two views

A registry is seen through `registered?`, the number of the manager registered for a
function, and `manager?`, the manager with a number.  Each operation is described by
what it does to the two.  Every operation keeps the registry orderly: the registered
managers are not retired, no manager is registered twice, and a manager that is not
registered is retired and has no entries.
-/

set_option autoImplicit false

namespace BaselineTier.Replacement

namespace Registry

/-! ## What the operations do to the views -/

theorem manager?_retire (r : Registry) (k n : Nat) :
    (r.retire k).manager? n =
      if k = n then (r.manager? n).map Manager.retire else r.manager? n := by
  simp [manager?, retire, Array.getElem?_modify]

theorem manager?_newManager (r : Registry) (object : CodeObject) (n : Nat) :
    (r.newManager object).1.manager? n =
      if n = r.managers.size then some { id := n, object } else r.manager? n := by
  simp only [manager?, newManager, Array.getElem?_push]
  split
  · rename_i heq
    subst heq
    rfl
  · rfl

theorem manager?_update {r : Registry} {m old : Manager} (hold : r.manager? m.id = some old)
    (n : Nat) :
    (r.update m).manager? n = if n = m.id then some m else r.manager? n := by
  have hlt : m.id < r.managers.size := (Array.getElem?_eq_some_iff.mp hold).1
  simp only [manager?, update, Array.getElem?_setIfInBounds, hlt, if_true, eq_comm]

theorem registered?_invalidate (r : Registry) (id j : FunctionId) :
    (r.invalidate id).1.registered? j = if j = id then none else r.registered? j := by
  unfold invalidate
  by_cases hj : j = id
  · subst hj
    split
    · simp [registered?]
    · simpa using ‹r.registered? j = none›
  · split
    · simp only [registered?, Table.get?_erase_of_ne _ hj, hj, if_false]
    · simp [hj]

theorem manager?_invalidate (r : Registry) (id : FunctionId) (n : Nat) :
    (r.invalidate id).1.manager? n =
      if r.registered? id = some n then (r.manager? n).map Manager.retire
      else r.manager? n := by
  unfold invalidate
  split
  · rename_i k hk
    rw [hk]
    refine (manager?_retire r k n).trans ?_
    simp
  · rename_i hnone
    simp [hnone]

/-- Asking for a manager changes nothing, or registers a new one for current code in
place of the one registered before, which is retired. -/
theorem enrol_cases (r : Registry) (id : FunctionId) (object : CodeObject) (isCurrent : Bool) :
    (r.enrol id object isCurrent).1 = r ∨
      (isCurrent = true ∧
        (∀ j, (r.enrol id object isCurrent).1.registered? j =
          if j = id then some r.managers.size else r.registered? j) ∧
        ∀ n, (r.enrol id object isCurrent).1.manager? n =
          if r.registered? id = some n then
            ((r.newManager object).1.manager? n).map Manager.retire
          else (r.newManager object).1.manager? n) := by
  unfold enrol
  split
  · exact .inl rfl
  split
  · refine .inr ⟨‹_›, fun j => ?_, fun n => ?_⟩
    · by_cases hj : j = id
      · subst hj
        simp [registered?, newManager]
      · simp only [registered?, Table.get?_insert_of_ne _ _ hj, hj, if_false]
        cases r.registered.get? id <;> rfl
    · cases hold : r.registered? id with
      | none => simp [manager?]
      | some old =>
        refine (manager?_retire (r.newManager object).1 old n).trans ?_
        simp
  · exact .inl rfl

/-! ## Order -/

/-- Each manager has its place among all managers as its number. -/
def Numbered (r : Registry) : Prop :=
  ∀ n m, r.manager? n = some m → m.id = n

/-- The registered managers are the ones still in use. -/
structure Orderly (r : Registry) : Prop where
  numbered : r.Numbered
  inUse : ∀ id n, r.registered? id = some n → ∃ m, r.manager? n = some m ∧ m.retired = false
  registeredOnce : ∀ i j n, r.registered? i = some n → r.registered? j = some n → i = j
  dropped : ∀ n m, r.manager? n = some m → (∀ id, r.registered? id ≠ some n) →
    m.retired = true ∧ m.entries.isEmpty = true

namespace Orderly

variable {r : Registry}

theorem initial : Orderly {} where
  numbered := by intro n m h; simp [manager?] at h
  inUse := by intro id n h; simp [registered?] at h
  registeredOnce := by intro i j n h; simp [registered?] at h
  dropped := by intro n m h; simp [manager?] at h

theorem lt_size (h : r.Orderly) {id : FunctionId} {n : Nat}
    (hn : r.registered? id = some n) : n < r.managers.size := by
  obtain ⟨m, hm, -⟩ := h.inUse id n hn
  exact (Array.getElem?_eq_some_iff.mp hm).1

theorem invalidate (h : r.Orderly) (id : FunctionId) : (r.invalidate id).1.Orderly where
  numbered := by
    intro n m hm
    rw [manager?_invalidate] at hm
    split at hm
    · obtain ⟨m₀, hm₀, rfl⟩ := Option.map_eq_some_iff.mp hm
      exact h.numbered n m₀ hm₀
    · exact h.numbered n m hm
  inUse := by
    intro j n hj
    rw [registered?_invalidate] at hj
    split at hj
    · cases hj
    · rename_i hne
      rw [manager?_invalidate, if_neg]
      · exact h.inUse j n hj
      · intro hid
        exact hne (h.registeredOnce j id n hj hid)
  registeredOnce := by
    intro i j n hi hj
    rw [registered?_invalidate] at hi hj
    split at hi
    · cases hi
    · split at hj
      · cases hj
      · exact h.registeredOnce i j n hi hj
  dropped := by
    intro n m hm hfree
    rw [manager?_invalidate] at hm
    split at hm
    · obtain ⟨m₀, -, rfl⟩ := Option.map_eq_some_iff.mp hm
      exact ⟨rfl, m₀.isEmpty_entries_retire⟩
    · rename_i hid
      refine h.dropped n m hm fun j hj => ?_
      have hgone := hfree j
      rw [registered?_invalidate] at hgone
      split at hgone
      · rename_i heq
        exact hid (heq ▸ hj)
      · exact hgone hj

/-- Registering a manager keeps order: the new one has a number of its own, and the one
it replaces is retired. -/
theorem enrol (h : r.Orderly) (id : FunctionId) (object : CodeObject) (isCurrent : Bool) :
    (r.enrol id object isCurrent).1.Orderly := by
  rcases r.enrol_cases id object isCurrent with hsame | ⟨-, hregistered, hmanager⟩
  · rw [hsame]
    exact h
  have hfresh : ∀ j n, r.registered? j = some n → n ≠ r.managers.size := fun j n hj =>
    Nat.ne_of_lt (h.lt_size hj)
  constructor
  case numbered =>
    intro n m hm
    have hgrown : ∀ m, (r.newManager object).1.manager? n = some m → m.id = n := by
      intro m hm
      rw [manager?_newManager] at hm
      split at hm
      · cases hm
        rfl
      · exact h.numbered n m hm
    rw [hmanager] at hm
    split at hm
    · obtain ⟨m₀, hm₀, rfl⟩ := Option.map_eq_some_iff.mp hm
      exact hgrown m₀ hm₀
    · exact hgrown m hm
  case inUse =>
    intro j n hj
    rw [hregistered] at hj
    split at hj
    · cases hj
      rw [hmanager, if_neg (fun hold => hfresh id _ hold rfl), manager?_newManager, if_pos rfl]
      exact ⟨_, rfl, rfl⟩
    · rename_i hne
      have hother : r.registered? id ≠ some n := fun hid => hne (h.registeredOnce j id n hj hid)
      rw [hmanager, if_neg hother, manager?_newManager, if_neg (hfresh j n hj)]
      exact h.inUse j n hj
  case registeredOnce =>
    intro i j n hi hj
    rw [hregistered] at hi hj
    split at hi <;> split at hj
    · rename_i hi' hj'
      exact hi'.trans hj'.symm
    · cases hi
      exact absurd rfl (hfresh j _ hj)
    · cases hj
      exact absurd rfl (hfresh i _ hi)
    · exact h.registeredOnce i j n hi hj
  case dropped =>
    intro n m hm hfree
    rw [hmanager] at hm
    split at hm
    · obtain ⟨m₀, -, rfl⟩ := Option.map_eq_some_iff.mp hm
      exact ⟨rfl, m₀.isEmpty_entries_retire⟩
    · rename_i hold
      rw [manager?_newManager] at hm
      split at hm
      · rename_i hn
        exact absurd (by rw [hregistered, if_pos rfl, hn]) (hfree id)
      · refine h.dropped n m hm fun j hj => hfree j ?_
        rw [hregistered, if_neg]
        · exact hj
        · rintro rfl
          exact hold hj

/-- A manager that can still make an entry is registered, so making one keeps order. -/
theorem update (h : r.Orderly) {n : Nat} {m m' : Manager} {position : Nat} {state : Snapshot}
    {e : Entry} (hm : r.manager? n = some m) (hcreate : m.create position state = .ok (m', e)) :
    (r.update m').Orderly := by
  obtain ⟨hissues, rfl⟩ := Manager.issues_of_create hcreate
  have hplace : (m.adding e).id = n := h.numbered n m hm
  have hmanager : ∀ k, (r.update (m.adding e)).manager? k =
      if k = n then some (m.adding e) else r.manager? k :=
    fun k => hplace ▸ manager?_update (hplace ▸ hm) k
  constructor
  case numbered =>
    intro k m₁ hk
    rw [hmanager] at hk
    split at hk
    · rename_i heq
      cases hk
      exact hplace.trans heq.symm
    · exact h.numbered k m₁ hk
  case inUse =>
    intro j k hj
    rw [hmanager]
    split
    · exact ⟨m.adding e, rfl, hissues.active⟩
    · exact h.inUse j k hj
  case registeredOnce => exact h.registeredOnce
  case dropped =>
    intro k m₁ hk hfree
    rw [hmanager] at hk
    split at hk
    · rename_i heq
      subst heq
      have hdropped := (h.dropped k m hm hfree).1
      cases hissues.active.symm.trans hdropped
    · exact h.dropped k m₁ hk hfree

end Orderly

end Registry

end BaselineTier.Replacement
