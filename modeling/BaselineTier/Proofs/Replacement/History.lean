import BaselineTier.Proofs.Replacement.Registry

/-! # Histories of entry managers

Managers are made and then asked, in any order, to make entries, to hand out and perform
entries, and to drop them.  A history is the list of everything that was asked of all of
them, and an event of it has a time: the number of requests before.

A request concerns one manager.  What it can do to that manager is said once, in
`after_cases`; all other managers stay as they are.
-/

set_option autoImplicit false

namespace BaselineTier.Replacement

namespace Manager

/-! ## Requests to one manager -/

/-- What a manager can be asked. -/
inductive Request where
  | create (position : Nat) (state : Snapshot)
  | createAt (position offset : Nat) (state : Snapshot)
  | clear
  | retire
  | entry (position : Nat)
  | perform (entry : Entry)

namespace Request

/-- Whether a request drops all entries of its manager. -/
def drops : Request → Bool
  | .clear | .retire => true
  | _ => false

end Request

/-- The outcome of a request to make an entry. -/
def attempt? (m : Manager) : Request → Option (Except ReplacementError (Manager × Entry))
  | .create position state => some (m.create position state)
  | .createAt position offset state => some (m.createAt position offset state)
  | _ => none

/-- The entry that a request makes. -/
def made? (m : Manager) (q : Request) : Option Entry :=
  match m.attempt? q with
  | some (.ok (_, e)) => some e
  | _ => none

/-- The manager after a request. -/
def after (m : Manager) (q : Request) : Manager :=
  match m.attempt? q, q with
  | some (.ok (updated, _)), _ => updated
  | _, .clear => m.clear
  | _, .retire => m.retire
  | _, _ => m

theorem issues_of_attempt? {m m' : Manager} {q : Request} {e : Entry}
    (h : m.attempt? q = some (.ok (m', e))) : m.Issues e ∧ m' = m.adding e := by
  cases q with
  | create position state => exact issues_of_create (Option.some.inj h)
  | createAt position offset state => exact issues_of_createAt (Option.some.inj h)
  | clear => cases h
  | retire => cases h
  | entry position => cases h
  | perform entry => cases h

/-- A request that is no attempt, or one that fails, makes no entry and changes the manager
only if it drops the entries. -/
theorem after_of_made?_eq_none {m : Manager} {q : Request} (h : m.made? q = none) :
    m.after q =
      match q with
      | .clear => m.clear
      | .retire => m.retire
      | _ => m := by
  cases hattempt : m.attempt? q with
  | none => cases q <;> simp only [after, hattempt]
  | some answer =>
    cases answer with
    | error cause => cases q <;> simp only [after, hattempt]
    | ok made => simp [made?, hattempt] at h

/-- A failed attempt to make an entry changes nothing. -/
theorem after_of_attempt?_eq_error {m : Manager} {q : Request} {cause : ReplacementError}
    (h : m.attempt? q = some (.error cause)) : m.after q = m := by
  cases q with
  | clear => cases h
  | retire => cases h
  | _ => simp only [after, h]

/-- All that a request can do to its manager: it adds an entry, drops all entries, or
changes nothing. -/
theorem after_cases (m : Manager) (q : Request) :
    (∃ e, m.made? q = some e ∧ q.drops = false ∧ m.Issues e ∧ m.after q = m.adding e) ∨
    (q = .clear ∧ m.made? q = none ∧ m.after q = m.clear) ∨
    (q = .retire ∧ m.made? q = none ∧ m.after q = m.retire) ∨
    (q.drops = false ∧ m.made? q = none ∧ m.after q = m) := by
  cases hmade : m.made? q with
  | none =>
    have hafter := after_of_made?_eq_none hmade
    cases q with
    | clear => exact .inr (.inl ⟨rfl, rfl, hafter⟩)
    | retire => exact .inr (.inr (.inl ⟨rfl, rfl, hafter⟩))
    | create position state => exact .inr (.inr (.inr ⟨rfl, rfl, hafter⟩))
    | createAt position offset state => exact .inr (.inr (.inr ⟨rfl, rfl, hafter⟩))
    | entry position => exact .inr (.inr (.inr ⟨rfl, rfl, hafter⟩))
    | perform entry => exact .inr (.inr (.inr ⟨rfl, rfl, hafter⟩))
  | some e =>
    unfold made? at hmade
    split at hmade
    · rename_i m' e' hattempt
      cases hmade
      obtain ⟨hissues, hm'⟩ := issues_of_attempt? hattempt
      have hdrops : q.drops = false := by
        cases q with
        | clear => cases hattempt
        | retire => cases hattempt
        | _ => rfl
      refine .inl ⟨e, rfl, hdrops, hissues, ?_⟩
      simp only [after, hattempt, hm']
    · cases hmade

theorem id_after (m : Manager) (q : Request) : (m.after q).id = m.id := by
  rcases m.after_cases q with ⟨e, -, -, -, h⟩ | ⟨-, -, h⟩ | ⟨-, -, h⟩ | ⟨-, -, h⟩
  · rw [h]; rfl
  · rw [h]; rfl
  · rw [h]; rfl
  · rw [h]

end Manager

namespace Registry

/-! ## Histories -/

/-- A manager is made, or the manager with a number is asked something. -/
inductive Operation where
  | make (object : CodeObject)
  | ask (manager : Nat) (request : Manager.Request)

/-- All managers after an operation.  Nothing is asked of a manager that does not exist. -/
def after (r : Registry) : Operation → Registry
  | .make object => (r.newManager object).1
  | .ask n q =>
    match r.manager? n with
    | some m => r.update (m.after q)
    | none => r

/-- All managers after a history that began with none. -/
def afterHistory (ops : List Operation) : Registry :=
  ops.foldl after {}

theorem afterHistory_concat (ops : List Operation) (op : Operation) :
    afterHistory (ops ++ [op]) = (afterHistory ops).after op := by
  simp [afterHistory]

theorem manager?_make (r : Registry) (object : CodeObject) (n : Nat) :
    (r.after (.make object)).manager? n =
      if n = r.managers.size then some { id := n, object } else r.manager? n :=
  manager?_newManager r object n

theorem manager?_ask {r : Registry} (hr : r.Numbered) (k : Nat) (q : Manager.Request) (n : Nat) :
    (r.after (.ask k q)).manager? n =
      if k = n then (r.manager? n).map (·.after q) else r.manager? n := by
  cases hk : r.manager? k with
  | none =>
    simp only [after, hk]
    split
    · rename_i heq
      rw [← heq, hk, Option.map_none]
    · rfl
  | some m =>
    have hid : (m.after q).id = k := (m.id_after q).trans (hr k m hk)
    simp only [after, hk]
    rw [manager?_update (hid ▸ hk), hid]
    by_cases heq : k = n
    · subst heq
      rw [if_pos rfl, if_pos rfl, hk, Option.map_some]
    · rw [if_neg (Ne.symm heq), if_neg heq]

/-- A request that leaves its manager alone leaves all managers alone. -/
theorem after_ask_of_after_eq {r : Registry} (hr : r.Numbered) {n : Nat} {m : Manager}
    (hm : r.manager? n = some m) {q : Manager.Request} (hq : m.after q = m) :
    r.after (.ask n q) = r := by
  have hget : r.managers[m.id]? = some m := by
    rw [hr n m hm]
    exact hm
  have hsame : r.managers.setIfInBounds m.id m = r.managers := by
    apply Array.ext_getElem?
    intro i
    rw [Array.getElem?_setIfInBounds]
    split
    · rename_i heq
      rw [if_pos (Array.getElem?_eq_some_iff.mp hget).1, ← heq, hget]
    · rfl
  simp only [after, hm, hq, update, hsame]

/-! ## Events -/

/-- At a time, a manager is asked something as described. -/
def HappensAt (ops : List Operation) (n : Nat) (P : Manager → Manager.Request → Prop)
    (time : Nat) : Prop :=
  ∃ m q, ops[time]? = some (.ask n q) ∧
    (afterHistory (ops.take time)).manager? n = some m ∧ P m q

/-- At a time, a manager makes an entry. -/
def MadeAt (ops : List Operation) (n : Nat) (e : Entry) (time : Nat) : Prop :=
  HappensAt ops n (fun m q => m.made? q = some e) time

/-- At a time, a manager is cleared or retired. -/
def DroppedAt (ops : List Operation) (n : Nat) (time : Nat) : Prop :=
  HappensAt ops n (fun _ q => q.drops = true) time

/-- After a time, a manager is cleared or retired. -/
def DroppedSince (ops : List Operation) (n : Nat) (time : Nat) : Prop :=
  ∃ other, time < other ∧ DroppedAt ops n other

/-- At a time, a manager is retired. -/
def RetiredAt (ops : List Operation) (n : Nat) (time : Nat) : Prop :=
  HappensAt ops n (fun _ q => q = .retire) time

section Concat

variable {ops : List Operation} {n : Nat} {P : Manager → Manager.Request → Prop} {time : Nat}

theorem HappensAt.lt_length (h : HappensAt ops n P time) : time < ops.length := by
  obtain ⟨m, q, hop, -⟩ := h
  exact (List.getElem?_eq_some_iff.mp hop).1

/-- One more operation adds at most one event, at the last time. -/
theorem happensAt_concat {op : Operation} :
    HappensAt (ops ++ [op]) n P time ↔
      HappensAt ops n P time ∨ (time = ops.length ∧
        ∃ m q, op = .ask n q ∧ (afterHistory ops).manager? n = some m ∧ P m q) := by
  rcases Nat.lt_trichotomy time ops.length with hlt | rfl | hgt
  · have hne : time ≠ ops.length := Nat.ne_of_lt hlt
    simp [HappensAt, List.getElem?_append_left hlt,
      List.take_append_of_le_length (Nat.le_of_lt hlt), hne]
  · simp [HappensAt]
  · constructor
    · intro h
      have hlt := h.lt_length
      rw [List.length_append, List.length_singleton] at hlt
      omega
    · rintro (h | ⟨rfl, -⟩)
      · exact absurd h.lt_length (Nat.lt_asymm hgt)
      · exact absurd hgt (Nat.lt_irrefl _)

/-- A manager has no part in what is asked of another one, or in the making of one. -/
theorem happensAt_concat_of_ne {op : Operation} (hop : ∀ q, op ≠ .ask n q) :
    HappensAt (ops ++ [op]) n P time ↔ HappensAt ops n P time := by
  rw [happensAt_concat]
  constructor
  · rintro (h | ⟨-, m, q, heq, -⟩)
    · exact h
    · exact absurd heq (hop q)
  · exact .inl

theorem happensAt_concat_ask {m : Manager} (hm : (afterHistory ops).manager? n = some m)
    (q : Manager.Request) :
    HappensAt (ops ++ [.ask n q]) n P time ↔
      HappensAt ops n P time ∨ (time = ops.length ∧ P m q) := by
  rw [happensAt_concat]
  constructor
  · rintro (h | ⟨htime, m', q', heq, hm', hP⟩)
    · exact .inl h
    · cases heq
      rw [hm] at hm'
      cases hm'
      exact .inr ⟨htime, hP⟩
  · rintro (h | ⟨htime, hP⟩)
    · exact .inl h
    · exact .inr ⟨htime, m, q, rfl, hm, hP⟩

end Concat

end Registry

end BaselineTier.Replacement
