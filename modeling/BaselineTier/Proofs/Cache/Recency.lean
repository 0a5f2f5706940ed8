import BaselineTier.Proofs.Cache.Accounting

/-! # Recency and eviction

The order of the entries is told by the history alone.  An operation touches a function
when it inserts code for it, or looks its code up while the cache has it; of two functions
in the cache, the one touched last comes first.  An insertion evicts from the other end, and
it returns exactly the functions that lose their code by it.

What the order depends on is one fact about single operations, `recency_after_cases`: the
touched function comes to the front, and all others stay in their order or leave.
-/

set_option autoImplicit false

namespace BaselineTier.Cache

/-! ## Touching -/

/-- The function that an operation makes the most recent: the one it inserts, or the one
it looks up if the cache has code for it. -/
def touched? (c : Cache) : Operation → Option FunctionId
  | .insert id _ => some id
  | .lookup id => if c.contains id then some id else none
  | _ => none

/-- A history from a cache touches a function at a time, the number of operations
before. -/
def TouchedAt (c : Cache) (ops : List Operation) (id : FunctionId) (time : Nat) : Prop :=
  ∃ op, ops[time]? = some op ∧ (c.afterAll (ops.take time)).touched? op = some id

/-- A history touches a function at a time and not afterwards. -/
structure LastTouchedAt (c : Cache) (ops : List Operation) (id : FunctionId) (time : Nat) :
    Prop where
  touched : TouchedAt c ops id time
  latest : ∀ later, TouchedAt c ops id later → later ≤ time

/-- A history touched the first function last after it touched the second one last. -/
def MoreRecent (c : Cache) (ops : List Operation) (i j : FunctionId) : Prop :=
  ∃ m n, LastTouchedAt c ops i m ∧ LastTouchedAt c ops j n ∧ n < m

theorem TouchedAt.lt_length {c : Cache} {ops : List Operation} {id : FunctionId} {time : Nat}
    (h : TouchedAt c ops id time) : time < ops.length := by
  obtain ⟨op, hop, -⟩ := h
  exact (List.getElem?_eq_some_iff.mp hop).1

/-- One more operation adds at most one time, the last one. -/
theorem touchedAt_concat {c : Cache} {ops : List Operation} {op : Operation}
    {id : FunctionId} {time : Nat} :
    TouchedAt c (ops ++ [op]) id time ↔
      TouchedAt c ops id time ∨
        (time = ops.length ∧ (c.afterAll ops).touched? op = some id) := by
  rcases Nat.lt_trichotomy time ops.length with hlt | rfl | hgt
  · have hne : time ≠ ops.length := Nat.ne_of_lt hlt
    simp [TouchedAt, List.getElem?_append_left hlt,
      List.take_append_of_le_length (Nat.le_of_lt hlt), hne]
  · simp [TouchedAt]
  · constructor
    · intro h
      have hlt := h.lt_length
      rw [List.length_append, List.length_singleton] at hlt
      omega
    · rintro (h | ⟨rfl, -⟩)
      · exact absurd h.lt_length (Nat.lt_asymm hgt)
      · exact absurd hgt (Nat.lt_irrefl _)

section Concat

variable {c : Cache} {ops : List Operation} {op : Operation} {id : FunctionId}

theorem LastTouchedAt.concat_of_touched (h : (c.afterAll ops).touched? op = some id) :
    LastTouchedAt c (ops ++ [op]) id ops.length where
  touched := touchedAt_concat.mpr (.inr ⟨rfl, h⟩)
  latest later hlater := by
    have hlt := hlater.lt_length
    rw [List.length_append, List.length_singleton] at hlt
    exact Nat.le_of_lt_succ hlt

theorem LastTouchedAt.concat_of_not_touched {time : Nat} (h : LastTouchedAt c ops id time)
    (hop : (c.afterAll ops).touched? op ≠ some id) :
    LastTouchedAt c (ops ++ [op]) id time where
  touched := touchedAt_concat.mpr (.inl h.touched)
  latest later hlater := by
    rcases touchedAt_concat.mp hlater with hbefore | ⟨-, htouched⟩
    · exact h.latest later hbefore
    · exact absurd htouched hop

/-- Functions that are not touched keep their ranks. -/
theorem MoreRecent.concat_of_not_touched {i j : FunctionId} (h : MoreRecent c ops i j)
    (hi : (c.afterAll ops).touched? op ≠ some i) (hj : (c.afterAll ops).touched? op ≠ some j) :
    MoreRecent c (ops ++ [op]) i j := by
  obtain ⟨m, n, hm, hn, hlt⟩ := h
  exact ⟨m, n, hm.concat_of_not_touched hi, hn.concat_of_not_touched hj, hlt⟩

end Concat

/-! ## One operation -/

theorem contains_iff_mem_recency {c : Cache} {id : FunctionId} :
    c.contains id = true ↔ id ∈ c.recency := by
  rw [contains, Option.isSome_iff_ne_none, ne_eq, peek?_eq_none_iff, Decidable.not_not]

theorem map_id_filter (entries : List CacheEntry) (id : FunctionId) :
    (entries.filter (·.id ≠ id)).map (·.id) = (entries.map (·.id)).filter (· ≠ id) := by
  rw [List.filter_map]
  rfl

/-- After an insertion its function comes first, and the others are split, from the oldest
on, into those that are evicted and those that are kept. -/
theorem exists_recency_insert (c : Cache) (id : FunctionId) (object : CodeObject) :
    ∃ kept, (c.insert id object).1.recency = id :: kept.reverse ∧
      (c.insert id object).2.map (·.id) ++ kept = (c.recency.filter (· ≠ id)).reverse := by
  obtain ⟨kept, hentries, hsplit⟩ := exists_kept_insert c id object
  refine ⟨kept.map (·.id), ?_, ?_⟩
  · rw [recency, hentries, List.map_cons, List.map_reverse]
  · rw [← List.map_append, hsplit, List.map_reverse, map_id_filter, recency]

/-- An operation that touches a function brings it to the front; all others stay in their
order or leave. -/
theorem recency_after_cases (c : Cache) (op : Operation) :
    (∃ id rest, c.touched? op = some id ∧ (c.after op).recency = id :: rest ∧
      rest.Sublist (c.recency.filter (· ≠ id))) ∨
    (c.touched? op = none ∧ (c.after op).recency.Sublist c.recency) := by
  have hevict : c.evict.1.recency.Sublist c.recency := by
    rcases evict_cases c with ⟨-, hsame⟩ | ⟨rest, oldest, hentries, hevict⟩
    · simp [hsame]
    · rw [hevict, recency, recency, hentries]
      exact (List.sublist_append_left rest [oldest]).map _
  cases op with
  | insert id object =>
    obtain ⟨kept, hrecency, hsplit⟩ := exists_recency_insert c id object
    have hkept : kept.Sublist (c.recency.filter (· ≠ id)).reverse :=
      hsplit ▸ List.sublist_append_right _ _
    refine .inl ⟨id, kept.reverse, rfl, hrecency, ?_⟩
    simpa using hkept.reverse
  | lookup id =>
    cases hpeek : c.peek? id with
    | some object =>
      refine .inl ⟨id, c.recency.filter (· ≠ id), ?_, ?_, List.Sublist.refl _⟩
      · rw [touched?, if_pos (contains_of_peek?_eq_some hpeek)]
      · simp only [after, lookup, hpeek, recency, List.map_cons, map_id_filter]
    | none =>
      refine .inr ⟨?_, ?_⟩
      · simp [touched?, contains_of_peek?_eq_none hpeek]
      · simp [after, lookup, hpeek, recency]
  | remove id =>
    refine .inr ⟨rfl, ?_⟩
    rw [after, recency, entries_remove]
    exact List.filter_sublist.map _
  | evict => exact .inr ⟨rfl, hevict⟩
  | evictEntry => exact .inr ⟨rfl, hevict⟩
  | clear => exact .inr ⟨rfl, List.nil_sublist _⟩
  | peek id => exact .inr ⟨rfl, List.Sublist.refl _⟩
  | isInstalled id object => exact .inr ⟨rfl, List.Sublist.refl _⟩
  | contains id => exact .inr ⟨rfl, List.Sublist.refl _⟩

/-! ## Whole histories -/

/-- The recency list is in the order of the last touches. -/
structure Ranked (c : Cache) (ops : List Operation) : Prop where
  touched : ∀ id ∈ (c.afterAll ops).recency, ∃ time, LastTouchedAt c ops id time
  ordered : (c.afterAll ops).recency.Pairwise (MoreRecent c ops)

theorem ranked_nil (budget : Nat) : Ranked (withBudget budget) [] where
  touched id hid := by cases hid
  ordered := .nil

namespace Ranked

variable {c : Cache} {ops : List Operation} {op : Operation}

/-- The touched function is the latest of all, and the others are neither touched nor
reordered. -/
theorem concat_of_touched (h : Ranked c ops) {front : FunctionId} {rest : List FunctionId}
    (htouched : (c.afterAll ops).touched? op = some front)
    (hrecency : ((c.afterAll ops).after op).recency = front :: rest)
    (hrest : rest.Sublist ((c.afterAll ops).recency.filter (· ≠ front))) :
    Ranked c (ops ++ [op]) := by
  have hother : ∀ j ∈ rest, (c.afterAll ops).touched? op ≠ some j := by
    intro j hj heq
    obtain ⟨-, hne⟩ := List.mem_filter.mp (hrest.subset hj)
    rw [htouched] at heq
    exact of_decide_eq_true hne (Option.some.inj heq).symm
  have hkept : rest.Sublist (c.afterAll ops).recency := hrest.trans List.filter_sublist
  have hfront := LastTouchedAt.concat_of_touched htouched
  have hearlier : ∀ j ∈ rest, ∃ time, LastTouchedAt c (ops ++ [op]) j time ∧
      time < ops.length := by
    intro j hj
    obtain ⟨time, htime⟩ := h.touched j (hkept.subset hj)
    exact ⟨time, htime.concat_of_not_touched (hother j hj), htime.touched.lt_length⟩
  constructor
  · rw [afterAll_concat, hrecency]
    intro id hid
    rcases List.mem_cons.mp hid with rfl | hid
    · exact ⟨_, hfront⟩
    · exact (hearlier id hid).imp fun _ htime => htime.1
  · rw [afterAll_concat, hrecency]
    refine .cons (fun j hj => ?_) ?_
    · obtain ⟨time, htime, hlt⟩ := hearlier j hj
      exact ⟨ops.length, time, hfront, htime, hlt⟩
    · exact (h.ordered.sublist hkept).imp_of_mem fun hi hj hmore =>
        hmore.concat_of_not_touched (hother _ hi) (hother _ hj)

theorem concat_of_not_touched (h : Ranked c ops)
    (huntouched : (c.afterAll ops).touched? op = none)
    (hkept : ((c.afterAll ops).after op).recency.Sublist (c.afterAll ops).recency) :
    Ranked c (ops ++ [op]) := by
  have hother : ∀ id, (c.afterAll ops).touched? op ≠ some id := by
    intro id heq
    rw [huntouched] at heq
    cases heq
  constructor
  · rw [afterAll_concat]
    intro id hid
    obtain ⟨time, htime⟩ := h.touched id (hkept.subset hid)
    exact ⟨time, htime.concat_of_not_touched (hother id)⟩
  · rw [afterAll_concat]
    exact (h.ordered.sublist hkept).imp fun hmore =>
      hmore.concat_of_not_touched (hother _) (hother _)

/-- Each operation keeps the order. -/
theorem concat (h : Ranked c ops) (op : Operation) : Ranked c (ops ++ [op]) := by
  rcases recency_after_cases (c.afterAll ops) op with
    ⟨front, rest, htouched, hrecency, hrest⟩ | ⟨huntouched, hkept⟩
  · exact h.concat_of_touched htouched hrecency hrest
  · exact h.concat_of_not_touched huntouched hkept

theorem append (h : Ranked c ops) (later : List Operation) : Ranked c (ops ++ later) := by
  induction later generalizing ops with
  | nil => rwa [List.append_nil]
  | cons op later ih =>
    have hnext := ih (h.concat op)
    rwa [List.append_assoc] at hnext

end Ranked

/-! ## Insertions -/

/-- Evicted functions are reported from the oldest on. -/
theorem evicted_sublist (c : Cache) (id : FunctionId) (object : CodeObject) :
    ((c.insert id object).2.map (·.id)).Sublist c.recency.reverse := by
  obtain ⟨kept, -, hsplit⟩ := exists_recency_insert c id object
  have hothers : ((c.insert id object).2.map (·.id)).Sublist
      (c.recency.filter (· ≠ id)).reverse :=
    hsplit ▸ List.sublist_append_left _ _
  exact hothers.trans List.filter_sublist.reverse

/-- The functions evicted by an insertion are those that lose their code by it. -/
theorem mem_evicted_iff {c : Cache} (h : c.recency.Nodup) (id : FunctionId)
    (object : CodeObject) (j : FunctionId) :
    j ∈ (c.insert id object).2.map (·.id) ↔
      j ≠ id ∧ c.contains j = true ∧ (c.insert id object).1.contains j = false := by
  obtain ⟨kept, hrecency, hsplit⟩ := exists_recency_insert c id object
  have hnodup : ((c.insert id object).2.map (·.id) ++ kept).Nodup := by
    rw [hsplit]
    exact (List.reverse_perm _).symm.nodup (h.sublist List.filter_sublist)
  have hdisjoint := (List.nodup_append.mp hnodup).2.2
  have hbefore : j ≠ id ∧ c.contains j = true ↔
      j ∈ (c.insert id object).2.map (·.id) ∨ j ∈ kept := by
    rw [← List.mem_append, hsplit, List.mem_reverse, List.mem_filter, contains_iff_mem_recency]
    simp [and_comm]
  have hafter : (c.insert id object).1.contains j = true ↔ j = id ∨ j ∈ kept := by
    rw [contains_iff_mem_recency, hrecency, List.mem_cons, List.mem_reverse]
  rw [← and_assoc, hbefore, ← Bool.not_eq_true, hafter]
  constructor
  · intro hvictim
    refine ⟨.inl hvictim, ?_⟩
    rintro (rfl | hkept)
    · exact (hbefore.mpr (.inl hvictim)).1 rfl
    · exact hdisjoint j hvictim j hkept rfl
  · rintro ⟨hvictim | hkept, hgone⟩
    · exact hvictim
    · exact absurd (.inr hkept) hgone

/-- Recency and eviction after every history from an empty cache.

* The recency list has exactly the functions that are in the cache, in the order of the
  last time that each was inserted or found by a lookup, latest first.
* An insertion that comes next returns the functions other than its own that lose their
  code by it, each once and the oldest first.  They are the first few of the others from
  the oldest on: as few as must go for the code to fit the budget with the rest, or all if
  it does not fit with any.  Those that stay keep their order behind the new entry. -/
theorem histories_order_entries (budget : Nat) (ops : List Operation) :
    let start := withBudget budget
    let c := start.afterAll ops
    (∀ id, id ∈ c.recency ↔ c.contains id = true) ∧
    (∀ id ∈ c.recency, ∃ time, LastTouchedAt start ops id time) ∧
    c.recency.Pairwise (MoreRecent start ops) ∧
    ∀ id object,
      let others := (c.entries.filter (·.id ≠ id)).reverse
      let result := c.insert id object
      let evicted := result.2.map (·.id)
      evicted.Nodup ∧
      evicted.Pairwise (fun i j => MoreRecent start ops j i) ∧
      (∀ j, j ∈ evicted ↔
        j ≠ id ∧ c.contains j = true ∧ result.1.contains j = false) ∧
      ∃ n, n ≤ others.length ∧
        result.2 = others.take n ∧
        result.1.entries = ⟨id, object⟩ :: (others.drop n).reverse ∧
        (Fits budget object.size (others.drop n) ∨ n = others.length) ∧
        ∀ m, m < n → ¬ Fits budget object.size (others.drop m) := by
  intro start c
  have h : c.Accounted := accounted_afterAll budget ops
  have hbudget : c.budget = budget := budget_afterAll start ops
  have hranked : Ranked start ops := (ranked_nil budget).append ops
  refine ⟨fun id => contains_iff_mem_recency.symm, hranked.touched, hranked.ordered,
    fun id object => ?_⟩
  have hevicted := evicted_sublist c id object
  have hnodup := ((List.reverse_perm _).symm.nodup h.distinct).sublist hevicted
  have holdest := (List.pairwise_reverse.mpr hranked.ordered).sublist hevicted
  obtain ⟨n, hle, hvictims, hentries, -, hfits, hleast⟩ := h.exists_insert_eq id object
  rw [hbudget] at hfits hleast
  exact ⟨hnodup, holdest, mem_evicted_iff h.distinct id object, n, hle, hvictims, hentries,
    hfits, hleast⟩

/-- Two lookups decide which two of four functions leave. -/
example :
    let code (stamp size : Nat) : CodeObject := ⟨stamp, ⟨List.replicate size 0x90, [], 0, []⟩⟩
    let c := (withBudget 100).afterAll
      [.insert ⟨0⟩ (code 0 25), .insert ⟨1⟩ (code 1 25), .insert ⟨2⟩ (code 2 25),
       .insert ⟨3⟩ (code 3 25), .lookup ⟨0⟩, .lookup ⟨2⟩]
    (c.insert ⟨9⟩ (code 4 50)).2.map (·.id) = [⟨1⟩, ⟨3⟩] := by
  decide

end BaselineTier.Cache
