import BaselineTier.Proofs.Cache.History

/-! # The accounts of the code cache

The cache keeps a total of bytes that each operation adjusts, and counts what happens to
it.  After every history the total is the sum of the sizes that are there, it is within
the budget unless one entry stands alone, and the counts balance: every insertion is
still there, or was evicted, replaced, removed or cleared.

Sizes are subtracted from the total.  Subtraction of natural numbers stops at zero, which
would hide a total that is too small; `SubtractionsDefined` says of an operation that none
of its subtractions stops there.
-/

set_option autoImplicit false

namespace BaselineTier.Cache

/-! ## The total -/

/-- The total is right, and within the budget but for an entry that stands alone. -/
structure Accounted (c : Cache) : Prop where
  distinct : c.recency.Nodup
  total : c.totalSize = bytes c.entries
  bounded : c.totalSize ≤ c.budget ∨ c.count = 1

theorem accounted_withBudget (budget : Nat) : (withBudget budget).Accounted where
  distinct := List.nodup_nil
  total := rfl
  bounded := .inl (Nat.zero_le budget)

namespace Accounted

variable {c : Cache}

/-- Entries may leave in any way, if the total follows. -/
theorem shrink (h : c.Accounted) {d : Cache} (hentries : d.entries.Sublist c.entries)
    (hbudget : d.budget = c.budget) (htotal : d.totalSize = bytes d.entries) :
    d.Accounted where
  distinct := h.distinct.sublist (hentries.map _)
  total := htotal
  bounded := by
    have hle : bytes d.entries ≤ bytes c.entries :=
      (hentries.map CacheEntry.size).sum_le_sum fun size _ => Nat.zero_le size
    rcases h.bounded with hwithin | hsingle
    · left
      rw [htotal, hbudget]
      exact Nat.le_trans hle (h.total ▸ hwithin)
    · have hlength : d.entries.length ≤ 1 := hsingle ▸ hentries.length_le
      rcases Nat.le_one_iff_eq_zero_or_eq_one.mp hlength with hnone | hone
      · left
        rw [htotal, List.eq_nil_of_length_eq_zero hnone]
        exact Nat.zero_le _
      · exact .inr hone

theorem bytes_eq_of_peek? (h : c.Accounted) {id : FunctionId} {object : CodeObject}
    (hpeek : c.peek? id = some object) :
    c.totalSize = object.size + bytes (c.entries.filter (·.id ≠ id)) := by
  have hperm := (perm_cons_filter h.distinct hpeek).map CacheEntry.size
  rw [h.total, bytes, hperm.sum_eq]
  exact bytes_cons ⟨id, object⟩ _

theorem lookup (h : c.Accounted) (id : FunctionId) : (c.lookup id).1.Accounted := by
  refine ⟨nodup_recency_lookup h.distinct id, ?_, ?_⟩
  · unfold Cache.lookup
    split
    · rename_i object hpeek
      exact h.bytes_eq_of_peek? hpeek
    · exact h.total
  · unfold Cache.lookup
    split
    · rename_i object hpeek
      refine h.bounded.imp_right fun hcount => ?_
      rw [← hcount]
      exact (perm_cons_filter h.distinct hpeek).length_eq.symm
    · exact h.bounded

theorem totalSize_remove (h : c.Accounted) (id : FunctionId) :
    (c.remove id).1.totalSize = bytes (c.remove id).1.entries := by
  unfold Cache.remove
  split
  · rename_i object hpeek
    exact Nat.sub_eq_of_eq_add' (h.bytes_eq_of_peek? hpeek)
  · exact h.total

theorem remove (h : c.Accounted) (id : FunctionId) : (c.remove id).1.Accounted := by
  refine h.shrink ?_ (budget_remove c id) (h.totalSize_remove id)
  rw [entries_remove]
  exact List.filter_sublist

theorem evict (h : c.Accounted) : c.evict.1.Accounted := by
  rcases evict_cases c with ⟨-, hsame⟩ | ⟨rest, oldest, hentries, hevict⟩
  · rw [hsame]
    exact h
  · rw [hevict]
    refine h.shrink ?_ rfl ?_
    · rw [hentries]
      exact List.sublist_append_left rest [oldest]
    · have htotal := h.total
      rw [hentries, bytes, List.map_append, List.sum_append, List.map_singleton,
        List.sum_singleton] at htotal
      exact Nat.sub_eq_of_eq_add htotal

/-- An insertion drops what the function had before and then the fewest entries that have
to go for the code to fit, oldest first. -/
theorem exists_insert_eq (h : c.Accounted) (id : FunctionId) (object : CodeObject) :
    let others := (c.entries.filter (·.id ≠ id)).reverse
    ∃ n, n ≤ others.length ∧
      (c.insert id object).2 = others.take n ∧
      (c.insert id object).1.entries = ⟨id, object⟩ :: (others.drop n).reverse ∧
      (c.insert id object).1.totalSize = bytes (others.drop n) + object.size ∧
      (Fits c.budget object.size (others.drop n) ∨ n = others.length) ∧
      ∀ m, m < n → ¬ Fits c.budget object.size (others.drop m) := by
  intro others
  obtain ⟨n, hle, hshed, hfits, hleast⟩ := exists_shed_eq c.budget object.size others
  have hothers : (c.remove id).1.entries.reverse = others := by rw [entries_remove]
  have htotal : (c.remove id).1.totalSize = bytes others := by
    rw [h.totalSize_remove id, ← hothers, bytes_reverse]
  refine ⟨n, hle, ?_, ?_, ?_, hfits, hleast⟩
  · simp only [Cache.insert, hothers, htotal, hshed]
  · simp only [Cache.insert, hothers, htotal, hshed]
  · simp only [Cache.insert, hothers, htotal, hshed]

theorem insert (h : c.Accounted) (id : FunctionId) (object : CodeObject) :
    (c.insert id object).1.Accounted := by
  obtain ⟨n, -, -, hentries, htotal, hfits, -⟩ := h.exists_insert_eq id object
  refine ⟨nodup_recency_insert h.distinct id object, ?_, ?_⟩
  · rw [htotal, hentries, bytes_cons, bytes_reverse, Nat.add_comm]
    rfl
  · rcases hfits with hfits | hall
    · left
      rw [htotal, show (c.insert id object).1.budget = c.budget from budget_remove c id]
      exact hfits
    · right
      rw [count, hentries, hall, List.drop_length]
      rfl

theorem clear (h : c.Accounted) : c.clear.Accounted :=
  h.shrink (List.nil_sublist _) rfl rfl

/-- Every operation keeps the total right. -/
theorem after (h : c.Accounted) (op : Operation) : (c.after op).Accounted := by
  cases op with
  | insert id object => exact h.insert id object
  | lookup id => exact h.lookup id
  | remove id => exact h.remove id
  | evict => exact h.evict
  | evictEntry => exact h.evict
  | clear => exact h.clear
  | peek id => exact h
  | isInstalled id object => exact h
  | contains id => exact h

end Accounted

theorem accounted_afterAll (budget : Nat) (ops : List Operation) :
    ((withBudget budget).afterAll ops).Accounted :=
  afterAll_induction (fun _ op h => h.after op) (accounted_withBudget budget) ops

/-! ## Subtractions -/

/-- While room is made, the total is at least the size that is taken from it. -/
def RoomDefined (budget needed : Nat) : Nat → List CacheEntry → Prop
  | _, [] => True
  | total, oldest :: rest =>
    budget < total + needed →
      oldest.size ≤ total ∧ RoomDefined budget needed (total - oldest.size) rest

/-- Whenever the operation takes the size of an entry from the total, the total is at least
that size. -/
def SubtractionsDefined (c : Cache) : Operation → Prop
  | .insert id object =>
    (∀ old, c.peek? id = some old → old.size ≤ c.totalSize) ∧
      RoomDefined c.budget object.size (c.remove id).1.totalSize
        (c.remove id).1.entries.reverse
  | .remove id => ∀ old, c.peek? id = some old → old.size ≤ c.totalSize
  | .evict | .evictEntry =>
    ∀ oldest, c.entries.getLast? = some oldest → oldest.size ≤ c.totalSize
  | .lookup _ | .peek _ | .isInstalled _ _ | .contains _ | .clear => True

theorem roomDefined_bytes (budget needed : Nat) (entries : List CacheEntry) :
    RoomDefined budget needed (bytes entries) entries := by
  induction entries with
  | nil => trivial
  | cons oldest rest ih =>
    intro _
    rw [bytes_cons, Nat.add_sub_cancel_left]
    exact ⟨Nat.le_add_right _ _, ih⟩

theorem Accounted.subtractionsDefined {c : Cache} (h : c.Accounted) (op : Operation) :
    c.SubtractionsDefined op := by
  have hdrop : ∀ id old, c.peek? id = some old → old.size ≤ c.totalSize := by
    intro id old hpeek
    rw [h.bytes_eq_of_peek? hpeek]
    exact Nat.le_add_right _ _
  have hlast : ∀ oldest, c.entries.getLast? = some oldest → oldest.size ≤ c.totalSize := by
    intro oldest holdest
    rw [h.total]
    exact List.le_sum_of_mem (List.mem_map_of_mem (List.mem_of_getLast? holdest))
  cases op with
  | insert id object =>
    refine ⟨hdrop id, ?_⟩
    rw [h.totalSize_remove id, ← bytes_reverse]
    exact roomDefined_bytes ..
  | remove id => exact hdrop id
  | evict => exact hlast
  | evictEntry => exact hlast
  | lookup id => trivial
  | peek id => trivial
  | isInstalled id object => trivial
  | contains id => trivial
  | clear => trivial

/-! ## Counts -/

/-- The sum, over a history, of what each operation is worth to the cache it meets. -/
def tally (worth : Cache → Operation → Nat) : Cache → List Operation → Nat
  | _, [] => 0
  | c, op :: ops => worth c op + tally worth (c.after op) ops

/-- How many lookups an operation is. -/
def lookups (_ : Cache) : Operation → Nat
  | .lookup _ => 1
  | _ => 0

/-- How many entries an operation replaces by new code of their function. -/
def replacements (c : Cache) : Operation → Nat
  | .insert id _ => if c.contains id then 1 else 0
  | _ => 0

/-- How many entries an operation removes. -/
def removals (c : Cache) : Operation → Nat
  | .remove id => if (c.remove id).2.isSome then 1 else 0
  | _ => 0

/-- How many entries an operation drops with all others. -/
def clearances (c : Cache) : Operation → Nat
  | .clear => c.count
  | _ => 0

theorem stats_remove (c : Cache) (id : FunctionId) : (c.remove id).1.stats = c.stats := by
  unfold remove
  split
  · rfl
  · rfl

theorem stats_insert (c : Cache) (id : FunctionId) (object : CodeObject) :
    (c.insert id object).1.stats =
      { c.stats with
        insertions := c.stats.insertions + 1
        evictions := c.stats.evictions + (c.insert id object).2.length } := by
  simp only [insert, stats_remove]

/-- Removing the entry of a function makes one entry less, if there is one. -/
theorem count_remove {c : Cache} (h : c.recency.Nodup) (id : FunctionId) :
    c.count = (c.remove id).1.count + if c.contains id then 1 else 0 := by
  unfold remove contains
  cases hpeek : c.peek? id with
  | some object => exact (perm_cons_filter h hpeek).length_eq
  | none => rfl

theorem isSome_remove (c : Cache) (id : FunctionId) :
    (c.remove id).2.isSome = c.contains id := by
  unfold remove contains
  cases hpeek : c.peek? id with
  | some object => rfl
  | none => rfl

/-- The entries other than the one inserted are evicted or stay. -/
theorem count_insert (c : Cache) (id : FunctionId) (object : CodeObject) :
    (c.insert id object).1.count + (c.insert id object).2.length =
      (c.remove id).1.count + 1 := by
  obtain ⟨kept, hentries, hsplit⟩ := exists_kept_insert c id object
  have hlength := congrArg List.length hsplit
  rw [List.length_append, List.length_reverse, ← entries_remove] at hlength
  rw [count, count, hentries, List.length_cons, List.length_reverse, ← hlength]
  omega

theorem hits_add_misses_after (c : Cache) (op : Operation) :
    (c.after op).stats.hits + (c.after op).stats.misses =
      c.stats.hits + c.stats.misses + lookups c op := by
  have hevict : c.evict.1.stats.hits = c.stats.hits ∧ c.evict.1.stats.misses = c.stats.misses := by
    rcases evict_cases c with ⟨-, hsame⟩ | ⟨rest, oldest, -, hevict⟩
    · rw [hsame]
      exact ⟨rfl, rfl⟩
    · rw [hevict]
      exact ⟨rfl, rfl⟩
  cases op with
  | lookup id =>
    simp only [after, lookup, lookups]
    split
    · exact Nat.add_right_comm ..
    · exact (Nat.add_assoc ..).symm
  | insert id object => simp only [after, stats_insert, lookups, Nat.add_zero]
  | remove id => simp only [after, lookups, stats_remove, Nat.add_zero]
  | evict => simp only [after, lookups, hevict, Nat.add_zero]
  | evictEntry => simp only [after, lookups, hevict, Nat.add_zero]
  | peek id => rfl
  | isInstalled id object => rfl
  | contains id => rfl
  | clear => rfl

/-- One operation keeps the balance: what it inserts is there afterwards, and what leaves
by it is counted in one of the four ways. -/
theorem insertions_after {c : Cache} (h : c.recency.Nodup) (op : Operation) :
    (c.after op).stats.insertions + (c.count + c.stats.evictions) =
      c.stats.insertions + ((c.after op).count + (c.after op).stats.evictions +
        replacements c op + removals c op + clearances c op) := by
  have hevict : c.evict.1.stats.insertions + (c.count + c.stats.evictions) =
      c.stats.insertions + (c.evict.1.count + c.evict.1.stats.evictions) := by
    rcases evict_cases c with ⟨-, hsame⟩ | ⟨rest, oldest, hentries, hevict⟩
    · rw [hsame]
    · simp only [hevict, count, hentries, List.length_append, List.length_singleton]
      omega
  cases op with
  | insert id object =>
    have hbefore := count_remove h id
    have hafter := count_insert c id object
    simp only [after, stats_insert, replacements, removals, clearances, hbefore]
    omega
  | remove id =>
    have hbefore := count_remove h id
    simp only [after, replacements, removals, clearances, stats_remove, isSome_remove, hbefore]
    omega
  | lookup id =>
    simp only [after, lookup, replacements, removals, clearances]
    split
    · rename_i object hpeek
      have hlength := (perm_cons_filter h hpeek).length_eq
      simp only [count, hlength, List.length_cons]
      omega
    · rfl
  | evict => exact hevict
  | evictEntry => exact hevict
  | clear =>
    simp only [after, clear, count, replacements, removals, clearances, List.length_nil]
    omega
  | peek id => rfl
  | isInstalled id object => rfl
  | contains id => rfl

theorem hits_add_misses_afterAll (c : Cache) (ops : List Operation) :
    (c.afterAll ops).stats.hits + (c.afterAll ops).stats.misses =
      c.stats.hits + c.stats.misses + tally lookups c ops := by
  induction ops generalizing c with
  | nil => rfl
  | cons op ops ih =>
    have hrest : c.afterAll (op :: ops) = (c.after op).afterAll ops := rfl
    rw [hrest, ih, hits_add_misses_after, tally, Nat.add_assoc]

theorem insertions_afterAll {c : Cache} (h : c.Accounted) (ops : List Operation) :
    (c.afterAll ops).stats.insertions + (c.count + c.stats.evictions) =
      c.stats.insertions + ((c.afterAll ops).count + (c.afterAll ops).stats.evictions +
        tally replacements c ops + tally removals c ops + tally clearances c ops) := by
  induction ops generalizing c with
  | nil => rfl
  | cons op ops ih =>
    have hrest : c.afterAll (op :: ops) = (c.after op).afterAll ops := rfl
    have hstep := insertions_after h.distinct op
    have hlater := ih (h.after op)
    rw [hrest]
    simp only [tally]
    omega

/-- The accounts of the cache are right after every history from an empty cache:

* the total is the sum of the sizes of the entries, whose functions are distinct;
* the total is within the budget, or there is exactly one entry;
* no operation that may come next takes more from the total than there is;
* hits and misses are the lookups, and the insertions are the entries that are there and
  those that were evicted, replaced, removed or cleared. -/
theorem histories_keep_accounts (budget : Nat) (ops : List Operation) :
    let c := (withBudget budget).afterAll ops
    c.totalSize = bytes c.entries ∧
    c.recency.Nodup ∧
    (c.totalSize ≤ budget ∨ c.count = 1) ∧
    (∀ op, c.SubtractionsDefined op) ∧
    c.stats.hits + c.stats.misses = tally lookups (withBudget budget) ops ∧
    c.stats.insertions = c.count + c.stats.evictions +
      tally replacements (withBudget budget) ops + tally removals (withBudget budget) ops +
      tally clearances (withBudget budget) ops := by
  intro c
  have h : c.Accounted := accounted_afterAll budget ops
  have hbounded := h.bounded
  rw [show c.budget = budget from budget_afterAll (withBudget budget) ops] at hbounded
  refine ⟨h.total, h.distinct, hbounded, h.subtractionsDefined, ?_, ?_⟩
  · have hlookups : c.stats.hits + c.stats.misses = _ :=
      hits_add_misses_afterAll (withBudget budget) ops
    simpa using hlookups
  · have hinsertions : c.stats.insertions + _ = _ :=
      insertions_afterAll (accounted_withBudget budget) ops
    simpa using hinsertions

end BaselineTier.Cache
