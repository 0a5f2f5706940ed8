import Mathlib.Algebra.GroupWithZero.Nat
import Mathlib.Algebra.Order.BigOperators.Group.List
import Mathlib.Algebra.Order.Group.Nat
import BaselineTier.Proofs.Cache.Contents

/-! # Histories of the code cache

A cache is what its operations made of it.  A history is a list of operations, carried
out one after the other from an empty cache, and what is claimed of the cache is claimed
after every history.

The second half is about the sizes of entries.  Making room is described there through the
sizes alone: the fewest entries leave that have to, oldest first.
-/

set_option autoImplicit false

namespace BaselineTier.Cache

/-! ## Operations -/

/-- A request to the cache. -/
inductive Operation where
  | insert (id : FunctionId) (object : CodeObject)
  | lookup (id : FunctionId)
  | peek (id : FunctionId)
  | isInstalled (id : FunctionId) (object : CodeObject)
  | contains (id : FunctionId)
  | remove (id : FunctionId)
  /-- Evicts an entry to learn how many bytes that frees. -/
  | evict
  /-- Evicts an entry to have it. -/
  | evictEntry
  | clear

/-- The cache without code. -/
def withBudget (budget : Nat) : Cache := { budget }

@[simp] theorem stats_withBudget (budget : Nat) : (withBudget budget).stats = {} := rfl

@[simp] theorem count_withBudget (budget : Nat) : (withBudget budget).count = 0 := rfl

/-- The cache after an operation. -/
def after (c : Cache) : Operation → Cache
  | .insert id object => (c.insert id object).1
  | .lookup id => (c.lookup id).1
  | .peek _ | .isInstalled _ _ | .contains _ => c
  | .remove id => (c.remove id).1
  | .evict | .evictEntry => c.evict.1
  | .clear => c.clear

/-- The cache after several operations. -/
def afterAll (c : Cache) (ops : List Operation) : Cache :=
  ops.foldl after c

theorem afterAll_concat (c : Cache) (ops : List Operation) (op : Operation) :
    c.afterAll (ops ++ [op]) = (c.afterAll ops).after op := by
  simp [afterAll]

/-- What every operation keeps holds after every history. -/
theorem afterAll_induction {P : Cache → Prop} (hstep : ∀ c op, P c → P (c.after op))
    {c : Cache} (hc : P c) (ops : List Operation) : P (c.afterAll ops) := by
  induction ops generalizing c with
  | nil => exact hc
  | cons op ops ih => exact ih (hstep c op hc)

/-! ## Budgets and the oldest entry -/

theorem budget_remove (c : Cache) (id : FunctionId) : (c.remove id).1.budget = c.budget := by
  unfold remove
  split
  · rfl
  · rfl

/-- Eviction takes the last entry, if there is one. -/
theorem evict_cases (c : Cache) :
    (c.entries = [] ∧ c.evict = (c, none)) ∨
    ∃ rest oldest, c.entries = rest ++ [oldest] ∧
      c.evict =
        ({ c with
            entries := rest
            totalSize := c.totalSize - oldest.size
            stats := { c.stats with evictions := c.stats.evictions + 1 } }, some oldest) := by
  cases hlast : c.entries.getLast? with
  | none =>
    refine .inl ⟨List.getLast?_eq_none_iff.mp hlast, ?_⟩
    simp only [evict, hlast]
  | some oldest =>
    obtain ⟨rest, hrest⟩ := List.getLast?_eq_some_iff.mp hlast
    refine .inr ⟨rest, oldest, hrest, ?_⟩
    simp only [evict, hlast]
    rw [hrest, List.dropLast_concat]

/-- The budget is the same at all times. -/
theorem budget_after (c : Cache) (op : Operation) : (c.after op).budget = c.budget := by
  have hevict : c.evict.1.budget = c.budget := by
    rcases evict_cases c with ⟨-, hsame⟩ | ⟨rest, oldest, -, hevict⟩
    · rw [hsame]
    · rw [hevict]
  cases op with
  | insert id object => exact budget_remove c id
  | lookup id =>
    simp only [after, lookup]
    split
    · rfl
    · rfl
  | remove id => exact budget_remove c id
  | evict => exact hevict
  | evictEntry => exact hevict
  | peek id => rfl
  | isInstalled id object => rfl
  | contains id => rfl
  | clear => rfl

theorem budget_afterAll (c : Cache) (ops : List Operation) :
    (c.afterAll ops).budget = c.budget :=
  afterAll_induction (P := fun d => d.budget = c.budget)
    (fun d op hd => (budget_after d op).trans hd) rfl ops

/-! ## Sizes -/

/-- The bytes that entries have together. -/
def bytes (entries : List CacheEntry) : Nat :=
  (entries.map (·.size)).sum

theorem bytes_cons (e : CacheEntry) (entries : List CacheEntry) :
    bytes (e :: entries) = e.size + bytes entries := by
  rw [bytes, List.map_cons, List.sum_cons, bytes]

theorem bytes_reverse (entries : List CacheEntry) : bytes entries.reverse = bytes entries := by
  rw [bytes, List.map_reverse, List.sum_reverse, bytes]

/-- With distinct functions, an entry and those of other functions are all entries. -/
theorem perm_cons_filter_of_mem {xs : List CacheEntry} (h : (xs.map (·.id)).Nodup)
    {e : CacheEntry} (he : e ∈ xs) : xs.Perm (e :: xs.filter (·.id ≠ e.id)) := by
  induction xs with
  | nil => cases he
  | cons f xs ih =>
    simp only [List.map_cons, List.nodup_cons, List.mem_map, not_exists, not_and] at h
    rcases List.mem_cons.mp he with rfl | hrest
    · have hkeep : xs.filter (·.id ≠ e.id) = xs :=
        List.filter_eq_self.mpr fun g hg => by simpa using h.1 g hg
      rw [List.filter_cons_of_neg (by simp), hkeep]
    · have hne : f.id ≠ e.id := fun heq => h.1 e hrest heq.symm
      rw [List.filter_cons_of_pos (by simpa using hne)]
      exact ((ih h.2 hrest).cons f).trans (.swap e f _)

theorem perm_cons_filter {c : Cache} (h : c.recency.Nodup) {id : FunctionId}
    {object : CodeObject} (hpeek : c.peek? id = some object) :
    c.entries.Perm (⟨id, object⟩ :: c.entries.filter (·.id ≠ id)) :=
  perm_cons_filter_of_mem h ((peek?_eq_some_iff h).mp hpeek)

/-! ## Making room -/

/-- Whether entries leave room for `needed` more bytes. -/
def Fits (budget needed : Nat) (entries : List CacheEntry) : Prop :=
  bytes entries + needed ≤ budget

instance (budget needed : Nat) (entries : List CacheEntry) :
    Decidable (Fits budget needed entries) :=
  inferInstanceAs (Decidable (_ ≤ _))

/-- The fewest entries leave, oldest first, that have to for `needed` more bytes to fit
with the others; if they do not fit with any, all leave. -/
theorem exists_shed_eq (budget needed : Nat) (entries : List CacheEntry) :
    ∃ n, n ≤ entries.length ∧
      shed budget needed (bytes entries) entries =
        ⟨entries.take n, entries.drop n, bytes (entries.drop n)⟩ ∧
      (Fits budget needed (entries.drop n) ∨ n = entries.length) ∧
      ∀ m, m < n → ¬ Fits budget needed (entries.drop m) := by
  induction entries with
  | nil => exact ⟨0, Nat.le_refl _, rfl, .inr rfl, fun m hm => absurd hm (Nat.not_lt_zero m)⟩
  | cons oldest rest ih =>
    rw [shed]
    by_cases hfull : budget < bytes (oldest :: rest) + needed
    · obtain ⟨n, hle, hshed, hfits, hleast⟩ := ih
      have htotal : bytes (oldest :: rest) - oldest.size = bytes rest := by
        rw [bytes_cons, Nat.add_sub_cancel_left]
      refine ⟨n + 1, Nat.succ_le_succ hle, ?_, ?_, ?_⟩
      · rw [if_pos hfull, htotal, hshed]
        rfl
      · rw [List.drop_succ_cons, List.length_cons]
        exact hfits.imp_right (congrArg (· + 1))
      · intro m hm
        cases m with
        | zero => exact Nat.not_le_of_lt hfull
        | succ m => exact hleast m (Nat.lt_of_succ_lt_succ hm)
    · refine ⟨0, Nat.zero_le _, ?_, .inl (Nat.le_of_not_lt hfull), ?_⟩
      · rw [if_neg hfull]
        rfl
      · exact fun m hm => absurd hm (Nat.not_lt_zero m)

end BaselineTier.Cache
