import BaselineTier.Cache

/-! # Contents of the code cache

Each operation of the cache is described by what it does to `peek?`, the code of a
function.  Only an insertion touches functions other than the one it is about, and
then only those it returns as evicted.  All of this rests on the functions in the
recency list being distinct, which every operation keeps.
-/

set_option autoImplicit false

namespace BaselineTier.Cache

/-! ## Entries -/

/-- With distinct functions, the code of a function is what its entry says. -/
theorem peek?_eq_some_iff {c : Cache} (h : c.recency.Nodup) {id : FunctionId}
    {object : CodeObject} : c.peek? id = some object ↔ ⟨id, object⟩ ∈ c.entries := by
  obtain ⟨budget, entries, total, stats⟩ := c
  simp only [recency, peek?] at h ⊢
  induction entries with
  | nil => simp
  | cons e entries ih =>
    simp only [List.map_cons, List.nodup_cons] at h
    by_cases hid : e.id = id
    · have hfresh : ⟨id, object⟩ ∉ entries := fun hmem =>
        h.1 (List.mem_map.mpr ⟨_, hmem, hid.symm⟩)
      obtain ⟨eid, eobject⟩ := e
      subst hid
      simp [hfresh, eq_comm]
    · have hne : ⟨id, object⟩ ≠ e := fun heq => hid (by rw [← heq])
      simp [hid, hne, ih h.2]

theorem peek?_eq_none_iff {c : Cache} {id : FunctionId} :
    c.peek? id = none ↔ id ∉ c.recency := by
  simp [peek?, recency, List.find?_eq_none]

theorem contains_of_peek?_eq_some {c : Cache} {id : FunctionId} {object : CodeObject}
    (h : c.peek? id = some object) : c.contains id = true := by
  simp [contains, h]

theorem contains_of_peek?_eq_none {c : Cache} {id : FunctionId} (h : c.peek? id = none) :
    c.contains id = false := by
  simp [contains, h]

theorem peek?_filter_of_ne {c : Cache} {j id : FunctionId} (hne : j ≠ id) :
    (c.entries.filter (·.id ≠ id)).find? (·.id = j) = c.entries.find? (·.id = j) := by
  rw [List.find?_filter]
  congr 1
  funext e
  by_cases he : e.id = j
  · simp [he, hne]
  · simp [he]

theorem nodup_filter {c : Cache} (h : c.recency.Nodup) (id : FunctionId) :
    ((c.entries.filter (·.id ≠ id)).map (·.id)).Nodup :=
  h.sublist (List.filter_sublist.map _)

/-! ## Looking code up and removing it -/

theorem peek?_lookup (c : Cache) (id j : FunctionId) :
    (c.lookup id).1.peek? j = c.peek? j := by
  unfold lookup
  split
  · rename_i object hobject
    by_cases hj : j = id
    · subst hj
      rw [hobject]
      simp [peek?]
    · have hne : id ≠ j := Ne.symm hj
      simp only [peek?, List.find?_cons, hne, decide_false, peek?_filter_of_ne hj]
  · rfl

theorem nodup_recency_lookup {c : Cache} (h : c.recency.Nodup) (id : FunctionId) :
    (c.lookup id).1.recency.Nodup := by
  unfold lookup
  split
  · refine List.nodup_cons.mpr ⟨?_, nodup_filter h id⟩
    simp
  · exact h

theorem entries_remove (c : Cache) (id : FunctionId) :
    (c.remove id).1.entries = c.entries.filter (·.id ≠ id) := by
  unfold remove
  split
  · rfl
  · rename_i hnone
    symm
    rw [List.filter_eq_self]
    intro e he
    have hne : e.id ≠ id := fun heq =>
      peek?_eq_none_iff.mp hnone (List.mem_map.mpr ⟨e, he, heq⟩)
    simpa using hne

theorem peek?_remove_self (c : Cache) (id : FunctionId) : (c.remove id).1.peek? id = none := by
  rw [peek?_eq_none_iff, recency, entries_remove]
  simp

theorem peek?_remove_of_ne (c : Cache) {j id : FunctionId} (hne : j ≠ id) :
    (c.remove id).1.peek? j = c.peek? j := by
  simp only [peek?, entries_remove, peek?_filter_of_ne hne]

theorem nodup_recency_remove {c : Cache} (h : c.recency.Nodup) (id : FunctionId) :
    (c.remove id).1.recency.Nodup := by
  rw [recency, entries_remove]
  exact nodup_filter h id

/-! ## Inserting code -/

/-- Making room splits the entries into those that leave and those that stay. -/
theorem victims_append_kept (budget needed total : Nat) (entries : List CacheEntry) :
    (shed budget needed total entries).victims ++ (shed budget needed total entries).kept =
      entries := by
  induction entries generalizing total with
  | nil => rfl
  | cons oldest rest ih =>
    unfold shed
    split
    · exact congrArg (oldest :: ·) (ih (total - oldest.size))
    · rfl

/-- After an insertion the entries are the new one and what was kept of the others;
the victims are the rest of the others. -/
theorem exists_kept_insert (c : Cache) (id : FunctionId) (object : CodeObject) :
    ∃ kept, (c.insert id object).1.entries = ⟨id, object⟩ :: kept.reverse ∧
      (c.insert id object).2 ++ kept = (c.entries.filter (·.id ≠ id)).reverse := by
  refine ⟨_, rfl, ?_⟩
  rw [← entries_remove]
  exact victims_append_kept ..

theorem nodup_recency_insert {c : Cache} (h : c.recency.Nodup) (id : FunctionId)
    (object : CodeObject) : (c.insert id object).1.recency.Nodup := by
  obtain ⟨kept, hentries, hsplit⟩ := exists_kept_insert c id object
  have hsublist : kept.reverse.Sublist (c.entries.filter (·.id ≠ id)) := by
    have hkept : kept.Sublist (c.entries.filter (·.id ≠ id)).reverse :=
      hsplit ▸ List.sublist_append_right _ _
    simpa using hkept.reverse
  rw [recency, hentries, List.map_cons]
  refine List.nodup_cons.mpr ⟨?_, (nodup_filter h id).sublist (hsublist.map _)⟩
  intro hmem
  obtain ⟨e, he, heq⟩ := List.mem_map.mp hmem
  have hne := (List.mem_filter.mp (hsublist.subset he)).2
  simp [heq] at hne

@[simp] theorem peek?_insert_self (c : Cache) (id : FunctionId) (object : CodeObject) :
    (c.insert id object).1.peek? id = some object := by
  simp [peek?, insert]

/-- A function other than the inserted one keeps its code or is evicted. -/
theorem peek?_insert_of_ne {c : Cache} (h : c.recency.Nodup) {j id : FunctionId}
    (hne : j ≠ id) (object : CodeObject) {o : CodeObject} (hj : c.peek? j = some o) :
    (c.insert id object).1.peek? j = some o ∨
      j ∈ (c.insert id object).2.map (·.id) := by
  obtain ⟨kept, hentries, hsplit⟩ := exists_kept_insert c id object
  have hmem : ⟨j, o⟩ ∈ (c.insert id object).2 ++ kept := by
    rw [hsplit, List.mem_reverse, List.mem_filter]
    exact ⟨(peek?_eq_some_iff h).mp hj, by simpa using hne⟩
  rcases List.mem_append.mp hmem with hvictim | hkept
  · exact .inr (List.mem_map.mpr ⟨_, hvictim, rfl⟩)
  · refine .inl ((peek?_eq_some_iff (nodup_recency_insert h id object)).mpr ?_)
    rw [hentries]
    exact List.mem_cons_of_mem _ (List.mem_reverse.mpr hkept)

/-- Inserting brings no other code into the cache. -/
theorem mem_entries_insert {c : Cache} {id : FunctionId} {object : CodeObject} {e : CacheEntry}
    (he : e ∈ (c.insert id object).1.entries) : e = ⟨id, object⟩ ∨ e ∈ c.entries := by
  obtain ⟨kept, hentries, hsplit⟩ := exists_kept_insert c id object
  rw [hentries] at he
  rcases List.mem_cons.mp he with rfl | he
  · exact .inl rfl
  · have hsplitMem : e ∈ (c.insert id object).2 ++ kept :=
      List.mem_append_right _ (List.mem_reverse.mp he)
    rw [hsplit, List.mem_reverse] at hsplitMem
    exact .inr (List.mem_filter.mp hsplitMem).1

theorem peek?_of_peek?_insert {c : Cache} (h : c.recency.Nodup) {j id : FunctionId}
    (hne : j ≠ id) {object o : CodeObject} (hj : (c.insert id object).1.peek? j = some o) :
    c.peek? j = some o := by
  have hmem := (peek?_eq_some_iff (nodup_recency_insert h id object)).mp hj
  rcases mem_entries_insert hmem with heq | hold
  · exact absurd (congrArg CacheEntry.id heq) hne
  · exact (peek?_eq_some_iff h).mpr hold

end BaselineTier.Cache
