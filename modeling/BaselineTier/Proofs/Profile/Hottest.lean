import Mathlib.Order.Bounds.Basic
import BaselineTier.Profile
import BaselineTier.Proofs.Table

/-! # The hottest back edge

A profile is told of calls and back edges one at a time, and asked now and then which back
edge is the hottest.  The answer is a matter of how often each position was recorded: the
largest count, and the lowest of the positions that reach it.

Bindings of a table have no order of their own, so the answer may not depend on one.  `hotter`
compares any two different bindings, in one direction only; a listing of the bindings then has
one hottest member, which `IsHottest` describes through membership alone.
-/

set_option autoImplicit false

namespace BaselineTier.Profile

/-! ## The order of back edges -/

section Order

variable {a b c : Nat × Nat}

theorem hotter_iff : hotter a b = true ↔ b.2 < a.2 ∨ a.2 = b.2 ∧ a.1 < b.1 := by
  simp only [hotter, Bool.or_eq_true, Bool.and_eq_true, decide_eq_true_eq, beq_iff_eq]

theorem hotter_trans (hab : hotter a b = true) (hbc : hotter b c = true) :
    hotter a c = true := by
  rw [hotter_iff] at *
  omega

theorem hotter_asymm (hab : hotter a b = true) : hotter b a = false := by
  rw [← Bool.not_eq_true]
  rw [hotter_iff] at *
  omega

theorem hotter_of_ne (hne : a ≠ b) (hba : hotter b a = false) : hotter a b = true := by
  have hdiffers : a.1 ≠ b.1 ∨ a.2 ≠ b.2 := by
    rw [ne_eq, Prod.ext_iff] at hne
    omega
  rw [← Bool.not_eq_true] at hba
  rw [hotter_iff] at *
  omega

/-- Back edges compared by their counts, and at equal counts by their positions, the lower
one being the greater. -/
def warmth (a b : Nat × Nat) : Ordering :=
  (compare a.2 b.2).then (compare b.1 a.1)

theorem warmth_eq_gt_iff : warmth a b = .gt ↔ hotter a b = true := by
  rw [warmth, Ordering.then_eq_gt, Nat.compare_eq_gt, Nat.compare_eq_gt, Nat.compare_eq_eq,
    hotter_iff]

end Order

/-! ## The greatest of a listing -/

/-- The greater of two; the later one, if the comparison does not decide. -/
def laterGreater {α : Type} (compared : α → α → Ordering) (best next : α) : α :=
  if compared best next = .gt then best else next

/-- The greatest of a listing, and the last one if there are several. -/
def lastGreatest? {α : Type} (compared : α → α → Ordering) : List α → Option α
  | [] => none
  | first :: rest => some (rest.foldl (laterGreater compared) first)

/-- A member of a listing that is hotter than all others. -/
structure IsHottest (edges : List (Nat × Nat)) (best : Nat × Nat) : Prop where
  mem : best ∈ edges
  beats : ∀ edge ∈ edges, edge = best ∨ hotter best edge = true

namespace IsHottest

variable {edges others : List (Nat × Nat)} {best other : Nat × Nat}

theorem unique (h : IsHottest edges best) (h' : IsHottest edges other) : best = other := by
  rcases h'.beats best h.mem with heq | hbest
  · exact heq
  rcases h.beats other h'.mem with heq | hother
  · exact heq.symm
  · rw [hotter_asymm hother] at hbest
    cases hbest

theorem perm (hperm : others.Perm edges) (h : IsHottest edges best) : IsHottest others best where
  mem := hperm.mem_iff.mpr h.mem
  beats edge hedge := h.beats edge (hperm.mem_iff.mp hedge)

/-- The greater of the first two may stand for both. -/
theorem of_laterGreater {first second : Nat × Nat}
    (h : IsHottest (laterGreater warmth first second :: edges) best) :
    IsHottest (first :: second :: edges) best := by
  by_cases hfirst : hotter first second = true
  · rw [laterGreater, if_pos (warmth_eq_gt_iff.mpr hfirst)] at h
    have hbeats : hotter best second = true := by
      rcases h.beats first List.mem_cons_self with rfl | hbest
      · exact hfirst
      · exact hotter_trans hbest hfirst
    refine ⟨List.cons_subset_cons first (List.subset_cons_self second edges) h.mem, ?_⟩
    intro edge hedge
    rcases List.mem_cons.mp hedge with rfl | hedge
    · exact h.beats edge List.mem_cons_self
    rcases List.mem_cons.mp hedge with rfl | hedge
    · exact .inr hbeats
    · exact h.beats edge (List.mem_cons_of_mem first hedge)
  · rw [laterGreater, if_neg (mt warmth_eq_gt_iff.mp hfirst)] at h
    have hbeats : first = best ∨ hotter best first = true := by
      by_cases heq : second = first
      · exact heq ▸ h.beats second List.mem_cons_self
      have hsecond := hotter_of_ne heq (Bool.not_eq_true _ ▸ hfirst)
      rcases h.beats second List.mem_cons_self with rfl | hbest
      · exact .inr hsecond
      · exact .inr (hotter_trans hbest hsecond)
    refine ⟨List.mem_cons_of_mem first h.mem, ?_⟩
    intro edge hedge
    rcases List.mem_cons.mp hedge with rfl | hedge
    · exact hbeats
    · exact h.beats edge hedge

end IsHottest

theorem isHottest_foldl (first : Nat × Nat) (edges : List (Nat × Nat)) :
    IsHottest (first :: edges) (edges.foldl (laterGreater warmth) first) := by
  induction edges generalizing first with
  | nil => exact ⟨List.mem_cons_self, fun edge hedge => .inl (List.mem_singleton.mp hedge)⟩
  | cons second edges ih => exact (ih (laterGreater warmth first second)).of_laterGreater

theorem lastGreatest?_eq_some_iff {edges : List (Nat × Nat)} {best : Nat × Nat} :
    lastGreatest? warmth edges = some best ↔ IsHottest edges best := by
  cases edges with
  | nil =>
    constructor
    · intro h
      cases h
    · intro h
      cases h.mem
  | cons first rest =>
    have hfold := isHottest_foldl first rest
    rw [lastGreatest?, Option.some.injEq]
    exact ⟨fun heq => heq ▸ hfold, hfold.unique⟩

theorem lastGreatest?_eq_none_iff {edges : List (Nat × Nat)} :
    lastGreatest? warmth edges = none ↔ edges = [] := by
  cases edges with
  | nil => exact iff_of_true rfl rfl
  | cons first rest => simp [lastGreatest?]

/-- A listing in another order has the same greatest member. -/
theorem lastGreatest?_perm {edges others : List (Nat × Nat)} (hperm : others.Perm edges) :
    lastGreatest? warmth others = lastGreatest? warmth edges := by
  refine Option.ext fun best => ?_
  rw [lastGreatest?_eq_some_iff, lastGreatest?_eq_some_iff]
  exact ⟨.perm hperm.symm, .perm hperm⟩

/-- The profile's own search keeps the first of two bindings unless the second is hotter.
Bindings that the comparison does not decide are equal, so it makes no difference that it keeps
the earlier one of them. -/
theorem hottest?_eq_lastGreatest? (p : Profile) :
    p.hottest? = lastGreatest? warmth p.edges.pairs := by
  have hstep (b edge : Nat × Nat) :
      (if hotter edge b then some edge else some b) = some (laterGreater warmth b edge) := by
    by_cases hb : hotter b edge = true
    · rw [laterGreater, if_pos (warmth_eq_gt_iff.mpr hb), hotter_asymm hb]
      rfl
    · rw [laterGreater, if_neg (mt warmth_eq_gt_iff.mp hb)]
      by_cases heq : edge = b
      · rw [heq, ite_self]
      · rw [if_pos (hotter_of_ne heq (Bool.not_eq_true _ ▸ hb))]
  unfold hottest?
  cases p.edges.pairs with
  | nil => rfl
  | cons first rest =>
    rw [List.foldl_cons, lastGreatest?]
    dsimp only
    induction rest generalizing first with
    | nil => rfl
    | cons second rest ih =>
      rw [List.foldl_cons, List.foldl_cons, ← ih]
      dsimp only
      rw [hstep]

/-! ## Recording -/

/-- What a profile can be told. -/
inductive Observation where
  | call
  | edge (position : Nat)
  deriving DecidableEq

/-- The profile after an observation. -/
def after (p : Profile) : Observation → Profile
  | .call => p.recordCall
  | .edge position => p.recordEdge position

/-- The profile after several observations. -/
def afterAll (p : Profile) (seen : List Observation) : Profile :=
  seen.foldl after p

/-- How often a position was recorded. -/
def recorded (seen : List Observation) (position : Nat) : Nat :=
  seen.count (.edge position)

/-- The table of a profile binds the positions that were recorded to how often they were. -/
def Records (seen : List Observation) (p : Profile) : Prop :=
  ∀ position, p.edges.get? position =
    if recorded seen position = 0 then none else some (recorded seen position)

theorem records_new (calls : Nat) : Records [] { calls } :=
  fun _ => rfl

namespace Records

variable {seen : List Observation} {p : Profile}

theorem edgeCount_eq (h : Records seen p) (position : Nat) :
    p.edgeCount position = recorded seen position := by
  rw [edgeCount, h position]
  split
  · rename_i hzero
    exact hzero.symm
  · rfl

/-- A counter that counts some of the observations is far from its bound. -/
theorem after (h : Records seen p) (hbound : seen.length + 1 < counterBound)
    (o : Observation) : Records (seen ++ [o]) (p.after o) := by
  intro position
  cases o with
  | call =>
    have hsame : recorded (seen ++ [.call]) position = recorded seen position := by
      simp [recorded, List.count_append]
    rw [hsame]
    exact h position
  | edge other =>
    by_cases heq : position = other
    · subst heq
      have hcount : recorded (seen ++ [.edge position]) position = recorded seen position + 1 := by
        simp [recorded, List.count_append]
      have hle : recorded seen position ≤ seen.length := List.count_le_length
      have hsucc : saturatingSucc (recorded seen position) = recorded seen position + 1 :=
        saturatingSucc_of_lt (by omega)
      rw [hcount, if_neg (Nat.succ_ne_zero _), ← hsucc, ← h.edgeCount_eq position]
      exact p.edges.get?_insert_self position _
    · have hsame : recorded (seen ++ [.edge other]) position = recorded seen position := by
        simp [recorded, List.count_append, Ne.symm heq]
      rw [hsame, ← h position]
      exact p.edges.get?_insert_of_ne _ heq

theorem afterAll (h : Records seen p) (later : List Observation)
    (hbound : (seen ++ later).length < counterBound) :
    Records (seen ++ later) (p.afterAll later) := by
  induction later generalizing seen p with
  | nil =>
    rw [List.append_nil]
    exact h
  | cons o later ih =>
    rw [List.append_cons] at hbound ⊢
    refine ih (h.after ?_ o) hbound
    rw [List.length_append, List.length_append, List.length_singleton] at hbound
    omega

theorem mem_pairs_iff (h : Records seen p) {position count : Nat} :
    (position, count) ∈ p.edges.pairs ↔ 0 < count ∧ recorded seen position = count := by
  rw [Table.mem_pairs_iff_get?, h position]
  split
  · rename_i hzero
    refine iff_of_false (fun hsome => by cases hsome) ?_
    omega
  · rw [Option.some.injEq]
    omega

/-- The hottest binding has the largest count that any position reaches, at the lowest
position that reaches it. -/
theorem isHottest_iff (h : Records seen p) {position count : Nat} :
    IsHottest p.edges.pairs (position, count) ↔
      0 < count ∧ IsGreatest (Set.range (recorded seen)) count ∧
        IsLeast {q | recorded seen q = count} position := by
  constructor
  · rintro ⟨hmem, hbeats⟩
    obtain ⟨hpos, hcount⟩ := h.mem_pairs_iff.mp hmem
    have hother (q : Nat) :
        recorded seen q < count ∨ recorded seen q = count ∧ position ≤ q := by
      by_cases hzero : recorded seen q = 0
      · exact .inl (hzero ▸ hpos)
      have hq := hbeats (q, recorded seen q) (h.mem_pairs_iff.mpr ⟨by omega, rfl⟩)
      rw [hotter_iff, Prod.mk.injEq] at hq
      omega
    refine ⟨hpos, ⟨⟨position, hcount⟩, ?_⟩, hcount, ?_⟩
    · rintro _ ⟨q, rfl⟩
      have hq := hother q
      omega
    · intro q hq
      have hq' := hother q
      rw [Set.mem_ofPred_eq] at hq
      omega
  · rintro ⟨hpos, ⟨-, hgreatest⟩, hcount, hleast⟩
    refine ⟨h.mem_pairs_iff.mpr ⟨hpos, hcount⟩, ?_⟩
    rintro ⟨q, n⟩ hedge
    obtain ⟨-, rfl⟩ := h.mem_pairs_iff.mp hedge
    have hle : recorded seen q ≤ count := hgreatest ⟨q, rfl⟩
    have hlow : recorded seen q = count → position ≤ q := fun heq => hleast heq
    rw [hotter_iff, Prod.mk.injEq]
    omega

theorem hottest?_eq_some_iff (h : Records seen p) {position count : Nat} :
    p.hottest? = some (position, count) ↔
      0 < count ∧ IsGreatest (Set.range (recorded seen)) count ∧
        IsLeast {q | recorded seen q = count} position := by
  rw [hottest?_eq_lastGreatest?, lastGreatest?_eq_some_iff, h.isHottest_iff]

theorem hottest?_eq_none_iff (h : Records seen p) :
    p.hottest? = none ↔ ∀ position, .edge position ∉ seen := by
  rw [hottest?_eq_lastGreatest?, lastGreatest?_eq_none_iff, List.eq_nil_iff_forall_not_mem]
  constructor
  · intro hempty position hmem
    have hpos : 0 < recorded seen position := List.count_pos_iff.mpr hmem
    exact hempty (position, recorded seen position) (h.mem_pairs_iff.mpr ⟨hpos, rfl⟩)
  · rintro hnone ⟨position, count⟩ hmem
    obtain ⟨hpos, rfl⟩ := h.mem_pairs_iff.mp hmem
    exact hnone position (List.count_pos_iff.mp hpos)

/-- The order of the observations leaves no trace in a profile's counts. -/
theorem perm {other : List Observation} (hperm : other.Perm seen) (h : Records other p) :
    Records seen p := by
  intro position
  have hsame : recorded seen position = recorded other position := hperm.symm.count_eq _
  rw [hsame]
  exact h position

theorem hottest?_congr {p' : Profile} (h : Records seen p) (h' : Records seen p') :
    p.hottest? = p'.hottest? := by
  refine Option.ext fun edge => ?_
  obtain ⟨position, count⟩ := edge
  rw [h.hottest?_eq_some_iff, h'.hottest?_eq_some_iff]

end Records

theorem records_afterAll (calls : Nat) {seen : List Observation}
    (hbound : seen.length < counterBound) : Records seen (afterAll { calls } seen) := by
  have hrecords := (records_new calls).afterAll seen
  rw [List.nil_append] at hrecords
  exact hrecords hbound

/-- The hottest back edge is a function of how often each position was recorded.  For every
initial number of calls and every sequence of fewer than 2^64 observations:

* there is no hottest back edge exactly if no back edge was recorded;
* otherwise it has the largest count that a position reaches, at the lowest position that
  reaches it;
* it is the same after the same observations in any other order, whatever the initial number
  of calls;
* it is the last greatest member of any listing of the bindings, compared by count and at
  equal counts by position, so that it does not depend on the order in which a table lists
  them. -/
theorem hottest_back_edge_is_stable (calls : Nat) (seen : List Observation)
    (hbound : seen.length < counterBound) :
    let p := afterAll { calls } seen
    (p.hottest? = none ↔ ∀ position, .edge position ∉ seen) ∧
    (∀ position count, p.hottest? = some (position, count) ↔
      0 < count ∧ IsGreatest (Set.range (recorded seen)) count ∧
        IsLeast {q | recorded seen q = count} position) ∧
    (∀ calls' seen', seen'.Perm seen →
      (afterAll { calls := calls' } seen').hottest? = p.hottest?) ∧
    ∀ listing, listing.Perm p.edges.pairs → lastGreatest? warmth listing = p.hottest? := by
  intro p
  have hp : Records seen p := records_afterAll calls hbound
  refine ⟨hp.hottest?_eq_none_iff, fun _ _ => hp.hottest?_eq_some_iff, ?_, ?_⟩
  · intro calls' seen' hperm
    have hp' : Records seen' (afterAll { calls := calls' } seen') :=
      records_afterAll calls' (hperm.length_eq ▸ hbound)
    exact (hp'.perm hperm).hottest?_congr hp
  · intro listing hlisting
    rw [hottest?_eq_lastGreatest?, lastGreatest?_perm hlisting]

/-- Three back edges, of which two are taken twice, with a call in between. -/
def nestedLoops : List Observation :=
  [.edge 9, .edge 4, .edge 7, .call, .edge 9, .edge 4]

theorem nestedLoops_hottest :
    nestedLoops.length < counterBound ∧
    (afterAll { calls := 998 } nestedLoops).hottest? = some (4, 2) ∧
    (afterAll {} nestedLoops.reverse).hottest? = some (4, 2) ∧
    lastGreatest? warmth [(7, 1), (9, 2), (4, 2)] = some (4, 2) := by
  have hbound : nestedLoops.length < counterBound := by decide
  obtain ⟨-, -, hperm, hlisting⟩ := hottest_back_edge_is_stable 998 nestedLoops hbound
  have hhottest : (afterAll { calls := 998 } nestedLoops).hottest? = some (4, 2) := by decide
  refine ⟨hbound, hhottest, ?_, ?_⟩
  · rw [← hhottest]
    exact hperm 0 nestedLoops.reverse (List.reverse_perm nestedLoops)
  · rw [← hhottest]
    exact hlisting [(7, 1), (9, 2), (4, 2)] (by decide)

end BaselineTier.Profile
