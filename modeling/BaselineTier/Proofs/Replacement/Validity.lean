import BaselineTier.Proofs.Replacement.History
import BaselineTier.Proofs.Table

/-! # How long an entry is valid

Callers keep the entries that managers gave them.  A manager tells from two numbers in an
entry whether to perform it: the number of the manager that made it, and that manager's
generation at the time.  These numbers say what the history says, that the manager made
the entry and has not been cleared or retired since.

`Chronicle` is what ties one manager to its history.  Whatever is asked keeps it: an entry
that is added carries the current generation, and dropping all entries starts a generation
that no entry carries yet.
-/

set_option autoImplicit false

namespace BaselineTier.Replacement.Registry

/-- At a time, a manager makes an entry for a bytecode offset, and since then it has neither
dropped its entries nor made another one for this offset. -/
structure LatestAt (ops : List Operation) (n position : Nat) (e : Entry) (time : Nat) :
    Prop where
  made : MadeAt ops n e time
  placed : e.position = position
  kept : ¬ DroppedSince ops n time
  last : ∀ e' other, MadeAt ops n e' other → e'.position = position → other ≤ time

/-- What a manager's history says of it. -/
structure Chronicle (ops : List Operation) (n : Nat) (m : Manager) : Prop where
  number : m.id = n
  maker : ∀ e time, MadeAt ops n e time → e.manager = n
  dated : ∀ e time, MadeAt ops n e time → e.generation ≤ m.generation
  current : ∀ e time, MadeAt ops n e time →
    (e.generation = m.generation ↔ ¬ DroppedSince ops n time)
  stored : ∀ position e, m.entry? position = some e ↔ ∃ time, LatestAt ops n position e time
  inside : ∀ position e, m.entry? position = some e →
    m.object.code.containsOffset e.offset = true
  retired : m.retired = true ↔ ∃ time, RetiredAt ops n time
  spent : m.retired = true → ∀ e time, MadeAt ops n e time → e.generation < m.generation

/-! ## A new manager -/

theorem chronicle_new {ops : List Operation} {n : Nat}
    (h : ∀ P time, ¬ HappensAt ops n P time) (object : CodeObject) :
    Chronicle ops n { id := n, object } where
  number := rfl
  maker e time hmade := absurd hmade (h _ time)
  dated e time hmade := absurd hmade (h _ time)
  current e time hmade := absurd hmade (h _ time)
  stored position e := by
    constructor
    · intro hentry
      cases hentry
    · rintro ⟨time, hlatest⟩
      exact absurd hlatest.made (h _ time)
  inside position e hentry := by cases hentry
  retired := by
    constructor
    · intro hretired
      cases hretired
    · rintro ⟨time, hretired⟩
      exact absurd hretired (h _ time)
  spent hretired := by cases hretired

/-! ## The latest entry -/

namespace LatestAt

variable {ops later : List Operation} {n position : Nat} {e : Entry} {time : Nat}

theorem of_agree (h : LatestAt ops n position e time)
    (hmade : ∀ e time, e.position = position → (MadeAt later n e time ↔ MadeAt ops n e time))
    (hdropped : ∀ time, DroppedSince later n time ↔ DroppedSince ops n time) :
    LatestAt later n position e time where
  made := (hmade e time h.placed).mpr h.made
  placed := h.placed
  kept hsince := h.kept ((hdropped time).mp hsince)
  last e' other hother hplaced :=
    h.last e' other ((hmade e' other hplaced).mp hother) hplaced

/-- The latest entry for a bytecode offset depends only on the entries made for this offset
and on when entries were dropped. -/
theorem congr
    (hmade : ∀ e time, e.position = position → (MadeAt later n e time ↔ MadeAt ops n e time))
    (hdropped : ∀ time, DroppedSince later n time ↔ DroppedSince ops n time) :
    LatestAt later n position e time ↔ LatestAt ops n position e time :=
  ⟨fun h => h.of_agree (fun e time hplaced => (hmade e time hplaced).symm)
      fun time => (hdropped time).symm,
    fun h => h.of_agree hmade hdropped⟩

end LatestAt

/-! ## Events of one request -/

theorem not_droppedSince_length (ops : List Operation) (n : Nat) :
    ¬ DroppedSince ops n ops.length := by
  rintro ⟨other, hlt, hother⟩
  exact Nat.lt_asymm hlt hother.lt_length

section Asked

variable {ops : List Operation} {n : Nat} {m : Manager} {q : Manager.Request} {made : Entry}
  (hm : (afterHistory ops).manager? n = some m)

include hm

theorem madeAt_concat_of_made?_eq_some (hmade : m.made? q = some made) (e : Entry) (time : Nat) :
    MadeAt (ops ++ [.ask n q]) n e time ↔
      MadeAt ops n e time ∨ (time = ops.length ∧ e = made) := by
  refine (happensAt_concat_ask hm q).trans (or_congr_right (and_congr_right fun _ => ?_))
  rw [hmade, Option.some.injEq, eq_comm]

theorem madeAt_concat_of_made?_eq_none (hmade : m.made? q = none) (e : Entry) (time : Nat) :
    MadeAt (ops ++ [.ask n q]) n e time ↔ MadeAt ops n e time := by
  refine (happensAt_concat_ask hm q).trans ?_
  simp [hmade, MadeAt]

/-- A request that drops nothing leaves what was dropped as it was. -/
theorem droppedSince_concat_ask (hdrops : q.drops = false) (time : Nat) :
    DroppedSince (ops ++ [.ask n q]) n time ↔ DroppedSince ops n time := by
  refine exists_congr fun other => and_congr_right fun _ => ?_
  refine (happensAt_concat_ask hm q).trans ?_
  simp [hdrops, DroppedAt]

theorem retiredAt_concat_ask (hdrops : q.drops = false) (time : Nat) :
    RetiredAt (ops ++ [.ask n q]) n time ↔ RetiredAt ops n time := by
  have hne : q ≠ .retire := by
    rintro rfl
    cases hdrops
  refine (happensAt_concat_ask hm q).trans ?_
  simp [hne, RetiredAt]

/-- An entry that is made becomes the latest for its bytecode offset, and the only one. -/
theorem latestAt_concat_self (hmade : m.made? q = some made) (hdrops : q.drops = false)
    (e : Entry) (time : Nat) :
    LatestAt (ops ++ [.ask n q]) n made.position e time ↔ time = ops.length ∧ e = made := by
  have hmadeAt := madeAt_concat_of_made?_eq_some hm hmade
  constructor
  · intro hlatest
    rcases (hmadeAt e time).mp hlatest.made with hold | hnew
    · have hle := hlatest.last made _ ((hmadeAt made _).mpr (.inr ⟨rfl, rfl⟩)) rfl
      exact absurd hold.lt_length (Nat.not_lt_of_le hle)
    · exact hnew
  · rintro ⟨rfl, rfl⟩
    refine ⟨(hmadeAt _ _).mpr (.inr ⟨rfl, rfl⟩), rfl, ?_, ?_⟩
    · rw [droppedSince_concat_ask hm hdrops]
      exact not_droppedSince_length ops n
    · intro e' other hother _
      have hlt := hother.lt_length
      rw [List.length_append, List.length_singleton] at hlt
      exact Nat.le_of_lt_succ hlt

/-- The entries for the other bytecode offsets stay. -/
theorem latestAt_concat_of_ne (hmade : m.made? q = some made) (hdrops : q.drops = false)
    {position : Nat} (hposition : position ≠ made.position) (e : Entry) (time : Nat) :
    LatestAt (ops ++ [.ask n q]) n position e time ↔ LatestAt ops n position e time := by
  refine LatestAt.congr (fun e time hplaced => ?_) (droppedSince_concat_ask hm hdrops)
  refine (madeAt_concat_of_made?_eq_some hm hmade e time).trans (or_iff_left ?_)
  rintro ⟨-, rfl⟩
  exact hposition hplaced.symm

end Asked

namespace Chronicle

variable {ops : List Operation} {n : Nat} {m : Manager} {q : Manager.Request}

/-! ## One request -/

/-- A chronicle speaks of three kinds of events only. -/
theorem congr {later : List Operation} (h : Chronicle ops n m)
    (hmade : ∀ e time, MadeAt later n e time ↔ MadeAt ops n e time)
    (hdropped : ∀ time, DroppedSince later n time ↔ DroppedSince ops n time)
    (hretired : ∀ time, RetiredAt later n time ↔ RetiredAt ops n time) :
    Chronicle later n m where
  number := h.number
  maker e time := by simpa only [hmade] using h.maker e time
  dated e time := by simpa only [hmade] using h.dated e time
  current e time := by simpa only [hmade, hdropped] using h.current e time
  stored position e := by
    rw [h.stored position e]
    exact exists_congr fun time =>
      (LatestAt.congr (fun e time _ => hmade e time) hdropped).symm
  inside := h.inside
  retired := by simpa only [hretired] using h.retired
  spent hspent e time := by simpa only [hmade] using h.spent hspent e time

/-- The new entry has the current generation, and takes the place of an earlier one for the
same bytecode offset. -/
theorem adding (h : Chronicle ops n m) (hm : (afterHistory ops).manager? n = some m)
    {made : Entry} (hmade : m.made? q = some made) (hdrops : q.drops = false)
    (hissues : m.Issues made) : Chronicle (ops ++ [.ask n q]) n (m.adding made) := by
  have hmadeAt := madeAt_concat_of_made?_eq_some hm hmade
  constructor
  case number => exact h.number
  case maker =>
    intro e time hat
    rcases (hmadeAt e time).mp hat with hold | ⟨-, rfl⟩
    · exact h.maker e time hold
    · exact hissues.number.trans h.number
  case dated =>
    intro e time hat
    rcases (hmadeAt e time).mp hat with hold | ⟨-, rfl⟩
    · exact h.dated e time hold
    · exact Nat.le_of_eq hissues.generation
  case current =>
    intro e time hat
    rw [droppedSince_concat_ask hm hdrops]
    rcases (hmadeAt e time).mp hat with hold | ⟨rfl, rfl⟩
    · exact h.current e time hold
    · exact iff_of_true hissues.generation (not_droppedSince_length ops n)
  case stored =>
    intro position e
    rw [m.entry?_adding made position]
    by_cases hposition : position = made.position
    · subst hposition
      simp only [latestAt_concat_self hm hmade hdrops, if_true, exists_eq_left,
        Option.some.injEq, eq_comm]
    · simp only [latestAt_concat_of_ne hm hmade hdrops hposition, if_neg hposition]
      exact h.stored position e
  case inside =>
    intro position e hentry
    rw [m.entry?_adding made position] at hentry
    split at hentry
    · cases hentry
      exact hissues.inside
    · exact h.inside position e hentry
  case retired =>
    simp only [retiredAt_concat_ask hm hdrops]
    exact h.retired
  case spent =>
    intro hretired
    exact absurd (hissues.active.symm.trans hretired) Bool.false_ne_true

/-- Every entry made so far belongs to an older generation than the one that begins. -/
theorem dropping (h : Chronicle ops n m) (hm : (afterHistory ops).manager? n = some m)
    (hmade : m.made? q = none) (hdrops : q.drops = true) {m' : Manager} (hid : m'.id = m.id)
    (hgeneration : m'.generation = m.generation + 1) (hentries : m'.entries = .empty)
    (hretired : m'.retired = true ↔ m.retired = true ∨ q = .retire) :
    Chronicle (ops ++ [.ask n q]) n m' := by
  have hmadeAt := madeAt_concat_of_made?_eq_none hm hmade
  have hnow : DroppedAt (ops ++ [.ask n q]) n ops.length :=
    (happensAt_concat_ask hm q).mpr (.inr ⟨rfl, hdrops⟩)
  have holder : ∀ e time, MadeAt (ops ++ [.ask n q]) n e time →
      e.generation < m'.generation := by
    intro e time hat
    rw [hgeneration]
    exact Nat.lt_succ_of_le (h.dated e time ((hmadeAt e time).mp hat))
  have hempty : ∀ position, m'.entry? position = none := by
    intro position
    unfold Manager.entry?
    rw [hentries, Table.get?_empty]
  -- an entry made before this request was made before entries were dropped
  have hearlier : ∀ e time, MadeAt (ops ++ [.ask n q]) n e time →
      DroppedSince (ops ++ [.ask n q]) n time := by
    intro e time hat
    exact ⟨ops.length, ((hmadeAt e time).mp hat).lt_length, hnow⟩
  constructor
  case number => exact hid.trans h.number
  case maker =>
    intro e time hat
    exact h.maker e time ((hmadeAt e time).mp hat)
  case dated =>
    intro e time hat
    exact Nat.le_of_lt (holder e time hat)
  case current =>
    intro e time hat
    exact iff_of_false (Nat.ne_of_lt (holder e time hat)) (not_not_intro (hearlier e time hat))
  case stored =>
    intro position e
    rw [hempty position]
    constructor
    · intro hentry
      cases hentry
    · rintro ⟨time, hlatest⟩
      exact absurd (hearlier e time hlatest.made) hlatest.kept
  case inside =>
    intro position e hentry
    rw [hempty position] at hentry
    cases hentry
  case retired =>
    rw [hretired, h.retired]
    constructor
    · rintro (⟨time, hat⟩ | heq)
      · exact ⟨time, (happensAt_concat_ask hm q).mpr (.inl hat)⟩
      · exact ⟨ops.length, (happensAt_concat_ask hm q).mpr (.inr ⟨rfl, heq⟩)⟩
    · rintro ⟨time, hat⟩
      rcases (happensAt_concat_ask hm q).mp hat with hold | ⟨-, heq⟩
      · exact .inl ⟨time, hold⟩
      · exact .inr heq
  case spent =>
    intro _
    exact holder

/-- Whatever a manager is asked, it stays as its history says. -/
theorem ask (h : Chronicle ops n m) (hm : (afterHistory ops).manager? n = some m)
    (q : Manager.Request) : Chronicle (ops ++ [.ask n q]) n (m.after q) := by
  rcases m.after_cases q with ⟨e, hmade, hdrops, hissues, hafter⟩ | ⟨rfl, hmade, hafter⟩ |
    ⟨rfl, hmade, hafter⟩ | ⟨hdrops, hmade, hafter⟩
  · rw [hafter]
    exact h.adding hm hmade hdrops hissues
  · rw [hafter]
    exact h.dropping hm hmade rfl rfl rfl rfl (by simp [Manager.clear])
  · rw [hafter]
    exact h.dropping hm hmade rfl rfl rfl rfl (by simp [Manager.retire])
  · rw [hafter]
    exact h.congr (madeAt_concat_of_made?_eq_none hm hmade) (droppedSince_concat_ask hm hdrops)
      (retiredAt_concat_ask hm hdrops)

/-- What is asked of other managers, or the making of one, is no part of the history. -/
theorem concat_of_ne (h : Chronicle ops n m) {op : Operation} (hop : ∀ q, op ≠ .ask n q) :
    Chronicle (ops ++ [op]) n m :=
  h.congr (fun _ _ => happensAt_concat_of_ne hop)
    (fun _ => exists_congr fun _ => and_congr_right fun _ => happensAt_concat_of_ne hop)
    (fun _ => happensAt_concat_of_ne hop)

/-! ## What the history says of entries -/

theorem perform_of_ne (h : Chronicle ops n m) {e : Entry} (hne : e.manager ≠ n) :
    m.perform e = .error (.foreignEntry e.position) :=
  Manager.perform_of_foreign (by rwa [h.number])

/-- A manager's own entry is performed as long as its entries were not dropped since. -/
theorem perform_of_madeAt (h : Chronicle ops n m) {e : Entry} {time : Nat}
    (he : MadeAt ops n e time) :
    (¬ DroppedSince ops n time → ∃ transfer, m.perform e = .ok transfer) ∧
      (DroppedSince ops n time →
        m.perform e = .error (.staleEntry e.position e.generation m.generation)) := by
  have hown : e.manager = m.id := (h.maker e time he).trans h.number.symm
  constructor
  · intro hkept
    exact ⟨_, Manager.perform_eq_ok hown ((h.current e time he).mpr hkept)⟩
  · intro hdropped
    have hpast : e.generation ≠ m.generation := fun hcurrent =>
      (h.current e time he).mp hcurrent hdropped
    exact Manager.perform_of_stale hown hpast

theorem isEmpty_of_retired (h : Chronicle ops n m) (hretired : m.retired = true) :
    m.entries.isEmpty = true := by
  refine Table.isEmpty_of_get?_eq_none fun position => ?_
  cases hentry : m.entries.get? position with
  | none => rfl
  | some e =>
    obtain ⟨time, hlatest⟩ := (h.stored position e).mp hentry
    have hcurrent := (h.current e time hlatest.made).mpr hlatest.kept
    exact absurd hcurrent (Nat.ne_of_lt (h.spent hretired e time hlatest.made))

end Chronicle

/-! ## Every history -/

/-- All managers are as their histories say, and nothing is told of others. -/
structure Chronicled (ops : List Operation) : Prop where
  present : ∀ n m, (afterHistory ops).manager? n = some m → Chronicle ops n m
  absent : ∀ n, (afterHistory ops).manager? n = none → ∀ P time, ¬ HappensAt ops n P time

namespace Chronicled

variable {ops : List Operation}

theorem nil : Chronicled [] where
  present n m hm := by simp [afterHistory, manager?] at hm
  absent n _ P time hat := absurd hat.lt_length (Nat.not_lt_zero time)

theorem numbered (h : Chronicled ops) : (afterHistory ops).Numbered :=
  fun n m hm => (h.present n m hm).number

/-- An entry carries the number of the manager that made it. -/
theorem maker (h : Chronicled ops) {n : Nat} {e : Entry} {time : Nat} (he : MadeAt ops n e time) :
    e.manager = n := by
  cases hm : (afterHistory ops).manager? n with
  | none => exact absurd he (h.absent n hm _ time)
  | some m => exact (h.present n m hm).maker e time he

theorem make (h : Chronicled ops) (object : CodeObject) :
    Chronicled (ops ++ [.make object]) := by
  have hother : ∀ n q, Operation.make object ≠ .ask n q := by
    intro n q heq
    cases heq
  constructor
  · intro n m hm
    rw [afterHistory_concat, manager?_make] at hm
    split at hm
    · rename_i hn
      cases hm
      refine chronicle_new (fun P time hat => ?_) object
      refine h.absent n ?_ P time ((happensAt_concat_of_ne (hother n)).mp hat)
      rw [hn, manager?, Array.getElem?_size]
    · exact (h.present n m hm).concat_of_ne (hother n)
  · intro n hn P time hat
    rw [afterHistory_concat, manager?_make] at hn
    split at hn
    · cases hn
    · exact h.absent n hn P time ((happensAt_concat_of_ne (hother n)).mp hat)

theorem ask (h : Chronicled ops) (k : Nat) (q : Manager.Request) :
    Chronicled (ops ++ [.ask k q]) := by
  constructor
  · intro n m hm
    rw [afterHistory_concat, manager?_ask h.numbered] at hm
    split at hm
    · rename_i hk
      subst hk
      obtain ⟨m₀, hm₀, rfl⟩ := Option.map_eq_some_iff.mp hm
      exact (h.present k m₀ hm₀).ask hm₀ q
    · rename_i hk
      refine (h.present n m hm).concat_of_ne fun q' heq => ?_
      cases heq
      exact hk rfl
  · intro n hn P time hat
    have hnone : (afterHistory ops).manager? n = none := by
      rw [afterHistory_concat, manager?_ask h.numbered] at hn
      split at hn
      · exact Option.map_eq_none_iff.mp hn
      · exact hn
    rcases happensAt_concat.mp hat with hold | ⟨-, m, q', -, hm, -⟩
    · exact h.absent n hnone P time hold
    · rw [hnone] at hm
      cases hm

theorem append (h : Chronicled ops) (later : List Operation) : Chronicled (ops ++ later) := by
  induction later generalizing ops with
  | nil => rwa [List.append_nil]
  | cons op later ih =>
    have hstep : Chronicled (ops ++ [op]) := by
      cases op with
      | make object => exact h.make object
      | ask n q => exact h.ask n q
    have hnext := ih hstep
    rwa [List.append_assoc] at hnext

end Chronicled

theorem chronicled (ops : List Operation) : Chronicled ops :=
  Chronicled.nil.append ops

/-- Entries over every history of any number of managers, and any manager after it.

* Of the entries made so far, the manager performs exactly those that it made itself and
  that were made after it was last cleared or retired.  It refuses the entries of others as
  foreign, and its own older ones as stale.
* For each bytecode offset it has the last entry it made there since it was cleared or
  retired, if it made one; each entry it has carries its number and its current generation,
  and resumes inside its code.
* Once it was retired it has no entries, makes none and performs none.
* A failed attempt to make an entry changes no manager. -/
theorem entries_valid_until_dropped (ops : List Operation) {n : Nat} {m : Manager}
    (hm : (afterHistory ops).manager? n = some m) :
    (∀ k e time, MadeAt ops k e time →
      ((∃ transfer, m.perform e = .ok transfer) ↔ k = n ∧ ¬ DroppedSince ops n time) ∧
      (k ≠ n → m.perform e = .error (.foreignEntry e.position)) ∧
      (k = n → DroppedSince ops n time →
        m.perform e = .error (.staleEntry e.position e.generation m.generation))) ∧
    (∀ position e, m.entry? position = some e ↔ ∃ time, LatestAt ops n position e time) ∧
    (∀ position e, m.entry? position = some e →
      e.manager = m.id ∧ e.generation = m.generation ∧
        m.object.code.containsOffset e.offset = true) ∧
    (∀ time, RetiredAt ops n time →
      m.entries.isEmpty = true ∧
      (∀ position state, ∃ cause, m.create position state = .error cause) ∧
      (∀ position offset state, ∃ cause, m.createAt position offset state = .error cause) ∧
      ∀ e made, MadeAt ops n e made → ∃ cause, m.perform e = .error cause) ∧
    ∀ q cause, m.attempt? q = some (.error cause) →
      afterHistory (ops ++ [.ask n q]) = afterHistory ops := by
  have hall := chronicled ops
  have h := hall.present n m hm
  refine ⟨?_, h.stored, ?_, ?_, ?_⟩
  · intro k e time he
    by_cases hk : k = n
    · subst hk
      obtain ⟨hvalid, hstale⟩ := h.perform_of_madeAt he
      refine ⟨⟨fun hperformed => ⟨rfl, fun hdropped => ?_⟩, fun hkept => hvalid hkept.2⟩,
        fun hne => absurd rfl hne, fun _ => hstale⟩
      obtain ⟨transfer, hok⟩ := hperformed
      rw [hstale hdropped] at hok
      cases hok
    · have hforeign : m.perform e = .error (.foreignEntry e.position) := by
        refine h.perform_of_ne ?_
        rwa [hall.maker he]
      refine ⟨⟨fun hperformed => ?_, fun hown => absurd hown.1 hk⟩, fun _ => hforeign,
        fun heq => absurd heq hk⟩
      obtain ⟨transfer, hok⟩ := hperformed
      rw [hforeign] at hok
      cases hok
  · intro position e hentry
    obtain ⟨time, hlatest⟩ := (h.stored position e).mp hentry
    have hown : e.manager = m.id := (h.maker e time hlatest.made).trans h.number.symm
    exact ⟨hown, (h.current e time hlatest.made).mpr hlatest.kept, h.inside position e hentry⟩
  · intro time hat
    have hretired : m.retired = true := h.retired.mpr ⟨time, hat⟩
    refine ⟨h.isEmpty_of_retired hretired, m.create_of_retired hretired,
      m.createAt_of_retired hretired, fun e made he => ?_⟩
    have hspent : e.generation ≠ m.generation := Nat.ne_of_lt (h.spent hretired e made he)
    have hdropped : DroppedSince ops n made :=
      Classical.byContradiction fun hkept => hspent ((h.current e made he).mpr hkept)
    exact ⟨_, (h.perform_of_madeAt he).2 hdropped⟩
  · intro q cause hfailed
    rw [afterHistory_concat]
    exact after_ask_of_after_eq hall.numbered hm (Manager.after_of_attempt?_eq_error hfailed)

/-- Two managers of one piece of code.  The first makes an entry, is cleared and makes
another one; the second makes an entry and is retired. -/
def sharedHistory : List Operation :=
  let object : CodeObject := ⟨0, ⟨[0x90, 0xC3], [0, 1], 0, []⟩⟩
  [.make object, .make object, .ask 0 (.create 0 {}), .ask 1 (.create 0 {}), .ask 0 .clear,
   .ask 0 (.createAt 1 1 {}), .ask 1 .retire]

/-- The first manager performs its second entry only; the second one is out of use. -/
theorem sharedHistory_valid_entries :
    ∃ first second older foreign newer,
      (afterHistory sharedHistory).manager? 0 = some first ∧
      (afterHistory sharedHistory).manager? 1 = some second ∧
      MadeAt sharedHistory 0 older 2 ∧
      MadeAt sharedHistory 1 foreign 3 ∧
      MadeAt sharedHistory 0 newer 5 ∧
      first.perform older = .error (.staleEntry 0 0 1) ∧
      first.perform foreign = .error (.foreignEntry 0) ∧
      (∃ transfer, first.perform newer = .ok transfer) ∧
      (∃ time, LatestAt sharedHistory 0 1 newer time) ∧
      second.entries.isEmpty = true ∧
      ∃ cause, second.perform foreign = .error cause := by
  have hfirst : (afterHistory sharedHistory).manager? 0 = some _ := rfl
  have hsecond : (afterHistory sharedHistory).manager? 1 = some _ := rfl
  have holder : MadeAt sharedHistory 0 _ 2 := ⟨_, _, rfl, rfl, rfl⟩
  have hforeign : MadeAt sharedHistory 1 _ 3 := ⟨_, _, rfl, rfl, rfl⟩
  have hnewer : MadeAt sharedHistory 0 _ 5 := ⟨_, _, rfl, rfl, rfl⟩
  have hdropped : DroppedSince sharedHistory 0 2 := ⟨4, by decide, _, _, rfl, rfl, rfl⟩
  have hkept : ¬ DroppedSince sharedHistory 0 5 := by
    rintro ⟨other, hlt, hother⟩
    have hlength : other < 7 := hother.lt_length
    obtain rfl : other = 6 := by omega
    obtain ⟨m, q, hop, -⟩ := hother
    cases hop
  obtain ⟨hperform, hstored, -, -, -⟩ := entries_valid_until_dropped sharedHistory hfirst
  obtain ⟨-, -, -, hretired, -⟩ := entries_valid_until_dropped sharedHistory hsecond
  obtain ⟨hempty, -, -, hspent⟩ := hretired 6 ⟨_, _, rfl, rfl, rfl⟩
  exact ⟨_, _, _, _, _, hfirst, hsecond, holder, hforeign, hnewer,
    (hperform 0 _ 2 holder).2.2 rfl hdropped,
    (hperform 1 _ 3 hforeign).2.1 (by decide),
    (hperform 0 _ 5 hnewer).1.mpr ⟨rfl, hkept⟩,
    (hstored 1 _).mp rfl,
    hempty,
    hspent _ 3 hforeign⟩

end BaselineTier.Replacement.Registry
