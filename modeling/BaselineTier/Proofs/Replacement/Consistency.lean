import BaselineTier.Proofs.Cache.Contents
import BaselineTier.Proofs.Replacement.Interleaving
import BaselineTier.Proofs.Replacement.Registry

/-! # The registry follows the cache under every schedule

The cache changes before the registry, so the two disagree at times.  What holds in every
world that threads can reach is that each disagreement has an invalidation coming: the
code of a registered manager is installed, or some thread has yet to take the manager of
that function out of the registry.  When no operation is under way nothing is pending, and
every registered manager runs the installed code.

The thread that registers a manager is the delicate case.  It acts on an answer of the
cache that may have become outdated, and it is the write lock that makes this harmless:
the operation that outdated the answer cannot get at the registry before the manager is
registered, so its invalidation comes afterwards.
-/

set_option autoImplicit false

namespace BaselineTier.Interleaving

open Replacement

/-! ## Stamps -/

/-- The objects in use have different stamps, all below the next one. -/
structure Stamped (next : Nat) (InUse : CodeObject → Prop) : Prop where
  below : ∀ o, InUse o → o.stamp < next
  eq_of_stamp_eq : ∀ o o', InUse o → InUse o' → o.stamp = o'.stamp → o = o'

namespace Stamped

variable {next : Nat} {P Q : CodeObject → Prop}

theorem mono (h : Stamped next P) (hsub : ∀ o, Q o → P o) : Stamped next Q where
  below o ho := h.below o (hsub o ho)
  eq_of_stamp_eq o o' ho ho' := h.eq_of_stamp_eq o o' (hsub o ho) (hsub o' ho')

/-- A new object takes the next stamp. -/
theorem add (h : Stamped next P) (code : NativeCode) :
    Stamped (next + 1) (fun o => o = ⟨next, code⟩ ∨ P o) where
  below := by
    rintro o (rfl | ho)
    · exact Nat.lt_succ_self next
    · exact Nat.lt_succ_of_lt (h.below o ho)
  eq_of_stamp_eq := by
    rintro o o' (rfl | ho) (rfl | ho') heq
    · rfl
    · exact absurd (h.below o' ho') (by rw [← heq]; exact Nat.lt_irrefl next)
    · exact absurd (h.below o ho) (by rw [heq]; exact Nat.lt_irrefl next)
    · exact h.eq_of_stamp_eq o o' ho ho' heq

end Stamped

namespace World

variable {w : World} {t : Nat} {a : Activity}

/-! ## Coherent worlds -/

/-- An object that is in the cache or that a thread holds. -/
def Mentions (w : World) (o : CodeObject) : Prop :=
  (∃ id, ⟨id, o⟩ ∈ w.cache.entries) ∨ ∃ t, (w.threads t).object? = some o

/-- An object is the installed code of a function, unless an invalidation of the
function is pending. -/
def Backs (w : World) (id : FunctionId) (o : CodeObject) : Prop :=
  w.cache.peek? id = some o ∨ w.Pending id

/-- What every step keeps. -/
structure Coherent (w : World) : Prop where
  orderly : w.registry.Orderly
  distinct : w.cache.recency.Nodup
  stamped : Stamped w.installation.nextStamp w.Mentions
  exclusive : ∀ t edge b, w.threads t = .registering edge b → w.writer = some t
  decided : ∀ t edge, w.threads t = .registering edge true → w.Backs edge.id edge.object
  backed : ∀ id n m, w.registry.registered? id = some n → w.registry.manager? n = some m →
    w.Backs id m.object

theorem coherent_initial (budget : Nat) : (initial budget).Coherent where
  orderly := .initial
  distinct := List.nodup_nil
  stamped := by
    have hnone : ∀ o, ¬ (initial budget).Mentions o := by
      rintro o (⟨id, hmem⟩ | ⟨t, ht⟩)
      · cases hmem
      · cases ht
    exact ⟨fun o ho => absurd ho (hnone o), fun o _ ho => absurd ho (hnone o)⟩
  exclusive := by intro t edge b h; cases h
  decided := by intro t edge h; cases h
  backed := by intro id n m h; cases h

/-! ## Moving one thread -/

/-- What other threads have pending stays pending, and so does what the moving thread
takes along. -/
theorem pending_proceed {id : FunctionId} (h : w.Pending id)
    (hkept : id ∈ (w.threads t).pending → id ∈ a.pending) : (w.proceed t a).Pending id := by
  obtain ⟨u, hu⟩ := h
  by_cases hut : u = t
  · subst hut
    exact ⟨u, by rw [threads_proceed_self]; exact hkept hu⟩
  · exact ⟨u, by rw [threads_proceed_of_ne w hut]; exact hu⟩

theorem backs_proceed {id : FunctionId} {o : CodeObject} (h : w.Backs id o)
    (hkept : id ∈ (w.threads t).pending → id ∈ a.pending) : (w.proceed t a).Backs id o := by
  rcases h with hpeek | hpending
  · exact .inl hpeek
  · exact .inr (pending_proceed hpending hkept)

theorem holds_nothing (ha : a.object? = none) (o : CodeObject) (ho : a.object? = some o) :
    w.Mentions o := by
  rw [ha] at ho
  cases ho

/-- A thread that moves on holds nothing new if its new activity does not. -/
theorem mentions_of_proceed (ha : ∀ o, a.object? = some o → w.Mentions o) {o : CodeObject}
    (ho : (w.proceed t a).Mentions o) : w.Mentions o := by
  rcases ho with hmem | ⟨u, hu⟩
  · exact .inl hmem
  · by_cases hut : u = t
    · subst hut
      rw [threads_proceed_self] at hu
      exact ha o hu
    · rw [threads_proceed_of_ne w hut] at hu
      exact .inr ⟨u, hu⟩

/-- A thread that is registering a manager after a move was doing so before, if the moving
thread is not. -/
theorem registering_of_proceed {u : Nat} {edge : BackEdge} {b : Bool}
    (ha : a.isRegistering = false)
    (hu : (w.proceed t a).threads u = .registering edge b) :
    u ≠ t ∧ w.threads u = .registering edge b := by
  by_cases hut : u = t
  · subst hut
    rw [threads_proceed_self] at hu
    rw [hu] at ha
    cases ha
  · rw [threads_proceed_of_ne w hut] at hu
    exact ⟨hut, hu⟩

theorem Coherent.not_registering (h : w.Coherent) (hfree : w.writer = none) {u : Nat}
    {edge : BackEdge} {b : Bool} : w.threads u ≠ .registering edge b := by
  intro hu
  have hwriter := h.exclusive u edge b hu
  rw [hfree] at hwriter
  cases hwriter

/-! ## Steps that leave the registry alone -/

/-- A change to the cache keeps coherence if the thread that makes it takes on the
invalidation of every function that loses its code. -/
theorem Coherent.recache (h : w.Coherent) (hnothing : (w.threads t).pending = [])
    (ha : a.isRegistering = false) {installation : Installation}
    (hregistry : installation.registry = w.registry)
    (hdistinct : installation.cache.recency.Nodup)
    (hstamped : Stamped installation.nextStamp ({ w with installation }.proceed t a).Mentions)
    (hkept : ∀ id o, w.cache.peek? id = some o →
      installation.cache.peek? id = some o ∨ id ∈ a.pending) :
    ({ w with installation }.proceed t a).Coherent := by
  have hbacks : ∀ id o, w.Backs id o → ({ w with installation }.proceed t a).Backs id o := by
    rintro id o (hpeek | hpending)
    · rcases hkept id o hpeek with hsame | hlost
      · exact .inl hsame
      · exact .inr ⟨t, by rw [threads_proceed_self]; exact hlost⟩
    · exact .inr (pending_proceed (w := w) hpending (by rw [hnothing]; intro hmem; cases hmem))
  constructor
  case orderly =>
    have hsame : ({ w with installation }.proceed t a).registry = w.registry := hregistry
    rw [hsame]
    exact h.orderly
  case distinct => exact hdistinct
  case stamped => exact hstamped
  case exclusive =>
    intro u edge b hu
    exact h.exclusive u edge b (registering_of_proceed ha hu).2
  case decided =>
    intro u edge hu
    exact hbacks _ _ (h.decided u edge (registering_of_proceed ha hu).2)
  case backed =>
    intro id n m hid hm
    have hsame : ({ w with installation }.proceed t a).registry = w.registry := hregistry
    rw [hsame] at hid hm
    exact hbacks id m.object (h.backed id n m hid hm)

/-- A thread may go on to an activity that holds no other object and is not the
registration of a manager. -/
theorem Coherent.proceed (h : w.Coherent) (hnothing : (w.threads t).pending = [])
    (ha : a.isRegistering = false) (hobject : ∀ o, a.object? = some o → w.Mentions o) :
    (w.proceed t a).Coherent :=
  h.recache hnothing ha rfl h.distinct
    (h.stamped.mono fun _ ho => mentions_of_proceed hobject ho) fun _ _ hpeek => .inl hpeek

theorem Coherent.proceed_of_object?_eq_none (h : w.Coherent)
    (hnothing : (w.threads t).pending = []) (ha : a.object? = none) : (w.proceed t a).Coherent :=
  h.proceed hnothing (Activity.isRegistering_eq_false ha) (holds_nothing ha)

theorem Coherent.call (h : w.Coherent) (hidle : w.threads t = .idle) (id : FunctionId) :
    (w.start t (.call id)).Coherent := by
  have hstay : w.start t (.call id) = (w.withCache (w.cache.lookup id).1).proceed t .idle := by
    rw [← hidle]
    exact (proceed_threads_self (w.withCache (w.cache.lookup id).1) t).symm
  rw [hstay]
  refine h.recache (by rw [hidle]; rfl) rfl rfl
    (Cache.nodup_recency_lookup h.distinct id) (h.stamped.mono ?_) ?_
  · intro o ho
    rcases mentions_of_proceed (w := w.withCache (w.cache.lookup id).1) (holds_nothing rfl) ho with
      ⟨j, hmem⟩ | hheld
    · have hpeek := (Cache.peek?_eq_some_iff (Cache.nodup_recency_lookup h.distinct id)).mpr hmem
      rw [Cache.peek?_lookup] at hpeek
      exact .inl ⟨j, (Cache.peek?_eq_some_iff h.distinct).mp hpeek⟩
    · exact .inr hheld
  · intro j o hpeek
    exact .inl ((Cache.peek?_lookup w.cache id j).trans hpeek)

theorem Coherent.install (h : w.Coherent) (hidle : w.threads t = .idle) (id : FunctionId)
    (code : NativeCode) : (w.start t (.install id code)).Coherent := by
  refine h.recache (by rw [hidle]; rfl) rfl rfl
    (Cache.nodup_recency_insert h.distinct id _) ((h.stamped.add code).mono ?_) ?_
  · intro o ho
    rcases mentions_of_proceed (holds_nothing rfl) ho with ⟨j, hmem⟩ | hheld
    · rcases Cache.mem_entries_insert hmem with hnew | hold
      · cases hnew
        exact .inl rfl
      · exact .inr (.inl ⟨j, hold⟩)
    · exact .inr (.inr hheld)
  · intro j o hpeek
    by_cases hj : j = id
    · exact .inr (hj ▸ List.mem_cons_self)
    · exact (Cache.peek?_insert_of_ne h.distinct hj _ hpeek).imp_right (List.mem_cons_of_mem id)

theorem Coherent.invalidate (h : w.Coherent) (hidle : w.threads t = .idle) (id : FunctionId) :
    (w.start t (.invalidate id)).Coherent := by
  refine h.recache (by rw [hidle]; rfl) rfl rfl
    (Cache.nodup_recency_remove h.distinct id) (h.stamped.mono ?_) ?_
  · intro o ho
    rcases mentions_of_proceed (holds_nothing rfl) ho with ⟨j, hmem⟩ | hheld
    · have hkept : ⟨j, o⟩ ∈ (w.cache.remove id).1.entries := hmem
      rw [Cache.entries_remove] at hkept
      exact .inl ⟨j, (List.mem_filter.mp hkept).1⟩
    · exact .inr hheld
  · intro j o hpeek
    by_cases hj : j = id
    · exact .inr (hj ▸ List.mem_cons_self)
    · exact .inl ((Cache.peek?_remove_of_ne w.cache hj).trans hpeek)

theorem Coherent.backEdge (h : w.Coherent) (hidle : w.threads t = .idle) (id : FunctionId)
    (position : Nat) (state : Snapshot) : (w.start t (.backEdge id position state)).Coherent := by
  cases hobject : w.cache.peek? id with
  | none =>
    have hstay : w.start t (.backEdge id position state) = w := by
      simp only [World.start, hobject]
    rw [hstay]
    exact h
  | some object =>
    have hasking : w.start t (.backEdge id position state) =
        w.proceed t (.asking { id, object, position, state }) := by
      simp only [World.start, hobject]
    rw [hasking]
    refine h.proceed (by rw [hidle]; rfl) rfl ?_
    intro o ho
    cases ho
    exact .inl ⟨id, (Cache.peek?_eq_some_iff h.distinct).mp hobject⟩

theorem Coherent.start (h : w.Coherent) (hidle : w.threads t = .idle) (operation : Operation) :
    (w.start t operation).Coherent := by
  cases operation with
  | call id => exact h.call hidle id
  | install id code => exact h.install hidle id code
  | invalidate id => exact h.invalidate hidle id
  | backEdge id position state => exact h.backEdge hidle id position state

/-! ## Steps on the registry -/

theorem pending_invalidateNext (ids : List FunctionId) : (invalidateNext ids).pending = ids := by
  cases ids <;> rfl

theorem object?_invalidateNext (ids : List FunctionId) : (invalidateNext ids).object? = none := by
  cases ids <;> rfl

theorem object?_enterWith (edge : BackEdge) (n : Option Nat) :
    (enterWith edge n).object? = none := by
  cases n <;> rfl

/-- An invalidation that is carried out is no longer pending, but its function then has no
manager that would need it. -/
theorem Coherent.invalidateManager (h : w.Coherent) (hfree : w.writer = none) {id : FunctionId}
    {rest : List FunctionId} (ht : w.threads t = .invalidating id rest) :
    ((w.withRegistry (w.registry.invalidate id).1).proceed t (invalidateNext rest)).Coherent := by
  have hquiet : ∀ u edge b,
      ((w.withRegistry (w.registry.invalidate id).1).proceed t (invalidateNext rest)).threads u ≠
        .registering edge b := by
    intro u edge b hu
    exact h.not_registering hfree
      (registering_of_proceed (Activity.isRegistering_eq_false (object?_invalidateNext rest)) hu).2
  constructor
  case orderly => exact h.orderly.invalidate id
  case distinct => exact h.distinct
  case stamped =>
    exact h.stamped.mono fun o ho =>
      mentions_of_proceed (w := w) (holds_nothing (object?_invalidateNext rest)) ho
  case exclusive =>
    intro u edge b hu
    exact absurd hu (hquiet u edge b)
  case decided =>
    intro u edge hu
    exact absurd hu (hquiet u edge true)
  case backed =>
    intro j n m hj hm
    have hj' : (w.registry.invalidate id).1.registered? j = some n := hj
    have hm' : (w.registry.invalidate id).1.manager? n = some m := hm
    rw [Registry.registered?_invalidate] at hj'
    split at hj'
    · cases hj'
    rename_i hne
    have hother : w.registry.registered? id ≠ some n := fun hid =>
      hne (h.orderly.registeredOnce j id n hj' hid)
    rw [Registry.manager?_invalidate, if_neg hother] at hm'
    refine backs_proceed (w := w) (h.backed j n m hj' hm') fun hmem => ?_
    rw [ht] at hmem
    rw [pending_invalidateNext]
    exact (List.mem_cons.mp hmem).resolve_left hne

/-- The cache's answer is right when it is given: objects are told apart by their stamps. -/
theorem Coherent.peek?_of_isInstalled (h : w.Coherent) {id : FunctionId} {o : CodeObject}
    (ho : w.Mentions o) (hinstalled : w.cache.isInstalled id o = true) :
    w.cache.peek? id = some o := by
  cases hpeek : w.cache.peek? id with
  | none => simp [Cache.isInstalled, hpeek] at hinstalled
  | some o' =>
    have hstamp : o'.stamp = o.stamp := by simpa [Cache.isInstalled, hpeek] using hinstalled
    have ho' : w.Mentions o' := .inl ⟨id, (Cache.peek?_eq_some_iff h.distinct).mp hpeek⟩
    rw [h.stamped.eq_of_stamp_eq o' o ho' ho hstamp]

theorem Coherent.takeLock (h : w.Coherent) (hfree : w.writer = none) {edge : BackEdge}
    (ht : w.threads t = .waiting edge) :
    ({ w with writer := some t }.proceed t
      (.registering edge (w.cache.isInstalled edge.id edge.object))).Coherent := by
  have hmentions : w.Mentions edge.object := .inr ⟨t, by rw [ht]; rfl⟩
  have hbacks : ∀ j o, w.Backs j o → ({ w with writer := some t }.proceed t
      (.registering edge (w.cache.isInstalled edge.id edge.object))).Backs j o := by
    intro j o hbacks
    exact backs_proceed (w := w) hbacks (by rw [ht]; intro hmem; cases hmem)
  constructor
  case orderly => exact h.orderly
  case distinct => exact h.distinct
  case stamped =>
    refine h.stamped.mono fun o ho => mentions_of_proceed (w := w) ?_ ho
    intro o ho
    cases ho
    exact hmentions
  case exclusive =>
    intro u edge' b hu
    by_cases hut : u = t
    · rw [hut]
      rfl
    · rw [threads_proceed_of_ne _ hut] at hu
      exact absurd hu (h.not_registering hfree)
  case decided =>
    intro u edge' hu
    by_cases hut : u = t
    · subst hut
      rw [threads_proceed_self] at hu
      injection hu with hedge hinstalled
      subst hedge
      exact hbacks _ _ (.inl (h.peek?_of_isInstalled hmentions hinstalled))
    · rw [threads_proceed_of_ne _ hut] at hu
      exact absurd hu (h.not_registering hfree)
  case backed =>
    intro j n m hj hm
    exact hbacks j m.object (h.backed j n m hj hm)

/-- A manager is registered on the cache's word.  Whatever made that word outdated in the
meantime has an invalidation of the function pending. -/
theorem Coherent.registerManager (h : w.Coherent) {edge : BackEdge} {isCurrent : Bool}
    (ht : w.threads t = .registering edge isCurrent) :
    ({ w.withRegistry (w.registry.enrol edge.id edge.object isCurrent).1 with
        writer := none }.proceed t (enterWith edge
          (w.registry.enrol edge.id edge.object isCurrent).2.manager?)).Coherent := by
  generalize (w.registry.enrol edge.id edge.object isCurrent).2.manager? = n?
  have hquiet : ∀ u edge' b,
      ({ w.withRegistry (w.registry.enrol edge.id edge.object isCurrent).1 with
        writer := none }.proceed t (enterWith edge n?)).threads u ≠ .registering edge' b := by
    intro u edge' b hu
    obtain ⟨hne, hu'⟩ :=
      registering_of_proceed (Activity.isRegistering_eq_false (object?_enterWith edge n?)) hu
    have hwriter := h.exclusive u edge' b hu'
    rw [h.exclusive t edge isCurrent ht] at hwriter
    exact hne (Option.some.inj hwriter).symm
  have hbacks : ∀ j o, w.Backs j o →
      ({ w.withRegistry (w.registry.enrol edge.id edge.object isCurrent).1 with
        writer := none }.proceed t (enterWith edge n?)).Backs j o := by
    intro j o hbacks
    exact backs_proceed (w := w) hbacks (by rw [ht]; intro hmem; cases hmem)
  constructor
  case orderly => exact h.orderly.enrol edge.id edge.object isCurrent
  case distinct => exact h.distinct
  case stamped =>
    exact h.stamped.mono fun o ho =>
      mentions_of_proceed (w := w) (holds_nothing (object?_enterWith edge n?)) ho
  case exclusive =>
    intro u edge' b hu
    exact absurd hu (hquiet u edge' b)
  case decided =>
    intro u edge' hu
    exact absurd hu (hquiet u edge' true)
  case backed =>
    intro j n m hj hm
    apply hbacks
    have hj' : (w.registry.enrol edge.id edge.object isCurrent).1.registered? j = some n := hj
    have hm' : (w.registry.enrol edge.id edge.object isCurrent).1.manager? n = some m := hm
    rcases w.registry.enrol_cases edge.id edge.object isCurrent with
      hsame | ⟨rfl, hregistered, hmanager⟩
    · rw [hsame] at hj' hm'
      exact h.backed j n m hj' hm'
    rw [hregistered] at hj'
    rw [hmanager] at hm'
    split at hj'
    · -- the new manager, whose number no function had before
      rename_i hid
      cases hj'
      rw [if_neg (fun hold => Nat.lt_irrefl _ (h.orderly.lt_size hold)),
        Registry.manager?_newManager, if_pos rfl] at hm'
      cases hm'
      rw [hid]
      exact h.decided t edge ht
    · rename_i hne
      rw [if_neg (fun hid => hne (h.orderly.registeredOnce j edge.id n hj' hid)),
        Registry.manager?_newManager, if_neg (Nat.ne_of_lt (h.orderly.lt_size hj'))] at hm'
      exact h.backed j n m hj' hm'

/-- Making an entry changes no manager's code. -/
theorem Coherent.update (h : w.Coherent) {n : Nat} {m m' : Manager} {position : Nat}
    {state : Snapshot} {e : Entry} (hm : w.registry.manager? n = some m)
    (hcreate : m.create position state = .ok (m', e)) :
    (w.withRegistry (w.registry.update m')).Coherent where
  orderly := h.orderly.update hm hcreate
  distinct := h.distinct
  stamped := h.stamped
  exclusive := h.exclusive
  decided := h.decided
  backed := by
    intro j k m₁ hj hm₁
    obtain ⟨-, rfl⟩ := Manager.issues_of_create hcreate
    have hplace : (m.adding e).id = n := h.orderly.numbered n m hm
    have hm₁' : (w.registry.update (m.adding e)).manager? k = some m₁ := hm₁
    rw [Registry.manager?_update (hplace ▸ hm)] at hm₁'
    split at hm₁'
    · rename_i hk
      cases hm₁'
      exact h.backed j n m (hplace ▸ hk ▸ hj) hm
    · exact h.backed j k m₁ hj hm₁'

/-! ## Every schedule -/

theorem Coherent.advance (h : w.Coherent) (t : Nat) : (w.advance t).Coherent := by
  unfold World.advance
  cases hactivity : w.threads t with
  | idle => exact h
  | invalidating id rest =>
    dsimp only
    split
    · exact h.invalidateManager ‹_› hactivity
    · exact h
  | asking edge =>
    have hnothing : (w.threads t).pending = [] := by rw [hactivity]; rfl
    dsimp only
    split
    · split
      · exact h.proceed_of_object?_eq_none hnothing rfl
      · refine h.proceed hnothing rfl ?_
        intro o ho
        cases ho
        exact .inr ⟨t, by rw [hactivity]; rfl⟩
    · exact h
  | waiting edge =>
    dsimp only
    split
    · exact h.takeLock ‹_› hactivity
    · exact h
  | registering edge isCurrent => exact h.registerManager hactivity
  | entering number position state =>
    have hnothing : (w.threads t).pending = [] := by rw [hactivity]; rfl
    dsimp only
    split
    · exact h.proceed_of_object?_eq_none hnothing rfl
    · split
      · exact h.proceed_of_object?_eq_none hnothing rfl
      · exact (h.update ‹_› ‹_›).proceed_of_object?_eq_none hnothing rfl
  | performing number entry =>
    have hnothing : (w.threads t).pending = [] := by rw [hactivity]; rfl
    have hanswered : ∀ answers, { w with answers }.Coherent := fun _ =>
      ⟨h.orderly, h.distinct, h.stamped, h.exclusive, h.decided, h.backed⟩
    dsimp only
    split
    · exact h.proceed_of_object?_eq_none hnothing rfl
    · exact (hanswered _).proceed_of_object?_eq_none hnothing rfl

theorem Coherent.step (h : w.Coherent) (turn : Turn) : (w.step turn).Coherent := by
  unfold World.step
  split
  · exact h.start ‹_› _
  · exact h
  · exact h.advance turn.thread

theorem Coherent.run (h : w.Coherent) (schedule : List Turn) : (w.run schedule).Coherent := by
  induction schedule generalizing w with
  | nil => exact h
  | cons turn schedule ih => exact ih (h.step turn)

theorem not_pending_of_quiet (h : w.Quiet) (id : FunctionId) : ¬ w.Pending id := by
  rintro ⟨t, ht⟩
  rw [h t] at ht
  cases ht

/-- The registry follows the cache, whatever the threads do.  After every schedule a
registered manager is not retired and runs the installed code of its function, unless an
invalidation of the function is still to come; a manager that is no longer registered is
retired and has no entries; and once no operation is under way, every registered manager
runs exactly the installed code. -/
theorem registry_follows_cache (budget : Nat) (schedule : List Turn) :
    let w := (initial budget).run schedule
    (∀ id n, w.registry.registered? id = some n →
      ∃ m, w.registry.manager? n = some m ∧ m.retired = false ∧
        (w.cache.peek? id = some m.object ∨ w.Pending id)) ∧
    (∀ n m, w.registry.manager? n = some m → (∀ id, w.registry.registered? id ≠ some n) →
      m.retired = true ∧ m.entries.isEmpty = true) ∧
    (w.Quiet → ∀ id n, w.registry.registered? id = some n →
      ∃ m, w.registry.manager? n = some m ∧ w.cache.peek? id = some m.object) := by
  intro w
  have hrun : w.Coherent := (coherent_initial budget).run schedule
  have hregistered : ∀ id n, w.registry.registered? id = some n →
      ∃ m, w.registry.manager? n = some m ∧ m.retired = false ∧
        (w.cache.peek? id = some m.object ∨ w.Pending id) := by
    intro id n hid
    obtain ⟨m, hm, hlive⟩ := hrun.orderly.inUse id n hid
    exact ⟨m, hm, hlive, hrun.backed id n m hid hm⟩
  refine ⟨hregistered, hrun.orderly.dropped, ?_⟩
  intro hquiet id n hid
  obtain ⟨m, hm, -, hbacked⟩ := hregistered id n hid
  exact ⟨m, hm, hbacked.resolve_right (not_pending_of_quiet hquiet id)⟩

-- Thread 1 registers a manager for code that thread 2 has replaced since thread 1 asked the
-- cache: the manager is registered all the same, and goes with the invalidation that
-- thread 2 could not make before.
example :
    let code : NativeCode := ⟨[0x90], [0], 0, []⟩
    let race : List Turn :=
      [⟨0, some (.install ⟨7⟩ code)⟩, ⟨0, none⟩,
       ⟨1, some (.backEdge ⟨7⟩ 0 {})⟩, ⟨1, none⟩, ⟨1, none⟩,
       ⟨2, some (.install ⟨7⟩ code)⟩, ⟨2, none⟩, ⟨1, none⟩]
    let raced := (initial 64).run race
    raced.registry.registered? ⟨7⟩ = some 0 ∧
      (raced.registry.manager? 0).map (·.object.stamp) = some 0 ∧
      (raced.cache.peek? ⟨7⟩).map (·.stamp) = some 1 ∧
      (raced.step ⟨2, none⟩).registry.registered? ⟨7⟩ = none := by
  decide +kernel

end World

end BaselineTier.Interleaving
