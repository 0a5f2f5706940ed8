import BaselineTier.Engine

/-! # Threads over installed code

Any number of threads work on one code cache and one registry.  The two have locks of
their own, so an operation is a sequence of steps, each made under one lock, and the
steps of different threads mix in any order.

* Installing code puts a new object into the cache and then takes the manager of the
  function, and those of the functions evicted for it, out of the registry, one by one.
* Invalidating a function removes its code and then its manager.
* A back edge looks at the code of its function and asks the registry for the manager of
  that code; when there is none it takes the registry's write lock, asks the cache
  whether the code is still installed and registers a manager; then it makes an entry
  and performs it.

The registry's lock is part of the state, because a thread that registers a manager holds
it while it consults the cache: the cache may change before the manager is registered,
the registry may not.
-/

set_option autoImplicit false

namespace BaselineTier.Interleaving

open Replacement

/-! ## Activities -/

/-- What a thread can begin. -/
inductive Operation where
  | call (id : FunctionId)
  | install (id : FunctionId) (code : NativeCode)
  | invalidate (id : FunctionId)
  | backEdge (id : FunctionId) (position : Nat) (state : Snapshot)

/-- A back edge and the code its function had when it was taken. -/
structure BackEdge where
  id : FunctionId
  object : CodeObject
  position : Nat
  state : Snapshot

/-- Where a thread is in its operation. -/
inductive Activity where
  | idle
  /-- Managers are still to be taken out of the registry: of `id` next, then of `rest`. -/
  | invalidating (id : FunctionId) (rest : List FunctionId)
  /-- The registry is to be asked for a manager. -/
  | asking (edge : BackEdge)
  /-- There was no manager; the registry's write lock is to be taken. -/
  | waiting (edge : BackEdge)
  /-- The write lock is held and the cache has said whether the code is installed. -/
  | registering (edge : BackEdge) (isCurrent : Bool)
  /-- An entry is to be made. -/
  | entering (manager : Nat) (position : Nat) (state : Snapshot)
  /-- An entry is to be performed. -/
  | performing (manager : Nat) (entry : Entry)

namespace Activity

/-- The functions whose managers the thread has yet to take out of the registry. -/
def pending : Activity → List FunctionId
  | .invalidating id rest => id :: rest
  | _ => []

/-- The code object the thread holds. -/
def object? : Activity → Option CodeObject
  | .asking edge | .waiting edge | .registering edge _ => some edge.object
  | _ => none

/-- Whether the thread is the one that holds the registry's write lock. -/
def isRegistering : Activity → Bool
  | .registering _ _ => true
  | _ => false

theorem isRegistering_eq_false {a : Activity} (h : a.object? = none) :
    a.isRegistering = false := by
  cases a with
  | registering edge isCurrent => cases h
  | _ => rfl

end Activity

/-! ## Worlds -/

/-- What the threads share, and where each of them is. -/
structure World where
  installation : Installation
  /-- The thread that holds the registry's write lock. -/
  writer : Option Nat := none
  threads : Nat → Activity := fun _ => .idle
  /-- The answers to the entries performed so far, latest first. -/
  answers : List (Except ReplacementError Transfer) := []

namespace World

/-- Nothing is installed and no thread does anything. -/
def initial (budget : Nat) : World :=
  { installation := .withBudget budget }

def cache (w : World) : Cache :=
  w.installation.cache

def registry (w : World) : Registry :=
  w.installation.registry

def withCache (w : World) (cache : Cache) : World :=
  { w with installation := { w.installation with cache } }

def withRegistry (w : World) (registry : Registry) : World :=
  { w with installation := { w.installation with registry } }

/-- The world after a thread has gone on to another activity. -/
def proceed (w : World) (thread : Nat) (activity : Activity) : World :=
  { w with threads := fun t => if t = thread then activity else w.threads t }

/-- Some thread has yet to take the manager of a function out of the registry. -/
def Pending (w : World) (id : FunctionId) : Prop :=
  ∃ t, id ∈ (w.threads t).pending

/-- No operation is under way. -/
def Quiet (w : World) : Prop :=
  ∀ t, w.threads t = .idle

/-! ## Steps -/

/-- The first step of an operation. -/
def start (w : World) (thread : Nat) : Operation → World
  | .call id => w.withCache (w.cache.lookup id).1
  | .install id code =>
    let (stamped, object) := w.installation.newObject code
    let (cache, victims) := stamped.cache.insert id object
    { w with installation := { stamped with cache } }.proceed thread
      (.invalidating id (victims.map CacheEntry.id))
  | .invalidate id => (w.withCache (w.cache.remove id).1).proceed thread (.invalidating id [])
  | .backEdge id position state =>
    match w.cache.peek? id with
    | some object => w.proceed thread (.asking { id, object, position, state })
    | none => w

/-- The next activity of a thread that has functions left to invalidate. -/
def invalidateNext : List FunctionId → Activity
  | [] => .idle
  | id :: rest => .invalidating id rest

/-- The next activity of a back edge that was given a manager, or none. -/
def enterWith (edge : BackEdge) : Option Nat → Activity
  | some manager => .entering manager edge.position edge.state
  | none => .idle

/-- The next step of a thread that is in an operation.  A thread that needs the
registry while another one holds its write lock stays where it is. -/
def advance (w : World) (thread : Nat) : World :=
  match w.threads thread with
  | .idle => w
  | .invalidating id rest =>
    if w.writer = none then
      (w.withRegistry (w.registry.invalidate id).1).proceed thread (invalidateNext rest)
    else w
  | .asking edge =>
    if w.writer = none then
      match w.registry.running? edge.id edge.object with
      | some manager => w.proceed thread (enterWith edge manager)
      | none => w.proceed thread (.waiting edge)
    else w
  | .waiting edge =>
    if w.writer = none then
      { w with writer := some thread }.proceed thread
        (.registering edge (w.cache.isInstalled edge.id edge.object))
    else w
  | .registering edge isCurrent =>
    let (registry, enrolment) := w.registry.enrol edge.id edge.object isCurrent
    { w.withRegistry registry with writer := none }.proceed thread
      (enterWith edge enrolment.manager?)
  | .entering manager position state =>
    match w.registry.manager? manager with
    | none => w.proceed thread .idle
    | some m =>
      match m.create position state with
      | .error _ => w.proceed thread .idle
      | .ok (updated, entry) =>
        (w.withRegistry (w.registry.update updated)).proceed thread (.performing manager entry)
  | .performing manager entry =>
    match w.registry.manager? manager with
    | none => w.proceed thread .idle
    | some m => { w with answers := m.perform entry :: w.answers }.proceed thread .idle

end World

/-- A turn of one thread. -/
structure Turn where
  thread : Nat
  /-- The operation to begin, or nothing to go on with the one under way. -/
  operation? : Option Operation := none

namespace World

/-- The world after a turn.  A thread in the middle of an operation begins no other. -/
def step (w : World) (turn : Turn) : World :=
  match turn.operation?, w.threads turn.thread with
  | some operation, .idle => w.start turn.thread operation
  | some _, _ => w
  | none, _ => w.advance turn.thread

/-- The world after the turns of a schedule. -/
def run (w : World) (schedule : List Turn) : World :=
  schedule.foldl step w

/-! ## Moving one thread -/

@[simp] theorem threads_proceed_self (w : World) (t : Nat) (a : Activity) :
    (w.proceed t a).threads t = a := by
  simp [proceed]

theorem threads_proceed_of_ne (w : World) {t u : Nat} (hne : u ≠ t) (a : Activity) :
    (w.proceed t a).threads u = w.threads u := by
  simp [proceed, hne]

theorem proceed_threads_self (w : World) (t : Nat) : w.proceed t (w.threads t) = w := by
  have hthreads : (fun u => if u = t then w.threads t else w.threads u) = w.threads := by
    funext u
    split
    · rename_i heq
      rw [heq]
    · rfl
  rw [proceed, hthreads]

/-- What a thread did before it went on does not matter. -/
theorem proceed_eq_proceed {w w' : World} {t : Nat} (hrest : w' = { w with threads := w'.threads })
    (hthreads : ∀ u, u ≠ t → w'.threads u = w.threads u) (a : Activity) :
    w'.proceed t a = w.proceed t a := by
  have hsame : (fun u => if u = t then a else w'.threads u) =
      fun u => if u = t then a else w.threads u := by
    funext u
    split
    · rfl
    · rename_i hne
      exact hthreads u hne
  rw [proceed, hsame, hrest]
  rfl

@[simp] theorem proceed_proceed (w : World) (t : Nat) (a b : Activity) :
    (w.proceed t a).proceed t b = w.proceed t b :=
  proceed_eq_proceed rfl (fun _ hne => threads_proceed_of_ne w hne a) b

/-! ## Working alone

An operation that no other thread interrupts has the effect of the operation as a whole. -/

/-- A thread begins an operation and takes the next `n` turns too. -/
def alone (thread : Nat) (operation : Operation) (n : Nat) : List Turn :=
  ⟨thread, some operation⟩ :: List.replicate n ⟨thread, none⟩

theorem run_alone {w : World} {t : Nat} (hidle : w.threads t = .idle) (operation : Operation)
    (n : Nat) : w.run (alone t operation n) =
      (w.start t operation).run (List.replicate n ⟨t, none⟩) := by
  simp only [run, alone, List.foldl_cons, step, hidle]

theorem run_replicate_succ (w : World) (t n : Nat) :
    w.run (List.replicate (n + 1) ⟨t, none⟩) =
      (w.advance t).run (List.replicate n ⟨t, none⟩) := by
  simp only [run, List.replicate_succ, List.foldl_cons, step]

theorem run_of_idle {w : World} {t : Nat} (hidle : w.threads t = .idle) (n : Nat) :
    w.run (List.replicate n ⟨t, none⟩) = w := by
  induction n with
  | zero => rfl
  | succ n ih =>
    have hstay : w.advance t = w := by simp only [advance, hidle]
    rw [run_replicate_succ, hstay, ih]

theorem run_invalidateNext {w : World} (hfree : w.writer = none) (t : Nat)
    (ids : List FunctionId) :
    (w.proceed t (invalidateNext ids)).run (List.replicate ids.length ⟨t, none⟩) =
      (w.withRegistry (Installation.invalidateAll w.registry ids)).proceed t .idle := by
  induction ids generalizing w with
  | nil => rfl
  | cons id rest ih =>
    have hadvance : (w.proceed t (invalidateNext (id :: rest))).advance t =
        (w.withRegistry (w.registry.invalidate id).1).proceed t (invalidateNext rest) := by
      have hwriter : (w.proceed t (.invalidating id rest)).writer = none := hfree
      simp only [invalidateNext, advance, threads_proceed_self, hwriter, if_true]
      exact proceed_proceed (w.withRegistry (w.registry.invalidate id).1) t _ _
    rw [List.length_cons, run_replicate_succ, hadvance]
    exact ih (w := w.withRegistry (w.registry.invalidate id).1) hfree

theorem proceed_idle {w : World} {t : Nat} (hidle : w.threads t = .idle) :
    w.proceed t .idle = w := by
  rw [← hidle]
  exact proceed_threads_self w t

theorem run_alone_install {w : World} {t : Nat} (hidle : w.threads t = .idle)
    (hfree : w.writer = none) (id : FunctionId) (code : NativeCode) :
    w.run (alone t (.install id code) ((w.installation.install id code).2.2.length + 1)) =
      { w with installation := (w.installation.install id code).1 } := by
  generalize hobject : (w.installation.newObject code).2 = object
  generalize hids : id :: (w.cache.insert id object).2.map CacheEntry.id = ids
  generalize hinserted : ({ w with installation := { (w.installation.newObject code).1 with
    cache := (w.cache.insert id object).1 } } : World) = inserted
  have hstart : w.start t (.install id code) = inserted.proceed t (invalidateNext ids) := by
    subst hobject hids hinserted
    rfl
  have hlength : (w.installation.install id code).2.2.length + 1 = ids.length := by
    subst hobject hids
    exact congrArg (· + 1) (List.length_map CacheEntry.id).symm
  have hdone : inserted.withRegistry (Installation.invalidateAll inserted.registry ids) =
      { w with installation := (w.installation.install id code).1 } := by
    subst hobject hids hinserted
    rfl
  have hinsertedFree : inserted.writer = none := by rw [← hinserted]; exact hfree
  rw [run_alone hidle, hstart, hlength, run_invalidateNext hinsertedFree, hdone]
  exact proceed_idle hidle

theorem run_alone_invalidate {w : World} {t : Nat} (hidle : w.threads t = .idle)
    (hfree : w.writer = none) (id : FunctionId) :
    w.run (alone t (.invalidate id) 1) =
      { w with installation := (w.installation.invalidate id).1 } := by
  rw [run_alone hidle]
  refine (run_invalidateNext (w := w.withCache (w.cache.remove id).1) hfree t [id]).trans ?_
  exact proceed_idle hidle

/-- The installation after a manager, if there is one, was asked for an entry. -/
def entered (s : Installation) (position : Nat) (state : Snapshot) (manager? : Option Manager) :
    Installation :=
  match manager? with
  | none => s
  | some m =>
    match m.create position state with
    | .error _ => s
    | .ok (updated, _) => { s with registry := s.registry.update updated }

theorem installation_enter (e : Engine) (m : Manager) (position : Nat) (state : Snapshot) :
    (e.enter m position state).value.1.installation =
      entered e.installation position state (some m) := by
  simp only [Engine.enter, entered]
  cases m.create position state with
  | error cause => cases cause <;> rfl
  | ok made =>
    obtain ⟨updated, entry⟩ := made
    simp only [Traced.value_bind]
    cases updated.perform entry with
    | ok transfer => rfl
    | error cause => cases cause <;> rfl

/-- A back edge that was given a manager, or none, makes an entry, performs it and is done. -/
theorem run_enterWith (w : World) (t n : Nat) (edge : BackEdge) (manager? : Option Nat) :
    ∃ answers, (w.proceed t (enterWith edge manager?)).run (List.replicate (n + 2) ⟨t, none⟩) =
      { w with
        installation := entered w.installation edge.position edge.state
          (manager?.bind w.registry.manager?)
        answers }.proceed t .idle := by
  have hidle : ∀ (w' : World) k, ((w'.proceed t .idle).run (List.replicate k ⟨t, none⟩)) =
      w'.proceed t .idle := fun w' k => run_of_idle (threads_proceed_self w' t .idle) k
  cases manager? with
  | none =>
    rw [enterWith, hidle]
    exact ⟨w.answers, rfl⟩
  | some number =>
    simp only [enterWith, run_replicate_succ, advance, threads_proceed_self, Option.bind_some]
    have hregistry : ∀ a, (w.proceed t a).registry = w.registry := fun _ => rfl
    rw [hregistry]
    cases hm : w.registry.manager? number with
    | none =>
      simp only [proceed_proceed, threads_proceed_self, hidle]
      exact ⟨w.answers, rfl⟩
    | some m =>
      cases hcreate : m.create edge.position edge.state with
      | error cause =>
        simp only [proceed_proceed, threads_proceed_self, hidle, hcreate, entered]
        exact ⟨w.answers, rfl⟩
      | ok made =>
        simp only [threads_proceed_self, hcreate, entered]
        have hothers : ∀ u, u ≠ t → (((w.proceed t (.entering number edge.position edge.state)
            ).withRegistry (w.registry.update made.1)).proceed t
              (.performing number made.2)).threads u = w.threads u := fun u hne =>
          (threads_proceed_of_ne _ hne _).trans (threads_proceed_of_ne w hne _)
        split
        · rw [hidle]
          refine ⟨w.answers, proceed_eq_proceed ?_ ?_ .idle⟩
          · rfl
          · exact hothers
        · rename_i performer _
          rw [hidle]
          refine ⟨performer.perform made.2 :: w.answers, proceed_eq_proceed ?_ ?_ .idle⟩
          · rfl
          · exact hothers

theorem advance_asking {w : World} (hfree : w.writer = none) (t : Nat) (edge : BackEdge) :
    (w.proceed t (.asking edge)).advance t =
      match w.registry.running? edge.id edge.object with
      | some manager => w.proceed t (enterWith edge manager)
      | none => w.proceed t (.waiting edge) := by
  have hwriter : (w.proceed t (.asking edge)).writer = none := hfree
  simp only [advance, threads_proceed_self, hwriter, if_true, proceed_proceed]
  rfl

theorem advance_waiting {w : World} (hfree : w.writer = none) (t : Nat) (edge : BackEdge) :
    (w.proceed t (.waiting edge)).advance t =
      { w with writer := some t }.proceed t
        (.registering edge (w.cache.isInstalled edge.id edge.object)) := by
  have hwriter : (w.proceed t (.waiting edge)).writer = none := hfree
  simp only [advance, threads_proceed_self, hwriter, if_true]
  exact proceed_proceed { w with writer := some t } t _ _

theorem advance_registering (w : World) (t : Nat) (edge : BackEdge) (isCurrent : Bool) :
    (w.proceed t (.registering edge isCurrent)).advance t =
      { w.withRegistry (w.registry.enrol edge.id edge.object isCurrent).1 with
        writer := none }.proceed t
        (enterWith edge (w.registry.enrol edge.id edge.object isCurrent).2.manager?) := by
  simp only [advance, threads_proceed_self]
  exact proceed_proceed { w.withRegistry (w.registry.enrol edge.id edge.object isCurrent).1 with
    writer := none } t _ _

theorem installation_onBackEdge {e : Engine} (hon : e.config.replacement = true)
    {id : FunctionId} {object : CodeObject}
    (hobject : e.installation.cache.peek? id = some object) (position : Nat) (state : Snapshot)
    {registry : Registry} {enrolment : Enrolment}
    (henrol : e.installation.registry.enrol id object
      (e.installation.cache.isInstalled id object) = (registry, enrolment)) :
    (e.onBackEdge id position state).value.1.installation =
      entered { e.installation with registry } position state
        (enrolment.manager?.bind registry.manager?) := by
  simp only [Engine.onBackEdge, hon, hobject, henrol]
  cases enrolment.manager?.bind registry.manager? with
  | none => rfl
  | some m => exact installation_enter { e with installation := _ } m position state

/-- A back edge on its own does what the engine's does. -/
theorem run_alone_backEdge {w : World} {t : Nat} (hidle : w.threads t = .idle)
    (hfree : w.writer = none) {e : Engine} (he : e.installation = w.installation)
    (hon : e.config.replacement = true) (id : FunctionId) (position : Nat) (state : Snapshot) :
    ∃ answers, w.run (alone t (.backEdge id position state) 5) =
      { w with
        installation := (e.onBackEdge id position state).value.1.installation
        answers } := by
  rw [run_alone hidle]
  cases hpeek : w.cache.peek? id with
  | none =>
    have hengine : e.installation.cache.peek? id = none := by rw [he]; exact hpeek
    have hsame : (e.onBackEdge id position state).value.1.installation = w.installation := by
      simp only [Engine.onBackEdge, hon, hengine]
      exact he
    simp only [start, hpeek, run_of_idle hidle, hsame]
    exact ⟨w.answers, rfl⟩
  | some object =>
    have hengine : e.installation.cache.peek? id = some object := by rw [he]; exact hpeek
    generalize hedge : (⟨id, object, position, state⟩ : BackEdge) = edge
    have hstart : w.start t (.backEdge id position state) = w.proceed t (.asking edge) := by
      simp only [start, hpeek, hedge]
    rw [hstart, run_replicate_succ]
    cases hrunning : w.registry.running? id object with
    | some number =>
      have henrol : e.installation.registry.enrol id object
          (e.installation.cache.isInstalled id object) = (w.registry, .known number) := by
        have hsame : w.installation.registry.running? id object = some number := hrunning
        simp only [he, Registry.enrol, hsame]
        rfl
      have hasked : (w.proceed t (.asking edge)).advance t =
          w.proceed t (enterWith edge number) := by
        rw [advance_asking hfree, ← hedge]
        simp only [hrunning]
      obtain ⟨answers, hrun⟩ := run_enterWith w t 2 edge number
      refine ⟨answers, ?_⟩
      rw [hasked, hrun, installation_onBackEdge hon hengine _ _ henrol, he, ← hedge]
      exact proceed_idle hidle
    | none =>
      have hasked : (w.proceed t (.asking edge)).advance t = w.proceed t (.waiting edge) := by
        rw [advance_asking hfree, ← hedge]
        simp only [hrunning]
      obtain ⟨answers, hrun⟩ := run_enterWith
        { w.withRegistry (w.registry.enrol edge.id edge.object
            (w.cache.isInstalled edge.id edge.object)).1 with writer := none } t 0 edge
        (w.registry.enrol edge.id edge.object
          (w.cache.isInstalled edge.id edge.object)).2.manager?
      refine ⟨answers, ?_⟩
      rw [hasked, run_replicate_succ, advance_waiting hfree, run_replicate_succ,
        advance_registering, installation_onBackEdge hon hengine position state rfl, he, hfree]
      subst hedge
      refine hrun.trans ?_
      refine (proceed_idle ?_).trans ?_
      · exact hidle
      · rfl

end World

end BaselineTier.Interleaving
