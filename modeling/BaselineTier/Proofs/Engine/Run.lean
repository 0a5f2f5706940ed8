import BaselineTier.Proofs.Replacement.Consistency
import BaselineTier.Proofs.Replacement.History

/-! # Runs of an engine

An engine is told of calls, back edges and invalidations, one after the other.  A call is
the only one of these with several outcomes, which are listed once in `CallOutcome`.

An engine that works alone is a thread without others, so after every run its registry
follows its cache.
-/

set_option autoImplicit false

namespace BaselineTier

open Replacement

namespace Engine

/-! ## Operations -/

/-- What an engine is told. -/
inductive Operation where
  | call (id : FunctionId) (program : Bytecode.Program) (calls : Nat)
  | backEdge (id : FunctionId) (position : Nat) (state : Snapshot)
  | invalidate (id : FunctionId)

/-- The engine after an operation. -/
def after (e : Engine) : Operation → Engine
  | .call id program calls => (e.onCall id program calls).value.1
  | .backEdge id position state => (e.onBackEdge id position state).value.1
  | .invalidate id => (e.invalidate id).1

/-- The engine after several operations. -/
def afterAll (e : Engine) (ops : List Operation) : Engine :=
  ops.foldl after e

theorem afterAll_concat (e : Engine) (ops : List Operation) (op : Operation) :
    e.afterAll (ops ++ [op]) = (e.afterAll ops).after op := by
  simp [afterAll]

/-- What every operation keeps holds after every run. -/
theorem afterAll_induction {P : Engine → Prop} (hstep : ∀ e op, P e → P (e.after op))
    {e : Engine} (he : P e) (ops : List Operation) : P (e.afterAll ops) := by
  induction ops generalizing e with
  | nil => exact he
  | cons op ops ih => exact ih (hstep e op he)

/-- The engine of a configuration that compiles at calls. -/
def synchronous (config : EngineConfig) : Engine :=
  ofConfig { config with background := false }

/-- The engine of a configuration that compiles in the background. -/
def inBackground (config : EngineConfig) : Engine :=
  ofConfig { config with background := true }

/-! ## Calls -/

/-- The engine after a call that found code. -/
def found (e : Engine) (id : FunctionId) : Engine :=
  { e with
    installation := { e.installation with cache := (e.installation.cache.lookup id).1 }
    stats := { e.stats with hits := e.stats.hits + 1 } }

/-- The engine after a call that found no code. -/
def missed (e : Engine) (id : FunctionId) : Engine :=
  { e with
    installation := { e.installation with cache := (e.installation.cache.lookup id).1 }
    stats := { e.stats with misses := e.stats.misses + 1 } }

/-- The engine after a compile that failed. -/
def refused (e : Engine) : Engine :=
  { e with stats := { e.stats with failures := e.stats.failures + 1 } }

/-- The engine after a compile whose code was installed. -/
def installed (e : Engine) (id : FunctionId) (code : NativeCode) : Engine :=
  { e with
    installation := (e.installation.install id code).1
    stats := { e.stats with compilations := e.stats.compilations + 1 } }

/-- The ways a call on a synchronous engine can go, with the engine after it and the
answer. -/
inductive CallOutcome (e : Engine) (id : FunctionId) (program : Bytecode.Program) (calls : Nat) :
    Engine × Except Error (Option CodeObject) → Prop where
  | found {object : CodeObject} (hpeek : e.installation.cache.peek? id = some object) :
      CallOutcome e id program calls (e.found id, .ok (some object))
  | cold (hpeek : e.installation.cache.peek? id = none) (hcold : calls < e.config.threshold) :
      CallOutcome e id program calls (e.missed id, .ok none)
  | refused {cause : Error} (hpeek : e.installation.cache.peek? id = none)
      (hhot : e.config.threshold ≤ calls)
      (hcompile : e.config.compiler.compile program = .error cause) :
      CallOutcome e id program calls ((e.missed id).refused, .error cause)
  | compiled {result : Compilation} (hpeek : e.installation.cache.peek? id = none)
      (hhot : e.config.threshold ≤ calls)
      (hcompile : e.config.compiler.compile program = .ok result) :
      CallOutcome e id program calls
        ((e.missed id).installed id result.code,
          .ok (some ⟨e.installation.nextStamp, result.code⟩))

section Calls

variable {e : Engine} {id : FunctionId} (program : Bytecode.Program) {calls : Nat}

theorem isHot_iff : e.config.compiler.isHot calls = true ↔ e.config.threshold ≤ calls :=
  decide_eq_true_iff

theorem onCall_of_found {object : CodeObject}
    (hpeek : e.installation.cache.peek? id = some object) (calls : Nat) :
    (e.onCall id program calls).value = (e.found id, .ok (some object)) := by
  simp [onCall, found, Cache.lookup, hpeek]

theorem onCall_of_cold (hpeek : e.installation.cache.peek? id = none)
    (hcold : calls < e.config.threshold) :
    (e.onCall id program calls).value = (e.missed id, .ok none) := by
  have hnot : ¬ e.config.compiler.isHot calls = true := by
    rw [isHot_iff]
    exact Nat.not_le_of_lt hcold
  simp [onCall, missed, Cache.lookup, hpeek, hnot]

/-- A tier-up with a worker: the request is queued. -/
theorem onCall_of_queued (hpeek : e.installation.cache.peek? id = none)
    (hhot : e.config.threshold ≤ calls) (hworker : e.isBackground = true) :
    (e.onCall id program calls).value = ((e.missed id).enqueue { id, program }, .ok none) := by
  simp [onCall, missed, Cache.lookup, hpeek, isHot_iff.mpr hhot, hworker]

/-- A tier-up without a worker: the function is compiled. -/
theorem onCall_of_hot (hpeek : e.installation.cache.peek? id = none)
    (hhot : e.config.threshold ≤ calls) (hsync : e.isBackground = false) :
    (e.onCall id program calls).value = ((e.missed id).compileNow id program).value := by
  simp [onCall, missed, Cache.lookup, hpeek, isHot_iff.mpr hhot, hsync]

theorem compileNow_of_error {cause : Error}
    (hcompile : e.config.compiler.compile program = .error cause) :
    (e.compileNow id program).value = (e.refused, .error cause) := by
  simp [compileNow, hcompile, refused]

theorem compileNow_of_ok {result : Compilation}
    (hcompile : e.config.compiler.compile program = .ok result) :
    (e.compileNow id program).value =
      (e.installed id result.code, .ok (some ⟨e.installation.nextStamp, result.code⟩)) := by
  simp [compileNow, hcompile, installed, Installation.install, Installation.newObject]

theorem callOutcome_onCall (hsync : e.isBackground = false) (id : FunctionId) (calls : Nat) :
    CallOutcome e id program calls (e.onCall id program calls).value := by
  cases hpeek : e.installation.cache.peek? id with
  | some object =>
    rw [onCall_of_found program hpeek]
    exact .found hpeek
  | none =>
    by_cases hhot : e.config.threshold ≤ calls
    · rw [onCall_of_hot program hpeek hhot hsync]
      cases hcompile : e.config.compiler.compile program with
      | error cause =>
        rw [compileNow_of_error (e := e.missed id) program hcompile]
        exact .refused hpeek hhot hcompile
      | ok result =>
        rw [compileNow_of_ok (e := e.missed id) program hcompile]
        exact .compiled hpeek hhot hcompile
    · rw [onCall_of_cold program hpeek (Nat.lt_of_not_le hhot)]
      exact .cold hpeek (Nat.lt_of_not_le hhot)

end Calls

/-! ## Back edges -/

/-- The engine after the registry was asked for the manager of some code. -/
def enrolled (e : Engine) (id : FunctionId) (object : CodeObject) : Engine :=
  { e with
    installation :=
      { e.installation with
        registry := (e.installation.registry.enrol id object
          (e.installation.cache.isInstalled id object)).1 } }

/-- The manager that the registry gives for some code. -/
def asked? (e : Engine) (id : FunctionId) (object : CodeObject) : Option Manager :=
  (e.installation.registry.enrol id object
    (e.installation.cache.isInstalled id object)).2.manager?.bind
      (e.enrolled id object).installation.registry.manager?

/-- The engine after a manager made an entry. -/
def captured (e : Engine) (updated : Manager) : Engine :=
  { e with
    installation :=
      { e.installation with registry := e.installation.registry.update updated }
    stats := { e.stats with entries := e.stats.entries + 1 } }

section BackEdges

variable {e : Engine} {id : FunctionId} (position : Nat) (state : Snapshot)

theorem onBackEdge_of_off (hoff : e.config.replacement = false) (id : FunctionId) :
    (e.onBackEdge id position state).value = (e, .ok none) := by
  simp [onBackEdge, hoff]

theorem onBackEdge_of_none (hpeek : e.installation.cache.peek? id = none) :
    (e.onBackEdge id position state).value = (e, .ok none) := by
  cases hon : e.config.replacement with
  | false => exact onBackEdge_of_off position state hon id
  | true => simp [onBackEdge, hon, hpeek]

theorem onBackEdge_of_some (hon : e.config.replacement = true) {object : CodeObject}
    (hpeek : e.installation.cache.peek? id = some object) :
    (e.onBackEdge id position state).value =
      match e.asked? id object with
      | some manager => ((e.enrolled id object).enter manager position state).value
      | none => (e.enrolled id object, .ok none) := by
  simp only [onBackEdge, hon, hpeek]
  cases hasked : e.asked? id object with
  | some manager =>
    simp only [asked?, enrolled] at hasked
    simp only [hasked]
    rfl
  | none =>
    simp only [asked?, enrolled] at hasked
    simp only [hasked]
    rfl

/-- An entry that was just made is performed. -/
theorem enter_eq (e : Engine) (m : Manager) :
    (e.enter m position state).value =
      match m.create position state with
      | .error (.retired _) => (e, .ok none)
      | .error cause => (e, .error (.replacement cause))
      | .ok (updated, entry) => (e.captured updated, .ok (some (updated.transferOf entry))) := by
  unfold enter
  cases hcreate : m.create position state with
  | error cause => cases cause <;> rfl
  | ok made =>
    obtain ⟨updated, entry⟩ := made
    obtain ⟨hissues, rfl⟩ := Manager.issues_of_create hcreate
    have hperform : (m.adding entry).perform entry = .ok ((m.adding entry).transferOf entry) :=
      Manager.perform_eq_ok hissues.number hissues.generation
    simp only [Traced.value_bind, hperform]
    rfl

/-- A back edge changes nothing but the registry and the count of entries. -/
theorem onBackEdge_changes (e : Engine) (id : FunctionId) :
    ∃ registry entries, (e.onBackEdge id position state).value.1 =
      { e with
        installation := { e.installation with registry }
        stats := { e.stats with entries } } := by
  cases hon : e.config.replacement with
  | false =>
    rw [onBackEdge_of_off position state hon]
    exact ⟨_, _, rfl⟩
  | true =>
    cases hpeek : e.installation.cache.peek? id with
    | none =>
      rw [onBackEdge_of_none position state hpeek]
      exact ⟨_, _, rfl⟩
    | some object =>
      rw [onBackEdge_of_some position state hon hpeek]
      cases e.asked? id object with
      | none => exact ⟨_, _, rfl⟩
      | some m =>
        dsimp only
        rw [enter_eq]
        split
        · exact ⟨_, _, rfl⟩
        · exact ⟨_, _, rfl⟩
        · exact ⟨_, _, rfl⟩

end BackEdges

/-! ## Whole runs -/

/-- A synchronous engine keeps its configuration, and stays synchronous. -/
theorem after_keeps {e : Engine} (hsync : e.isBackground = false) (op : Operation) :
    (e.after op).config = e.config ∧ (e.after op).isBackground = false := by
  cases op with
  | call id program calls =>
    have houtcome := callOutcome_onCall program hsync id calls
    simp only [after]
    generalize (e.onCall id program calls).value = result at houtcome
    cases houtcome with
    | found hpeek => exact ⟨rfl, hsync⟩
    | cold hpeek hcold => exact ⟨rfl, hsync⟩
    | refused hpeek hhot hcompile => exact ⟨rfl, hsync⟩
    | compiled hpeek hhot hcompile => exact ⟨rfl, hsync⟩
  | backEdge id position state =>
    obtain ⟨registry, entries, hafter⟩ := onBackEdge_changes position state e id
    rw [after, hafter]
    exact ⟨rfl, hsync⟩
  | invalidate id => exact ⟨rfl, hsync⟩

theorem afterAll_keeps (config : EngineConfig) (ops : List Operation) :
    ((synchronous config).afterAll ops).config = { config with background := false } ∧
      ((synchronous config).afterAll ops).isBackground = false := by
  refine afterAll_induction
    (P := fun e => e.config = { config with background := false } ∧ e.isBackground = false)
    (fun e op he => ?_) ⟨rfl, rfl⟩ ops
  have hkeeps := after_keeps he.2 op
  exact ⟨hkeeps.1.trans he.1, hkeeps.2⟩

end Engine

/-! ## Registry and cache -/

namespace Installation

open Interleaving (World)

/-- The registry follows the cache, as it does for threads when none is at work. -/
def Coherent (s : Installation) : Prop :=
  World.Coherent { installation := s }

theorem coherent_withBudget (budget : Nat) : (withBudget budget).Coherent :=
  World.coherent_initial budget

namespace Coherent

variable {s : Installation}

theorem orderly (h : s.Coherent) : s.registry.Orderly :=
  World.Coherent.orderly h

theorem distinct (h : s.Coherent) : s.cache.recency.Nodup :=
  World.Coherent.distinct h

theorem lookup (h : s.Coherent) (id : FunctionId) :
    Coherent { s with cache := (s.cache.lookup id).1 } :=
  World.Coherent.start (t := 0) h rfl (.call id)

theorem install (h : s.Coherent) (id : FunctionId) (code : NativeCode) :
    Coherent (s.install id code).1 := by
  unfold Coherent
  rw [← World.run_alone_install (w := { installation := s }) (t := 0) rfl rfl id code]
  exact World.Coherent.run h _

theorem invalidate (h : s.Coherent) (id : FunctionId) : Coherent (s.invalidate id).1 := by
  unfold Coherent
  rw [← World.run_alone_invalidate (w := { installation := s }) (t := 0) rfl rfl id]
  exact World.Coherent.run h _

/-- The manager registered for a function runs its installed code. -/
theorem peek?_of_registered? (h : s.Coherent) {id : FunctionId} {n : Nat} {m : Manager}
    (hid : s.registry.registered? id = some n) (hm : s.registry.manager? n = some m) :
    s.cache.peek? id = some m.object := by
  refine (World.Coherent.backed h id n m hid hm).resolve_right (World.not_pending_of_quiet ?_ id)
  exact fun _ => rfl

end Coherent

end Installation

namespace Engine

theorem coherent_onBackEdge {e : Engine} (h : e.installation.Coherent) (id : FunctionId)
    (position : Nat) (state : Snapshot) :
    (e.onBackEdge id position state).value.1.installation.Coherent := by
  cases hon : e.config.replacement with
  | false =>
    rw [onBackEdge_of_off position state hon]
    exact h
  | true =>
    obtain ⟨answers, hrun⟩ := Interleaving.World.run_alone_backEdge
      (w := { installation := e.installation }) (t := 0) rfl rfl rfl hon id position state
    have hcoherent := hrun ▸ Interleaving.World.Coherent.run h _
    exact ⟨hcoherent.orderly, hcoherent.distinct, hcoherent.stamped, hcoherent.exclusive,
      hcoherent.decided, hcoherent.backed⟩

theorem coherent_after {e : Engine} (hsync : e.isBackground = false)
    (h : e.installation.Coherent) (op : Operation) : (e.after op).installation.Coherent := by
  cases op with
  | call id program calls =>
    have houtcome := callOutcome_onCall program hsync id calls
    simp only [after]
    generalize (e.onCall id program calls).value = result at houtcome
    cases houtcome with
    | found hpeek => exact h.lookup id
    | cold hpeek hcold => exact h.lookup id
    | refused hpeek hhot hcompile => exact h.lookup id
    | compiled hpeek hhot hcompile => exact (h.lookup id).install id _
  | backEdge id position state => exact coherent_onBackEdge h id position state
  | invalidate id => exact h.invalidate id

/-- After every run of a synchronous engine the registry follows the cache. -/
theorem coherent_afterAll (config : EngineConfig) (ops : List Operation) :
    ((synchronous config).afterAll ops).installation.Coherent := by
  refine (afterAll_induction
    (P := fun e => e.isBackground = false ∧ e.installation.Coherent)
    (fun e op he => ⟨(after_keeps he.1 op).2, coherent_after he.1 he.2 op⟩)
    ⟨rfl, Installation.coherent_withBudget config.cacheBudget⟩ ops).2

end Engine

end BaselineTier
