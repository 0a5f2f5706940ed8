import BaselineTier.Proofs.Engine.Run
import BaselineTier.Proofs.Worker.Results

/-! # Background and synchronous engines

Two engines that differ only in where they compile are told the same, and the worker of the
one that compiles in the background works through its queue after each operation.  They stay
in lockstep: the same is installed in both.

The two take separate ways to the same installation.  One compiles at the call; the other
queues a request, which the worker takes, compiles, installs, retains as a result and marks
as completed.  With an idle queue before the call, all of this leaves an idle queue behind.
-/

set_option autoImplicit false

namespace BaselineTier

/-! ## The worker -/

/-- A worker with one request works on it, and leaves its queue idle. -/
theorem Workshop.drain_of_single (w : Worker) (s : Installation) (r : Request) :
    (Workshop.drain ⟨{ pending := [r], busy := [r.id] }, w, s⟩).value =
      ⟨{}, (w.compile s r).value.1.retain (w.compile s r).value.2.2,
        (w.compile s r).value.2.1⟩ := by
  simp [drain, Queue.size, run, Queue.takeOpen?, Queue.take?, process, Queue.complete]

namespace Engine

/-! ## Settling -/

theorem settle_of_alone {e : Engine} (h : e.worker? = none) : e.settle = e := by
  unfold settle
  rw [h]

theorem settle_of_idle {e : Engine} {w : Worker} (hworker : e.worker? = some w)
    (hidle : e.queue = {}) : e.settle = e := by
  obtain ⟨config, installation, queue, worker?, stats⟩ := e
  cases hworker
  cases hidle
  rfl

theorem enqueue_of_idle {e : Engine} (hidle : e.queue = {}) (r : Request) :
    e.enqueue r =
      { e with
        queue := { pending := [r], busy := [r.id] }
        stats := { e.stats with queued := e.stats.queued + 1 } } := by
  obtain ⟨config, installation, queue, worker?, stats⟩ := e
  cases hidle
  rfl

/-- A queued request is worked on as the engine settles. -/
theorem settle_enqueue {e : Engine} {w : Worker} (hworker : e.worker? = some w)
    (hidle : e.queue = {}) (r : Request) :
    (e.enqueue r).settle =
      { e with
        queue := {}
        installation := (w.compile e.installation r).value.2.1
        worker? := some
          ((w.compile e.installation r).value.1.retain (w.compile e.installation r).value.2.2)
        stats := { e.stats with queued := e.stats.queued + 1 } } := by
  rw [enqueue_of_idle hidle]
  unfold settle
  rw [hworker]
  dsimp only
  rw [Workshop.drain_of_single]

/-! ## Lockstep -/

/-- An engine after an operation, once its worker has worked through its queue. -/
def settledAfter (e : Engine) (op : Operation) : Engine :=
  (e.after op).settle

/-- An engine after several operations, its worker working through the queue after each. -/
def settledAfterAll (e : Engine) (ops : List Operation) : Engine :=
  ops.foldl settledAfter e

/-- A synchronous engine and a background one, of configurations that agree in everything
else, that have done the same. -/
structure Lockstep (config : EngineConfig) (s b : Engine) : Prop where
  installation : b.installation = s.installation
  synchronous : s.config = { config with background := false }
  background : b.config = { config with background := true }
  alone : s.worker? = none
  idle : b.queue = {}
  worker : ∃ w, b.worker? = some w ∧ w.config = config.compiler ∧
    w.stats.compilations = s.stats.compilations ∧ w.stats.failures = s.stats.failures
  queued : b.stats.queued = s.stats.compilations + s.stats.failures

theorem lockstep_initial (config : EngineConfig) :
    Lockstep config (synchronous config) (inBackground config) where
  installation := rfl
  synchronous := rfl
  background := rfl
  alone := rfl
  idle := rfl
  worker := ⟨_, rfl, rfl, rfl, rfl⟩
  queued := rfl

/-- What a back edge does follows from what is installed. -/
theorem onBackEdge_congr {s b : Engine} (hinstallation : b.installation = s.installation)
    (hreplacement : b.config.replacement = s.config.replacement) (id : FunctionId)
    (position : Nat) (state : Snapshot) :
    (b.onBackEdge id position state).value.1.installation =
        (s.onBackEdge id position state).value.1.installation ∧
      (b.onBackEdge id position state).value.2 = (s.onBackEdge id position state).value.2 := by
  cases hon : s.config.replacement with
  | false =>
    rw [onBackEdge_of_off position state hon,
      onBackEdge_of_off position state (hreplacement.trans hon)]
    exact ⟨hinstallation, rfl⟩
  | true =>
    cases hpeek : s.installation.cache.peek? id with
    | none =>
      rw [onBackEdge_of_none position state hpeek,
        onBackEdge_of_none position state (hinstallation ▸ hpeek)]
      exact ⟨hinstallation, rfl⟩
    | some object =>
      have hasked : b.asked? id object = s.asked? id object := by
        simp only [asked?, enrolled, hinstallation]
      have henrolled :
          (b.enrolled id object).installation = (s.enrolled id object).installation := by
        simp only [enrolled, hinstallation]
      rw [onBackEdge_of_some position state hon hpeek,
        onBackEdge_of_some position state (hreplacement.trans hon) (hinstallation ▸ hpeek),
        hasked]
      cases s.asked? id object with
      | none => exact ⟨henrolled, rfl⟩
      | some m =>
        dsimp only
        rw [enter_eq, enter_eq]
        split
        · exact ⟨henrolled, rfl⟩
        · exact ⟨henrolled, rfl⟩
        · simp only [captured, henrolled, and_self]

namespace Lockstep

variable {config : EngineConfig} {s b : Engine} (h : Lockstep config s b)

include h

theorem onBackEdge (id : FunctionId) (position : Nat) (state : Snapshot) :
    (b.onBackEdge id position state).value.1.installation =
        (s.onBackEdge id position state).value.1.installation ∧
      (b.onBackEdge id position state).value.2 = (s.onBackEdge id position state).value.2 :=
  onBackEdge_congr h.installation (by rw [h.background, h.synchronous]) id position state

theorem invalidate (id : FunctionId) :
    (b.invalidate id).1.installation = (s.invalidate id).1.installation ∧
      (b.invalidate id).2 = (s.invalidate id).2 := by
  simp only [Engine.invalidate, h.installation, and_self]

/-- Operations without compilation: what is installed may change, in both engines alike. -/
theorem keep {installation installation' : Installation} {stats stats' : EngineStats}
    (hinstallation : installation' = installation)
    (hcompilations : stats.compilations = s.stats.compilations)
    (hfailures : stats.failures = s.stats.failures)
    (hqueued : stats'.queued = b.stats.queued) :
    Lockstep config { s with installation, stats }
      { b with installation := installation', stats := stats' } where
  installation := hinstallation
  synchronous := h.synchronous
  background := h.background
  alone := h.alone
  idle := h.idle
  worker := by
    dsimp only
    rw [hcompilations, hfailures]
    exact h.worker
  queued := by
    dsimp only
    rw [hcompilations, hfailures, hqueued]
    exact h.queued

theorem missed (id : FunctionId) : Lockstep config (s.missed id) (b.missed id) :=
  h.keep (by rw [h.installation]) rfl rfl rfl

/-- Operations with compilation: both engines count the compile, the background engine with
its worker, and install the same. -/
theorem work (w : Worker) (installation : Installation) (stats : EngineStats)
    (hconfig : w.config = config.compiler)
    (hcompilations : w.stats.compilations = stats.compilations)
    (hfailures : w.stats.failures = stats.failures)
    (hqueued : b.stats.queued + 1 = stats.compilations + stats.failures)
    (result : CompilationResult) :
    Lockstep config { s with installation, stats }
      { b with
        queue := {}
        installation
        worker? := some (w.retain result)
        stats := { b.stats with queued := b.stats.queued + 1 } } where
  installation := rfl
  synchronous := h.synchronous
  background := h.background
  alone := h.alone
  idle := rfl
  worker := by
    obtain ⟨hretained, hcompiled, hfailed, -⟩ := w.retain_keeps result
    exact ⟨_, rfl, hretained.trans hconfig, hcompiled.trans hcompilations,
      hfailed.trans hfailures⟩
  queued := hqueued

/-- A tier-up: the worker does what the synchronous engine does at the call. -/
theorem compile (id : FunctionId) (program : Bytecode.Program) :
    Lockstep config (s.compileNow id program).value.1 (b.enqueue { id, program }).settle := by
  obtain ⟨w, hworker, hconfig, hcompilations, hfailures⟩ := h.worker
  have hqueued := h.queued
  have hsame : w.config = s.config.compiler := by
    rw [hconfig, h.synchronous]
    rfl
  rw [settle_enqueue hworker h.idle, h.installation]
  cases hcompile : s.config.compiler.compile program with
  | error cause =>
    rw [compileNow_of_error program hcompile,
      Worker.compile_of_error (w := w) s.installation (hsame ▸ hcompile)]
    refine h.work w.refused s.installation s.refused.stats hconfig hcompilations
      (congrArg (· + 1) hfailures) ?_ _
    simp only [refused]
    omega
  | ok result =>
    rw [compileNow_of_ok program hcompile,
      Worker.compile_of_ok (w := w) s.installation (hsame ▸ hcompile)]
    refine h.work (w.compiled result.code) (s.installation.install id result.code).1
      (s.installed id result.code).stats hconfig (congrArg (· + 1) hcompilations) hfailures ?_ _
    simp only [installed]
    omega

/-- Engines in lockstep are settled. -/
theorem settle : Lockstep config s.settle b.settle := by
  obtain ⟨w, hworker, -⟩ := h.worker
  rwa [settle_of_alone h.alone, settle_of_idle hworker h.idle]

/-- A call: once the background engine has settled they are in lockstep, and until then it
differs in its answer to a tier-up. -/
theorem onCall (id : FunctionId) (program : Bytecode.Program) (calls : Nat) :
    Lockstep config (s.onCall id program calls).value.1.settle
        (b.onCall id program calls).value.1.settle ∧
      (b.onCall id program calls).value.2 =
        if s.installation.cache.contains id = false ∧ config.threshold ≤ calls then .ok none
        else (s.onCall id program calls).value.2 := by
  have hs : s.config.threshold = config.threshold := by rw [h.synchronous]
  have hb : b.config.threshold = config.threshold := by rw [h.background]
  cases hpeek : s.installation.cache.peek? id with
  | some object =>
    rw [onCall_of_found program hpeek, onCall_of_found program (h.installation ▸ hpeek),
      Cache.contains_of_peek?_eq_some hpeek]
    have hfound : Lockstep config (s.found id) (b.found id) :=
      h.keep (by rw [h.installation]) rfl rfl rfl
    exact ⟨hfound.settle, by simp⟩
  | none =>
    have hpeek' : b.installation.cache.peek? id = none := h.installation ▸ hpeek
    rw [Cache.contains_of_peek?_eq_none hpeek]
    by_cases hhot : config.threshold ≤ calls
    · have hsync : s.isBackground = false := by
        rw [isBackground, h.alone]
        rfl
      have hbackground : b.isBackground = true := by
        obtain ⟨w, hworker, -⟩ := h.worker
        rw [isBackground, hworker]
        rfl
      rw [onCall_of_hot program hpeek (hs ▸ hhot) hsync,
        onCall_of_queued program hpeek' (hb ▸ hhot) hbackground]
      have hcompiled := (h.missed id).compile id program
      rw [settle_of_alone hcompiled.alone]
      exact ⟨hcompiled, by simp [hhot]⟩
    · have hcold := Nat.lt_of_not_le hhot
      rw [onCall_of_cold program hpeek (hs ▸ hcold),
        onCall_of_cold program hpeek' (hb ▸ hcold)]
      exact ⟨(h.missed id).settle, by simp⟩

/-- The engines stay in lockstep over an operation. -/
theorem settledAfter (op : Operation) :
    Lockstep config (s.settledAfter op) (b.settledAfter op) := by
  cases op with
  | call id program calls => exact (h.onCall id program calls).1
  | backEdge id position state =>
    have hinstallation := (h.onBackEdge id position state).1
    obtain ⟨registry, entries, hs⟩ := onBackEdge_changes position state s id
    obtain ⟨registry', entries', hb⟩ := onBackEdge_changes position state b id
    simp only [Engine.settledAfter, after]
    rw [hs, hb] at hinstallation ⊢
    exact Lockstep.settle (h.keep hinstallation rfl rfl rfl)
  | invalidate id => exact Lockstep.settle (h.keep (h.invalidate id).1 rfl rfl rfl)

theorem settledAfterAll (ops : List Operation) :
    Lockstep config (s.settledAfterAll ops) (b.settledAfterAll ops) := by
  induction ops generalizing s b with
  | nil => exact h
  | cons op ops ih => exact ih (h.settledAfter op)

end Lockstep

/-- A background engine that settles after each operation does what a synchronous one does.
After every run of both:

* the same is installed: the cache with its entries, their order, their total size and its
  counts, and the registry with the managers registered in it;
* back edges and invalidations are answered alike, and so are calls, but that a tier-up of a
  function that is not in the cache is answered with no code yet;
* the worker has compiled and failed to compile as often as the synchronous engine has, and
  as many requests were queued as that is together;
* no request is pending or marked as being worked on. -/
theorem background_agrees_with_synchronous (config : EngineConfig) (ops : List Operation) :
    let s := (synchronous config).settledAfterAll ops
    let b := (inBackground config).settledAfterAll ops
    b.installation.cache = s.installation.cache ∧
    (∀ id, b.installation.registry.registered? id = s.installation.registry.registered? id) ∧
    (∀ id position state,
      (b.onBackEdge id position state).value.2 = (s.onBackEdge id position state).value.2) ∧
    (∀ id, (b.invalidate id).2 = (s.invalidate id).2) ∧
    (∀ id program calls,
      (b.onCall id program calls).value.2 =
        if s.installation.cache.contains id = false ∧ config.threshold ≤ calls then .ok none
        else (s.onCall id program calls).value.2) ∧
    (∃ w, b.worker? = some w ∧
      w.stats.compilations = s.stats.compilations ∧
      w.stats.failures = s.stats.failures ∧
      b.stats.queued = s.stats.compilations + s.stats.failures) ∧
    (∀ id, b.queue.isEmpty = true ∧ b.queue.isBusy id = false) := by
  intro s b
  have hlockstep : Lockstep config s b := (lockstep_initial config).settledAfterAll ops
  obtain ⟨w, hworker, -, hcompilations, hfailures⟩ := hlockstep.worker
  refine ⟨?_, ?_, ?_, ?_, ?_, ⟨w, hworker, hcompilations, hfailures, hlockstep.queued⟩, ?_⟩
  · rw [hlockstep.installation]
  · intro id
    rw [hlockstep.installation]
  · exact fun id position state => (hlockstep.onBackEdge id position state).2
  · exact fun id => (hlockstep.invalidate id).2
  · exact fun id program calls => (hlockstep.onCall id program calls).2
  · intro id
    rw [hlockstep.idle]
    exact ⟨rfl, rfl⟩

end Engine

end BaselineTier
