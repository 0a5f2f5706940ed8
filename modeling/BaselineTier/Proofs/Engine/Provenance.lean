import BaselineTier.Proofs.Engine.Run
import Mathlib.Data.List.Induction

/-! # Where code comes from

Code gets into the cache of a synchronous engine in one way only: a call finds none, and
the program passed with that call is compiled.  So whatever is found in the cache later has
such a call in the history of the engine.

If a function is always passed with the same program, it follows that the cache cannot be
observed: a call that is due for compilation answers as the compiler does.
-/

set_option autoImplicit false

namespace BaselineTier.Engine

open Bytecode (Program)

/-! ## Calls that compile -/

/-- A call finds no code for its function and answers with some. -/
def Compiles (e : Engine) (id : FunctionId) (program : Program) (calls : Nat)
    (object : CodeObject) : Prop :=
  e.installation.cache.peek? id = none ∧
    (e.onCall id program calls).value.2 = .ok (some object)

/-- What such a call answers with is the compiled program. -/
theorem Compiles.compile_eq_ok {e : Engine} (hsync : e.isBackground = false) {id : FunctionId}
    {program : Program} {calls : Nat} {object : CodeObject}
    (h : e.Compiles id program calls object) :
    ∃ result, e.config.compiler.compile program = .ok result ∧ result.code = object.code := by
  obtain ⟨hnone, hanswer⟩ := h
  have houtcome := callOutcome_onCall program hsync id calls
  generalize (e.onCall id program calls).value = outcome at houtcome hanswer
  cases houtcome with
  | found hpeek =>
    rw [hnone] at hpeek
    cases hpeek
  | cold hpeek hcold => cases hanswer
  | refused hpeek hhot hcompile => cases hanswer
  | compiled hpeek hhot hcompile =>
    cases hanswer
    exact ⟨_, hcompile, rfl⟩

/-- Code that an operation leaves in the cache was there before, or the operation is the
call that compiles it. -/
theorem peek?_after {e : Engine} (hsync : e.isBackground = false)
    (hcoherent : e.installation.Coherent) (op : Operation) {id : FunctionId}
    {object : CodeObject} (h : (e.after op).installation.cache.peek? id = some object) :
    e.installation.cache.peek? id = some object ∨
      ∃ program calls, op = .call id program calls ∧ e.Compiles id program calls object := by
  cases op with
  | call called program calls =>
    have houtcome := callOutcome_onCall program hsync called calls
    simp only [after] at h
    generalize hvalue : (e.onCall called program calls).value = outcome at houtcome h
    cases houtcome with
    | found hpeek => exact .inl ((Cache.peek?_lookup ..).symm.trans h)
    | cold hpeek hcold => exact .inl ((Cache.peek?_lookup ..).symm.trans h)
    | refused hpeek hhot hcompile => exact .inl ((Cache.peek?_lookup ..).symm.trans h)
    | compiled hpeek hhot hcompile =>
      by_cases hid : id = called
      · subst hid
        cases (Cache.peek?_insert_self ..).symm.trans h
        exact .inr ⟨program, calls, rfl, hpeek, congrArg Prod.snd hvalue⟩
      · have hdistinct := Cache.nodup_recency_lookup hcoherent.distinct called
        exact .inl ((Cache.peek?_lookup ..).symm.trans
          (Cache.peek?_of_peek?_insert hdistinct hid h))
  | backEdge edge position state =>
    obtain ⟨registry, entries, hafter⟩ := onBackEdge_changes position state e edge
    rw [after, hafter] at h
    exact .inl h
  | invalidate dropped =>
    by_cases hid : id = dropped
    · subst hid
      cases (Cache.peek?_remove_self ..).symm.trans h
    · exact .inl ((Cache.peek?_remove_of_ne _ hid).symm.trans h)

/-! ## Histories -/

/-- In a history of a synchronous engine there is a call that compiled an object as the code
of a function, and a program was passed with it. -/
def InstalledBy (config : EngineConfig) (ops : List Operation) (id : FunctionId)
    (program : Program) (object : CodeObject) : Prop :=
  ∃ before calls later, ops = before ++ .call id program calls :: later ∧
    ((synchronous config).afterAll before).Compiles id program calls object

variable {config : EngineConfig} {ops : List Operation} {id : FunctionId} {program : Program}
  {object : CodeObject}

namespace InstalledBy

theorem concat (h : InstalledBy config ops id program object) (op : Operation) :
    InstalledBy config (ops ++ [op]) id program object := by
  obtain ⟨before, calls, later, hops, hcompiles⟩ := h
  refine ⟨before, calls, later ++ [op], ?_, hcompiles⟩
  rw [hops, List.append_assoc, List.cons_append]

theorem exists_call (h : InstalledBy config ops id program object) :
    ∃ calls, .call id program calls ∈ ops := by
  obtain ⟨before, calls, later, hops, -⟩ := h
  refine ⟨calls, ?_⟩
  rw [hops]
  exact List.mem_append_right _ List.mem_cons_self

/-- The object is what the compiler makes of the program. -/
theorem compile_eq_ok (h : InstalledBy config ops id program object) :
    ∃ result, config.compiler.compile program = .ok result ∧ result.code = object.code := by
  obtain ⟨before, calls, later, -, hcompiles⟩ := h
  obtain ⟨hconfig, hsync⟩ := afterAll_keeps config before
  have hresult := hcompiles.compile_eq_ok hsync
  rwa [hconfig] at hresult

end InstalledBy

/-- All code in the cache was compiled at a call in the history. -/
theorem exists_installedBy
    (h : ((synchronous config).afterAll ops).installation.cache.peek? id = some object) :
    ∃ program, InstalledBy config ops id program object := by
  induction ops using List.reverseRecOn with
  | nil => cases h
  | append_singleton ops op ih =>
    rw [afterAll_concat] at h
    have hsync := (afterAll_keeps config ops).2
    rcases peek?_after hsync (coherent_afterAll config ops) op h with
      hold | ⟨program, calls, rfl, hcompiles⟩
    · obtain ⟨program, hinstalled⟩ := ih hold
      exact ⟨program, hinstalled.concat op⟩
    · exact ⟨program, ops, calls, [], rfl, hcompiles⟩

/-! ## Transparency -/

/-- If every function is always passed with its own program, what is in the cache for a
function is the compiled program of that function. -/
theorem compile_eq_ok_of_peek? {programs : FunctionId → Program}
    (hsame : ∀ id program calls, .call id program calls ∈ ops → program = programs id)
    (h : ((synchronous config).afterAll ops).installation.cache.peek? id = some object) :
    ∃ result, config.compiler.compile (programs id) = .ok result ∧
      result.code = object.code := by
  obtain ⟨program, hinstalled⟩ := exists_installedBy h
  obtain ⟨calls, hmem⟩ := hinstalled.exists_call
  rw [← hsame id program calls hmem]
  exact hinstalled.compile_eq_ok

/-- A call due for compilation answers as the compiler does, whatever came before; an
earlier call answers with the same code or with none, as the function is in the cache or
not; and a call that fails leaves the entries in their order, their total size and the
registry as they were. -/
theorem calls_answer_as_compiler (config : EngineConfig) (programs : FunctionId → Program)
    (ops : List Operation)
    (hsame : ∀ id program calls, .call id program calls ∈ ops → program = programs id)
    (id : FunctionId) (calls : Nat) :
    let e := (synchronous config).afterAll ops
    let after := (e.onCall id (programs id) calls).value.1
    let answer := (e.onCall id (programs id) calls).value.2
    let compiled := config.compiler.compile (programs id)
    (config.threshold ≤ calls →
      answer.map (·.map (·.code)) = compiled.map (fun result => some result.code)) ∧
    (calls < config.threshold →
      (e.installation.cache.contains id = false ∧ answer = .ok none) ∨
      (e.installation.cache.contains id = true ∧
        ∃ object result, answer = .ok (some object) ∧ compiled = .ok result ∧
          object.code = result.code)) ∧
    (∀ cause, answer = .error cause →
      after.installation.cache.entries = e.installation.cache.entries ∧
      after.installation.cache.totalSize = e.installation.cache.totalSize ∧
      after.installation.registry = e.installation.registry) := by
  intro e after answer compiled
  have hconfig : e.config = { config with background := false } := (afterAll_keeps config ops).1
  have hthreshold : e.config.threshold = config.threshold := by rw [hconfig]
  have hcompiler : e.config.compiler.compile (programs id) = compiled := by rw [hconfig]; rfl
  have houtcome : CallOutcome e id (programs id) calls (after, answer) :=
    callOutcome_onCall (programs id) (afterAll_keeps config ops).2 id calls
  have hcached : ∀ object, e.installation.cache.peek? id = some object →
      ∃ result, compiled = .ok result ∧ result.code = object.code :=
    fun _ => compile_eq_ok_of_peek? hsame
  clear_value e after answer compiled
  cases houtcome with
  | found hpeek =>
    obtain ⟨result, rfl, hcode⟩ := hcached _ hpeek
    have hcontains := Cache.contains_of_peek?_eq_some hpeek
    refine ⟨fun _ => ?_, fun _ => .inr ⟨hcontains, _, result, rfl, rfl, hcode.symm⟩, ?_⟩
    · simp only [Except.map, Option.map, hcode]
    · intro cause hanswer
      cases hanswer
  | cold hpeek hcold =>
    have hcontains := Cache.contains_of_peek?_eq_none hpeek
    refine ⟨fun hhot => ?_, fun _ => .inl ⟨hcontains, rfl⟩, ?_⟩
    · exact absurd hcold (Nat.not_lt_of_le (hthreshold ▸ hhot))
    · intro cause hanswer
      cases hanswer
  | refused hpeek hhot hcompile =>
    have hnotCold : ¬ calls < config.threshold := Nat.not_lt_of_le (hthreshold ▸ hhot)
    refine ⟨fun _ => ?_, fun hcold => absurd hcold hnotCold, ?_⟩
    · rw [← hcompiler, hcompile]
      rfl
    · intro cause hanswer
      simp [missed, Engine.refused, Cache.lookup, hpeek]
  | compiled hpeek hhot hcompile =>
    have hnotCold : ¬ calls < config.threshold := Nat.not_lt_of_le (hthreshold ▸ hhot)
    refine ⟨fun _ => ?_, fun hcold => absurd hcold hnotCold, ?_⟩
    · rw [← hcompiler, hcompile]
      rfl
    · intro cause hanswer
      cases hanswer

/-- Function 1 jumps, which has no lowering; all others return. -/
def returning (id : FunctionId) : Program :=
  if id = ⟨1⟩ then { instructions := [⟨.jump, 0, 0⟩] } else { instructions := [⟨.ret, 0, 0⟩] }

/-- The cache has room for one function only. -/
def crowdedConfig : EngineConfig :=
  { threshold := 2, cacheBudget := 20, strictCoverage := true }

/-- Function 0 is evicted by function 2, which is invalidated after a failed compile. -/
def crowdedRun : List Operation :=
  [.call ⟨0⟩ (returning ⟨0⟩) 2, .call ⟨2⟩ (returning ⟨2⟩) 5, .call ⟨1⟩ (returning ⟨1⟩) 2,
   .backEdge ⟨2⟩ 0 {}, .invalidate ⟨2⟩, .call ⟨2⟩ (returning ⟨2⟩) 2]

theorem crowdedRun_answers_as_compiler :
    (∀ id program calls, .call id program calls ∈ crowdedRun → program = returning id) ∧
    ((synchronous crowdedConfig).afterAll crowdedRun).installation.cache.recency = [⟨2⟩] ∧
    ((((synchronous crowdedConfig).afterAll crowdedRun).onCall ⟨0⟩ (returning ⟨0⟩) 2).value.2.map
        (·.map (·.code)) =
      (crowdedConfig.compiler.compile (returning ⟨0⟩)).map fun result => some result.code) ∧
    ((((synchronous crowdedConfig).afterAll crowdedRun).onCall ⟨1⟩ (returning ⟨1⟩) 2).value.2.map
        (·.map (·.code)) =
      (crowdedConfig.compiler.compile (returning ⟨1⟩)).map fun result => some result.code) := by
  have hsame : ∀ id program calls,
      .call id program calls ∈ crowdedRun → program = returning id := by
    intro id program calls hmem
    simp only [crowdedRun, List.mem_cons, List.not_mem_nil, or_false, reduceCtorEq,
      Operation.call.injEq, false_or] at hmem
    rcases hmem with ⟨rfl, rfl, -⟩ | ⟨rfl, rfl, -⟩ | ⟨rfl, rfl, -⟩ | ⟨rfl, rfl, -⟩
    · rfl
    · rfl
    · rfl
    · rfl
  have hhot : crowdedConfig.threshold ≤ 2 := by decide
  exact ⟨hsame, by decide +kernel,
    (calls_answer_as_compiler crowdedConfig returning crowdedRun hsame ⟨0⟩ 2).1 hhot,
    (calls_answer_as_compiler crowdedConfig returning crowdedRun hsame ⟨1⟩ 2).1 hhot⟩

end BaselineTier.Engine
