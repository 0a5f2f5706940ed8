import BaselineTier.Worker

/-! # The engine

What an interpreter talks to.  On each call it asks for compiled code, and a
function that is called often enough is compiled: at once, or by the background
worker.  On a hot back edge it asks for a transfer into compiled code.
-/

set_option autoImplicit false

namespace BaselineTier

open Replacement (Transfer)

/-- The settings of an engine. -/
structure EngineConfig where
  /-- The call count from which a function is compiled. -/
  threshold : Nat := defaultThreshold
  /-- The bytes of code the cache may hold. -/
  cacheBudget : Nat := defaultCodeLimit
  /-- The largest code one function may have, in bytes. -/
  maxFunctionSize : Nat := defaultCodeLimit
  /-- The frame of compiled code, in bytes. -/
  frameSize : UInt32 := Lowering.defaultFrameSize
  /-- Whether running functions are moved into compiled code. -/
  replacement : Bool := true
  /-- Whether a worker compiles in the background. -/
  background : Bool := false
  /-- Whether to refuse programs with instructions that have no lowering. -/
  strictCoverage : Bool := false
  deriving DecidableEq

namespace EngineConfig

/-- Settings that compile early into a small cache. -/
def eager : EngineConfig :=
  { threshold := 10, cacheBudget := 1024 }

/-- The settings of the engine's compiler. -/
def compiler (c : EngineConfig) : CompilerConfig :=
  { threshold := c.threshold
    frameSize := c.frameSize
    strictCoverage := c.strictCoverage
    maxCodeSize := c.maxFunctionSize }

/-- The listing of the settings. -/
def listing (c : EngineConfig) : String :=
  Text.record "RuntimeConfig"
    [("tier_up_threshold", toString c.threshold),
     ("max_code_size", toString c.cacheBudget),
     ("max_function_size", toString c.maxFunctionSize),
     ("frame_size", toString c.frameSize),
     ("enable_osr", Text.truth c.replacement),
     ("background_compilation", Text.truth c.background),
     ("strict_coverage", Text.truth c.strictCoverage)]

end EngineConfig

/-- What an engine counted. -/
structure EngineStats where
  /-- Calls that found compiled code. -/
  hits : Nat := 0
  /-- Calls that found none. -/
  misses : Nat := 0
  /-- Compiles that succeeded at a call. -/
  compilations : Nat := 0
  /-- Requests handed to the worker. -/
  queued : Nat := 0
  /-- Compiles that failed at a call. -/
  failures : Nat := 0
  /-- Frames captured at back edges. -/
  entries : Nat := 0
  deriving DecidableEq

namespace EngineStats

/-- The share of calls that found compiled code. -/
def hitRate (s : EngineStats) : Except Fault Binary64 :=
  Statistics.hitRate s.hits s.misses

end EngineStats

/-- An engine: installed code, and a worker at its queue if compilation is in the
background. -/
structure Engine where
  config : EngineConfig
  installation : Installation
  queue : Queue := {}
  worker? : Option Worker := none
  stats : EngineStats := {}

namespace Engine

/-- An engine with nothing installed. -/
def ofConfig (config : EngineConfig) : Engine :=
  { config
    installation := .withBudget config.cacheBudget
    worker? := if config.background then some { config := config.compiler } else none }

/-- Whether a worker compiles in the background. -/
def isBackground (e : Engine) : Bool :=
  e.worker?.isSome

/-- The listing of an engine. -/
def listing (e : Engine) : String :=
  Text.record "JitRuntime"
    [("config", e.config.listing),
     ("cached", toString e.installation.cache.count),
     ("cache_bytes", toString e.installation.cache.totalSize),
     ("background", Text.truth e.isBackground)]

/-! ## Calls -/

/-- Hands a request to the worker's queue. -/
def enqueue (e : Engine) (r : Request) : Engine :=
  let (queue, accepted) := e.queue.submit r
  let queued := if accepted then e.stats.queued + 1 else e.stats.queued
  { e with queue, stats := { e.stats with queued } }

/-- Compiles a function and installs the code. -/
def compileNow (e : Engine) (id : FunctionId) (program : Bytecode.Program) :
    Traced (Engine × Except Error (Option CodeObject)) := do
  match ← e.config.compiler.compileTraced program none with
  | .error cause =>
    let stats := { e.stats with failures := e.stats.failures + 1 }
    return ({ e with stats }, .error cause)
  | .ok compiled =>
    let (installation, object, victims) := e.installation.install id compiled.code
    reportAll (victims.map CacheEntry.evictionEvent)
    let stats := { e.stats with compilations := e.stats.compilations + 1 }
    return ({ e with installation, stats }, .ok (some object))

/-- Records a call of a function with its call count so far.  The answer is the
compiled code, if there is any now. -/
def onCall (e : Engine) (id : FunctionId) (program : Bytecode.Program) (calls : Nat) :
    Traced (Engine × Except Error (Option CodeObject)) :=
  let (cache, found) := e.installation.cache.lookup id
  let seen := { e with installation := { e.installation with cache } }
  match found with
  | some object =>
    pure ({ seen with stats := { e.stats with hits := e.stats.hits + 1 } }, .ok (some object))
  | none =>
    let missed := { seen with stats := { e.stats with misses := e.stats.misses + 1 } }
    if e.config.compiler.isHot calls then do
      report (.tierUp id calls e.isBackground)
      if e.isBackground then
        return (missed.enqueue { id, program }, .ok none)
      else
        missed.compileNow id program
    else
      pure (missed, .ok none)

/-! ## Back edges -/

/-- Captures a frame with a manager and lays it out for compiled code.  Code that
is replaced meanwhile is not entered, which is no error. -/
def enter (e : Engine) (manager : Replacement.Manager) (position : Nat) (state : Snapshot) :
    Traced (Engine × Except Error (Option Transfer)) :=
  match manager.create position state with
  | .error (.retired _) => pure (e, .ok none)
  | .error cause => pure (e, .error (.replacement cause))
  | .ok (updated, entry) => do
    report entry.event
    let registry := e.installation.registry.update updated
    let entered :=
      { e with
        installation := { e.installation with registry }
        stats := { e.stats with entries := e.stats.entries + 1 } }
    match updated.perform entry with
    | .ok transfer =>
      report transfer.event
      return (entered, .ok (some transfer))
    | .error (.staleEntry ..) => return (entered, .ok none)
    | .error cause => return (entered, .error (.replacement cause))

/-- Records a hot back edge of a function.  The answer is the transfer into its
compiled code, if it has any.  This is no traffic for the cache: recency and
counts stay. -/
def onBackEdge (e : Engine) (id : FunctionId) (position : Nat) (state : Snapshot) :
    Traced (Engine × Except Error (Option Transfer)) :=
  let cache := e.installation.cache
  match e.config.replacement, cache.peek? id with
  | false, _ | true, none => pure (e, .ok none)
  | true, some object =>
    let (registry, enrolment) :=
      e.installation.registry.enrol id object (cache.isInstalled id object)
    let enrolled := { e with installation := { e.installation with registry } }
    match enrolment.manager?.bind registry.manager? with
    | some manager => enrolled.enter manager position state
    | none => pure (enrolled, .ok none)

/-! ## Upkeep -/

/-- Removes the code and the entries of a function.  The answer is whether there
was code. -/
def invalidate (e : Engine) (id : FunctionId) : Engine × Bool :=
  let (installation, removed) := e.installation.invalidate id
  ({ e with installation }, removed)

/-- The engine once the worker, if any, has worked through its queue. -/
def settle (e : Engine) : Engine :=
  match e.worker? with
  | none => e
  | some worker =>
    let done := (Workshop.drain ⟨e.queue, worker, e.installation⟩).value
    { e with queue := done.queue, worker? := some done.worker, installation := done.installation }

/-- Takes the worker's results; there are none without a worker. -/
def takeResults (e : Engine) : Engine × List CompilationResult :=
  match e.worker? with
  | none => (e, [])
  | some worker =>
    let (emptied, results) := worker.takeResults
    ({ e with worker? := some emptied }, results)

/-- Stops the worker: nothing more is compiled in the background. -/
def shutdown (e : Engine) : Engine :=
  { e with queue := e.queue.close }

end Engine

end BaselineTier
