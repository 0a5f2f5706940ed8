import BaselineTier.Compiler
import BaselineTier.Installation
import BaselineTier.Queue

/-! # The background worker

A worker takes requests from a queue, compiles them and installs the code.  It
retains its most recent results until somebody takes them.
-/

set_option autoImplicit false

namespace BaselineTier

/-- The outcome of a request. -/
structure CompilationResult where
  id : FunctionId
  /-- The size of the installed code, zero on failure. -/
  codeSize : Nat
  /-- The functions evicted to make room, oldest first. -/
  evicted : List FunctionId
  error? : Option Error
  deriving DecidableEq

namespace CompilationResult

/-- Whether the request succeeded. -/
def isOk (r : CompilationResult) : Bool :=
  r.error?.isNone

end CompilationResult

/-- What a worker counted. -/
structure WorkerStats where
  compilations : Nat := 0
  failures : Nat := 0
  bytesCompiled : Nat := 0
  /-- Results given up because nobody took them. -/
  resultsDropped : Nat := 0
  deriving DecidableEq

/-- A compiler that works on requests. -/
structure Worker where
  config : CompilerConfig
  /-- The retained results, oldest first. -/
  results : List CompilationResult := []
  stats : WorkerStats := {}

namespace Worker

/-- How many results a worker retains. -/
def maxRetained : Nat := 256

/-- Compiles a request and installs the code. -/
def compile (w : Worker) (s : Installation) (r : Request) :
    Traced (Worker × Installation × CompilationResult) := do
  match ← w.config.compileTraced r.program r.profile? with
  | .ok compiled =>
    let size := compiled.code.size
    let (installed, _, victims) := s.install r.id compiled.code
    reportAll (victims.map CacheEntry.evictionEvent)
    report (.workerInstalled r.id size)
    let stats :=
      { w.stats with
        compilations := w.stats.compilations + 1
        bytesCompiled := w.stats.bytesCompiled + size }
    return ({ w with stats }, installed, ⟨r.id, size, victims.map (·.id), none⟩)
  | .error cause =>
    report (.workerFailed r.id cause)
    let stats := { w.stats with failures := w.stats.failures + 1 }
    return ({ w with stats }, s, ⟨r.id, 0, [], some cause⟩)

/-- Retains a result, giving up the oldest one when there is no room. -/
def retain (w : Worker) (result : CompilationResult) : Worker :=
  if w.results.length = maxRetained then
    { w with
      results := w.results.tail ++ [result]
      stats := { w.stats with resultsDropped := w.stats.resultsDropped + 1 } }
  else
    { w with results := w.results ++ [result] }

/-- Takes the retained results. -/
def takeResults (w : Worker) : Worker × List CompilationResult :=
  ({ w with results := [] }, w.results)

end Worker

/-! ## Working through a queue -/

/-- A worker at its queue. -/
structure Workshop where
  queue : Queue
  worker : Worker
  installation : Installation

namespace Workshop

/-- Works on a request that was taken from the queue. -/
def process (w : Workshop) (r : Request) : Traced Workshop := do
  let (worker, installation, result) ← w.worker.compile w.installation r
  return { queue := w.queue.complete r.id, worker := worker.retain result, installation }

/-- Works on up to `n` requests, until the queue is empty or closed. -/
def run : Nat → Workshop → Traced Workshop
  | 0, w => pure w
  | n + 1, w =>
    match w.queue.takeOpen? with
    | none => pure w
    | some (r, queue) => do run n (← { w with queue }.process r)

/-- Works on all pending requests.  Work adds no requests, so the queue is empty
afterwards unless it is closed. -/
def drain (w : Workshop) : Traced Workshop :=
  w.run w.queue.size

end Workshop

end BaselineTier
