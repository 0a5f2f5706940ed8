import BaselineTier.Error
import BaselineTier.FunctionId
import BaselineTier.Text.Record

/-! # Events

What the compiler and its surroundings report while they work.  A computation
that reports is `Traced`: a value together with the events on the way to it.
-/

set_option autoImplicit false

namespace BaselineTier

/-- How urgent an event is. -/
inductive Level where
  | trace
  | debug
  | warn
  deriving DecidableEq

namespace Level

/-- The name of a level in a log. -/
def name : Level → String
  | .trace => "TRACE"
  | .debug => "DEBUG"
  | .warn => "WARN"

end Level

/-- A reported event. -/
inductive Event where
  /-- A compile of a named program began. -/
  | compileStarted (program : String) (instructions : Nat)
  /-- A profile came with the compile. -/
  | profileSeen (program : String) (calls : Nat) (hottest : Option (Nat × Nat))
  /-- A constant load got zero in place of a constant that is not numeric. -/
  | placeholderLoaded (position : Nat) (index : UInt32)
  /-- Some instructions became placeholders. -/
  | placeholdersEmitted (program : String) (count : Nat) (first : Unlowered)
  /-- A compile succeeded. -/
  | compileFinished (program : String) (bytes spilled : Nat)
  /-- Code had to leave the cache. -/
  | evicted (id : FunctionId) (bytes : Nat)
  /-- A frame was captured for entry into compiled code. -/
  | entryCreated (position offset values : Nat)
  /-- A captured frame was laid out for compiled code. -/
  | transferred (position resumeOffset slots : Nat)
  /-- A function was called often enough to be compiled. -/
  | tierUp (id : FunctionId) (calls : Nat) (background : Bool)
  /-- A worker compiled a function and installed the code. -/
  | workerInstalled (id : FunctionId) (bytes : Nat)
  /-- A worker could not compile a function. -/
  | workerFailed (id : FunctionId) (cause : Error)

namespace Event

/-- How urgent the event is. -/
def level : Event → Level
  | .compileStarted .. | .compileFinished .. | .tierUp .. | .workerInstalled .. => .debug
  | .profileSeen .. | .placeholderLoaded .. | .evicted .. | .entryCreated ..
  | .transferred .. => .trace
  | .placeholdersEmitted .. | .workerFailed .. => .warn

/-- The part of the system that reports the event. -/
def origin : Event → String
  | .compileStarted .. | .profileSeen .. | .placeholdersEmitted .. | .compileFinished .. =>
    "compiler"
  | .placeholderLoaded .. => "codegen"
  | .evicted .. => "code_cache"
  | .entryCreated .. | .transferred .. => "osr"
  | .tierUp .. => "runtime"
  | .workerInstalled .. | .workerFailed .. => "compiler_thread"

/-- The log target of the event. -/
def target (e : Event) : String :=
  "basalt::jit::" ++ e.origin

/-- The sentence of the event. -/
def message : Event → String
  | .compileStarted .. => "baseline compile start"
  | .profileSeen .. => "profile"
  | .placeholderLoaded .. => "non-numeric constant, loading placeholder"
  | .placeholdersEmitted .. => "instructions compiled to nop placeholders"
  | .compileFinished .. => "baseline compile finished"
  | .evicted .. => "evicted"
  | .entryCreated .. => "OSR entry created"
  | .transferred .. => "OSR transfer"
  | .tierUp .. => "tier-up"
  | .workerInstalled .. => "background compile installed"
  | .workerFailed .. => "background compile failed"

/-- An optional back edge with its count, as logged. -/
def edgeText : Option (Nat × Nat) → String
  | none => "None"
  | some (position, count) => "Some((" ++ toString position ++ ", " ++ toString count ++ "))"

/-- The details of the event by name. -/
def details : Event → List (String × String)
  | .compileStarted program instructions =>
    [("function", program), ("instructions", toString instructions)]
  | .profileSeen program calls hottest =>
    [("function", program), ("calls", toString calls), ("hottest_back_edge", edgeText hottest)]
  | .placeholderLoaded position index =>
    [("position", toString position), ("index", toString index)]
  | .placeholdersEmitted program count first =>
    [("function", program), ("count", toString count),
     ("first_opcode", first.opcode.mnemonic), ("first_position", toString first.position)]
  | .compileFinished program bytes spilled =>
    [("function", program), ("bytes", toString bytes), ("spilled", toString spilled)]
  | .evicted id bytes => [("function", id.text), ("bytes", toString bytes)]
  | .entryCreated position offset values =>
    [("bc_offset", toString position), ("compiled_offset", toString offset),
     ("values", toString values)]
  | .transferred position resumeOffset slots =>
    [("bc_offset", toString position), ("resume_offset", toString resumeOffset),
     ("slots", toString slots)]
  | .tierUp id calls background =>
    [("function", id.text), ("calls", toString calls), ("background", Text.truth background)]
  | .workerInstalled id bytes => [("function", id.text), ("bytes", toString bytes)]
  | .workerFailed id cause => [("function", id.text), ("error", cause.message)]

/-- The message and the details by name. -/
def fields (e : Event) : List (String × String) :=
  ("message", e.message) :: e.details

end Event

/-! ## Traced computations -/

/-- A value and the events reported on the way to it, first event first. -/
structure Traced (α : Type) where
  value : α
  events : List Event := []

namespace Traced

instance : Monad Traced where
  pure a := { value := a }
  bind x f :=
    let y := f x.value
    { value := y.value, events := x.events ++ y.events }

variable {α β : Type}

@[simp] theorem value_pure (a : α) : (pure a : Traced α).value = a := rfl

@[simp] theorem events_pure (a : α) : (pure a : Traced α).events = [] := rfl

@[simp] theorem value_bind (x : Traced α) (f : α → Traced β) :
    (x >>= f).value = (f x.value).value := rfl

@[simp] theorem events_bind (x : Traced α) (f : α → Traced β) :
    (x >>= f).events = x.events ++ (f x.value).events := rfl

end Traced

/-- Reports one event. -/
def report (e : Event) : Traced Unit :=
  { value := (), events := [e] }

/-- Reports several events in order. -/
def reportAll (es : List Event) : Traced Unit :=
  { value := (), events := es }

@[simp] theorem value_report (e : Event) : (report e).value = () := rfl

@[simp] theorem events_report (e : Event) : (report e).events = [e] := rfl

@[simp] theorem value_reportAll (es : List Event) : (reportAll es).value = () := rfl

@[simp] theorem events_reportAll (es : List Event) : (reportAll es).events = es := rfl

end BaselineTier
