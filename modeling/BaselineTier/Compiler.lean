import BaselineTier.Allocation.LinearScan
import BaselineTier.Lowering
import BaselineTier.Profile

/-! # The baseline compiler

Compiling a program allocates registers and lowers it.  A compile is a function
of the program and the configuration: the profile that may come with it is only
reported.

Three checks can refuse a program, in this order: full coverage, when asked for;
the encoding of the frame size and of the loaded constants; and the size limit.
-/

set_option autoImplicit false

namespace BaselineTier

open Machine (RegisterSet)
open Bytecode (Program)

/-- The version of the compiler. -/
def version : String := "0.1.0"

/-- The call count from which a function is compiled, if not set otherwise. -/
def defaultThreshold : Nat := 1000

/-- The limit on code sizes, if not set otherwise: 10 MiB. -/
def defaultCodeLimit : Nat := 10 * 1024 * 1024

/-- The settings of a compiler. -/
structure CompilerConfig where
  /-- The call count from which a function is compiled. -/
  threshold : Nat := defaultThreshold
  /-- The frame reserved by the prologue, in bytes. -/
  frameSize : UInt32 := Lowering.defaultFrameSize
  /-- Whether to refuse programs with instructions that have no lowering. -/
  strictCoverage : Bool := false
  /-- The largest code one function may have, in bytes. -/
  maxCodeSize : Nat := defaultCodeLimit
  /-- The registers values may be kept in. -/
  registers : RegisterSet := .allocatable
  deriving DecidableEq

namespace CompilerConfig

/-- Settings that compile early and insist on full coverage. -/
def eager : CompilerConfig :=
  { threshold := 2, strictCoverage := true }

/-- Whether a function with a call count is due for compilation. -/
def isHot (c : CompilerConfig) (calls : Nat) : Bool :=
  c.threshold ≤ calls

end CompilerConfig

/-- What a compile counted. -/
structure CompilationStats where
  instructions : Nat
  values : Nat
  spilled : Nat
  maxPressure : Nat
  unlowered : Nat
  codeSize : Nat
  deriving DecidableEq

/-- A compiled program. -/
structure Compilation where
  code : NativeCode
  stats : CompilationStats
  deriving DecidableEq

namespace CompilerConfig

/-- Refuses a program that full coverage, if asked for, does not admit. -/
def checkCoverage (c : CompilerConfig) (p : Program) : Except Error Unit :=
  let ops := Lowering.unlowered p
  if c.strictCoverage && !ops.isEmpty then .error (.uncovered ops) else .ok ()

/-- Refuses code above the size limit. -/
def checkSize (c : CompilerConfig) (code : NativeCode) : Except Error Unit :=
  if c.maxCodeSize < code.size then .error (.codeTooLarge code.size c.maxCodeSize) else .ok ()

/-- Compiles a program. -/
def compile (c : CompilerConfig) (p : Program) : Except Error Compilation := do
  c.checkCoverage p
  let (allocation, scan) := LinearScan.allocateProgram c.registers p
  let code ← (Lowering.generate c.frameSize p allocation).mapError .encoding
  c.checkSize code
  return {
    code
    stats := {
      instructions := p.size
      values := scan.values
      spilled := scan.spilled
      maxPressure := scan.maxPressure
      unlowered := code.unlowered.length
      codeSize := code.size } }

/-- The events of the compile phases that come before its outcome. -/
def phaseEvents (c : CompilerConfig) (p : Program) (profile? : Option Profile) : List Event :=
  let started := Event.compileStarted p.name p.size
  let profiled := profile?.toList.map fun profile =>
    Event.profileSeen p.name profile.calls profile.hottest?
  let loads :=
    match c.checkCoverage p with
    | .error _ => []
    | .ok () =>
      let (allocation, _) := LinearScan.allocateProgram c.registers p
      (Lowering.generateTraced c.frameSize p allocation).events
  started :: profiled ++ loads

/-- The events of a compile's outcome: a refused program reports nothing more. -/
def outcomeEvents (p : Program) : Except Error Compilation → List Event
  | .error _ => []
  | .ok result =>
    let warnings := result.code.unlowered.head?.toList.map fun first =>
      Event.placeholdersEmitted p.name result.code.unlowered.length first
    warnings ++ [.compileFinished p.name result.code.size result.stats.spilled]

/-- Compiles a program and reports on it. -/
def compileTraced (c : CompilerConfig) (p : Program) (profile? : Option Profile) :
    Traced (Except Error Compilation) :=
  let outcome := c.compile p
  { value := outcome, events := c.phaseEvents p profile? ++ outcomeEvents p outcome }

@[simp] theorem value_compileTraced (c : CompilerConfig) (p : Program)
    (profile? : Option Profile) : (c.compileTraced p profile?).value = c.compile p := rfl

end CompilerConfig

end BaselineTier
