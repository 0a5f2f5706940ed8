import BaselineTier.Cache
import BaselineTier.Replacement.Registry

/-! # Installed code

The code cache together with the registry of entry managers, which has to follow
it: when the code of a function is replaced, evicted or removed, its manager is
retired.
-/

set_option autoImplicit false

namespace BaselineTier

open Replacement (Registry)

/-- Compiled code and the ways into it. -/
structure Installation where
  cache : Cache
  registry : Registry := {}
  /-- The stamp of the next code object. -/
  nextStamp : Nat := 0

namespace Installation

/-- Nothing installed, with a budget of bytes. -/
def withBudget (budget : Nat) : Installation :=
  { cache := { budget } }

/-- Code as a new object. -/
def newObject (s : Installation) (code : NativeCode) : Installation × CodeObject :=
  ({ s with nextStamp := s.nextStamp + 1 }, ⟨s.nextStamp, code⟩)

/-- Takes the managers of several functions out of the registry. -/
def invalidateAll (registry : Registry) (ids : List FunctionId) : Registry :=
  ids.foldl (fun r id => (r.invalidate id).1) registry

/-- Installs code for a function.  The managers of the function and of the
functions evicted to make room are retired. -/
def install (s : Installation) (id : FunctionId) (code : NativeCode) :
    Installation × CodeObject × List CacheEntry :=
  let (stamped, object) := s.newObject code
  let (cache, victims) := stamped.cache.insert id object
  let registry := invalidateAll stamped.registry (id :: victims.map (·.id))
  ({ stamped with cache, registry }, object, victims)

/-- Removes the code and the manager of a function.  The answer is whether there
was code. -/
def invalidate (s : Installation) (id : FunctionId) : Installation × Bool :=
  let (cache, removed) := s.cache.remove id
  ({ s with cache, registry := (s.registry.invalidate id).1 }, removed.isSome)

end Installation

end BaselineTier
