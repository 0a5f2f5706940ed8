import BaselineTier.NativeCode

/-! # Errors

What can go wrong with a well-formed request.  A value that gets no register is
not an error, and an instruction without a lowering is one only if full coverage
is asked for; otherwise a placeholder that does nothing stands for it.
-/

set_option autoImplicit false

namespace BaselineTier

/-- Why a running function cannot be moved into compiled code. -/
inductive ReplacementError where
  /-- The bytecode offset has no compiled counterpart. -/
  | unmappedOffset (position : Nat)
  /-- The compiled offset lies outside the code. -/
  | offsetOutOfRange (offset size : Nat)
  /-- The entry is older than the last time its manager was cleared. -/
  | staleEntry (position entryGeneration currentGeneration : Nat)
  /-- The manager takes no more entries, for its code is no longer installed. -/
  | retired (position : Nat)
  /-- The entry was made by another manager. -/
  | foreignEntry (position : Nat)
  deriving DecidableEq

namespace ReplacementError

/-- The text a replacement error is reported with. -/
def message : ReplacementError → String
  | .unmappedOffset position =>
    "bytecode offset " ++ toString position ++ " has no compiled counterpart"
  | .offsetOutOfRange offset size =>
    "compiled offset " ++ toString offset ++ " is outside code of " ++ toString size ++ " bytes"
  | .staleEntry position entryGeneration currentGeneration =>
    "OSR entry at bytecode offset " ++ toString position ++ " is stale (generation " ++
      toString entryGeneration ++ ", current " ++ toString currentGeneration ++ ")"
  | .retired position =>
    "OSR manager for bytecode offset " ++ toString position ++ " was retired"
  | .foreignEntry position =>
    "OSR entry at bytecode offset " ++ toString position ++ " belongs to another manager"

end ReplacementError

/-- Why a request to compile or to enter compiled code failed. -/
inductive Error where
  /-- An operand has no encoding. -/
  | encoding (cause : Machine.EncodeError)
  /-- The function cannot be moved into compiled code. -/
  | replacement (cause : ReplacementError)
  /-- Full coverage was asked for, and these instructions have no lowering. -/
  | uncovered (ops : List Unlowered)
  /-- The code is larger than the limit for one function. -/
  | codeTooLarge (size limit : Nat)
  deriving DecidableEq

namespace Error

/-- The text an error is reported with. -/
def message : Error → String
  | .encoding cause => "encoding error: " ++ cause.message
  | .replacement cause => "OSR error: " ++ cause.message
  | .uncovered [] => "program has no baseline lowering"
  | .uncovered (first :: rest) =>
    toString (rest.length + 1) ++ " instruction(s) have no baseline lowering (first: " ++
      first.opcode.mnemonic ++ " at " ++ toString first.position ++ ")"
  | .codeTooLarge size limit =>
    "generated " ++ toString size ++ " bytes, limit is " ++ toString limit

end Error

end BaselineTier
