/-! # Record listings

The one-line form of a record: its name, and its fields in braces.
-/

set_option autoImplicit false

namespace BaselineTier.Text

/-- The listing of a record with named fields. -/
def record (name : String) (fields : List (String × String)) : String :=
  let shown := fields.map fun field => field.1 ++ ": " ++ field.2
  name ++ " \x7b " ++ ", ".intercalate shown ++ " \x7d"

/-- The listing of a truth value. -/
def truth (b : Bool) : String :=
  if b then "true" else "false"

end BaselineTier.Text
