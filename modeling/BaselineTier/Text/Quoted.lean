import BaselineTier.Text.Unprinted

/-! # Quoted text

A text stands between double quotes.  The quote and the backslash take a
backslash, the common controls take their letter, characters without a printed
form are shown by number, and every other character stands for itself.
-/

set_option autoImplicit false

namespace BaselineTier.Text

/-- A number in lower-case hexadecimal. -/
def hexadecimal (n : Nat) : String :=
  String.ofList (Nat.toDigits 16 n)

/-- The quoted form of one character. -/
def quoteChar (c : Char) : String :=
  match c with
  | '\x00' => "\\0"
  | '\t' => "\\t"
  | '\n' => "\\n"
  | '\r' => "\\r"
  | '"' => "\\\""
  | '\\' => "\\\\"
  | _ =>
    if isUnprinted c then "\\u\x7b" ++ hexadecimal c.toNat ++ "\x7d"
    else c.toString

/-- The quoted form of a text. -/
def quote (s : String) : String :=
  s.foldl (fun quoted c => quoted ++ quoteChar c) "\"" ++ "\""

end BaselineTier.Text
