import ArrayInference.Text.CharClass
import ArrayInference.Text.Listing

/-!
# Quoted text

A text between double quotes, with one escape for every character that a reader could not see or
that would end the quotation. The single quote needs none.
-/

namespace ArrayInference.Text

/-- A code point in lower-case hexadecimal, without leading zeros. -/
def hexDigits (code : Nat) : String :=
  String.ofList (Nat.toDigits 16 code)

/-- How one character is written between double quotes. -/
def quotedChar (c : Char) : String :=
  if c = '\x00' then "\\0"
  else if c = '\t' then "\\t"
  else if c = '\r' then "\\r"
  else if c = '\n' then "\\n"
  else if c = '"' then "\\\""
  else if c = '\\' then "\\\\"
  else if isExtending c || isInvisible c then "\\u\x7b" ++ hexDigits c.toNat ++ "\x7d"
  else String.singleton c

/-- The text between double quotes. -/
def quoted (text : String) : String :=
  "\"" ++ String.join (text.toList.map quotedChar) ++ "\""

/-- A list of parts with quoted names, such as `[("x", Int[64])]`. -/
def namedPairs (parts : List (String × String)) : String :=
  bracketed (parts.map fun (name, part) => paired (quoted name) part)

end ArrayInference.Text
