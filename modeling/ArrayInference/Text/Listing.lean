/-!
# Listings

The ways in which a sequence of parts is written: between brackets, and as the named fields of a
record.
-/

namespace ArrayInference.Text

/-- The parts with a comma and a space between neighbours. -/
def commaSeparated (parts : List String) : String :=
  ", ".intercalate parts

/-- The parts between square brackets. -/
def bracketed (parts : List String) : String :=
  "[" ++ commaSeparated parts ++ "]"

/-- The parts between parentheses, a single part followed by a comma. -/
def tupled (parts : List String) : String :=
  match parts with
  | [part] => "(" ++ part ++ ",)"
  | _ => "(" ++ commaSeparated parts ++ ")"

/-- Two parts between parentheses. -/
def paired (first second : String) : String :=
  tupled [first, second]

/-- A part after the name of its case, such as `Known(3)`. -/
def applied (name part : String) : String :=
  name ++ "(" ++ part ++ ")"

/-- A record with named fields, such as `Point \x7b x: 1 \x7d` with plain braces. -/
def fielded (name : String) (fields : List (String × String)) : String :=
  name ++ " \x7b " ++ commaSeparated (fields.map fun (field, value) => field ++ ": " ++ value) ++ " \x7d"

end ArrayInference.Text
