import ArrayInference.Type.Cache

/-!
# Dtype names

Scalar types have short names: `bool`, and the family in lower case followed by the width, such as
`uint16`.
-/

namespace ArrayInference

/-- The largest number that a width is read from. -/
def maxWidth : Nat := UInt32.size - 1

/-- Reads a width: decimal digits after an optional plus sign. -/
def width? (text : List Char) : Option Nat :=
  let digits := match text with
    | '+' :: rest => rest
    | other => other
  if digits.isEmpty || !digits.all Char.isDigit then none
  else
    let value := digits.foldl (fun n c => 10 * n + (c.toNat - '0'.toNat)) 0
    if value ≤ maxWidth then some value else none

/-- What remains of a text after its opening letters, if it opens with them. -/
def dropOpening? : List Char → List Char → Option (List Char)
  | [], rest => some rest
  | c :: cs, d :: ds => if c = d then dropOpening? cs ds else none
  | _ :: _, [] => none

/-- The number family that a dtype name opens with, and the rest of the name. -/
def dtypeParts? (name : String) : Option (Family × List Char) :=
  let chars := name.toList
  match dropOpening? "uint".toList chars with
  | some rest => some (.uint, rest)
  | none =>
    match dropOpening? "int".toList chars with
    | some rest => some (.int, rest)
    | none => (dropOpening? "float".toList chars).map fun rest => (.float, rest)

namespace Interning

/-- The number type of a family and width. -/
def numberType (family : Family) (width : Nat) : ExceptT TypeError Interning Ty :=
  match family with
  | .uint => uint width
  | .int => int width
  | _ => float width

/-- The scalar type with a dtype name. -/
def ofDtype (name : String) : ExceptT TypeError Interning Ty :=
  if name = "bool" then
    liftM (generic .bool)
  else
    match dtypeParts? name with
    | none => throw (.unknownDtype name)
    | some (family, rest) =>
      match width? rest with
      | none => throw (.unknownDtype name)
      | some width => tryCatch (numberType family width) fun _ => throw (.unknownDtype name)

end Interning

/-- The dtype name of a scalar type. -/
def Ty.dtype : Ty → Except TypeError String
  | .int _ b => .ok ("int" ++ toString b)
  | .uint _ b => .ok ("uint" ++ toString b)
  | .float _ b => .ok ("float" ++ toString b)
  | .generic _ .bool => .ok "bool"
  | t => .error (.notAScalar t.text)

end ArrayInference
