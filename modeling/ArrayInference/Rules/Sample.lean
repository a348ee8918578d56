import ArrayInference.Rules.Registry

/-!
# Small rules

Rules that do one thing each. They serve operators outside the catalog, and fill a track on which an
operator of the catalog has no rule.
-/

namespace ArrayInference

namespace SampleRules

open Rule

/-- Twice an extent, held at the largest one. -/
def doubled : Dim → Dim
  | .known n => .known (min (2 * n.toNat) Shape.maxCount).toUInt64
  | .anything => .anything

/-- An array with its first extent doubled. -/
def doubleRows : Rule := unary fun _ a => do
  match ← Infer.shapeOf a with
  | .dims (rows :: rest) => .done (.shape (.dims (doubled rows :: rest)))
  | s => .fail (.shape ("double_rows needs an array, got " ++ s.text))

/-- The type of the first argument. -/
def typeOfFirst : Rule := variadic "no first argument" fun _ x _ => do
  let t ← Infer.typeOf x
  .done (.type t)

/-- The value of the first argument. -/
def valueOfFirst : Rule := variadic "no first argument" fun _ x _ => do
  let v ← Infer.valueOf x
  .done (.value v)

/-- The property of the first argument. -/
def first : Rule := variadic "no first argument" fun track x _ => Infer.get x track

/-- The property of the second of two arguments. -/
def second : Rule := binary fun track _ y => Infer.get y track

/-- Fails with a message. -/
def failing (message : String) : Rule := fun _ _ => .fail (.inference message)

/-- The same property for every call. -/
def constantly (p : Property) : Rule := fun _ _ => .done p

/-- Waits for something that never comes. -/
def waiting : Rule := fun _ _ => .forever

/-- A new inferrer for the shape of scalars on every call. -/
def newScalarShape : Rule := fun _ _ => .ask .scalarShape fun f => .done (.inferrer f)

/-- A new inferrer for values that are not folded on every call. -/
def newAnything : Rule := fun _ _ => .ask .anything fun f => .done (.inferrer f)

/-- The rules by name. -/
def named : List (String × Rule) :=
  [("double_rows", doubleRows), ("type_first", typeOfFirst), ("value_of_first", valueOfFirst),
   ("pass", first), ("expect2", second), ("boom", failing "boom"),
   ("anything", constantly (.value .anything)), ("noshape", constantly (.shape .noShape)),
   ("spin", waiting), ("new_scalar", newScalarShape), ("new_anything", newAnything)]

end SampleRules

end ArrayInference
