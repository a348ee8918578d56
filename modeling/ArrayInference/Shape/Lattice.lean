import ArrayInference.Constant.Text
import ArrayInference.Error
import ArrayInference.Shape.Basic

/-!
# Operations on shapes

The shape of a type about which nothing else is known, the shape of a constant, the shape that the
elements of a list have in common, and the shape that two descriptions of one value agree on.
-/

namespace ArrayInference

namespace Shape

mutual

/-- The shape of a type when nothing else is known. Arrays have none, because their extents must
come from a value or a rule. -/
def ofType : Ty → Except InferError Shape
  | .array h e => .error (.unsupported ("there is no default shape for " ++ (Ty.array h e).text))
  | .tuple _ es => do return tuple (← ofTypes es)
  | .list _ e => do return list (← ofType e)
  | .record _ _ as _ => do return record (← ofAttributes as)
  | _ => .ok noShape

def ofTypes : List Ty → Except InferError (List Shape)
  | [] => .ok []
  | t :: ts => do
      let s ← ofType t
      return s :: (← ofTypes ts)

def ofAttributes : List (String × Ty) → Except InferError (List (String × Shape))
  | [] => .ok []
  | (name, t) :: rest => do
      let s ← ofType t
      return (name, s) :: (← ofAttributes rest)

end

/-- The extents of the axes, each unknown where the arrays disagree. All have the rank of the
first. -/
def widen (first : List Dim) (others : List (List Dim)) : List Dim :=
  first.mapIdx fun axis d => if others.all (fun ds => ds[axis]? = some d) then d else .anything

/-- The shape that all shapes of a list have in common: the one they share, or for arrays of one
rank the array with an unknown extent wherever they disagree. -/
def common : List Shape → Except InferError Shape
  | [] => .error (.inference "no shapes to match")
  | first :: rest =>
    if rest.all (· = first) then .ok first
    else
      match first.dims?, rest.mapM dims? with
      | some ds, some others =>
        if others.any (fun es => es.length ≠ ds.length) then
          .error (.structural "arrays of differing rank")
        else .ok (dims (widen ds others))
      | _, _ => .error (.structural "mismatched element shapes in list")

mutual

/-- The shape of a constant. -/
def ofConstant : Constant → Except InferError Shape
  | .array value => .ok (ofExtents value.extents)
  | .tuple items => do return tuple (← ofConstants items)
  | .list [] => .ok (list noShape)
  | .list (first :: rest) => do
      let s ← ofConstant first
      let ss ← ofConstants rest
      return list (← common (s :: ss))
  | .record c values => do return record (← ofFields c.fields values)
  | _ => .ok noShape

def ofConstants : List Constant → Except InferError (List Shape)
  | [] => .ok []
  | c :: cs => do
      let s ← ofConstant c
      return s :: (← ofConstants cs)

/-- The shape of each value under the name of its field, as far as both lists reach. -/
def ofFields : List (String × Ty) → List Constant → Except InferError (List (String × Shape))
  | (name, _) :: fields, c :: cs => do
      let s ← ofConstant c
      return (name, s) :: (← ofFields fields cs)
  | _, _ => .ok []

end

/-- Two different known extents on one axis, or two different structures. -/
def conflict (a b : Shape) : InferError :=
  .shape ("incompatible shapes " ++ a.text ++ " and " ++ b.text)

/-- The extent that two descriptions of an axis agree on. -/
def mergeDim : Dim → Dim → Option Dim
  | .anything, d => some d
  | d, .anything => some d
  | .known m, .known n => if m = n then some (.known m) else none

/-- The extents that two descriptions of an array agree on. -/
def mergeDims : List Dim → List Dim → Option (List Dim)
  | [], [] => some []
  | d :: ds, e :: es => do
      let x ← mergeDim d e
      return x :: (← mergeDims ds es)
  | _, _ => none

mutual

/-- The shape that two descriptions of one value agree on. An unknown extent takes that of the other
side. -/
def merge : Shape → Shape → Except InferError Shape
  | noShape, noShape => .ok noShape
  | dims ds, dims es =>
    match mergeDims ds es with
    | some merged => .ok (dims merged)
    | none => .error (conflict (dims ds) (dims es))
  | tuple ss, tuple ts =>
    if ss.length = ts.length then do return tuple (← mergeList ss ts)
    else .error (conflict (tuple ss) (tuple ts))
  | list s, list t => do return list (← merge s t)
  | record as, record bs =>
    if as.map (·.1) = bs.map (·.1) then do return record (← mergeAttributes as bs)
    else .error (conflict (record as) (record bs))
  | a, b => .error (conflict a b)

def mergeList : List Shape → List Shape → Except InferError (List Shape)
  | s :: ss, t :: ts => do
      let x ← merge s t
      return x :: (← mergeList ss ts)
  | _, _ => .ok []

def mergeAttributes :
    List (String × Shape) → List (String × Shape) → Except InferError (List (String × Shape))
  | (name, s) :: as, (_, t) :: bs => do
      let x ← merge s t
      return (name, x) :: (← mergeAttributes as bs)
  | _, _ => .ok []

end

/-- The shape of one element: that of a list's elements, or none for an element of an array. -/
def toElement : Shape → Except InferError Shape
  | list s => .ok s
  | dims _ => .ok noShape
  | s => .error (.inference ("shape " ++ s.text ++ " has no elements"))

end Shape

namespace Dim

/-- Reads an extent from a constant. -/
def ofConstant : Constant → Except InferError Dim
  | .int n => if 0 ≤ n.toInt then .ok (known n.toUInt64) else .error (invalid (.int n))
  | c => .error (invalid c)
where
  invalid (c : Constant) : InferError := .shape ("invalid extent " ++ c.text)

/-- Reads a tuple of extents. -/
def listOfConstant : Constant → Except InferError (List Dim)
  | .tuple items => items.mapM ofConstant
  | c => .error (.inference ("expected a tuple of extents, got " ++ c.text))

/-- Writes extents as a tuple if all of them are known. An extent beyond the range of an integer
constant wraps around. -/
def listToConstant? (ds : List Dim) : Option Constant :=
  (ds.mapM fun (d : Dim) => d.known?.map fun n => Constant.int n.toInt64).map .tuple

end Dim

end ArrayInference
