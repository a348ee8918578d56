import ArrayInference.Rules.Control
import ArrayInference.Shape.Lattice

/-!
# Shape rules

Operators on arrays check the extents that they combine. An unknown extent fits every other one.
Operators without a rule have scalar results.
-/

namespace ArrayInference

namespace Infer

/-- A shape. -/
def shape (s : Shape) : Infer Property :=
  done (.shape s)

/-- A failure of the extents. -/
def shapeError {α : Type} (message : String) : Infer α :=
  fail (.shape message)

/-- The extents of an array; `what` names it in the error if it is none. -/
def arrayDims (subject : Ref) (what : String) : Infer (List Dim) := do
  match ← shapeOf subject with
  | .dims ds => done ds
  | s => shapeError (what ++ " must be an array, got shape " ++ s.text)

/-- The extents of several arrays; `what` names them in the error. -/
def arraysDims (what : String) : List Ref → Infer (List (List Dim))
  | [] => done []
  | x :: xs => do
      let ds ← arrayDims x what
      let rest ← arraysDims what xs
      done (ds :: rest)

/-- The extents that a tuple argument asks for. The length of an unknown tuple is part of its
type. -/
def targetDims (subject : Ref) : Infer (List Dim) := do
  match ← valueOf subject with
  | .known c => ofExcept (Dim.listOfConstant c)
  | .anything => do
      let t ← typeOf subject
      match t.elements? with
      | some es => done (List.replicate es.length .anything)
      | none => fail (.inference ("shape argument must be a tuple, got " ++ t.text))

/-- The shapes of the elements of a tuple. -/
def tupleShapes (subject : Ref) : Infer (List Shape) := do
  match ← shapeOf subject with
  | .tuple items => done items
  | s => fail (.inference ("expected a tuple, got shape " ++ s.text))

/-- A tuple of as many scalars as an array has axes. -/
def extentsShape (rank : Nat) : Infer Property :=
  shape (.tuple (List.replicate rank .noShape))

end Infer

namespace ShapeRules

open Rule

/-- `make_tuple(..)`. -/
def makeTuple : Rule := fun _ args => do
  let items ← args.mapM Infer.shapeOf
  Infer.shape (.tuple items)

/-- `tail(t)`. -/
def tail : Rule := unary fun _ t => do
  match ← Infer.tupleShapes t with
  | [] => .fail (.inference "tail of an empty tuple")
  | _ :: rest => Infer.shape (.tuple rest)

/-- `tuple_getitem(t, i)`. -/
def tupleGetItem : Rule := binary fun _ t i => do
  let index ← Infer.constantOf i "tuple index"
  let items ← Infer.tupleShapes t
  Infer.shape (← Infer.ofExcept (tupleItem index items))

/-- `tuple_setitem(t, i, x)`. -/
def tupleSetItem : Rule := ternary fun _ t i x => do
  let index ← Infer.constantOf i "tuple index"
  let items ← Infer.tupleShapes t
  let n ← Infer.ofExcept (tuplePosition index items.length)
  let new ← Infer.shapeOf x
  Infer.shape (.tuple (items.set n new))

/-- `list_getitem(l, i)`. -/
def listGetItem : Rule := binary fun _ l _ => do
  let s ← Infer.shapeOf l
  Infer.shape (← Infer.ofExcept s.toElement)

/-- `list_setitem(l, i, x)` and `array_setitem(a, i, x)`: the container keeps its shape. -/
def elementSetItem : Rule := ternary fun _ container _ _ => do
  Infer.shape (← Infer.shapeOf container)

/-- The shape of each value under the name of its attribute. -/
def attributeShapes : List (String × Ty) → List Ref → Infer (List (String × Shape))
  | (name, _) :: attributes, x :: xs => do
      let s ← Infer.shapeOf x
      let rest ← attributeShapes attributes xs
      .done ((name, s) :: rest)
  | _, _ => .done []

/-- The record class that a constant is. -/
def recordClass? : Constant → Option ClassDesc
  | .type t => t.class?
  | _ => none

/-- `make_record(c, ..)`. -/
def makeRecord : Rule := variadic "make_record needs a class" fun _ cls values => do
  let key ← Infer.constantOf cls "record class"
  match recordClass? key with
  | none => .fail (.inference (key.text ++ " is not a record class"))
  | some c =>
    if c.attributes.length ≠ values.length then
      .fail (c.wrongValueCount values.length)
    else do
      let attributes ← attributeShapes c.attributes values
      Infer.shape (.record attributes)

/-- `getattr(r, name)`. -/
def getAttribute : Rule := binary fun track r name => do
  match ← Infer.recordAttribute r name with
  | none => Infer.access .named track r name
  | some (name, _) => do
      let s ← Infer.shapeOf r
      match s.attribute? name with
      | some a => Infer.shape a
      | none => .fail (.inference ("shape " ++ s.text ++ " has no attribute " ++ name))

/-- The attributes with a new shape for the first one of that name. -/
def setFirst (name : String) (new : Shape) : List (String × Shape) → List (String × Shape)
  | [] => []
  | (n, s) :: rest => if n = name then (n, new) :: rest else (n, s) :: setFirst name new rest

/-- `setattr(r, name, x)`. -/
def setAttribute : Rule := ternary fun _ r name x => do
  let key ← Infer.constantOf name "attribute name"
  match key.str? with
  | none => .fail (.inference ("attribute name must be a string, got " ++ key.text))
  | some name =>
    match ← Infer.shapeOf r with
    | .record attributes =>
      if attributes.any fun (n, _) => n = name then do
        let new ← Infer.shapeOf x
        Infer.shape (.record (setFirst name new attributes))
      else .fail (.inference ("no attribute " ++ name))
    | _ => .fail (.inference ("cannot set attribute " ++ name ++ " here"))

/-- `scalar_to_array(x)`: an array without axes. -/
def scalarToArray : Rule := unary fun _ _ => Infer.shape (.dims [])

/-- `shape(a)`: one scalar for each axis. -/
def shape : Rule := unary fun _ a => do
  let ds ← Infer.arrayDims a "shape argument"
  Infer.extentsShape ds.length

/-- The number of elements of a tuple of extents. -/
def extentsCount (subject : Ref) : Infer Nat := do
  let t ← Infer.typeOf subject
  match t.elements? with
  | some es => .done es.length
  | none => .fail (.inference ("broadcast_shape needs tuples, got " ++ t.text))

/-- `broadcast_shape(s, t)`. -/
def broadcastShape : Rule := binary fun _ s t => do
  let m ← extentsCount s
  let n ← extentsCount t
  Infer.extentsShape (max m n)

/-- The extent of one axis of several arrays that are combined elementwise, given the one that is
known so far. -/
def combineAxis (axis : Nat) : Option UInt64 → List Dim → Except InferError Dim
  | seen, [] => .ok (seen.elim .anything .known)
  | seen, .anything :: ds => combineAxis axis seen ds
  | none, .known n :: ds => combineAxis axis (some n) ds
  | some m, .known n :: ds =>
    if m = n then combineAxis axis (some m) ds
    else
      .error (.shape
        ("array_map: axis " ++ toString axis ++ " has extents " ++ toString m.toNat ++ " and "
          ++ toString n.toNat))

/-- The extents of several arrays that are combined elementwise. -/
def combine : List (List Dim) → Except InferError (List Dim)
  | [] => .ok []
  | first :: rest =>
    if rest.any fun ds => ds.length ≠ first.length then
      .error (.shape "array_map: arrays of different rank")
    else
      (List.range first.length).mapM fun axis =>
        combineAxis axis none ((first :: rest).filterMap fun ds => ds[axis]?)

/-- `array_map(f, ..)`: the arrays are combined elementwise. -/
def arrayMap : Rule := variadic "map needs a function" fun _ _ arrays => do
  let dims ← Infer.arraysDims "array_map argument" arrays
  Infer.shape (.dims (← Infer.ofExcept (combine dims)))

/-- `list_map(f, ..)`: the function is called on one element of each list. -/
def listMap : Rule := variadic "list_map needs a function" fun track f lists => do
  let inner ← Infer.inferrerOf f track
  let p ← Infer.callInferrer inner (lists.map .element)
  Infer.shape (.list (← Infer.ofExcept p.toShape))

/-- `array_scan(f, init, a, axis)`: the array keeps its shape. -/
def arrayScan : Rule := quaternary fun _ _ _ a _ => do
  Infer.shape (← Infer.shapeOf a)

/-- The first pair of extents that cannot be broadcast to each other. -/
def firstClash? : List Dim → List Dim → Option (Dim × Dim)
  | d :: ds, e :: es => if d.broadcastable e then firstClash? ds es else some (d, e)
  | _, _ => none

/-- Reduces an array to a target, by collapsing leading axes and axes of extent one. -/
def reduceTo (source target : List Dim) : Except InferError (List Dim) :=
  if source.length < target.length then
    .error (.shape
      ("array_reduce: cannot reduce " ++ (Shape.dims source).text ++ " to "
        ++ (Shape.dims target).text))
  else
    match firstClash? (source.drop (source.length - target.length)) target with
    | some (d, e) =>
        .error (.shape
          ("array_reduce: incompatible dimensions " ++ d.text ++ " and " ++ e.text))
    | none => .ok target

/-- `array_reduce(f, a, s)`. -/
def arrayReduce : Rule := ternary fun _ _ a s => do
  match ← Infer.valueOf s with
  | .anything => .fail (.unsupported "array_reduce needs a constant target shape")
  | .known c => do
      let target ← Infer.ofExcept (Dim.listOfConstant c)
      let source ← Infer.arrayDims a "array_reduce input"
      Infer.shape (.dims (← Infer.ofExcept (reduceTo source target)))

/-- Broadcasts an array to a target, after putting axes of extent one in front. -/
def distributeTo (source target : List Dim) : Except InferError (List Dim) :=
  let padded := List.replicate (target.length - source.length) (Dim.known 1) ++ source
  if target.length < source.length || (firstClash? padded target).isSome then
    .error (.shape
      ("cannot distribute " ++ (Shape.dims source).text ++ " to " ++ (Shape.dims target).text))
  else .ok target

/-- `distribute(x, s)`. -/
def distribute : Rule := binary fun _ x s => do
  let target ← Infer.targetDims s
  let t ← Infer.typeOf x
  if t.family = .array then do
    let source ← Infer.arrayDims x "distribute input"
    Infer.shape (.dims (← Infer.ofExcept (distributeTo source target)))
  else Infer.shape (.dims target)

/-- `reshape(a, s)`: the element count must stay the same. It is compared only if both shapes are
fully known. -/
def reshape : Rule := binary fun _ a s => do
  let target ← Infer.targetDims s
  let source ← Infer.shapeOf a
  match source.elementCount?, (Shape.dims target).elementCount? with
  | some m, some n =>
    if m = n then Infer.shape (.dims target)
    else
      Infer.shapeError ("cannot reshape " ++ source.text ++ " to " ++ (Shape.dims target).text)
  | _, _ => do
      let description ← Infer.describe a
      Infer.note .reshapeUnchecked (some description)
      Infer.shape (.dims target)

/-- The extents of a product of two matrices. -/
def product (a b : List Dim) : Except InferError (List Dim) :=
  match a, b with
  | [rows, inner], [facing, columns] =>
    if inner.compatible facing then .ok [rows, columns]
    else
      .error (.shape
        ("dot: inner dimensions " ++ inner.text ++ " and " ++ facing.text ++ " differ"))
  | a, b =>
      .error (.shape
        ("dot needs two matrices, got " ++ (Shape.dims a).text ++ " and " ++ (Shape.dims b).text))

/-- `dot(a, b)`. -/
def dot : Rule := binary fun _ x y => do
  let a ← Infer.arrayDims x "dot argument"
  let b ← Infer.arrayDims y "dot argument"
  Infer.shape (.dims (← Infer.ofExcept (product a b)))

/-- All shape rules. Operators without one have no shape. -/
def registry : Registry :=
  Rule.common
    |>.insert .makeTuple (.atLeast 0) makeTuple
    |>.insert .tail (.exactly 1) tail
    |>.insert .tupleGetItem (.exactly 2) tupleGetItem
    |>.insert .tupleSetItem (.exactly 3) tupleSetItem
    |>.insert .listGetItem (.exactly 2) listGetItem
    |>.insertAll [.listSetItem, .arraySetItem] (.exactly 3) elementSetItem
    |>.insert .makeRecord (.atLeast 1) makeRecord
    |>.insert .getAttribute (.exactly 2) getAttribute
    |>.insert .setAttribute (.exactly 3) setAttribute
    |>.insert .scalarToArray (.exactly 1) scalarToArray
    |>.insert .shape (.exactly 1) shape
    |>.insert .broadcastShape (.exactly 2) broadcastShape
    |>.insert .arrayMap (.atLeast 2) arrayMap
    |>.insert .listMap (.atLeast 2) listMap
    |>.insert .arrayScan (.exactly 4) arrayScan
    |>.insert .arrayReduce (.exactly 3) arrayReduce
    |>.insert .distribute (.exactly 2) distribute
    |>.insert .reshape (.exactly 2) reshape
    |>.insert .dot (.exactly 2) dot

end ShapeRules

end ArrayInference
