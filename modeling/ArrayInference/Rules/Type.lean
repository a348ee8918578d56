import ArrayInference.Rules.Control
import ArrayInference.Type.Order

/-!
# Type rules

Every operator of the catalog has a type rule, because there is no type that could be assumed of an
operator without one.
-/

namespace ArrayInference

namespace Infer

/-- A type. -/
def type (t : Ty) : Infer Property :=
  done (.type t)

/-- Makes a type and answers with it. -/
def newType (make : Interning Ty) : Infer Property := do
  type (← intern make)

/-- The type that an argument holds; `what` names it in the error if it holds none. -/
def typeArgument (subject : Ref) (what : String) : Infer Ty := do
  match ← constantOf subject what with
  | .type t => done t
  | other => fail (.inference (what ++ " must be a type, got " ++ other.text))

/-- The element types of a tuple. -/
def tupleElements (subject : Ref) : Infer (List Ty) := do
  let t ← typeOf subject
  match t.elements? with
  | some es => done es
  | none => fail (.inference ("expected a tuple, got " ++ t.text))

/-- Fails unless a type is an instance of a family; `what` names it in the error. -/
def expectFamily (t : Ty) (family : Family) (what : String) : Infer Unit :=
  if t.family = family && !t.isGeneric then done ()
  else fail (.inference (what ++ " must be " ++ family.name ++ ", got " ++ t.text))

/-- The types of two numbers, which must be the same. -/
def sameNumber (x y : Ref) : Infer Ty := do
  let a ← typeOf x
  let b ← typeOf y
  if a.isNumber && a = b then done a
  else
    fail (.inference
      ("expected two numbers of the same type, got " ++ a.text ++ " and " ++ b.text))

/-- Fails unless every reference has the instantiated type family; `what` names it in the error. -/
def expectFamilies (family : Family) (what : String) : List Ref → Infer Unit
  | [] => done ()
  | x :: xs => do
      expectFamily (← typeOf x) family what
      expectFamilies family what xs

end Infer

namespace TypeRules

open Rule

/-- The family of every argument must be `Bool`. -/
def expectBools : List Ref → Infer Unit
  | [] => .done ()
  | x :: xs => do
      let t ← Infer.typeOf x
      if t.isBool then expectBools xs
      else .fail (.inference ("expected Bool, got " ++ t.text))

/-- Two numbers of one type give a number of that type. -/
def arithmetic : Rule := binary fun _ x y => do
  Infer.type (← Infer.sameNumber x y)

/-- A number gives a number of its type. -/
def unaryArithmetic : Rule := unary fun _ x => do
  let t ← Infer.typeOf x
  if t.isNumber then Infer.type t
  else .fail (.inference ("expected a number, got " ++ t.text))

/-- Two numbers of one type give a boolean. -/
def comparison : Rule := binary fun _ x y => do
  let _ ← Infer.sameNumber x y
  Infer.newType (.generic .bool)

/-- Booleans give a boolean. -/
def logical : Rule := fun _ args => do
  expectBools args
  Infer.newType (.generic .bool)

/-- `typeof(x)`. -/
def typeOf : Rule := fun _ _ => Infer.newType (.generic .type)

/-- `hastype(x, t)`. -/
def hasType : Rule := fun _ _ => Infer.newType (.generic .bool)

/-- `make_tuple(..)`. -/
def makeTuple : Rule := fun _ args => do
  let elements ← args.mapM Infer.typeOf
  Infer.newType (.tuple elements)

/-- `tail(t)`. -/
def tail : Rule := unary fun _ t => do
  match ← Infer.tupleElements t with
  | [] => .fail (.inference "tail of an empty tuple")
  | _ :: rest => Infer.newType (.tuple rest)

/-- `tuple_getitem(t, i)`. -/
def tupleGetItem : Rule := binary fun _ t i => do
  let index ← Infer.constantOf i "tuple index"
  let elements ← Infer.tupleElements t
  Infer.type (← Infer.ofExcept (tupleItem index elements))

/-- `tuple_setitem(t, i, x)`. -/
def tupleSetItem : Rule := ternary fun _ t i x => do
  let index ← Infer.constantOf i "tuple index"
  let elements ← Infer.tupleElements t
  let n ← Infer.ofExcept (tuplePosition index elements.length)
  let new ← Infer.typeOf x
  Infer.newType (.tuple (elements.set n new))

/-- The complaint about a type that is neither a list nor an array. -/
def notIndexable (t : Ty) : InferError :=
  .inference ("cannot index into " ++ t.text)

/-- `list_getitem(l, i)` and `array_getitem(a, ..)`. -/
def elementGetItem : Rule := variadic "no container" fun _ container _ => do
  let t ← Infer.typeOf container
  match t.element? with
  | some e => Infer.type e
  | none => .fail (notIndexable t)

/-- `list_setitem(l, i, x)` and `array_setitem(a, i, x)`: the element must fit. -/
def elementSetItem : Rule := ternary fun _ container _ x => do
  let t ← Infer.typeOf container
  let new ← Infer.typeOf x
  match t.element? with
  | some e =>
    if new.isSubtype e then Infer.type t
    else
      .fail (.inference
        ("cannot store " ++ new.text ++ " into " ++ t.text ++ " of " ++ e.text))
  | none => .fail (notIndexable t)

/-- Whether a type has a length: instantiated tuples, lists and arrays. -/
def hasLength (t : Ty) : Bool :=
  (t.family = .tuple || t.family = .list || t.family = .array) && !t.isGeneric

/-- `tuple_len(t)`, `list_len(l)` and `array_len(a)`. -/
def length : Rule := unary fun _ x => do
  let t ← Infer.typeOf x
  if hasLength t then Infer.newType (Interning.intern (.int · 64))
  else .fail (.inference (t.text ++ " has no length"))

/-- `getattr(r, name)`. The record is asked for again after the name, because it may have failed in
the meantime. -/
def getAttribute : Rule := binary fun track r name => do
  match ← Infer.recordAttribute r name with
  | some (name, _) => do
      let record ← Infer.typeOf r
      match record.class?.bind fun c => c.attribute? name with
      | some t => Infer.type t
      | none => .fail (.inference (record.text ++ " has no attribute " ++ name))
  | none => Infer.access .named track r name

/-- The type of the attribute that a constant names. -/
def attributeOf? (record : Ty) (key : Constant) : Option Ty := do
  let c ← record.class?
  let name ← key.str?
  c.attribute? name

/-- `setattr(r, name, x)`: the value must fit the attribute. -/
def setAttribute : Rule := ternary fun _ r name x => do
  let record ← Infer.typeOf r
  let key ← Infer.constantOf name "attribute name"
  match attributeOf? record key with
  | none => .fail (.inference (record.text ++ " has no attribute " ++ key.text))
  | some declared => do
      let actual ← Infer.typeOf x
      if actual.isSubtype declared then Infer.type record
      else
        .fail (.inference
          ("cannot set attribute " ++ key.text ++ " of type " ++ declared.text ++ " to "
            ++ actual.text))

/-- Fails at the first value that does not fit its attribute. -/
def checkAttributes (tag : ClassTag) : List (String × Ty) → List Ref → Infer Unit
  | (name, declared) :: attributes, x :: xs => do
      let actual ← Infer.typeOf x
      if actual.isSubtype declared then checkAttributes tag attributes xs
      else
        .fail (.inference
          ("attribute " ++ name ++ " of " ++ tag.name ++ " expects " ++ declared.text ++ ", got "
            ++ actual.text))
  | _, _ => .done ()

/-- `make_record(c, ..)`: the values must fit the declared attributes. -/
def makeRecord : Rule := variadic "make_record needs a class" fun _ cls values => do
  let record ← Infer.typeArgument cls "record class"
  match record.class? with
  | none => .fail (.inference (record.text ++ " is not a record class"))
  | some c =>
    if c.attributes.length ≠ values.length then
      .fail (c.wrongValueCount values.length)
    else do
      checkAttributes c.tag c.attributes values
      Infer.type record

/-- `scalar_to_array(x)`. -/
def scalarToArray : Rule := unary fun _ x => do
  let t ← Infer.typeOf x
  Infer.newType (.array t)

/-- A tuple of as many extents as an array has axes. -/
def extents (rank : Nat) : Interning Ty := do
  let extent ← Interning.intern (.uint · 64)
  Interning.tuple (List.replicate rank extent)

/-- `broadcast_shape(s, t)`. -/
def broadcastShape : Rule := binary fun _ s t => do
  let a ← Infer.tupleElements s
  let b ← Infer.tupleElements t
  Infer.newType (extents (max a.length b.length))

/-- `shape(a)`: one extent for each axis, so the shape of `a` gives the rank. -/
def shape : Rule := unary fun _ a => do
  Infer.expectFamily (← Infer.typeOf a) .array "shape argument"
  let s ← Infer.shapeOf a
  match s.rank? with
  | some rank => Infer.newType (extents rank)
  | none => .fail (.inference (s.text ++ " is not an array shape"))

/-- The type of a function's result on one element of each container. -/
def mappedElement (track : Track) (f : Ref) (containers : List Ref) : Infer Ty := do
  let inner ← Infer.inferrerOf f track
  let p ← Infer.callInferrer inner (containers.map .element)
  Infer.ofExcept p.toType

/-- `array_map(f, ..)`. -/
def arrayMap : Rule := variadic "map needs a function" fun track f arrays => do
  Infer.expectFamilies .array "array_map argument" arrays
  let element ← mappedElement track f arrays
  Infer.newType (.array element)

/-- `list_map(f, ..)`. -/
def listMap : Rule := variadic "map needs a function" fun track f lists => do
  Infer.expectFamilies .list "list_map argument" lists
  let element ← mappedElement track f lists
  Infer.newType (.list element)

/-- An array whose type the result keeps; `what` names it in the error. -/
def keepArray (what : String) (a : Ref) : Infer Property := do
  let t ← Infer.typeOf a
  Infer.expectFamily t .array what
  Infer.type t

/-- `array_scan(f, init, a, axis)`. -/
def arrayScan : Rule := quaternary fun _ _ _ a _ => keepArray "array_scan input" a

/-- `array_reduce(f, a, s)`. -/
def arrayReduce : Rule := ternary fun _ _ a _ => keepArray "array_reduce input" a

/-- `distribute(x, s)`: a scalar becomes an array of itself. -/
def distribute : Rule := binary fun _ x _ => do
  let t ← Infer.typeOf x
  if t.family = .array then Infer.type t else Infer.newType (.array t)

/-- `reshape(a, s)`. -/
def reshape : Rule := binary fun _ a _ => keepArray "reshape input" a

/-- `dot(a, b)`. -/
def dot : Rule := binary fun _ x y => do
  let a ← Infer.typeOf x
  let b ← Infer.typeOf y
  Infer.expectFamily a .array "dot argument"
  if a = b then Infer.type a
  else
    .fail (.inference
      ("dot of arrays with different elements: " ++ a.text ++ " and " ++ b.text))

/-- `scalar_cast(x, t)`. -/
def scalarCast : Rule := binary fun _ x target => do
  let t ← Infer.typeOf x
  if !t.isNumber then .fail (.inference ("cannot cast " ++ t.text))
  else do
    let result ← Infer.typeArgument target "cast target"
    if result.isNumber then Infer.type result
    else .fail (.inference ("cannot cast to " ++ result.text))

/-- All type rules. -/
def registry : Registry :=
  Rule.common
    |>.insertAll
        [.scalarAdd, .scalarSub, .scalarMul, .scalarDiv, .scalarMod, .scalarPow]
        (.exactly 2) arithmetic
    |>.insertAll
        [.scalarUadd, .scalarUsub, .scalarExp, .scalarLog, .scalarSin, .scalarCos, .scalarTan]
        (.exactly 1) unaryArithmetic
    |>.insertAll
        [.scalarEq, .scalarLt, .scalarGt, .scalarNe, .scalarLe, .scalarGe]
        (.exactly 2) comparison
    |>.insert .boolNot (.exactly 1) logical
    |>.insertAll [.boolAnd, .boolOr] (.exactly 2) logical
    |>.insert .typeOf (.exactly 1) typeOf
    |>.insert .hasType (.exactly 2) hasType
    |>.insert .makeTuple (.atLeast 0) makeTuple
    |>.insert .tail (.exactly 1) tail
    |>.insert .tupleGetItem (.exactly 2) tupleGetItem
    |>.insert .listGetItem (.exactly 2) elementGetItem
    |>.insert .arrayGetItem (.atLeast 2) elementGetItem
    |>.insert .tupleSetItem (.exactly 3) tupleSetItem
    |>.insertAll [.listSetItem, .arraySetItem] (.exactly 3) elementSetItem
    |>.insertAll [.tupleLen, .listLen, .arrayLen] (.exactly 1) length
    |>.insert .getAttribute (.exactly 2) getAttribute
    |>.insert .setAttribute (.exactly 3) setAttribute
    |>.insert .makeRecord (.atLeast 1) makeRecord
    |>.insert .scalarToArray (.exactly 1) scalarToArray
    |>.insert .broadcastShape (.exactly 2) broadcastShape
    |>.insert .shape (.exactly 1) shape
    |>.insert .arrayMap (.atLeast 2) arrayMap
    |>.insert .listMap (.atLeast 2) listMap
    |>.insert .arrayScan (.exactly 4) arrayScan
    |>.insert .arrayReduce (.exactly 3) arrayReduce
    |>.insert .distribute (.exactly 2) distribute
    |>.insert .reshape (.exactly 2) reshape
    |>.insert .dot (.exactly 2) dot
    |>.insert .scalarCast (.exactly 2) scalarCast

end TypeRules

end ArrayInference
