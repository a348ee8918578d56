import ArrayInference.Constant.Folding
import ArrayInference.Rules.Control
import ArrayInference.Type.Order

/-!
# Value rules

An operator folds when every input that it needs is a known constant, and gives an unknown value
otherwise.
-/

namespace ArrayInference

namespace Infer

/-- A known value. -/
def known (c : Constant) : Infer Property :=
  done (.value (.known c))

/-- An unknown value. -/
def unknown : Infer Property :=
  done (.value .anything)

/-- The value of an operation that may not fold. -/
def folded : Option Constant → Infer Property
  | some c => known c
  | none => unknown

/-- The constants of several references; none as soon as one of them is unknown. The references after
that one are not looked at. -/
def knownValues : List Ref → Infer (Option (List Constant))
  | [] => done (some [])
  | x :: xs => do
      match ← valueOf x with
      | .anything => done none
      | .known c => do
          let rest ← knownValues xs
          done (rest.map (c :: ·))

/-- An operation on two constants. -/
def fold₂ (x y : Ref) (op : Constant → Constant → Infer Property) : Infer Property := do
  match ← knownValues [x, y] with
  | some [a, b] => op a b
  | _ => unknown

end Infer

namespace Rule

/-- Folds an operator of one operand. -/
def foldUnary (op : Constant → Option Constant) : Rule := unary fun _ x => do
  match ← Infer.valueOf x with
  | .known c => Infer.folded (op c)
  | .anything => Infer.unknown

/-- Folds an operator of two operands. -/
def foldBinary (op : Constant → Constant → Option Constant) : Rule := binary fun _ x y =>
  Infer.fold₂ x y fun a b => Infer.folded (op a b)

end Rule

namespace ValueRules

open Rule

/-- `typeof(x)`: the type of `x` is always known. -/
def typeOf : Rule := unary fun _ x => do
  let t ← Infer.typeOf x
  Infer.known (.type t)

/-- `hastype(x, t)`: whether the type of `x` is `t` or below it. -/
def hasType : Rule := binary fun _ x t => do
  match ← Infer.valueOf t with
  | .known (.type expected) => do
      let actual ← Infer.typeOf x
      Infer.known (.bool (actual.isSubtype expected))
  | _ => Infer.unknown

/-- `make_tuple(..)`. -/
def makeTuple : Rule := fun _ args => do
  match ← Infer.knownValues args with
  | some values => Infer.known (.tuple values)
  | none => Infer.unknown

/-- `tail(t)`. -/
def tail : Rule := unary fun _ t => do
  match ← Infer.valueOf t with
  | .known (.tuple []) => .fail (.inference "tail of an empty tuple")
  | .known (.tuple (_ :: rest)) => Infer.known (.tuple rest)
  | _ => Infer.unknown

/-- `tuple_getitem(t, i)`. The item has the property of a constant, so it stays callable if it is. -/
def tupleGetItem : Rule := binary fun track t i => do
  let index ← Infer.constantOf i "tuple index"
  match ← Infer.valueOf t with
  | .known (.tuple items) => do
      let item ← Infer.ofExcept (tupleItem index items)
      Infer.constant item track
  | _ => Infer.unknown

/-- `list_getitem(l, i)`. -/
def listGetItem : Rule := binary fun track l i =>
  Infer.fold₂ l i fun items index =>
    match items.item? index with
    | some item => Infer.constant item track
    | none =>
        .fail (.inference ("list index " ++ index.text ++ " out of range for " ++ items.text))

/-- `tuple_len(t)`: the length is part of the type. -/
def tupleLen : Rule := unary fun _ t => do
  let type ← Infer.typeOf t
  match type.elements? with
  | some es => Infer.known (.int (Int64.ofNat es.length))
  | none => Infer.unknown

/-- `list_len(l)`. -/
def listLen : Rule := unary fun _ l => do
  match ← Infer.valueOf l with
  | .known (.list items) => Infer.known (.int (Int64.ofNat items.length))
  | _ => Infer.unknown

/-- `array_len(a)`: the extent of the first axis. -/
def arrayLen : Rule := unary fun _ a => do
  let s ← Infer.shapeOf a
  match s.dims? with
  | some (.known n :: _) => Infer.known (.int n.toInt64)
  | some [] => .fail (.inference "len of a 0-d array")
  | _ => Infer.unknown

/-- `shape(a)`: the extents, if all are known. -/
def shape : Rule := unary fun _ a => do
  let s ← Infer.shapeOf a
  Infer.folded (s.dims?.bind Dim.listToConstant?)

/-- The extents with ones in front, up to the rank. -/
def padded (rank : Nat) (ds : List Dim) : List Dim :=
  List.replicate (rank - ds.length) (.known 1) ++ ds

/-- The extent that two extents are broadcast to. -/
def broadcastDim (d e : Dim) : Option Dim :=
  if d = .known 1 then some e
  else if e = .known 1 then some d
  else if d = e then some d
  else none

/-- The extents that two arrays are broadcast to, aligned at their last axes. -/
def broadcastDims (ds es : List Dim) : Option (List Dim) :=
  let rank := max ds.length es.length
  ((padded rank ds).zip (padded rank es)).mapM fun (d, e) => broadcastDim d e

/-- `broadcast_shape(s, t)`. -/
def broadcastShape : Rule := binary fun _ s t =>
  Infer.fold₂ s t fun a b => do
    let ds ← Infer.ofExcept (Dim.listOfConstant a)
    let es ← Infer.ofExcept (Dim.listOfConstant b)
    match broadcastDims ds es with
    | some merged => Infer.folded (Dim.listToConstant? merged)
    | none => .fail (.shape ("cannot broadcast " ++ a.text ++ " and " ++ b.text))

/-- `getattr(r, name)`: an attribute of an unknown record is unknown, and everything else is read
from a constant. -/
def getAttribute : Rule := binary fun track r name => do
  match ← Infer.recordAttribute r name with
  | none => Infer.access .named track r name
  | some _ =>
    match ← Infer.valueOf r with
    | .anything => Infer.unknown
    | .known _ => Infer.access .named track r name

/-- `scalar_cast(x, t)`. -/
def scalarCast : Rule := binary fun _ x t =>
  Infer.fold₂ x t fun value target =>
    match target with
    | .type target => Infer.folded (value.cast target.family)
    | other => .fail (.inference ("cast target must be a type, got " ++ other.text))

/-- All value rules. Operators without one have an unknown value. -/
def registry : Registry :=
  Rule.common
    |>.insert .scalarAdd (.exactly 2) (foldBinary Constant.add)
    |>.insert .scalarSub (.exactly 2) (foldBinary Constant.sub)
    |>.insert .scalarMul (.exactly 2) (foldBinary Constant.mul)
    |>.insert .scalarDiv (.exactly 2) (foldBinary Constant.div)
    |>.insert .scalarMod (.exactly 2) (foldBinary Constant.modulo)
    |>.insert .scalarPow (.exactly 2) (foldBinary Constant.pow)
    |>.insert .scalarUadd (.exactly 1) (foldUnary Constant.plus)
    |>.insert .scalarUsub (.exactly 1) (foldUnary Constant.minus)
    |>.insert .scalarExp (.exactly 1) (foldUnary (Constant.onFloat Float.exp))
    |>.insert .scalarLog (.exactly 1) (foldUnary (Constant.onFloat Float.log))
    |>.insert .scalarSin (.exactly 1) (foldUnary (Constant.onFloat Float.sin))
    |>.insert .scalarCos (.exactly 1) (foldUnary (Constant.onFloat Float.cos))
    |>.insert .scalarTan (.exactly 1) (foldUnary (Constant.onFloat Float.tan))
    |>.insert .scalarEq (.exactly 2) (foldBinary (Constant.compareBy Ordering.isEq))
    |>.insert .scalarNe (.exactly 2) (foldBinary (Constant.compareBy Ordering.isNe))
    |>.insert .scalarLt (.exactly 2) (foldBinary (Constant.compareBy Ordering.isLT))
    |>.insert .scalarGt (.exactly 2) (foldBinary (Constant.compareBy Ordering.isGT))
    |>.insert .scalarLe (.exactly 2) (foldBinary (Constant.compareBy Ordering.isLE))
    |>.insert .scalarGe (.exactly 2) (foldBinary (Constant.compareBy Ordering.isGE))
    |>.insert .boolNot (.exactly 1) (foldUnary Constant.not)
    |>.insert .boolAnd (.exactly 2) (foldBinary (Constant.logical (· && ·)))
    |>.insert .boolOr (.exactly 2) (foldBinary (Constant.logical (· || ·)))
    |>.insert .typeOf (.exactly 1) typeOf
    |>.insert .hasType (.exactly 2) hasType
    |>.insert .makeTuple (.atLeast 0) makeTuple
    |>.insert .tail (.exactly 1) tail
    |>.insert .tupleGetItem (.exactly 2) tupleGetItem
    |>.insert .listGetItem (.exactly 2) listGetItem
    |>.insert .tupleLen (.exactly 1) tupleLen
    |>.insert .listLen (.exactly 1) listLen
    |>.insert .arrayLen (.exactly 1) arrayLen
    |>.insert .shape (.exactly 1) shape
    |>.insert .broadcastShape (.exactly 2) broadcastShape
    |>.insert .getAttribute (.exactly 2) getAttribute
    |>.insert .scalarCast (.exactly 2) scalarCast

end ValueRules

end ArrayInference
