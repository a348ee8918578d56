import ArrayInference.Proofs.Bounds.Registry
import ArrayInference.Rules.Type

/-!
# Type rules with their accesses checked

The types of the elements of a tuple are read at positions, replaced and cut. The rules of any number
of arguments read the first argument, or cut it off, without a look at how many there are.
-/

namespace ArrayInference

/-- A rule of one argument and any number of others that is in range as soon as it has arguments. -/
theorem Shadows.variadic {arity : Arity} {missing : String}
    {plain : Track → Ref → List Ref → Infer Property} {checked : CheckedRule}
    (least : arity.accepts 0 = false)
    (none : ∀ track expected actual, checked track [] ≠ throw (.wrongCount expected actual))
    (some : ∀ track x rest, Faultless (checked track (x :: rest)) (plain track x rest)) :
    Shadows arity (Rule.variadic missing plain) checked where
  faultless track args accepted := by
    cases args with
    | nil => exact absurd accepted (by simp [least])
    | cons x rest => exact some track x rest
  complains track args expected actual h := by
    cases args with
    | nil => exact absurd h (none track expected actual)
    | cons x rest => exact absurd h ((some track x rest).ne_throw _)

namespace TypeRules

open Rule

/-- `tail(t)`. -/
def checkedTail : CheckedRule := .unary fun _ t => do
  let elements ← Checked.plain (Infer.tupleElements t)
  let rest ← checkedRest elements
  .plain (Infer.newType (.tuple rest))

theorem shadows_tail : Shadows (.exactly 1) tail checkedTail := by
  refine .unary fun _ _ => .ask fun elements => ?_
  cases elements with
  | nil => rfl
  | cons first rest => exact .access (checkedRest_cons first rest) .plain

/-- `tuple_getitem(t, i)`. -/
def checkedTupleGetItem : CheckedRule := .binary fun _ t i => do
  let index ← Checked.plain (Infer.constantOf i "tuple index")
  let elements ← Checked.plain (Infer.tupleElements t)
  let element ← checkedItem index elements
  .plain (Infer.type element)

theorem shadows_tupleGetItem : Shadows (.exactly 2) tupleGetItem checkedTupleGetItem :=
  .binary fun _ _ _ => .ask fun index => .ask fun elements =>
    (faultless_item index elements).bind fun _ => .plain

/-- `tuple_setitem(t, i, x)`. -/
def checkedTupleSetItem : CheckedRule := .ternary fun _ t i x => do
  let index ← Checked.plain (Infer.constantOf i "tuple index")
  let elements ← Checked.plain (Infer.tupleElements t)
  let position ← Checked.plain (Infer.ofExcept (tuplePosition index elements.length))
  let new ← Checked.plain (Infer.typeOf x)
  let elements ← Checked.replace elements position new
  .plain (Infer.newType (.tuple elements))

theorem shadows_tupleSetItem : Shadows (.exactly 3) tupleSetItem checkedTupleSetItem :=
  .ternary fun _ _ _ _ => .ask fun _ => .ask fun _ => .ofExcept fun _ found => .ask fun new =>
    .access (Checked.replace_of_lt (tuplePosition_lt found) new) .plain

/-- `list_getitem(l, i)` and `array_getitem(a, ..)`. -/
def checkedElementGetItem : CheckedRule := fun _ args => do
  let container ← Checked.item args 0
  let t ← Checked.plain (Infer.typeOf container)
  match t.element? with
  | some e => .plain (Infer.type e)
  | none => .plain (.fail (notIndexable t))

theorem shadows_elementGetItem {arity : Arity} (least : arity.accepts 0 = false) :
    Shadows arity elementGetItem checkedElementGetItem := by
  refine .variadic least (fun _ _ _ => nofun) fun _ container rest => ?_
  refine .access (Checked.item_of_getElem? rfl) (.ask fun t => ?_)
  cases t.element? with
  | some e => exact .plain
  | none => exact .plain

/-- `array_map(f, ..)` and `list_map(f, ..)`. -/
def checkedMapped (family : Family) (what : String) (make : Ty → Interning Ty) : CheckedRule :=
  fun track args => do
    let containers ← Checked.slice args 1
    let _ ← Checked.plain (Infer.expectFamilies family what containers)
    match args with
    | [] => .plain (.fail (.inference "map needs a function"))
    | f :: containers => do
        let element ← Checked.plain (mappedElement track f containers)
        .plain (Infer.newType (make element))

theorem shadows_mapped {arity : Arity} (least : arity.accepts 0 = false) (family : Family)
    (what : String) (make : Ty → Interning Ty) :
    Shadows arity
      (variadic "map needs a function" fun track f containers => do
        Infer.expectFamilies family what containers
        let element ← mappedElement track f containers
        Infer.newType (make element))
      (checkedMapped family what make) := by
  refine .variadic least (fun _ _ _ => nofun) fun track f containers => ?_
  refine .access (Checked.slice_of_le (Nat.succ_pos containers.length)) ?_
  exact .ask fun _ => .ask fun _ => .plain

/-- All checked type rules. -/
def checkedRegistry : CheckedRegistry :=
  checkedCommon
    |>.insertAll
        [.scalarAdd, .scalarSub, .scalarMul, .scalarDiv, .scalarMod, .scalarPow]
        (.counted 2 arithmetic)
    |>.insertAll
        [.scalarUadd, .scalarUsub, .scalarExp, .scalarLog, .scalarSin, .scalarCos, .scalarTan]
        (.counted 1 unaryArithmetic)
    |>.insertAll
        [.scalarEq, .scalarLt, .scalarGt, .scalarNe, .scalarLe, .scalarGe]
        (.counted 2 comparison)
    |>.insert .boolNot (.free logical)
    |>.insertAll [.boolAnd, .boolOr] (.free logical)
    |>.insert .typeOf (.free typeOf)
    |>.insert .hasType (.free hasType)
    |>.insert .makeTuple (.free makeTuple)
    |>.insert .tail checkedTail
    |>.insert .tupleGetItem checkedTupleGetItem
    |>.insert .listGetItem checkedElementGetItem
    |>.insert .arrayGetItem checkedElementGetItem
    |>.insert .tupleSetItem checkedTupleSetItem
    |>.insertAll [.listSetItem, .arraySetItem] (.counted 3 elementSetItem)
    |>.insertAll [.tupleLen, .listLen, .arrayLen] (.counted 1 length)
    |>.insert .getAttribute (.counted 2 getAttribute)
    |>.insert .setAttribute (.counted 3 setAttribute)
    |>.insert .makeRecord (.free makeRecord)
    |>.insert .scalarToArray (.counted 1 scalarToArray)
    |>.insert .broadcastShape (.counted 2 broadcastShape)
    |>.insert .shape (.counted 1 shape)
    |>.insert .arrayMap (checkedMapped .array "array_map argument" .array)
    |>.insert .listMap (checkedMapped .list "list_map argument" .list)
    |>.insert .arrayScan (.counted 4 arrayScan)
    |>.insert .arrayReduce (.counted 3 arrayReduce)
    |>.insert .distribute (.counted 2 distribute)
    |>.insert .reshape (.counted 2 reshape)
    |>.insert .dot (.counted 2 dot)
    |>.insert .scalarCast (.counted 2 scalarCast)

theorem covers_registry : checkedRegistry.Covers registry :=
  covers_common
    |>.insertAll _ (.counted (counts_binary _))
    |>.insertAll _ (.counted (counts_unary _))
    |>.insertAll _ (.counted (counts_binary _))
    |>.insert _ .free
    |>.insertAll _ .free
    |>.insert _ .free
    |>.insert _ .free
    |>.insert _ .free
    |>.insert _ shadows_tail
    |>.insert _ shadows_tupleGetItem
    |>.insert _ (shadows_elementGetItem rfl)
    |>.insert _ (shadows_elementGetItem rfl)
    |>.insert _ shadows_tupleSetItem
    |>.insertAll _ (.counted (counts_ternary _))
    |>.insertAll _ (.counted (counts_unary _))
    |>.insert _ (.counted (counts_binary _))
    |>.insert _ (.counted (counts_ternary _))
    |>.insert _ .free
    |>.insert _ (.counted (counts_unary _))
    |>.insert _ (.counted (counts_binary _))
    |>.insert _ (.counted (counts_unary _))
    |>.insert _ (shadows_mapped rfl _ _ _)
    |>.insert _ (shadows_mapped rfl _ _ _)
    |>.insert _ (.counted (counts_quaternary _))
    |>.insert _ (.counted (counts_ternary _))
    |>.insert _ (.counted (counts_binary _))
    |>.insert _ (.counted (counts_binary _))
    |>.insert _ (.counted (counts_binary _))
    |>.insert _ (.counted (counts_binary _))

end TypeRules

end ArrayInference
