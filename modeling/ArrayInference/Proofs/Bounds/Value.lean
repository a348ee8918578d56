import ArrayInference.Proofs.Bounds.Registry
import ArrayInference.Rules.Value

/-!
# Value rules with their accesses checked

Folding reads the constants of its operands back from a list, tuples are read at positions and cut,
and broadcasting puts as many ones in front of extents as they are shorter than the longer ones.
-/

namespace ArrayInference

namespace Infer

theorem ends_knownValues (xs : List Ref) :
    (knownValues xs).Ends fun values => ∀ cs, values = some cs → cs.length = xs.length := by
  induction xs with
  | nil => exact .done fun cs h => Option.some.inj h ▸ rfl
  | cons x xs ih =>
    refine ends_bind _ fun v => ?_
    cases v with
    | anything => exact .done fun _ h => nomatch h
    | known c =>
      refine ih.bind fun values lengths => .done fun cs h => ?_
      obtain ⟨rest, hrest, rfl⟩ := Option.map_eq_some_iff.mp h
      simp [lengths rest hrest]

end Infer

namespace Rule

/-- An operation on two constants, which are read back from the list of both. -/
def checkedFold₂ (x y : Ref) (op : Constant → Constant → Checked Property) : Checked Property := do
  match ← Checked.plain (Infer.knownValues [x, y]) with
  | some values => do
      let a ← Checked.item values 0
      let b ← Checked.item values 1
      op a b
  | none => .plain Infer.unknown

theorem faultless_fold₂ {x y : Ref} {op : Constant → Constant → Checked Property}
    {op' : Constant → Constant → Infer Property} (h : ∀ a b, Faultless (op a b) (op' a b)) :
    Faultless (checkedFold₂ x y op) (Infer.fold₂ x y op') := by
  refine .ends (Infer.ends_knownValues [x, y]) fun values lengths => ?_
  match values, lengths with
  | none, _ => exact .plain
  | some [a, b], _ =>
    exact .access (Checked.item_of_getElem? rfl) (.access (Checked.item_of_getElem? rfl) (h a b))
  | some [], lengths => exact nomatch lengths _ rfl
  | some [_], lengths => exact nomatch lengths _ rfl
  | some (_ :: _ :: _ :: _), lengths => exact nomatch lengths _ rfl

/-- Folds an operator of two operands. -/
def checkedFoldBinary (op : Constant → Constant → Option Constant) : CheckedRule :=
  .binary fun _ x y => checkedFold₂ x y fun a b => .plain (Infer.folded (op a b))

theorem shadows_foldBinary (op : Constant → Constant → Option Constant) :
    Shadows (.exactly 2) (foldBinary op) (checkedFoldBinary op) :=
  .binary fun _ _ _ => faultless_fold₂ fun _ _ => .plain

end Rule

namespace ValueRules

open Rule

/-- `tail(t)`. -/
def checkedTail : CheckedRule := .unary fun _ t => do
  match ← Checked.plain (Infer.valueOf t) with
  | .known (.tuple items) => do
      let rest ← checkedRest items
      .plain (Infer.known (.tuple rest))
  | _ => .plain Infer.unknown

theorem shadows_tail : Shadows (.exactly 1) tail checkedTail := by
  refine .unary fun _ t => .ask fun v => ?_
  cases v with
  | anything => exact .plain
  | known c =>
    cases c with
    | tuple items =>
      cases items with
      | nil => rfl
      | cons first rest => exact .access (checkedRest_cons first rest) .plain
    | _ => exact .plain

/-- `tuple_getitem(t, i)`. -/
def checkedTupleGetItem : CheckedRule := .binary fun track t i => do
  let index ← Checked.plain (Infer.constantOf i "tuple index")
  match ← Checked.plain (Infer.valueOf t) with
  | .known (.tuple items) => do
      let item ← checkedItem index items
      .plain (Infer.constant item track)
  | _ => .plain Infer.unknown

theorem shadows_tupleGetItem : Shadows (.exactly 2) tupleGetItem checkedTupleGetItem := by
  refine .binary fun track t i => .ask fun index => .ask fun v => ?_
  cases v with
  | anything => exact .plain
  | known c =>
    cases c with
    | tuple items => exact (faultless_item index items).bind fun item => .plain
    | _ => exact .plain

/-- `list_getitem(l, i)`. -/
def checkedListGetItem : CheckedRule := .binary fun track l i =>
  checkedFold₂ l i fun items index =>
    match items.item? index with
    | some item => .plain (Infer.constant item track)
    | none =>
        .plain (.fail (.inference
          ("list index " ++ index.text ++ " out of range for " ++ items.text)))

theorem shadows_listGetItem : Shadows (.exactly 2) listGetItem checkedListGetItem := by
  refine .binary fun track l i => faultless_fold₂ fun items index => ?_
  cases items.item? index with
  | some item => exact .plain
  | none => exact .plain

/-- The extents with ones in front, up to the rank. -/
def checkedPadded (rank : Nat) (ds : List Dim) : Checked (List Dim) := do
  let missing ← Checked.difference rank ds.length
  return List.replicate missing (.known 1) ++ ds

theorem checkedPadded_of_le {rank : Nat} {ds : List Dim} (h : ds.length ≤ rank) :
    checkedPadded rank ds = pure (padded rank ds) := by
  rw [checkedPadded, Checked.difference_of_le h, pure_bind, padded]

/-- The extents that two arrays are broadcast to, aligned at their last axes. -/
def checkedBroadcastDims (ds es : List Dim) : Checked (Option (List Dim)) := do
  let rank := max ds.length es.length
  let first ← checkedPadded rank ds
  let second ← checkedPadded rank es
  return (first.zip second).mapM fun (d, e) => broadcastDim d e

theorem checkedBroadcastDims_eq (ds es : List Dim) :
    checkedBroadcastDims ds es = pure (broadcastDims ds es) := by
  simp only [checkedBroadcastDims, checkedPadded_of_le (Nat.le_max_left ds.length es.length),
    checkedPadded_of_le (Nat.le_max_right ds.length es.length), pure_bind]
  rfl

/-- `broadcast_shape(s, t)`. -/
def checkedBroadcastShape : CheckedRule := .binary fun _ s t =>
  checkedFold₂ s t fun a b => do
    let ds ← Checked.plain (Infer.ofExcept (Dim.listOfConstant a))
    let es ← Checked.plain (Infer.ofExcept (Dim.listOfConstant b))
    match ← checkedBroadcastDims ds es with
    | some merged => .plain (Infer.folded (Dim.listToConstant? merged))
    | none => .plain (.fail (.shape ("cannot broadcast " ++ a.text ++ " and " ++ b.text)))

theorem shadows_broadcastShape : Shadows (.exactly 2) broadcastShape checkedBroadcastShape := by
  refine .binary fun _ s t => faultless_fold₂ fun a b => .ask fun ds => .ask fun es => ?_
  refine .access (checkedBroadcastDims_eq ds es) ?_
  cases broadcastDims ds es with
  | some merged => exact .plain
  | none => exact .plain

/-- `scalar_cast(x, t)`. -/
def checkedScalarCast : CheckedRule := .binary fun _ x t =>
  checkedFold₂ x t fun value target =>
    match target with
    | .type target => .plain (Infer.folded (value.cast target.family))
    | other => .plain (.fail (.inference ("cast target must be a type, got " ++ other.text)))

theorem shadows_scalarCast : Shadows (.exactly 2) scalarCast checkedScalarCast := by
  refine .binary fun _ x t => faultless_fold₂ fun value target => ?_
  cases target <;> exact .plain

/-- All checked value rules. -/
def checkedRegistry : CheckedRegistry :=
  checkedCommon
    |>.insert .scalarAdd (checkedFoldBinary Constant.add)
    |>.insert .scalarSub (checkedFoldBinary Constant.sub)
    |>.insert .scalarMul (checkedFoldBinary Constant.mul)
    |>.insert .scalarDiv (checkedFoldBinary Constant.div)
    |>.insert .scalarMod (checkedFoldBinary Constant.modulo)
    |>.insert .scalarPow (checkedFoldBinary Constant.pow)
    |>.insert .scalarUadd (.counted 1 (foldUnary Constant.plus))
    |>.insert .scalarUsub (.counted 1 (foldUnary Constant.minus))
    |>.insert .scalarExp (.counted 1 (foldUnary (Constant.onFloat Float.exp)))
    |>.insert .scalarLog (.counted 1 (foldUnary (Constant.onFloat Float.log)))
    |>.insert .scalarSin (.counted 1 (foldUnary (Constant.onFloat Float.sin)))
    |>.insert .scalarCos (.counted 1 (foldUnary (Constant.onFloat Float.cos)))
    |>.insert .scalarTan (.counted 1 (foldUnary (Constant.onFloat Float.tan)))
    |>.insert .scalarEq (checkedFoldBinary (Constant.compareBy Ordering.isEq))
    |>.insert .scalarNe (checkedFoldBinary (Constant.compareBy Ordering.isNe))
    |>.insert .scalarLt (checkedFoldBinary (Constant.compareBy Ordering.isLT))
    |>.insert .scalarGt (checkedFoldBinary (Constant.compareBy Ordering.isGT))
    |>.insert .scalarLe (checkedFoldBinary (Constant.compareBy Ordering.isLE))
    |>.insert .scalarGe (checkedFoldBinary (Constant.compareBy Ordering.isGE))
    |>.insert .boolNot (.counted 1 (foldUnary Constant.not))
    |>.insert .boolAnd (checkedFoldBinary (Constant.logical (· && ·)))
    |>.insert .boolOr (checkedFoldBinary (Constant.logical (· || ·)))
    |>.insert .typeOf (.counted 1 typeOf)
    |>.insert .hasType (.counted 2 hasType)
    |>.insert .makeTuple (.free makeTuple)
    |>.insert .tail checkedTail
    |>.insert .tupleGetItem checkedTupleGetItem
    |>.insert .listGetItem checkedListGetItem
    |>.insert .tupleLen (.counted 1 tupleLen)
    |>.insert .listLen (.counted 1 listLen)
    |>.insert .arrayLen (.counted 1 arrayLen)
    |>.insert .shape (.counted 1 shape)
    |>.insert .broadcastShape checkedBroadcastShape
    |>.insert .getAttribute (.counted 2 getAttribute)
    |>.insert .scalarCast checkedScalarCast

theorem covers_registry : checkedRegistry.Covers registry :=
  covers_common
    |>.insert _ (shadows_foldBinary _)
    |>.insert _ (shadows_foldBinary _)
    |>.insert _ (shadows_foldBinary _)
    |>.insert _ (shadows_foldBinary _)
    |>.insert _ (shadows_foldBinary _)
    |>.insert _ (shadows_foldBinary _)
    |>.insert _ (.counted (counts_unary _))
    |>.insert _ (.counted (counts_unary _))
    |>.insert _ (.counted (counts_unary _))
    |>.insert _ (.counted (counts_unary _))
    |>.insert _ (.counted (counts_unary _))
    |>.insert _ (.counted (counts_unary _))
    |>.insert _ (.counted (counts_unary _))
    |>.insert _ (shadows_foldBinary _)
    |>.insert _ (shadows_foldBinary _)
    |>.insert _ (shadows_foldBinary _)
    |>.insert _ (shadows_foldBinary _)
    |>.insert _ (shadows_foldBinary _)
    |>.insert _ (shadows_foldBinary _)
    |>.insert _ (.counted (counts_unary _))
    |>.insert _ (shadows_foldBinary _)
    |>.insert _ (shadows_foldBinary _)
    |>.insert _ (.counted (counts_unary _))
    |>.insert _ (.counted (counts_binary _))
    |>.insert _ .free
    |>.insert _ shadows_tail
    |>.insert _ shadows_tupleGetItem
    |>.insert _ shadows_listGetItem
    |>.insert _ (.counted (counts_unary _))
    |>.insert _ (.counted (counts_unary _))
    |>.insert _ (.counted (counts_unary _))
    |>.insert _ (.counted (counts_unary _))
    |>.insert _ shadows_broadcastShape
    |>.insert _ (.counted (counts_binary _))
    |>.insert _ shadows_scalarCast

end ValueRules

end ArrayInference
