import ArrayInference.Proofs.Bounds.Registry
import ArrayInference.Rules.Shape
import Mathlib.Data.List.Basic

/-!
# Shape rules with their accesses checked

The extents of arrays are read axis by axis, leading axes are cut off by the difference of two ranks,
and ones are put in front in the same number. Where extents of several arrays are read at one axis,
the rule has compared the ranks before.
-/

namespace ArrayInference

namespace Infer

theorem ends_arraysDims (what : String) (xs : List Ref) :
    (arraysDims what xs).Ends fun dims => dims.length = xs.length := by
  induction xs with
  | nil => exact .done rfl
  | cons x xs ih => exact ends_bind _ fun ds => ih.bind fun rest h => .done (congrArg (· + 1) h)

end Infer

namespace ShapeRules

open Rule

/-- `tail(t)`. -/
def checkedTail : CheckedRule := .unary fun _ t => do
  let items ← Checked.plain (Infer.tupleShapes t)
  let rest ← checkedRest items
  .plain (Infer.shape (.tuple rest))

theorem shadows_tail : Shadows (.exactly 1) tail checkedTail := by
  refine .unary fun _ _ => .ask fun items => ?_
  cases items with
  | nil => rfl
  | cons first rest => exact .access (checkedRest_cons first rest) .plain

/-- `tuple_getitem(t, i)`. -/
def checkedTupleGetItem : CheckedRule := .binary fun _ t i => do
  let index ← Checked.plain (Infer.constantOf i "tuple index")
  let items ← Checked.plain (Infer.tupleShapes t)
  let item ← checkedItem index items
  .plain (Infer.shape item)

theorem shadows_tupleGetItem : Shadows (.exactly 2) tupleGetItem checkedTupleGetItem :=
  .binary fun _ _ _ => .ask fun index => .ask fun items =>
    (faultless_item index items).bind fun _ => .plain

/-- `tuple_setitem(t, i, x)`. -/
def checkedTupleSetItem : CheckedRule := .ternary fun _ t i x => do
  let index ← Checked.plain (Infer.constantOf i "tuple index")
  let items ← Checked.plain (Infer.tupleShapes t)
  let position ← Checked.plain (Infer.ofExcept (tuplePosition index items.length))
  let new ← Checked.plain (Infer.shapeOf x)
  let items ← Checked.replace items position new
  .plain (Infer.shape (.tuple items))

theorem shadows_tupleSetItem : Shadows (.exactly 3) tupleSetItem checkedTupleSetItem :=
  .ternary fun _ _ _ _ => .ask fun _ => .ask fun _ => .ofExcept fun _ found => .ask fun new =>
    .access (Checked.replace_of_lt (tuplePosition_lt found) new) .plain

/-- The extent of one axis of several arrays that are combined elementwise, given the one that is
known so far. -/
def checkedCombineAxis (axis : Nat) : Option UInt64 → List (List Dim) → Checked Dim
  | seen, [] => return seen.elim .anything .known
  | seen, ds :: rest => do
    match ← Checked.item ds axis, seen with
    | .anything, seen => checkedCombineAxis axis seen rest
    | .known n, none => checkedCombineAxis axis (some n) rest
    | .known n, some m =>
      if m = n then checkedCombineAxis axis (some m) rest
      else
        .plain (.fail (.shape
          ("array_map: axis " ++ toString axis ++ " has extents " ++ toString m.toNat ++ " and "
            ++ toString n.toNat)))

theorem faultless_combineAxis (axis : Nat) (seen : Option UInt64) (dims : List (List Dim))
    (h : ∀ ds ∈ dims, axis < ds.length) :
    Faultless (checkedCombineAxis axis seen dims)
      (Infer.ofExcept (combineAxis axis seen (dims.filterMap fun ds => ds[axis]?))) := by
  induction dims generalizing seen with
  | nil => cases seen <;> rfl
  | cons ds rest ih =>
    obtain ⟨d, found⟩ : ∃ d, ds[axis]? = some d :=
      ⟨_, List.getElem?_eq_getElem (h ds List.mem_cons_self)⟩
    replace ih seen := ih seen fun es hes => h es (List.mem_cons_of_mem _ hes)
    rw [checkedCombineAxis.eq_def, List.filterMap_cons, found]
    refine .access (Checked.item_of_getElem? found) ?_
    cases d with
    | anything => cases seen <;> exact ih _
    | known n =>
      cases seen with
      | none => exact ih _
      | some m =>
        simp only [combineAxis]
        split
        · exact ih _
        · exact .plain

/-- The extents of several arrays that are combined elementwise. -/
def checkedCombine (dims : List (List Dim)) : Checked (List Dim) := do
  let first ← Checked.item dims 0
  if dims.any fun ds => ds.length ≠ first.length then
    .plain (.fail (.shape "array_map: arrays of different rank"))
  else (List.range first.length).mapM fun axis => checkedCombineAxis axis none dims

theorem faultless_combine {dims : List (List Dim)} (some : 0 < dims.length) :
    Faultless (checkedCombine dims) (Infer.ofExcept (combine dims)) := by
  obtain ⟨first, rest, rfl⟩ := List.exists_cons_of_length_pos some
  refine .access (Checked.item_of_getElem? rfl) ?_
  have same : (first :: rest).any (fun ds => ds.length ≠ first.length)
      = rest.any fun ds => ds.length ≠ first.length := by
    simp
  rw [same, combine]
  split
  · exact .plain
  · rename_i equal
    have ranks : ∀ ds ∈ first :: rest, ds.length = first.length := by
      simpa using equal
    rw [Infer.ofExcept_mapM]
    refine .mapM fun axis haxis => faultless_combineAxis axis none (first :: rest) fun ds hds => ?_
    rw [ranks ds hds]
    exact List.mem_range.mp haxis

/-- `array_map(f, ..)`. -/
def checkedArrayMap : CheckedRule := fun _ args => do
  let _ ← Checked.difference args.length 1
  let arrays ← Checked.slice args 1
  let dims ← Checked.plain (Infer.arraysDims "array_map argument" arrays)
  let combined ← checkedCombine dims
  .plain (Infer.shape (.dims combined))

theorem faultless_arrayMap (track : Track) (f array : Ref) (arrays : List Ref) :
    Faultless (checkedArrayMap track (f :: array :: arrays)) (arrayMap track (f :: array :: arrays)) := by
  refine .access (Checked.difference_of_le (Nat.succ_pos _)) ?_
  refine .access (Checked.slice_of_le (Nat.succ_pos _)) ?_
  refine .ends (Infer.ends_arraysDims _ (array :: arrays)) fun dims h => ?_
  exact (faultless_combine (h ▸ Nat.succ_pos _)).bind fun _ => .plain

theorem shadows_arrayMap : Shadows (.atLeast 2) arrayMap checkedArrayMap where
  faultless track args accepted := by
    match args, accepted with
    | f :: array :: arrays, _ => exact faultless_arrayMap track f array arrays
  complains track args expected actual h := by
    match args with
    | [] => exact nomatch h
    | [f] => exact nomatch h
    | f :: array :: arrays => exact absurd h ((faultless_arrayMap track f array arrays).ne_throw _)

/-- Reduces an array to a target, by collapsing leading axes and axes of extent one. -/
def checkedReduceTo (source target : List Dim) : Checked (List Dim) :=
  if target.length > source.length then
    .plain (.fail (.shape
      ("array_reduce: cannot reduce " ++ (Shape.dims source).text ++ " to "
        ++ (Shape.dims target).text)))
  else do
    let leading ← Checked.difference source.length target.length
    let kept ← Checked.slice source leading
    match firstClash? kept target with
    | some (d, e) =>
        .plain (.fail (.shape
          ("array_reduce: incompatible dimensions " ++ d.text ++ " and " ++ e.text)))
    | none => return target

theorem faultless_reduceTo (source target : List Dim) :
    Faultless (checkedReduceTo source target) (Infer.ofExcept (reduceTo source target)) := by
  rw [checkedReduceTo, reduceTo]
  split
  · exact .plain
  · rename_i within
    refine .access (Checked.difference_of_le (Nat.not_lt.mp within)) ?_
    refine .access (Checked.slice_of_le (Nat.sub_le _ _)) ?_
    cases firstClash? (source.drop (source.length - target.length)) target with
    | some clash => exact .plain
    | none => exact .pure target

/-- `array_reduce(f, a, s)`. -/
def checkedArrayReduce : CheckedRule := .ternary fun _ _ a s => do
  match ← Checked.plain (Infer.valueOf s) with
  | .anything => .plain (.fail (.unsupported "array_reduce needs a constant target shape"))
  | .known c => do
      let target ← Checked.plain (Infer.ofExcept (Dim.listOfConstant c))
      let source ← Checked.plain (Infer.arrayDims a "array_reduce input")
      let reduced ← checkedReduceTo source target
      .plain (Infer.shape (.dims reduced))

theorem shadows_arrayReduce : Shadows (.exactly 3) arrayReduce checkedArrayReduce := by
  refine .ternary fun _ _ a s => .ask fun v => ?_
  cases v with
  | anything => exact .plain
  | known c =>
    exact .ask fun target => .ask fun source => (faultless_reduceTo source target).bind fun _ => .plain

/-- Broadcasts an array to a target, after putting axes of extent one in front. -/
def checkedDistributeTo (source target : List Dim) : Checked (List Dim) :=
  let failure := Infer.fail (.shape
    ("cannot distribute " ++ (Shape.dims source).text ++ " to " ++ (Shape.dims target).text))
  if source.length > target.length then .plain failure
  else do
    let missing ← Checked.difference target.length source.length
    if (firstClash? (List.replicate missing (Dim.known 1) ++ source) target).isSome then
      .plain failure
    else return target

theorem faultless_distributeTo (source target : List Dim) :
    Faultless (checkedDistributeTo source target) (Infer.ofExcept (distributeTo source target)) := by
  by_cases longer : target.length < source.length
  · simp only [checkedDistributeTo, distributeTo, longer, if_true, decide_true,
      Bool.true_or]
    exact .plain
  · simp only [checkedDistributeTo, distributeTo, longer, if_false, decide_false,
      Bool.false_or]
    refine .access (Checked.difference_of_le (Nat.not_lt.mp longer)) ?_
    split
    · exact .plain
    · exact .pure target

/-- `distribute(x, s)`. -/
def checkedDistribute : CheckedRule := .binary fun _ x s => do
  let target ← Checked.plain (Infer.targetDims s)
  let t ← Checked.plain (Infer.typeOf x)
  if t.family = .array then do
    let source ← Checked.plain (Infer.arrayDims x "distribute input")
    let dims ← checkedDistributeTo source target
    .plain (Infer.shape (.dims dims))
  else .plain (Infer.shape (.dims target))

theorem shadows_distribute : Shadows (.exactly 2) distribute checkedDistribute := by
  refine .binary fun _ x s => .ask fun target => .ask fun t => ?_
  by_cases isArray : t.family = .array
  · rw [if_pos isArray, if_pos isArray]
    exact .ask fun source => (faultless_distributeTo source target).bind fun _ => .plain
  · rw [if_neg isArray, if_neg isArray]
    exact .plain

/-- The extents of a product of two matrices. -/
def checkedProduct (a b : List Dim) : Checked (List Dim) :=
  if a.length ≠ 2 || b.length ≠ 2 then
    .plain (.fail (.shape
      ("dot needs two matrices, got " ++ (Shape.dims a).text ++ " and " ++ (Shape.dims b).text)))
  else do
    let inner ← Checked.item a 1
    let facing ← Checked.item b 0
    if !inner.compatible facing then
      .plain (.fail (.shape
        ("dot: inner dimensions " ++ inner.text ++ " and " ++ facing.text ++ " differ")))
    else do
      let rows ← Checked.item a 0
      let columns ← Checked.item b 1
      return [rows, columns]

theorem faultless_product (a b : List Dim) :
    Faultless (checkedProduct a b) (Infer.ofExcept (product a b)) := by
  rw [product.eq_def]
  split
  · rename_i rows inner facing columns
    refine .access (Checked.item_of_getElem? rfl) (.access (Checked.item_of_getElem? rfl) ?_)
    cases inner.compatible facing with
    | false => exact .plain
    | true =>
      exact .access (Checked.item_of_getElem? rfl)
        (.access (Checked.item_of_getElem? rfl) (.pure [rows, columns]))
  · rename_i others
    have : a.length ≠ 2 ∨ b.length ≠ 2 := by
      by_contra both
      simp only [not_or, not_not] at both
      obtain ⟨rows, inner, rfl⟩ := List.length_eq_two.mp both.1
      obtain ⟨facing, columns, rfl⟩ := List.length_eq_two.mp both.2
      exact others rows inner facing columns rfl rfl
    rw [checkedProduct, if_pos (by simpa using this)]
    exact .plain

/-- `dot(a, b)`. -/
def checkedDot : CheckedRule := .binary fun _ x y => do
  let a ← Checked.plain (Infer.arrayDims x "dot argument")
  let b ← Checked.plain (Infer.arrayDims y "dot argument")
  let dims ← checkedProduct a b
  .plain (Infer.shape (.dims dims))

theorem shadows_dot : Shadows (.exactly 2) dot checkedDot :=
  .binary fun _ _ _ => .ask fun a => .ask fun b => (faultless_product a b).bind fun _ => .plain

/-- All checked shape rules. -/
def checkedRegistry : CheckedRegistry :=
  checkedCommon
    |>.insert .makeTuple (.free makeTuple)
    |>.insert .tail checkedTail
    |>.insert .tupleGetItem checkedTupleGetItem
    |>.insert .tupleSetItem checkedTupleSetItem
    |>.insert .listGetItem (.counted 2 listGetItem)
    |>.insertAll [.listSetItem, .arraySetItem] (.counted 3 elementSetItem)
    |>.insert .makeRecord (.free makeRecord)
    |>.insert .getAttribute (.counted 2 getAttribute)
    |>.insert .setAttribute (.counted 3 setAttribute)
    |>.insert .scalarToArray (.counted 1 scalarToArray)
    |>.insert .shape (.counted 1 shape)
    |>.insert .broadcastShape (.counted 2 broadcastShape)
    |>.insert .arrayMap checkedArrayMap
    |>.insert .listMap (.free listMap)
    |>.insert .arrayScan (.counted 4 arrayScan)
    |>.insert .arrayReduce checkedArrayReduce
    |>.insert .distribute checkedDistribute
    |>.insert .reshape (.counted 2 reshape)
    |>.insert .dot checkedDot

theorem covers_registry : checkedRegistry.Covers registry :=
  covers_common
    |>.insert _ .free
    |>.insert _ shadows_tail
    |>.insert _ shadows_tupleGetItem
    |>.insert _ shadows_tupleSetItem
    |>.insert _ (.counted (counts_binary _))
    |>.insertAll _ (.counted (counts_ternary _))
    |>.insert _ .free
    |>.insert _ (.counted (counts_binary _))
    |>.insert _ (.counted (counts_ternary _))
    |>.insert _ (.counted (counts_unary _))
    |>.insert _ (.counted (counts_unary _))
    |>.insert _ (.counted (counts_binary _))
    |>.insert _ shadows_arrayMap
    |>.insert _ .free
    |>.insert _ (.counted (counts_quaternary _))
    |>.insert _ shadows_arrayReduce
    |>.insert _ shadows_distribute
    |>.insert _ (.counted (counts_binary _))
    |>.insert _ shadows_dot

end ShapeRules

end ArrayInference
