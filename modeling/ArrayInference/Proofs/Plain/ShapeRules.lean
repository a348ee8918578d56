import ArrayInference.Proofs.Plain.TypeRules
import ArrayInference.Rules.Shape

/-!
# The shape rules are fair

A shape rule reads shapes, types and known values, and none of them shows the number of an inferrer.
-/

namespace ArrayInference

section

variable {w : World} {x x₀ : Ref}

theorem similar_shape (s : Shape) : Similar SameProperty w (Infer.shape s) (Infer.shape s) :=
  .done (.shape s)

theorem similar_arrayDims (h : SameRef w x x₀) (what : String) :
    Similar Equal w (Infer.arrayDims x what) (Infer.arrayDims x₀ what) := by
  refine (similar_shapeOf h).seqEqual fun _ s => ?_
  cases s with
  | dims ds => exact .done rfl
  | _ => exact .fail _

theorem similar_arraysDims (what : String) {xs xs₀ : List Ref}
    (h : List.Forall₂ (SameRef w) xs xs₀) :
    Similar Equal w (Infer.arraysDims what xs) (Infer.arraysDims what xs₀) := by
  induction xs generalizing w xs₀ with
  | nil =>
    cases h
    exact .done rfl
  | cons x xs ih =>
    cases h with
    | cons hx rest =>
      refine (similar_arrayDims hx what).seqEqual fun le _ => ?_
      exact (ih (sameRefs_mono rest le)).seqEqual fun _ _ => .done rfl

theorem similar_targetDims (h : SameRef w x x₀) :
    Similar Equal w (Infer.targetDims x) (Infer.targetDims x₀) := by
  refine (similar_valueOf h).seqValue (fun le => ?_) fun _ c _ => similar_ofExcept _
  refine (similar_typeOf (h.mono le)).seqEqual fun _ t => ?_
  cases t.elements? with
  | some es => exact .done rfl
  | none => exact .fail _

theorem similar_tupleShapes (h : SameRef w x x₀) :
    Similar Equal w (Infer.tupleShapes x) (Infer.tupleShapes x₀) := by
  refine (similar_shapeOf h).seqEqual fun _ s => ?_
  cases s with
  | tuple items => exact .done rfl
  | _ => exact .fail _

end

namespace ShapeRules

open Rule

variable {w : World}

theorem fair_makeTuple : makeTuple.Fair :=
  fun _ _ _ _ same => (similar_mapM_equal similar_shapeOf same).seqEqual fun _ _ => similar_shape _

theorem fair_tail : tail.Fair := by
  refine fair_unary fun _ _ _ hx => (similar_tupleShapes hx).seqEqual fun _ items => ?_
  cases items with
  | nil => exact .fail _
  | cons first rest => exact similar_shape _

theorem fair_tupleGetItem : tupleGetItem.Fair :=
  fair_binary fun _ _ _ _ _ hx hy => (similar_constantOf hy _).seqConstant fun le _ _ =>
    (similar_tupleShapes (hx.mono le)).seqEqual fun _ _ =>
      (similar_ofExcept _).seqEqual fun _ s => similar_shape s

theorem fair_tupleSetItem : tupleSetItem.Fair := by
  refine fair_ternary fun _ _ _ _ _ _ _ hx hy hz => ?_
  refine (similar_constantOf hy _).seqConstant fun le _ _ => ?_
  refine (similar_tupleShapes (hx.mono le)).seqEqual fun le' items => ?_
  refine (similar_ofExcept _).seqEqual fun le'' n => ?_
  exact (similar_shapeOf (hz.mono ((le.trans le').trans le''))).seqEqual fun _ _ => similar_shape _

theorem fair_listGetItem : listGetItem.Fair :=
  fair_binary fun _ _ _ _ _ hx _ => (similar_shapeOf hx).seqEqual fun _ _ =>
    (similar_ofExcept _).seqEqual fun _ s => similar_shape s

theorem fair_elementSetItem : elementSetItem.Fair :=
  fair_ternary fun _ _ _ _ _ _ _ hx _ _ => (similar_shapeOf hx).seqEqual fun _ s => similar_shape s

theorem similar_attributeShapes (attributes : List (String × Ty)) {xs xs₀ : List Ref}
    (h : List.Forall₂ (SameRef w) xs xs₀) :
    Similar Equal w (attributeShapes attributes xs) (attributeShapes attributes xs₀) := by
  induction xs generalizing w xs₀ attributes with
  | nil =>
    cases h
    cases attributes <;> exact .done rfl
  | cons x xs ih =>
    cases h with
    | cons hx rest =>
      cases attributes with
      | nil => exact .done rfl
      | cons first attributes =>
        refine (similar_shapeOf hx).seqEqual fun le _ => ?_
        exact (ih attributes (sameRefs_mono rest le)).seqEqual fun _ _ => .done rfl

theorem fair_makeRecord : makeRecord.Fair := by
  refine fair_variadic _ fun _ _ _ _ _ hx rest => ?_
  refine (similar_constantOf hx _).seqConstant fun le key _ => ?_
  cases recordClass? key with
  | none => exact .fail _
  | some c =>
    show Similar SameProperty _ (if _ then _ else _) (if _ then _ else _)
    rw [rest.length_eq]
    split
    · exact .fail _
    · exact (similar_attributeShapes c.attributes (sameRefs_mono rest le)).seqEqual
        fun _ _ => similar_shape _

theorem fair_getAttribute : getAttribute.Fair := by
  refine fair_binary fun track _ _ _ _ hx hy => ?_
  refine (similar_recordAttribute hx hy).seqEqual fun le found => ?_
  cases found with
  | none => exact similar_access .named track (hx.mono le) (hy.mono le)
  | some found =>
    refine (similar_shapeOf (hx.mono le)).seqEqual fun _ s => ?_
    cases s.attribute? found.1 with
    | some a => exact similar_shape a
    | none => exact .fail _

theorem fair_setAttribute : setAttribute.Fair := by
  refine fair_ternary fun _ _ _ _ _ _ _ hx hy hz => ?_
  refine (similar_constantOf hy _).seqConstant fun le key _ => ?_
  cases key.str? with
  | none => exact .fail _
  | some name =>
    refine (similar_shapeOf (hx.mono le)).seqEqual fun le' s => ?_
    cases s with
    | record attributes =>
      show Similar SameProperty _ (if _ then _ else _) (if _ then _ else _)
      split
      · exact (similar_shapeOf (hz.mono (le.trans le'))).seqEqual fun _ _ => similar_shape _
      · exact .fail _
    | _ => exact .fail _

theorem fair_scalarToArray : scalarToArray.Fair :=
  fair_unary fun _ _ _ _ => similar_shape _

theorem fair_shape : shape.Fair :=
  fair_unary fun _ _ _ hx => (similar_arrayDims hx _).seqEqual fun _ _ => similar_shape _

theorem similar_extentsCount {x x₀ : Ref} (h : SameRef w x x₀) :
    Similar Equal w (extentsCount x) (extentsCount x₀) := by
  refine (similar_typeOf h).seqEqual fun _ t => ?_
  cases t.elements? with
  | some es => exact .done rfl
  | none => exact .fail _

theorem fair_broadcastShape : broadcastShape.Fair :=
  fair_binary fun _ _ _ _ _ hx hy => (similar_extentsCount hx).seqEqual fun le _ =>
    (similar_extentsCount (hy.mono le)).seqEqual fun _ _ => similar_shape _

theorem fair_arrayMap : arrayMap.Fair :=
  fair_variadic _ fun _ _ _ _ _ _ rest => (similar_arraysDims _ rest).seqEqual fun _ _ =>
    (similar_ofExcept _).seqEqual fun _ _ => similar_shape _

theorem fair_listMap : listMap.Fair := by
  refine fair_variadic _ fun track _ _ _ _ hf rest => ?_
  refine (similar_inferrerOf hf track).seq fun le _ _ same => ?_
  refine (similar_callInferrer same (sameRefs_elements (sameRefs_mono rest le))).seq
    fun _ _ _ same => ?_
  rw [same.toShape_eq]
  exact (similar_ofExcept _).seqEqual fun _ _ => similar_shape _

theorem fair_arrayScan : arrayScan.Fair :=
  fair_quaternary fun _ _ _ _ _ _ _ _ _ _ _ ha _ => (similar_shapeOf ha).seqEqual fun _ s =>
    similar_shape s

theorem fair_arrayReduce : arrayReduce.Fair := by
  refine fair_ternary fun _ _ _ _ _ _ _ _ ha hs => ?_
  refine (similar_valueOf hs).seqValue (fun _ => .fail _) fun le c _ => ?_
  refine (similar_ofExcept _).seqEqual fun le' target => ?_
  refine (similar_arrayDims (ha.mono (le.trans le')) _).seqEqual fun _ source => ?_
  exact (similar_ofExcept _).seqEqual fun _ _ => similar_shape _

theorem fair_distribute : distribute.Fair := by
  refine fair_binary fun _ _ _ _ _ hx hs => (similar_targetDims hs).seqEqual fun le target => ?_
  refine (similar_typeOf (hx.mono le)).seqEqual fun le' t => ?_
  show Similar SameProperty _ (if _ then _ else _) (if _ then _ else _)
  split
  · refine (similar_arrayDims (hx.mono (le.trans le')) _).seqEqual fun _ source => ?_
    exact (similar_ofExcept _).seqEqual fun _ _ => similar_shape _
  · exact similar_shape _

theorem fair_reshape : reshape.Fair := by
  refine fair_binary fun _ _ _ _ _ ha hs => (similar_targetDims hs).seqEqual fun le target => ?_
  refine (similar_shapeOf (ha.mono le)).seqEqual fun le' source => ?_
  have note : Similar SameProperty _ (Infer.describe _ >>= fun description =>
      Infer.note .reshapeUnchecked (some description) >>= fun _ => Infer.shape (.dims target))
      (Infer.describe _ >>= fun description =>
        Infer.note .reshapeUnchecked (some description) >>= fun _ => Infer.shape (.dims target)) :=
    (similar_describe (ha.mono (le.trans le'))).seqEqual fun _ _ =>
      (similar_note _ _ _).seqEqual fun _ _ => similar_shape _
  cases source.elementCount? with
  | none => exact note
  | some m =>
    cases (Shape.dims target).elementCount? with
    | none => exact note
    | some n =>
      show Similar SameProperty _ (if _ then _ else _) (if _ then _ else _)
      split
      · exact similar_shape _
      · exact .fail _

theorem fair_dot : dot.Fair :=
  fair_binary fun _ _ _ _ _ hx hy => (similar_arrayDims hx _).seqEqual fun le _ =>
    (similar_arrayDims (hy.mono le) _).seqEqual fun _ _ =>
      (similar_ofExcept _).seqEqual fun _ _ => similar_shape _

theorem fair_registry : registry.Fair :=
  Registry.fair_common
    |>.insert _ _ fair_makeTuple
    |>.insert _ _ fair_tail
    |>.insert _ _ fair_tupleGetItem
    |>.insert _ _ fair_tupleSetItem
    |>.insert _ _ fair_listGetItem
    |>.insertAll _ _ fair_elementSetItem
    |>.insert _ _ fair_makeRecord
    |>.insert _ _ fair_getAttribute
    |>.insert _ _ fair_setAttribute
    |>.insert _ _ fair_scalarToArray
    |>.insert _ _ fair_shape
    |>.insert _ _ fair_broadcastShape
    |>.insert _ _ fair_arrayMap
    |>.insert _ _ fair_listMap
    |>.insert _ _ fair_arrayScan
    |>.insert _ _ fair_arrayReduce
    |>.insert _ _ fair_distribute
    |>.insert _ _ fair_reshape
    |>.insert _ _ fair_dot

end ShapeRules

end ArrayInference
