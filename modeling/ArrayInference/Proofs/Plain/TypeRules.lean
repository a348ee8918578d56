import ArrayInference.Proofs.Infer.StaysRules
import ArrayInference.Proofs.Plain.Fair

/-!
# The type rules are fair

A type rule reads types and known values, and none of them shows the number of an inferrer.
-/

namespace ArrayInference

section

variable {w : World} {x x₀ y y₀ : Ref}

theorem similar_type (t : Ty) : Similar SameProperty w (Infer.type t) (Infer.type t) :=
  .done (.type t)

theorem similar_newType {make : Interning Ty} (steady : make.Steady) :
    Similar SameProperty w (Infer.newType make) (Infer.newType make) :=
  (similar_intern steady).seqEqual fun _ t => similar_type t

theorem similar_typeArgument (h : SameRef w x x₀) (what : String) :
    Similar Equal w (Infer.typeArgument x what) (Infer.typeArgument x₀ what) := by
  refine (similar_constantOf h what).seqConstant fun _ c _ => ?_
  cases c with
  | type t => exact .done rfl
  | _ => exact .fail _

theorem similar_tupleElements (h : SameRef w x x₀) :
    Similar Equal w (Infer.tupleElements x) (Infer.tupleElements x₀) := by
  refine (similar_typeOf h).seqEqual fun _ t => ?_
  cases t.elements? with
  | some es => exact .done rfl
  | none => exact .fail _

theorem similar_expectFamily (t : Ty) (family : Family) (what : String) :
    Similar Equal w (Infer.expectFamily t family what) (Infer.expectFamily t family what) := by
  rw [Infer.expectFamily]
  split
  · exact .done rfl
  · exact .fail _

theorem similar_sameNumber (hx : SameRef w x x₀) (hy : SameRef w y y₀) :
    Similar Equal w (Infer.sameNumber x y) (Infer.sameNumber x₀ y₀) := by
  refine (similar_typeOf hx).seqEqual fun le a => ?_
  refine (similar_typeOf (hy.mono le)).seqEqual fun _ b => ?_
  show Similar Equal _ (if _ then _ else _) (if _ then _ else _)
  split
  · exact .done rfl
  · exact .fail _

theorem similar_expectFamilies (family : Family) (what : String) {xs xs₀ : List Ref}
    (h : List.Forall₂ (SameRef w) xs xs₀) :
    Similar Equal w (Infer.expectFamilies family what xs) (Infer.expectFamilies family what xs₀) := by
  induction xs generalizing w xs₀ with
  | nil =>
    cases h
    exact .done rfl
  | cons x xs ih =>
    cases h with
    | cons hx rest =>
      refine (similar_typeOf hx).seqEqual fun le t => ?_
      refine (similar_expectFamily t family what).seqEqual fun le' _ => ?_
      exact ih (sameRefs_mono rest (le.trans le'))

/-- The elements of the same containers. -/
theorem sameRefs_elements {xs xs₀ : List Ref} (h : List.Forall₂ (SameRef w) xs xs₀) :
    List.Forall₂ (SameRef w) (xs.map .element) (xs₀.map .element) := by
  rw [List.forall₂_map_left_iff, List.forall₂_map_right_iff]
  exact h.imp fun _ _ hx => .element hx

end

namespace TypeRules

open Rule

variable {w : World}

theorem similar_expectBools {xs xs₀ : List Ref} (h : List.Forall₂ (SameRef w) xs xs₀) :
    Similar Equal w (expectBools xs) (expectBools xs₀) := by
  induction xs generalizing w xs₀ with
  | nil =>
    cases h
    exact .done rfl
  | cons x xs ih =>
    cases h with
    | cons hx rest =>
      refine (similar_typeOf hx).seqEqual fun le t => ?_
      show Similar Equal _ (if _ then _ else _) (if _ then _ else _)
      split
      · exact ih (sameRefs_mono rest le)
      · exact .fail _

theorem fair_arithmetic : arithmetic.Fair :=
  fair_binary fun _ _ _ _ _ hx hy => (similar_sameNumber hx hy).seqEqual fun _ t => similar_type t

theorem fair_unaryArithmetic : unaryArithmetic.Fair := by
  refine fair_unary fun _ _ _ hx => (similar_typeOf hx).seqEqual fun _ t => ?_
  show Similar SameProperty _ (if _ then _ else _) (if _ then _ else _)
  split
  · exact similar_type t
  · exact .fail _

theorem fair_comparison : comparison.Fair :=
  fair_binary fun _ _ _ _ _ hx hy => (similar_sameNumber hx hy).seqEqual fun _ _ =>
    similar_newType (Interning.steady_intern _)

theorem fair_logical : logical.Fair :=
  fun _ _ _ _ same => (similar_expectBools same).seqEqual fun _ _ =>
    similar_newType (Interning.steady_intern _)

theorem fair_typeOf : typeOf.Fair :=
  fun _ _ _ _ _ => similar_newType (Interning.steady_intern _)

theorem fair_hasType : hasType.Fair :=
  fun _ _ _ _ _ => similar_newType (Interning.steady_intern _)

theorem fair_makeTuple : makeTuple.Fair :=
  fun _ _ _ _ same => (similar_mapM_equal similar_typeOf same).seqEqual fun _ _ =>
    similar_newType (Interning.steady_intern _)

theorem fair_tail : tail.Fair := by
  refine fair_unary fun _ _ _ hx => (similar_tupleElements hx).seqEqual fun _ es => ?_
  cases es with
  | nil => exact .fail _
  | cons e rest => exact similar_newType (Interning.steady_intern _)

theorem fair_tupleGetItem : tupleGetItem.Fair := by
  refine fair_binary fun _ _ _ _ _ hx hy => (similar_constantOf hy _).seqConstant fun le _ _ => ?_
  refine (similar_tupleElements (hx.mono le)).seqEqual fun _ es => ?_
  exact (similar_ofExcept _).seqEqual fun _ t => similar_type t

theorem fair_tupleSetItem : tupleSetItem.Fair := by
  refine fair_ternary fun _ _ _ _ _ _ _ hx hy hz => ?_
  refine (similar_constantOf hy _).seqConstant fun le _ _ => ?_
  refine (similar_tupleElements (hx.mono le)).seqEqual fun le' es => ?_
  refine (similar_ofExcept _).seqEqual fun le'' n => ?_
  refine (similar_typeOf (hz.mono ((le.trans le').trans le''))).seqEqual fun _ _ => ?_
  exact similar_newType (Interning.steady_intern _)

theorem fair_elementGetItem : elementGetItem.Fair := by
  refine fair_variadic _ fun _ _ _ _ _ hx _ => (similar_typeOf hx).seqEqual fun _ t => ?_
  cases t.element? with
  | some e => exact similar_type e
  | none => exact .fail _

theorem fair_elementSetItem : elementSetItem.Fair := by
  refine fair_ternary fun _ _ _ _ _ _ _ hx _ hz => (similar_typeOf hx).seqEqual fun le t => ?_
  refine (similar_typeOf (hz.mono le)).seqEqual fun _ new => ?_
  cases t.element? with
  | none => exact .fail _
  | some e =>
    show Similar SameProperty _ (if _ then _ else _) (if _ then _ else _)
    split
    · exact similar_type t
    · exact .fail _

theorem fair_length : length.Fair := by
  refine fair_unary fun _ _ _ hx => (similar_typeOf hx).seqEqual fun _ t => ?_
  show Similar SameProperty _ (if _ then _ else _) (if _ then _ else _)
  split
  · exact similar_newType (Interning.steady_intern _)
  · exact .fail _

theorem fair_getAttribute : getAttribute.Fair := by
  refine fair_binary fun track _ _ _ _ hx hy => ?_
  refine (similar_recordAttribute hx hy).seqEqual fun le found => ?_
  cases found with
  | none => exact similar_access .named track (hx.mono le) (hy.mono le)
  | some found =>
    refine (similar_typeOf (hx.mono le)).seqEqual fun _ record => ?_
    cases record.class?.bind fun c => c.attribute? found.1 with
    | some t => exact similar_type t
    | none => exact .fail _

theorem fair_setAttribute : setAttribute.Fair := by
  refine fair_ternary fun _ _ _ _ _ _ _ hx hy hz => (similar_typeOf hx).seqEqual fun le t => ?_
  refine (similar_constantOf (hy.mono le) _).seqConstant fun le' key _ => ?_
  cases attributeOf? t key with
  | none => exact .fail _
  | some declared =>
    refine (similar_typeOf (hz.mono (le.trans le'))).seqEqual fun _ actual => ?_
    show Similar SameProperty _ (if _ then _ else _) (if _ then _ else _)
    split
    · exact similar_type t
    · exact .fail _

theorem similar_checkAttributes (tag : ClassTag) (attributes : List (String × Ty))
    {xs xs₀ : List Ref} (h : List.Forall₂ (SameRef w) xs xs₀) :
    Similar Equal w (checkAttributes tag attributes xs) (checkAttributes tag attributes xs₀) := by
  induction xs generalizing w xs₀ attributes with
  | nil =>
    cases h
    cases attributes <;> exact .done rfl
  | cons x xs ih =>
    cases h with
    | cons hx rest =>
      cases attributes with
      | nil => exact .done rfl
      | cons first attributes =>
        refine (similar_typeOf hx).seqEqual fun le actual => ?_
        show Similar Equal _ (if _ then _ else _) (if _ then _ else _)
        split
        · exact ih attributes (sameRefs_mono rest le)
        · exact .fail _

theorem fair_makeRecord : makeRecord.Fair := by
  refine fair_variadic _ fun _ _ _ _ _ hx rest => ?_
  refine (similar_typeArgument hx _).seqEqual fun le record => ?_
  cases record.class? with
  | none => exact .fail _
  | some c =>
    show Similar SameProperty _ (if _ then _ else _) (if _ then _ else _)
    rw [rest.length_eq]
    split
    · exact .fail _
    · exact (similar_checkAttributes c.tag c.attributes (sameRefs_mono rest le)).seqEqual
        fun _ _ => similar_type record

theorem fair_scalarToArray : scalarToArray.Fair :=
  fair_unary fun _ _ _ hx => (similar_typeOf hx).seqEqual fun _ _ =>
    similar_newType (Interning.steady_intern _)

theorem fair_broadcastShape : broadcastShape.Fair :=
  fair_binary fun _ _ _ _ _ hx hy => (similar_tupleElements hx).seqEqual fun le _ =>
    (similar_tupleElements (hy.mono le)).seqEqual fun _ _ => similar_newType (steady_extents _)

theorem fair_shape : shape.Fair := by
  refine fair_unary fun _ _ _ hx => (similar_typeOf hx).seqEqual fun le t => ?_
  refine (similar_expectFamily t .array _).seqEqual fun le' _ => ?_
  refine (similar_shapeOf (hx.mono (le.trans le'))).seqEqual fun _ s => ?_
  cases s.rank? with
  | some rank => exact similar_newType (steady_extents rank)
  | none => exact .fail _

theorem similar_mappedElement (track : Track) {f f₀ : Ref} (hf : SameRef w f f₀)
    {xs xs₀ : List Ref} (h : List.Forall₂ (SameRef w) xs xs₀) :
    Similar Equal w (mappedElement track f xs) (mappedElement track f₀ xs₀) := by
  refine (similar_inferrerOf hf track).seq fun le _ _ same => ?_
  refine (similar_callInferrer same (sameRefs_elements (sameRefs_mono h le))).seq
    fun _ _ _ same => ?_
  rw [same.toType_eq]
  exact similar_ofExcept _

theorem fair_arrayMap : arrayMap.Fair :=
  fair_variadic _ fun track _ _ _ _ hf rest =>
    (similar_expectFamilies .array _ rest).seqEqual fun le _ =>
      (similar_mappedElement track (hf.mono le) (sameRefs_mono rest le)).seqEqual fun _ _ =>
        similar_newType (Interning.steady_intern _)

theorem fair_listMap : listMap.Fair :=
  fair_variadic _ fun track _ _ _ _ hf rest =>
    (similar_expectFamilies .list _ rest).seqEqual fun le _ =>
      (similar_mappedElement track (hf.mono le) (sameRefs_mono rest le)).seqEqual fun _ _ =>
        similar_newType (Interning.steady_intern _)

theorem similar_keepArray (what : String) {x x₀ : Ref} (h : SameRef w x x₀) :
    Similar SameProperty w (keepArray what x) (keepArray what x₀) :=
  (similar_typeOf h).seqEqual fun _ t =>
    (similar_expectFamily t .array what).seqEqual fun _ _ => similar_type t

theorem fair_arrayScan : arrayScan.Fair :=
  fair_quaternary fun _ _ _ _ _ _ _ _ _ _ _ ha _ => similar_keepArray _ ha

theorem fair_arrayReduce : arrayReduce.Fair :=
  fair_ternary fun _ _ _ _ _ _ _ _ ha _ => similar_keepArray _ ha

theorem fair_distribute : distribute.Fair := by
  refine fair_binary fun _ _ _ _ _ hx _ => (similar_typeOf hx).seqEqual fun _ t => ?_
  show Similar SameProperty _ (if _ then _ else _) (if _ then _ else _)
  split
  · exact similar_type t
  · exact similar_newType (Interning.steady_intern _)

theorem fair_reshape : reshape.Fair :=
  fair_binary fun _ _ _ _ _ ha _ => similar_keepArray _ ha

theorem fair_dot : dot.Fair := by
  refine fair_binary fun _ _ _ _ _ hx hy => (similar_typeOf hx).seqEqual fun le a => ?_
  refine (similar_typeOf (hy.mono le)).seqEqual fun _ b => ?_
  refine (similar_expectFamily a .array _).seqEqual fun _ _ => ?_
  show Similar SameProperty _ (if _ then _ else _) (if _ then _ else _)
  split
  · exact similar_type a
  · exact .fail _

theorem fair_scalarCast : scalarCast.Fair := by
  refine fair_binary fun _ _ _ _ _ hx hy => (similar_typeOf hx).seqEqual fun le t => ?_
  show Similar SameProperty _ (if _ then _ else _) (if _ then _ else _)
  split
  · exact .fail _
  · refine (similar_typeArgument (hy.mono le) _).seqEqual fun _ result => ?_
    show Similar SameProperty _ (if _ then _ else _) (if _ then _ else _)
    split
    · exact similar_type result
    · exact .fail _

theorem fair_registry : registry.Fair :=
  Registry.fair_common
    |>.insertAll _ _ fair_arithmetic
    |>.insertAll _ _ fair_unaryArithmetic
    |>.insertAll _ _ fair_comparison
    |>.insert _ _ fair_logical
    |>.insertAll _ _ fair_logical
    |>.insert _ _ fair_typeOf
    |>.insert _ _ fair_hasType
    |>.insert _ _ fair_makeTuple
    |>.insert _ _ fair_tail
    |>.insert _ _ fair_tupleGetItem
    |>.insert _ _ fair_elementGetItem
    |>.insert _ _ fair_elementGetItem
    |>.insert _ _ fair_tupleSetItem
    |>.insertAll _ _ fair_elementSetItem
    |>.insertAll _ _ fair_length
    |>.insert _ _ fair_getAttribute
    |>.insert _ _ fair_setAttribute
    |>.insert _ _ fair_makeRecord
    |>.insert _ _ fair_scalarToArray
    |>.insert _ _ fair_broadcastShape
    |>.insert _ _ fair_shape
    |>.insert _ _ fair_arrayMap
    |>.insert _ _ fair_listMap
    |>.insert _ _ fair_arrayScan
    |>.insert _ _ fair_arrayReduce
    |>.insert _ _ fair_distribute
    |>.insert _ _ fair_reshape
    |>.insert _ _ fair_dot
    |>.insert _ _ fair_scalarCast

end TypeRules

end ArrayInference
