import ArrayInference.Proofs.Infer.Stays
import ArrayInference.Rules.Shape
import ArrayInference.Rules.Type
import ArrayInference.Rules.Value

/-!
# The built-in rules ask about their arguments

Each rule is put together from questions about its arguments, and from calls that it passes them on
to. So no built-in rule asks about anything else.
-/

namespace ArrayInference

namespace Infer

variable {P : Ref → Prop} {x y : Ref} {xs : List Ref}

/-! ## Values -/

@[simp] theorem stays_known (c : Constant) : (known c).Stays P :=
  .done _

@[simp] theorem stays_unknown : unknown.Stays P :=
  .done _

@[simp] theorem stays_folded (c : Option Constant) : (folded c).Stays P := by
  cases c <;> simp [folded]

theorem stays_knownValues (own : ∀ x ∈ xs, P x.base) : (knownValues xs).Stays P := by
  induction xs with
  | nil => exact .done _
  | cons x xs ih =>
    rw [List.forall_mem_cons] at own
    refine (stays_valueOf own.1).seq fun v => ?_
    cases v with
    | anything => exact .done _
    | known c => exact (ih own.2).seq fun _ => .done _

theorem stays_fold₂ (own : P x.base) (own' : P y.base) {op : Constant → Constant → Infer Property}
    (h : ∀ a b, (op a b).Stays P) : (fold₂ x y op).Stays P := by
  refine (stays_knownValues (by simp [own, own'])).seq fun cs => ?_
  split
  · exact h _ _
  · exact stays_unknown

/-! ## Types -/

@[simp] theorem stays_type (t : Ty) : (type t).Stays P :=
  .done _

theorem stays_newType {make : Interning Ty} (steady : make.Steady) : (newType make).Stays P :=
  (stays_intern steady).seq stays_type

theorem stays_typeArgument (what : String) (own : P x.base) : (typeArgument x what).Stays P := by
  refine (stays_constantOf what own).seq fun c => ?_
  cases c <;> simp

theorem stays_tupleElements (own : P x.base) : (tupleElements x).Stays P := by
  refine (stays_typeOf own).seq fun t => ?_
  cases t.elements? <;> simp

@[simp] theorem stays_expectFamily (t : Ty) (family : Family) (what : String) :
    (expectFamily t family what).Stays P := by
  rw [expectFamily]
  split <;> simp

theorem stays_sameNumber (own : P x.base) (own' : P y.base) : (sameNumber x y).Stays P := by
  refine (stays_typeOf own).seq fun a => (stays_typeOf own').seq fun b => ?_
  split <;> simp

theorem stays_expectFamilies (family : Family) (what : String) (own : ∀ x ∈ xs, P x.base) :
    (expectFamilies family what xs).Stays P := by
  induction xs with
  | nil => exact .done _
  | cons x xs ih =>
    rw [List.forall_mem_cons] at own
    exact (stays_typeOf own.1).seq fun _ => (stays_expectFamily _ _ _).seq fun _ => ih own.2

/-! ## Shapes -/

@[simp] theorem stays_shape (s : Shape) : (shape s).Stays P :=
  .done _

theorem stays_arrayDims (what : String) (own : P x.base) : (arrayDims x what).Stays P := by
  refine (stays_shapeOf own).seq fun s => ?_
  cases s <;> simp [shapeError]

theorem stays_arraysDims (what : String) (own : ∀ x ∈ xs, P x.base) :
    (arraysDims what xs).Stays P := by
  induction xs with
  | nil => exact .done _
  | cons x xs ih =>
    rw [List.forall_mem_cons] at own
    exact (stays_arrayDims what own.1).seq fun _ => (ih own.2).seq fun _ => .done _

theorem stays_targetDims (own : P x.base) : (targetDims x).Stays P := by
  refine (stays_valueOf own).seq fun v => ?_
  cases v with
  | known c => exact stays_ofExcept _
  | anything =>
    refine (stays_typeOf own).seq fun t => ?_
    cases t.elements? <;> simp

theorem stays_tupleShapes (own : P x.base) : (tupleShapes x).Stays P := by
  refine (stays_shapeOf own).seq fun s => ?_
  cases s <;> simp

end Infer

namespace Rule

open Infer

theorem stays_foldUnary (op : Constant → Option Constant) : (foldUnary op).Stays := by
  refine stays_unary fun _ own => (stays_valueOf own).seq fun v => ?_
  cases v <;> simp

theorem stays_foldBinary (op : Constant → Constant → Option Constant) : (foldBinary op).Stays :=
  stays_binary fun _ own own' => stays_fold₂ own own' fun _ _ => stays_folded _

end Rule

namespace ValueRules

open Rule Infer

theorem stays_typeOf : typeOf.Stays :=
  stays_unary fun _ own => (Infer.stays_typeOf own).seq fun _ => stays_known _

theorem stays_hasType : hasType.Stays := by
  refine stays_binary fun _ own own' => (stays_valueOf own').seq fun v => ?_
  split
  · exact (Infer.stays_typeOf own).seq fun _ => stays_known _
  · exact stays_unknown

theorem stays_makeTuple : makeTuple.Stays := by
  refine fun P _ args own => (stays_knownValues own).seq fun cs => ?_
  cases cs <;> simp

theorem stays_tail : tail.Stays := by
  refine stays_unary fun _ own => (stays_valueOf own).seq fun v => ?_
  split <;> simp

theorem stays_tupleGetItem : tupleGetItem.Stays := by
  refine stays_binary fun track own own' => (stays_constantOf _ own').seq fun index => ?_
  refine (stays_valueOf own).seq fun v => ?_
  split
  · exact (stays_ofExcept _).seq fun item => stays_constant item track
  · exact stays_unknown

theorem stays_listGetItem : listGetItem.Stays := by
  refine stays_binary fun track own own' => stays_fold₂ own own' fun items index => ?_
  cases hitem : items.item? index <;> simp

theorem stays_tupleLen : tupleLen.Stays := by
  refine stays_unary fun _ own => (Infer.stays_typeOf own).seq fun type => ?_
  cases type.elements? <;> simp

theorem stays_listLen : listLen.Stays := by
  refine stays_unary fun _ own => (stays_valueOf own).seq fun v => ?_
  split <;> simp

theorem stays_arrayLen : arrayLen.Stays := by
  refine stays_unary fun _ own => (stays_shapeOf own).seq fun s => ?_
  split <;> simp

theorem stays_shape : shape.Stays :=
  stays_unary fun _ own => (stays_shapeOf own).seq fun _ => stays_folded _

theorem stays_broadcastShape : broadcastShape.Stays := by
  refine stays_binary fun _ own own' => stays_fold₂ own own' fun a b => ?_
  refine (stays_ofExcept _).seq fun ds => (stays_ofExcept _).seq fun es => ?_
  cases broadcastDims ds es <;> simp

theorem stays_getAttribute : getAttribute.Stays := by
  refine stays_binary fun track own own' => (stays_recordAttribute own own').seq fun found => ?_
  cases found with
  | none => exact stays_access .named track own own'
  | some found =>
    refine (stays_valueOf own).seq fun v => ?_
    cases v with
    | anything => exact stays_unknown
    | known c => exact stays_access .named track own own'

theorem stays_scalarCast : scalarCast.Stays := by
  refine stays_binary fun _ own own' => stays_fold₂ own own' fun value target => ?_
  cases target <;> simp

theorem stays_registry : registry.Stays :=
  Registry.stays_common
    |>.insert _ _ (stays_foldBinary _)
    |>.insert _ _ (stays_foldBinary _)
    |>.insert _ _ (stays_foldBinary _)
    |>.insert _ _ (stays_foldBinary _)
    |>.insert _ _ (stays_foldBinary _)
    |>.insert _ _ (stays_foldBinary _)
    |>.insert _ _ (stays_foldUnary _)
    |>.insert _ _ (stays_foldUnary _)
    |>.insert _ _ (stays_foldUnary _)
    |>.insert _ _ (stays_foldUnary _)
    |>.insert _ _ (stays_foldUnary _)
    |>.insert _ _ (stays_foldUnary _)
    |>.insert _ _ (stays_foldUnary _)
    |>.insert _ _ (stays_foldBinary _)
    |>.insert _ _ (stays_foldBinary _)
    |>.insert _ _ (stays_foldBinary _)
    |>.insert _ _ (stays_foldBinary _)
    |>.insert _ _ (stays_foldBinary _)
    |>.insert _ _ (stays_foldBinary _)
    |>.insert _ _ (stays_foldUnary _)
    |>.insert _ _ (stays_foldBinary _)
    |>.insert _ _ (stays_foldBinary _)
    |>.insert _ _ stays_typeOf
    |>.insert _ _ stays_hasType
    |>.insert _ _ stays_makeTuple
    |>.insert _ _ stays_tail
    |>.insert _ _ stays_tupleGetItem
    |>.insert _ _ stays_listGetItem
    |>.insert _ _ stays_tupleLen
    |>.insert _ _ stays_listLen
    |>.insert _ _ stays_arrayLen
    |>.insert _ _ stays_shape
    |>.insert _ _ stays_broadcastShape
    |>.insert _ _ stays_getAttribute
    |>.insert _ _ stays_scalarCast

end ValueRules

namespace TypeRules

open Rule Infer

variable {P : Ref → Prop} {x : Ref} {xs : List Ref}

theorem stays_expectBools (own : ∀ x ∈ xs, P x.base) : (expectBools xs).Stays P := by
  induction xs with
  | nil => exact .done _
  | cons x xs ih =>
    rw [List.forall_mem_cons] at own
    refine (Infer.stays_typeOf own.1).seq fun t => ?_
    split
    · exact ih own.2
    · exact .fail _

theorem stays_arithmetic : arithmetic.Stays :=
  stays_binary fun _ own own' => (stays_sameNumber own own').seq stays_type

theorem stays_unaryArithmetic : unaryArithmetic.Stays := by
  refine stays_unary fun _ own => (Infer.stays_typeOf own).seq fun t => ?_
  split <;> simp

theorem stays_comparison : comparison.Stays :=
  stays_binary fun _ own own' => (stays_sameNumber own own').seq fun _ => stays_newType (Interning.steady_generic _)

theorem stays_logical : logical.Stays :=
  fun _ _ _ own => (stays_expectBools own).seq fun _ => stays_newType (Interning.steady_generic _)

theorem stays_typeOf : typeOf.Stays :=
  fun _ _ _ _ => stays_newType (Interning.steady_generic _)

theorem stays_hasType : hasType.Stays :=
  fun _ _ _ _ => stays_newType (Interning.steady_generic _)

theorem stays_makeTuple : makeTuple.Stays :=
  fun _ _ _ own => (stays_mapM fun x hx => Infer.stays_typeOf (own x hx)).seq fun _ =>
    stays_newType (Interning.steady_tuple _)

theorem stays_tail : tail.Stays := by
  refine stays_unary fun _ own => (stays_tupleElements own).seq fun es => ?_
  cases es <;> simp [stays_newType (Interning.steady_tuple _)]

theorem stays_tupleGetItem : tupleGetItem.Stays :=
  stays_binary fun _ own own' => (stays_constantOf _ own').seq fun _ =>
    (stays_tupleElements own).seq fun _ => (stays_ofExcept _).seq stays_type

theorem stays_tupleSetItem : tupleSetItem.Stays :=
  stays_ternary fun _ own own' own'' => (stays_constantOf _ own').seq fun _ =>
    (stays_tupleElements own).seq fun _ => (stays_ofExcept _).seq fun _ =>
      (Infer.stays_typeOf own'').seq fun _ => stays_newType (Interning.steady_tuple _)

theorem stays_elementGetItem : elementGetItem.Stays := by
  refine stays_variadic _ fun _ own _ => (Infer.stays_typeOf own).seq fun t => ?_
  cases t.element? <;> simp

theorem stays_elementSetItem : elementSetItem.Stays := by
  refine stays_ternary fun _ own _ own'' => (Infer.stays_typeOf own).seq fun t => ?_
  refine (Infer.stays_typeOf own'').seq fun new => ?_
  cases t.element? with
  | none => exact .fail _
  | some e => dsimp only; split <;> simp

theorem stays_length : length.Stays := by
  refine stays_unary fun _ own => (Infer.stays_typeOf own).seq fun t => ?_
  split <;> simp [stays_newType (Interning.steady_intern _)]

theorem stays_getAttribute : getAttribute.Stays := by
  refine stays_binary fun track own own' => (stays_recordAttribute own own').seq fun found => ?_
  cases found with
  | none => exact stays_access .named track own own'
  | some found =>
    refine (Infer.stays_typeOf own).seq fun record => ?_
    split <;> simp

theorem stays_setAttribute : setAttribute.Stays := by
  refine stays_ternary fun _ own own' own'' => (Infer.stays_typeOf own).seq fun record => ?_
  refine (stays_constantOf _ own').seq fun key => ?_
  cases attributeOf? record key with
  | none => exact .fail _
  | some declared =>
    refine (Infer.stays_typeOf own'').seq fun actual => ?_
    split <;> simp

theorem stays_checkAttributes (tag : ClassTag) (attributes : List (String × Ty))
    (own : ∀ x ∈ xs, P x.base) : (checkAttributes tag attributes xs).Stays P := by
  induction attributes generalizing xs with
  | nil => exact .done _
  | cons first attributes ih =>
    cases xs with
    | nil => exact .done _
    | cons x xs =>
      rw [List.forall_mem_cons] at own
      refine (Infer.stays_typeOf own.1).seq fun actual => ?_
      split
      · exact ih own.2
      · exact .fail _

theorem stays_makeRecord : makeRecord.Stays := by
  refine stays_variadic _ fun _ own owns => (stays_typeArgument _ own).seq fun record => ?_
  cases record.class? with
  | none => exact .fail _
  | some c =>
    dsimp only
    split
    · exact .fail _
    · exact (stays_checkAttributes _ _ owns).seq fun _ => stays_type _

theorem stays_scalarToArray : scalarToArray.Stays :=
  stays_unary fun _ own => (Infer.stays_typeOf own).seq fun _ => stays_newType (Interning.steady_array _)

theorem steady_extents (rank : Nat) : (extents rank).Steady :=
  (Interning.steady_intern _).bind fun _ => Interning.steady_intern _

theorem stays_broadcastShape : broadcastShape.Stays :=
  stays_binary fun _ own own' => (stays_tupleElements own).seq fun _ =>
    (stays_tupleElements own').seq fun _ => stays_newType (steady_extents _)

theorem stays_shape : shape.Stays := by
  refine stays_unary fun _ own => (Infer.stays_typeOf own).seq fun t => ?_
  refine (stays_expectFamily t _ _).seq fun _ => (stays_shapeOf own).seq fun s => ?_
  cases s.rank? <;> simp [stays_newType (steady_extents _)]

theorem stays_mappedElement (track : Track) (own : P x.base) (owns : ∀ y ∈ xs, P y.base) :
    (mappedElement track x xs).Stays P :=
  (stays_inferrerOf track own).seq fun _ =>
    (stays_callInferrer _ (own_elements owns)).seq fun _ => stays_ofExcept _

theorem stays_arrayMap : arrayMap.Stays :=
  stays_variadic _ fun track own owns => (stays_expectFamilies _ _ owns).seq fun _ =>
    (stays_mappedElement track own owns).seq fun _ => stays_newType (Interning.steady_array _)

theorem stays_listMap : listMap.Stays :=
  stays_variadic _ fun track own owns => (stays_expectFamilies _ _ owns).seq fun _ =>
    (stays_mappedElement track own owns).seq fun _ => stays_newType (Interning.steady_list _)

theorem stays_keepArray (what : String) (own : P x.base) : (keepArray what x).Stays P :=
  (Infer.stays_typeOf own).seq fun _ => (stays_expectFamily _ _ _).seq fun _ => stays_type _

theorem stays_arrayScan : arrayScan.Stays :=
  stays_quaternary fun _ _ _ own _ => stays_keepArray _ own

theorem stays_arrayReduce : arrayReduce.Stays :=
  stays_ternary fun _ _ own _ => stays_keepArray _ own

theorem stays_distribute : distribute.Stays := by
  refine stays_binary fun _ own _ => (Infer.stays_typeOf own).seq fun t => ?_
  split <;> simp [stays_newType (Interning.steady_array _)]

theorem stays_reshape : reshape.Stays :=
  stays_binary fun _ own _ => stays_keepArray _ own

theorem stays_dot : dot.Stays := by
  refine stays_binary fun _ own own' => (Infer.stays_typeOf own).seq fun a => ?_
  refine (Infer.stays_typeOf own').seq fun b => (stays_expectFamily a _ _).seq fun _ => ?_
  split <;> simp

theorem stays_scalarCast : scalarCast.Stays := by
  refine stays_binary fun _ own own' => (Infer.stays_typeOf own).seq fun t => ?_
  split
  · exact .fail _
  · refine (stays_typeArgument _ own').seq fun result => ?_
    split <;> simp

theorem stays_registry : registry.Stays :=
  Registry.stays_common
    |>.insertAll _ _ (fun _ _ => stays_arithmetic)
    |>.insertAll _ _ (fun _ _ => stays_unaryArithmetic)
    |>.insertAll _ _ (fun _ _ => stays_comparison)
    |>.insert _ _ stays_logical
    |>.insertAll _ _ (fun _ _ => stays_logical)
    |>.insert _ _ stays_typeOf
    |>.insert _ _ stays_hasType
    |>.insert _ _ stays_makeTuple
    |>.insert _ _ stays_tail
    |>.insert _ _ stays_tupleGetItem
    |>.insert _ _ stays_elementGetItem
    |>.insert _ _ stays_elementGetItem
    |>.insert _ _ stays_tupleSetItem
    |>.insertAll _ _ (fun _ _ => stays_elementSetItem)
    |>.insertAll _ _ (fun _ _ => stays_length)
    |>.insert _ _ stays_getAttribute
    |>.insert _ _ stays_setAttribute
    |>.insert _ _ stays_makeRecord
    |>.insert _ _ stays_scalarToArray
    |>.insert _ _ stays_broadcastShape
    |>.insert _ _ stays_shape
    |>.insert _ _ stays_arrayMap
    |>.insert _ _ stays_listMap
    |>.insert _ _ stays_arrayScan
    |>.insert _ _ stays_arrayReduce
    |>.insert _ _ stays_distribute
    |>.insert _ _ stays_reshape
    |>.insert _ _ stays_dot
    |>.insert _ _ stays_scalarCast

end TypeRules

namespace ShapeRules

open Rule Infer

variable {P : Ref → Prop} {x : Ref} {xs : List Ref}

theorem stays_makeTuple : makeTuple.Stays :=
  fun _ _ _ own => (stays_mapM fun x hx => stays_shapeOf (own x hx)).seq fun _ =>
    Infer.stays_shape _

theorem stays_tail : tail.Stays := by
  refine stays_unary fun _ own => (stays_tupleShapes own).seq fun items => ?_
  cases items <;> simp

theorem stays_tupleGetItem : tupleGetItem.Stays :=
  stays_binary fun _ own own' => (stays_constantOf _ own').seq fun _ =>
    (stays_tupleShapes own).seq fun _ => (stays_ofExcept _).seq Infer.stays_shape

theorem stays_tupleSetItem : tupleSetItem.Stays :=
  stays_ternary fun _ own own' own'' => (stays_constantOf _ own').seq fun _ =>
    (stays_tupleShapes own).seq fun _ => (stays_ofExcept _).seq fun _ =>
      (stays_shapeOf own'').seq fun _ => Infer.stays_shape _

theorem stays_listGetItem : listGetItem.Stays :=
  stays_binary fun _ own _ => (stays_shapeOf own).seq fun _ =>
    (stays_ofExcept _).seq Infer.stays_shape

theorem stays_elementSetItem : elementSetItem.Stays :=
  stays_ternary fun _ own _ _ => (stays_shapeOf own).seq Infer.stays_shape

theorem stays_attributeShapes (attributes : List (String × Ty)) (own : ∀ x ∈ xs, P x.base) :
    (attributeShapes attributes xs).Stays P := by
  induction attributes generalizing xs with
  | nil => exact .done _
  | cons first attributes ih =>
    cases xs with
    | nil => exact .done _
    | cons x xs =>
      rw [List.forall_mem_cons] at own
      exact (stays_shapeOf own.1).seq fun _ => (ih own.2).seq fun _ => .done _

theorem stays_makeRecord : makeRecord.Stays := by
  refine stays_variadic _ fun _ own owns => (stays_constantOf _ own).seq fun key => ?_
  cases recordClass? key with
  | none => exact .fail _
  | some c =>
    dsimp only
    split
    · exact .fail _
    · exact (stays_attributeShapes _ owns).seq fun _ => Infer.stays_shape _

theorem stays_getAttribute : getAttribute.Stays := by
  refine stays_binary fun track own own' => (stays_recordAttribute own own').seq fun found => ?_
  cases found with
  | none => exact stays_access .named track own own'
  | some found =>
    refine (stays_shapeOf own).seq fun s => ?_
    split <;> simp

theorem stays_setAttribute : setAttribute.Stays := by
  refine stays_ternary fun _ own own' own'' => (stays_constantOf _ own').seq fun key => ?_
  cases key.str? with
  | none => exact .fail _
  | some name =>
    refine (stays_shapeOf own).seq fun s => ?_
    cases s with
    | record attributes =>
      dsimp only
      split
      · exact (stays_shapeOf own'').seq fun _ => Infer.stays_shape _
      · exact .fail _
    | _ => exact .fail _

theorem stays_scalarToArray : scalarToArray.Stays :=
  stays_unary fun _ _ => Infer.stays_shape _

theorem stays_shape : shape.Stays :=
  stays_unary fun _ own => (stays_arrayDims _ own).seq fun _ => Infer.stays_shape _

theorem stays_extentsCount (own : P x.base) : (extentsCount x).Stays P := by
  refine (Infer.stays_typeOf own).seq fun t => ?_
  cases t.elements? <;> simp

theorem stays_broadcastShape : broadcastShape.Stays :=
  stays_binary fun _ own own' => (stays_extentsCount own).seq fun _ =>
    (stays_extentsCount own').seq fun _ => Infer.stays_shape _

theorem stays_arrayMap : arrayMap.Stays :=
  stays_variadic _ fun _ _ owns => (stays_arraysDims _ owns).seq fun _ =>
    (stays_ofExcept _).seq fun _ => Infer.stays_shape _

theorem stays_listMap : listMap.Stays :=
  stays_variadic _ fun track own owns => (stays_inferrerOf track own).seq fun _ =>
    (stays_callInferrer _ (own_elements owns)).seq fun _ => (stays_ofExcept _).seq fun _ =>
      Infer.stays_shape _

theorem stays_arrayScan : arrayScan.Stays :=
  stays_quaternary fun _ _ _ own _ => (stays_shapeOf own).seq Infer.stays_shape

theorem stays_arrayReduce : arrayReduce.Stays := by
  refine stays_ternary fun _ _ own own' => (stays_valueOf own').seq fun v => ?_
  cases v with
  | anything => exact .fail _
  | known c =>
    exact (stays_ofExcept _).seq fun _ => (stays_arrayDims _ own).seq fun _ =>
      (stays_ofExcept _).seq fun _ => Infer.stays_shape _

theorem stays_distribute : distribute.Stays := by
  refine stays_binary fun _ own own' => (stays_targetDims own').seq fun target => ?_
  refine (Infer.stays_typeOf own).seq fun t => ?_
  split
  · exact (stays_arrayDims _ own).seq fun _ => (stays_ofExcept _).seq fun _ => Infer.stays_shape _
  · exact Infer.stays_shape _

theorem stays_reshape : reshape.Stays := by
  refine stays_binary fun _ own own' => (stays_targetDims own').seq fun target => ?_
  refine (stays_shapeOf own).seq fun source => ?_
  split
  · split <;> simp [shapeError]
  · exact (stays_describe _).seq fun _ => (stays_note _ _).seq fun _ => Infer.stays_shape _

theorem stays_dot : dot.Stays :=
  stays_binary fun _ own own' => (stays_arrayDims _ own).seq fun _ =>
    (stays_arrayDims _ own').seq fun _ => (stays_ofExcept _).seq fun _ => Infer.stays_shape _

theorem stays_registry : registry.Stays :=
  Registry.stays_common
    |>.insert _ _ stays_makeTuple
    |>.insert _ _ stays_tail
    |>.insert _ _ stays_tupleGetItem
    |>.insert _ _ stays_tupleSetItem
    |>.insert _ _ stays_listGetItem
    |>.insertAll _ _ (fun _ _ => stays_elementSetItem)
    |>.insert _ _ stays_makeRecord
    |>.insert _ _ stays_getAttribute
    |>.insert _ _ stays_setAttribute
    |>.insert _ _ stays_scalarToArray
    |>.insert _ _ stays_shape
    |>.insert _ _ stays_broadcastShape
    |>.insert _ _ stays_arrayMap
    |>.insert _ _ stays_listMap
    |>.insert _ _ stays_arrayScan
    |>.insert _ _ stays_arrayReduce
    |>.insert _ _ stays_distribute
    |>.insert _ _ stays_reshape
    |>.insert _ _ stays_dot

end ShapeRules

theorem Registries.stays_builtin (track : Track) : (Registries.builtin.get track).Stays := by
  cases track with
  | value => exact ValueRules.stays_registry
  | type => exact TypeRules.stays_registry
  | shape => exact ShapeRules.stays_registry

end ArrayInference
