import ArrayInference.Proofs.Plain.Fair
import ArrayInference.Rules.Value

/-!
# The value rules are fair

A value rule folds constants. What it gives has no graph generator in it if its operands have none.
-/

namespace ArrayInference

section

variable {w : World} {x x₀ y y₀ : Ref}

theorem similar_known {c : Constant} (free : c.isMetaFree = true) :
    Similar SameProperty w (Infer.known c) (Infer.known c) :=
  .done (.known free)

theorem similar_unknown : Similar SameProperty w Infer.unknown Infer.unknown :=
  .done .anything

theorem similar_folded {c : Option Constant} (free : ∀ d, c = some d → d.isMetaFree = true) :
    Similar SameProperty w (Infer.folded c) (Infer.folded c) := by
  cases c with
  | none => exact similar_unknown
  | some d => exact similar_known (free d rfl)

theorem similar_knownValues {xs xs₀ : List Ref} (h : List.Forall₂ (SameRef w) xs xs₀) :
    Similar SameConstants w (Infer.knownValues xs) (Infer.knownValues xs₀) := by
  induction xs generalizing w xs₀ with
  | nil =>
    cases h
    exact .done ⟨rfl, fun cs hcs => by cases hcs; rfl⟩
  | cons x xs ih =>
    cases h with
    | cons hx rest =>
      refine (similar_valueOf hx).seqValue (fun _ => .done ⟨rfl, by simp⟩) fun le c free => ?_
      refine (ih (sameRefs_mono rest le)).seq fun _ cs cs₀ same => ?_
      rw [same.eq]
      refine .done ⟨rfl, fun ds hds => ?_⟩
      obtain ⟨es, hes, rfl⟩ := Option.map_eq_some_iff.mp hds
      rw [Constant.areMetaFree, free, same.free es hes]
      rfl

theorem similar_fold₂ (hx : SameRef w x x₀) (hy : SameRef w y y₀)
    {op : Constant → Constant → Infer Property}
    (h : ∀ {v : World} (a b : Constant), a.isMetaFree = true → b.isMetaFree = true →
      Similar SameProperty v (op a b) (op a b)) :
    Similar SameProperty w (Infer.fold₂ x y op) (Infer.fold₂ x₀ y₀ op) := by
  refine (similar_knownValues (.cons hx (.cons hy .nil))).seq fun _ cs cs₀ same => ?_
  rw [same.eq]
  have free := same.free
  match cs with
  | some [a, b] =>
    have free := Constant.areMetaFree_iff.mp (free _ rfl)
    exact h a b (free a (by simp)) (free b (by simp))
  | none | some [] | some [_] | some (_ :: _ :: _ :: _) => exact similar_unknown

end

namespace Rule

theorem fair_foldUnary {op : Constant → Option Constant} (folds : Constant.Folds op) :
    (foldUnary op).Fair :=
  fair_unary fun _ _ _ hx => (similar_valueOf hx).seqValue (fun _ => similar_unknown) fun _ c _ =>
    similar_folded (folds c)

theorem fair_foldBinary {op : Constant → Constant → Option Constant} (folds : Constant.Folds₂ op) :
    (foldBinary op).Fair :=
  fair_binary fun _ _ _ _ _ hx hy => similar_fold₂ hx hy fun a b _ _ => similar_folded (folds a b)

end Rule

namespace ValueRules

open Rule

theorem fair_typeOf : typeOf.Fair :=
  fair_unary fun _ _ _ hx => (similar_typeOf hx).seqEqual fun _ _ => similar_known rfl

theorem fair_hasType : hasType.Fair := by
  refine fair_binary fun _ _ _ _ _ hx hy => ?_
  refine (similar_valueOf hy).seqValue (fun _ => similar_unknown) fun le c _ => ?_
  cases c with
  | type expected => exact (similar_typeOf (hx.mono le)).seqEqual fun _ _ => similar_known rfl
  | _ => exact similar_unknown

theorem fair_makeTuple : makeTuple.Fair := by
  refine fun _ _ _ _ same => (similar_knownValues same).seq fun _ cs cs₀ same => ?_
  rw [same.eq]
  have free := same.free
  cases cs with
  | none => exact similar_unknown
  | some values => exact similar_known (free values rfl)

theorem fair_tail : tail.Fair := by
  refine fair_unary fun _ _ _ hx => ?_
  refine (similar_valueOf hx).seqValue (fun _ => similar_unknown) fun _ c free => ?_
  cases c with
  | tuple items =>
    cases items with
    | nil => exact .fail _
    | cons first rest =>
      rw [Constant.isMetaFree, Constant.areMetaFree, Bool.and_eq_true] at free
      exact similar_known free.2
  | _ => exact similar_unknown

theorem metaFree_tupleItem {index c : Constant} {items : List Constant}
    (free : Constant.areMetaFree items = true) (found : tupleItem index items = .ok c) :
    c.isMetaFree = true := by
  rw [tupleItem.eq_def] at found
  split at found
  · split at found
    · rename_i item hitem
      obtain ⟨n, -, hn⟩ := Option.bind_eq_some_iff.mp hitem
      cases found
      exact Constant.metaFree_of_getElem? free hn
    · cases found
  · cases found

theorem fair_tupleGetItem : tupleGetItem.Fair := by
  refine fair_binary fun track _ _ _ _ hx hy => ?_
  refine (similar_constantOf hy _).seqConstant fun le index _ => ?_
  refine (similar_valueOf (hx.mono le)).seqValue (fun _ => similar_unknown) fun _ c free => ?_
  cases c with
  | tuple items =>
    show Similar SameProperty _ (Infer.ofExcept (tupleItem index items) >>= _)
      (Infer.ofExcept (tupleItem index items) >>= _)
    cases hitem : tupleItem index items with
    | error e => exact .fail e
    | ok item => exact similar_constant (metaFree_tupleItem free hitem) track
  | _ => exact similar_unknown

theorem fair_listGetItem : listGetItem.Fair := by
  refine fair_binary fun track _ _ _ _ hx hy => similar_fold₂ hx hy fun items index free _ => ?_
  cases hitem : items.item? index with
  | none => exact .fail _
  | some item => exact similar_constant (Constant.metaFree_item? free hitem) track

theorem fair_tupleLen : tupleLen.Fair := by
  refine fair_unary fun _ _ _ hx => (similar_typeOf hx).seqEqual fun _ t => ?_
  cases t.elements? with
  | some es => exact similar_known rfl
  | none => exact similar_unknown

theorem fair_listLen : listLen.Fair := by
  refine fair_unary fun _ _ _ hx => ?_
  refine (similar_valueOf hx).seqValue (fun _ => similar_unknown) fun _ c _ => ?_
  cases c with
  | list items => exact similar_known rfl
  | _ => exact similar_unknown

theorem fair_arrayLen : arrayLen.Fair := by
  refine fair_unary fun _ _ _ hx => (similar_shapeOf hx).seqEqual fun _ s => ?_
  match s.dims? with
  | some (.known n :: _) => exact similar_known rfl
  | some [] => exact .fail _
  | some (.anything :: _) | none => exact similar_unknown

theorem fair_shape : shape.Fair := by
  refine fair_unary fun _ _ _ hx => (similar_shapeOf hx).seqEqual fun _ s => ?_
  refine similar_folded fun c hc => ?_
  obtain ⟨ds, -, hds⟩ := Option.bind_eq_some_iff.mp hc
  exact Dim.metaFree_listToConstant? hds

theorem fair_broadcastShape : broadcastShape.Fair := by
  refine fair_binary fun _ _ _ _ _ hx hy => similar_fold₂ hx hy fun a b _ _ => ?_
  refine (similar_ofExcept _).seqEqual fun _ ds => ?_
  refine (similar_ofExcept _).seqEqual fun _ es => ?_
  cases broadcastDims ds es with
  | none => exact .fail _
  | some merged => exact similar_folded fun _ hc => Dim.metaFree_listToConstant? hc

theorem fair_getAttribute : getAttribute.Fair := by
  refine fair_binary fun track _ _ _ _ hx hy => ?_
  refine (similar_recordAttribute hx hy).seqEqual fun le found => ?_
  have hx := hx.mono le
  have hy := hy.mono le
  cases found with
  | none => exact similar_access .named track hx hy
  | some found =>
    exact (similar_valueOf hx).seqValue (fun _ => similar_unknown) fun le _ _ =>
      similar_access .named track (hx.mono le) (hy.mono le)

theorem fair_scalarCast : scalarCast.Fair := by
  refine fair_binary fun _ _ _ _ _ hx hy => similar_fold₂ hx hy fun value target _ _ => ?_
  cases target with
  | type t => exact similar_folded (Constant.folds_cast t.family value)
  | _ => exact .fail _

theorem fair_registry : registry.Fair :=
  Registry.fair_common
    |>.insert _ _ (fair_foldBinary (Constant.folds_arithmetic _ _))
    |>.insert _ _ (fair_foldBinary (Constant.folds_arithmetic _ _))
    |>.insert _ _ (fair_foldBinary (Constant.folds_arithmetic _ _))
    |>.insert _ _ (fair_foldBinary (Constant.folds_arithmetic _ _))
    |>.insert _ _ (fair_foldBinary (Constant.folds_arithmetic _ _))
    |>.insert _ _ (fair_foldBinary (Constant.folds_arithmetic _ _))
    |>.insert _ _ (fair_foldUnary Constant.folds_plus)
    |>.insert _ _ (fair_foldUnary Constant.folds_minus)
    |>.insert _ _ (fair_foldUnary (Constant.folds_onFloat _))
    |>.insert _ _ (fair_foldUnary (Constant.folds_onFloat _))
    |>.insert _ _ (fair_foldUnary (Constant.folds_onFloat _))
    |>.insert _ _ (fair_foldUnary (Constant.folds_onFloat _))
    |>.insert _ _ (fair_foldUnary (Constant.folds_onFloat _))
    |>.insert _ _ (fair_foldBinary (Constant.folds_compareBy _))
    |>.insert _ _ (fair_foldBinary (Constant.folds_compareBy _))
    |>.insert _ _ (fair_foldBinary (Constant.folds_compareBy _))
    |>.insert _ _ (fair_foldBinary (Constant.folds_compareBy _))
    |>.insert _ _ (fair_foldBinary (Constant.folds_compareBy _))
    |>.insert _ _ (fair_foldBinary (Constant.folds_compareBy _))
    |>.insert _ _ (fair_foldUnary Constant.folds_not)
    |>.insert _ _ (fair_foldBinary (Constant.folds_logical _))
    |>.insert _ _ (fair_foldBinary (Constant.folds_logical _))
    |>.insert _ _ fair_typeOf
    |>.insert _ _ fair_hasType
    |>.insert _ _ fair_makeTuple
    |>.insert _ _ fair_tail
    |>.insert _ _ fair_tupleGetItem
    |>.insert _ _ fair_listGetItem
    |>.insert _ _ fair_tupleLen
    |>.insert _ _ fair_listLen
    |>.insert _ _ fair_arrayLen
    |>.insert _ _ fair_shape
    |>.insert _ _ fair_broadcastShape
    |>.insert _ _ fair_getAttribute
    |>.insert _ _ fair_scalarCast

end ValueRules

end ArrayInference
