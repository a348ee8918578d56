import ArrayInference.Proofs.Infer.StaysRules
import ArrayInference.Proofs.Lockstep.Parallel

/-!
# Uniform rules

A rule is uniform if it does the same on references to the same things. Every built-in rule is: it
learns of its arguments by their properties, and what it gives mentions no graph that they do not
mention.
-/

namespace ArrayInference

/-- A rule that runs in parallel on references to the same things. -/
def Rule.Uniform (rule : Rule) : Prop :=
  ∀ (N : NodeRef → NodeRef → Prop) (V : GraphId → Prop) (track : Track) (args args' : List Ref),
    List.Forall₂ (Ref.Pairs N V) args args' →
      Infer.Parallel N V (Property.Within V) (rule track args) (rule track args')

namespace Rule

/-! ## Rules by their number of arguments -/

theorem uniform_unary {rule : Track → Ref → Infer Property}
    (h : ∀ {N V} (track : Track) {x x' : Ref}, x.Pairs N V x' →
      Infer.Parallel N V (Property.Within V) (rule track x) (rule track x')) :
    (unary rule).Uniform := by
  intro N V track args args' same
  rcases same with _ | ⟨hx, _ | ⟨hy, rest⟩⟩
  · exact .fail _
  · exact h track hx
  · simp only [unary, List.length_cons, rest.length_eq]
    exact .fail _

theorem uniform_binary {rule : Track → Ref → Ref → Infer Property}
    (h : ∀ {N V} (track : Track) {x x' y y' : Ref}, x.Pairs N V x' → y.Pairs N V y' →
      Infer.Parallel N V (Property.Within V) (rule track x y) (rule track x' y')) :
    (binary rule).Uniform := by
  intro N V track args args' same
  rcases same with _ | ⟨hx, _ | ⟨hy, _ | ⟨hz, rest⟩⟩⟩
  · exact .fail _
  · exact .fail _
  · exact h track hx hy
  · simp only [binary, List.length_cons, rest.length_eq]
    exact .fail _

theorem uniform_ternary {rule : Track → Ref → Ref → Ref → Infer Property}
    (h : ∀ {N V} (track : Track) {x x' y y' z z' : Ref}, x.Pairs N V x' → y.Pairs N V y' →
      z.Pairs N V z' → Infer.Parallel N V (Property.Within V) (rule track x y z)
        (rule track x' y' z')) : (ternary rule).Uniform := by
  intro N V track args args' same
  rcases same with _ | ⟨hx, _ | ⟨hy, _ | ⟨hz, _ | ⟨hu, rest⟩⟩⟩⟩
  · exact .fail _
  · exact .fail _
  · exact .fail _
  · exact h track hx hy hz
  · simp only [ternary, List.length_cons, rest.length_eq]
    exact .fail _

theorem uniform_quaternary {rule : Track → Ref → Ref → Ref → Ref → Infer Property}
    (h : ∀ {N V} (track : Track) {x x' y y' z z' u u' : Ref}, x.Pairs N V x' → y.Pairs N V y' →
      z.Pairs N V z' → u.Pairs N V u' → Infer.Parallel N V (Property.Within V) (rule track x y z u)
        (rule track x' y' z' u')) : (quaternary rule).Uniform := by
  intro N V track args args' same
  rcases same with _ | ⟨hx, _ | ⟨hy, _ | ⟨hz, _ | ⟨hu, _ | ⟨hv, rest⟩⟩⟩⟩⟩
  · exact .fail _
  · exact .fail _
  · exact .fail _
  · exact .fail _
  · exact h track hx hy hz hu
  · simp only [quaternary, List.length_cons, rest.length_eq]
    exact .fail _

theorem uniform_variadic (missing : String) {rule : Track → Ref → List Ref → Infer Property}
    (h : ∀ {N V} (track : Track) {x x' : Ref} {rest rest' : List Ref}, x.Pairs N V x' →
      List.Forall₂ (Ref.Pairs N V) rest rest' →
      Infer.Parallel N V (Property.Within V) (rule track x rest) (rule track x' rest')) :
    (variadic missing rule).Uniform := by
  intro N V track args args' same
  cases same with
  | nil => exact .fail _
  | cons hx rest => exact h track hx rest

/-! ## The rules of all tracks -/

theorem uniform_passThrough : passThrough.Uniform :=
  uniform_unary fun track _ _ hx => Infer.parallel_get hx track

theorem uniform_partially : partially.Uniform :=
  uniform_variadic _ fun track _ _ _ _ hf rest =>
    (Infer.parallel_inferrerOf hf track).seq fun f _ => Infer.parallel_bindArguments f rest

theorem uniform_ifElse : ifElse.Uniform :=
  uniform_ternary fun track _ _ _ _ _ _ hc hx hy => Infer.parallel_conditional .call track hc hx hy

theorem uniform_switch : switch.Uniform :=
  uniform_ternary fun track _ _ _ _ _ _ hc hx hy =>
    Infer.parallel_conditional .select track hc hx hy

theorem uniform_resolve : resolve.Uniform :=
  uniform_binary fun track _ _ _ _ hx hy => Infer.parallel_access .keyed track hx hy

end Rule

namespace Registry

/-- A registry of uniform rules. -/
abbrev Uniform (r : Registry) : Prop :=
  r.All fun _ rule => rule.Uniform

theorem uniform_common : Rule.common.Uniform :=
  all_empty
    |>.insert _ _ Rule.uniform_ifElse
    |>.insert _ _ Rule.uniform_switch
    |>.insert _ _ Rule.uniform_partially
    |>.insertAll _ _ (fun _ _ => Rule.uniform_passThrough)
    |>.insert _ _ Rule.uniform_resolve

end Registry

namespace Infer

variable {N : NodeRef → NodeRef → Prop} {V : GraphId → Prop} {x x' y y' : Ref} {xs xs' : List Ref}

/-! ## Values -/

theorem parallel_known {c : Constant} (own : c.Within V) :
    Parallel N V (Property.Within V) (known c) (known c) :=
  .done own

theorem parallel_unknown : Parallel N V (Property.Within V) unknown unknown :=
  .done (forall_mem_of_eq_nil rfl)

theorem parallel_folded {c : Option Constant} (own : ∀ d, c = some d → d.Within V) :
    Parallel N V (Property.Within V) (folded c) (folded c) := by
  cases c with
  | none => exact parallel_unknown
  | some d => exact parallel_known (own d rfl)

theorem parallel_knownValues (same : List.Forall₂ (Ref.Pairs N V) xs xs') :
    Parallel N V (fun cs => ∀ ds, cs = some ds → ∀ c ∈ ds, c.Within V) (knownValues xs)
      (knownValues xs') := by
  induction same with
  | nil =>
    refine .done fun ds hds => ?_
    cases hds
    simp
  | cons first _ ih =>
    refine (parallel_valueOf first).seq fun v own => ?_
    cases v with
    | anything => exact .done fun _ h => nomatch h
    | known c =>
      refine ih.seq fun cs owns => .done fun ds hds => ?_
      obtain ⟨es, hes, rfl⟩ := Option.map_eq_some_iff.mp hds
      exact List.forall_mem_cons.mpr ⟨own, owns es hes⟩

theorem parallel_fold₂ (same : x.Pairs N V x') (same' : y.Pairs N V y')
    {op : Constant → Constant → Infer Property}
    (h : ∀ a b : Constant, a.Within V → b.Within V →
      Parallel N V (Property.Within V) (op a b) (op a b)) :
    Parallel N V (Property.Within V) (fold₂ x y op) (fold₂ x' y' op) := by
  refine (parallel_knownValues (.cons same (.cons same' .nil))).seq fun cs own => ?_
  match cs with
  | some [a, b] =>
    have own := own _ rfl
    exact h a b (own a (by simp)) (own b (by simp))
  | none | some [] | some [_] | some (_ :: _ :: _ :: _) => exact parallel_unknown

/-! ## Types -/

theorem parallel_type {t : Ty} (own : t.Within V) :
    Parallel N V (Property.Within V) (type t) (type t) :=
  .done own

theorem parallel_newType {make : Interning Ty} (own : ∀ cache, (make.run cache).1.Within V) :
    Parallel N V (Property.Within V) (newType make) (newType make) :=
  (parallel_intern own).seq fun _ => parallel_type

theorem parallel_typeArgument (what : String) (same : x.Pairs N V x') :
    Parallel N V (Ty.Within V) (typeArgument x what) (typeArgument x' what) := by
  refine (parallel_constantOf same what).seq fun c own => ?_
  cases c with
  | type t => exact .done own
  | _ => exact .fail _

theorem parallel_tupleElements (same : x.Pairs N V x') :
    Parallel N V (fun es => ∀ e ∈ es, Ty.Within V e) (tupleElements x) (tupleElements x') := by
  refine (parallel_typeOf same).seq fun t own => ?_
  cases helements : t.elements? with
  | some es =>
    dsimp only
    exact .done (own.elements? helements)
  | none =>
    dsimp only
    exact .fail _

theorem parallel_expectFamily (t : Ty) (family : Family) (what : String) :
    Parallel N V (fun _ => True) (expectFamily t family what) (expectFamily t family what) := by
  rw [expectFamily]
  split
  · exact .done trivial
  · exact .fail _

theorem parallel_sameNumber (same : x.Pairs N V x') (same' : y.Pairs N V y') :
    Parallel N V (Ty.Within V) (sameNumber x y) (sameNumber x' y') := by
  refine (parallel_typeOf same).seq fun a own => (parallel_typeOf same').seq fun b _ => ?_
  split
  · exact .done own
  · exact .fail _

theorem parallel_expectFamilies (family : Family) (what : String)
    (same : List.Forall₂ (Ref.Pairs N V) xs xs') :
    Parallel N V (fun _ => True) (expectFamilies family what xs)
      (expectFamilies family what xs') := by
  induction same with
  | nil => exact .done trivial
  | cons first _ ih =>
    exact (parallel_typeOf first).seq fun t _ => (parallel_expectFamily t family what).seq
      fun _ _ => ih

/-! ## Shapes -/

theorem parallel_shape (s : Shape) : Parallel N V (Property.Within V) (shape s) (shape s) :=
  .done (forall_mem_of_eq_nil rfl)

theorem parallel_arrayDims (what : String) (same : x.Pairs N V x') :
    Parallel N V (fun _ => True) (arrayDims x what) (arrayDims x' what) := by
  refine (parallel_shapeOf same).seq fun s _ => ?_
  cases s with
  | dims ds => exact .done trivial
  | _ => exact .fail _

theorem parallel_arraysDims (what : String) (same : List.Forall₂ (Ref.Pairs N V) xs xs') :
    Parallel N V (fun _ => True) (arraysDims what xs) (arraysDims what xs') := by
  induction same with
  | nil => exact .done trivial
  | cons first _ ih =>
    exact (parallel_arrayDims what first).seq fun _ _ => ih.seq fun _ _ => .done trivial

theorem parallel_targetDims (same : x.Pairs N V x') :
    Parallel N V (fun _ => True) (targetDims x) (targetDims x') := by
  refine (parallel_valueOf same).seq fun v _ => ?_
  cases v with
  | known c => exact parallel_ofExcept_true _
  | anything =>
    refine (parallel_typeOf same).seq fun t _ => ?_
    cases t.elements? with
    | some es => exact .done trivial
    | none => exact .fail _

theorem parallel_tupleShapes (same : x.Pairs N V x') :
    Parallel N V (fun _ => True) (tupleShapes x) (tupleShapes x') := by
  refine (parallel_shapeOf same).seq fun s _ => ?_
  cases s with
  | tuple items => exact .done trivial
  | _ => exact .fail _

end Infer

namespace Rule

/-- An operator that gives numbers and truth values alone. -/
theorem uniform_foldUnary {op : Constant → Option Constant}
    (scalar : ∀ {c d}, op c = some d → d.Scalar) : (foldUnary op).Uniform := by
  refine uniform_unary fun _ _ _ hx => (Infer.parallel_valueOf hx).seq fun v _ => ?_
  cases v with
  | anything => exact Infer.parallel_unknown
  | known c => exact Infer.parallel_folded fun d hd => (scalar hd).within

/-- The same for an operator of two operands. -/
theorem uniform_foldBinary {op : Constant → Constant → Option Constant}
    (scalar : ∀ {a b d}, op a b = some d → d.Scalar) : (foldBinary op).Uniform :=
  uniform_binary fun _ _ _ _ _ hx hy => Infer.parallel_fold₂ hx hy fun _ _ _ _ =>
    Infer.parallel_folded fun _ hd => (scalar hd).within

end Rule

namespace ValueRules

open Rule

theorem uniform_typeOf : typeOf.Uniform :=
  uniform_unary fun _ _ _ hx => (Infer.parallel_typeOf hx).seq fun _ own =>
    Infer.parallel_known own

theorem uniform_hasType : hasType.Uniform := by
  refine uniform_binary fun _ _ _ _ _ hx hy => (Infer.parallel_valueOf hy).seq fun v _ => ?_
  split
  · exact (Infer.parallel_typeOf hx).seq fun _ _ =>
      Infer.parallel_known (Constant.Scalar.bool _).within
  · exact Infer.parallel_unknown

theorem uniform_makeTuple : makeTuple.Uniform := by
  refine fun _ _ _ _ _ same => (Infer.parallel_knownValues same).seq fun cs own => ?_
  cases cs with
  | none => exact Infer.parallel_unknown
  | some values => exact Infer.parallel_known (Constant.within_tuple.mpr (own values rfl))

theorem uniform_tail : tail.Uniform := by
  refine uniform_unary fun _ _ _ hx => (Infer.parallel_valueOf hx).seq fun v own => ?_
  split
  · exact .fail _
  · rw [Value.Within, Constant.within_tuple, List.forall_mem_cons] at own
    exact Infer.parallel_known (Constant.within_tuple.mpr own.2)
  · exact Infer.parallel_unknown

theorem uniform_tupleGetItem : tupleGetItem.Uniform := by
  refine uniform_binary fun track _ _ _ _ hx hy => ?_
  refine (Infer.parallel_constantOf hy _).seq fun index _ => ?_
  refine (Infer.parallel_valueOf hx).seq fun v own => ?_
  split
  · have owns := Constant.within_tuple.mp own
    refine (Infer.parallel_ofExcept fun item hitem => owns item (mem_of_tupleItem hitem)).seq
      fun item own => ?_
    exact Infer.parallel_constant own track
  · exact Infer.parallel_unknown

theorem uniform_listGetItem : listGetItem.Uniform := by
  refine uniform_binary fun track _ _ _ _ hx hy => ?_
  refine Infer.parallel_fold₂ hx hy fun items index own _ => ?_
  cases hitem : items.item? index with
  | none => exact .fail _
  | some item => exact Infer.parallel_constant (own.item? hitem) track

theorem uniform_tupleLen : tupleLen.Uniform := by
  refine uniform_unary fun _ _ _ hx => (Infer.parallel_typeOf hx).seq fun t _ => ?_
  cases t.elements? with
  | some es => exact Infer.parallel_known (Constant.Scalar.int _).within
  | none => exact Infer.parallel_unknown

theorem uniform_listLen : listLen.Uniform := by
  refine uniform_unary fun _ _ _ hx => (Infer.parallel_valueOf hx).seq fun v _ => ?_
  split
  · exact Infer.parallel_known (Constant.Scalar.int _).within
  · exact Infer.parallel_unknown

theorem uniform_arrayLen : arrayLen.Uniform := by
  refine uniform_unary fun _ _ _ hx => (Infer.parallel_shapeOf hx).seq fun s _ => ?_
  split
  · exact Infer.parallel_known (Constant.Scalar.int _).within
  · exact .fail _
  · exact Infer.parallel_unknown

theorem uniform_shape : shape.Uniform := by
  refine uniform_unary fun _ _ _ hx => (Infer.parallel_shapeOf hx).seq fun s _ => ?_
  refine Infer.parallel_folded fun c hc => ?_
  obtain ⟨ds, -, hds⟩ := Option.bind_eq_some_iff.mp hc
  exact Dim.within_listToConstant? hds

theorem uniform_broadcastShape : broadcastShape.Uniform := by
  refine uniform_binary fun _ _ _ _ _ hx hy => Infer.parallel_fold₂ hx hy fun a b _ _ => ?_
  refine (Infer.parallel_ofExcept_true _).seq fun ds _ => ?_
  refine (Infer.parallel_ofExcept_true _).seq fun es _ => ?_
  cases broadcastDims ds es with
  | none => exact .fail _
  | some merged => exact Infer.parallel_folded fun _ hc => Dim.within_listToConstant? hc

theorem uniform_getAttribute : getAttribute.Uniform := by
  refine uniform_binary fun track _ _ _ _ hx hy => ?_
  refine (Infer.parallel_recordAttribute hx hy).seq fun found _ => ?_
  cases found with
  | none => exact Infer.parallel_access .named track hx hy
  | some found =>
    refine (Infer.parallel_valueOf hx).seq fun v _ => ?_
    cases v with
    | anything => exact Infer.parallel_unknown
    | known c => exact Infer.parallel_access .named track hx hy

theorem uniform_scalarCast : scalarCast.Uniform := by
  refine uniform_binary fun _ _ _ _ _ hx hy => Infer.parallel_fold₂ hx hy fun value target _ _ => ?_
  cases target with
  | type t => exact Infer.parallel_folded fun _ hd => (Constant.scalar_cast hd).within
  | _ => exact .fail _

theorem uniform_registry : registry.Uniform :=
  Registry.uniform_common
    |>.insert _ _ (uniform_foldBinary Constant.scalar_arithmetic)
    |>.insert _ _ (uniform_foldBinary Constant.scalar_arithmetic)
    |>.insert _ _ (uniform_foldBinary Constant.scalar_arithmetic)
    |>.insert _ _ (uniform_foldBinary Constant.scalar_arithmetic)
    |>.insert _ _ (uniform_foldBinary Constant.scalar_arithmetic)
    |>.insert _ _ (uniform_foldBinary Constant.scalar_arithmetic)
    |>.insert _ _ (uniform_foldUnary Constant.scalar_plus)
    |>.insert _ _ (uniform_foldUnary Constant.scalar_minus)
    |>.insert _ _ (uniform_foldUnary Constant.scalar_onFloat)
    |>.insert _ _ (uniform_foldUnary Constant.scalar_onFloat)
    |>.insert _ _ (uniform_foldUnary Constant.scalar_onFloat)
    |>.insert _ _ (uniform_foldUnary Constant.scalar_onFloat)
    |>.insert _ _ (uniform_foldUnary Constant.scalar_onFloat)
    |>.insert _ _ (uniform_foldBinary Constant.scalar_compareBy)
    |>.insert _ _ (uniform_foldBinary Constant.scalar_compareBy)
    |>.insert _ _ (uniform_foldBinary Constant.scalar_compareBy)
    |>.insert _ _ (uniform_foldBinary Constant.scalar_compareBy)
    |>.insert _ _ (uniform_foldBinary Constant.scalar_compareBy)
    |>.insert _ _ (uniform_foldBinary Constant.scalar_compareBy)
    |>.insert _ _ (uniform_foldUnary Constant.scalar_not)
    |>.insert _ _ (uniform_foldBinary Constant.scalar_logical)
    |>.insert _ _ (uniform_foldBinary Constant.scalar_logical)
    |>.insert _ _ uniform_typeOf
    |>.insert _ _ uniform_hasType
    |>.insert _ _ uniform_makeTuple
    |>.insert _ _ uniform_tail
    |>.insert _ _ uniform_tupleGetItem
    |>.insert _ _ uniform_listGetItem
    |>.insert _ _ uniform_tupleLen
    |>.insert _ _ uniform_listLen
    |>.insert _ _ uniform_arrayLen
    |>.insert _ _ uniform_shape
    |>.insert _ _ uniform_broadcastShape
    |>.insert _ _ uniform_getAttribute
    |>.insert _ _ uniform_scalarCast

end ValueRules

namespace TypeRules

open Rule

variable {N : NodeRef → NodeRef → Prop} {V : GraphId → Prop} {x x' : Ref} {xs xs' : List Ref}

/-- A type of a family without parameters mentions no graph. -/
theorem uniform_newGeneric (family : Family) :
    Rule.Uniform fun _ _ => Infer.newType (.generic family) :=
  fun _ _ _ _ _ _ => Infer.parallel_newType fun _ => forall_mem_of_eq_nil rfl

theorem parallel_newTuple {ts : List Ty} (own : ∀ t ∈ ts, t.Within V) :
    Infer.Parallel N V (Property.Within V) (Infer.newType (.tuple ts))
      (Infer.newType (.tuple ts)) :=
  Infer.parallel_newType fun _ => Ty.within_tuple.mpr own

theorem parallel_expectBools (same : List.Forall₂ (Ref.Pairs N V) xs xs') :
    Infer.Parallel N V (fun _ => True) (expectBools xs) (expectBools xs') := by
  induction same with
  | nil => exact .done trivial
  | cons first _ ih =>
    refine (Infer.parallel_typeOf first).seq fun t _ => ?_
    split
    · exact ih
    · exact .fail _

theorem uniform_arithmetic : arithmetic.Uniform :=
  uniform_binary fun _ _ _ _ _ hx hy => (Infer.parallel_sameNumber hx hy).seq fun _ =>
    Infer.parallel_type

theorem uniform_unaryArithmetic : unaryArithmetic.Uniform := by
  refine uniform_unary fun _ _ _ hx => (Infer.parallel_typeOf hx).seq fun t own => ?_
  split
  · exact Infer.parallel_type own
  · exact .fail _

theorem uniform_comparison : comparison.Uniform :=
  uniform_binary fun track _ _ _ _ hx hy => (Infer.parallel_sameNumber hx hy).seq fun _ _ =>
    uniform_newGeneric .bool _ _ track _ _ .nil

theorem uniform_logical : logical.Uniform :=
  fun _ _ track _ _ same => (parallel_expectBools same).seq fun _ _ =>
    uniform_newGeneric .bool _ _ track _ _ .nil

theorem uniform_typeOf : typeOf.Uniform :=
  uniform_newGeneric .type

theorem uniform_hasType : hasType.Uniform :=
  uniform_newGeneric .bool

theorem uniform_makeTuple : makeTuple.Uniform :=
  fun _ _ _ _ _ same => (Infer.parallel_mapM Infer.parallel_typeOf same).seq fun _ own =>
    parallel_newTuple own.2

theorem uniform_tail : tail.Uniform := by
  refine uniform_unary fun _ _ _ hx => (Infer.parallel_tupleElements hx).seq fun es own => ?_
  cases es with
  | nil => exact .fail _
  | cons e rest => exact parallel_newTuple (List.forall_mem_cons.mp own).2

theorem uniform_tupleGetItem : tupleGetItem.Uniform :=
  uniform_binary fun _ _ _ _ _ hx hy => (Infer.parallel_constantOf hy _).seq fun _ _ =>
    (Infer.parallel_tupleElements hx).seq fun _ own =>
      (Infer.parallel_ofExcept fun t ht => own t (mem_of_tupleItem ht)).seq fun _ =>
        Infer.parallel_type

theorem uniform_tupleSetItem : tupleSetItem.Uniform := by
  refine uniform_ternary fun _ _ _ _ _ _ _ hx hy hz => ?_
  refine (Infer.parallel_constantOf hy _).seq fun _ _ => ?_
  refine (Infer.parallel_tupleElements hx).seq fun es own => ?_
  refine (Infer.parallel_ofExcept_true _).seq fun n _ => ?_
  refine (Infer.parallel_typeOf hz).seq fun new own' => parallel_newTuple fun t ht => ?_
  rcases List.mem_or_eq_of_mem_set ht with ht | rfl
  · exact own t ht
  · exact own'

theorem uniform_elementGetItem : elementGetItem.Uniform := by
  refine uniform_variadic _ fun _ _ _ _ _ hx _ => (Infer.parallel_typeOf hx).seq fun t own => ?_
  cases helement : t.element? with
  | some e =>
    dsimp only
    exact Infer.parallel_type (own.element? helement)
  | none =>
    dsimp only
    exact .fail _

theorem uniform_elementSetItem : elementSetItem.Uniform := by
  refine uniform_ternary fun _ _ _ _ _ _ _ hx _ hz => ?_
  refine (Infer.parallel_typeOf hx).seq fun t own => (Infer.parallel_typeOf hz).seq fun new _ => ?_
  cases t.element? with
  | none => exact .fail _
  | some e =>
    dsimp only
    split
    · exact Infer.parallel_type own
    · exact .fail _

theorem uniform_length : length.Uniform := by
  refine uniform_unary fun _ _ _ hx => (Infer.parallel_typeOf hx).seq fun t _ => ?_
  split
  · exact Infer.parallel_newType fun _ => forall_mem_of_eq_nil rfl
  · exact .fail _

theorem uniform_getAttribute : getAttribute.Uniform := by
  refine uniform_binary fun track _ _ _ _ hx hy => ?_
  refine (Infer.parallel_recordAttribute hx hy).seq fun found _ => ?_
  cases found with
  | none => exact Infer.parallel_access .named track hx hy
  | some found =>
    refine (Infer.parallel_typeOf hx).seq fun record own => ?_
    split
    · rename_i t ht
      obtain ⟨c, hc, ht⟩ := Option.bind_eq_some_iff.mp ht
      exact Infer.parallel_type (ClassDesc.within_attribute? (own.class? hc).1 ht)
    · exact .fail _

theorem uniform_setAttribute : setAttribute.Uniform := by
  refine uniform_ternary fun _ _ _ _ _ _ _ hx hy hz => ?_
  refine (Infer.parallel_typeOf hx).seq fun record own => ?_
  refine (Infer.parallel_constantOf hy _).seq fun key _ => ?_
  cases attributeOf? record key with
  | none => exact .fail _
  | some declared =>
    refine (Infer.parallel_typeOf hz).seq fun actual _ => ?_
    split
    · exact Infer.parallel_type own
    · exact .fail _

theorem parallel_checkAttributes (tag : ClassTag) (attributes : List (String × Ty))
    (same : List.Forall₂ (Ref.Pairs N V) xs xs') :
    Infer.Parallel N V (fun _ => True) (checkAttributes tag attributes xs)
      (checkAttributes tag attributes xs') := by
  induction same generalizing attributes with
  | nil => cases attributes <;> exact .done trivial
  | cons first _ ih =>
    cases attributes with
    | nil => exact .done trivial
    | cons declared attributes =>
      refine (Infer.parallel_typeOf first).seq fun actual _ => ?_
      split
      · exact ih attributes
      · exact .fail _

theorem uniform_makeRecord : makeRecord.Uniform := by
  refine uniform_variadic _ fun _ _ _ _ _ hx rest => ?_
  refine (Infer.parallel_typeArgument _ hx).seq fun record own => ?_
  cases record.class? with
  | none => exact .fail _
  | some c =>
    dsimp only
    rw [rest.length_eq]
    split
    · exact .fail _
    · exact (parallel_checkAttributes c.tag c.attributes rest).seq fun _ _ =>
        Infer.parallel_type own

theorem uniform_scalarToArray : scalarToArray.Uniform :=
  uniform_unary fun _ _ _ hx => (Infer.parallel_typeOf hx).seq fun _ own =>
    Infer.parallel_newType fun _ => own

/-- The type of extents mentions no graph. -/
theorem within_extents (rank : Nat) (cache : TypeCache) :
    ((extents rank).run cache).1.Within V := by
  refine Ty.within_tuple.mpr fun t ht => ?_
  obtain rfl := List.eq_of_mem_replicate ht
  exact forall_mem_of_eq_nil rfl

theorem uniform_broadcastShape : broadcastShape.Uniform :=
  uniform_binary fun _ _ _ _ _ hx hy => (Infer.parallel_tupleElements hx).seq fun _ _ =>
    (Infer.parallel_tupleElements hy).seq fun _ _ => Infer.parallel_newType (within_extents _)

theorem uniform_shape : shape.Uniform := by
  refine uniform_unary fun _ _ _ hx => (Infer.parallel_typeOf hx).seq fun t _ => ?_
  refine (Infer.parallel_expectFamily t .array _).seq fun _ _ => ?_
  refine (Infer.parallel_shapeOf hx).seq fun s _ => ?_
  cases s.rank? with
  | some rank => exact Infer.parallel_newType (within_extents rank)
  | none => exact .fail _

theorem parallel_mappedElement (track : Track) (hf : x.Pairs N V x')
    (same : List.Forall₂ (Ref.Pairs N V) xs xs') :
    Infer.Parallel N V (Ty.Within V) (mappedElement track x xs) (mappedElement track x' xs') := by
  refine (Infer.parallel_inferrerOf hf track).seq fun f _ => ?_
  refine (Infer.parallel_callInferrer f (Infer.pairs_elements same)).seq fun p own => ?_
  refine Infer.parallel_ofExcept fun t ht => ?_
  cases p with
  | type u =>
    cases ht
    exact own
  | _ => cases ht

theorem uniform_arrayMap : arrayMap.Uniform :=
  uniform_variadic _ fun track _ _ _ _ hf rest =>
    (Infer.parallel_expectFamilies .array _ rest).seq fun _ _ =>
      (parallel_mappedElement track hf rest).seq fun _ own => Infer.parallel_newType fun _ => own

theorem uniform_listMap : listMap.Uniform :=
  uniform_variadic _ fun track _ _ _ _ hf rest =>
    (Infer.parallel_expectFamilies .list _ rest).seq fun _ _ =>
      (parallel_mappedElement track hf rest).seq fun _ own => Infer.parallel_newType fun _ => own

theorem parallel_keepArray (what : String) (same : x.Pairs N V x') :
    Infer.Parallel N V (Property.Within V) (keepArray what x) (keepArray what x') :=
  (Infer.parallel_typeOf same).seq fun t own =>
    (Infer.parallel_expectFamily t .array what).seq fun _ _ => Infer.parallel_type own

theorem uniform_arrayScan : arrayScan.Uniform :=
  uniform_quaternary fun _ _ _ _ _ _ _ _ _ _ _ ha _ => parallel_keepArray _ ha

theorem uniform_arrayReduce : arrayReduce.Uniform :=
  uniform_ternary fun _ _ _ _ _ _ _ _ ha _ => parallel_keepArray _ ha

theorem uniform_distribute : distribute.Uniform := by
  refine uniform_binary fun _ _ _ _ _ hx _ => (Infer.parallel_typeOf hx).seq fun t own => ?_
  split
  · exact Infer.parallel_type own
  · exact Infer.parallel_newType fun _ => own

theorem uniform_reshape : reshape.Uniform :=
  uniform_binary fun _ _ _ _ _ ha _ => parallel_keepArray _ ha

theorem uniform_dot : dot.Uniform := by
  refine uniform_binary fun _ _ _ _ _ hx hy => (Infer.parallel_typeOf hx).seq fun a own => ?_
  refine (Infer.parallel_typeOf hy).seq fun b _ => ?_
  refine (Infer.parallel_expectFamily a .array _).seq fun _ _ => ?_
  split
  · exact Infer.parallel_type own
  · exact .fail _

theorem uniform_scalarCast : scalarCast.Uniform := by
  refine uniform_binary fun _ _ _ _ _ hx hy => (Infer.parallel_typeOf hx).seq fun t _ => ?_
  split
  · exact .fail _
  · refine (Infer.parallel_typeArgument _ hy).seq fun result own => ?_
    split
    · exact Infer.parallel_type own
    · exact .fail _

theorem uniform_registry : registry.Uniform :=
  Registry.uniform_common
    |>.insertAll _ _ (fun _ _ => uniform_arithmetic)
    |>.insertAll _ _ (fun _ _ => uniform_unaryArithmetic)
    |>.insertAll _ _ (fun _ _ => uniform_comparison)
    |>.insert _ _ uniform_logical
    |>.insertAll _ _ (fun _ _ => uniform_logical)
    |>.insert _ _ uniform_typeOf
    |>.insert _ _ uniform_hasType
    |>.insert _ _ uniform_makeTuple
    |>.insert _ _ uniform_tail
    |>.insert _ _ uniform_tupleGetItem
    |>.insert _ _ uniform_elementGetItem
    |>.insert _ _ uniform_elementGetItem
    |>.insert _ _ uniform_tupleSetItem
    |>.insertAll _ _ (fun _ _ => uniform_elementSetItem)
    |>.insertAll _ _ (fun _ _ => uniform_length)
    |>.insert _ _ uniform_getAttribute
    |>.insert _ _ uniform_setAttribute
    |>.insert _ _ uniform_makeRecord
    |>.insert _ _ uniform_scalarToArray
    |>.insert _ _ uniform_broadcastShape
    |>.insert _ _ uniform_shape
    |>.insert _ _ uniform_arrayMap
    |>.insert _ _ uniform_listMap
    |>.insert _ _ uniform_arrayScan
    |>.insert _ _ uniform_arrayReduce
    |>.insert _ _ uniform_distribute
    |>.insert _ _ uniform_reshape
    |>.insert _ _ uniform_dot
    |>.insert _ _ uniform_scalarCast

end TypeRules

namespace ShapeRules

open Rule

variable {N : NodeRef → NodeRef → Prop} {V : GraphId → Prop} {x x' : Ref} {xs xs' : List Ref}

theorem uniform_makeTuple : makeTuple.Uniform :=
  fun _ _ _ _ _ same => (Infer.parallel_mapM Infer.parallel_shapeOf same).seq fun _ _ =>
    Infer.parallel_shape _

theorem uniform_tail : tail.Uniform := by
  refine uniform_unary fun _ _ _ hx => (Infer.parallel_tupleShapes hx).seq fun items _ => ?_
  cases items with
  | nil => exact .fail _
  | cons first rest => exact Infer.parallel_shape _

theorem uniform_tupleGetItem : tupleGetItem.Uniform :=
  uniform_binary fun _ _ _ _ _ hx hy => (Infer.parallel_constantOf hy _).seq fun _ _ =>
    (Infer.parallel_tupleShapes hx).seq fun _ _ =>
      (Infer.parallel_ofExcept_true _).seq fun s _ => Infer.parallel_shape s

theorem uniform_tupleSetItem : tupleSetItem.Uniform :=
  uniform_ternary fun _ _ _ _ _ _ _ hx hy hz => (Infer.parallel_constantOf hy _).seq fun _ _ =>
    (Infer.parallel_tupleShapes hx).seq fun _ _ => (Infer.parallel_ofExcept_true _).seq fun _ _ =>
      (Infer.parallel_shapeOf hz).seq fun _ _ => Infer.parallel_shape _

theorem uniform_listGetItem : listGetItem.Uniform :=
  uniform_binary fun _ _ _ _ _ hx _ => (Infer.parallel_shapeOf hx).seq fun _ _ =>
    (Infer.parallel_ofExcept_true _).seq fun s _ => Infer.parallel_shape s

theorem uniform_elementSetItem : elementSetItem.Uniform :=
  uniform_ternary fun _ _ _ _ _ _ _ hx _ _ => (Infer.parallel_shapeOf hx).seq fun s _ =>
    Infer.parallel_shape s

theorem parallel_attributeShapes (attributes : List (String × Ty))
    (same : List.Forall₂ (Ref.Pairs N V) xs xs') :
    Infer.Parallel N V (fun _ => True) (attributeShapes attributes xs)
      (attributeShapes attributes xs') := by
  induction same generalizing attributes with
  | nil => cases attributes <;> exact .done trivial
  | cons first _ ih =>
    cases attributes with
    | nil => exact .done trivial
    | cons declared attributes =>
      exact (Infer.parallel_shapeOf first).seq fun _ _ => (ih attributes).seq fun _ _ =>
        .done trivial

theorem uniform_makeRecord : makeRecord.Uniform := by
  refine uniform_variadic _ fun _ _ _ _ _ hx rest => ?_
  refine (Infer.parallel_constantOf hx _).seq fun key _ => ?_
  cases recordClass? key with
  | none => exact .fail _
  | some c =>
    dsimp only
    rw [rest.length_eq]
    split
    · exact .fail _
    · exact (parallel_attributeShapes c.attributes rest).seq fun _ _ => Infer.parallel_shape _

theorem uniform_getAttribute : getAttribute.Uniform := by
  refine uniform_binary fun track _ _ _ _ hx hy => ?_
  refine (Infer.parallel_recordAttribute hx hy).seq fun found _ => ?_
  cases found with
  | none => exact Infer.parallel_access .named track hx hy
  | some found =>
    refine (Infer.parallel_shapeOf hx).seq fun s _ => ?_
    split
    · exact Infer.parallel_shape _
    · exact .fail _

theorem uniform_setAttribute : setAttribute.Uniform := by
  refine uniform_ternary fun _ _ _ _ _ _ _ hx hy hz => ?_
  refine (Infer.parallel_constantOf hy _).seq fun key _ => ?_
  cases key.str? with
  | none => exact .fail _
  | some name =>
    refine (Infer.parallel_shapeOf hx).seq fun s _ => ?_
    cases s with
    | record attributes =>
      dsimp only
      split
      · exact (Infer.parallel_shapeOf hz).seq fun _ _ => Infer.parallel_shape _
      · exact .fail _
    | _ => exact .fail _

theorem uniform_scalarToArray : scalarToArray.Uniform :=
  uniform_unary fun _ _ _ _ => Infer.parallel_shape _

theorem uniform_shape : shape.Uniform :=
  uniform_unary fun _ _ _ hx => (Infer.parallel_arrayDims _ hx).seq fun _ _ =>
    Infer.parallel_shape _

theorem parallel_extentsCount (same : x.Pairs N V x') :
    Infer.Parallel N V (fun _ => True) (extentsCount x) (extentsCount x') := by
  refine (Infer.parallel_typeOf same).seq fun t _ => ?_
  cases t.elements? with
  | some es => exact .done trivial
  | none => exact .fail _

theorem uniform_broadcastShape : broadcastShape.Uniform :=
  uniform_binary fun _ _ _ _ _ hx hy => (parallel_extentsCount hx).seq fun _ _ =>
    (parallel_extentsCount hy).seq fun _ _ => Infer.parallel_shape _

theorem uniform_arrayMap : arrayMap.Uniform :=
  uniform_variadic _ fun _ _ _ _ _ _ rest => (Infer.parallel_arraysDims _ rest).seq fun _ _ =>
    (Infer.parallel_ofExcept_true _).seq fun _ _ => Infer.parallel_shape _

theorem uniform_listMap : listMap.Uniform :=
  uniform_variadic _ fun track _ _ _ _ hf rest =>
    (Infer.parallel_inferrerOf hf track).seq fun f _ =>
      (Infer.parallel_callInferrer f (Infer.pairs_elements rest)).seq fun _ _ =>
        (Infer.parallel_ofExcept_true _).seq fun _ _ => Infer.parallel_shape _

theorem uniform_arrayScan : arrayScan.Uniform :=
  uniform_quaternary fun _ _ _ _ _ _ _ _ _ _ _ ha _ => (Infer.parallel_shapeOf ha).seq fun s _ =>
    Infer.parallel_shape s

theorem uniform_arrayReduce : arrayReduce.Uniform := by
  refine uniform_ternary fun _ _ _ _ _ _ _ _ ha hs => (Infer.parallel_valueOf hs).seq fun v _ => ?_
  cases v with
  | anything => exact .fail _
  | known c =>
    exact (Infer.parallel_ofExcept_true _).seq fun _ _ => (Infer.parallel_arrayDims _ ha).seq
      fun _ _ => (Infer.parallel_ofExcept_true _).seq fun _ _ => Infer.parallel_shape _

theorem uniform_distribute : distribute.Uniform := by
  refine uniform_binary fun _ _ _ _ _ hx hs => (Infer.parallel_targetDims hs).seq fun target _ => ?_
  refine (Infer.parallel_typeOf hx).seq fun t _ => ?_
  split
  · exact (Infer.parallel_arrayDims _ hx).seq fun _ _ => (Infer.parallel_ofExcept_true _).seq
      fun _ _ => Infer.parallel_shape _
  · exact Infer.parallel_shape _

theorem uniform_reshape : reshape.Uniform := by
  refine uniform_binary fun _ _ _ _ _ ha hs => (Infer.parallel_targetDims hs).seq fun target _ => ?_
  refine (Infer.parallel_shapeOf ha).seq fun source _ => ?_
  split
  · split
    · exact Infer.parallel_shape _
    · exact .fail _
  · exact Infer.parallel_noted .reshapeUnchecked ha (Infer.parallel_shape _)

theorem uniform_dot : dot.Uniform :=
  uniform_binary fun _ _ _ _ _ hx hy => (Infer.parallel_arrayDims _ hx).seq fun _ _ =>
    (Infer.parallel_arrayDims _ hy).seq fun _ _ => (Infer.parallel_ofExcept_true _).seq fun _ _ =>
      Infer.parallel_shape _

theorem uniform_registry : registry.Uniform :=
  Registry.uniform_common
    |>.insert _ _ uniform_makeTuple
    |>.insert _ _ uniform_tail
    |>.insert _ _ uniform_tupleGetItem
    |>.insert _ _ uniform_tupleSetItem
    |>.insert _ _ uniform_listGetItem
    |>.insertAll _ _ (fun _ _ => uniform_elementSetItem)
    |>.insert _ _ uniform_makeRecord
    |>.insert _ _ uniform_getAttribute
    |>.insert _ _ uniform_setAttribute
    |>.insert _ _ uniform_scalarToArray
    |>.insert _ _ uniform_shape
    |>.insert _ _ uniform_broadcastShape
    |>.insert _ _ uniform_arrayMap
    |>.insert _ _ uniform_listMap
    |>.insert _ _ uniform_arrayScan
    |>.insert _ _ uniform_arrayReduce
    |>.insert _ _ uniform_distribute
    |>.insert _ _ uniform_reshape
    |>.insert _ _ uniform_dot

end ShapeRules

theorem Registries.uniform_builtin (track : Track) : (Registries.builtin.get track).Uniform := by
  cases track with
  | value => exact ValueRules.uniform_registry
  | type => exact TypeRules.uniform_registry
  | shape => exact ShapeRules.uniform_registry

end ArrayInference
