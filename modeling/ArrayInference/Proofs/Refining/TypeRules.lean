import ArrayInference.Proofs.Refining.Rules

/-!
# Type rules in two runs

What type rules find is the same in two runs, and has graphs of the program alone. They read the types
of their arguments; where they read a value, a known one is the same in both runs; and of a shape they
read the number of axes alone.
-/

namespace ArrayInference

namespace Sides

open Book

variable {s : Sides} {k l : Book} {x x' y y' z z' : Ref} {xs xs' : List Ref}

/-! ## What type rules are made of -/

theorem matches_type {t : Ty} (own : t.Within s.program.Has) :
    k.Matches l (s.Finer (.same .type)) (Infer.type t) (Infer.type t) :=
  matches_done (.type own)

theorem Level.newType (h : s.Level k l) {make : Interning Ty} (steady : make.Steady)
    (own : ∀ cache, (make.run cache).1.Within s.program.Has) :
    k.Matches l (s.Finer (.same .type)) (Infer.newType make) (Infer.newType make) :=
  (h.intern steady own).same_seq fun _ => matches_type

/-- A type of a family without parameters mentions no graph. -/
theorem Level.newGeneric (h : s.Level k l) (family : Family) :
    k.Matches l (s.Finer (.same .type)) (Infer.newType (.generic family))
      (Infer.newType (.generic family)) :=
  h.newType (Interning.steady_generic family) fun _ => forall_mem_of_eq_nil rfl

theorem Level.newTuple (h : s.Level k l) {ts : List Ty} (own : ∀ t ∈ ts, t.Within s.program.Has) :
    k.Matches l (s.Finer (.same .type)) (Infer.newType (.tuple ts)) (Infer.newType (.tuple ts)) :=
  h.newType (Interning.steady_tuple ts) fun _ => Ty.within_tuple.mpr own

theorem Level.newExtents (h : s.Level k l) (rank : Nat) :
    k.Matches l (s.Finer (.same .type)) (Infer.newType (TypeRules.extents rank))
      (Infer.newType (TypeRules.extents rank)) :=
  h.newType (TypeRules.steady_extents rank) (TypeRules.within_extents rank)

theorem Level.typeArgument (h : s.Level k l) (what : String) (hx : s.Names x x') :
    k.Same l (Ty.Within s.program.Has) (Infer.typeArgument x what) (Infer.typeArgument x' what) := by
  refine (h.constantOf hx what).same_seq fun c own => ?_
  cases c with
  | type t => exact same_done own
  | _ => exact matches_fail

theorem Level.tupleElements (h : s.Level k l) (hx : s.Names x x') :
    k.Same l (fun es => ∀ e ∈ es, Ty.Within s.program.Has e) (Infer.tupleElements x)
      (Infer.tupleElements x') := by
  refine (h.typeOf hx).same_seq fun t own => ?_
  cases helements : t.elements? with
  | some es =>
    dsimp only
    exact same_done (own.elements? helements)
  | none =>
    dsimp only
    exact matches_fail

theorem same_expectFamily {t : Ty} {family : Family} {what : String} :
    k.Same l (fun _ => True) (Infer.expectFamily t family what)
      (Infer.expectFamily t family what) := by
  rw [Infer.expectFamily]
  split
  · exact same_done trivial
  · exact matches_fail

theorem Level.sameNumber (h : s.Level k l) (hx : s.Names x x') (hy : s.Names y y') :
    k.Same l (Ty.Within s.program.Has) (Infer.sameNumber x y) (Infer.sameNumber x' y') := by
  refine (h.typeOf hx).same_seq fun a own => (h.typeOf hy).same_seq fun b _ => ?_
  split
  · exact same_done own
  · exact matches_fail

theorem Level.expectFamilies (h : s.Level k l) (family : Family) (what : String)
    (same : List.Forall₂ s.Names xs xs') :
    k.Same l (fun _ => True) (Infer.expectFamilies family what xs)
      (Infer.expectFamilies family what xs') := by
  induction same with
  | nil => exact same_done trivial
  | cons first _ ih => exact (h.typeOf first).same_seq fun _ _ => same_expectFamily.same_seq fun _ _ => ih

theorem Level.typesOf (h : s.Level k l) (same : List.Forall₂ s.Names xs xs') :
    k.Same l (fun ts => ∀ t ∈ ts, Ty.Within s.program.Has t) (xs.mapM Infer.typeOf)
      (xs'.mapM Infer.typeOf) := by
  induction same with
  | nil => exact same_done (by simp)
  | cons first _ ih =>
    rw [List.mapM_cons, List.mapM_cons]
    exact (h.typeOf first).same_seq fun _ own => ih.same_seq fun _ owns =>
      same_done (List.forall_mem_cons.mpr ⟨own, owns⟩)

namespace Types

open TypeRules

/-! ## Numbers and truth values -/

theorem Level.expectBools (h : s.Level k l) (same : List.Forall₂ s.Names xs xs') :
    k.Same l (fun _ => True) (expectBools xs) (expectBools xs') := by
  induction same with
  | nil => exact same_done trivial
  | cons first _ ih =>
    refine (h.typeOf first).same_seq fun t _ => ?_
    split
    · exact ih
    · exact matches_fail

theorem keeps_arithmetic : s.Keeps (.same .type) arithmetic arithmetic :=
  keeps_binary fun h _ _ _ _ hx hy => (h.sameNumber hx hy).same_seq fun _ => matches_type

theorem keeps_unaryArithmetic : s.Keeps (.same .type) unaryArithmetic unaryArithmetic := by
  refine keeps_unary fun h _ _ hx => (h.typeOf hx).same_seq fun t own => ?_
  split
  · exact matches_type own
  · exact matches_fail

theorem keeps_comparison : s.Keeps (.same .type) comparison comparison :=
  keeps_binary fun h _ _ _ _ hx hy => (h.sameNumber hx hy).same_seq fun _ _ => h.newGeneric .bool

theorem keeps_logical : s.Keeps (.same .type) logical logical :=
  fun _ _ h _ _ same => (Level.expectBools h same).same_seq fun _ _ => h.newGeneric .bool

theorem keeps_typeOf : s.Keeps (.same .type) typeOf typeOf :=
  fun _ _ h _ _ _ => h.newGeneric .type

theorem keeps_hasType : s.Keeps (.same .type) hasType hasType :=
  fun _ _ h _ _ _ => h.newGeneric .bool

theorem keeps_scalarCast : s.Keeps (.same .type) scalarCast scalarCast := by
  refine keeps_binary fun h _ _ _ _ hx hy => (h.typeOf hx).same_seq fun t _ => ?_
  split
  · exact matches_fail
  · refine (h.typeArgument _ hy).same_seq fun result own => ?_
    split
    · exact matches_type own
    · exact matches_fail

/-! ## Tuples, lists and arrays -/

theorem keeps_makeTuple : s.Keeps (.same .type) makeTuple makeTuple :=
  fun _ _ h _ _ same => (h.typesOf same).same_seq fun _ => h.newTuple

theorem keeps_tail : s.Keeps (.same .type) tail tail := by
  refine keeps_unary fun h _ _ hx => (h.tupleElements hx).same_seq fun es own => ?_
  cases es with
  | nil => exact matches_fail
  | cons e rest => exact h.newTuple (List.forall_mem_cons.mp own).2

theorem keeps_tupleGetItem : s.Keeps (.same .type) tupleGetItem tupleGetItem :=
  keeps_binary fun h _ _ _ _ hx hy => (h.constantOf hy _).same_seq fun _ _ =>
    (h.tupleElements hx).same_seq fun _ own =>
      (same_ofExcept fun t ht => own t (Rule.mem_of_tupleItem ht)).same_seq fun _ => matches_type

theorem keeps_tupleSetItem : s.Keeps (.same .type) tupleSetItem tupleSetItem := by
  refine keeps_ternary fun h _ _ _ _ _ _ hx hy hz => (h.constantOf hy _).same_seq fun index _ => ?_
  refine (h.tupleElements hx).same_seq fun es own => ?_
  refine matches_ofExcept_seq fun n => ?_
  refine (h.typeOf hz).same_seq fun new own' => h.newTuple fun t ht => ?_
  rcases List.mem_or_eq_of_mem_set ht with ht | rfl
  · exact own t ht
  · exact own'

theorem keeps_elementGetItem : s.Keeps (.same .type) elementGetItem elementGetItem := by
  refine keeps_variadic _ fun h _ _ _ _ hx _ => (h.typeOf hx).same_seq fun t own => ?_
  cases helement : t.element? with
  | some e =>
    dsimp only
    exact matches_type (own.element? helement)
  | none =>
    dsimp only
    exact matches_fail

theorem keeps_elementSetItem : s.Keeps (.same .type) elementSetItem elementSetItem := by
  refine keeps_ternary fun h _ _ _ _ _ _ hx _ hz => (h.typeOf hx).same_seq fun t own => ?_
  refine (h.typeOf hz).same_seq fun new _ => ?_
  cases t.element? with
  | none => exact matches_fail
  | some e =>
    dsimp only
    split
    · exact matches_type own
    · exact matches_fail

theorem keeps_length : s.Keeps (.same .type) length length := by
  refine keeps_unary fun h _ _ hx => (h.typeOf hx).same_seq fun t _ => ?_
  split
  · exact h.newType (Interning.steady_intern _) fun _ => forall_mem_of_eq_nil rfl
  · exact matches_fail

theorem keeps_scalarToArray : s.Keeps (.same .type) scalarToArray scalarToArray :=
  keeps_unary fun h _ _ hx => (h.typeOf hx).same_seq fun _ own =>
    h.newType (Interning.steady_array _) fun _ => own

theorem keeps_broadcastShape : s.Keeps (.same .type) broadcastShape broadcastShape :=
  keeps_binary fun h _ _ _ _ hx hy => (h.tupleElements hx).same_seq fun _ _ =>
    (h.tupleElements hy).same_seq fun _ _ => h.newExtents _

theorem keeps_shape : s.Keeps (.same .type) shape shape := by
  refine keeps_unary fun h _ _ hx => (h.typeOf hx).same_seq fun t _ => ?_
  refine same_expectFamily.same_seq fun _ _ => (h.shapeOf hx).seq fun a a' le => ?_
  rw [le.rank?_eq]
  cases a.rank? with
  | some rank => exact h.newExtents rank
  | none => exact matches_fail

theorem Level.mappedElement (h : s.Level k l) (hx : s.Names x x')
    (same : List.Forall₂ s.Names xs xs') :
    k.Same l (Ty.Within s.program.Has) (mappedElement .type x xs) (mappedElement .type x' xs') := by
  refine (h.inferrerOf (.same .type) hx).seq fun f f' kin => ?_
  refine (h.callInferrer kin (names_elements same)).seq fun p p' finer => ?_
  refine matches_ofExcept fun t t' ht ht' => ?_
  cases p <;> cases ht
  obtain ⟨rfl, own⟩ := finer.of_type
  cases ht'
  exact ⟨rfl, own⟩

theorem keeps_arrayMap : s.Keeps (.same .type) arrayMap arrayMap :=
  keeps_variadic _ fun h _ _ _ _ hf rest => (h.expectFamilies .array _ rest).same_seq fun _ _ =>
    (Level.mappedElement h hf rest).same_seq fun _ own =>
      h.newType (Interning.steady_array _) fun _ => own

theorem keeps_listMap : s.Keeps (.same .type) listMap listMap :=
  keeps_variadic _ fun h _ _ _ _ hf rest => (h.expectFamilies .list _ rest).same_seq fun _ _ =>
    (Level.mappedElement h hf rest).same_seq fun _ own =>
      h.newType (Interning.steady_list _) fun _ => own

theorem Level.keepArray (h : s.Level k l) (what : String) (hx : s.Names x x') :
    k.Matches l (s.Finer (.same .type)) (keepArray what x) (keepArray what x') :=
  (h.typeOf hx).same_seq fun _ own => same_expectFamily.same_seq fun _ _ => matches_type own

theorem keeps_arrayScan : s.Keeps (.same .type) arrayScan arrayScan :=
  keeps_quaternary fun h _ _ _ _ _ _ _ _ _ _ ha _ => Level.keepArray h _ ha

theorem keeps_arrayReduce : s.Keeps (.same .type) arrayReduce arrayReduce :=
  keeps_ternary fun h _ _ _ _ _ _ _ ha _ => Level.keepArray h _ ha

theorem keeps_reshape : s.Keeps (.same .type) reshape reshape :=
  keeps_binary fun h _ _ _ _ ha _ => Level.keepArray h _ ha

theorem keeps_distribute : s.Keeps (.same .type) distribute distribute := by
  refine keeps_binary fun h _ _ _ _ hx _ => (h.typeOf hx).same_seq fun t own => ?_
  split
  · exact matches_type own
  · exact h.newType (Interning.steady_array t) fun _ => own

theorem keeps_dot : s.Keeps (.same .type) dot dot := by
  refine keeps_binary fun h _ _ _ _ hx hy => (h.typeOf hx).same_seq fun a own => ?_
  refine (h.typeOf hy).same_seq fun b _ => same_expectFamily.same_seq fun _ _ => ?_
  split
  · exact matches_type own
  · exact matches_fail

/-! ## Records -/

theorem keeps_getAttribute : s.Keeps (.same .type) getAttribute getAttribute := by
  refine keeps_binary fun h _ _ _ _ hx hy => (h.recordAttribute hx hy).same_seq fun found _ => ?_
  cases found with
  | none => exact h.access (.same .type) .named hx hy
  | some found =>
    refine (h.typeOf hx).same_seq fun record own => ?_
    split
    · rename_i t ht
      obtain ⟨c, hc, ht⟩ := Option.bind_eq_some_iff.mp ht
      exact matches_type (ClassDesc.within_attribute? (own.class? hc).1 ht)
    · exact matches_fail

theorem keeps_setAttribute : s.Keeps (.same .type) setAttribute setAttribute := by
  refine keeps_ternary fun h _ _ _ _ _ _ hx hy hz => (h.typeOf hx).same_seq fun record own => ?_
  refine (h.constantOf hy _).same_seq fun key _ => ?_
  cases attributeOf? record key with
  | none => exact matches_fail
  | some declared =>
    refine (h.typeOf hz).same_seq fun actual _ => ?_
    split
    · exact matches_type own
    · exact matches_fail

theorem Level.checkAttributes (h : s.Level k l) (tag : ClassTag) (attributes : List (String × Ty))
    (same : List.Forall₂ s.Names xs xs') :
    k.Same l (fun _ => True) (checkAttributes tag attributes xs)
      (checkAttributes tag attributes xs') := by
  induction same generalizing attributes with
  | nil => cases attributes <;> exact same_done trivial
  | cons first _ ih =>
    cases attributes with
    | nil => exact same_done trivial
    | cons declared attributes =>
      refine (h.typeOf first).same_seq fun actual _ => ?_
      split
      · exact ih attributes
      · exact matches_fail

theorem keeps_makeRecord : s.Keeps (.same .type) makeRecord makeRecord := by
  refine keeps_variadic _ fun h _ _ _ _ hx rest => ?_
  refine (h.typeArgument _ hx).same_seq fun record own => ?_
  cases record.class? with
  | none => exact matches_fail
  | some c =>
    dsimp only
    rw [rest.length_eq]
    split
    · exact matches_fail
    · exact (Level.checkAttributes h c.tag c.attributes rest).same_seq fun _ _ => matches_type own

theorem keeps_registry : registry.All fun _ rule => s.Keeps (.same .type) rule rule :=
  keeps_common
    |>.insertAll _ _ (fun _ _ => keeps_arithmetic)
    |>.insertAll _ _ (fun _ _ => keeps_unaryArithmetic)
    |>.insertAll _ _ (fun _ _ => keeps_comparison)
    |>.insert _ _ keeps_logical
    |>.insertAll _ _ (fun _ _ => keeps_logical)
    |>.insert _ _ keeps_typeOf
    |>.insert _ _ keeps_hasType
    |>.insert _ _ keeps_makeTuple
    |>.insert _ _ keeps_tail
    |>.insert _ _ keeps_tupleGetItem
    |>.insert _ _ keeps_elementGetItem
    |>.insert _ _ keeps_elementGetItem
    |>.insert _ _ keeps_tupleSetItem
    |>.insertAll _ _ (fun _ _ => keeps_elementSetItem)
    |>.insertAll _ _ (fun _ _ => keeps_length)
    |>.insert _ _ keeps_getAttribute
    |>.insert _ _ keeps_setAttribute
    |>.insert _ _ keeps_makeRecord
    |>.insert _ _ keeps_scalarToArray
    |>.insert _ _ keeps_broadcastShape
    |>.insert _ _ keeps_shape
    |>.insert _ _ keeps_arrayMap
    |>.insert _ _ keeps_listMap
    |>.insert _ _ keeps_arrayScan
    |>.insert _ _ keeps_arrayReduce
    |>.insert _ _ keeps_distribute
    |>.insert _ _ keeps_reshape
    |>.insert _ _ keeps_dot
    |>.insert _ _ keeps_scalarCast

end Types

end Sides

end ArrayInference
