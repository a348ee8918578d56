import ArrayInference.Proofs.Extents.Alignment
import ArrayInference.Proofs.Lattice.Combine
import ArrayInference.Proofs.Refining.Rules

/-!
# Shape rules in two runs

Shape rules are monotone: from shapes that say more they find shapes that say more. First the
operations on shapes, then the rules. An extent that the first run takes from the type of a tuple may
be known in the second run, from the value of the tuple.
-/

namespace ArrayInference

/-! ## Operations on shapes -/

theorem exists_mem_of_forall₂ {α β : Type} {R : α → β → Prop} {xs : List α} {ys : List β}
    (h : List.Forall₂ R xs ys) {y : β} (hy : y ∈ ys) : ∃ x ∈ xs, R x y := by
  induction h with
  | nil => cases hy
  | cons first _ ih =>
    rcases List.mem_cons.mp hy with rfl | hy
    · exact ⟨_, List.mem_cons_self, first⟩
    · obtain ⟨x, hx, h⟩ := ih hy
      exact ⟨x, List.mem_cons_of_mem _ hx, h⟩

theorem forall₂_set {α β : Type} {R : α → β → Prop} {xs : List α} {ys : List β} {x : α} {y : β}
    (h : List.Forall₂ R xs ys) (new : R x y) (n : Nat) :
    List.Forall₂ R (xs.set n x) (ys.set n y) := by
  induction h generalizing n with
  | nil => exact .nil
  | cons first rest ih =>
    cases n with
    | zero => exact .cons new rest
    | succ n => exact .cons first (ih n)

namespace Shape

theorem AtMost.attribute? {a b c d : Shape} {name : String} (h : a.AtMost b)
    (left : a.attribute? name = some c) (right : b.attribute? name = some d) : c.AtMost d := by
  cases b with
  | record bs =>
    obtain ⟨as, rfl, each⟩ := atMost_record_iff.mp h
    simp only [Shape.attribute?] at left right
    clear h
    induction each with
    | nil => cases left
    | @cons a b as bs first rest ih =>
      rw [List.lookup_cons, first.1] at left
      rw [List.lookup_cons] at right
      cases hname : name == b.1 with
      | true =>
        simp only [hname, Option.some.injEq] at left right
        exact left ▸ right ▸ first.2
      | false =>
        simp only [hname] at left right
        exact ih right left
  | _ => cases right

end Shape

namespace ShapeRules

open Shape

theorem setFirst_atMost {name : String} {a b : Shape} {as bs : List (String × Shape)}
    (h : List.Forall₂ AttributeAtMost as bs) (new : a.AtMost b) :
    List.Forall₂ AttributeAtMost (setFirst name a as) (setFirst name b bs) := by
  induction h with
  | nil => exact .nil
  | cons first rest ih =>
    simp only [setFirst, first.1]
    split
    · exact .cons ⟨rfl, new⟩ rest
    · exact .cons ⟨rfl, first.2⟩ ih

/-- Arrays of which more is known have more extents in common. -/
theorem combine_atMost {dss ess : List (List Dim)} {ds es : List Dim}
    (h : List.Forall₂ (List.Forall₂ Dim.AtMost) dss ess) (left : combine dss = .ok ds)
    (right : combine ess = .ok es) : (dims ds).AtMost (dims es) := by
  cases h with
  | nil =>
    cases left
    cases right
    exact .refl _
  | cons first rest =>
    refine (combine_eq_ok_iff_isMeet.mp right _).mpr (List.forall_mem_map.mpr fun fs hfs => ?_)
    obtain ⟨gs, hgs, le⟩ := exists_mem_of_forall₂ (.cons first rest) hfs
    exact ((combine_eq_ok_iff_isMeet.mp left).atMost (List.mem_map_of_mem hgs)).trans (.dims le)

/-- The extents of a product are the first of one array and the second of the other. -/
theorem product_eq_ok {as bs ds : List Dim} (h : product as bs = .ok ds) :
    ∃ rows inner facing columns, as = [rows, inner] ∧ bs = [facing, columns]
      ∧ ds = [rows, columns] := by
  rw [product.eq_def] at h
  split at h
  · split at h
    · cases h
      exact ⟨_, _, _, _, rfl, rfl, rfl⟩
    · cases h
  · cases h

theorem product_atMost {as bs cs ds es fs : List Dim} (hx : List.Forall₂ Dim.AtMost as bs)
    (hy : List.Forall₂ Dim.AtMost cs ds) (left : product as cs = .ok es)
    (right : product bs ds = .ok fs) : (dims es).AtMost (dims fs) := by
  obtain ⟨_, _, _, _, rfl, rfl, rfl⟩ := product_eq_ok left
  obtain ⟨_, _, _, _, rfl, rfl, rfl⟩ := product_eq_ok right
  cases hx with
  | cons rows _ =>
    cases hy with
    | cons _ rest =>
      cases rest with
      | cons columns _ => exact .dims (.cons rows (.cons columns .nil))

end ShapeRules

/-- Unknown extents, as many as a tuple has elements, may be any elements of the tuple. -/
theorem Dim.atMost_replicate {items : List Constant} {ds : List Dim} {n : Nat}
    (h : listOfConstant (.tuple items) = .ok ds) (length_eq : items.length = n) :
    List.Forall₂ Dim.AtMost ds (List.replicate n .anything) := by
  obtain ⟨_, ⟨⟩, hlength⟩ := listOfConstant_eq_ok h
  refine List.forall₂_iff_get.mpr ⟨by simp [hlength, length_eq], fun i _ _ => .inl ?_⟩
  simp

namespace Sides

open Book

variable {s : Sides} {k l : Book} {x x' y y' z z' : Ref} {xs xs' : List Ref}

/-! ## What shape rules are made of -/

theorem matches_shape {a a' : Shape} (le : a'.AtMost a) :
    k.Matches l (s.Finer (.same .shape)) (Infer.shape a) (Infer.shape a') :=
  matches_done (.shape le)

theorem Level.arrayDims (h : s.Level k l) (what : String) (hx : s.Names x x') :
    k.Matches l (fun ds ds' => List.Forall₂ Dim.AtMost ds' ds) (Infer.arrayDims x what)
      (Infer.arrayDims x' what) := by
  refine (h.shapeOf hx).seq fun a a' le => ?_
  cases le with
  | dims each => exact matches_done each
  | _ => exact matches_fail

theorem Level.arraysDims (h : s.Level k l) (what : String) (same : List.Forall₂ s.Names xs xs') :
    k.Matches l (fun dss dss' => List.Forall₂ (List.Forall₂ Dim.AtMost) dss' dss)
      (Infer.arraysDims what xs) (Infer.arraysDims what xs') := by
  induction same with
  | nil => exact matches_done .nil
  | cons first _ ih =>
    exact (h.arrayDims what first).seq fun _ _ le => ih.seq fun _ _ les => matches_done (.cons le les)

theorem Level.tupleShapes (h : s.Level k l) (hx : s.Names x x') :
    k.Matches l (fun as as' => List.Forall₂ Shape.AtMost as' as) (Infer.tupleShapes x)
      (Infer.tupleShapes x') := by
  refine (h.shapeOf hx).seq fun a a' le => ?_
  cases a with
  | tuple as =>
    obtain ⟨as', rfl, each⟩ := Shape.atMost_tuple_iff.mp le
    exact matches_done each
  | _ => exact matches_fail

theorem Level.shapesOf (h : s.Level k l) (same : List.Forall₂ s.Names xs xs') :
    k.Matches l (fun as as' => List.Forall₂ Shape.AtMost as' as) (xs.mapM Infer.shapeOf)
      (xs'.mapM Infer.shapeOf) :=
  fun _ _ left right => (matches_mapM same h.shapeOf left right).flip

/-- A tuple of extents of which only the second run knows the value has as many of them as its type
says. -/
theorem Level.targetDims (h : s.Level k l) (hx : s.Names x x') :
    k.Matches l (fun ds ds' => List.Forall₂ Dim.AtMost ds' ds) (Infer.targetDims x)
      (Infer.targetDims x') := by
  intro ds ds' left right
  obtain ⟨a, ha, left⟩ := finds_seq.mp left
  obtain ⟨a', ha', right⟩ := finds_seq.mp right
  rcases h.valueOf hx ha ha' with rfl | ⟨c, rfl, rfl, -⟩
  · obtain ⟨t, ht, left⟩ := finds_seq.mp left
    cases helements : t.elements? with
    | none =>
      simp only [helements] at left
      exact left.elim
    | some es =>
      simp only [helements] at left
      obtain rfl : ds = List.replicate es.length .anything := left
      cases a' with
      | anything =>
        obtain ⟨t', ht', right⟩ := finds_seq.mp right
        obtain ⟨rfl, -⟩ := h.typeOf hx ht ht'
        simp only [helements] at right
        obtain rfl : ds' = _ := right
        exact List.forall₂_same.mpr fun _ _ => .refl _
      | known c =>
        have known := Ledger.yields_known.mp ha'.yields
        have found := finds_ofExcept right
        obtain ⟨items, rfl, -⟩ := Dim.listOfConstant_eq_ok found
        exact Dim.atMost_replicate found ((h.inhabits hx ht.yields known).of_tuple helements).1
  · cases (finds_ofExcept left).symm.trans (finds_ofExcept right)
    exact List.forall₂_same.mpr fun _ _ => .refl _

namespace Shapes

open ShapeRules

/-! ## Tuples and lists -/

theorem keeps_makeTuple : s.Keeps (.same .shape) makeTuple makeTuple :=
  fun _ _ h _ _ same => (h.shapesOf same).seq fun _ _ each =>
    matches_shape (Shape.atMost_tuple_iff.mpr ⟨_, rfl, each⟩)

theorem keeps_tail : s.Keeps (.same .shape) tail tail := by
  refine keeps_unary fun h _ _ hx => (h.tupleShapes hx).seq fun as as' each => ?_
  cases each with
  | nil => exact matches_fail
  | cons _ rest => exact matches_shape (Shape.atMost_tuple_iff.mpr ⟨_, rfl, rest⟩)

theorem keeps_tupleGetItem : s.Keeps (.same .shape) tupleGetItem tupleGetItem := by
  refine keeps_binary fun h _ _ _ _ hx hy => (h.constantOf hy _).same_seq fun index _ => ?_
  refine (h.tupleShapes hx).seq fun as as' each => ?_
  refine Matches.seq (R := fun a a' => a'.AtMost a) (matches_ofExcept fun a a' ha ha' => ?_)
    fun _ _ => matches_shape
  obtain ⟨n, hn, hn'⟩ := Ledger.tupleItem_position ha ha' each.length_eq.symm
  exact forall₂_getElem? each hn' hn

theorem keeps_tupleSetItem : s.Keeps (.same .shape) tupleSetItem tupleSetItem := by
  refine keeps_ternary fun h _ _ _ _ _ _ hx hy hz => (h.constantOf hy _).same_seq fun index _ => ?_
  refine (h.tupleShapes hx).seq fun as as' each => ?_
  rw [each.length_eq]
  refine matches_ofExcept_seq fun n => ?_
  exact (h.shapeOf hz).seq fun _ _ le =>
    matches_shape (Shape.atMost_tuple_iff.mpr ⟨_, rfl, forall₂_set each le n⟩)

theorem keeps_listGetItem : s.Keeps (.same .shape) listGetItem listGetItem :=
  keeps_binary fun h _ _ _ _ hx _ => (h.shapeOf hx).seq fun _ _ le =>
    Matches.seq (R := fun a a' => a'.AtMost a) (matches_ofExcept fun _ _ ha ha' => le.toElement ha' ha)
      fun _ _ => matches_shape

/-- A container keeps its shape. -/
theorem Level.keepShape (h : s.Level k l) (hx : s.Names x x') :
    k.Matches l (s.Finer (.same .shape)) (Infer.shapeOf x >>= Infer.shape)
      (Infer.shapeOf x' >>= Infer.shape) :=
  (h.shapeOf hx).seq fun _ _ => matches_shape

theorem keeps_elementSetItem : s.Keeps (.same .shape) elementSetItem elementSetItem :=
  keeps_ternary fun h _ _ _ _ _ _ hx _ _ => Level.keepShape h hx

theorem keeps_listMap : s.Keeps (.same .shape) listMap listMap := by
  refine keeps_variadic _ fun h _ _ _ _ hf rest => (h.inferrerOf (.same .shape) hf).seq fun f f' kin => ?_
  refine (h.callInferrer kin (names_elements rest)).seq fun p p' finer => ?_
  refine Matches.seq (R := fun a a' => a'.AtMost a) (matches_ofExcept fun a a' ha ha' => ?_)
    fun a a' le => matches_shape (.list le)
  cases p <;> cases ha
  obtain ⟨_, rfl, le⟩ := finer.of_shape
  cases ha'
  exact le

/-! ## Records -/

theorem Level.attributeShapes (h : s.Level k l) (attributes : List (String × Ty))
    (same : List.Forall₂ s.Names xs xs') :
    k.Matches l (fun as as' => List.Forall₂ Shape.AttributeAtMost as' as)
      (attributeShapes attributes xs) (attributeShapes attributes xs') := by
  induction same generalizing attributes with
  | nil => cases attributes <;> exact matches_done .nil
  | cons first _ ih =>
    cases attributes with
    | nil => exact matches_done .nil
    | cons declared attributes =>
      exact (h.shapeOf first).seq fun _ _ le => (ih attributes).seq fun _ _ les =>
        matches_done (.cons ⟨rfl, le⟩ les)

theorem keeps_makeRecord : s.Keeps (.same .shape) makeRecord makeRecord := by
  refine keeps_variadic _ fun h _ _ _ _ hx rest => (h.constantOf hx _).same_seq fun key _ => ?_
  cases recordClass? key with
  | none => exact matches_fail
  | some c =>
    dsimp only
    rw [rest.length_eq]
    split
    · exact matches_fail
    · exact (Level.attributeShapes h c.attributes rest).seq fun _ _ each =>
        matches_shape (Shape.atMost_record_iff.mpr ⟨_, rfl, each⟩)

theorem keeps_getAttribute : s.Keeps (.same .shape) getAttribute getAttribute := by
  refine keeps_binary fun h _ _ _ _ hx hy => (h.recordAttribute hx hy).same_seq fun found _ => ?_
  cases found with
  | none => exact h.access (.same .shape) .named hx hy
  | some found =>
    refine (h.shapeOf hx).seq fun a a' le => ?_
    split
    · rename_i b hb
      split
      · rename_i b' hb'
        exact matches_shape (le.attribute? hb' hb)
      · exact matches_fail_right
    · exact matches_fail

theorem keeps_setAttribute : s.Keeps (.same .shape) setAttribute setAttribute := by
  refine keeps_ternary fun h _ _ _ _ _ _ hx hy hz => (h.constantOf hy _).same_seq fun key _ => ?_
  cases key.str? with
  | none => exact matches_fail
  | some name =>
    refine (h.shapeOf hx).seq fun a a' le => ?_
    cases a with
    | record as =>
      obtain ⟨as', rfl, each⟩ := Shape.atMost_record_iff.mp le
      dsimp only
      split
      · split
        · exact (h.shapeOf hz).seq fun _ _ new =>
            matches_shape (Shape.atMost_record_iff.mpr ⟨_, rfl, setFirst_atMost each new⟩)
        · exact matches_fail_right
      · exact matches_fail
    | _ => exact matches_fail

/-! ## Arrays -/

theorem keeps_scalarToArray : s.Keeps (.same .shape) scalarToArray scalarToArray :=
  keeps_unary fun _ _ _ _ => matches_shape (.refl _)

theorem keeps_shape : s.Keeps (.same .shape) shape shape := by
  refine keeps_unary fun h _ _ hx => (h.arrayDims _ hx).seq fun ds ds' each => ?_
  rw [each.length_eq]
  exact matches_shape (.refl _)

theorem Level.extentsCount (h : s.Level k l) (hx : s.Names x x') :
    k.Same l (fun _ => True) (extentsCount x) (extentsCount x') := by
  refine (h.typeOf hx).same_seq fun t _ => ?_
  cases t.elements? with
  | some es => exact same_done trivial
  | none => exact matches_fail

theorem keeps_broadcastShape : s.Keeps (.same .shape) broadcastShape broadcastShape :=
  keeps_binary fun h _ _ _ _ hx hy => (Level.extentsCount h hx).same_seq fun _ _ =>
    (Level.extentsCount h hy).same_seq fun _ _ => matches_shape (.refl _)

theorem keeps_arrayMap : s.Keeps (.same .shape) arrayMap arrayMap :=
  keeps_variadic _ fun h _ _ _ _ _ rest => (h.arraysDims _ rest).seq fun _ _ each =>
    Matches.seq (R := fun ds ds' => (Shape.dims ds').AtMost (.dims ds))
      (matches_ofExcept fun _ _ left right => combine_atMost each right left)
      fun _ _ => matches_shape

theorem keeps_arrayScan : s.Keeps (.same .shape) arrayScan arrayScan :=
  keeps_quaternary fun h _ _ _ _ _ _ _ _ _ _ ha _ => Level.keepShape h ha

theorem keeps_arrayReduce : s.Keeps (.same .shape) arrayReduce arrayReduce := by
  refine keeps_ternary fun h _ _ _ _ _ _ _ ha hs => (h.valueOf hs).seq fun v v' same => ?_
  rcases same with rfl | ⟨c, rfl, rfl, -⟩
  · exact matches_fail
  · refine matches_ofExcept_seq fun target => ?_
    refine (h.arrayDims _ ha).seq fun source source' _ => ?_
    refine Matches.seq (R := fun ds ds' => (Shape.dims ds').AtMost (.dims ds))
      (matches_ofExcept fun ds ds' left right => ?_) fun _ _ => matches_shape
    rw [(reduceTo_eq_ok_iff.mp left).1, (reduceTo_eq_ok_iff.mp right).1]
    exact .refl _

theorem keeps_distribute : s.Keeps (.same .shape) distribute distribute := by
  refine keeps_binary fun h _ _ _ _ hx hs => (h.targetDims hs).seq fun target target' each => ?_
  refine (h.typeOf hx).same_seq fun t _ => ?_
  split
  · refine (h.arrayDims _ hx).seq fun source source' _ => ?_
    refine Matches.seq (R := fun ds ds' => (Shape.dims ds').AtMost (.dims ds))
      (matches_ofExcept fun ds ds' left right => ?_) fun _ _ => matches_shape
    rw [(distributeTo_eq_ok_iff.mp left).1, (distributeTo_eq_ok_iff.mp right).1]
    exact .dims each
  · exact matches_shape (.dims each)

/-- Whether the element counts are compared or not, the shape that is found is the target. -/
theorem exists_of_finds_reshape {p : Property} (h : k.Finds (reshape .shape [x, y]) p) :
    ∃ target, k.Finds (Infer.targetDims y) target ∧ p = .shape (.dims target) := by
  obtain ⟨target, found, h⟩ := finds_seq.mp h
  obtain ⟨source, -, h⟩ := finds_seq.mp h
  refine ⟨target, found, ?_⟩
  split at h
  · split at h
    · exact h
    · exact h.elim
  · obtain ⟨_, -, h⟩ := finds_seq.mp h
    obtain ⟨_, -, h⟩ := finds_seq.mp h
    exact h

theorem keeps_reshape : s.Keeps (.same .shape) reshape reshape := by
  refine keeps_binary fun h _ _ _ _ _ hs p p' left right => ?_
  obtain ⟨target, found, rfl⟩ := exists_of_finds_reshape left
  obtain ⟨target', found', rfl⟩ := exists_of_finds_reshape right
  exact .shape (.dims (h.targetDims hs found found'))

theorem keeps_dot : s.Keeps (.same .shape) dot dot :=
  keeps_binary fun h _ _ _ _ hx hy => (h.arrayDims _ hx).seq fun _ _ each =>
    (h.arrayDims _ hy).seq fun _ _ each' =>
      Matches.seq (R := fun ds ds' => (Shape.dims ds').AtMost (.dims ds))
        (matches_ofExcept fun _ _ left right => product_atMost each each' right left)
        fun _ _ => matches_shape

theorem keeps_registry : registry.All fun _ rule => s.Keeps (.same .shape) rule rule :=
  keeps_common
    |>.insert _ _ keeps_makeTuple
    |>.insert _ _ keeps_tail
    |>.insert _ _ keeps_tupleGetItem
    |>.insert _ _ keeps_tupleSetItem
    |>.insert _ _ keeps_listGetItem
    |>.insertAll _ _ (fun _ _ => keeps_elementSetItem)
    |>.insert _ _ keeps_makeRecord
    |>.insert _ _ keeps_getAttribute
    |>.insert _ _ keeps_setAttribute
    |>.insert _ _ keeps_scalarToArray
    |>.insert _ _ keeps_shape
    |>.insert _ _ keeps_broadcastShape
    |>.insert _ _ keeps_arrayMap
    |>.insert _ _ keeps_listMap
    |>.insert _ _ keeps_arrayScan
    |>.insert _ _ keeps_arrayReduce
    |>.insert _ _ keeps_distribute
    |>.insert _ _ keeps_reshape
    |>.insert _ _ keeps_dot

end Shapes

end Sides

end ArrayInference
