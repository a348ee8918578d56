import ArrayInference.Proofs.Lockstep.Uniform
import ArrayInference.Proofs.Refining.Reading

/-!
# Value rules in two runs

What the rules find that all tracks share is related in two runs, on every track. So is what value
rules find: a value that the first run knows is known to the second one. And a value that the second
run knows has the type that the first one finds.
-/

namespace ArrayInference

/-- Nothing is left to learn of extents that are all known. -/
theorem Dim.eq_map_known_of_forall₂ {es : List Dim} {ns : List UInt64}
    (h : List.Forall₂ Dim.AtMost es (ns.map .known)) : es = ns.map .known := by
  rw [List.forall₂_map_right_iff] at h
  induction h with
  | nil => rfl
  | cons first _ ih =>
    rcases first with first | rfl
    · cases first
    · rw [ih, List.map_cons]

namespace Sides

open Book

variable {s : Sides} {k l : Book} {m : Facet} {x x' y y' z z' : Ref} {xs xs' : List Ref}

/-- Rules that find related properties for the same arguments. -/
def Keeps (s : Sides) (m : Facet) (rule rule' : Rule) : Prop :=
  ∀ ⦃k l : Book⦄, s.Level k l → ∀ ⦃xs xs' : List Ref⦄, List.Forall₂ s.Names xs xs' →
    k.Matches l (s.Finer m) (rule m.left xs) (rule' m.right xs')

/-! ## Rules by their number of arguments -/

theorem keeps_unary {rule : Track → Ref → Infer Property}
    (h : ∀ {k l : Book}, s.Level k l → ∀ {x x' : Ref}, s.Names x x' →
      k.Matches l (s.Finer m) (rule m.left x) (rule m.right x')) :
    s.Keeps m (Rule.unary rule) (Rule.unary rule) := by
  intro k l level xs xs' same
  rcases same with _ | ⟨hx, _ | ⟨hy, rest⟩⟩
  · exact matches_fail
  · exact h level hx
  · exact matches_fail

theorem keeps_binary {rule : Track → Ref → Ref → Infer Property}
    (h : ∀ {k l : Book}, s.Level k l → ∀ {x x' y y' : Ref}, s.Names x x' → s.Names y y' →
      k.Matches l (s.Finer m) (rule m.left x y) (rule m.right x' y')) :
    s.Keeps m (Rule.binary rule) (Rule.binary rule) := by
  intro k l level xs xs' same
  rcases same with _ | ⟨hx, _ | ⟨hy, _ | ⟨hz, rest⟩⟩⟩
  · exact matches_fail
  · exact matches_fail
  · exact h level hx hy
  · exact matches_fail

theorem keeps_ternary {rule : Track → Ref → Ref → Ref → Infer Property}
    (h : ∀ {k l : Book}, s.Level k l → ∀ {x x' y y' z z' : Ref}, s.Names x x' → s.Names y y' →
      s.Names z z' → k.Matches l (s.Finer m) (rule m.left x y z) (rule m.right x' y' z')) :
    s.Keeps m (Rule.ternary rule) (Rule.ternary rule) := by
  intro k l level xs xs' same
  rcases same with _ | ⟨hx, _ | ⟨hy, _ | ⟨hz, _ | ⟨hu, rest⟩⟩⟩⟩
  · exact matches_fail
  · exact matches_fail
  · exact matches_fail
  · exact h level hx hy hz
  · exact matches_fail

theorem keeps_quaternary {rule : Track → Ref → Ref → Ref → Ref → Infer Property}
    (h : ∀ {k l : Book}, s.Level k l → ∀ {x x' y y' z z' u u' : Ref}, s.Names x x' →
      s.Names y y' → s.Names z z' → s.Names u u' →
        k.Matches l (s.Finer m) (rule m.left x y z u) (rule m.right x' y' z' u')) :
    s.Keeps m (Rule.quaternary rule) (Rule.quaternary rule) := by
  intro k l level xs xs' same
  rcases same with _ | ⟨hx, _ | ⟨hy, _ | ⟨hz, _ | ⟨hu, _ | ⟨hv, rest⟩⟩⟩⟩⟩
  · exact matches_fail
  · exact matches_fail
  · exact matches_fail
  · exact matches_fail
  · exact h level hx hy hz hu
  · exact matches_fail

theorem keeps_variadic (missing : String) {rule : Track → Ref → List Ref → Infer Property}
    (h : ∀ {k l : Book}, s.Level k l → ∀ {x x' : Ref} {rest rest' : List Ref}, s.Names x x' →
      List.Forall₂ s.Names rest rest' →
        k.Matches l (s.Finer m) (rule m.left x rest) (rule m.right x' rest')) :
    s.Keeps m (Rule.variadic missing rule) (Rule.variadic missing rule) := by
  intro k l level xs xs' same
  cases same with
  | nil => exact matches_fail
  | cons hx rest => exact h level hx rest

/-! ## What the rules share -/

theorem Level.access (h : s.Level k l) (m : Facet) (how : Access) (hx : s.Names x x')
    (hy : s.Names y y') :
    k.Matches l (s.Finer m) (Infer.access how m.left x y) (Infer.access how m.right x' y') := by
  intro p p' left right
  obtain ⟨name, hname, t, ht, left⟩ := Ledger.yields_access.mp left.yields
  obtain ⟨name', hname', t', ht', right⟩ := Ledger.yields_access.mp right.yields
  obtain ⟨⟨⟩, -⟩ := h.known hy hname hname'
  obtain ⟨rfl, own⟩ := h.toReads.typeOf hx ht ht'
  rcases left with ⟨g, f₁, f, hg, inner, callable, rfl⟩ | ⟨none, c, found, hc, hfound, holds⟩
  · rcases right with ⟨g', f₁', f', hg', inner', callable', rfl⟩ | ⟨none, -⟩
    · cases hg.symm.trans hg'
      have method := Infer.within_methodOf? own hg
      exact .inferrer (.bound (.graph method .empty (h.left ▸ inner) (h.right ▸ inner'))
        (.cons hx .nil) (h.left ▸ callable) (h.right ▸ callable'))
    · cases hg.symm.trans none
  · rcases right with ⟨g', _, _, hg', -⟩ | ⟨-, c', found', hc', hfound', holds'⟩
    · cases none.symm.trans hg'
    · obtain ⟨⟨⟩, own⟩ := h.known hx hc hc'
      cases hfound.symm.trans hfound'
      exact h.holds (Access.within_find? own hfound) (.inr .empty) holds holds'

theorem Level.recordAttribute (h : s.Level k l) (hx : s.Names x x') (hy : s.Names y y') :
    k.Same l (fun _ => True) (Infer.recordAttribute x y) (Infer.recordAttribute x' y') := by
  refine (h.typeOf hx).same_seq fun t _ => ?_
  cases t.class? with
  | none => exact same_done trivial
  | some c =>
    refine (h.constantOf hy _).same_seq fun name _ => ?_
    cases name.str? with
    | none => exact matches_fail
    | some name => exact same_done trivial

theorem Level.branch (h : s.Level k l) (m : Facet) (use : BranchUse) (hx : s.Names x x') :
    k.Matches l (s.Finer m) (Infer.branch m.left use x) (Infer.branch m.right use x') := by
  refine (h.get m hx).seq fun p p' finer => ?_
  cases use with
  | select => exact matches_done finer
  | call =>
    refine Matches.seq (R := s.Kin m) (matches_ofExcept fun f f' hf hf' => ?_)
      fun f f' kin => h.callInferrer kin .nil
    cases p <;> cases hf
    cases p' <;> cases hf'
    exact finer.kin

/-- How a conditional comes out: by its condition, as an unknown value, or undecided. -/
inductive Outcomes (k : Book) (use : BranchUse) (x y z : Ref) : Track → Property → Prop where
  | decided {track : Track} {p : Property} {taken : Bool} (known : k.Knows k.calls x (.bool taken))
      (branch : k.Finds (Infer.branch track use (if taken then y else z)) p) :
      Outcomes k use x y z track p
  | unknown (condition : k.Finds (Infer.valueOf x) .anything) :
      Outcomes k use x y z .value (.value .anything)
  | undecided {track : Track} {p : Property} (condition : k.Finds (Infer.valueOf x) .anything)
      (other : track ≠ .value) (verdict : k.verdicts track use y z p) : Outcomes k use x y z track p

theorem outcomes_of_conditional {use : BranchUse} {track : Track} {p : Property}
    (h : k.Finds (Infer.conditional use track x y z) p) : Outcomes k use x y z track p := by
  obtain ⟨a, condition, h⟩ := finds_seq.mp h
  cases a with
  | known c =>
    cases c with
    | bool taken =>
      obtain ⟨_, -, h⟩ := finds_seq.mp h
      obtain ⟨_, -, h⟩ := finds_seq.mp h
      exact .decided (Ledger.yields_known.mp condition.yields) h
    | _ => exact h.elim
  | anything =>
    cases track with
    | value =>
      obtain rfl : p = _ := h
      exact .unknown condition
    | type | shape =>
      obtain ⟨_, verdict, rfl⟩ := h
      exact .undecided condition (by simp) verdict

theorem Level.chosen (h : s.Level k l) (m : Facet) (use : BranchUse) (hy : s.Names y y')
    (hz : s.Names z z') (taken : Bool) :
    k.Matches l (s.Finer m) (Infer.branch m.left use (if taken then y else z))
      (Infer.branch m.right use (if taken then y' else z')) := by
  cases taken with
  | true => exact h.branch m use hy
  | false => exact h.branch m use hz

/-- A condition that the first run knows is known to the second one. -/
theorem Level.not_unknown (h : s.Level k l) (hx : s.Names x x') {c : Constant}
    (known : k.Knows k.calls x c) : ¬ l.Finds (Infer.valueOf x') .anything := by
  intro unknown
  obtain ⟨q, hq, anything⟩ := Ledger.yields_valueOf.mp unknown.yields
  obtain ⟨rfl, -⟩ := h.known hx known hq
  cases anything

theorem Level.conditional (h : s.Level k l) (m : Facet) (use : BranchUse) (hx : s.Names x x')
    (hy : s.Names y y') (hz : s.Names z z') :
    k.Matches l (s.Finer m) (Infer.conditional use m.left x y z)
      (Infer.conditional use m.right x' y' z') := by
  intro p p' left right
  have chosen := h.chosen m use hy hz
  generalize hl : m.left = t at left
  generalize hr : m.right = t' at right
  cases outcomes_of_conditional left with
  | decided known branch =>
    subst hl
    cases outcomes_of_conditional right with
    | decided known' branch' =>
      subst hr
      obtain ⟨⟨⟩, -⟩ := h.known hx known known'
      exact chosen _ branch branch'
    | unknown condition => exact absurd condition (h.not_unknown hx known)
    | undecided condition => exact absurd condition (h.not_unknown hx known)
  | unknown =>
    cases m with
    | typed => cases hl
    | same t =>
      subst hl
      exact .anything p'
  | undecided _ other verdict =>
    subst hl
    obtain ⟨⟨q, first, below⟩, ⟨r, second, below'⟩⟩ := h.both verdict
    cases outcomes_of_conditional right with
    | @decided _ _ taken _ branch' =>
      subst hr
      cases taken
      · exact (chosen false second branch').of_below below'
      · exact (chosen true first branch').of_below below
    | unknown =>
      cases m with
      | typed => exact .unknown p
      | same t => exact absurd hr other
    | undecided _ _ verdict' =>
      subst hr
      rcases h.either verdict' with branch' | branch'
      · exact (chosen true first branch').of_below below
      · exact (chosen false second branch').of_below below'

/-! ## The rules of all tracks -/

theorem keeps_passThrough : s.Keeps m Rule.passThrough Rule.passThrough :=
  keeps_unary fun h _ _ hx => h.get m hx

theorem keeps_partially : s.Keeps m Rule.partially Rule.partially :=
  keeps_variadic _ fun h _ _ _ _ hf rest =>
    (h.inferrerOf m hf).seq fun _ _ kin => h.bindArguments kin rest

theorem keeps_ifElse : s.Keeps m Rule.ifElse Rule.ifElse :=
  keeps_ternary fun h _ _ _ _ _ _ hc hx hy => h.conditional m .call hc hx hy

theorem keeps_switch : s.Keeps m Rule.switch Rule.switch :=
  keeps_ternary fun h _ _ _ _ _ _ hc hx hy => h.conditional m .select hc hx hy

theorem keeps_resolve : s.Keeps m Rule.resolve Rule.resolve :=
  keeps_binary fun h _ _ _ _ hx hy => h.access m .keyed hx hy

theorem keeps_common : Rule.common.All fun _ rule => s.Keeps m rule rule :=
  Registry.all_empty (P := fun _ rule => s.Keeps m rule rule)
    |>.insert _ _ keeps_ifElse
    |>.insert _ _ keeps_switch
    |>.insert _ _ keeps_partially
    |>.insertAll _ _ (fun _ _ => keeps_passThrough)
    |>.insert _ _ keeps_resolve

/-! ## Values -/

theorem matches_unknown {b : Infer Property} :
    k.Matches l (s.Finer (.same .value)) Infer.unknown b := by
  rintro _ p' rfl -
  exact .anything p'

theorem matches_known {c : Constant} (own : c.Within s.program.Has) :
    k.Matches l (s.Finer (.same .value)) (Infer.known c) (Infer.known c) :=
  matches_done (.known own)

theorem matches_folded {c : Option Constant} (own : ∀ d, c = some d → d.Within s.program.Has) :
    k.Matches l (s.Finer (.same .value)) (Infer.folded c) (Infer.folded c) := by
  cases c with
  | none => exact matches_unknown
  | some d => exact matches_known (own d rfl)

/-- What a rule does with a value that it does not know is of no interest. -/
theorem Level.valueOf_seq (h : s.Level k l) (hx : s.Names x x') {f f' : Value → Infer Property}
    (known : ∀ c, c.Within s.program.Has →
      k.Matches l (s.Finer (.same .value)) (f (.known c)) (f' (.known c)))
    (unknown : f .anything = Infer.unknown) :
    k.Matches l (s.Finer (.same .value)) (Infer.valueOf x >>= f) (Infer.valueOf x' >>= f') := by
  refine (h.valueOf hx).seq fun a a' same => ?_
  rcases same with rfl | ⟨c, rfl, rfl, own⟩
  · rw [unknown]
    exact matches_unknown
  · exact known c own

theorem Level.knownValues (h : s.Level k l) (same : List.Forall₂ s.Names xs xs') :
    k.Matches l (fun cs cs' => cs = none ∨ ∃ ds : List Constant, cs = some ds ∧ cs' = some ds
      ∧ ∀ d ∈ ds, d.Within s.program.Has) (Infer.knownValues xs) (Infer.knownValues xs') := by
  induction same with
  | nil => exact matches_done (.inr ⟨[], rfl, rfl, by simp⟩)
  | cons first _ ih =>
    refine (h.valueOf first).seq fun a a' same => ?_
    rcases same with rfl | ⟨c, rfl, rfl, own⟩
    · rintro _ _ rfl -
      exact .inl rfl
    · refine ih.seq fun cs cs' rest => matches_done ?_
      rcases rest with rfl | ⟨ds, rfl, rfl, owns⟩
      · exact .inl rfl
      · exact .inr ⟨c :: ds, rfl, rfl, List.forall_mem_cons.mpr ⟨own, owns⟩⟩

theorem Level.fold₂ (h : s.Level k l) (hx : s.Names x x') (hy : s.Names y y')
    {op : Constant → Constant → Infer Property}
    (known : ∀ a b : Constant, a.Within s.program.Has → b.Within s.program.Has →
      k.Matches l (s.Finer (.same .value)) (op a b) (op a b)) :
    k.Matches l (s.Finer (.same .value)) (Infer.fold₂ x y op) (Infer.fold₂ x' y' op) := by
  refine (h.knownValues (.cons hx (.cons hy .nil))).seq fun cs cs' same => ?_
  rcases same with rfl | ⟨ds, rfl, rfl, own⟩
  · exact matches_unknown
  · match ds with
    | [a, b] => exact known a b (own a (by simp)) (own b (by simp))
    | [] | [_] | _ :: _ :: _ :: _ => exact matches_unknown

theorem keeps_foldUnary {op : Constant → Option Constant}
    (scalar : ∀ {c d}, op c = some d → d.Scalar) :
    s.Keeps (.same .value) (Rule.foldUnary op) (Rule.foldUnary op) :=
  keeps_unary fun h _ _ hx => h.valueOf_seq hx
    (fun _ _ => matches_folded fun _ hd => (scalar hd).within) rfl

theorem keeps_foldBinary {op : Constant → Constant → Option Constant}
    (scalar : ∀ {a b d}, op a b = some d → d.Scalar) :
    s.Keeps (.same .value) (Rule.foldBinary op) (Rule.foldBinary op) :=
  keeps_binary fun h _ _ _ _ hx hy => h.fold₂ hx hy fun _ _ _ _ =>
    matches_folded fun _ hd => (scalar hd).within

namespace Values

open ValueRules

theorem keeps_typeOf : s.Keeps (.same .value) typeOf typeOf :=
  keeps_unary fun h _ _ hx => (h.typeOf hx).same_seq fun _ own => matches_known own

theorem keeps_hasType : s.Keeps (.same .value) hasType hasType := by
  refine keeps_binary fun h _ _ _ _ hx hy => h.valueOf_seq hy (fun c _ => ?_) rfl
  cases c with
  | type expected =>
    exact (h.typeOf hx).same_seq fun _ _ => matches_known (Constant.Scalar.bool _).within
  | _ => exact matches_unknown

theorem keeps_makeTuple : s.Keeps (.same .value) makeTuple makeTuple := by
  refine fun k l h xs xs' same => (h.knownValues same).seq fun cs cs' known => ?_
  rcases known with rfl | ⟨ds, rfl, rfl, own⟩
  · exact matches_unknown
  · exact matches_known (Constant.within_tuple.mpr own)

theorem keeps_tail : s.Keeps (.same .value) tail tail := by
  refine keeps_unary fun h _ _ hx => h.valueOf_seq hx (fun c own => ?_) rfl
  split
  · exact matches_fail
  · rename_i same
    cases same
    rw [Constant.within_tuple, List.forall_mem_cons] at own
    exact matches_known (Constant.within_tuple.mpr own.2)
  · exact matches_unknown

theorem keeps_tupleGetItem : s.Keeps (.same .value) tupleGetItem tupleGetItem := by
  refine keeps_binary fun h _ _ _ _ hx hy => (h.constantOf hy _).same_seq fun index _ =>
    h.valueOf_seq hx (fun c own => ?_) rfl
  cases c with
  | tuple items =>
    have owns := Constant.within_tuple.mp own
    exact (same_ofExcept fun item hitem => owns item (Rule.mem_of_tupleItem hitem)).same_seq
      fun item own => h.constant (.same .value) own
  | _ => exact matches_unknown

theorem keeps_listGetItem : s.Keeps (.same .value) listGetItem listGetItem := by
  refine keeps_binary fun h _ _ _ _ hx hy => h.fold₂ hx hy fun items index own _ => ?_
  cases hitem : items.item? index with
  | none => exact matches_fail
  | some item => exact h.constant (.same .value) (own.item? hitem)

theorem keeps_tupleLen : s.Keeps (.same .value) tupleLen tupleLen := by
  refine keeps_unary fun h _ _ hx => (h.typeOf hx).same_seq fun t _ => ?_
  cases t.elements? with
  | some es => exact matches_known (Constant.Scalar.int _).within
  | none => exact matches_unknown

theorem keeps_listLen : s.Keeps (.same .value) listLen listLen := by
  refine keeps_unary fun h _ _ hx => h.valueOf_seq hx (fun c _ => ?_) rfl
  cases c with
  | list items => exact matches_known (Constant.Scalar.int _).within
  | _ => exact matches_unknown

/-- An extent that the first run knows is known to the second one. -/
theorem keeps_arrayLen : s.Keeps (.same .value) arrayLen arrayLen := by
  refine keeps_unary fun h _ _ hx => (h.shapeOf hx).seq fun a a' le => ?_
  cases le with
  | @dims ds es each =>
    cases each with
    | nil => exact matches_fail
    | @cons d e _ _ first =>
      cases e with
      | anything => exact matches_unknown
      | known n =>
        rcases first with first | rfl
        · cases first
        · exact matches_known (Constant.Scalar.int _).within
  | _ => exact matches_unknown

theorem keeps_shape : s.Keeps (.same .value) shape shape := by
  refine keeps_unary fun h _ _ hx => (h.shapeOf hx).seq fun a a' le => ?_
  cases hfold : a.dims?.bind Dim.listToConstant? with
  | none => exact matches_unknown
  | some c =>
    obtain ⟨ds, hds, hc⟩ := Option.bind_eq_some_iff.mp hfold
    obtain ⟨ns, rfl, -⟩ := Dim.listToConstant?_eq_some_iff.mp hc
    cases a <;> cases hds
    cases le with
    | dims each =>
      rw [Dim.eq_map_known_of_forall₂ each, ← hfold]
      exact matches_folded fun d hd => Dim.within_listToConstant? hd

theorem keeps_broadcastShape : s.Keeps (.same .value) broadcastShape broadcastShape := by
  refine keeps_binary fun h _ _ _ _ hx hy => h.fold₂ hx hy fun a b _ _ => ?_
  refine matches_ofExcept_seq fun ds => ?_
  refine matches_ofExcept_seq fun es => ?_
  cases broadcastDims ds es with
  | none => exact matches_fail
  | some merged => exact matches_folded fun _ hc => Dim.within_listToConstant? hc

theorem keeps_getAttribute : s.Keeps (.same .value) getAttribute getAttribute := by
  refine keeps_binary fun h _ _ _ _ hx hy => (h.recordAttribute hx hy).same_seq fun found _ => ?_
  cases found with
  | none => exact h.access (.same .value) .named hx hy
  | some found => exact h.valueOf_seq hx (fun _ _ => h.access (.same .value) .named hx hy) rfl

theorem keeps_scalarCast : s.Keeps (.same .value) scalarCast scalarCast := by
  refine keeps_binary fun h _ _ _ _ hx hy => h.fold₂ hx hy fun value target _ _ => ?_
  cases target with
  | type t => exact matches_folded fun _ hd => (Constant.scalar_cast hd).within
  | _ => exact matches_fail

theorem keeps_registry : registry.All fun _ rule => s.Keeps (.same .value) rule rule :=
  keeps_common
    |>.insert _ _ (keeps_foldBinary Constant.scalar_arithmetic)
    |>.insert _ _ (keeps_foldBinary Constant.scalar_arithmetic)
    |>.insert _ _ (keeps_foldBinary Constant.scalar_arithmetic)
    |>.insert _ _ (keeps_foldBinary Constant.scalar_arithmetic)
    |>.insert _ _ (keeps_foldBinary Constant.scalar_arithmetic)
    |>.insert _ _ (keeps_foldBinary Constant.scalar_arithmetic)
    |>.insert _ _ (keeps_foldUnary Constant.scalar_plus)
    |>.insert _ _ (keeps_foldUnary Constant.scalar_minus)
    |>.insert _ _ (keeps_foldUnary Constant.scalar_onFloat)
    |>.insert _ _ (keeps_foldUnary Constant.scalar_onFloat)
    |>.insert _ _ (keeps_foldUnary Constant.scalar_onFloat)
    |>.insert _ _ (keeps_foldUnary Constant.scalar_onFloat)
    |>.insert _ _ (keeps_foldUnary Constant.scalar_onFloat)
    |>.insert _ _ (keeps_foldBinary Constant.scalar_compareBy)
    |>.insert _ _ (keeps_foldBinary Constant.scalar_compareBy)
    |>.insert _ _ (keeps_foldBinary Constant.scalar_compareBy)
    |>.insert _ _ (keeps_foldBinary Constant.scalar_compareBy)
    |>.insert _ _ (keeps_foldBinary Constant.scalar_compareBy)
    |>.insert _ _ (keeps_foldBinary Constant.scalar_compareBy)
    |>.insert _ _ (keeps_foldUnary Constant.scalar_not)
    |>.insert _ _ (keeps_foldBinary Constant.scalar_logical)
    |>.insert _ _ (keeps_foldBinary Constant.scalar_logical)
    |>.insert _ _ keeps_typeOf
    |>.insert _ _ keeps_hasType
    |>.insert _ _ keeps_makeTuple
    |>.insert _ _ keeps_tail
    |>.insert _ _ keeps_tupleGetItem
    |>.insert _ _ keeps_listGetItem
    |>.insert _ _ keeps_tupleLen
    |>.insert _ _ keeps_listLen
    |>.insert _ _ keeps_arrayLen
    |>.insert _ _ keeps_shape
    |>.insert _ _ keeps_broadcastShape
    |>.insert _ _ keeps_getAttribute
    |>.insert _ _ keeps_scalarCast

end Values

/-! ## Values and their types -/

theorem keeps_of_typedBy {rule rule' : Rule} (typed : Ledger.TypedBy rule rule') :
    s.Keeps .typed rule' rule := by
  intro k l h xs xs' same q p left right
  obtain ⟨t, rfl, inhabits⟩ := typed h.typing same left.yields right.yields
  exact .typed inhabits

theorem keeps_typed_getAttribute :
    s.Keeps .typed TypeRules.getAttribute ValueRules.getAttribute := by
  intro k l h xs xs' same
  rcases same with _ | ⟨hx, _ | ⟨hy, _ | ⟨hz, rest⟩⟩⟩
  · exact matches_fail
  · exact matches_fail
  · intro q p left right
    obtain ⟨_, hfound, left⟩ := finds_seq.mp left
    obtain ⟨found, hfound', right⟩ := finds_seq.mp right
    obtain ⟨rfl, -⟩ := h.recordAttribute hx hy hfound hfound'
    cases found with
    | none => exact h.access .typed .named hx hy left right
    | some field =>
      obtain ⟨t, ht, left⟩ := finds_seq.mp left
      split at left
      · rename_i e he
        obtain rfl : q = .type e := left
        refine .typed ?_
        rintro c rfl
        obtain ⟨a, -, right⟩ := finds_seq.mp right
        cases a with
        | anything => cases right
        | known d =>
          exact h.typing.inhabits_attribute hx hy hfound.yields ht.yields he right.yields
      · exact left.elim
  · exact matches_fail

/-- Every operator with a value rule has a type rule, which finds the type of its values. -/
theorem keeps_typed : ValueRules.registry.All fun operator rule =>
    ∃ arity rule', TypeRules.registry.get? operator = some (arity, rule')
      ∧ s.Keeps .typed rule' rule := by
  refine Ledger.all_valueRules (fun operator arity rule found => ?_)
    ⟨_, _, rfl, keeps_typed_getAttribute⟩ ?_
  · obtain ⟨arity', found'⟩ := Ledger.common_typeRules operator arity rule found
    exact ⟨arity', rule, found', keeps_common operator arity rule found⟩
  · rintro operator rule ⟨arity, rule', found, typed⟩
    exact ⟨arity, rule', found, keeps_of_typedBy typed⟩

end Sides

end ArrayInference
