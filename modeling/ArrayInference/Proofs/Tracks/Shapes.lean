import ArrayInference.Proofs.Tracks.Types

/-!
# Folded values have the shapes that are found

Main statement: the value rule of every built-in operator agrees with the shape rule of the operator,
or its results have no shape if the operator has no shape rule.
-/

namespace ArrayInference

namespace Constant

theorem SameKind.isPlain {a c : Constant} (h : a.SameKind c) : c.isPlain = true := by
  cases a <;> cases c <;> first | rfl | cases h

/-- An element of a container has the shape of its elements. -/
theorem Shaped.of_item? {items index c : Constant} {s e : Shape} (h : items.Shaped s)
    (found : items.item? index = some c) (element : s.toElement = .ok e) : c.Shaped e := by
  cases items with
  | list items =>
    obtain ⟨e', rfl, each⟩ := h.of_list
    cases element
    cases index with
    | int n =>
      obtain ⟨i, -, found⟩ := Option.bind_eq_some_iff.mp found
      exact each c (List.mem_of_getElem? found)
    | _ => cases found
  | tuple items =>
    obtain ⟨ss, rfl, -⟩ := h.of_tuple
    cases element
  | symbols id name entries =>
    cases h.eq_noShape rfl
    cases element
  | _ => cases index <;> cases found

/-- The attributes of a record's shape are its first fields. -/
theorem prefix_of_forall₂ {α β γ : Type} {R : γ → β → Prop} {fields : List (String × α)}
    {values : List γ} {as : List (String × β)}
    (h : List.Forall₂ (fun pair a => pair.1.1 = a.1 ∧ R pair.2 a.2) (fields.zip values) as) :
    as.map (·.1) <+: fields.map (·.1) := by
  induction fields generalizing values as with
  | nil =>
    cases h
    exact List.nil_prefix
  | cons field fields ih =>
    cases values with
    | nil =>
      cases h
      exact List.nil_prefix
    | cons c cs =>
      cases h with
      | cons first rest =>
        rw [List.map_cons, List.map_cons, List.cons_prefix_cons]
        exact ⟨first.1.symm, ih rest⟩

/-- An attribute of a record has the shape that the shape of the record gives it. -/
theorem Shaped.of_attribute? {d c : Constant} {name : String} {s a : Shape} (h : d.Shaped s)
    (given : s.attribute? name = some a) (found : d.attribute? name = some c) : c.Shaped a := by
  cases d with
  | record cls values =>
    obtain ⟨as, rfl, each⟩ := h.of_record
    obtain ⟨i, n, hi, hn⟩ := findIdx?_of_lookup (prefix_of_forall₂ each) given
    have index : cls.fieldIndex? name = some i := hi
    rw [attribute?.eq_def] at found
    simp only [index] at found
    have hlength := each.length_eq
    obtain ⟨hlt, -⟩ := List.getElem?_eq_some_iff.mp hn
    have hpair : (cls.fields.zip values)[i]? = some ((cls.fields.zip values)[i]) :=
      List.getElem?_eq_getElem (by omega)
    obtain ⟨-, hshaped⟩ := forall₂_getElem? each hpair hn
    obtain ⟨-, hvalue⟩ := List.getElem?_zip_eq_some.mp hpair
    rw [found, Option.some.injEq] at hvalue
    exact hvalue ▸ hshaped
  | host id typeName attributes =>
    cases h.eq_noShape rfl
    cases given
  | symbols id name entries =>
    cases h.eq_noShape rfl
    cases given
  | _ => cases found

end Constant

namespace Ledger

open ShapeRules

variable {w : Ledger} {t : Track} {calls : Calls} {p q : Property} {x y : Ref} {args : List Ref}

/-- Only known values can disagree with a shape. -/
theorem agree_shape {s : Shape} (h : ∀ c, p = .value (.known c) → w.shapes → c.Shaped s) :
    w.Agree t p (.shape s) := by
  rcases p with (c | _) | _ | _ | _
  · exact h c rfl
  all_goals trivial

theorem yields_tupleShapes {ss : List Shape} (h : w.Yields calls (Infer.tupleShapes x) ss) :
    w.Yields calls (Infer.shapeOf x) (.tuple ss) := by
  obtain ⟨s, hs, h⟩ := yields_seq.mp h
  cases s with
  | tuple items =>
    cases yields_done.mp h
    exact hs
  | _ => exact h.elim

theorem yields_extentsCount {n : Nat} (h : w.Yields calls (extentsCount x) n) :
    ∃ s es, w.Yields calls (Infer.typeOf x) s ∧ s.elements? = some es ∧ n = es.length := by
  obtain ⟨s, hs, h⟩ := yields_seq.mp h
  split at h
  · rename_i es found
    exact ⟨s, es, hs, found, yields_done.mp h⟩
  · exact h.elim

/-- The known values of several references have their shapes. -/
theorem Lawful.shaped_each (lawful : w.Lawful) {calls' : Calls} {cs : List Constant} {ss : List Shape}
    (shapes : w.shapes) (sure : ∀ x ∈ args, w.Sure x) (known : List.Forall₂ (w.Knows calls) args cs)
    (shaped : List.Forall₂ (fun x s => w.Yields calls' (Infer.shapeOf x) s) args ss) :
    List.Forall₂ Constant.Shaped cs ss := by
  induction known generalizing ss with
  | nil =>
    cases shaped
    exact .nil
  | cons hc _ ih =>
    cases shaped with
    | cons hs rest =>
      rw [List.forall_mem_cons] at sure
      exact .cons (lawful.shaped sure.1 hc hs shapes) (ih sure.2 rest)

theorem Lawful.shaped_makeTuple (lawful : w.Lawful) :
    w.RulesAgree .shape ValueRules.makeTuple makeTuple := by
  intro calls calls' args p q _ sure left right
  obtain ⟨ss, hss, right⟩ := yields_seq.mp right
  cases yields_done.mp right
  refine agree_shape ?_
  rintro c rfl shapes
  obtain ⟨items, rfl, known⟩ := knows_makeTuple left
  exact Constant.shaped_tuple (lawful.shaped_each shapes sure known (yields_mapM.mp hss))

theorem Lawful.shaped_tail (lawful : w.Lawful) : w.RulesAgree .shape ValueRules.tail tail := by
  intro calls calls' args p q _ sure left right
  obtain ⟨x, rfl, right⟩ := yields_unary.mp right
  obtain ⟨ss, hss, right⟩ := yields_seq.mp right
  cases ss with
  | nil => exact right.elim
  | cons s ss =>
    cases yields_done.mp right
    refine agree_shape ?_
    rintro c rfl shapes
    obtain ⟨_, first, rest, ⟨⟩, hx, rfl⟩ := knows_tail left
    obtain ⟨_, ⟨⟩, each⟩ := (lawful.shaped (sure x (by simp)) hx (yields_tupleShapes hss) shapes).of_tuple
    cases each with
    | cons _ rest => exact Constant.shaped_tuple rest

theorem Lawful.shaped_tupleGetItem (lawful : w.Lawful) :
    w.RulesAgree .shape ValueRules.tupleGetItem tupleGetItem := by
  intro calls calls' args p q _ sure left right
  obtain ⟨x, i, rfl, right⟩ := yields_binary.mp right
  obtain ⟨index, hindex, right⟩ := yields_seq.mp right
  obtain ⟨ss, hss, right⟩ := yields_seq.mp right
  obtain ⟨s, hs, right⟩ := yields_seq.mp right
  cases yields_done.mp right
  refine agree_shape ?_
  rintro c rfl shapes
  obtain ⟨_, _, index', items, ⟨⟩, hindex', hx, hc⟩ := knows_tupleGetItem left
  cases lawful.once.known_unique hindex' (yields_constantOf.mp hindex)
  obtain ⟨_, ⟨⟩, each⟩ := (lawful.shaped (sure x (by simp)) hx (yields_tupleShapes hss) shapes).of_tuple
  obtain ⟨n, hc, hs⟩ := tupleItem_position hc (yields_ofExcept.mp hs) each.length_eq
  exact forall₂_getElem? each hc hs

theorem Lawful.shaped_listGetItem (lawful : w.Lawful) :
    w.RulesAgree .shape ValueRules.listGetItem listGetItem := by
  intro calls calls' args p q _ sure left right
  obtain ⟨x, i, rfl, right⟩ := yields_binary.mp right
  obtain ⟨s, hs, right⟩ := yields_seq.mp right
  obtain ⟨e, he, right⟩ := yields_seq.mp right
  cases yields_done.mp right
  refine agree_shape ?_
  rintro c rfl shapes
  obtain ⟨_, _, items, index, ⟨⟩, hx, hc⟩ := knows_listGetItem left
  exact (lawful.shaped (sure x (by simp)) hx hs shapes).of_item? hc (yields_ofExcept.mp he)

theorem shaped_extents {ns : List Int64} {rank : Nat} (length_eq : ns.length = rank) :
    Constant.Shaped (.tuple (ns.map .int)) (.tuple (List.replicate rank .noShape)) := by
  refine Constant.shaped_tuple (List.forall₂_iff_get.mpr ⟨by simp [length_eq], fun i hi hj => ?_⟩)
  simp only [List.get_eq_getElem, List.getElem_map, List.getElem_replicate]
  exact Constant.shaped_of_isPlain rfl

theorem Lawful.shaped_shape (lawful : w.Lawful) : w.RulesAgree .shape ValueRules.shape shape := by
  intro calls calls' args p q _ _ left right
  obtain ⟨x, rfl, right⟩ := yields_unary.mp right
  obtain ⟨ds, hds, right⟩ := yields_seq.mp right
  cases yields_done.mp right
  refine agree_shape ?_
  rintro c rfl shapes
  obtain ⟨_, ds', ns, ⟨⟩, hds', rfl, length_eq⟩ := knows_shape left
  obtain ⟨s, hs, hds⟩ := yields_seq.mp hds
  cases lawful.once.shapeOf_unique hds' hs
  cases yields_done.mp hds
  exact shaped_extents length_eq

theorem Lawful.shaped_broadcastShape (lawful : w.Lawful) :
    w.RulesAgree .shape ValueRules.broadcastShape broadcastShape := by
  intro calls calls' args p q _ sure left right
  obtain ⟨x, y, rfl, right⟩ := yields_binary.mp right
  obtain ⟨m, hm, right⟩ := yields_seq.mp right
  obtain ⟨n, hn, right⟩ := yields_seq.mp right
  cases yields_done.mp right
  refine agree_shape ?_
  rintro c rfl shapes
  obtain ⟨_, _, as, bs, ns, ⟨⟩, ha, hb, rfl, length_eq⟩ := knows_broadcastShape left
  obtain ⟨s, es, hs, elements, rfl⟩ := yields_extentsCount hm
  obtain ⟨s', es', hs', elements', rfl⟩ := yields_extentsCount hn
  have as_length := ((lawful.inhabits (sure x (by simp)) ha hs).of_tuple elements).1
  have bs_length := ((lawful.inhabits (sure y (by simp)) hb hs').of_tuple elements').1
  refine shaped_extents ?_
  rw [length_eq, as_length, bs_length]

theorem Lawful.shaped_getAttribute (lawful : w.Lawful) :
    w.RulesAgree .shape ValueRules.getAttribute getAttribute := by
  intro calls calls' args p q _ sure left right
  obtain ⟨x, y, rfl, right⟩ := yields_binary.mp right
  obtain ⟨found, hfound, right⟩ := yields_seq.mp right
  obtain ⟨_, _, ⟨⟩, found', hfound', left⟩ := yields_getAttribute left
  cases lawful.once.recordAttribute_unique hfound' hfound
  cases found with
  | none =>
    rcases left with ⟨absurd_none, -⟩ | left
    · exact absurd rfl absurd_none
    · exact lawful.agree_access (by simp) left right
  | some pair =>
    obtain ⟨name, declared⟩ := pair
    obtain ⟨s, hs, right⟩ := yields_seq.mp right
    split at right
    · rename_i a ha
      cases yields_done.mp right
      refine agree_shape ?_
      rintro c rfl shapes
      rcases left with ⟨-, heq⟩ | left
      · cases heq
      · obtain ⟨d, name', hd, hname, hc⟩ := knows_access left
        obtain ⟨s', hs', ⟨-, heq⟩ | ⟨cls', key, -, hkey, heq⟩⟩ := yields_recordAttribute.mp hfound
        · cases heq
        · cases lawful.once.known_unique hname hkey
          obtain ⟨_, -, ⟨⟩⟩ := Option.map_eq_some_iff.mp heq.symm
          exact (lawful.shaped (sure x (by simp)) hd hs shapes).of_attribute? ha hc
    · exact right.elim

/-- A rule that folds to nothing that has parts. -/
def Plain (w : Ledger) (rule : Rule) : Prop :=
  ∀ ⦃calls : Calls⦄ ⦃args : List Ref⦄ ⦃c : Constant⦄,
    w.Yields calls (rule .value args) (.value (.known c)) → c.isPlain = true

theorem plain_foldBinary {op : Constant → Constant → Option Constant}
    (kind : ∀ a b c, op a b = some c → a.SameKind c) : w.Plain (Rule.foldBinary op) := by
  intro calls args c h
  obtain ⟨_, _, a, b, -, -, -, hc⟩ := knows_foldBinary h
  exact (kind a b c hc).isPlain

theorem plain_foldUnary {op : Constant → Option Constant}
    (kind : ∀ a c, op a = some c → a.SameKind c) : w.Plain (Rule.foldUnary op) := by
  intro calls args c h
  obtain ⟨_, a, -, -, hc⟩ := knows_foldUnary h
  exact (kind a c hc).isPlain

theorem plain_compareBy {test : Ordering → Bool} :
    w.Plain (Rule.foldBinary (Constant.compareBy test)) := by
  intro calls args c h
  obtain ⟨_, _, a, b, -, -, -, hc⟩ := knows_foldBinary h
  obtain ⟨v, rfl⟩ := Constant.isBool_compareBy hc
  rfl

theorem plain_not : w.Plain (Rule.foldUnary Constant.not) := by
  intro calls args c h
  obtain ⟨_, a, -, -, hc⟩ := knows_foldUnary h
  obtain ⟨v, rfl⟩ := Constant.isBool_not hc
  rfl

theorem plain_logical {op : Bool → Bool → Bool} :
    w.Plain (Rule.foldBinary (Constant.logical op)) := by
  intro calls args c h
  obtain ⟨_, _, a, b, -, -, -, hc⟩ := knows_foldBinary h
  obtain ⟨v, rfl⟩ := Constant.isBool_logical hc
  rfl

theorem plain_typeOf : w.Plain ValueRules.typeOf := by
  intro calls args c h
  obtain ⟨s, rfl⟩ := knows_typeOf h
  rfl

theorem plain_hasType : w.Plain ValueRules.hasType := by
  intro calls args c h
  obtain ⟨b, rfl⟩ := knows_hasType h
  rfl

theorem plain_length {rule : Rule} (h : ∀ {calls : Calls} {args : List Ref} {c : Constant},
    w.Yields calls (rule .value args) (.value (.known c)) → ∃ n, c = .int n) : w.Plain rule := by
  intro calls args c known
  obtain ⟨n, rfl⟩ := h known
  rfl

theorem plain_scalarCast : w.Plain ValueRules.scalarCast := by
  intro calls args c h
  obtain ⟨_, _, a, target, -, -, hc⟩ := knows_scalarCast h
  rcases Constant.cast_eq_some hc with ⟨⟨n, rfl⟩, -⟩ | ⟨⟨x, rfl⟩, -⟩ <;> rfl

/-- The operator has a shape rule, and the value rule agrees with it, or it has none and folds to
nothing that has parts. -/
def MeetsShape (w : Ledger) (operator : Primitive) (rule : Rule) : Prop :=
  w.Meets .shape operator rule ∨ ShapeRules.registry.get? operator = none ∧ w.Plain rule

/-- Every value rule agrees with the shape rule of its operator. -/
theorem Lawful.meets_shape (lawful : w.Lawful) : ValueRules.registry.All w.MeetsShape :=
  have known : Rule.common.All fun operator rule =>
      ∃ arity, ShapeRules.registry.get? operator = some (arity, rule) :=
    Registry.all_empty
      |>.insert _ _ ⟨_, rfl⟩
      |>.insert _ _ ⟨_, rfl⟩
      |>.insert _ _ ⟨_, rfl⟩
      |>.insertAll _ _ (by simp; exact ⟨⟨_, rfl⟩, ⟨_, rfl⟩⟩)
      |>.insert _ _ ⟨_, rfl⟩
  have common : Rule.common.All w.MeetsShape := fun operator arity rule found =>
    .inl (lawful.meets_common (t := .shape) (by simp) known operator arity rule found)
  have arithmetic {op : Constant → Constant → Option Constant}
      (kind : ∀ a b c, op a b = some c → a.SameKind c) := plain_foldBinary (w := w) kind
  have unary {op : Constant → Option Constant} (kind : ∀ a c, op a = some c → a.SameKind c) :=
    plain_foldUnary (w := w) kind
  have onFloat {op : Float → Float} : w.Plain (Rule.foldUnary (Constant.onFloat op)) :=
    unary fun _ _ => Constant.sameKind_onFloat
  common
    |>.insert _ _ (.inr ⟨rfl, arithmetic fun _ _ _ => Constant.sameKind_arithmetic⟩)
    |>.insert _ _ (.inr ⟨rfl, arithmetic fun _ _ _ => Constant.sameKind_arithmetic⟩)
    |>.insert _ _ (.inr ⟨rfl, arithmetic fun _ _ _ => Constant.sameKind_arithmetic⟩)
    |>.insert _ _ (.inr ⟨rfl, arithmetic fun _ _ _ => Constant.sameKind_arithmetic⟩)
    |>.insert _ _ (.inr ⟨rfl, arithmetic fun _ _ _ => Constant.sameKind_arithmetic⟩)
    |>.insert _ _ (.inr ⟨rfl, arithmetic fun _ _ _ => Constant.sameKind_arithmetic⟩)
    |>.insert _ _ (.inr ⟨rfl, unary fun _ _ => Constant.sameKind_plus⟩)
    |>.insert _ _ (.inr ⟨rfl, unary fun _ _ => Constant.sameKind_minus⟩)
    |>.insert _ _ (.inr ⟨rfl, onFloat⟩)
    |>.insert _ _ (.inr ⟨rfl, onFloat⟩)
    |>.insert _ _ (.inr ⟨rfl, onFloat⟩)
    |>.insert _ _ (.inr ⟨rfl, onFloat⟩)
    |>.insert _ _ (.inr ⟨rfl, onFloat⟩)
    |>.insert _ _ (.inr ⟨rfl, plain_compareBy⟩)
    |>.insert _ _ (.inr ⟨rfl, plain_compareBy⟩)
    |>.insert _ _ (.inr ⟨rfl, plain_compareBy⟩)
    |>.insert _ _ (.inr ⟨rfl, plain_compareBy⟩)
    |>.insert _ _ (.inr ⟨rfl, plain_compareBy⟩)
    |>.insert _ _ (.inr ⟨rfl, plain_compareBy⟩)
    |>.insert _ _ (.inr ⟨rfl, plain_not⟩)
    |>.insert _ _ (.inr ⟨rfl, plain_logical⟩)
    |>.insert _ _ (.inr ⟨rfl, plain_logical⟩)
    |>.insert _ _ (.inr ⟨rfl, plain_typeOf⟩)
    |>.insert _ _ (.inr ⟨rfl, plain_hasType⟩)
    |>.insert _ _ (.inl ⟨_, _, rfl, lawful.shaped_makeTuple⟩)
    |>.insert _ _ (.inl ⟨_, _, rfl, lawful.shaped_tail⟩)
    |>.insert _ _ (.inl ⟨_, _, rfl, lawful.shaped_tupleGetItem⟩)
    |>.insert _ _ (.inl ⟨_, _, rfl, lawful.shaped_listGetItem⟩)
    |>.insert _ _ (.inr ⟨rfl, plain_length knows_tupleLen⟩)
    |>.insert _ _ (.inr ⟨rfl, plain_length knows_listLen⟩)
    |>.insert _ _ (.inr ⟨rfl, plain_length knows_arrayLen⟩)
    |>.insert _ _ (.inl ⟨_, _, rfl, lawful.shaped_shape⟩)
    |>.insert _ _ (.inl ⟨_, _, rfl, lawful.shaped_broadcastShape⟩)
    |>.insert _ _ (.inl ⟨_, _, rfl, lawful.shaped_getAttribute⟩)
    |>.insert _ _ (.inr ⟨rfl, plain_scalarCast⟩)

end Ledger

end ArrayInference
