import ArrayInference.Proofs.Tracks.Folds

/-!
# Folded values have the types that are found

Main statement: the value rule of every built-in operator agrees with the type rule of the operator.
-/

namespace ArrayInference

namespace Constant

variable {c : Constant} {t : Ty} {home : CacheId}

theorem inhabits_bool (b : Bool) (home : CacheId) : Inhabits (.bool b) (.generic home .bool) :=
  inhabits_of_generic ⟨.empty home, rfl⟩

theorem inhabits_type (s : Ty) (home : CacheId) : Inhabits (.type s) (.generic home .type) :=
  inhabits_of_generic ⟨.empty home, rfl⟩

/-- A number of one kind with an inhabitant of a number type inhabits the type as well. -/
theorem SameKind.inhabits {a : Constant} (h : a.SameKind c) (own : a.Inhabits t)
    (number : t.isNumber = true) : c.Inhabits t := by
  cases own with
  | int n home bits =>
    cases c <;> cases h
    exact .int _ home bits
  | uint n home bits =>
    cases c <;> cases h
    exact .uint _ home bits
  | float x home bits =>
    cases c <;> cases h
    exact .float _ home bits
  | function callable family => cases a <;> first | cases h | cases callable
  | recordType own => cases h
  | _ => cases number

theorem Inhabits.of_tuple {items : List Constant} {es : List Ty} (h : Inhabits (.tuple items) t)
    (instance_of : t.elements? = some es) : items.length = es.length
      ∧ ∀ {i : Nat} {c : Constant} {e : Ty}, items[i]? = some c → es[i]? = some e → c.Inhabits e := by
  cases h with
  | tuple length_eq each =>
    cases instance_of
    exact ⟨length_eq, each⟩
  | function callable => cases callable
  | _ => cases instance_of

theorem inhabits_tuple {items : List Constant} {es : List Ty} (home : CacheId)
    (each : List.Forall₂ Inhabits items es) : Inhabits (.tuple items) (.tuple home es) :=
  .tuple each.length_eq fun hc ht => forall₂_getElem? each hc ht

/-- An element of a container has its element type. -/
theorem Inhabits.of_item? {index c items : Constant} {e : Ty} (h : items.Inhabits t)
    (found : items.item? index = some c) (element : t.element? = some e) : c.Inhabits e := by
  cases h with
  | @list items _ _ each =>
    cases element
    cases index with
    | int n =>
      obtain ⟨i, -, found⟩ := Option.bind_eq_some_iff.mp found
      exact each c (List.mem_of_getElem? found)
    | _ => cases found
  | array own => cases index <;> cases found
  | function callable family =>
    cases items <;> first | cases found | cases callable
  | recordType own => cases index <;> cases found
  | _ => cases element

/-- The first attribute of a name stands at the position of the first field of that name. -/
theorem findIdx?_of_lookup {α β : Type} {fields : List (String × α)} {attributes : List (String × β)}
    {name : String} {b : β} (names : attributes.map (·.1) <+: fields.map (·.1))
    (found : attributes.lookup name = some b) :
    ∃ i n, fields.findIdx? (fun field => field.1 = name) = some i ∧ attributes[i]? = some (n, b) := by
  induction attributes generalizing fields with
  | nil => cases found
  | cons a attributes ih =>
    cases fields with
    | nil => simp at names
    | cons field fields =>
      rw [List.map_cons, List.map_cons, List.cons_prefix_cons] at names
      rw [List.findIdx?_cons, ← names.1]
      rw [List.lookup_cons] at found
      by_cases heq : a.1 = name
      · rw [heq, beq_self_eq_true, Option.some.injEq] at found
        exact ⟨0, a.1, by simp [heq], by rw [← found]; rfl⟩
      · rw [beq_false_of_ne (Ne.symm heq)] at found
        obtain ⟨i, n, hi, hn⟩ := ih names.2 found
        exact ⟨i + 1, n, by simp [heq, hi], hn⟩

/-- An attribute of a record has the type that its class gives it. -/
theorem Inhabits.of_attribute? {d : Constant} {name : String} {desc : ClassDesc} {e : Ty}
    (h : d.Inhabits t) (cls : t.class? = some desc) (declared : desc.attribute? name = some e)
    (found : d.attribute? name = some c) : c.Inhabits e := by
  cases h with
  | @record cls values _ _ _ attributes _ _ names length_eq each =>
    cases cls
    have same : attributes.map (·.1) <+: cls.fields.map (·.1) := names ▸ List.prefix_refl _
    obtain ⟨i, n, hi, hn⟩ := findIdx?_of_lookup same declared
    have index : cls.fieldIndex? name = some i := hi
    rw [attribute?.eq_def] at found
    simp only [index] at found
    exact each found hn
  | function callable family => cases d <;> first | cases found | cases callable
  | recordType own => cases found
  | _ => cases cls

end Constant

namespace Ledger

open TypeRules

variable {w : Ledger} {t : Track} {calls : Calls} {p q : Property} {x y : Ref} {args : List Ref}

/-- Only known values can disagree with a type. -/
theorem agree_type {s : Ty} (h : ∀ c, p = .value (.known c) → c.Inhabits s) :
    w.Agree t p (.type s) := by
  rcases p with (c | _) | _ | _ | _
  · exact h c rfl
  all_goals trivial

/-! ## What a type rule finds -/

theorem yields_newType {make : Interning Ty} :
    w.Yields calls (Infer.newType make) q ↔ ∃ s, w.Interns make s ∧ q = .type s := by
  simp only [Infer.newType, Infer.type, yields_seq, yields_intern, yields_done]

theorem yields_newIntern {make : CacheId → Ty} :
    w.Yields calls (Infer.newType (Interning.intern make)) q
      ↔ q = .type (make w.engine.types.home) := by
  rw [yields_newType]
  constructor
  · rintro ⟨s, hs, rfl⟩
    rw [hs.of_intern]
  · rintro rfl
    exact ⟨_, ⟨w.engine.types, rfl, rfl⟩, rfl⟩

theorem yields_sameNumber {s : Ty} (h : w.Yields calls (Infer.sameNumber x y) s) :
    w.Yields calls (Infer.typeOf x) s ∧ s.isNumber = true := by
  obtain ⟨a, ha, h⟩ := yields_seq.mp h
  obtain ⟨b, hb, h⟩ := yields_seq.mp h
  split at h
  · rename_i same
    cases yields_done.mp h
    exact ⟨ha, (Bool.and_eq_true_iff.mp same).1⟩
  · exact h.elim

theorem yields_tupleElements {es : List Ty} (h : w.Yields calls (Infer.tupleElements x) es) :
    ∃ s, w.Yields calls (Infer.typeOf x) s ∧ s.elements? = some es := by
  obtain ⟨s, hs, h⟩ := yields_seq.mp h
  split at h
  · rename_i found
    cases yields_done.mp h
    exact ⟨s, hs, found⟩
  · exact h.elim

theorem yields_extents {rank : Nat} (h : w.Yields calls (Infer.newType (extents rank)) q) :
    ∃ home home', q = .type (.tuple home (List.replicate rank (.uint home' 64))) := by
  obtain ⟨s, ⟨cache, -, rfl⟩, rfl⟩ := yields_newType.mp h
  exact ⟨_, _, rfl⟩

theorem tupleItem_eq_ok {α : Type} {index : Constant} {items : List α} {a : α}
    (h : Rule.tupleItem index items = .ok a) :
    ∃ (i : Int64) (n : Nat), index = .int i ∧ position? i.toInt items.length = some n
      ∧ items[n]? = some a := by
  cases index with
  | int i =>
    simp only [Rule.tupleItem] at h
    split at h
    · rename_i found
      cases h
      obtain ⟨n, hn, found⟩ := Option.bind_eq_some_iff.mp found
      exact ⟨i, n, rfl, hn, found⟩
    · cases h
  | _ => cases h

/-- One index names the same position in lists of one length. -/
theorem tupleItem_position {α β : Type} {index : Constant} {as : List α} {bs : List β} {a : α} {b : β}
    (h : Rule.tupleItem index as = .ok a) (h' : Rule.tupleItem index bs = .ok b)
    (length_eq : as.length = bs.length) : ∃ n : Nat, as[n]? = some a ∧ bs[n]? = some b := by
  obtain ⟨i, n, rfl, hn, ha⟩ := tupleItem_eq_ok h
  obtain ⟨_, m, ⟨⟩, hm, hb⟩ := tupleItem_eq_ok h'
  rw [length_eq, hm, Option.some.injEq] at hn
  exact ⟨n, ha, hn ▸ hb⟩

/-! ## Operator by operator -/

/-- The first ledger has the types of what the second one knows of the same references. -/
structure Typing (v w : Ledger) (same : Ref → Ref → Prop) : Prop where
  known : ∀ {calls calls' : Calls} {x x' : Ref} {c d : Constant}, same x x' → v.Knows calls x c →
    w.Knows calls' x' d → d = c
  typeOf : ∀ {calls calls' : Calls} {x x' : Ref} {s u : Ty}, same x x' →
    v.Yields calls (Infer.typeOf x) s → w.Yields calls' (Infer.typeOf x') u → u = s
  inhabits : ∀ {calls calls' : Calls} {x x' : Ref} {s : Ty} {c : Constant}, same x x' →
    v.Yields calls (Infer.typeOf x) s → w.Knows calls' x' c → c.Inhabits s
  rank : ∀ {calls calls' : Calls} {x x' : Ref} {s u : Shape}, same x x' →
    v.Yields calls (Infer.shapeOf x) s → w.Yields calls' (Infer.shapeOf x') u → u.rank? = s.rank?

/-- The type rule finds types that have what the value rule finds for the same arguments. -/
def TypedBy (rule rule' : Rule) : Prop :=
  ∀ ⦃v w : Ledger⦄ ⦃same : Ref → Ref → Prop⦄ ⦃calls calls' : Calls⦄ ⦃args args' : List Ref⦄
    ⦃p q : Property⦄, v.Typing w same → List.Forall₂ same args args' →
    v.Yields calls (rule' .type args) q → w.Yields calls' (rule .value args') p →
      ∃ s, q = .type s ∧ ∀ c, p = .value (.known c) → c.Inhabits s

theorem typedBy_arithmetic {op : Constant → Constant → Option Constant}
    (kind : ∀ a b c, op a b = some c → a.SameKind c) : TypedBy (Rule.foldBinary op) arithmetic := by
  intro v w same calls calls' args args' p q typing related left right
  obtain ⟨x, y, rfl, left⟩ := yields_binary.mp left
  obtain ⟨s, hs, left⟩ := yields_seq.mp left
  cases yields_done.mp left
  obtain ⟨hx, number⟩ := yields_sameNumber hs
  refine ⟨s, rfl, ?_⟩
  rintro c rfl
  obtain ⟨_, _, a, b, rfl, ha, -, hc⟩ := knows_foldBinary right
  rw [List.forall₂_cons] at related
  exact (kind a b c hc).inhabits (typing.inhabits related.1 hx ha) number

theorem typedBy_unaryArithmetic {op : Constant → Option Constant}
    (kind : ∀ a c, op a = some c → a.SameKind c) : TypedBy (Rule.foldUnary op) unaryArithmetic := by
  intro v w same calls calls' args args' p q typing related left right
  obtain ⟨x, rfl, left⟩ := yields_unary.mp left
  obtain ⟨s, hs, left⟩ := yields_seq.mp left
  split at left
  · rename_i number
    cases yields_done.mp left
    refine ⟨s, rfl, ?_⟩
    rintro c rfl
    obtain ⟨_, a, rfl, ha, hc⟩ := knows_foldUnary right
    rw [List.forall₂_cons] at related
    exact (kind a c hc).inhabits (typing.inhabits related.1 hs ha) number
  · exact left.elim

/-- A boolean has the type of booleans. -/
theorem typedBy_isBool {v : Ledger} {p q : Property}
    (left : v.Yields calls (Infer.newType (.generic .bool)) q)
    (right : ∀ c, p = .value (.known c) → ∃ b, c = .bool b) :
    ∃ s, q = .type s ∧ ∀ c, p = .value (.known c) → c.Inhabits s := by
  cases yields_newIntern.mp left
  refine ⟨_, rfl, fun c hc => ?_⟩
  obtain ⟨b, rfl⟩ := right c hc
  exact Constant.inhabits_bool b _

theorem typedBy_comparison {test : Ordering → Bool} :
    TypedBy (Rule.foldBinary (Constant.compareBy test)) comparison := by
  intro v w same calls calls' args args' p q _ _ left right
  obtain ⟨x, y, -, left⟩ := yields_binary.mp left
  obtain ⟨_, -, left⟩ := yields_seq.mp left
  refine typedBy_isBool left ?_
  rintro c rfl
  obtain ⟨_, _, a, b, -, -, -, hc⟩ := knows_foldBinary right
  exact Constant.isBool_compareBy hc

theorem typedBy_not : TypedBy (Rule.foldUnary Constant.not) logical := by
  intro v w same calls calls' args args' p q _ _ left right
  obtain ⟨_, -, left⟩ := yields_seq.mp left
  refine typedBy_isBool left ?_
  rintro c rfl
  obtain ⟨_, a, -, -, hc⟩ := knows_foldUnary right
  exact Constant.isBool_not hc

theorem typedBy_logical {op : Bool → Bool → Bool} :
    TypedBy (Rule.foldBinary (Constant.logical op)) logical := by
  intro v w same calls calls' args args' p q _ _ left right
  obtain ⟨_, -, left⟩ := yields_seq.mp left
  refine typedBy_isBool left ?_
  rintro c rfl
  obtain ⟨_, _, a, b, -, -, -, hc⟩ := knows_foldBinary right
  exact Constant.isBool_logical hc

theorem typedBy_typeOf : TypedBy ValueRules.typeOf typeOf := by
  intro v w same calls calls' args args' p q _ _ left right
  cases yields_newIntern.mp left
  refine ⟨_, rfl, ?_⟩
  rintro c rfl
  obtain ⟨s, rfl⟩ := knows_typeOf right
  exact Constant.inhabits_type s _

theorem typedBy_hasType : TypedBy ValueRules.hasType hasType := by
  intro v w same calls calls' args args' p q _ _ left right
  refine typedBy_isBool left ?_
  rintro c rfl
  exact knows_hasType right

/-- The known values of several references have their types. -/
theorem Typing.inhabits_each {v : Ledger} {same : Ref → Ref → Prop} {calls' : Calls}
    {args' : List Ref} {cs : List Constant} {ts : List Ty} (typing : v.Typing w same)
    (related : List.Forall₂ same args args')
    (typed : List.Forall₂ (fun x s => v.Yields calls (Infer.typeOf x) s) args ts)
    (known : List.Forall₂ (w.Knows calls') args' cs) : List.Forall₂ Constant.Inhabits cs ts := by
  induction related generalizing cs ts with
  | nil =>
    cases known
    cases typed
    exact .nil
  | cons first _ ih =>
    cases known with
    | cons hc known =>
      cases typed with
      | cons ht typed => exact .cons (typing.inhabits first ht hc) (ih typed known)

theorem typedBy_makeTuple : TypedBy ValueRules.makeTuple makeTuple := by
  intro v w same calls calls' args args' p q typing related left right
  obtain ⟨es, hes, left⟩ := yields_seq.mp left
  cases yields_newIntern.mp left
  refine ⟨_, rfl, ?_⟩
  rintro c rfl
  obtain ⟨items, rfl, known⟩ := knows_makeTuple right
  exact Constant.inhabits_tuple _ (typing.inhabits_each related (yields_mapM.mp hes) known)

theorem typedBy_tail : TypedBy ValueRules.tail tail := by
  intro v w same calls calls' args args' p q typing related left right
  obtain ⟨x, rfl, left⟩ := yields_unary.mp left
  obtain ⟨es, hes, left⟩ := yields_seq.mp left
  cases es with
  | nil => exact left.elim
  | cons e es =>
    cases yields_newIntern.mp left
    refine ⟨_, rfl, ?_⟩
    rintro c rfl
    obtain ⟨_, first, rest, rfl, hx, rfl⟩ := knows_tail right
    rw [List.forall₂_cons] at related
    obtain ⟨s, hs, elements⟩ := yields_tupleElements hes
    obtain ⟨length_eq, each⟩ := (typing.inhabits related.1 hs hx).of_tuple elements
    exact .tuple (Nat.succ.inj length_eq) fun {i c e} hc he => each (i := i + 1) hc he

theorem typedBy_tupleGetItem : TypedBy ValueRules.tupleGetItem tupleGetItem := by
  intro v w same calls calls' args args' p q typing related left right
  obtain ⟨x, i, rfl, left⟩ := yields_binary.mp left
  obtain ⟨index, hindex, left⟩ := yields_seq.mp left
  obtain ⟨es, hes, left⟩ := yields_seq.mp left
  obtain ⟨e, he, left⟩ := yields_seq.mp left
  cases yields_done.mp left
  refine ⟨e, rfl, ?_⟩
  rintro c rfl
  obtain ⟨_, _, index', items, rfl, hindex', hx, hc⟩ := knows_tupleGetItem right
  simp only [List.forall₂_cons] at related
  cases typing.known related.2.1 (yields_constantOf.mp hindex) hindex'
  obtain ⟨s, hs, elements⟩ := yields_tupleElements hes
  obtain ⟨length_eq, each⟩ := (typing.inhabits related.1 hs hx).of_tuple elements
  obtain ⟨n, hc, he⟩ := tupleItem_position hc (yields_ofExcept.mp he) length_eq
  exact each hc he

theorem typedBy_listGetItem : TypedBy ValueRules.listGetItem elementGetItem := by
  intro v w same calls calls' args args' p q typing related left right
  obtain ⟨x, rest, rfl, left⟩ := yields_variadic.mp left
  obtain ⟨s, hs, left⟩ := yields_seq.mp left
  split at left
  · rename_i e element
    cases yields_done.mp left
    refine ⟨e, rfl, ?_⟩
    rintro c rfl
    obtain ⟨_, i, items, index, rfl, hx, hc⟩ := knows_listGetItem right
    rw [List.forall₂_cons] at related
    exact (typing.inhabits related.1 hs hx).of_item? hc element
  · exact left.elim

/-- A length has the type of lengths. -/
theorem typedBy_length {rule : Rule}
    (h : ∀ {w : Ledger} {calls : Calls} {args : List Ref} {c : Constant},
      w.Yields calls (rule .value args) (.value (.known c)) → ∃ n, c = .int n) :
    TypedBy rule length := by
  intro v w same calls calls' args args' p q _ _ left right
  obtain ⟨x, -, left⟩ := yields_unary.mp left
  obtain ⟨s, -, left⟩ := yields_seq.mp left
  split at left
  · cases yields_newIntern.mp left
    refine ⟨_, rfl, ?_⟩
    rintro c rfl
    obtain ⟨n, rfl⟩ := h right
    exact .int n _ 64
  · exact left.elim

theorem inhabits_extents {ns : List Int64} {rank : Nat} (length_eq : ns.length = rank)
    (home home' : CacheId) : Constant.Inhabits (.tuple (ns.map .int))
      (.tuple home (List.replicate rank (.uint home' 64))) := by
  refine .tuple (by simp [length_eq]) fun {i c s} hc hs => ?_
  obtain ⟨n, -, rfl⟩ := List.mem_map.mp (List.mem_of_getElem? hc)
  rw [List.eq_of_mem_replicate (List.mem_of_getElem? hs)]
  exact .uint n home' 64

theorem typedBy_shape : TypedBy ValueRules.shape shape := by
  intro v w same calls calls' args args' p q typing related left right
  obtain ⟨x, rfl, left⟩ := yields_unary.mp left
  obtain ⟨_, -, left⟩ := yields_seq.mp left
  obtain ⟨_, -, left⟩ := yields_seq.mp left
  obtain ⟨s, hs, left⟩ := yields_seq.mp left
  split at left
  · rename_i rank hrank
    obtain ⟨home, home', rfl⟩ := yields_extents left
    refine ⟨_, rfl, ?_⟩
    rintro c rfl
    obtain ⟨_, ds, ns, rfl, hds, rfl, length_eq⟩ := knows_shape right
    rw [List.forall₂_cons] at related
    have same_rank := typing.rank related.1 hs hds
    rw [hrank] at same_rank
    exact inhabits_extents (length_eq.trans (Option.some.inj same_rank)) home home'
  · exact left.elim

theorem typedBy_broadcastShape : TypedBy ValueRules.broadcastShape broadcastShape := by
  intro v w same calls calls' args args' p q typing related left right
  obtain ⟨x, y, rfl, left⟩ := yields_binary.mp left
  obtain ⟨es, hes, left⟩ := yields_seq.mp left
  obtain ⟨es', hes', left⟩ := yields_seq.mp left
  obtain ⟨home, home', rfl⟩ := yields_extents left
  refine ⟨_, rfl, ?_⟩
  rintro c rfl
  obtain ⟨_, _, as, bs, ns, rfl, ha, hb, rfl, length_eq⟩ := knows_broadcastShape right
  simp only [List.forall₂_cons] at related
  obtain ⟨s, hs, elements⟩ := yields_tupleElements hes
  obtain ⟨s', hs', elements'⟩ := yields_tupleElements hes'
  have as_length := ((typing.inhabits related.1 hs ha).of_tuple elements).1
  have bs_length := ((typing.inhabits related.2.1 hs' hb).of_tuple elements').1
  refine inhabits_extents ?_ home home'
  rw [length_eq, as_length, bs_length]

theorem inhabits_cast {s : Ty} {a c : Constant} (h : a.cast s.family = some c)
    (number : s.isNumber = true) : c.Inhabits s := by
  rcases Constant.cast_eq_some h with ⟨⟨n, rfl⟩, family⟩ | ⟨⟨x, rfl⟩, family⟩
  · cases s with
    | int home bits => exact .int n home bits
    | uint home bits => exact .uint n home bits
    | float home bits => simp [Ty.family] at family
    | _ => cases number
  · cases s with
    | float home bits => exact .float x home bits
    | int home bits => cases family
    | uint home bits => cases family
    | _ => cases number

theorem typedBy_scalarCast : TypedBy ValueRules.scalarCast scalarCast := by
  intro v w same calls calls' args args' p q typing related left right
  obtain ⟨x, y, rfl, left⟩ := yields_binary.mp left
  obtain ⟨_, -, left⟩ := yields_seq.mp left
  split at left
  · exact left.elim
  · obtain ⟨s, hs, left⟩ := yields_seq.mp left
    split at left
    · rename_i number
      cases yields_done.mp left
      refine ⟨s, rfl, ?_⟩
      rintro c rfl
      obtain ⟨_, _, a, target, rfl, htarget, hc⟩ := knows_scalarCast right
      simp only [List.forall₂_cons] at related
      obtain ⟨d, hd, hs⟩ := yields_seq.mp hs
      cases typing.known related.2.1 (yields_constantOf.mp hd) htarget
      cases yields_done.mp hs
      exact inhabits_cast hc number
    · exact left.elim

/-- A property that the rules of all tracks and the one for attributes have, and every value rule for
which a type rule finds the types, is one of all value rules. -/
theorem all_valueRules {P : Primitive → Rule → Prop} (common : Rule.common.All P)
    (attributes : P .getAttribute ValueRules.getAttribute)
    (typed : ∀ {operator : Primitive} {rule : Rule}, (∃ arity rule',
      TypeRules.registry.get? operator = some (arity, rule') ∧ TypedBy rule rule') →
        P operator rule) : ValueRules.registry.All P :=
  common
    |>.insert _ _ (typed ⟨_, _, rfl, typedBy_arithmetic fun _ _ _ => Constant.sameKind_arithmetic⟩)
    |>.insert _ _ (typed ⟨_, _, rfl, typedBy_arithmetic fun _ _ _ => Constant.sameKind_arithmetic⟩)
    |>.insert _ _ (typed ⟨_, _, rfl, typedBy_arithmetic fun _ _ _ => Constant.sameKind_arithmetic⟩)
    |>.insert _ _ (typed ⟨_, _, rfl, typedBy_arithmetic fun _ _ _ => Constant.sameKind_arithmetic⟩)
    |>.insert _ _ (typed ⟨_, _, rfl, typedBy_arithmetic fun _ _ _ => Constant.sameKind_arithmetic⟩)
    |>.insert _ _ (typed ⟨_, _, rfl, typedBy_arithmetic fun _ _ _ => Constant.sameKind_arithmetic⟩)
    |>.insert _ _ (typed ⟨_, _, rfl, typedBy_unaryArithmetic fun _ _ => Constant.sameKind_plus⟩)
    |>.insert _ _ (typed ⟨_, _, rfl, typedBy_unaryArithmetic fun _ _ => Constant.sameKind_minus⟩)
    |>.insert _ _ (typed ⟨_, _, rfl, typedBy_unaryArithmetic fun _ _ => Constant.sameKind_onFloat⟩)
    |>.insert _ _ (typed ⟨_, _, rfl, typedBy_unaryArithmetic fun _ _ => Constant.sameKind_onFloat⟩)
    |>.insert _ _ (typed ⟨_, _, rfl, typedBy_unaryArithmetic fun _ _ => Constant.sameKind_onFloat⟩)
    |>.insert _ _ (typed ⟨_, _, rfl, typedBy_unaryArithmetic fun _ _ => Constant.sameKind_onFloat⟩)
    |>.insert _ _ (typed ⟨_, _, rfl, typedBy_unaryArithmetic fun _ _ => Constant.sameKind_onFloat⟩)
    |>.insert _ _ (typed ⟨_, _, rfl, typedBy_comparison⟩)
    |>.insert _ _ (typed ⟨_, _, rfl, typedBy_comparison⟩)
    |>.insert _ _ (typed ⟨_, _, rfl, typedBy_comparison⟩)
    |>.insert _ _ (typed ⟨_, _, rfl, typedBy_comparison⟩)
    |>.insert _ _ (typed ⟨_, _, rfl, typedBy_comparison⟩)
    |>.insert _ _ (typed ⟨_, _, rfl, typedBy_comparison⟩)
    |>.insert _ _ (typed ⟨_, _, rfl, typedBy_not⟩)
    |>.insert _ _ (typed ⟨_, _, rfl, typedBy_logical⟩)
    |>.insert _ _ (typed ⟨_, _, rfl, typedBy_logical⟩)
    |>.insert _ _ (typed ⟨_, _, rfl, typedBy_typeOf⟩)
    |>.insert _ _ (typed ⟨_, _, rfl, typedBy_hasType⟩)
    |>.insert _ _ (typed ⟨_, _, rfl, typedBy_makeTuple⟩)
    |>.insert _ _ (typed ⟨_, _, rfl, typedBy_tail⟩)
    |>.insert _ _ (typed ⟨_, _, rfl, typedBy_tupleGetItem⟩)
    |>.insert _ _ (typed ⟨_, _, rfl, typedBy_listGetItem⟩)
    |>.insert _ _ (typed ⟨_, _, rfl, typedBy_length knows_tupleLen⟩)
    |>.insert _ _ (typed ⟨_, _, rfl, typedBy_length knows_listLen⟩)
    |>.insert _ _ (typed ⟨_, _, rfl, typedBy_length knows_arrayLen⟩)
    |>.insert _ _ (typed ⟨_, _, rfl, typedBy_shape⟩)
    |>.insert _ _ (typed ⟨_, _, rfl, typedBy_broadcastShape⟩)
    |>.insert _ _ attributes
    |>.insert _ _ (typed ⟨_, _, rfl, typedBy_scalarCast⟩)

/-! ## Agreement -/

/-- A lawful ledger has the types of what it knows itself. -/
theorem Lawful.typing (lawful : w.Lawful) : w.Typing w fun x x' => x' = x ∧ w.Sure x where
  known := by
    rintro calls calls' x _ c d ⟨rfl, -⟩ hc hd
    exact lawful.once.known_unique hc hd
  typeOf := by
    rintro calls calls' x _ s u ⟨rfl, -⟩ hs hu
    exact lawful.once.typeOf_unique hs hu
  inhabits := by
    rintro calls calls' x _ s c ⟨rfl, sure⟩ hs hc
    exact lawful.inhabits sure hc hs
  rank := by
    rintro calls calls' x _ s u ⟨rfl, -⟩ hs hu
    rw [lawful.once.shapeOf_unique hs hu]

/-- A field of a known record has its declared type. -/
theorem Typing.inhabits_attribute {v : Ledger} {same : Ref → Ref → Prop} {calls' : Calls}
    {x' y' : Ref} {name : String} {declared s e : Ty} {c : Constant} (typing : v.Typing w same)
    (hx : same x x') (hy : same y y')
    (field : v.Yields calls (Infer.recordAttribute x y) (some (name, declared)))
    (typed : v.Yields calls (Infer.typeOf x) s)
    (has : (s.class?.bind fun cls => cls.attribute? name) = some e)
    (known : w.Yields calls' (Infer.access .named .value x' y') (.value (.known c))) :
    c.Inhabits e := by
  obtain ⟨d, name', hd, hname, hc⟩ := knows_access known
  obtain ⟨cls, hcls, he⟩ := Option.bind_eq_some_iff.mp has
  obtain ⟨_, -, ⟨-, none⟩ | ⟨_, key, -, hkey, some⟩⟩ := yields_recordAttribute.mp field
  · cases none
  · cases typing.known hy hkey hname
    obtain ⟨_, -, ⟨⟩⟩ := Option.map_eq_some_iff.mp some.symm
    exact (typing.inhabits hx typed hd).of_attribute? hcls he hc

theorem Lawful.agree_getAttribute (lawful : w.Lawful) :
    w.RulesAgree .type ValueRules.getAttribute getAttribute := by
  intro calls calls' args p q _ sure left right
  obtain ⟨x, y, rfl, right⟩ := yields_binary.mp right
  obtain ⟨found, hfound, right⟩ := yields_seq.mp right
  obtain ⟨_, _, ⟨⟩, found', hfound', left⟩ := yields_getAttribute left
  cases lawful.once.recordAttribute_unique hfound' hfound
  cases found with
  | none =>
    rcases left with ⟨absurd_none, -⟩ | left
    · exact absurd rfl absurd_none
    · exact lawful.agree_access (by simp) left right
  | some pair =>
    obtain ⟨s, hs, right⟩ := yields_seq.mp right
    split at right
    · rename_i e he
      cases yields_done.mp right
      refine agree_type ?_
      rintro c rfl
      rcases left with ⟨-, heq⟩ | left
      · cases heq
      · exact lawful.typing.inhabits_attribute ⟨rfl, sure x (by simp)⟩ ⟨rfl, sure y (by simp)⟩
          hfound hs he left
    · exact right.elim

/-- The rules of all tracks are type rules. -/
theorem common_typeRules : Rule.common.All fun operator rule =>
    ∃ arity, TypeRules.registry.get? operator = some (arity, rule) :=
  Registry.all_empty
    |>.insert _ _ ⟨_, rfl⟩
    |>.insert _ _ ⟨_, rfl⟩
    |>.insert _ _ ⟨_, rfl⟩
    |>.insertAll _ _ (by simp; exact ⟨⟨_, rfl⟩, ⟨_, rfl⟩⟩)
    |>.insert _ _ ⟨_, rfl⟩

/-- Every value rule agrees with the type rule of its operator. -/
theorem Lawful.meets_type (lawful : w.Lawful) : ValueRules.registry.All (w.Meets .type) := by
  refine all_valueRules (lawful.meets_common (t := .type) (by simp) common_typeRules)
    ⟨_, _, rfl, lawful.agree_getAttribute⟩ ?_
  rintro operator rule ⟨arity, rule', found, typed⟩
  refine ⟨arity, rule', found, fun calls calls' args p q _ sure left right => ?_⟩
  obtain ⟨s, rfl, inhabits⟩ :=
    typed lawful.typing (List.forall₂_same.mpr fun x hx => ⟨rfl, sure x hx⟩) right left
  exact agree_type inhabits

end Ledger

end ArrayInference
