import ArrayInference.Proofs.Refining.Finer

/-!
# Reading in two runs

Two computations match if whatever they find is related, each in its own run. Given that the two runs
have found related properties of the same nodes, everything that rules read of their arguments
matches.
-/

namespace ArrayInference

namespace Ledger

variable {w : Ledger} {calls : Calls}

@[simp] theorem yields_asType {t u : Ty} : w.Yields calls (Infer.asType (.type t)) u ↔ u = t := by
  simp [Infer.asType, Property.toType, eq_comm]

/-- The shape that is found for an argument. -/
theorem yields_shape_toRef {a : ArgSpec} {p : Property} :
    w.Yields calls (Infer.get a.toRef .shape) p ↔ ∃ s, a.assumedShape = .ok s ∧ p = .shape s := by
  have typeOf : ∀ t, w.Yields calls (Infer.typeOf a.toRef) t ↔ t = a.type := by
    intro t
    rw [yields_typeOf]
    simp [Infer.get, ArgSpec.toRef, VirtualProps.get?]
  cases hshape : a.shape with
  | some s => simp [Infer.get, ArgSpec.toRef, VirtualProps.get?, ArgSpec.assumedShape, hshape]
  | none =>
    have get : Infer.get a.toRef .shape = (do
        let t ← Infer.typeOf a.toRef
        let s ← Infer.ofExcept (Shape.ofType t)
        .done (.shape s)) := by
      rw [ArgSpec.toRef, Infer.get, VirtualProps.get?, hshape]
      rfl
    simp [get, typeOf, ArgSpec.assumedShape, hshape]

/-! ## What a constant is -/

variable {ctx : Context} {c : Constant} {track : Track} {p : Property}

theorem Holds.eq_value (h : w.Holds ctx c .value p) (data : c.isCallable = false) :
    p = .value (.known c) := by
  cases h with
  | value => rfl
  | _ => cases data

theorem Holds.exists_type (h : w.Holds ctx c .type p) (data : c.isCallable = false) :
    ∃ t, p = .type t ∧ w.Interns (Interning.typeOfConstant c).run (.ok t) := by
  cases h with
  | type _ own => exact ⟨_, rfl, own⟩
  | _ => cases data

theorem Holds.exists_shape (h : w.Holds ctx c .shape p) (data : c.isCallable = false) :
    ∃ s, p = .shape s ∧ Shape.ofConstant c = .ok s := by
  cases h with
  | shape _ own => exact ⟨_, rfl, own⟩
  | _ => cases data

theorem Holds.exists_operator {operator : Primitive} (h : w.Holds ctx (.primitive operator) track p) :
    ∃ f, p = .inferrer f ∧ w.Stands operator track f := by
  cases h with
  | operator stands => exact ⟨_, rfl, stands⟩
  | value data | type data | shape data => cases data

theorem Holds.exists_graph {g : GraphId} (h : w.Holds ctx (.graph g) track p) :
    ∃ f, p = .inferrer f ∧ w.engine.callable? f = some (.graph track g ctx) := by
  cases h with
  | graph callable => exact ⟨_, rfl, callable⟩
  | value data | type data | shape data => cases data

theorem Holds.exists_metaGraph {m : MetaGraph} (h : w.Holds ctx (.metaGraph m) track p) :
    ∃ f, p = .inferrer f ∧ w.engine.callable? f = some (.metaGraph track m) := by
  cases h with
  | metaGraph callable => exact ⟨_, rfl, callable⟩
  | value data | type data | shape data => cases data

theorem Holds.exists_recordType {cls : RecordClass} (h : w.Holds ctx (.recordType cls) track p) :
    ∃ f make declared type, p = .inferrer f ∧ w.Stands .makeRecord track make
      ∧ w.Interns (Interning.declaredType cls) declared ∧ w.Interns (Interning.generic .type) type
      ∧ w.engine.callable? f = some (.bound make [.constant (.type declared) type]) := by
  cases h with
  | recordType stands declares interned callable =>
    exact ⟨_, _, _, _, rfl, stands, declares, interned, callable⟩
  | value data | type data | shape data => cases data

end Ledger

namespace Sides

/-- Whatever the two runs have found of the same nodes is related. -/
structure Reads (s : Sides) (v w : Ledger) : Prop where
  left : v.engine = s.left
  right : w.engine = s.right
  home : w.engine.types.home = v.engine.types.home
  found : ∀ {m : Facet} {r r' : NodeRef} {p p' : Property}, s.Places r r' →
    v.found ⟨r, m.left⟩ p → w.found ⟨r', m.right⟩ p' → s.Finer m p p'

section

variable {s : Sides} {v w : Ledger} {calls calls' : Ledger.Calls} {m : Facet} {x x' : Ref}
  {p p' : Property} {t t' : Ty} {c : Constant}

/-- What is found of an argument is what is given of it. -/
theorem finer_given {a a' : ArgSpec} (refines : a.Refines a') (own : a.Within s.program.Has)
    (left : v.Yields calls (Infer.get a.toRef m.left) p)
    (right : w.Yields calls' (Infer.get a'.toRef m.right) p') : s.Finer m p p' := by
  cases m with
  | typed =>
    cases Ledger.yields_done.mp left
    cases Ledger.yields_done.mp right
    refine .typed fun c known => ?_
    cases hvalue : a'.value with
    | none =>
      rw [hvalue] at known
      cases known
    | some d =>
      rw [hvalue] at known
      cases known
      exact refines.type ▸ refines.inhabits c hvalue
  | same t =>
    cases t with
    | value =>
      cases Ledger.yields_done.mp left
      cases Ledger.yields_done.mp right
      rcases refines.value with unknown | same
      · rw [unknown]
        exact .anything _
      · rw [same]
        cases hvalue : a.value with
        | none => exact .anything _
        | some c => exact .known (own.value c hvalue)
    | type =>
      cases Ledger.yields_done.mp left
      cases Ledger.yields_done.mp right
      rw [refines.type]
      exact .type own.type
    | shape =>
      obtain ⟨b, hb, rfl⟩ := Ledger.yields_shape_toRef.mp left
      obtain ⟨b', hb', rfl⟩ := Ledger.yields_shape_toRef.mp right
      exact .shape (refines.shape b b' hb hb')

theorem Reads.get (h : s.Reads v w) (same : s.Names x x')
    (left : v.Yields calls (Infer.get x m.left) p)
    (right : w.Yields calls' (Infer.get x' m.right) p') : s.Finer m p p' := by
  induction x generalizing x' p p' with
  | node r =>
    cases same with
    | node same => exact h.found same (Ledger.yields_entry.mp left) (Ledger.yields_entry.mp right)
  | virtual props =>
    cases same with
    | given refines own => exact finer_given refines own left right
  | element container ih =>
    cases same with
    | element same =>
      simp only [Infer.get, Ledger.yields_seq, Ledger.yields_ofExcept] at left right
      obtain ⟨q, hq, left⟩ := left
      obtain ⟨q', hq', right⟩ := right
      exact (ih same hq hq').toElement left right

theorem Reads.known (h : s.Reads v w) (same : s.Names x x') (left : v.Knows calls x c)
    (right : w.Yields calls' (Infer.get x' .value) p') :
    p' = .value (.known c) ∧ c.Within s.program.Has :=
  (h.get (m := .same .value) same left right).of_known

theorem Reads.typeOf (h : s.Reads v w) (same : s.Names x x')
    (left : v.Yields calls (Infer.typeOf x) t) (right : w.Yields calls' (Infer.typeOf x') t') :
    t' = t ∧ t.Within s.program.Has := by
  obtain ⟨p, hp, left⟩ := Ledger.yields_typeOf.mp left
  obtain ⟨p', hp', right⟩ := Ledger.yields_typeOf.mp right
  cases h.get (m := .same .type) same hp hp' with
  | type own =>
    rw [Ledger.yields_asType.mp left, Ledger.yields_asType.mp right]
    exact ⟨rfl, own⟩
  | inferrer kin =>
    rw [(Ledger.yields_intern.mp left).of_intern, (Ledger.yields_intern.mp right).of_intern, h.home]
    exact ⟨rfl, forall_mem_of_eq_nil rfl⟩

theorem Reads.inhabits (h : s.Reads v w) (same : s.Names x x')
    (left : v.Yields calls (Infer.typeOf x) t) (right : w.Knows calls' x' c) : c.Inhabits t := by
  obtain ⟨p, hp, left⟩ := Ledger.yields_typeOf.mp left
  cases h.get (m := .typed) same hp right with
  | typed inhabits =>
    rw [Ledger.yields_asType.mp left]
    exact inhabits c rfl

theorem Reads.shapeOf (h : s.Reads v w) (same : s.Names x x') {a a' : Shape}
    (left : v.Yields calls (Infer.shapeOf x) a) (right : w.Yields calls' (Infer.shapeOf x') a') :
    a'.AtMost a := by
  rw [Infer.shapeOf, Ledger.yields_seq] at left right
  obtain ⟨p, hp, left⟩ := left
  obtain ⟨p', hp', right⟩ := right
  cases h.get (m := .same .shape) same hp hp' with
  | shape le =>
    cases Ledger.yields_ofExcept.mp left
    cases Ledger.yields_ofExcept.mp right
    exact le
  | inferrer kin =>
    rw [Ledger.yields_done.mp left, Ledger.yields_done.mp right]
    exact .noShape

theorem Reads.inferrerOf (h : s.Reads v w) (same : s.Names x x') {f f' : Inferrer}
    (left : v.Yields calls (Infer.inferrerOf x m.left) f)
    (right : w.Yields calls' (Infer.inferrerOf x' m.right) f') : s.Kin m f f' := by
  simp only [Infer.inferrerOf, Ledger.yields_seq, Ledger.yields_ofExcept] at left right
  obtain ⟨p, hp, left⟩ := left
  obtain ⟨p', hp', right⟩ := right
  have finer := h.get same hp hp'
  cases p <;> cases left
  cases p' <;> cases right
  exact finer.kin

/-- The first run finds types that have what the second one knows. -/
theorem Reads.typing (h : s.Reads v w) : v.Typing w s.Names where
  known := fun same hc hd => by
    cases (h.known same hc hd).1
    rfl
  typeOf := fun same ht hu => (h.typeOf same ht hu).1
  inhabits := h.inhabits
  rank := fun same ha hb => (h.shapeOf same ha hb).rank?_eq

/-! ## Constants -/

theorem names_typeConstant {u : Ty} (own : u.Within s.program.Has) (generic : t.Within s.program.Has)
    (has : (Constant.type u).Inhabits t) :
    s.Names (.constant (.type u) t) (.constant (.type u) t) := by
  let a : ArgSpec := { type := t, shape := none, value := some (.type u) }
  refine @Names.given s a a ⟨rfl, .inr rfl, ?_, ?_⟩ ⟨generic, ?_⟩
  · intro b b' hb hb'
    rw [hb, Except.ok.injEq] at hb'
    exact hb' ▸ .refl b
  · rintro c ⟨⟩
    exact has
  · rintro c ⟨⟩
    exact own

theorem Reads.kin_operator (h : s.Reads v w) {operator : Primitive} {f f' : Inferrer}
    (left : v.Stands operator m.left f) (right : w.Stands operator m.right f') : s.Kin m f f' :=
  .operator (left.congr h.left) (right.congr h.right)

theorem Reads.holds_data (h : s.Reads v w) {ctx ctx' : Context} (own : c.Within s.program.Has)
    (data : c.isCallable = false) (left : v.Holds ctx c m.left p)
    (right : w.Holds ctx' c m.right p') : s.Finer m p p' := by
  cases m with
  | typed =>
    obtain ⟨t, rfl, typed⟩ := left.exists_type data
    obtain rfl := right.eq_value data
    refine .typed ?_
    rintro c ⟨⟩
    exact Constant.inhabits_of_hasType _ _ typed.hasType
  | same t =>
    cases t with
    | value =>
      obtain rfl := left.eq_value data
      obtain rfl := right.eq_value data
      exact .known own
    | type =>
      obtain ⟨t, rfl, typed⟩ := left.exists_type data
      obtain ⟨t', rfl, typed'⟩ := right.exists_type data
      cases typed.unique_of_home (Interning.steady_typeOfConstant _) h.home typed'
      exact .type (Constant.HasType.within _ _ typed.hasType own)
    | shape =>
      obtain ⟨a, rfl, shaped⟩ := left.exists_shape data
      obtain ⟨a', rfl, shaped'⟩ := right.exists_shape data
      cases shaped.symm.trans shaped'
      exact .shape (.refl a)

/-- A constant is the same in two runs if the graph that it may be stands in the same context. -/
theorem Reads.holds (h : s.Reads v w) {ctx ctx' : Context} (own : c.Within s.program.Has)
    (around : (∀ g, c ≠ .graph g) ∨ s.Around ctx ctx') (left : v.Holds ctx c m.left p)
    (right : w.Holds ctx' c m.right p') : s.Finer m p p' := by
  cases c with
  | primitive operator =>
    obtain ⟨f, rfl, stands⟩ := left.exists_operator
    obtain ⟨f', rfl, stands'⟩ := right.exists_operator
    exact .inferrer (h.kin_operator stands stands')
  | graph g =>
    obtain ⟨f, rfl, callable⟩ := left.exists_graph
    obtain ⟨f', rfl, callable'⟩ := right.exists_graph
    rcases around with other | around
    · exact absurd rfl (other g)
    · exact .inferrer (.graph (Constant.within_graph.mp own) around (h.left ▸ callable)
        (h.right ▸ callable'))
  | metaGraph generator =>
    obtain ⟨f, rfl, callable⟩ := left.exists_metaGraph
    obtain ⟨f', rfl, callable'⟩ := right.exists_metaGraph
    exact .inferrer (.metaGraph own (h.left ▸ callable) (h.right ▸ callable'))
  | recordType cls =>
    obtain ⟨f, make, declared, type, rfl, stands, declares, interned, callable⟩ :=
      left.exists_recordType
    obtain ⟨f', make', declared', type', rfl, stands', declares', interned', callable'⟩ :=
      right.exists_recordType
    rw [declares.unique_of_home (Interning.steady_declaredType _) h.home declares',
      interned.unique_of_home (Interning.steady_generic _) h.home interned'] at callable'
    refine .inferrer (.bound (h.kin_operator stands stands') (.cons ?_ .nil) (h.left ▸ callable)
      (h.right ▸ callable'))
    obtain ⟨cache, -, rfl⟩ := declares
    rw [interned.of_intern]
    exact names_typeConstant (Ty.within_record.mpr (Constant.within_recordType.mp own))
      (forall_mem_of_eq_nil rfl) (Constant.inhabits_type _ _)
  | _ => exact h.holds_data own rfl left right

end

end Sides

/-! ## Computations that match -/

namespace Book

variable {k l : Book} {α β γ δ : Type} {R : α → β → Prop} {S : γ → δ → Prop} {P : α → Prop}

/-- Whatever the two computations find is related. -/
def Matches (k l : Book) (R : α → β → Prop) (b : Infer α) (b' : Infer β) : Prop :=
  ∀ ⦃r : α⦄ ⦃r' : β⦄, k.Finds b r → l.Finds b' r' → R r r'

/-- The two computations find the same. -/
abbrev Same (k l : Book) (P : α → Prop) (b b' : Infer α) : Prop :=
  k.Matches l (fun r r' => r' = r ∧ P r) b b'

theorem Matches.seq {b : Infer α} {b' : Infer β} {f : α → Infer γ} {f' : β → Infer δ}
    (h : k.Matches l R b b') (next : ∀ a a', R a a' → k.Matches l S (f a) (f' a')) :
    k.Matches l S (b >>= f) (b' >>= f') := by
  intro r r' left right
  obtain ⟨a, ha, left⟩ := finds_seq.mp left
  obtain ⟨a', ha', right⟩ := finds_seq.mp right
  exact next a a' (h ha ha') left right

theorem Matches.same_seq {b b' : Infer α} {f : α → Infer γ} {f' : α → Infer δ}
    (h : k.Same l P b b') (next : ∀ a, P a → k.Matches l S (f a) (f' a)) :
    k.Matches l S (b >>= f) (b' >>= f') :=
  h.seq fun a _ ⟨same, own⟩ => same ▸ next a own

theorem matches_done {a : α} {a' : β} (h : R a a') : k.Matches l R (.done a) (.done a') := by
  rintro _ _ rfl rfl
  exact h

theorem matches_fail {e : InferError} {b' : Infer β} : k.Matches l R (.fail e) b' :=
  fun _ _ left => left.elim

theorem matches_fail_right {e : InferError} {b : Infer α} : k.Matches l R b (.fail e) :=
  fun _ _ _ right => right.elim

theorem same_done {a : α} (own : P a) : k.Same l P (.done a) (.done a) :=
  matches_done ⟨rfl, own⟩

theorem finds_ofExcept {result : Except InferError α} {r : α}
    (h : k.Finds (Infer.ofExcept result) r) : result = .ok r :=
  Ledger.yields_ofExcept.mp h.yields

theorem matches_ofExcept {r : Except InferError α} {r' : Except InferError β}
    (h : ∀ a a', r = .ok a → r' = .ok a' → R a a') :
    k.Matches l R (Infer.ofExcept r) (Infer.ofExcept r') :=
  fun _ _ left right => h _ _ (finds_ofExcept left) (finds_ofExcept right)

theorem same_ofExcept {r : Except InferError α} (own : ∀ a, r = .ok a → P a) :
    k.Same l P (Infer.ofExcept r) (Infer.ofExcept r) :=
  matches_ofExcept fun a _ ok ok' => ⟨Except.ok.inj (ok'.symm.trans ok), own a ok⟩

/-- What is computed from data that both runs have is the same. -/
theorem matches_ofExcept_seq {r : Except InferError α} {f : α → Infer γ} {f' : α → Infer δ}
    (next : ∀ a, k.Matches l S (f a) (f' a)) :
    k.Matches l S (Infer.ofExcept r >>= f) (Infer.ofExcept r >>= f') :=
  (same_ofExcept (P := fun _ => True) fun _ _ => trivial).same_seq fun a _ => next a

theorem matches_mapM {same : γ → δ → Prop} {f : γ → Infer α} {f' : δ → Infer β} {xs : List γ}
    {xs' : List δ} (related : List.Forall₂ same xs xs')
    (each : ∀ {x x'}, same x x' → k.Matches l R (f x) (f' x')) :
    k.Matches l (List.Forall₂ R) (xs.mapM f) (xs'.mapM f') := by
  induction related with
  | nil => exact matches_done .nil
  | cons first _ ih =>
    rw [List.mapM_cons, List.mapM_cons]
    exact (each first).seq fun a a' ha => ih.seq fun as as' has => matches_done (.cons ha has)

end Book

namespace Sides

/-- Whatever the two runs have found of the same nodes and in the same calls is related; and what the
first one finds of a conditional that it leaves undecided is no more than what it finds of either
branch. -/
structure Level (s : Sides) (k l : Book) : Prop extends s.Reads k.toLedger l.toLedger where
  calls : ∀ {m : Facet} {f f' : Inferrer} {xs xs' : List Ref} {p p' : Property}, s.Kin m f f' →
    List.Forall₂ s.Names xs xs' → k.calls f xs p → l.calls f' xs' p' → s.Finer m p p'
  both : ∀ {track : Track} {use : BranchUse} {x y : Ref} {p : Property},
    k.verdicts track use x y p → k.Covers track use x p ∧ k.Covers track use y p
  either : ∀ {track : Track} {use : BranchUse} {x y : Ref} {p : Property},
    l.verdicts track use x y p →
      l.Finds (Infer.branch track use x) p ∨ l.Finds (Infer.branch track use y) p

variable {s : Sides} {k l : Book} {m : Facet} {x x' y y' z z' : Ref} {xs xs' : List Ref}

theorem Level.get (h : s.Level k l) (m : Facet) (same : s.Names x x') :
    k.Matches l (s.Finer m) (Infer.get x m.left) (Infer.get x' m.right) :=
  fun _ _ left right => h.toReads.get same left.yields right.yields

theorem Level.typeOf (h : s.Level k l) (same : s.Names x x') :
    k.Same l (Ty.Within s.program.Has) (Infer.typeOf x) (Infer.typeOf x') :=
  fun _ _ left right => h.toReads.typeOf same left.yields right.yields

theorem Level.valueOf (h : s.Level k l) (same : s.Names x x') :
    k.Matches l (fun a a' => a = .anything ∨ ∃ c, a = .known c ∧ a' = .known c ∧ c.Within s.program.Has)
      (Infer.valueOf x) (Infer.valueOf x') := by
  intro a a' left right
  cases a with
  | anything => exact .inl rfl
  | known c =>
    obtain ⟨p', hp', known'⟩ := Ledger.yields_valueOf.mp right.yields
    obtain ⟨rfl, own⟩ := h.known same (Ledger.yields_known.mp left.yields) hp'
    cases known'
    exact .inr ⟨c, rfl, rfl, own⟩

theorem Level.constantOf (h : s.Level k l) (same : s.Names x x') (what : String) :
    k.Same l (Constant.Within s.program.Has) (Infer.constantOf x what) (Infer.constantOf x' what) := by
  intro c c' left right
  obtain ⟨same, own⟩ := h.known same (Ledger.yields_constantOf.mp left.yields)
    (Ledger.yields_constantOf.mp right.yields)
  cases same
  exact ⟨rfl, own⟩

theorem Level.shapeOf (h : s.Level k l) (same : s.Names x x') :
    k.Matches l (fun a a' => a'.AtMost a) (Infer.shapeOf x) (Infer.shapeOf x') :=
  fun _ _ left right => h.toReads.shapeOf same left.yields right.yields

theorem Level.inferrerOf (h : s.Level k l) (m : Facet) (same : s.Names x x') :
    k.Matches l (s.Kin m) (Infer.inferrerOf x m.left) (Infer.inferrerOf x' m.right) :=
  fun _ _ left right => h.toReads.inferrerOf same left.yields right.yields

theorem Level.callInferrer (h : s.Level k l) {f f' : Inferrer} (kin : s.Kin m f f')
    (same : List.Forall₂ s.Names xs xs') :
    k.Matches l (s.Finer m) (Infer.callInferrer f xs) (Infer.callInferrer f' xs') :=
  fun _ _ left right => h.calls kin same (Ledger.yields_callInferrer.mp left.yields)
    (Ledger.yields_callInferrer.mp right.yields)

theorem Level.bindArguments (h : s.Level k l) {f f' : Inferrer} (kin : s.Kin m f f')
    (same : List.Forall₂ s.Names xs xs') :
    k.Matches l (s.Finer m) (Infer.bindArguments f xs) (Infer.bindArguments f' xs') := by
  intro p p' left right
  obtain ⟨g, callable, rfl⟩ := Ledger.yields_bindArguments.mp left.yields
  obtain ⟨g', callable', rfl⟩ := Ledger.yields_bindArguments.mp right.yields
  exact .inferrer (.bound kin same (h.left ▸ callable) (h.right ▸ callable'))

theorem Level.intern (h : s.Level k l) {make : Interning Ty} (steady : make.Steady)
    (own : ∀ cache, (make.run cache).1.Within s.program.Has) :
    k.Same l (Ty.Within s.program.Has) (Infer.intern make) (Infer.intern make) := by
  intro t t' left right
  have made := Ledger.yields_intern.mp left.yields
  refine ⟨made.unique_of_home steady h.home (Ledger.yields_intern.mp right.yields), ?_⟩
  obtain ⟨cache, -, rfl⟩ := made
  exact own cache

theorem Level.constant (h : s.Level k l) (m : Facet) {c : Constant} (own : c.Within s.program.Has) :
    k.Matches l (s.Finer m) (Infer.constant c m.left) (Infer.constant c m.right) :=
  fun _ _ left right => h.holds own (.inr .empty) (Ledger.yields_constant.mp left.yields)
    (Ledger.yields_constant.mp right.yields)

theorem Level.graphInferrer (h : s.Level k l) (m : Facet) {g : GraphId} (own : s.program.Has g) :
    k.Matches l (s.Kin m) (Infer.graphInferrer m.left g .empty)
      (Infer.graphInferrer m.right g .empty) :=
  fun _ _ left right => .graph own .empty (h.left ▸ Ledger.yields_graphInferrer.mp left.yields)
    (h.right ▸ Ledger.yields_graphInferrer.mp right.yields)

/-- References to elements of the same containers. -/
theorem names_elements (same : List.Forall₂ s.Names xs xs') :
    List.Forall₂ s.Names (xs.map .element) (xs'.map .element) := by
  rw [List.forall₂_map_left_iff, List.forall₂_map_right_iff]
  exact same.imp fun _ _ => .element

end Sides

end ArrayInference
