import ArrayInference.Proofs.Infer.Monad
import ArrayInference.Proofs.Plain.Steady
import ArrayInference.Proofs.Tracks.Inhabits
import ArrayInference.Proofs.Tracks.Locating
import ArrayInference.Proofs.Tracks.Shaped

/-!
# What is known for good

A ledger is an engine as it stands at some time, with every property that an entry was ever found to
have, also if a late check has turned the entry into a failure since. A ledger only grows, and what it
says stays true: what an inferrer stands for, what a constant is on a track, which graph was generated
for some types, where a node is found.

`Yields` says which results a computation can have if it is answered as a ledger says. How a
conditional over an unknown condition comes out is left open.
-/

namespace ArrayInference

/-- An engine at some time, and the properties that were found so far. -/
structure Ledger where
  engine : Engine
  found : Entry → Property → Prop
  /-- Whether the arguments that come from outside have the shapes that they are said to have. -/
  shapes : Prop

/-- The known value of an argument has the type that is given with it, and, if `shapes` holds, the
shape as well. -/
def ArgSpec.Fits (shapes : Prop) (a : ArgSpec) : Prop :=
  ∀ c, a.value = some c → c.Inhabits a.type
    ∧ (shapes → ∀ s, a.shape.elim (Shape.ofType a.type) .ok = .ok s → c.Shaped s)

namespace Ledger

/-- A later ledger of the same engine. -/
structure Le (v w : Ledger) : Prop where
  program : v.engine.program.Sprouts w.engine.program
  home : w.engine.types.home = v.engine.types.home
  callables : ∀ {f : Inferrer} {c : Callable},
    v.engine.callable? f = some c → w.engine.callable? f = some c
  generated : ∀ {key : GeneratedKey} {g : GraphId},
    v.engine.generated.find? key = some g → w.engine.generated.find? key = some g
  found : ∀ {key : Entry} {p : Property}, v.found key p → w.found key p
  shapes : w.shapes ↔ v.shapes

variable {u v w : Ledger}

theorem Le.refl (w : Ledger) : w.Le w :=
  ⟨.refl _, rfl, id, id, id, .rfl⟩

theorem Le.trans (h : u.Le v) (h' : v.Le w) : u.Le w where
  program := h.program.trans h'.program
  home := h'.home.trans h.home
  callables := fun known => h'.callables (h.callables known)
  generated := fun known => h'.generated (h.generated known)
  found := fun known => h'.found (h.found known)
  shapes := h'.shapes.trans h.shapes

/-! ## What questions are answered with -/

/-- Some cache of the engine's home makes it. -/
def Interns (w : Ledger) {α : Type} (make : Interning α) (a : α) : Prop :=
  ∃ cache : TypeCache, cache.home = w.engine.types.home ∧ (make.run cache).1 = a

/-- The inferrer of an operator on a track: that of its rule, or what the track assumes without
one. -/
inductive Stands (w : Ledger) (operator : Primitive) : Track → Inferrer → Prop where
  | rule {track : Track} {f : Inferrer} {arity : Arity} {rule : Rule}
      (known : (Registries.builtin.get track).get? operator = some (arity, rule))
      (callable : w.engine.callable? f = some (.primitive track operator arity rule)) :
      Stands w operator track f
  | anything {f : Inferrer} (unknown : ValueRules.registry.get? operator = none)
      (callable : w.engine.callable? f = some .anything) : Stands w operator .value f
  | scalarShape {f : Inferrer} (unknown : ShapeRules.registry.get? operator = none)
      (callable : w.engine.callable? f = some .scalarShape) : Stands w operator .shape f

/-- The property of a constant in a context, on a track. -/
inductive Holds (w : Ledger) (ctx : Context) : Constant → Track → Property → Prop where
  | operator {operator : Primitive} {track : Track} {f : Inferrer} (stands : w.Stands operator track f) :
      Holds w ctx (.primitive operator) track (.inferrer f)
  | graph {g : GraphId} {track : Track} {f : Inferrer}
      (callable : w.engine.callable? f = some (.graph track g ctx)) :
      Holds w ctx (.graph g) track (.inferrer f)
  | metaGraph {m : MetaGraph} {track : Track} {f : Inferrer}
      (callable : w.engine.callable? f = some (.metaGraph track m)) :
      Holds w ctx (.metaGraph m) track (.inferrer f)
  | recordType {cls : RecordClass} {track : Track} {f make : Inferrer} {declared type : Ty}
      (stands : w.Stands .makeRecord track make)
      (declares : w.Interns (Interning.declaredType cls) declared)
      (interned : w.Interns (Interning.generic .type) type)
      (callable : w.engine.callable? f
        = some (.bound make [.constant (.type declared) type])) :
      Holds w ctx (.recordType cls) track (.inferrer f)
  | value {c : Constant} (data : c.isCallable = false) : Holds w ctx c .value (.value (.known c))
  | type {c : Constant} {t : Ty} (data : c.isCallable = false)
      (own : w.Interns (Interning.typeOfConstant c).run (.ok t)) : Holds w ctx c .type (.type t)
  | shape {c : Constant} {s : Shape} (data : c.isCallable = false)
      (own : Shape.ofConstant c = .ok s) : Holds w ctx c .shape (.shape s)

/-- The answers that a question can have had. One about a node or a graph can have come before the
node or the graph was there. -/
def Answers (w : Ledger) : (query : Query) → query.Answer → Prop
  | .describe _, _ | .note _, _ | .specialize .., _ => True
  | .intern make, t => w.Interns make t
  | .constant value ctx track, r => ∀ p, r = .ok p → w.Holds ctx value track p
  | .graphInferrer track graph ctx, f => w.engine.callable? f = some (.graph track graph ctx)
  | .bind inner bound, f => w.engine.callable? f = some (.bound inner bound)
  | .scalarShape, f => w.engine.callable? f = some .scalarShape
  | .anything, f => w.engine.callable? f = some .anything
  | .generate generator types, r =>
      ∀ g, r = .ok g → w.engine.generated.find? { generator, types } = some g
  | .locate node ctx, r =>
      ctx.Below w.engine.program.graphs.size ∧ r = w.engine.locate node ctx
  | .node id, n => n = w.engine.program.node id ∨ n.kind = .apply []
  | .graph id, g => g = w.engine.program.graph id ∨ g.output = none

theorem Interns.mono {α : Type} {make : Interning α} {a : α} (h : v.Interns make a) (le : v.Le w) :
    w.Interns make a := by
  obtain ⟨cache, home, made⟩ := h
  exact ⟨cache, home.trans le.home.symm, made⟩

/-- Caches of one home make the same. -/
theorem Interns.unique_of_home {α : Type} {make : Interning α} {a b : α} (steady : make.Steady)
    (same : w.engine.types.home = v.engine.types.home) (h : v.Interns make a)
    (h' : w.Interns make b) : b = a := by
  obtain ⟨cache, home, rfl⟩ := h
  obtain ⟨cache', home', rfl⟩ := h'
  exact steady.answer _ _ (home'.trans (same.trans home.symm))

theorem Interns.unique {α : Type} {make : Interning α} {a b : α} (steady : make.Steady)
    (h : w.Interns make a) (h' : w.Interns make b) : b = a :=
  unique_of_home steady rfl h h'

theorem Interns.hasType {c : Constant} {t : Ty}
    (h : w.Interns (Interning.typeOfConstant c).run (.ok t)) : c.HasType t := by
  obtain ⟨cache, -, made⟩ := h
  exact ⟨cache, made⟩

theorem Interns.of_intern {make : CacheId → Ty} {t : Ty} (h : w.Interns (Interning.intern make) t) :
    t = make w.engine.types.home := by
  obtain ⟨cache, home, rfl⟩ := h
  rw [← home]
  rfl

theorem Stands.mono {operator : Primitive} {track : Track} {f : Inferrer}
    (h : v.Stands operator track f) (le : v.Le w) : w.Stands operator track f := by
  cases h with
  | rule known callable => exact .rule known (le.callables callable)
  | anything unknown callable => exact .anything unknown (le.callables callable)
  | scalarShape unknown callable => exact .scalarShape unknown (le.callables callable)

theorem Holds.mono {ctx : Context} {c : Constant} {track : Track} {p : Property}
    (h : v.Holds ctx c track p) (le : v.Le w) : w.Holds ctx c track p := by
  cases h with
  | operator stands => exact .operator (stands.mono le)
  | graph callable => exact .graph (le.callables callable)
  | metaGraph callable => exact .metaGraph (le.callables callable)
  | recordType stands declares interned callable =>
    exact .recordType (stands.mono le) (declares.mono le) (interned.mono le) (le.callables callable)
  | value data => exact .value data
  | type data own => exact .type data (own.mono le)
  | shape data own => exact .shape data own

theorem node_eq_of_le (le : v.Le w) (id : NodeId) :
    v.engine.program.node id = w.engine.program.node id
      ∨ (v.engine.program.node id).kind = .apply [] := by
  rw [Program.node]
  cases known : v.engine.program.nodes[id.index]? with
  | none => exact .inr rfl
  | some n =>
    refine .inl ?_
    rw [Program.node, le.program.nodes known]

theorem graph_eq_of_le (le : v.Le w) (id : GraphId) :
    v.engine.program.graph id = w.engine.program.graph id
      ∨ (v.engine.program.graph id).output = none := by
  rw [Program.graph]
  cases known : v.engine.program.graphs[id.index]? with
  | none => exact .inr rfl
  | some g =>
    refine .inl ?_
    rw [Program.graph, le.program.graphs known]

theorem Answers.mono {query : Query} {a : query.Answer} (h : v.Answers query a) (le : v.Le w) :
    w.Answers query a := by
  cases query with
  | describe subject => trivial
  | note d => trivial
  | specialize graph ctx => trivial
  | intern make => exact Interns.mono h le
  | constant value ctx track => exact fun p ok => (h p ok).mono le
  | graphInferrer track graph ctx => exact le.callables h
  | bind inner bound => exact le.callables h
  | scalarShape => exact le.callables h
  | anything => exact le.callables h
  | generate generator types => exact fun g ok => le.generated (h g ok)
  | locate node ctx =>
    obtain ⟨below, rfl⟩ := h
    exact ⟨below.mono le.program.size_graphs_le, (Engine.locate_of_sprouts le.program below node).symm⟩
  | node id =>
    rcases h with rfl | blank
    · exact node_eq_of_le le id
    · exact .inr blank
  | graph id =>
    rcases h with rfl | blank
    · exact graph_eq_of_le le id
    · exact .inr blank

/-! ## What a computation can find -/

/-- What calls can give. -/
abbrev Calls := Inferrer → List Ref → Property → Prop

/-- A computation can have a result if its questions are answered as a ledger says, and its calls as
`calls` says. -/
def Yields (w : Ledger) (calls : Calls) {α : Type} : Infer α → α → Prop
  | .done a, r => r = a
  | .fail _, _ | .forever, _ => False
  | .ask query next, r => ∃ a, w.Answers query a ∧ w.Yields calls (next a) r
  | .demand key next, r => ∃ p, w.found key p ∧ w.Yields calls (next p) r
  | .call callee args next, r => ∃ p, calls callee args p ∧ w.Yields calls (next p) r
  | .unify _ _ _ _ next, r => ∃ p, w.Yields calls (next p) r

/-- What calls can give that are nested at most so deep. -/
def callsWithin (w : Ledger) : Nat → Calls
  | 0, _, _, _ => False
  | n + 1, f, args, p =>
      ∃ c, w.engine.callable? f = some c ∧ w.Yields (w.callsWithin n) (c.body args) p

/-- What calls can give. -/
def Gives (w : Ledger) : Calls :=
  fun f args p => ∃ n, w.callsWithin n f args p

section

variable {α β γ : Type} {calls calls' : Calls}

theorem Yields.mono {b : Infer α} {r : α} (h : v.Yields calls b r) (le : v.Le w)
    (sub : ∀ f args p, calls f args p → calls' f args p) : w.Yields calls' b r := by
  induction b with
  | done a => exact h
  | fail e => exact h
  | forever => exact h
  | ask query next ih =>
    obtain ⟨a, answers, h⟩ := h
    exact ⟨a, answers.mono le, ih a h⟩
  | demand key next ih =>
    obtain ⟨p, found, h⟩ := h
    exact ⟨p, le.found found, ih p h⟩
  | call callee args next ih =>
    obtain ⟨p, gives, h⟩ := h
    exact ⟨p, sub _ _ _ gives, ih p h⟩
  | unify track use first second next ih =>
    obtain ⟨p, h⟩ := h
    exact ⟨p, ih p h⟩

theorem callsWithin_mono (le : v.Le w) {m n : Nat} (within : m ≤ n) {f : Inferrer} {args : List Ref}
    {p : Property} (h : v.callsWithin m f args p) : w.callsWithin n f args p := by
  induction m generalizing n f args p with
  | zero => exact h.elim
  | succ m ih =>
    obtain ⟨n, rfl⟩ : ∃ k, n = k + 1 := ⟨n - 1, by omega⟩
    obtain ⟨c, callable, h⟩ := h
    exact ⟨c, le.callables callable, h.mono le fun _ _ _ => ih (by omega)⟩

theorem Gives.mono {f : Inferrer} {args : List Ref} {p : Property} (h : v.Gives f args p)
    (le : v.Le w) : w.Gives f args p := by
  obtain ⟨n, h⟩ := h
  exact ⟨n, callsWithin_mono le (Nat.le_refl n) h⟩

/-- A result is reached by finitely many calls. -/
theorem exists_within {b : Infer α} {r : α} (h : w.Yields w.Gives b r) :
    ∃ n, w.Yields (w.callsWithin n) b r := by
  induction b with
  | done a => exact ⟨0, h⟩
  | fail e => exact h.elim
  | forever => exact h.elim
  | ask query next ih =>
    obtain ⟨a, answers, h⟩ := h
    obtain ⟨n, h⟩ := ih a h
    exact ⟨n, a, answers, h⟩
  | demand key next ih =>
    obtain ⟨p, found, h⟩ := h
    obtain ⟨n, h⟩ := ih p h
    exact ⟨n, p, found, h⟩
  | call callee args next ih =>
    obtain ⟨p, ⟨m, gives⟩, h⟩ := h
    obtain ⟨n, h⟩ := ih p h
    have le := Le.refl w
    exact ⟨max m n, p, callsWithin_mono le (Nat.le_max_left m n) gives,
      h.mono le fun _ _ _ => callsWithin_mono le (Nat.le_max_right m n)⟩
  | unify track use first second next ih =>
    obtain ⟨p, h⟩ := h
    obtain ⟨n, h⟩ := ih p h
    exact ⟨n, p, h⟩

/-- What a call gives is what the inferrer does. -/
theorem gives_iff {f : Inferrer} {args : List Ref} {p : Property} :
    w.Gives f args p ↔ ∃ c, w.engine.callable? f = some c ∧ w.Yields w.Gives (c.body args) p := by
  constructor
  · rintro ⟨n, h⟩
    cases n with
    | zero => exact h.elim
    | succ n =>
      obtain ⟨c, callable, h⟩ := h
      exact ⟨c, callable, h.mono (.refl w) fun _ _ _ h => ⟨n, h⟩⟩
  · rintro ⟨c, callable, h⟩
    obtain ⟨n, h⟩ := exists_within h
    exact ⟨n + 1, c, callable, h⟩

/-! ## The steps of a computation -/

theorem yields_bind {b : Infer α} {f : α → Infer β} {r : β} :
    w.Yields calls (b.bind f) r ↔ ∃ a, w.Yields calls b a ∧ w.Yields calls (f a) r := by
  induction b with
  | done a => simp [Infer.bind, Yields]
  | fail e => simp [Infer.bind, Yields]
  | forever => simp [Infer.bind, Yields]
  | ask query next ih => simp only [Infer.bind, Yields, ih]; grind
  | demand key next ih => simp only [Infer.bind, Yields, ih]; grind
  | call callee args next ih => simp only [Infer.bind, Yields, ih]; grind
  | unify track use first second next ih => simp only [Infer.bind, Yields, ih]; grind

@[simp] theorem yields_seq {b : Infer α} {f : α → Infer β} {r : β} :
    w.Yields calls (b >>= f) r ↔ ∃ a, w.Yields calls b a ∧ w.Yields calls (f a) r :=
  yields_bind

@[simp] theorem yields_done {a r : α} : w.Yields calls (.done a) r ↔ r = a :=
  .rfl

@[simp] theorem not_yields_fail {e : InferError} {r : α} : ¬ w.Yields calls (.fail e) r :=
  id

@[simp] theorem yields_ofExcept {result : Except InferError α} {r : α} :
    w.Yields calls (Infer.ofExcept result) r ↔ result = .ok r := by
  cases result with
  | ok a => simp [Infer.ofExcept, eq_comm]
  | error e => simp [Infer.ofExcept]

@[simp] theorem yields_entry {r : NodeRef} {track : Track} {p : Property} :
    w.Yields calls (Infer.entry r track) p ↔ w.found { ref := r, track } p := by
  simp [Infer.entry, Yields]

@[simp] theorem yields_callInferrer {f : Inferrer} {args : List Ref} {p : Property} :
    w.Yields calls (Infer.callInferrer f args) p ↔ calls f args p := by
  simp [Infer.callInferrer, Yields]

/-- A question alone gives its answer. -/
theorem yields_ask {query : Query} {a : query.Answer} :
    w.Yields calls (.ask query .done) a ↔ w.Answers query a :=
  ⟨fun ⟨_, answers, same⟩ => same ▸ answers, fun answers => ⟨a, answers, rfl⟩⟩

@[simp] theorem yields_describe {x : Ref} {text : String} :
    w.Yields calls (Infer.describe x) text :=
  yields_ask.mpr trivial

@[simp] theorem yields_note {reason : Diagnostic.Reason} {subject : Option String} {r : Unit} :
    w.Yields calls (Infer.note reason subject) r :=
  yields_ask.mpr trivial

@[simp] theorem yields_intern {make : Interning Ty} {t : Ty} :
    w.Yields calls (Infer.intern make) t ↔ w.Interns make t :=
  yields_ask

@[simp] theorem yields_constant {c : Constant} {track : Track} {p : Property} :
    w.Yields calls (Infer.constant c track) p ↔ w.Holds .empty c track p := by
  constructor
  · rintro ⟨r, answers, h⟩
    exact answers p (yields_ofExcept.mp h)
  · exact fun holds => ⟨.ok p, fun _ ok => Except.ok.inj ok ▸ holds, yields_ofExcept.mpr rfl⟩

@[simp] theorem yields_graphInferrer {track : Track} {g : GraphId} {ctx : Context} {f : Inferrer} :
    w.Yields calls (Infer.graphInferrer track g ctx) f
      ↔ w.engine.callable? f = some (.graph track g ctx) :=
  yields_ask

@[simp] theorem yields_bindArguments {inner : Inferrer} {bound : List Ref} {p : Property} :
    w.Yields calls (Infer.bindArguments inner bound) p
      ↔ ∃ f, w.engine.callable? f = some (.bound inner bound) ∧ p = .inferrer f :=
  .rfl

/-- A computation for each item of a list gives their results in order. -/
theorem yields_mapM {f : γ → Infer α} {xs : List γ} {rs : List α} :
    w.Yields calls (xs.mapM f) rs ↔ List.Forall₂ (fun x r => w.Yields calls (f x) r) xs rs := by
  induction xs generalizing rs with
  | nil =>
    rw [List.mapM_nil, List.forall₂_nil_left_iff]
    exact yields_done
  | cons x xs ih =>
    rw [List.mapM_cons, yields_seq, List.forall₂_cons_left_iff]
    constructor
    · rintro ⟨r, hr, h⟩
      obtain ⟨rest, hrest, h⟩ := yields_seq.mp h
      exact ⟨r, rest, hr, ih.mp hrest, yields_done.mp h⟩
    · rintro ⟨r, rest, hr, hrest, rfl⟩
      exact ⟨r, hr, yields_seq.mpr ⟨rest, ih.mpr hrest, yields_done.mpr rfl⟩⟩

end

end Ledger

end ArrayInference
