import ArrayInference.Proofs.Lockstep.Generating
import ArrayInference.Proofs.Lockstep.Uniform

/-!
# Engines in step

Two engines are in step if their programs have something in common and they have done the same for
it: what one of them keeps under a key, the other one keeps under the key that belongs to it.
Neither keeps anything for what is not shared.
-/

namespace ArrayInference

namespace Table

variable {κ α β : Type} [DecidableEq κ]

/-- Two tables hold what belongs together under keys that belong together. -/
def Linked (dom : κ → Prop) (f : κ → κ) (R : κ → α → β → Prop) (t : Table κ α) (t' : Table κ β) :
    Prop :=
  ∀ key, dom key → Option.Rel (R key) (t.find? key) (t'.find? (f key))

theorem Linked.insert {dom : κ → Prop} {f : κ → κ} {R : κ → α → β → Prop} {t : Table κ α}
    {t' : Table κ β} (h : t.Linked dom f R t') {key : κ}
    (injective : ∀ other, dom other → f key = f other → key = other) {a : α} {b : β}
    (same : R key a b) : (t.insert key a).Linked dom f R (t'.insert (f key) b) := by
  intro other hother
  rw [find?_insert, find?_insert]
  by_cases heq : key = other
  · subst heq
    rw [if_pos rfl, if_pos rfl]
    exact .some same
  · rw [if_neg heq, if_neg fun h => heq (injective other hother h)]
    exact h other hother

theorem Linked.mono {dom : κ → Prop} {f : κ → κ} {R S : κ → α → β → Prop} {t : Table κ α}
    {t' : Table κ β} (h : t.Linked dom f R t') (imp : ∀ key a b, R key a b → S key a b) :
    t.Linked dom f S t' :=
  fun key hkey => rel_imp (h key hkey) (imp key)

end Table

namespace Overlap

variable (x : Overlap)

/-! ## What can be referred to -/

/-- A reference to a node that is there. What stands in the frame of an added graph is bound to as
many arguments as the graph has parameters. -/
inductive Knows (p : Program) : NodeRef → Prop where
  | shared {n : NodeId} {c : Context} (own : x.shares n) (within : c.Within x.shows) :
      Knows p ⟨n, c⟩
  | constant {n : NodeId} {value : Constant} (new : x.nodes ≤ n.index)
      (there : n.index < p.nodes.size) (kind : (p.node n).kind = .constant value) :
      Knows p ⟨n, .empty⟩
  | framed {n : NodeId} {g : GraphId} {args : List ArgProps} (new : x.nodes ≤ n.index)
      (there : n.index < p.nodes.size) (owner : (p.node n).owner = some g)
      (new' : x.graphs ≤ g.index) (there' : g.index < p.graphs.size)
      (count : args.length = (p.graph g).parameters.length)
      (within : ∀ a ∈ args, a.Within x.shows) :
      Knows p ⟨n, .frame .empty g args⟩

/-- A node can be looked up in a context. -/
inductive Sees (p : Program) : NodeId → Context → Prop where
  | shared {n : NodeId} {c : Context} (own : x.shares n) (within : c.Within x.shows) : Sees p n c
  | framed {n : NodeId} {g : GraphId} {args : List ArgProps} (own : x.Local p g n)
      (new : x.graphs ≤ g.index) (there : g.index < p.graphs.size)
      (count : args.length = (p.graph g).parameters.length)
      (within : ∀ a ∈ args, a.Within x.shows) :
      Sees p n (.frame .empty g args)

/-- A graph stands in a context. -/
inductive Frames (p : Program) : GraphId → Context → Prop where
  | shown {g : GraphId} {c : Context} (own : x.shows g) (within : c.Within x.shows) : Frames p g c
  | added {g : GraphId} (new : x.graphs ≤ g.index) (there : g.index < p.graphs.size) :
      Frames p g .empty

/-- A graph is called in a context. -/
inductive Enters : GraphId → Context → Prop where
  | shown {g : GraphId} {c : Context} (own : x.shows g) (within : c.Within x.shows) : Enters g c
  | added {g : GraphId} {args : List ArgProps} (new : x.graphs ≤ g.index) :
      Enters g (.frame .empty g args)

/-- References that belong together. -/
abbrev Pairs (p : Program) : Ref → Ref → Prop :=
  Ref.Pairs (fun r r' => x.Knows p r ∧ r' = x.ref r) x.shows

/-- Inferrers stand for what belongs together. -/
inductive SameCallable (p : Program) : Callable → Callable → Prop where
  | scalarShape : SameCallable p .scalarShape .scalarShape
  | anything : SameCallable p .anything .anything
  | primitive {track : Track} {operator : Primitive} {arity : Arity} {rule : Rule}
      (uniform : rule.Uniform) :
      SameCallable p (.primitive track operator arity rule) (.primitive track operator arity rule)
  | graph {track : Track} {g : GraphId} {c : Context} (frames : x.Frames p g c) :
      SameCallable p (.graph track g c) (.graph track (x.graph g) (x.ctx c))
  | metaGraph {track : Track} {m : MetaGraph} (own : ∀ g ∈ m.mentions, x.shows g) :
      SameCallable p (.metaGraph track m) (.metaGraph track m)
  | bound {f : Inferrer} {args args' : List Ref} (same : List.Forall₂ (x.Pairs p) args args') :
      SameCallable p (.bound f args) (.bound f args')

variable {x} {p q : Program}

theorem Knows.carries {r : NodeRef} (h : x.Knows p r) : x.Carries r := by
  cases h with
  | shared own within => exact .shared own within
  | constant new => exact .bare new
  | framed new _ _ new' => exact .framed new new'

theorem size_le_of_extends (h : p.Extends q) : p.graphs.size ≤ q.graphs.size := by
  by_contra hlt
  have hsome := h.graphs (Array.getElem?_eq_getElem (Nat.lt_of_not_le hlt))
  simp at hsome

theorem Knows.mono {r : NodeRef} (h : x.Knows p r) (later : p.Extends q) : x.Knows q r := by
  cases h with
  | shared own within => exact .shared own within
  | constant new there kind =>
    exact .constant new (Nat.lt_of_lt_of_le there later.size_le) (by rw [later.node_eq there, kind])
  | framed new there owner new' there' count within =>
    exact .framed new (Nat.lt_of_lt_of_le there later.size_le) (by rw [later.node_eq there, owner])
      new' (Nat.lt_of_lt_of_le there' (size_le_of_extends later))
      (by rw [later.graph_eq there', count]) within

theorem Local.extends {g : GraphId} {n : NodeId} (h : x.Local p g n) (later : p.Extends q) :
    x.Local q g n where
  new := h.new
  there := Nat.lt_of_lt_of_le h.there later.size_le
  seen := by
    rw [later.node_eq h.there]
    exact h.seen

theorem Frames.mono {g : GraphId} {c : Context} (h : x.Frames p g c) (later : p.Extends q) :
    x.Frames q g c := by
  cases h with
  | shown own within => exact .shown own within
  | added new there => exact .added new (Nat.lt_of_lt_of_le there (size_le_of_extends later))

theorem Frames.has {g : GraphId} {c : Context} (h : x.Frames p g c) : x.Has p g := by
  cases h with
  | shown own within => exact .inl own
  | added new there => exact .inr ⟨new, there⟩

theorem pairs_mono {y y' : Ref} (h : x.Pairs p y y') (later : p.Extends q) : x.Pairs q y y' := by
  induction h with
  | node same => exact .node ⟨same.1.mono later, same.2⟩
  | virtual own => exact .virtual own
  | element _ ih => exact .element ih

theorem forall_pairs_mono {ys ys' : List Ref} (h : List.Forall₂ (x.Pairs p) ys ys')
    (later : p.Extends q) : List.Forall₂ (x.Pairs q) ys ys' :=
  h.imp fun _ _ same => pairs_mono same later

theorem SameCallable.mono {c c' : Callable} (h : x.SameCallable p c c') (later : p.Extends q) :
    x.SameCallable q c c' := by
  cases h with
  | scalarShape => exact .scalarShape
  | anything => exact .anything
  | primitive uniform => exact .primitive uniform
  | graph frames => exact .graph (frames.mono later)
  | metaGraph own => exact .metaGraph own
  | bound same => exact .bound (forall_pairs_mono same later)

theorem Enters.ctx_injective {g : GraphId} {c d : Context} (h : x.Enters g c) (h' : x.Enters g d)
    (same : x.ctx c = x.ctx d) : c = d := by
  cases h with
  | shown own within =>
    cases h' with
    | shown _ within' => rwa [ctx_eq_of_within within, ctx_eq_of_within within'] at same
    | added new => exact absurd (x.shows_lt own).1 (Nat.not_lt_of_le new)
  | added new =>
    cases h' with
    | shown own _ => exact absurd (x.shows_lt own).1 (Nat.not_lt_of_le new)
    | added _ =>
      obtain ⟨-, -, rfl⟩ := Context.frame.inj same
      rfl

/-! ## Results -/

variable (x)

/-- The error with the numbers that its nodes have in the other program. -/
def error (e : InferError) : InferError :=
  { e with nodes := e.nodes.map x.node }

/-- Errors that differ in the numbers of added nodes at most. -/
def SameError (e e' : InferError) : Prop :=
  e' = e ∨ e' = x.error e

/-- The same property, or errors that differ in the numbers of added nodes at most. -/
inductive SameOutcome : Outcome → Outcome → Prop where
  | ok {p : Property} (own : p.Within x.shows) : SameOutcome (.ok p) (.ok p)
  | error {e e' : InferError} (same : x.SameError e e') : SameOutcome (.error e) (.error e')

/-- Promises with the same result, for which the same tasks wait. -/
structure SamePromise (p p' : Promise TaskId) : Prop where
  result : Option.Rel x.SameOutcome p.result p'.result
  waiters : p'.waiters = p.waiters

/-- The readers of an entry. -/
def SameReaders (rs rs' : List Entry) : Prop :=
  rs' = rs.map x.entry ∧ ∀ r ∈ rs, x.Carries r.ref

/-! ## Keys of inferrers -/

/-- The key in the other program. -/
def key (k : InferrerKey) : InferrerKey :=
  { track := k.track
    callee := match k.callee with
      | .graph g => .graph (x.graph g)
      | value => value
    ctx := x.ctx k.ctx }

/-- Keys that occur: those of graphs, and those of other constants outside every context. -/
inductive KeyOf : InferrerKey → Prop where
  | shown {track : Track} {g : GraphId} {c : Context} (own : x.shows g)
      (within : c.Within x.shows) :
      KeyOf ⟨track, .graph g, c⟩
  | added {track : Track} {g : GraphId} (new : x.graphs ≤ g.index) : KeyOf ⟨track, .graph g, .empty⟩
  | constant {track : Track} {value : Constant} (other : ∀ g, value ≠ .graph g) :
      KeyOf ⟨track, value, .empty⟩

/-- The inferrers that are kept under a key. They have the same number, and are equal unless they
are those of an added graph. -/
def SameInferrer (k : InferrerKey) (f f' : Inferrer) : Prop :=
  f'.id = f.id ∧ ((∀ g, k.callee = .graph g → x.shows g) → f' = f)

variable {x}

theorem key_graph (track : Track) (g : GraphId) (c : Context) :
    x.key ⟨track, .graph g, c⟩ = ⟨track, .graph (x.graph g), x.ctx c⟩ := rfl

theorem key_constant {value : Constant} (other : ∀ g, value ≠ .graph g) (track : Track) :
    x.key ⟨track, value, .empty⟩ = ⟨track, value, .empty⟩ := by
  cases value with
  | graph g => exact absurd rfl (other g)
  | _ => rfl

theorem KeyOf.key_injective {k l : InferrerKey} (hk : x.KeyOf k) (hl : x.KeyOf l)
    (same : x.key k = x.key l) : k = l := by
  have graphs : ∀ {track track' : Track} {g h : GraphId} {c d : Context},
      x.key ⟨track, .graph g, c⟩ = x.key ⟨track', .graph h, d⟩ →
      track = track' ∧ x.graph g = x.graph h ∧ x.ctx c = x.ctx d := by
    intro track track' g h c d heq
    simpa [key_graph] using heq
  have mixed : ∀ {track track' : Track} {g : GraphId} {c : Context} {value : Constant},
      (∀ g, value ≠ .graph g) → x.key ⟨track, .graph g, c⟩ ≠ x.key ⟨track', value, .empty⟩ := by
    intro track track' g c value other heq
    rw [key_graph, key_constant other] at heq
    exact other _ (InferrerKey.mk.inj heq).2.1.symm
  cases hk with
  | shown own within =>
    cases hl with
    | shown own' within' =>
      obtain ⟨rfl, hg, hc⟩ := graphs same
      rw [graph_eq_of_shows own, graph_eq_of_shows own'] at hg
      rw [ctx_eq_of_within within, ctx_eq_of_within within'] at hc
      rw [hg, hc]
    | added new => exact absurd (graphs same).2.1 (graph_ne_of_shows own new)
    | constant other => exact absurd same (mixed other)
  | added new =>
    cases hl with
    | shown own within => exact absurd (graphs same).2.1.symm (graph_ne_of_shows own new)
    | added new' =>
      obtain ⟨rfl, hg, -⟩ := graphs same
      rw [graph_injective new new' hg]
    | constant other => exact absurd same (mixed other)
  | constant other =>
    cases hl with
    | shown own within => exact absurd same.symm (mixed other)
    | added new => exact absurd same.symm (mixed other)
    | constant other' => rwa [key_constant other, key_constant other'] at same

/-! ## Engines -/

variable (x)

/-- Two engines that have done the same for what their programs have in common. -/
structure Engines (e e' : Engine) : Prop where
  programs : x.Programs e.program e'.program
  types : e'.types = e.types
  config : e'.config = e.config
  rules : e.rules = .builtin
  rules' : e'.rules = .builtin
  memo : e.memo.Linked (fun key => x.Carries key.ref) x.entry (fun _ => x.SamePromise) e'.memo
  entered : ∀ key, e.memo.find? key ≠ none → x.Carries key.ref
  entered' : ∀ key', e'.memo.find? key' ≠ none → ∃ key, x.Carries key.ref ∧ key' = x.entry key
  readers : e.readers.Linked (fun key => x.Carries key.ref) x.entry
    (fun _ => x.SameReaders) e'.readers
  count : e'.callables.size = e.callables.size
  callables : ∀ {i : Nat} {c c' : Callable}, e.callables[i]? = some c → e'.callables[i]? = some c' →
    x.SameCallable e.program c c'
  inferrers : e.inferrers.Linked x.KeyOf x.key x.SameInferrer e'.inferrers
  generated : e.generated.Linked (fun _ => True) id
    (fun _ g g' => x.Has e.program g ∧ g' = x.graph g) e'.generated
  contexts : ∀ g, x.shows g ∨ x.graphs ≤ g.index →
    e'.contextsOf (x.graph g) = (e.contextsOf g).map x.ctx ∧ ∀ c ∈ e.contextsOf g, x.Enters g c

variable {x} {e e' : Engine}

namespace Engines

/-- Inferrers that occur stand for what belongs together. -/
theorem callable_of_some (h : x.Engines e e') {i : Nat} {c : Callable}
    (found : e.callables[i]? = some c) :
    ∃ c', e'.callables[i]? = some c' ∧ x.SameCallable e.program c c' := by
  have there : i < e'.callables.size := h.count ▸ (Array.getElem?_eq_some_iff.mp found).1
  have found' : e'.callables[i]? = some e'.callables[i] := Array.getElem?_eq_getElem there
  exact ⟨_, found', h.callables found found'⟩

theorem callable_of_none (h : x.Engines e e') {i : Nat} (absent : e.callables[i]? = none) :
    e'.callables[i]? = none := by
  rw [Array.getElem?_eq_none_iff] at absent ⊢
  rw [h.count]
  exact absent

end Engines

end Overlap

end ArrayInference
