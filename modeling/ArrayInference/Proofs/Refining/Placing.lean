import ArrayInference.Proofs.Refining.ShapeRules
import ArrayInference.Proofs.Refining.TypeRules
import ArrayInference.Proofs.Tracks.Calling

/-!
# Nodes and calls in two runs

The same node is of the same kind in two runs, and refers to the same nodes; if it is a parameter, it
is bound to the same argument. So what two runs find of a node is related if what they have found
before is, and so is what they find in a call. Main statements: `Level.infer` and `Level.body`.
-/

namespace ArrayInference

/-- What is told of the elements of two lists is related if the elements are. -/
theorem forall₂_of_both {α β γ δ : Type} {R : α → β → Prop} {P : α → γ → Prop} {Q : β → δ → Prop}
    {S : γ → δ → Prop} {xs : List α} {xs' : List β} {ys : List γ} {ys' : List δ}
    (same : List.Forall₂ R xs xs') (left : List.Forall₂ P xs ys) (right : List.Forall₂ Q xs' ys')
    (step : ∀ {x x' y y'}, R x x' → P x y → Q x' y' → S y y') : List.Forall₂ S ys ys' := by
  induction same generalizing ys ys' with
  | nil =>
    cases left
    cases right
    exact .nil
  | cons first _ ih =>
    cases left with
    | cons hx left =>
      cases right with
      | cons hx' right => exact .cons (step first hx hx') (ih left right)

theorem forall_mem_of_forall₂ {α β : Type} {R : α → β → Prop} {P : α → Prop} {Q : β → Prop}
    {xs : List α} {ys : List β} (h : List.Forall₂ R xs ys) (left : ∀ {x y}, R x y → P x)
    (right : ∀ {x y}, R x y → Q y) : (∀ x ∈ xs, P x) ∧ ∀ y ∈ ys, Q y := by
  induction h with
  | nil => simp
  | cons first _ ih =>
    exact ⟨List.forall_mem_cons.mpr ⟨left first, ih.1⟩, List.forall_mem_cons.mpr ⟨right first, ih.2⟩⟩

theorem Ledger.yields_get_argProps {w : Ledger} {calls : Ledger.Calls} {x : Ref} {a : ArgProps}
    (h : w.Yields calls (Infer.argProps x) a) (t : Track) :
    w.Yields calls (Infer.get x t) (a.get t) := by
  simp only [Infer.argProps, yields_seq, yields_done] at h
  obtain ⟨value, hvalue, type, htype, shape, hshape, rfl⟩ := h
  cases t with
  | value => exact hvalue
  | type => exact htype
  | shape => exact hshape

namespace Program

variable {original p p' q q' : Program} {x : Overlap} {g : GraphId} {n : NodeId}

/-- A node that was added to both programs. -/
theorem Twins.added (twins : Twins original p p' x q q') (new : x.nodes ≤ n.index)
    (there : n.index < q.nodes.size) : x.Added q (p.node n) (p'.node (x.node n)) := by
  have there' : (x.node n).index < q'.nodes.size := by
    rw [twins.programs.nodes', Overlap.node]
    simp only [carried_of_le new]
    omega
  rw [twins.left.node_eq there, twins.right.node_eq there']
  exact twins.programs.added new there

/-- A graph that was added to both programs. -/
theorem Twins.drawn (twins : Twins original p p' x q q') (new : x.graphs ≤ g.index)
    (there : q.Has g) : x.Drawn q g (p.graph g) (p'.graph (x.graph g)) := by
  have there' : q'.Has (x.graph g) := by
    rw [Has, twins.programs.graphs', Overlap.graph]
    simp only [carried_of_le new]
    have : g.index < q.graphs.size := there
    omega
  rw [twins.left.graph_eq there, twins.right.graph_eq there']
  exact twins.programs.drawn new there

end Program

namespace Sides

open Book

/-- Two engines that have kept to the program that they started from. -/
structure Sound (s : Sides) : Prop where
  closed : s.program.Closed
  left : s.left.Records s.program
  right : s.right.Records s.program

variable {s : Sides} {k l : Book} {m : Facet} {c c' : Context} {r r' : NodeRef}

/-! ## Contexts -/

theorem Around.dropTo (h : s.Around c c') (g : GraphId) : s.Around (c.dropTo g) (c'.dropTo g) := by
  induction c generalizing c' with
  | empty =>
    cases h
    exact .empty
  | frame parent f args ih =>
    cases h with
    | frame around own passed =>
      rw [Context.dropTo, Context.dropTo]
      split
      · exact .frame around own passed
      · exact ih around

theorem Around.filter (h : s.Around c c') (owner : Option GraphId) :
    s.Around (c.filter owner) (c'.filter owner) := by
  cases owner with
  | none => exact .empty
  | some g => exact h.dropTo g

theorem Passed.get {a a' : ArgProps} (h : s.Passed a a') (m : Facet) :
    s.Finer m (a.get m.left) (a'.get m.right) := by
  cases h with
  | mk each => exact each m

/-- The properties that one parameter is bound to. -/
theorem finer_argument {args args' : List ArgProps} (passed : List.Forall₂ s.Passed args args')
    {index : Nat} {p p' : Property} (left : (args[index]?.map fun a => a.get m.left) = some p)
    (right : (args'[index]?.map fun a => a.get m.right) = some p') : s.Finer m p p' := by
  obtain ⟨a, ha, rfl⟩ := Option.map_eq_some_iff.mp left
  obtain ⟨a', ha', rfl⟩ := Option.map_eq_some_iff.mp right
  exact (forall₂_getElem? passed ha ha').get m

theorem Around.argument? (h : s.Around c c') {g : GraphId} {index : Nat} {p p' : Property}
    (left : c.argument? g index m.left = some p)
    (right : c'.argument? g index m.right = some p') : s.Finer m p p' := by
  have around := h.dropTo g
  rw [Context.argument?] at left right
  cases hc : c.dropTo g with
  | empty =>
    rw [hc] at left
    cases left
  | frame parent f args =>
    rw [hc] at left around
    cases hc' : c'.dropTo g with
    | empty =>
      rw [hc'] at right
      cases right
    | frame parent' f' args' =>
      rw [hc'] at right around
      cases around with
      | frame _ _ passed => exact finer_argument passed left right

/-! ## Where nodes stand -/

theorem Sound.node_eq (h : s.Sound) {n : NodeId} (own : n.index < s.program.nodes.size) :
    s.left.program.node n = s.program.node n ∧ s.right.program.node n = s.program.node n :=
  ⟨h.left.sprouts.node_eq own, h.right.sprouts.node_eq own⟩

theorem Sound.graph_eq (h : s.Sound) {g : GraphId} (own : s.program.Has g) :
    s.left.program.graph g = s.program.graph g ∧ s.right.program.graph g = s.program.graph g :=
  ⟨h.left.sprouts.graph_eq own, h.right.sprouts.graph_eq own⟩

theorem Sound.places_shared (h : s.Sound) {n : NodeId} (own : n.index < s.program.nodes.size)
    (around : s.Around c c') : s.Places (s.left.locate n c) (s.right.locate n c') := by
  obtain ⟨left, right⟩ := h.node_eq own
  rw [Engine.locate, Engine.locate, left, right]
  refine .shared own ?_
  cases hkind : (s.program.node n).kind with
  | constant value =>
    cases value with
    | graph g =>
      obtain ⟨left, right⟩ := h.graph_eq (Constant.within_graph.mp (h.closed.constants hkind))
      dsimp only
      rw [left, right]
      exact around.filter _
    | _ => exact .empty
  | parameter | apply => exact around.filter _

/-- What stands in the frame of an added graph is in this graph, or is a constant. -/
theorem places_framed {x : Overlap} {q q' : Program} {g : GraphId} {n : NodeId}
    (twins : Program.Twins s.program s.left.program s.right.program x q q')
    (new : x.graphs ≤ g.index) (here : x.Local q g n) {args args' : List ArgProps}
    (passed : List.Forall₂ s.Passed args args') :
    s.Places (s.left.locate n (.frame .empty g args))
      (s.right.locate (x.node n) (.frame .empty (x.graph g) args')) := by
  have added := twins.added here.new here.there
  have seen := here.seen
  rw [← twins.left.node_eq here.there] at seen
  have frame : ∀ {f : GraphId}, f = g →
      s.Places ⟨n, (Context.frame .empty g args).filter (some f)⟩
        ⟨x.node n, (Context.frame .empty (x.graph g) args').filter (some (x.graph f))⟩ := by
    rintro f rfl
    rw [Context.filter, Context.filter, Context.dropTo, if_pos rfl, Context.dropTo, if_pos rfl]
    exact .framed twins new here passed
  rw [Engine.locate, Engine.locate]
  generalize hn : s.left.program.node n = node at added seen
  generalize hn' : s.right.program.node (x.node n) = node' at added
  cases added with
  | constant own data =>
    have left := congrArg Node.kind hn
    have right := congrArg Node.kind hn'
    split
    · rename_i f same
      cases same
      exact absurd rfl (data f)
    · exact .constant (fun f mentioned => twins.shows f (own f mentioned)) data left right
    · contradiction
    · contradiction
  | parameter =>
    obtain ⟨⟨⟩⟩ | ⟨_, ⟨⟩⟩ := seen
    exact frame rfl
  | apply =>
    obtain ⟨⟨⟩⟩ | ⟨_, ⟨⟩⟩ := seen
    exact frame rfl

/-! ## What nodes are -/

/-- The same node in two runs, by what kind of node it is. -/
inductive Alike (s : Sides) (r r' : NodeRef) : Prop where
  | constant {c : Constant} (own : c.Within s.program.Has)
      (around : (∀ g, c ≠ .graph g) ∨ s.Around r.ctx r'.ctx)
      (left : (s.left.program.node r.node).kind = .constant c)
      (right : (s.right.program.node r'.node).kind = .constant c) : Alike s r r'
  | parameter {g g' : GraphId} {index : Nat}
      (left : (s.left.program.node r.node).kind = .parameter g index)
      (right : (s.right.program.node r'.node).kind = .parameter g' index)
      (bound : ∀ {m : Facet} {p p' : Property}, r.ctx.argument? g index m.left = some p →
        r'.ctx.argument? g' index m.right = some p' → s.Finer m p p') : Alike s r r'
  | apply {inputs inputs' : List NodeId}
      (left : (s.left.program.node r.node).kind = .apply inputs)
      (right : (s.right.program.node r'.node).kind = .apply inputs')
      (each : List.Forall₂ (fun n n' => s.Places (s.left.locate n r.ctx) (s.right.locate n' r'.ctx))
        inputs inputs') : Alike s r r'

theorem Sound.alike (h : s.Sound) (same : s.Places r r') : s.Alike r r' := by
  cases same with
  | @shared n c c' own around =>
    obtain ⟨left, right⟩ := h.node_eq own
    cases hkind : (s.program.node n).kind with
    | constant value =>
      exact .constant (h.closed.constants hkind) (.inr around) ((congrArg Node.kind left).trans hkind)
        ((congrArg Node.kind right).trans hkind)
    | parameter g index =>
      exact .parameter ((congrArg Node.kind left).trans hkind)
        ((congrArg Node.kind right).trans hkind) around.argument?
    | apply inputs =>
      refine .apply ((congrArg Node.kind left).trans hkind)
        ((congrArg Node.kind right).trans hkind) ?_
      exact List.forall₂_same.mpr fun input there =>
        h.places_shared (h.closed.inputs hkind input there) around
  | constant own data left right => exact .constant own (.inl data) left right
  | @framed x q q' g n args args' twins new here passed =>
    have added := twins.added here.new here.there
    have seen := here.seen
    rw [← twins.left.node_eq here.there] at seen
    generalize hn : s.left.program.node n = node at added seen
    generalize hn' : s.right.program.node (x.node n) = node' at added
    have left := congrArg Node.kind hn
    have right := congrArg Node.kind hn'
    cases added with
    | constant own data =>
      exact .constant (fun f mentioned => twins.shows f (own f mentioned)) (.inl data) left right
    | parameter =>
      obtain ⟨⟨⟩⟩ | ⟨_, ⟨⟩⟩ := seen
      refine .parameter left right fun {m p p'} hp hp' => ?_
      rw [Context.argument?, Context.dropTo, if_pos rfl] at hp hp'
      exact finer_argument passed hp hp'
    | apply _ _ own =>
      obtain ⟨⟨⟩⟩ | ⟨_, ⟨⟩⟩ := seen
      refine .apply left right ?_
      rw [List.forall₂_map_right_iff, List.forall₂_same]
      exact fun input there => places_framed twins new (own input there) passed

/-! ## What is found of nodes -/

theorem Level.infer (h : s.Level k l) (sound : s.Sound) (same : s.Places r r') :
    k.Matches l (s.Finer m) (r.infer m.left) (r'.infer m.right) := by
  intro p p' left right
  replace left := Ledger.yields_infer left.yields
  replace right := Ledger.yields_infer right.yields
  rw [h.left] at left
  rw [h.right] at right
  cases sound.alike same with
  | constant own around kind kind' =>
    simp only [kind, kind', NodeKind.constant.injEq, reduceCtorEq, false_and, exists_false, or_false,
      exists_eq_left'] at left right
    exact h.holds own around left right
  | parameter kind kind' bound =>
    simp only [kind, kind', NodeKind.parameter.injEq, reduceCtorEq, false_and, exists_false, or_false,
      false_or, and_assoc, exists_eq_left', exists_and_left] at left right
    exact bound left right
  | apply kind kind' each =>
    simp only [kind, kind', NodeKind.apply.injEq, reduceCtorEq, false_and, exists_false,
      false_or] at left right
    obtain ⟨callee, inputs, f, rfl, hf, left⟩ := left
    obtain ⟨callee', inputs', f', rfl, hf', right⟩ := right
    rw [List.forall₂_cons] at each
    refine h.calls (h.toReads.inferrerOf (.node each.1) hf hf') ?_ left right
    rw [List.forall₂_map_left_iff, List.forall₂_map_right_iff]
    exact each.2.imp fun _ _ => .node

/-! ## What is found in calls -/

theorem Reads.passed {v w : Ledger} {calls calls' : Ledger.Calls} {x x' : Ref} {a a' : ArgProps}
    (h : s.Reads v w) (same : s.Names x x') (left : v.Yields calls (Infer.argProps x) a)
    (right : w.Yields calls' (Infer.argProps x') a') : s.Passed a a' :=
  .mk fun m => h.get same (Ledger.yields_get_argProps left m.left)
    (Ledger.yields_get_argProps right m.right)

theorem Reads.types {v w : Ledger} {calls calls' : Ledger.Calls} {xs xs' : List Ref}
    {types types' : List Ty} (h : s.Reads v w) (same : List.Forall₂ s.Names xs xs')
    (left : List.Forall₂ (fun x t => v.Yields calls (Infer.typeOf x) t) xs types)
    (right : List.Forall₂ (fun x t => w.Yields calls' (Infer.typeOf x) t) xs' types') :
    types' = types ∧ ∀ t ∈ types, t.Within s.program.Has := by
  have each : List.Forall₂ (fun t t' => t' = t ∧ t.Within s.program.Has) types types' :=
    forall₂_of_both same left right h.typeOf
  have eq : types = types' := List.forall₂_eq_eq_eq ▸ each.imp fun _ _ ⟨same, _⟩ => same.symm
  exact ⟨eq.symm, (forall_mem_of_forall₂ each (Q := fun _ => True) And.right fun _ => trivial).1⟩

variable {xs xs' : List Ref}

/-- Calls of graphs whose outputs stand for the same. -/
theorem Level.callGraph (h : s.Level k l) (same : List.Forall₂ s.Names xs xs') {g g' : GraphId}
    (output : ∀ {args args' : List ArgProps} {o o' : NodeId}, List.Forall₂ s.Passed args args' →
      (s.left.program.graph g).output = some o → (s.right.program.graph g').output = some o' →
      s.Places (s.left.locate o (c.extend g args)) (s.right.locate o' (c'.extend g' args'))) :
    k.Matches l (s.Finer m) (Callable.callGraph m.left g c xs)
      (Callable.callGraph m.right g' c' xs') := by
  intro p p' left right
  obtain ⟨args, o, hargs, ho, left⟩ := Ledger.yields_callGraph left.yields
  obtain ⟨args', o', hargs', ho', right⟩ := Ledger.yields_callGraph right.yields
  rw [h.left] at ho left
  rw [h.right] at ho' right
  have passed : List.Forall₂ s.Passed args args' :=
    forall₂_of_both same hargs hargs' h.toReads.passed
  exact h.found (output passed ho ho') left right

theorem Level.callGraph_shared (h : s.Level k l) (sound : s.Sound)
    (same : List.Forall₂ s.Names xs xs') {g : GraphId} (own : s.program.Has g)
    (around : s.Around c c') :
    k.Matches l (s.Finer m) (Callable.callGraph m.left g c xs)
      (Callable.callGraph m.right g c' xs') := by
  refine h.callGraph same fun {args args' o o'} passed ho ho' => ?_
  obtain ⟨left, right⟩ := sound.graph_eq own
  rw [left] at ho
  rw [right] at ho'
  cases ho.symm.trans ho'
  exact sound.places_shared (sound.closed.outputs ho) (.frame around own passed)

theorem Level.callGraph_generated (h : s.Level k l) (sound : s.Sound)
    (same : List.Forall₂ s.Names xs xs') {g g' : GraphId}
    (pairs : Program.Pairs s.program s.left.program s.right.program g g') :
    k.Matches l (s.Finer m) (Callable.callGraph m.left g .empty xs)
      (Callable.callGraph m.right g' .empty xs') := by
  cases pairs with
  | shared own => exact h.callGraph_shared sound same own .empty
  | generated twins new there =>
    refine h.callGraph same fun {args args' o o'} passed ho ho' => ?_
    have output := (twins.drawn new there).output
    rw [ho, ho'] at output
    cases output with
    | some here =>
      obtain ⟨here, rfl⟩ := here
      exact places_framed twins new here passed

/-- Generators make the same of the same types. -/
theorem Level.callGenerator (h : s.Level k l) (sound : s.Sound)
    (same : List.Forall₂ s.Names xs xs') {generator : MetaGraph}
    (own : ∀ g ∈ generator.mentions, s.program.Has g) :
    k.Matches l (s.Finer m) (Callable.callGenerator m.left generator xs)
      (Callable.callGenerator m.right generator xs') := by
  intro p p' left right
  obtain ⟨types, g, f, htypes, found, callable, left⟩ := Ledger.yields_callGenerator left.yields
  obtain ⟨types', g', f', htypes', found', callable', right⟩ :=
    Ledger.yields_callGenerator right.yields
  rw [h.left] at found callable
  rw [h.right] at found' callable'
  obtain ⟨rfl, owns⟩ := h.types same htypes htypes'
  exact h.calls (.generated (sound.left.pairs sound.right sound.closed own owns found found')
    callable callable') same left right

theorem Level.primitive (h : s.Level k l) {rule rule' : Rule} (keeps : s.Keeps m rule rule')
    {operator : Primitive} {arity arity' : Arity} (same : List.Forall₂ s.Names xs xs') :
    k.Matches l (s.Finer m) ((Callable.primitive m.left operator arity rule).body xs)
      ((Callable.primitive m.right operator arity' rule').body xs') := by
  rw [Callable.body, Callable.body]
  split
  · split
    · exact keeps h same
    · exact matches_fail_right
  · exact matches_fail

theorem keeps_builtin (t : Track) :
    (Registries.builtin.get t).All fun _ rule => s.Keeps (.same t) rule rule := by
  cases t with
  | value => exact Values.keeps_registry
  | type => exact Types.keeps_registry
  | shape => exact Shapes.keeps_registry

/-- Calls of operators. -/
theorem Level.operator (h : s.Level k l) {operator : Primitive} {f f' : Inferrer}
    (left : (Ledger.opening s.left False).Stands operator m.left f)
    (right : (Ledger.opening s.right False).Stands operator m.right f') {a a' : Callable}
    (callable : s.left.callable? f = some a) (callable' : s.right.callable? f' = some a')
    (same : List.Forall₂ s.Names xs xs') : k.Matches l (s.Finer m) (a.body xs) (a'.body xs') := by
  cases m with
  | same t =>
    cases left with
    | rule known left =>
      cases left.symm.trans callable
      cases right with
      | rule known' right =>
        cases right.symm.trans callable'
        cases known.symm.trans known'
        exact h.primitive (keeps_builtin t _ _ _ known) same
      | anything unknown | scalarShape unknown => cases known.symm.trans unknown
    | anything unknown left =>
      cases left.symm.trans callable
      exact matches_unknown
    | scalarShape unknown left =>
      cases left.symm.trans callable
      cases right with
      | rule known' => cases known'.symm.trans unknown
      | scalarShape _ right =>
        cases right.symm.trans callable'
        exact matches_shape (.refl _)
  | typed =>
    cases left with
    | rule known left =>
      cases left.symm.trans callable
      cases right with
      | rule known' right =>
        cases right.symm.trans callable'
        obtain ⟨_, _, found, keeps⟩ := keeps_typed _ _ _ known'
        cases known.symm.trans found
        exact h.primitive keeps same
      | anything unknown right =>
        cases right.symm.trans callable'
        rintro p _ - rfl
        exact .unknown p

theorem Level.body (h : s.Level k l) (sound : s.Sound) {f f' : Inferrer} (kin : s.Kin m f f')
    (same : List.Forall₂ s.Names xs xs') {a a' : Callable} (callable : s.left.callable? f = some a)
    (callable' : s.right.callable? f' = some a') :
    k.Matches l (s.Finer m) (a.body xs) (a'.body xs') := by
  cases kin with
  | operator left right => exact h.operator left right callable callable' same
  | graph own around left right =>
    cases left.symm.trans callable
    cases right.symm.trans callable'
    exact h.callGraph_shared sound same own around
  | generated pairs left right =>
    cases left.symm.trans callable
    cases right.symm.trans callable'
    exact h.callGraph_generated sound same pairs
  | metaGraph own left right =>
    cases left.symm.trans callable
    cases right.symm.trans callable'
    exact h.callGenerator sound same own
  | bound kin args left right =>
    cases left.symm.trans callable
    cases right.symm.trans callable'
    exact h.callInferrer kin (List.rel_append args same)

end Sides

end ArrayInference
