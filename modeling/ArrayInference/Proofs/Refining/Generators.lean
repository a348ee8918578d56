import ArrayInference.Proofs.Lockstep.Generating
import ArrayInference.Proofs.Run.Follows
import ArrayInference.Proofs.Tracks.Locating

/-!
# What two engines have generated

Two engines that start from one program generate graphs as they need them, in any order, so the same
graph goes by different numbers in them. Main statement: what they generate for one generator and the
same types is a graph that both programs share, or two graphs that correspond node by node.
-/

namespace ArrayInference

namespace Program

/-- A graph of the program. -/
def Has (p : Program) (g : GraphId) : Prop :=
  g.index < p.graphs.size

instance (p : Program) (g : GraphId) : Decidable (p.Has g) :=
  inferInstanceAs (Decidable (_ < _))

/-- A program that mentions only nodes and graphs that it has. -/
structure Closed (p : Program) : Prop where
  constants : ∀ {n : NodeId} {c : Constant}, (p.node n).kind = .constant c → c.Within p.Has
  parameters : ∀ {n : NodeId} {g : GraphId} {index : Nat},
    (p.node n).kind = .parameter g index → p.Has g
  inputs : ∀ {n : NodeId} {inputs : List NodeId}, (p.node n).kind = .apply inputs →
    ∀ m ∈ inputs, m.index < p.nodes.size
  outputs : ∀ {g : GraphId} {o : NodeId}, (p.graph g).output = some o → o.index < p.nodes.size

variable {p q p' q' original : Program}

/-- Whether all that a node refers to is there. -/
def owns (p : Program) : NodeKind → Bool
  | .constant c => c.mentions.all (p.Has ·)
  | .parameter g _ => p.Has g
  | .apply inputs => inputs.all (·.index < p.nodes.size)

theorem Sprouts.node_eq (h : p.Sprouts q) {n : NodeId} (there : n.index < p.nodes.size) :
    q.node n = p.node n := by
  have found : p.nodes[n.index]? = some p.nodes[n.index] := Array.getElem?_eq_getElem there
  rw [node, node, h.nodes found, found]

theorem Sprouts.graph_eq (h : p.Sprouts q) {g : GraphId} (there : p.Has g) :
    q.graph g = p.graph g := by
  have found : p.graphs[g.index]? = some p.graphs[g.index] := Array.getElem?_eq_getElem there
  rw [graph, graph, h.graphs found, found]

theorem Sprouts.size_nodes_le (h : p.Sprouts q) : p.nodes.size ≤ q.nodes.size := by
  by_contra lt
  have found : p.nodes[q.nodes.size]? = some p.nodes[q.nodes.size] :=
    Array.getElem?_eq_getElem (by omega)
  have found := h.nodes found
  simp at found

/-- What two programs share that have grown from one. -/
def grown (left : original.Sprouts p) (right : original.Sprouts p') : Overlap where
  nodes := p.nodes.size
  nodes' := p'.nodes.size
  graphs := p.graphs.size
  graphs' := p'.graphs.size
  shares := fun n => n.index < original.nodes.size
  shows := original.Has
  decides := fun _ => False
  shares_lt := fun h =>
    ⟨Nat.lt_of_lt_of_le h left.size_nodes_le, Nat.lt_of_lt_of_le h right.size_nodes_le⟩
  shows_lt := fun h =>
    ⟨Nat.lt_of_lt_of_le h left.size_graphs_le, Nat.lt_of_lt_of_le h right.size_graphs_le⟩

theorem programs_grown (closed : original.Closed) (left : original.Sprouts p)
    (right : original.Sprouts p') : (grown left right).Programs p p' where
  nodes := Nat.le_refl _
  nodes' := by
    show p'.nodes.size = p'.nodes.size + (p.nodes.size - p.nodes.size)
    omega
  graphs := Nat.le_refl _
  graphs' := by
    show p'.graphs.size = p'.graphs.size + (p.graphs.size - p.graphs.size)
    omega
  shared := by
    intro n own
    rw [left.node_eq own, right.node_eq own]
    rcases hn : original.node n with ⟨kind, owner, name⟩
    have hkind : (original.node n).kind = kind := by rw [hn]
    cases kind with
    | constant c => exact .constant (closed.constants hkind)
    | parameter g index => exact .parameter (closed.parameters hkind)
    | apply inputs => exact .apply (closed.inputs hkind)
  shown := by
    intro g own
    rw [left.graph_eq own, right.graph_eq own]
    exact ⟨rfl, fun o output => closed.outputs output⟩
  added := fun new lt => absurd lt (Nat.not_lt_of_le new)
  drawn := fun new lt => absurd lt (Nat.not_lt_of_le new)

/-- Two programs have grown from the same one, and each of them further since. -/
structure Twins (original p p' : Program) (x : Overlap) (q q' : Program) : Prop where
  programs : x.Programs q q'
  left : q.Sprouts p
  right : q'.Sprouts p'
  shows : ∀ g, x.shows g → original.Has g

/-- Graphs of two programs that are the same: one that both share, or two that were generated for the
same. -/
inductive Pairs (original p p' : Program) : GraphId → GraphId → Prop where
  | shared {g : GraphId} (own : original.Has g) : Pairs original p p' g g
  | generated {x : Overlap} {q q' : Program} {g : GraphId} (twins : Twins original p p' x q q')
      (new : x.graphs ≤ g.index) (there : g.index < q.graphs.size) :
      Pairs original p p' g (x.graph g)

theorem pairs_generate (closed : original.Closed) {r r' : Program} (from_left : original.Sprouts r)
    (from_right : original.Sprouts r') {m : MetaGraph} {types : List Ty} {g g' : GraphId}
    (own : ∀ g ∈ m.mentions, original.Has g) (owns : ∀ t ∈ types, t.Within original.Has)
    (made : m.generate r types = .ok (g, q)) (made' : m.generate r' types = .ok (g', q'))
    (left : q.Sprouts p) (right : q'.Sprouts p') : Pairs original p p' g g' := by
  have generated := (programs_grown closed from_left from_right).generate own owns
  rw [made, made'] at generated
  cases generated with
  | made programs has =>
    rcases has with shown | ⟨new, there⟩
    · rw [Overlap.graph_eq_of_shows shown]
      exact .shared shown
    · exact .generated ⟨programs, left, right, fun _ => id⟩ new there

end Program

namespace Engine

variable {original : Program}

/-- An engine that knows where its generated graphs come from. -/
structure Records (original : Program) (e : Engine) : Prop where
  sprouts : original.Sprouts e.program
  made : ∀ {key : GeneratedKey} {g : GraphId}, e.generated.find? key = some g →
    ∃ p q, original.Sprouts p ∧ key.generator.generate p key.types = .ok (g, q)
      ∧ q.Sprouts e.program

/-- Whatever is recorded stays recorded. -/
def Remembers (original : Program) (e f : Engine) : Prop :=
  e.Records original → f.Records original

instance : Std.Refl (Remembers original) :=
  ⟨fun _ => id⟩

instance : IsTrans Engine (Remembers original) :=
  ⟨fun _ _ _ h h' => h' ∘ h⟩

/-- Graphs that two engines have generated for the same are the same. -/
theorem Records.pairs {e f : Engine} (h : e.Records original) (h' : f.Records original)
    (closed : original.Closed) {key : GeneratedKey} {g g' : GraphId}
    (own : ∀ g ∈ key.generator.mentions, original.Has g)
    (owns : ∀ t ∈ key.types, t.Within original.Has)
    (found : e.generated.find? key = some g) (found' : f.generated.find? key = some g') :
    Program.Pairs original e.program f.program g g' := by
  obtain ⟨p, q, sprouts, made, left⟩ := h.made found
  obtain ⟨p', q', sprouts', made', right⟩ := h'.made found'
  exact Program.pairs_generate closed sprouts sprouts' own owns made made' left right

end Engine

namespace EngineM

variable {original : Program}

/-- A computation that keeps the records. -/
abbrev Remembers (original : Program) {α : Type} (m : EngineM α) : Prop :=
  m.Leaves (Engine.Remembers original)

theorem remembers_cached (key : InferrerKey) {make : ExceptT InferError EngineM Inferrer}
    (h : Remembers original make.run) : Remembers original (cached key make).run := by
  intro e
  rw [cached_run]
  cases e.inferrers.find? key with
  | some f => exact id
  | none =>
    have made := h e
    rcases hout : make.run.run e with ⟨r, e'⟩
    rw [hout] at made
    cases r with
    | ok f => exact fun records => ⟨(made records).sprouts, (made records).made⟩
    | error err => exact made

theorem remembers_newInferrer (c : Callable) : Remembers original (newInferrer c) :=
  fun _ h => ⟨h.sprouts, h.made⟩

theorem remembers_interning {α : Type} (make : Interning α) :
    Remembers original (interning make) :=
  fun _ h => ⟨h.sprouts, h.made⟩

theorem remembers_note (d : Diagnostic) : Remembers original (note d) :=
  fun _ h => ⟨h.sprouts, h.made⟩

theorem remembers_primitiveInferrer (operator : Primitive) (track : Track) :
    Remembers original (primitiveInferrer operator track).run := by
  refine remembers_cached _ (Leaves.tryBind (Leaves.lift Leaves.get) fun e => ?_)
  split
  · exact Leaves.lift (remembers_newInferrer _)
  · refine Leaves.tryBind (Leaves.pure _) fun f => ?_
    exact Leaves.tryBind (Leaves.lift (remembers_note _)) fun _ => Leaves.pure _

theorem remembers_graphInferrer (track : Track) (graph : GraphId) (ctx : Context) :
    Remembers original (graphInferrer track graph ctx) := by
  intro e
  rw [graphInferrer_run]
  cases e.inferrers.find? { track, callee := .graph graph, ctx } with
  | some f => exact id
  | none => exact fun h => ⟨h.sprouts, h.made⟩

theorem remembers_dataProperty (track : Track) (value : Constant) :
    Remembers original (dataProperty track value).run := by
  cases track with
  | value => exact Leaves.pure _
  | type =>
    refine Leaves.tryBind (Leaves.lift (remembers_interning _)) fun r => ?_
    cases r with
    | ok t => exact Leaves.pure _
    | error e => exact Leaves.pure _
  | shape => exact Leaves.tryBind (Leaves.pure _) fun s => Leaves.pure _

theorem remembers_classInferrer (c : RecordClass) (track : Track) :
    Remembers original (classInferrer c track).run := by
  refine remembers_cached _ (Leaves.tryBind (remembers_primitiveInferrer _ _) fun make => ?_)
  refine Leaves.tryBind (Leaves.lift (remembers_interning _)) fun declared => ?_
  refine Leaves.tryBind (Leaves.lift (remembers_interning _)) fun type => ?_
  exact Leaves.lift (remembers_newInferrer _)

theorem remembers_constantProperty (value : Constant) (ctx : Context) (track : Track) :
    Remembers original (constantProperty value ctx track).run := by
  cases value with
  | primitive operator =>
    exact Leaves.tryBind (remembers_primitiveInferrer _ _) fun _ => Leaves.pure _
  | graph g =>
    exact Leaves.tryBind (Leaves.lift (remembers_graphInferrer _ _ _)) fun _ => Leaves.pure _
  | metaGraph m =>
    exact Leaves.tryBind (remembers_cached _ (Leaves.lift (remembers_newInferrer _)))
      fun _ => Leaves.pure _
  | recordType c => exact Leaves.tryBind (remembers_classInferrer c track) fun _ => Leaves.pure _
  | _ => exact remembers_dataProperty track _

theorem remembers_generate (generator : MetaGraph) (types : List Ty) :
    Remembers original (generate generator types).run := by
  intro e
  rw [generate_run]
  cases e.generated.find? { generator, types } with
  | some g => exact id
  | none =>
    cases made : generator.generate e.program types with
    | error error => exact id
    | ok pair =>
      obtain ⟨g, program⟩ := pair
      have later := Program.sprouts_generate made
      refine fun h => ⟨h.sprouts.trans later, ?_⟩
      intro key g' found
      replace found : (e.generated.insert { generator, types } g).find? key = some g' := found
      rw [Table.find?_insert] at found
      split at found
      · rename_i same
        subst same
        cases found
        exact ⟨e.program, program, h.sprouts, made, .refl _⟩
      · obtain ⟨p, q, sprouts, made, left⟩ := h.made found
        exact ⟨p, q, sprouts, made, left.trans later⟩

theorem remembers_specialize (graph : GraphId) (ctx : Context) :
    Remembers original (specialize graph ctx).run := by
  intro e
  rw [specialize_run]
  split
  · exact id
  · split <;> exact fun h => ⟨h.sprouts, h.made⟩

theorem remembers_answer (query : Query) : Remembers original (answer query) := by
  cases query with
  | describe subject => exact Leaves.get.bind fun _ => Leaves.pure _
  | note d => exact remembers_note d
  | intern make => exact remembers_interning make
  | constant value ctx track => exact remembers_constantProperty value ctx track
  | graphInferrer track graph ctx => exact remembers_graphInferrer track graph ctx
  | bind inner bound => exact remembers_newInferrer _
  | scalarShape => exact remembers_newInferrer _
  | anything => exact remembers_newInferrer _
  | generate generator types => exact remembers_generate generator types
  | specialize graph ctx => exact remembers_specialize graph ctx
  | locate node ctx => exact Leaves.get.bind fun _ => Leaves.pure _
  | node id => exact Leaves.get.bind fun _ => Leaves.pure _
  | graph id => exact Leaves.get.bind fun _ => Leaves.pure _

end EngineM

/-- Every run keeps the records. -/
theorem Engine.Follows.records {original : Program} {e f : Engine} (h : e.Follows f)
    (records : e.Records original) : f.Records original :=
  h.invariant (Engine.Records original) (fun query => EngineM.remembers_answer query _)
    (fun _ _ _ h => ⟨h.sprouts, h.made⟩) records

end ArrayInference
