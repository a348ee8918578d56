import ArrayInference.Proofs.Engine.Inferrers

/-!
# The exchange of two branches

A program with the branches of one application exchanged, and an engine for it. Nobody who asks for
another node can tell them from the program and the engine before: nodes and graphs are added to both
in the same way, and every other question has the same answer.
-/

namespace ArrayInference

/-- The application with its second and third argument exchanged. -/
def Node.exchange (n : Node) : Node :=
  match n.kind with
  | .apply [callee, condition, x, y] => { n with kind := .apply [callee, condition, y, x] }
  | _ => n

namespace Program

/-- The program with the second and the third argument of one application exchanged. -/
def exchange (p : Program) (id : NodeId) : Program :=
  { p with nodes := p.nodes.modify id.index Node.exchange }

end Program

@[simp] theorem Node.exchange_owner (n : Node) : n.exchange.owner = n.owner := by
  rw [exchange]
  split <;> rfl

@[simp] theorem Node.exchange_name (n : Node) : n.exchange.name = n.name := by
  rw [exchange]
  split <;> rfl

/-- What is not an application stays what it is. -/
theorem Node.exchange_kind (n : Node) :
    n.exchange.kind = n.kind ∨ ∃ inputs inputs', n.kind = .apply inputs
      ∧ n.exchange.kind = .apply inputs' := by
  rw [exchange]
  split
  · rename_i heq
    exact Or.inr ⟨_, _, heq, rfl⟩
  · exact Or.inl rfl

namespace Program

variable {p q : Program} {id : NodeId}

theorem node_exchange_self (p : Program) (id : NodeId) :
    (p.exchange id).node id = (p.node id).exchange := by
  rw [node, node, exchange, Array.getElem?_modify, if_pos rfl]
  cases p.nodes[id.index]? <;> rfl

theorem node_exchange_of_ne (p : Program) {id other : NodeId} (h : other ≠ id) :
    (p.exchange id).node other = p.node other := by
  rw [node, node, exchange, Array.getElem?_modify, if_neg]
  intro heq
  exact h (by cases other; cases id; cases heq; rfl)

/-- Messages name the same nodes. -/
theorem label_exchange (p : Program) (id other : NodeId) :
    (p.exchange id).label other = p.label other := by
  by_cases h : other = id
  · subst h
    rw [label, label, node_exchange_self]
    rcases Node.exchange_kind (p.node other) with hkind | ⟨inputs, inputs', hkind, hkind'⟩
    · rw [hkind, Node.exchange_name]
    · rw [hkind', hkind, Node.exchange_name]
      cases (p.node other).name <;> rfl
  · rw [label, label, node_exchange_of_ne p h]

theorem lt_size_of_kind {kind : NodeKind} (h : (p.node id).kind = kind) (apply : kind ≠ .apply []) :
    id.index < p.nodes.size := by
  by_contra hlt
  rw [node, Array.getElem?_eq_none (Nat.le_of_not_lt hlt)] at h
  exact apply h.symm

theorem Extends.size_le (h : p.Extends q) : p.nodes.size ≤ q.nodes.size := by
  by_contra hlt
  have hsome := h.nodes (Array.getElem?_eq_getElem (Nat.lt_of_not_le hlt))
  simp at hsome

theorem exchange_addNode (known : id.index < p.nodes.size) (n : Node) :
    (p.exchange id).addNode n = ((p.addNode n).1, (p.addNode n).2.exchange id) := by
  have hnodes : (p.nodes.modify id.index Node.exchange).push n
      = (p.nodes.push n).modify id.index Node.exchange := by
    refine Array.ext_getElem? fun i => ?_
    rw [Array.getElem?_push, Array.getElem?_modify, Array.getElem?_modify, Array.getElem?_push,
      Array.size_modify]
    by_cases hi : i = p.nodes.size
    · rw [if_pos hi, if_neg (by omega), if_pos hi]
    · rw [if_neg hi, if_neg hi]
  rw [addNode, addNode, exchange, Array.size_modify, hnodes, exchange]

theorem exchange_addParameter (known : id.index < p.nodes.size) (graph : GraphId) (name : String) :
    (p.exchange id).addParameter graph name
      = ((p.addParameter graph name).1, (p.addParameter graph name).2.exchange id) := by
  rw [addParameter, addParameter, show (p.exchange id).graph graph = p.graph graph from rfl,
    exchange_addNode known]
  rfl

theorem exchange_addOperation (known : id.index < p.nodes.size) (graph : GraphId)
    (operator : Primitive) (args : List NodeId) :
    (p.exchange id).addOperation graph operator args
      = ((p.addOperation graph operator args).1, (p.addOperation graph operator args).2.exchange id) := by
  have known' : id.index < (p.addConstant (.primitive operator)).2.nodes.size :=
    Nat.lt_of_lt_of_le known (extends_addNode p _).size_le
  rw [addOperation, addOperation, addConstant, exchange_addNode known]
  exact exchange_addNode known' _

theorem exchange_addNumbered (known : id.index < p.nodes.size) (graph : GraphId) (count : Nat) :
    addNumbered graph (p.exchange id) count
      = ((p.addNumbered graph count).1, (p.addNumbered graph count).2.exchange id) := by
  suffices ∀ (ns : List Nat) (ids : List NodeId) (p : Program), id.index < p.nodes.size →
      ns.foldl (fun q n =>
        (q.1 ++ [(q.2.addParameter graph ("x" ++ toString n)).1],
          (q.2.addParameter graph ("x" ++ toString n)).2)) (ids, p.exchange id)
        = ((ns.foldl (fun q n =>
            (q.1 ++ [(q.2.addParameter graph ("x" ++ toString n)).1],
              (q.2.addParameter graph ("x" ++ toString n)).2)) (ids, p)).1,
          (ns.foldl (fun q n =>
            (q.1 ++ [(q.2.addParameter graph ("x" ++ toString n)).1],
              (q.2.addParameter graph ("x" ++ toString n)).2)) (ids, p)).2.exchange id) from
    this _ _ _ known
  intro ns
  induction ns with
  | nil => exact fun _ _ _ => rfl
  | cons n rest ih =>
    intro ids p known
    rw [List.foldl_cons, List.foldl_cons, exchange_addParameter known]
    exact ih _ _ (Nat.lt_of_lt_of_le known
      (extends_addNode p _).size_le)

theorem exchange_addTypes (known : id.index < p.nodes.size) (types : List Ty) :
    (p.exchange id).addTypes types = ((p.addTypes types).1, (p.addTypes types).2.exchange id) := by
  suffices ∀ (ids : List NodeId) (p : Program), id.index < p.nodes.size →
      types.foldl (fun q t =>
        (q.1 ++ [(q.2.addConstant (.type t)).1], (q.2.addConstant (.type t)).2)) (ids, p.exchange id)
        = ((types.foldl (fun q t =>
            (q.1 ++ [(q.2.addConstant (.type t)).1], (q.2.addConstant (.type t)).2)) (ids, p)).1,
          (types.foldl (fun q t =>
            (q.1 ++ [(q.2.addConstant (.type t)).1],
              (q.2.addConstant (.type t)).2)) (ids, p)).2.exchange id) from
    this _ _ known
  induction types with
  | nil => exact fun _ _ _ => rfl
  | cons t rest ih =>
    intro ids p known
    rw [List.foldl_cons, List.foldl_cons,
      show (p.exchange id).addConstant (.type t) = _ from exchange_addNode known _]
    exact ih _ _ (Nat.lt_of_lt_of_le known (extends_addNode p _).size_le)

theorem exchange_addFold (known : id.index < p.nodes.size) (graph : GraphId) (operator : Primitive)
    (first : NodeId) (rest : List NodeId) :
    (p.exchange id).addFold graph operator first rest
      = ((p.addFold graph operator first rest).1,
          (p.addFold graph operator first rest).2.exchange id) := by
  rw [addFold, addFold]
  induction rest generalizing p first with
  | nil => rfl
  | cons x rest ih =>
    rw [List.foldl_cons, List.foldl_cons]
    simp only []
    rw [exchange_addOperation known]
    exact ih (Nat.lt_of_lt_of_le known (extends_addOperation p _ _ _).size_le) _

theorem exchange_addGenerated (known : id.index < p.nodes.size) (generator : String) (count : Nat) :
    (p.exchange id).addGenerated generator count
      = ((p.addGenerated generator count).1, (p.addGenerated generator count).2.1,
          (p.addGenerated generator count).2.2.exchange id) := by
  have h := exchange_addNumbered (p := (p.addGraph (generator ++ toString count) none).2) known
    ⟨p.graphs.size⟩ count
  rw [addGenerated, addGenerated]
  exact congrArg (fun out : List NodeId × Program => (GraphId.mk p.graphs.size, out.1, out.2)) h

/-- A generator adds the same graph to both programs. -/
theorem exchange_generate (known : id.index < p.nodes.size) (m : MetaGraph) (types : List Ty) :
    m.generate (p.exchange id) types
      = (m.generate p types).map fun out => (out.1, out.2.exchange id) := by
  have hgen := extends_addGenerated p m.name types.length
  rw [MetaGraph.generate, MetaGraph.generate, exchange_addGenerated known]
  rcases hadd : p.addGenerated m.name types.length with ⟨graph, params, q⟩
  rw [hadd] at hgen
  have known' : id.index < q.nodes.size := Nat.lt_of_lt_of_le known hgen.size_le
  cases m.recipe with
  | refuse error => rfl
  | existing graph => rfl
  | empty => rfl
  | types =>
    have htypes : id.index < (q.addTypes types).2.nodes.size :=
      Nat.lt_of_lt_of_le known' (extends_addTypes q types).size_le
    simp only [exchange_addTypes known', exchange_addOperation htypes]
    rfl
  | fold operator =>
    cases params with
    | nil => rfl
    | cons first rest =>
      simp only [exchange_addFold known']
      rfl

end Program

namespace Engine

/-- An engine for the program with two branches exchanged. Its results and its notes may be others. -/
def exchanged (e : Engine) (id : NodeId) (memo : Memo) (diagnostics : Diagnostics) : Engine :=
  { e with program := e.program.exchange id, memo, diagnostics }

variable {e : Engine} {id : NodeId} {memo : Memo} {d : Diagnostics}

theorem exchanged_describe (x : Ref) : (e.exchanged id memo d).describe x = e.describe x := by
  induction x with
  | node r => exact Program.label_exchange _ _ _
  | virtual props => rfl
  | element container ih => rw [describe, describe, ih]

theorem exchanged_locate (node : NodeId) (ctx : Context) :
    (e.exchanged id memo d).locate node ctx = e.locate node ctx := by
  by_cases h : node = id
  · subst h
    rw [locate, locate, exchanged, Program.node_exchange_self]
    rcases Node.exchange_kind (e.program.node node) with hkind | ⟨inputs, inputs', hkind, hkind'⟩
    · rw [hkind, Node.exchange_owner]
      rfl
    · rw [hkind', hkind, Node.exchange_owner]
  · rw [locate, locate, exchanged, Program.node_exchange_of_ne _ h]
    rfl

end Engine

namespace EngineM

open Engine

variable {α β : Type} {e : Engine} {id : NodeId}

/-- The computation does the same on an engine for the exchanged program. -/
def Echoes (id : NodeId) (e : Engine) (m : EngineM α) : Prop :=
  ∀ memo d, ∃ d', m.run (e.exchanged id memo d) = ((m.run e).1, (m.run e).2.exchanged id memo d')

theorem echoes_pure (a : α) : Echoes id e (pure a : EngineM α) :=
  fun _ d => ⟨d, rfl⟩

theorem Echoes.bind {m : EngineM α} {k : α → EngineM β} (h : Echoes id e m)
    (h' : Echoes id (m.run e).2 (k (m.run e).1)) : Echoes id e (m >>= k) := by
  intro memo d
  obtain ⟨d', hm⟩ := h memo d
  obtain ⟨d'', hk⟩ := h' memo d'
  refine ⟨d'', ?_⟩
  rw [StateT.run_bind, StateT.run_bind, hm]
  exact hk

theorem Echoes.tryBind {ε : Type} {m : ExceptT ε EngineM α} {k : α → ExceptT ε EngineM β}
    (h : Echoes id e m.run) (h' : ∀ a, Echoes id (m.run.run e).2 (k a).run) :
    Echoes id e (m >>= k).run := by
  rw [ExceptT.run_bind]
  refine h.bind ?_
  split
  · exact h' _
  · exact echoes_pure _

theorem Echoes.lift {ε : Type} {m : EngineM α} (h : Echoes id e m) :
    Echoes id e (ExceptT.lift m : ExceptT ε EngineM α).run := by
  intro memo d
  obtain ⟨d', hm⟩ := h memo d
  exact ⟨d', by rw [ExceptT.run_lift, StateT.run_map, StateT.run_map, hm]; rfl⟩

/-- What is done with an engine that was looked at must not depend on what may be different. -/
theorem Echoes.get {k : Engine → ExceptT InferError EngineM β} (h : Echoes id e (k e).run)
    (same : ∀ memo d, k (e.exchanged id memo d) = k e) :
    Echoes id e ((get : ExceptT InferError EngineM Engine) >>= k).run := by
  intro memo d
  obtain ⟨d', hk⟩ := h memo d
  refine ⟨d', Eq.trans ?_ hk⟩
  show (k (e.exchanged id memo d)).run.run _ = _
  rw [same memo d]

theorem echoes_newInferrer (c : Callable) : Echoes id e (newInferrer c) :=
  fun _ d => ⟨d, rfl⟩

theorem echoes_interning {γ : Type} (make : Interning γ) : Echoes id e (interning make) :=
  fun _ d => ⟨d, rfl⟩

theorem echoes_note (n : Diagnostic) : Echoes id e (note n) :=
  fun _ d => ⟨d.emit n, rfl⟩

theorem echoes_cached (key : InferrerKey) {make : ExceptT InferError EngineM Inferrer}
    (h : Echoes id e make.run) : Echoes id e (cached key make).run := by
  intro memo d
  rw [cached_run, cached_run, show (e.exchanged id memo d).inferrers = e.inferrers from rfl]
  cases e.inferrers.find? key with
  | some f => exact ⟨d, rfl⟩
  | none =>
    obtain ⟨d', hmake⟩ := h memo d
    rw [hmake]
    rcases hout : make.run.run e with ⟨r, e'⟩
    cases r with
    | ok f => exact ⟨d', rfl⟩
    | error err => exact ⟨d', rfl⟩

theorem echoes_primitiveInferrer (operator : Primitive) (track : Track) :
    Echoes id e (primitiveInferrer operator track).run := by
  refine echoes_cached _ (Echoes.get ?_ fun _ _ => rfl)
  split
  · exact (echoes_newInferrer _).lift
  · exact Echoes.tryBind (echoes_pure _) fun _ => (echoes_note _).lift.tryBind fun _ => echoes_pure _

theorem echoes_graphInferrer (track : Track) (graph : GraphId) (ctx : Context) :
    Echoes id e (graphInferrer track graph ctx) := by
  intro memo d
  rw [graphInferrer_run, graphInferrer_run,
    show (e.exchanged id memo d).inferrers = e.inferrers from rfl]
  cases e.inferrers.find? { track, callee := .graph graph, ctx } <;> exact ⟨d, rfl⟩

theorem echoes_dataProperty (track : Track) (value : Constant) :
    Echoes id e (dataProperty track value).run := by
  cases track with
  | value => exact echoes_pure _
  | type =>
    refine (echoes_interning _).lift.tryBind fun r => ?_
    cases r with
    | ok t => exact echoes_pure _
    | error e => exact echoes_pure _
  | shape => exact Echoes.tryBind (echoes_pure _) fun s => echoes_pure _

theorem echoes_classInferrer (c : RecordClass) (track : Track) :
    Echoes id e (classInferrer c track).run := by
  refine echoes_cached _ ((echoes_primitiveInferrer _ _).tryBind fun make => ?_)
  refine (echoes_interning _).lift.tryBind fun declared => ?_
  refine (echoes_interning _).lift.tryBind fun type => ?_
  exact (echoes_newInferrer _).lift

theorem echoes_constantProperty (value : Constant) (ctx : Context) (track : Track) :
    Echoes id e (constantProperty value ctx track).run := by
  cases value with
  | primitive operator => exact (echoes_primitiveInferrer _ _).tryBind fun _ => echoes_pure _
  | graph g => exact (echoes_graphInferrer _ _ _).lift.tryBind fun _ => echoes_pure _
  | metaGraph m =>
    exact (echoes_cached _ (echoes_newInferrer _).lift).tryBind fun _ => echoes_pure _
  | recordType c => exact (echoes_classInferrer c track).tryBind fun _ => echoes_pure _
  | _ => exact echoes_dataProperty track _

theorem echoes_generate (known : id.index < e.program.nodes.size) (generator : MetaGraph)
    (types : List Ty) : Echoes id e (generate generator types).run := by
  intro memo d
  rw [generate_run, generate_run, show (e.exchanged id memo d).generated = e.generated from rfl,
    show (e.exchanged id memo d).program = e.program.exchange id from rfl,
    Program.exchange_generate known]
  cases e.generated.find? { generator, types } with
  | some g => exact ⟨d, rfl⟩
  | none => cases generator.generate e.program types <;> exact ⟨d, rfl⟩

theorem echoes_specialize (graph : GraphId) (ctx : Context) :
    Echoes id e (specialize graph ctx).run := by
  intro memo d
  rw [specialize_run, specialize_run,
    show (e.exchanged id memo d).contextsOf graph = e.contextsOf graph from rfl,
    show (e.exchanged id memo d).config = e.config from rfl]
  split
  · exact ⟨d, rfl⟩
  · split
    · exact ⟨d, rfl⟩
    · exact ⟨_, rfl⟩

/-- Who asks for another node, or for anything else, gets the same answer. -/
theorem echoes_answer (known : id.index < e.program.nodes.size) {query : Query}
    (other : query ≠ .node id) : Echoes id e (answer query) := by
  cases query with
  | describe x => exact fun _ d => ⟨d, Prod.ext (exchanged_describe x) rfl⟩
  | note n => exact echoes_note n
  | intern make => exact echoes_interning make
  | constant value ctx track => exact echoes_constantProperty value ctx track
  | graphInferrer track graph ctx => exact echoes_graphInferrer track graph ctx
  | bind inner bound => exact echoes_newInferrer _
  | scalarShape => exact echoes_newInferrer _
  | anything => exact echoes_newInferrer _
  | generate generator types => exact echoes_generate known generator types
  | specialize graph ctx => exact echoes_specialize graph ctx
  | locate node ctx => exact fun _ d => ⟨d, Prod.ext (exchanged_locate node ctx) rfl⟩
  | node n =>
    refine fun _ d => ⟨d, Prod.ext (Program.node_exchange_of_ne _ ?_) rfl⟩
    rintro rfl
    exact other rfl
  | graph g => exact fun _ d => ⟨d, rfl⟩

end EngineM

end ArrayInference
