import ArrayInference.Engine.Inference
import ArrayInference.Proofs.Engine.Inferrers
import ArrayInference.Proofs.Infer.Monad

/-!
# The root of a run

A graph is inferred by a task that computes a call of the graph. The call takes the properties of the
arguments, enters a context, and then asks for one entry: the output of the graph in that context.
All of this comes before anything else happens in the run, and what the run finds is what this entry
holds.
-/

namespace ArrayInference

/-- The properties of an argument. A missing shape follows the type. -/
def ArgSpec.props (a : ArgSpec) : Except InferError ArgProps := do
  let shape ← match a.shape with
    | some s => .ok s
    | none => Shape.ofType a.type
  return { value := .value (a.value.elim .anything .known), type := .type a.type,
           shape := .shape shape }

theorem argProps_toRef (a : ArgSpec) : Infer.argProps a.toRef = Infer.ofExcept a.props := by
  obtain ⟨type, shape, value⟩ := a
  cases shape with
  | some s => rfl
  | none =>
    show (Infer.ofExcept (Shape.ofType type) >>= fun s => Infer.done (Property.shape s)) >>= _ = _
    rw [ArgSpec.props]
    cases Shape.ofType type <;> rfl

theorem mapM_argProps_toRef (args : List ArgSpec) :
    (args.map ArgSpec.toRef).mapM Infer.argProps = Infer.ofExcept (args.mapM ArgSpec.props) := by
  rw [List.mapM_map, Infer.ofExcept_mapM]
  exact congrArg (fun f => args.mapM f) (funext argProps_toRef)

namespace Program

/-- The output of every graph is there, and so is every graph that a constant stands for. -/
structure Complete (p : Program) : Prop where
  outputs : ∀ {i : Nat} {g : Graph} {output : NodeId}, p.graphs[i]? = some g →
    g.output = some output → output.index < p.nodes.size
  constants : ∀ {i : Nat} {n : Node} {g : GraphId}, p.nodes[i]? = some n →
    n.kind = .constant (.graph g) → g.index < p.graphs.size

variable {p q : Program}

theorem Extends.graph_eq (h : p.Extends q) {id : GraphId} (known : id.index < p.graphs.size) :
    q.graph id = p.graph id := by
  have found : p.graphs[id.index]? = some p.graphs[id.index] := Array.getElem?_eq_getElem known
  rw [graph, graph, found, h.graphs found]

theorem Extends.node_eq (h : p.Extends q) {id : NodeId} (known : id.index < p.nodes.size) :
    q.node id = p.node id := by
  have found : p.nodes[id.index]? = some p.nodes[id.index] := Array.getElem?_eq_getElem known
  rw [node, node, found, h.nodes found]

theorem Complete.output_lt (h : p.Complete) {id : GraphId} {output : NodeId}
    (known : id.index < p.graphs.size) (found : (p.graph id).output = some output) :
    output.index < p.nodes.size := by
  have hget : p.graphs[id.index]? = some p.graphs[id.index] := Array.getElem?_eq_getElem known
  rw [graph, hget] at found
  exact h.outputs hget found

theorem Complete.constant_lt (h : p.Complete) {id : NodeId} {g : GraphId}
    (known : id.index < p.nodes.size) (found : (p.node id).kind = .constant (.graph g)) :
    g.index < p.graphs.size := by
  have hget : p.nodes[id.index]? = some p.nodes[id.index] := Array.getElem?_eq_getElem known
  rw [node, hget] at found
  exact h.constants hget found

end Program

namespace Engine

/-- A node of a complete program sees as much of a context after the program has grown. -/
theorem locate_of_extends {e f : Engine} (h : e.program.Extends f.program)
    (complete : e.program.Complete) {node : NodeId} (known : node.index < e.program.nodes.size)
    (ctx : Context) : f.locate node ctx = e.locate node ctx := by
  rw [locate, locate, h.node_eq known]
  cases hkind : (e.program.node node).kind with
  | constant value =>
    cases value with
    | graph g => simp only [h.graph_eq (complete.constant_lt known hkind)]
    | _ => rfl
  | parameter graph index => rfl
  | apply inputs => rfl

/-- What a call of a graph asks for, with the engine that has entered its context. -/
def target (e : Engine) (graph : GraphId) (args : List ArgSpec) (track : Track) :
    Except InferError Entry × Engine :=
  let g := e.program.graph graph
  if args.length ≠ g.parameters.length then
    (.error (.inference
      ("graph '" ++ g.name ++ "' expects " ++ toString g.parameters.length ++ " arguments, got "
        ++ toString args.length)), e)
  else
    match args.mapM ArgSpec.props with
    | .error err => (.error err, e)
    | .ok props =>
      match (EngineM.specialize graph (Context.empty.extend graph props)).run.run e with
      | (.error err, e) => (.error err, e)
      | (.ok _, e) =>
        match g.output with
        | none => (.error (.inference ("graph '" ++ g.name ++ "' has no output")), e)
        | some output =>
          (.ok { ref := e.locate output (Context.empty.extend graph props), track }, e)

/-- What was entered for the call is known from then on, unless it went beyond the limit. -/
theorem specialize_again {e e' f : Engine} {graph : GraphId} {ctx : Context}
    {r : Except InferError Unit} (h : (EngineM.specialize graph ctx).run.run e = (r, e'))
    (extends_ : e'.Extends f) (limit : (f.contextsOf graph).length ≤ f.config.maxSpecializations) :
    r = .ok () ∧ (EngineM.specialize graph ctx).run.run f = (.ok (), f) := by
  have hlength : (e'.contextsOf graph).length ≤ e'.config.maxSpecializations := by
    rw [← extends_.config]
    exact Nat.le_trans (extends_.contexts graph).length_le limit
  have hentered : (EngineM.entered e graph ctx).contextsOf graph = e.contextsOf graph ++ [ctx] := by
    rw [EngineM.contextsOf_entered, if_pos rfl]
  have hcontexts : r = .ok () ∧ ctx ∈ e'.contextsOf graph := by
    rw [EngineM.specialize_run] at h
    split at h
    · rename_i hknown
      cases h
      exact ⟨rfl, hknown⟩
    · split at h
      · rename_i hover
        cases h
        rw [hentered, List.length_append] at hlength
        exact absurd hlength (Nat.not_le_of_lt hover)
      · cases h
        refine ⟨rfl, ?_⟩
        show ctx ∈ (EngineM.entered e graph ctx).contextsOf graph
        rw [hentered]
        exact List.mem_append_right _ (List.mem_singleton.mpr rfl)
  refine ⟨hcontexts.1, ?_⟩
  rw [EngineM.specialize_run, if_pos ((extends_.contexts graph).subset hcontexts.2)]

theorem grows_of_specialize {e e' : Engine} {graph : GraphId} {ctx : Context}
    {r : Except InferError Unit} (h : (EngineM.specialize graph ctx).run.run e = (r, e')) :
    e.Grows e' := by
  have grows := EngineM.grows_specialize graph ctx e
  rwa [show (EngineM.specialize graph ctx).run.run e = (r, e') from h] at grows

theorem target_grows (e : Engine) (graph : GraphId) (args : List ArgSpec) (track : Track) :
    e.Grows (e.target graph args track).2 := by
  rw [target]
  split
  · exact .refl e
  · cases args.mapM ArgSpec.props with
    | error err => exact .refl e
    | ok props =>
      dsimp only
      rcases hspec : (EngineM.specialize graph (Context.empty.extend graph props)).run.run e with
        ⟨r, e'⟩
      have hgrows : e.Grows e' := grows_of_specialize hspec
      cases r with
      | error err => exact hgrows
      | ok u => cases (e.program.graph graph).output <;> exact hgrows

/-- A call of a graph asks for the same again, unless it went beyond the limit. -/
theorem target_again {e f : Engine} (complete : e.program.Complete) {graph : GraphId}
    (known : graph.index < e.program.graphs.size) {args : List ArgSpec} {track : Track}
    (extends_ : (e.target graph args track).2.Extends f)
    (limit : (f.contextsOf graph).length ≤ f.config.maxSpecializations) :
    f.target graph args track = ((e.target graph args track).1, f) := by
  have hbase := (target_grows e graph args track).toExtends
  have hprogram := (hbase.trans extends_).program
  rw [target] at extends_ ⊢
  rw [hprogram.graph_eq known, target]
  split
  · rfl
  · rename_i hcount
    rw [if_neg hcount] at extends_
    cases hprops : args.mapM ArgSpec.props with
    | error err => rfl
    | ok props =>
      simp only [hprops] at extends_ ⊢
      rcases hspec : (EngineM.specialize graph (Context.empty.extend graph props)).run.run e with
        ⟨r, e'⟩
      have hextends : e'.Extends f := by
        simp only [hspec] at extends_
        cases r with
        | error err => exact extends_
        | ok u =>
          cases hout : (e.program.graph graph).output <;> simp only [hout] at extends_ <;>
            exact extends_
      obtain ⟨rfl, hagain⟩ := specialize_again hspec hextends limit
      simp only [hagain]
      cases hout : (e.program.graph graph).output with
      | none => rfl
      | some output =>
        have hspec' : e.Grows e' := grows_of_specialize hspec
        have hlt := complete.output_lt known hout
        have hlocate := locate_of_extends hprogram complete hlt (Context.empty.extend graph props)
        have hlocate' := locate_of_extends hspec'.program complete hlt
          (Context.empty.extend graph props)
        simp only [hlocate, hlocate']

end Engine

namespace Run

/-- The call of a graph, up to the entry that it asks for. -/
theorem work_callGraph {s : Run} {f : Inferrer} {track : Track} {graph : GraphId}
    (found : s.engine.callable? f = some (.graph track graph .empty)) (args : List ArgSpec)
    (self : TaskId) (reader : Option Entry) :
    work self reader (Infer.callInferrer f (args.map ArgSpec.toRef)) s
      = match s.engine.target graph args track with
        | (.error err, e) => work self reader (.fail err) { s with engine := e }
        | (.ok key, e) => work self reader (.demand key .done) { s with engine := e } := by
  rw [Infer.callInferrer, work_of_step (.call found), Infer.bind_done]
  rw [Callable.body, Callable.callGraph, List.length_map, mapM_argProps_toRef]
  show work self reader (.ask (.graph graph) fun g => _) s = _
  rw [work_of_step (.ask (.graph graph) _ s), Engine.target]
  show work self reader (if args.length ≠ (s.engine.program.graph graph).parameters.length then _
    else _) s = _
  split
  · rfl
  · cases args.mapM ArgSpec.props with
    | error err => rfl
    | ok props =>
      dsimp only
      show work self reader (.ask (.specialize graph (Context.empty.extend graph props)) fun r => _) s
        = _
      rw [work_of_step (.ask (.specialize graph (Context.empty.extend graph props)) _ s)]
      rw [afterAnswer]
      show work self reader ((Infer.ofExcept
        ((EngineM.specialize graph (Context.empty.extend graph props)).run.run s.engine).1).bind _)
        { s with engine :=
          ((EngineM.specialize graph (Context.empty.extend graph props)).run.run s.engine).2 } = _
      rcases (EngineM.specialize graph (Context.empty.extend graph props)).run.run s.engine with
        ⟨r, e⟩
      cases r with
      | error err => rfl
      | ok u =>
        show work self reader (match (s.engine.program.graph graph).output with
          | none => _
          | some output => Infer.ask (.locate output (Context.empty.extend graph props)) _)
          { s with engine := e } = _
        cases (s.engine.program.graph graph).output with
        | none => rfl
        | some output =>
          show work self reader (.ask (.locate output (Context.empty.extend graph props)) _)
            { s with engine := e } = _
          rw [work_of_step (.ask (.locate output _) _ _)]
          rfl

/-! ## The first turn -/

/-- The run of a call of a graph, before its first turn. -/
def asking (e : Engine) (graph : GraphId) (args : List ArgSpec) (track : Track) : Run :=
  opening ((EngineM.graphInferrer track graph .empty).run e).2
    (Infer.callInferrer ((EngineM.graphInferrer track graph .empty).run e).1
      (args.map ArgSpec.toRef))

/-- What a call of a graph asks for, in the run of the call. -/
def target (e : Engine) (graph : GraphId) (args : List ArgSpec) (track : Track) :
    Except InferError Entry × Engine :=
  ((EngineM.graphInferrer track graph .empty).run e).2.target graph args track

theorem inferTrack?_eq (e : Engine) (graph : GraphId) (args : List ArgSpec) (track : Track) :
    e.inferTrack? graph args track
      = (drive (asking e graph args track)).map fun s => (s.result, s.close) := rfl

/-- The first turn of a call, up to the entry that it asks for. -/
theorem turn_asking {e : Engine} (apt : e.Apt) (graph : GraphId) (args : List ArgSpec)
    (track : Track) (schedule : Schedule) :
    turn ((asking e graph args track).scheduled schedule) 0
      = (match target e graph args track with
        | (.error err, f) => work 0 none (.fail err)
            { (asking e graph args track).scheduled schedule with engine := f }
        | (.ok key, f) => work 0 none (.demand key .done)
            { (asking e graph args track).scheduled schedule with engine := f }).map
          fun out : Progress Property × Run => out.2.settle 0 .answer out.1 := by
  have hcall := work_callGraph
    (s := (asking e graph args track).scheduled schedule)
    (Engine.callable?_graphInferrer apt track graph .empty) args 0 none
  exact congrArg (Option.map fun out : Progress Property × Run => out.2.settle 0 .answer out.1) hcall

section

variable {e f : Engine} {graph : GraphId} {args : List ArgSpec} {track : Track}

theorem target_grows (e : Engine) (graph : GraphId) (args : List ArgSpec) (track : Track) :
    ((EngineM.graphInferrer track graph .empty).run e).2.Grows (target e graph args track).2 :=
  Engine.target_grows _ graph args track

/-- What the call can be answered with at once: there is nothing that it asks for, or the entry has
its result already. -/
inductive AtOnce (e : Engine) (graph : GraphId) (args : List ArgSpec) (track : Track) :
    Outcome → Engine → Prop where
  | refused {err : InferError} {f : Engine} (target : target e graph args track = (.error err, f)) :
      AtOnce e graph args track (.error err) f
  | known {key : Entry} {f : Engine} {p : Promise TaskId} {r : Outcome}
      (target : target e graph args track = (.ok key, f)) (found : f.memo.find? key = some p)
      (ready : p.result = some r) : AtOnce e graph args track r f

theorem turn_of_atOnce (apt : e.Apt) {r : Outcome} (h : AtOnce e graph args track r f)
    (schedule : Schedule) :
    turn ((asking e graph args track).scheduled schedule) 0
      = some (endTask { (asking e graph args track).scheduled schedule with engine := f } 0 .answer
          r) := by
  rw [turn_asking apt]
  cases h with
  | refused target =>
    simp only [target]
    rw [work_of_halt rfl (.fail _ _)]
    rfl
  | @known key f p r target found ready =>
    simp only [target]
    cases r with
    | error err =>
      rw [work_of_halt rfl (.readFailed found ready)]
      rfl
    | ok v =>
      rw [work_of_step (.read found ready), work_of_halt rfl (.done _ _)]
      rfl

theorem turn_of_absent (apt : e.Apt) {key : Entry} (h : target e graph args track = (.ok key, f))
    (absent : f.memo.find? key = none) (schedule : Schedule) :
    turn ((asking e graph args track).scheduled schedule) 0
      = some (settle (beginEntry
          { (asking e graph args track).scheduled schedule with engine := f } 0 key)
          0 .answer (.waiting (.entry key) .done)) := by
  rw [turn_asking apt, h]
  simp only []
  rw [work_of_halt rfl (.begin absent)]
  rfl

/-- A call that can be answered at once takes one turn. -/
theorem inferTrack?_of_atOnce (apt : e.Apt) {r : Outcome} (h : AtOnce e graph args track r f) :
    ∃ e', e.inferTrack? graph args track = some (r, e') := by
  have hnext : (asking e graph args track).schedule.next?
      = some (0, { ready := [], incoming := [], total := 1, turns := 0 }) := rfl
  have hdrive : drive (asking e graph args track)
      = some (endTask { (asking e graph args track).scheduled
          { ready := [], incoming := [], total := 1, turns := 0 } with engine := f } 0 .answer r) := by
    have hturn := turn_of_atOnce apt h { ready := [], incoming := [], total := 1, turns := 0 }
    rw [scheduled] at hturn
    rw [drive.eq_def, hnext]
    simp only [hturn]
    rw [drive.eq_def]
    rfl
  rw [inferTrack?_eq, hdrive, Option.map_some]
  cases r with
  | ok p => exact ⟨_, rfl⟩
  | error err => exact ⟨_, rfl⟩

end

end Run

end ArrayInference
