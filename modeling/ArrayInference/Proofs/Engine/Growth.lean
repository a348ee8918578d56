import ArrayInference.Engine.State
import ArrayInference.Proofs.Table

/-!
# What questions leave behind

A question only adds to what an engine knows. The nodes and graphs that are there stay as they are,
inferrers keep their meaning, and a context that was entered is never left out again. The results,
and who read them, are not touched at all: only tasks change these.
-/

namespace ArrayInference

namespace Program

/-- A program with all nodes and graphs of another one, at their places. -/
structure Extends (p q : Program) : Prop where
  nodes : ∀ {i : Nat} {n : Node}, p.nodes[i]? = some n → q.nodes[i]? = some n
  graphs : ∀ {i : Nat} {g : Graph}, p.graphs[i]? = some g → q.graphs[i]? = some g

theorem Extends.refl (p : Program) : p.Extends p :=
  ⟨fun h => h, fun h => h⟩

theorem Extends.trans {p q r : Program} (h : p.Extends q) (h' : q.Extends r) : p.Extends r :=
  ⟨fun hn => h'.nodes (h.nodes hn), fun hg => h'.graphs (h.graphs hg)⟩

theorem getElem?_push_of_some {α : Type} {xs : Array α} {i : Nat} {x y : α}
    (h : xs[i]? = some x) : (xs.push y)[i]? = some x := by
  obtain ⟨hlt, rfl⟩ := Array.getElem?_eq_some_iff.mp h
  rw [Array.getElem?_push_lt hlt]

theorem extends_addNode (p : Program) (node : Node) : p.Extends (p.addNode node).2 :=
  ⟨getElem?_push_of_some, fun h => h⟩

theorem extends_addGraph (p : Program) (name : String) (parent : Option GraphId) :
    p.Extends (p.addGraph name parent).2 :=
  ⟨fun h => h, getElem?_push_of_some⟩

/-- Whoever changes a graph that is not there yet disturbs none that is. -/
theorem Extends.modifyGraph {p q : Program} (h : p.Extends q) {id : GraphId}
    (fresh : p.graphs.size ≤ id.index) (change : Graph → Graph) :
    p.Extends (q.modifyGraph id change) := by
  refine ⟨h.nodes, ?_⟩
  intro i g hg
  obtain ⟨hlt, -⟩ := Array.getElem?_eq_some_iff.mp hg
  show (q.graphs.modify id.index change)[i]? = some g
  rw [Array.getElem?_modify, if_neg (by omega), h.graphs hg]

theorem extends_addParameter {p q : Program} (h : p.Extends q) {graph : GraphId}
    (fresh : p.graphs.size ≤ graph.index) (name : String) :
    p.Extends (q.addParameter graph name).2 :=
  (h.trans (extends_addNode q _)).modifyGraph fresh _

theorem extends_addNumbered {p q : Program} (h : p.Extends q) {graph : GraphId}
    (fresh : p.graphs.size ≤ graph.index) (count : Nat) :
    p.Extends (q.addNumbered graph count).2 := by
  rw [addNumbered]
  suffices ∀ (ns : List Nat) (start : List NodeId × Program), p.Extends start.2 →
      p.Extends (ns.foldl
        (fun q n =>
          (q.1 ++ [(q.2.addParameter graph ("x" ++ toString n)).1],
            (q.2.addParameter graph ("x" ++ toString n)).2)) start).2 from this _ _ h
  intro ns
  induction ns with
  | nil => exact fun _ hstart => hstart
  | cons n rest ih => exact fun _ hstart => ih _ (extends_addParameter hstart fresh _)

theorem extends_addGenerated (p : Program) (generator : String) (count : Nat) :
    p.Extends (p.addGenerated generator count).2.2 :=
  extends_addNumbered (extends_addGraph p _ _) (Nat.le_refl _) count

theorem addGenerated_fst (p : Program) (generator : String) (count : Nat) :
    (p.addGenerated generator count).1 = ⟨p.graphs.size⟩ := rfl

theorem extends_addOperation (p : Program) (graph : GraphId) (operator : Primitive)
    (args : List NodeId) : p.Extends (p.addOperation graph operator args).2 :=
  (extends_addNode p _).trans (extends_addNode _ _)

theorem extends_addFold (p : Program) (graph : GraphId) (operator : Primitive) (first : NodeId)
    (rest : List NodeId) : p.Extends (p.addFold graph operator first rest).2 := by
  rw [addFold]
  induction rest generalizing p first with
  | nil => exact Extends.refl p
  | cons x rest ih => exact (extends_addOperation p graph operator [first, x]).trans (ih _ _)

theorem extends_addTypes (p : Program) (types : List Ty) : p.Extends (p.addTypes types).2 := by
  rw [addTypes]
  suffices ∀ (start : List NodeId × Program), start.2.Extends (types.foldl
      (fun q t =>
        (q.1 ++ [(q.2.addConstant (.type t)).1], (q.2.addConstant (.type t)).2)) start).2 from this ([], p)
  induction types with
  | nil => exact fun start => Extends.refl start.2
  | cons t rest ih => exact fun start => (extends_addNode start.2 _).trans (ih (_, _))

/-- A generator adds to a program. -/
theorem extends_generate {m : MetaGraph} {p q : Program} {types : List Ty} {g : GraphId}
    (h : m.generate p types = .ok (g, q)) : p.Extends q := by
  have hgen := extends_addGenerated p m.name types.length
  have hfst := addGenerated_fst p m.name types.length
  rw [MetaGraph.generate] at h
  cases hrecipe : m.recipe with
  | refuse error => simp [hrecipe] at h
  | existing graph =>
    simp only [hrecipe, Except.ok.injEq, Prod.mk.injEq] at h
    rw [← h.2]
    exact Extends.refl p
  | empty =>
    simp only [hrecipe, Except.ok.injEq, Prod.mk.injEq] at h
    rw [← h.2]
    exact hgen
  | types =>
    simp only [hrecipe, Except.ok.injEq, Prod.mk.injEq] at h
    rw [← h.2, hfst]
    exact ((hgen.trans (extends_addTypes _ _)).trans (extends_addOperation _ _ _ _)).modifyGraph
      (Nat.le_refl _) _
  | fold operator =>
    rcases hadd : p.addGenerated m.name types.length with ⟨graph, params, q₁⟩
    rw [hadd] at hgen hfst
    cases params with
    | nil => simp [hrecipe, hadd] at h
    | cons first rest =>
      simp only [hrecipe, hadd, Except.ok.injEq, Prod.mk.injEq] at h
      rw [← h.2]
      have hindex : p.graphs.size ≤ graph.index := Nat.le_of_eq (congrArg GraphId.index hfst).symm
      exact (hgen.trans (extends_addFold _ _ _ _ _)).modifyGraph hindex _

end Program

namespace Engine

/-- The contexts in which a graph was inferred. -/
def contextsOf (e : Engine) (graph : GraphId) : List Context :=
  (e.specializations.find? graph).getD []

/-- What one engine knows apart from its results, and perhaps more. -/
structure Extends (e f : Engine) : Prop where
  config : f.config = e.config
  rules : f.rules = e.rules
  program : e.program.Extends f.program
  callables : ∀ {i : Nat} {c : Callable}, e.callables[i]? = some c → f.callables[i]? = some c
  inferrers : ∀ {key : InferrerKey} {g : Inferrer},
    e.inferrers.find? key = some g → f.inferrers.find? key = some g
  contexts : ∀ graph, e.contextsOf graph <+: f.contextsOf graph

namespace Extends

variable {e f g : Engine}

theorem refl (e : Engine) : e.Extends e :=
  ⟨rfl, rfl, .refl _, fun h => h, fun h => h, fun _ => List.prefix_refl _⟩

theorem trans (h : e.Extends f) (h' : f.Extends g) : e.Extends g where
  config := h'.config.trans h.config
  rules := h'.rules.trans h.rules
  program := h.program.trans h'.program
  callables := fun hc => h'.callables (h.callables hc)
  inferrers := fun hf => h'.inferrers (h.inferrers hf)
  contexts := fun graph => (h.contexts graph).trans (h'.contexts graph)

end Extends

/-- What one engine knows, and perhaps more. The results are the same. -/
structure Grows (e f : Engine) : Prop extends Extends e f where
  memo : f.memo = e.memo
  readers : f.readers = e.readers

namespace Grows

variable {e f g : Engine}

theorem refl (e : Engine) : e.Grows e :=
  ⟨.refl e, rfl, rfl⟩

theorem trans (h : e.Grows f) (h' : f.Grows g) : e.Grows g :=
  ⟨h.toExtends.trans h'.toExtends, h'.memo.trans h.memo, h'.readers.trans h.readers⟩

end Grows

instance : Std.Refl Engine.Grows :=
  ⟨Grows.refl⟩

instance : IsTrans Engine Engine.Grows :=
  ⟨fun _ _ _ => Grows.trans⟩

end Engine

namespace EngineM

variable {α β : Type} {ε : Type}

/-- A computation that changes an engine only as `R` allows. -/
def Leaves (R : Engine → Engine → Prop) (m : EngineM α) : Prop :=
  ∀ e : Engine, R e (m.run e).2

/-- A computation that only adds to an engine. -/
abbrev Grows (m : EngineM α) : Prop :=
  m.Leaves Engine.Grows

section

variable {R : Engine → Engine → Prop} [Std.Refl R] [IsTrans Engine R]

omit [IsTrans Engine R] in
theorem Leaves.pure (a : α) : (pure a : EngineM α).Leaves R :=
  fun e => refl_of R e

omit [IsTrans Engine R] in
theorem Leaves.get : (get : EngineM Engine).Leaves R :=
  fun e => refl_of R e

omit [Std.Refl R] in
theorem Leaves.bind {m : EngineM α} {k : α → EngineM β} (h : m.Leaves R)
    (h' : ∀ a, (k a).Leaves R) : (m >>= k).Leaves R :=
  fun e => trans_of R (h e) (h' _ _)

/-- The same for a computation that may fail. -/
theorem Leaves.tryBind {m : ExceptT ε EngineM α} {k : α → ExceptT ε EngineM β}
    (h : Leaves R m.run) (h' : ∀ a, Leaves R (k a).run) : Leaves R (m >>= k).run := by
  rw [ExceptT.run_bind]
  refine h.bind ?_
  intro r
  cases r with
  | ok a => exact h' a
  | error e => exact Leaves.pure _

theorem Leaves.lift {m : EngineM α} (h : m.Leaves R) :
    Leaves R (ExceptT.lift m : ExceptT ε EngineM α).run := by
  rw [ExceptT.run_lift]
  exact h.bind fun _ => Leaves.pure _

end

theorem grows_newInferrer (c : Callable) : Grows (newInferrer c) := by
  intro e
  exact ⟨⟨rfl, rfl, .refl _, Program.getElem?_push_of_some, fun h => h,
    fun _ => List.prefix_refl _⟩, rfl, rfl⟩

theorem grows_interning (make : Interning α) : Grows (interning make) := by
  intro e
  exact ⟨⟨rfl, rfl, .refl _, fun h => h, fun h => h, fun _ => List.prefix_refl _⟩, rfl, rfl⟩

theorem grows_note (d : Diagnostic) : Grows (note d) := by
  intro e
  exact ⟨⟨rfl, rfl, .refl _, fun h => h, fun h => h, fun _ => List.prefix_refl _⟩, rfl, rfl⟩

/-- An inferrer is entered under a key that has none. -/
theorem grows_enter {e f : Engine} (h : e.Grows f) {key : InferrerKey}
    (absent : e.inferrers.find? key = none) (g : Inferrer) :
    e.Grows { f with inferrers := f.inferrers.insert key g } := by
  refine ⟨⟨h.config, h.rules, h.program, h.callables, ?_, h.contexts⟩, h.memo, h.readers⟩
  intro other g' found
  have hne : key ≠ other := by
    rintro rfl
    rw [absent] at found
    cases found
  show (f.inferrers.insert key g).find? other = some g'
  rw [Table.find?_insert_of_ne _ _ hne]
  exact h.inferrers found

theorem cached_run (key : InferrerKey) (make : ExceptT InferError EngineM Inferrer) (e : Engine) :
    (cached key make).run.run e
      = match e.inferrers.find? key with
        | some f => (.ok f, e)
        | none =>
          match make.run.run e with
          | (.ok f, e') => (.ok f, { e' with inferrers := e'.inferrers.insert key f })
          | (.error err, e') => (.error err, e') := by
  show StateT.run (ExceptT.run (match e.inferrers.find? key with
    | some f => pure f
    | none => do
      let f ← make
      modify fun e => { e with inferrers := e.inferrers.insert key f }
      return f)) e = _
  cases e.inferrers.find? key with
  | some f => rfl
  | none =>
    rcases hmake : make.run.run e with ⟨r, e'⟩
    simp only [ExceptT.run_bind, StateT.run_bind, hmake]
    cases r <;> rfl

theorem grows_cached (key : InferrerKey) {make : ExceptT InferError EngineM Inferrer}
    (h : Grows make.run) : Grows (cached key make).run := by
  intro e
  rw [cached_run]
  cases absent : e.inferrers.find? key with
  | some f => exact .refl e
  | none =>
    have hmake := h e
    rcases hout : make.run.run e with ⟨r, e'⟩
    rw [hout] at hmake
    cases r with
    | ok f => exact grows_enter hmake absent f
    | error err => exact hmake

theorem grows_primitiveInferrer (operator : Primitive) (track : Track) :
    Grows (primitiveInferrer operator track).run := by
  refine grows_cached _ (Leaves.tryBind (Leaves.lift Leaves.get) fun e => ?_)
  split
  · exact Leaves.lift (grows_newInferrer _)
  · refine Leaves.tryBind (Leaves.pure _) fun f => ?_
    exact Leaves.tryBind (Leaves.lift (grows_note _)) fun _ => Leaves.pure _

theorem grows_graphInferrer (track : Track) (graph : GraphId) (ctx : Context) :
    Grows (graphInferrer track graph ctx) := by
  intro e
  show e.Grows (StateT.run (match e.inferrers.find? { track, callee := .graph graph, ctx } with
    | some f => pure f
    | none => do
      let f ← newInferrer (.graph track graph ctx)
      modify fun e =>
        { e with inferrers := e.inferrers.insert { track, callee := .graph graph, ctx } f }
      return f) e).2
  cases absent : e.inferrers.find? { track, callee := .graph graph, ctx } with
  | some f => exact .refl e
  | none => exact grows_enter (grows_newInferrer (.graph track graph ctx) e) absent _

theorem grows_dataProperty (track : Track) (value : Constant) :
    Grows (dataProperty track value).run := by
  cases track with
  | value => exact Leaves.pure _
  | type =>
    refine Leaves.tryBind (Leaves.lift (grows_interning _)) fun r => ?_
    cases r with
    | ok t => exact Leaves.pure _
    | error e => exact Leaves.pure _
  | shape => exact Leaves.tryBind (Leaves.pure _) fun s => Leaves.pure _

theorem grows_classInferrer (c : RecordClass) (track : Track) :
    Grows (classInferrer c track).run := by
  refine grows_cached _ (Leaves.tryBind (grows_primitiveInferrer _ _) fun make => ?_)
  refine Leaves.tryBind (Leaves.lift (grows_interning _)) fun declared => ?_
  refine Leaves.tryBind (Leaves.lift (grows_interning _)) fun type => ?_
  exact Leaves.lift (grows_newInferrer _)

theorem grows_constantProperty (value : Constant) (ctx : Context) (track : Track) :
    Grows (constantProperty value ctx track).run := by
  cases value with
  | primitive operator => exact Leaves.tryBind (grows_primitiveInferrer _ _) fun _ => Leaves.pure _
  | graph g => exact Leaves.tryBind (Leaves.lift (grows_graphInferrer _ _ _)) fun _ => Leaves.pure _
  | metaGraph m =>
    exact Leaves.tryBind (grows_cached _ (Leaves.lift (grows_newInferrer _))) fun _ => Leaves.pure _
  | recordType c => exact Leaves.tryBind (grows_classInferrer c track) fun _ => Leaves.pure _
  | _ => exact grows_dataProperty track _

theorem generate_run (generator : MetaGraph) (types : List Ty) (e : Engine) :
    (generate generator types).run.run e
      = match e.generated.find? { generator, types } with
        | some g => (.ok g, e)
        | none =>
          match generator.generate e.program types with
          | .error error => (.error (.inference error.message), e)
          | .ok (g, program) =>
              (.ok g,
                { e with program, generated := e.generated.insert { generator, types } g }) := by
  rw [generate]
  show StateT.run (ExceptT.run (match e.generated.find? { generator, types } with
    | some g => (return g : ExceptT InferError EngineM GraphId)
    | none => _)) e = _
  cases e.generated.find? { generator, types } with
  | some g => rfl
  | none =>
    cases generator.generate e.program types <;> rfl

theorem grows_generate (generator : MetaGraph) (types : List Ty) :
    Grows (generate generator types).run := by
  intro e
  rw [generate_run]
  cases e.generated.find? { generator, types } with
  | some g => exact .refl e
  | none =>
    cases hgen : generator.generate e.program types with
    | error error => exact .refl e
    | ok pair =>
      exact ⟨⟨rfl, rfl, Program.extends_generate hgen, fun h => h, fun h => h,
        fun _ => List.prefix_refl _⟩, rfl, rfl⟩

/-- The engine after a context was entered for a graph. -/
def entered (e : Engine) (graph : GraphId) (ctx : Context) : Engine :=
  { e with specializations := e.specializations.insert graph (e.contextsOf graph ++ [ctx]) }

theorem specialize_run (graph : GraphId) (ctx : Context) (e : Engine) :
    (specialize graph ctx).run.run e
      = if ctx ∈ e.contextsOf graph then (.ok (), e)
        else if e.config.maxSpecializations < (e.contextsOf graph).length + 1 then
          (.error (.inference
            ("graph '" ++ (e.program.graph graph).name ++ "' exceeded "
              ++ toString e.config.maxSpecializations ++ " specializations")), entered e graph ctx)
        else
          (.ok (), ((note
            { reason := .specialized (e.program.graph graph).name ((e.contextsOf graph).length + 1)
              subject := none }).run (entered e graph ctx)).2) := by
  show StateT.run (ExceptT.run (if ctx ∈ e.contextsOf graph then return () else _)) e = _
  by_cases hknown : ctx ∈ e.contextsOf graph
  · rw [if_pos hknown, if_pos hknown]
    rfl
  · rw [if_neg hknown, if_neg hknown]
    show StateT.run (ExceptT.run
      (if e.config.maxSpecializations < (e.contextsOf graph).length + 1 then _ else _))
        (entered e graph ctx) = _
    split <;> rfl

theorem contextsOf_entered (e : Engine) (graph other : GraphId) (ctx : Context) :
    (entered e graph ctx).contextsOf other
      = if graph = other then e.contextsOf other ++ [ctx] else e.contextsOf other := by
  rw [Engine.contextsOf, entered, Table.find?_insert]
  by_cases h : graph = other
  · rw [if_pos h, if_pos h, h]
    rfl
  · rw [if_neg h, if_neg h]
    rfl

theorem grows_entered (e : Engine) (graph : GraphId) (ctx : Context) :
    e.Grows (entered e graph ctx) := by
  refine ⟨⟨rfl, rfl, .refl _, fun h => h, fun h => h, fun other => ?_⟩, rfl, rfl⟩
  rw [contextsOf_entered]
  split
  · exact List.prefix_append _ _
  · exact List.prefix_refl _

theorem grows_specialize (graph : GraphId) (ctx : Context) : Grows (specialize graph ctx).run := by
  intro e
  rw [specialize_run]
  split
  · exact .refl e
  · split
    · exact grows_entered e graph ctx
    · exact (grows_entered e graph ctx).trans (grows_note _ _)

theorem grows_answer (query : Query) : Grows (answer query) := by
  cases query with
  | describe subject => exact Leaves.get.bind fun _ => Leaves.pure _
  | note d => exact grows_note d
  | intern make => exact grows_interning make
  | constant value ctx track => exact grows_constantProperty value ctx track
  | graphInferrer track graph ctx => exact grows_graphInferrer track graph ctx
  | bind inner bound => exact grows_newInferrer _
  | scalarShape => exact grows_newInferrer _
  | anything => exact grows_newInferrer _
  | generate generator types => exact grows_generate generator types
  | specialize graph ctx => exact grows_specialize graph ctx
  | locate node ctx => exact Leaves.get.bind fun _ => Leaves.pure _
  | node id => exact Leaves.get.bind fun _ => Leaves.pure _
  | graph id => exact Leaves.get.bind fun _ => Leaves.pure _

end EngineM

end ArrayInference
