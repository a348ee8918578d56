import ArrayInference.Proofs.Engine.Inferrers
import ArrayInference.Proofs.Tracks.Locating

/-!
# What a question can make

Inferrers are made when a question asks for one. What a new inferrer stands for is what the question
is about: a graph in the context that is given with it, leading arguments that are given with it, an
operator, a generator, or a record class. The program only grows by what generators add.
-/

namespace ArrayInference

/-- What an inferrer that a question makes can stand for. -/
inductive Query.Makes : Query → Callable → Prop where
  | operator {value : Constant} {ctx : Context} {track t : Track} {operator : Primitive}
      {arity : Arity} {rule : Rule} :
      Makes (.constant value ctx track) (.primitive t operator arity rule)
  | graphConstant {g : GraphId} {ctx : Context} {track : Track} :
      Makes (.constant (.graph g) ctx track) (.graph track g ctx)
  | generator {m : MetaGraph} {ctx : Context} {track : Track} :
      Makes (.constant (.metaGraph m) ctx track) (.metaGraph track m)
  | record {cls : RecordClass} {ctx : Context} {track : Track} {make : Inferrer}
      {declared : Constant} {type : Ty} :
      Makes (.constant (.recordType cls) ctx track) (.bound make [.constant declared type])
  | graph {track : Track} {g : GraphId} {ctx : Context} :
      Makes (.graphInferrer track g ctx) (.graph track g ctx)
  | bind {inner : Inferrer} {bound : List Ref} : Makes (.bind inner bound) (.bound inner bound)
  | scalarShape : Makes .scalarShape .scalarShape
  | anything : Makes .anything .anything

namespace Engine

/-- An engine after a question that makes inferrers of some kind only. -/
structure Makes (P : Callable → Prop) (e f : Engine) : Prop where
  program : e.program.Sprouts f.program
  made : ∀ {i : Nat} {c : Callable}, f.callables[i]? = some c → e.callables[i]? = some c ∨ P c

namespace Makes

variable {P : Callable → Prop} {e f g : Engine}

theorem refl (e : Engine) : e.Makes P e :=
  ⟨.refl _, .inl⟩

theorem trans (h : e.Makes P f) (h' : f.Makes P g) : e.Makes P g where
  program := h.program.trans h'.program
  made := fun found => (h'.made found).elim h.made .inr

theorem congr (program : f.program = e.program) (callables : f.callables = e.callables) :
    e.Makes P f :=
  ⟨program ▸ .refl _, fun found => .inl (callables ▸ found)⟩

end Makes

instance (P : Callable → Prop) : Std.Refl (Engine.Makes P) :=
  ⟨Makes.refl⟩

instance (P : Callable → Prop) : IsTrans Engine (Engine.Makes P) :=
  ⟨fun _ _ _ => Makes.trans⟩

end Engine

namespace EngineM

variable {α : Type} {P : Callable → Prop}

/-- A computation that makes inferrers of some kind only. -/
abbrev Makes (P : Callable → Prop) (m : EngineM α) : Prop :=
  m.Leaves (Engine.Makes P)

theorem makes_newInferrer {c : Callable} (h : P c) : Makes P (newInferrer c) := by
  refine fun e => ⟨.refl _, fun {i c'} found => ?_⟩
  replace found : (e.callables.push c)[i]? = some c' := found
  rw [Array.getElem?_push] at found
  split at found
  · exact .inr (Option.some.inj found ▸ h)
  · exact .inl found

theorem makes_interning {β : Type} (make : Interning β) : Makes P (interning make) :=
  fun _ => .congr rfl rfl

theorem makes_note (d : Diagnostic) : Makes P (note d) :=
  fun _ => .congr rfl rfl

theorem makes_cached (key : InferrerKey) {make : ExceptT InferError EngineM Inferrer}
    (h : Makes P make.run) : Makes P (cached key make).run := by
  intro e
  rw [cached_run]
  cases e.inferrers.find? key with
  | some f => exact .refl e
  | none =>
    have hmake := h e
    rcases hout : make.run.run e with ⟨r, e'⟩
    rw [hout] at hmake
    cases r with
    | ok f => exact hmake.trans (.congr rfl rfl)
    | error err => exact hmake

theorem makes_primitiveInferrer (operator : Primitive) (track : Track)
    (h : ∀ arity rule, P (.primitive track operator arity rule)) :
    Makes P (primitiveInferrer operator track).run := by
  refine makes_cached _ (Leaves.tryBind (Leaves.lift Leaves.get) fun e => ?_)
  split
  · exact Leaves.lift (makes_newInferrer (h _ _))
  · exact Leaves.tryBind (Leaves.pure _) fun f =>
      Leaves.tryBind (Leaves.lift (makes_note _)) fun _ => Leaves.pure _

theorem makes_graphInferrer (track : Track) (graph : GraphId) (ctx : Context)
    (h : P (.graph track graph ctx)) : Makes P (graphInferrer track graph ctx) := by
  intro e
  rw [graphInferrer_run]
  cases e.inferrers.find? { track, callee := .graph graph, ctx } with
  | some f => exact .refl e
  | none => exact (makes_newInferrer h e).trans (.congr rfl rfl)

theorem makes_dataProperty (track : Track) (value : Constant) :
    Makes P (dataProperty track value).run := by
  cases track with
  | value => exact Leaves.pure _
  | type =>
    refine Leaves.tryBind (Leaves.lift (makes_interning _)) fun r => ?_
    cases r <;> exact Leaves.pure _
  | shape => exact Leaves.tryBind (Leaves.pure _) fun s => Leaves.pure _

theorem makes_classInferrer (cls : RecordClass) (ctx : Context) (track : Track) :
    Makes (Query.constant (.recordType cls) ctx track).Makes (classInferrer cls track).run := by
  refine makes_cached _
    (Leaves.tryBind (makes_primitiveInferrer _ _ fun _ _ => .operator) fun make => ?_)
  refine Leaves.tryBind (Leaves.lift (makes_interning _)) fun declared => ?_
  refine Leaves.tryBind (Leaves.lift (makes_interning _)) fun type => ?_
  exact Leaves.lift (makes_newInferrer .record)

theorem makes_constantProperty (value : Constant) (ctx : Context) (track : Track) :
    Makes (Query.constant value ctx track).Makes (constantProperty value ctx track).run := by
  cases value with
  | primitive operator =>
    exact Leaves.tryBind (makes_primitiveInferrer _ _ fun _ _ => .operator) fun _ => Leaves.pure _
  | graph g =>
    exact Leaves.tryBind (Leaves.lift (makes_graphInferrer _ _ _ .graphConstant)) fun _ =>
      Leaves.pure _
  | metaGraph m =>
    exact Leaves.tryBind (makes_cached _ (Leaves.lift (makes_newInferrer .generator))) fun _ =>
      Leaves.pure _
  | recordType cls => exact Leaves.tryBind (makes_classInferrer cls ctx track) fun _ => Leaves.pure _
  | _ => exact makes_dataProperty track _

theorem makes_generate (generator : MetaGraph) (types : List Ty) :
    Makes P (generate generator types).run := by
  intro e
  rw [generate_run]
  cases e.generated.find? { generator, types } with
  | some g => exact .refl e
  | none =>
    cases made : generator.generate e.program types with
    | error error => exact .refl e
    | ok pair => exact ⟨Program.sprouts_generate made, .inl⟩

theorem makes_specialize (graph : GraphId) (ctx : Context) : Makes P (specialize graph ctx).run := by
  intro e
  rw [specialize_run]
  split
  · exact .refl e
  · split <;> exact .congr rfl rfl

/-- A question makes what it is about. -/
theorem makes_answer (query : Query) : Makes query.Makes (answer query) := by
  cases query with
  | describe subject => exact Leaves.get.bind fun _ => Leaves.pure _
  | note d => exact makes_note d
  | intern make => exact makes_interning make
  | constant value ctx track => exact makes_constantProperty value ctx track
  | graphInferrer track graph ctx => exact makes_graphInferrer track graph ctx .graph
  | bind inner bound => exact makes_newInferrer .bind
  | scalarShape => exact makes_newInferrer .scalarShape
  | anything => exact makes_newInferrer .anything
  | generate generator types => exact makes_generate generator types
  | specialize graph ctx => exact makes_specialize graph ctx
  | locate node ctx => exact Leaves.get.bind fun _ => Leaves.pure _
  | node id => exact Leaves.get.bind fun _ => Leaves.pure _
  | graph id => exact Leaves.get.bind fun _ => Leaves.pure _

end EngineM

end ArrayInference
