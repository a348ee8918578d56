import ArrayInference.Proofs.Run.Follows

/-!
# The inferrer of a graph

A graph that stands in a context has one inferrer on a track: it is made once and kept, and a call of
it is a call of the graph. Neither questions nor runs nor new rules change that.
-/

namespace ArrayInference

namespace Engine

/-- The inferrers that are kept for graphs call these graphs. -/
structure Apt (e : Engine) : Prop where
  graphs : ∀ {track : Track} {graph : GraphId} {ctx : Context} {f : Inferrer},
    e.inferrers.find? { track, callee := .graph graph, ctx } = some f →
      e.callable? f = some (.graph track graph ctx)

theorem Apt.congr {e f : Engine} (h : e.Apt) (inferrers : f.inferrers = e.inferrers)
    (callables : f.callables = e.callables) : f.Apt := by
  refine ⟨fun found => ?_⟩
  rw [inferrers] at found
  rw [callable?, callables]
  exact h.graphs found

/-- What is kept for other constants makes no difference. -/
theorem Apt.insert {e : Engine} (h : e.Apt) {key : InferrerKey} (g : Inferrer)
    (other : ∀ graph, key.callee ≠ .graph graph) :
    Apt { e with inferrers := e.inferrers.insert key g } := by
  refine ⟨fun {track graph ctx f} found => ?_⟩
  replace found : (e.inferrers.insert key g).find? { track, callee := .graph graph, ctx } = some f :=
    found
  rw [Table.find?_insert_of_ne _ _ (fun heq => other graph (by rw [heq]))] at found
  exact h.graphs found

instance : Std.Refl fun e f : Engine => e.Apt → f.Apt :=
  ⟨fun _ h => h⟩

instance : IsTrans Engine fun e f => e.Apt → f.Apt :=
  ⟨fun _ _ _ h h' he => h' (h he)⟩

end Engine

namespace EngineM

variable {α : Type}

/-- A computation after which graphs still have their inferrers. -/
abbrev KeepsApt (m : EngineM α) : Prop :=
  m.Leaves fun e f => e.Apt → f.Apt

theorem keepsApt_newInferrer (c : Callable) : KeepsApt (newInferrer c) :=
  fun _ h => ⟨fun found => Program.getElem?_push_of_some (h.graphs found)⟩

theorem keepsApt_interning (make : Interning α) : KeepsApt (interning make) :=
  fun _ h => h.congr rfl rfl

theorem keepsApt_note (d : Diagnostic) : KeepsApt (note d) :=
  fun _ h => h.congr rfl rfl

theorem keepsApt_cached {key : InferrerKey} (other : ∀ graph, key.callee ≠ .graph graph)
    {make : ExceptT InferError EngineM Inferrer} (h : KeepsApt make.run) :
    KeepsApt (cached key make).run := by
  intro e he
  rw [cached_run]
  cases e.inferrers.find? key with
  | some f => exact he
  | none =>
    have hmake := h e he
    rcases hout : make.run.run e with ⟨r, e'⟩
    rw [hout] at hmake
    cases r with
    | ok f => exact hmake.insert f other
    | error err => exact hmake

theorem keepsApt_primitiveInferrer (operator : Primitive) (track : Track) :
    KeepsApt (primitiveInferrer operator track).run := by
  refine keepsApt_cached (fun _ => by rintro ⟨⟩) (Leaves.tryBind (Leaves.lift Leaves.get) fun e => ?_)
  split
  · exact Leaves.lift (keepsApt_newInferrer _)
  · refine Leaves.tryBind (Leaves.pure _) fun f => ?_
    exact Leaves.tryBind (Leaves.lift (keepsApt_note _)) fun _ => Leaves.pure _

theorem graphInferrer_run (track : Track) (graph : GraphId) (ctx : Context) (e : Engine) :
    (graphInferrer track graph ctx).run e
      = match e.inferrers.find? { track, callee := .graph graph, ctx } with
        | some f => (f, e)
        | none =>
          let f : Inferrer := { id := e.callables.size, form := .graph track graph }
          (f, { e with
            callables := e.callables.push (.graph track graph ctx)
            inferrers := e.inferrers.insert { track, callee := .graph graph, ctx } f }) := by
  show StateT.run (match e.inferrers.find? { track, callee := .graph graph, ctx } with
    | some f => pure f
    | none => _) e = _
  cases e.inferrers.find? { track, callee := .graph graph, ctx } <;> rfl

theorem keepsApt_graphInferrer (track : Track) (graph : GraphId) (ctx : Context) :
    KeepsApt (graphInferrer track graph ctx) := by
  intro e he
  rw [graphInferrer_run]
  cases e.inferrers.find? { track, callee := .graph graph, ctx } with
  | some f => exact he
  | none =>
    refine ⟨fun {track' graph' ctx' f} found => ?_⟩
    replace found : (e.inferrers.insert { track, callee := .graph graph, ctx } _).find?
      { track := track', callee := .graph graph', ctx := ctx' } = some f := found
    rw [Table.find?_insert] at found
    split at found
    · rename_i heq
      cases heq
      cases found
      exact Array.getElem?_push_size
    · exact Program.getElem?_push_of_some (he.graphs found)

theorem keepsApt_dataProperty (track : Track) (value : Constant) :
    KeepsApt (dataProperty track value).run := by
  cases track with
  | value => exact Leaves.pure _
  | type =>
    refine Leaves.tryBind (Leaves.lift (keepsApt_interning _)) fun r => ?_
    cases r with
    | ok t => exact Leaves.pure _
    | error e => exact Leaves.pure _
  | shape => exact Leaves.tryBind (Leaves.pure _) fun s => Leaves.pure _

theorem keepsApt_classInferrer (c : RecordClass) (track : Track) :
    KeepsApt (classInferrer c track).run := by
  refine keepsApt_cached (fun _ => by rintro ⟨⟩)
    (Leaves.tryBind (keepsApt_primitiveInferrer _ _) fun make => ?_)
  refine Leaves.tryBind (Leaves.lift (keepsApt_interning _)) fun declared => ?_
  refine Leaves.tryBind (Leaves.lift (keepsApt_interning _)) fun type => ?_
  exact Leaves.lift (keepsApt_newInferrer _)

theorem keepsApt_constantProperty (value : Constant) (ctx : Context) (track : Track) :
    KeepsApt (constantProperty value ctx track).run := by
  cases value with
  | primitive operator =>
    exact Leaves.tryBind (keepsApt_primitiveInferrer _ _) fun _ => Leaves.pure _
  | graph g =>
    exact Leaves.tryBind (Leaves.lift (keepsApt_graphInferrer _ _ _)) fun _ => Leaves.pure _
  | metaGraph m =>
    refine Leaves.tryBind (keepsApt_cached (fun _ => by rintro ⟨⟩) ?_) fun _ => Leaves.pure _
    exact Leaves.lift (keepsApt_newInferrer _)
  | recordType c => exact Leaves.tryBind (keepsApt_classInferrer c track) fun _ => Leaves.pure _
  | _ => exact keepsApt_dataProperty track _

theorem keepsApt_generate (generator : MetaGraph) (types : List Ty) :
    KeepsApt (generate generator types).run := by
  intro e he
  rw [generate_run]
  cases e.generated.find? { generator, types } with
  | some g => exact he
  | none =>
    cases generator.generate e.program types with
    | error error => exact he
    | ok pair => exact he.congr rfl rfl

theorem keepsApt_specialize (graph : GraphId) (ctx : Context) :
    KeepsApt (specialize graph ctx).run := by
  intro e he
  rw [specialize_run]
  split
  · exact he
  · split
    · exact he.congr rfl rfl
    · exact keepsApt_note _ _ (he.congr rfl rfl)

theorem keepsApt_answer (query : Query) : KeepsApt (answer query) := by
  cases query with
  | describe subject => exact Leaves.get.bind fun _ => Leaves.pure _
  | note d => exact keepsApt_note d
  | intern make => exact keepsApt_interning make
  | constant value ctx track => exact keepsApt_constantProperty value ctx track
  | graphInferrer track graph ctx => exact keepsApt_graphInferrer track graph ctx
  | bind inner bound => exact keepsApt_newInferrer _
  | scalarShape => exact keepsApt_newInferrer _
  | anything => exact keepsApt_newInferrer _
  | generate generator types => exact keepsApt_generate generator types
  | specialize graph ctx => exact keepsApt_specialize graph ctx
  | locate node ctx => exact Leaves.get.bind fun _ => Leaves.pure _
  | node id => exact Leaves.get.bind fun _ => Leaves.pure _
  | graph id => exact Leaves.get.bind fun _ => Leaves.pure _

end EngineM

namespace Engine

theorem Follows.apt {e f : Engine} (h : e.Follows f) (apt : e.Apt) : f.Apt :=
  Follows.invariant Apt (fun query he => EngineM.keepsApt_answer query _ he)
    (fun _ _ _ he => Apt.congr he rfl rfl) h apt

/-- Graphs have their own inferrers in every engine. -/
theorem Arises.apt {e : Engine} (h : e.Arises) : e.Apt := by
  induction h with
  | new program types config => exact ⟨fun found => by cases found⟩
  | answered _ query ih => exact EngineM.keepsApt_answer query _ ih
  | ran _ body polls finished ih =>
    exact (polls.follows.trans (Run.follows_close _)).apt ih
  | @refused e _ key ih =>
    rw [Run.request]
    split
    · exact ih
    · rw [if_neg (show ¬ (Run.start e false).active = true from Bool.false_ne_true)]
      exact ih.congr rfl rfl
  | @registered e _ track operator arity rule ih =>
    rw [registerRule]
    split
    · exact ih
    · refine ⟨fun {track' graph ctx f} found => ih.graphs ?_⟩
      replace found : Table.find? (List.filter (fun pair => !(decide (pair.1.track = track)
        && decide (pair.1.callee = .primitive operator))) e.inferrers) _ = some f := found
      rw [Table.find?_filter_key e.inferrers fun key => !(decide (key.track = track)
        && decide (key.callee = .primitive operator))] at found
      exact (Option.ite_none_right_eq_some.mp found).2

/-- The inferrer that is asked for calls the graph. -/
theorem callable?_graphInferrer {e : Engine} (apt : e.Apt) (track : Track) (graph : GraphId)
    (ctx : Context) :
    ((EngineM.graphInferrer track graph ctx).run e).2.callable?
        ((EngineM.graphInferrer track graph ctx).run e).1
      = some (.graph track graph ctx) := by
  rw [EngineM.graphInferrer_run]
  cases found : e.inferrers.find? { track, callee := .graph graph, ctx } with
  | some f => exact apt.graphs found
  | none => exact Array.getElem?_push_size

/-- It is the same one from then on. -/
theorem graphInferrer_again {e f : Engine} {track : Track} {graph : GraphId} {ctx : Context}
    (h : ((EngineM.graphInferrer track graph ctx).run e).2.Extends f) :
    (EngineM.graphInferrer track graph ctx).run f
      = (((EngineM.graphInferrer track graph ctx).run e).1, f) := by
  rw [EngineM.graphInferrer_run] at h ⊢
  rw [EngineM.graphInferrer_run]
  cases found : e.inferrers.find? { track, callee := .graph graph, ctx } with
  | some g =>
    simp only [found] at h ⊢
    rw [h.inferrers found]
  | none =>
    simp only [found] at h ⊢
    rw [h.inferrers (Table.find?_insert_self _ _ _)]

end Engine

end ArrayInference
