import ArrayInference.Proofs.Exchange.Callables

/-!
# Types of one home

A cache can be given any computation that makes types. With the built-in rules it is only given such
that make the same types in every cache of one home, so the home of an engine's cache, which its types
carry, is the same in every engine that comes of it.
-/

namespace ArrayInference

/-- A question for no types but those that every cache of one home makes. -/
def Query.Steady : Query → Prop
  | .intern make => make.Steady
  | _ => True

namespace Infer

variable {α β γ : Type}

/-- A computation that asks for no types but those that every cache of one home makes. -/
inductive Steady : Infer α → Prop where
  | done (a : α) : Steady (.done a)
  | fail (e : InferError) : Steady (.fail e)
  | forever : Steady .forever
  | ask {query : Query} {next : query.Answer → Infer α} (steady : query.Steady)
      (later : ∀ a, Steady (next a)) : Steady (.ask query next)
  | demand {key : Entry} {next : Property → Infer α} (later : ∀ p, Steady (next p)) :
      Steady (.demand key next)
  | call {callee : Inferrer} {args : List Ref} {next : Property → Infer α}
      (later : ∀ p, Steady (next p)) : Steady (.call callee args next)
  | unify {track : Track} {use : BranchUse} {first second : Ref} {next : Property → Infer α}
      (later : ∀ p, Steady (next p)) : Steady (.unify track use first second next)

theorem Steady.bind {b : Infer α} {f : α → Infer β} (h : b.Steady) (h' : ∀ a, (f a).Steady) :
    (b.bind f).Steady := by
  induction h with
  | done a => exact h' a
  | fail e => exact .fail e
  | forever => exact .forever
  | ask steady _ ih => exact .ask steady ih
  | demand _ ih => exact .demand ih
  | call _ ih => exact .call ih
  | unify _ ih => exact .unify ih

/-- One computation after the other. -/
theorem Steady.seq {b : Infer α} {f : α → Infer β} (h : b.Steady) (h' : ∀ a, (f a).Steady) :
    (b >>= f).Steady :=
  h.bind h'

/-- What asks about references alone asks for such types alone. -/
theorem Stays.steady {P : Ref → Prop} {b : Infer α} (h : b.Stays P) : b.Steady := by
  induction h with
  | done a => exact .done a
  | fail e => exact .fail e
  | forever => exact .forever
  | @ask query next own _ ih =>
    refine .ask ?_ ih
    cases query with
    | intern make => exact own
    | _ => trivial
  | demand _ _ ih => exact .demand ih
  | call _ _ ih => exact .call ih
  | unify _ _ _ ih => exact .unify ih

theorem steady_mapM {f : γ → Infer α} (h : ∀ x, (f x).Steady) (xs : List γ) :
    (xs.mapM f).Steady := by
  induction xs with
  | nil => exact .done []
  | cons x xs ih =>
    rw [List.mapM_cons]
    exact (h x).seq fun _ => ih.seq fun _ => .done _

theorem steady_ofExcept (r : Except InferError α) : (ofExcept r).Steady :=
  (stays_ofExcept (P := fun _ => True) r).steady

theorem steady_branch (track : Track) (use : BranchUse) (x : Ref) : (branch track use x).Steady :=
  (stays_branch (P := fun _ => True) track use trivial).steady

end Infer

namespace Callable

theorem steady_callGraph (track : Track) (id : GraphId) (ctx : Context) (args : List Ref) :
    (callGraph track id ctx args).Steady := by
  refine .seq (.ask trivial .done) fun g => ?_
  split
  · exact .fail _
  · refine (Infer.steady_mapM (fun x => (Infer.stays_argProps (P := fun _ => True) trivial).steady)
      args).seq fun props => ?_
    refine .seq (.ask trivial fun r => Infer.steady_ofExcept r) fun _ => ?_
    split
    · exact .fail _
    · exact .seq (.ask trivial .done) fun r => .demand .done

/-- Calls ask for such types alone. -/
theorem steady_body {e : Engine} (standard : e.Standard) {f : Inferrer} {c : Callable}
    (found : e.callable? f = some c) (args : List Ref) : (c.body args).Steady := by
  cases c with
  | scalarShape => exact .done _
  | anything => exact .done _
  | primitive track operator arity rule =>
    have known := standard.callables found
    rw [body]
    split
    · exact (Registries.stays_builtin track _ _ _ known (fun _ => True) track args (by simp)).steady
    · exact .fail _
  | graph track id ctx => exact steady_callGraph track id ctx args
  | metaGraph track generator =>
    exact (stays_callGenerator (P := fun _ => True) track generator (by simp)).steady
  | bound inner first => exact .call .done

end Callable

namespace NodeRef

theorem steady_inferAs (r : NodeRef) (track : Track) (n : Node) : (r.inferAs track n).Steady := by
  rw [inferAs]
  split
  · exact .ask trivial fun r => Infer.steady_ofExcept r
  · split
    · exact .done _
    · exact .seq (.ask trivial .done) fun g => .fail _
  · exact .fail _
  · refine .seq (.ask trivial .done) fun callee => ?_
    refine (Infer.stays_inferrerOf (P := fun _ => True) track trivial).steady.seq fun f => ?_
    refine (Infer.steady_mapM (fun arg => ?_) _).seq fun args => .call .done
    exact .ask trivial fun a => .done _

theorem steady_infer (r : NodeRef) (track : Track) : (r.infer track).Steady :=
  .ask trivial (r.steady_inferAs track)

end NodeRef

/-! ## Engines -/

namespace EngineM

variable {α : Type}

instance : Std.Refl fun e f : Engine => f.types.home = e.types.home :=
  ⟨fun _ => rfl⟩

instance : IsTrans Engine fun e f => f.types.home = e.types.home :=
  ⟨fun _ _ _ h h' => h'.trans h⟩

/-- A computation that leaves a cache of the same home. -/
abbrev KeepsHome (m : EngineM α) : Prop :=
  m.Leaves fun e f => f.types.home = e.types.home

theorem keepsHome_interning {make : Interning α} (steady : make.Steady) :
    KeepsHome (interning make) :=
  fun e => steady.home e.types

theorem keepsHome_cached (key : InferrerKey) {make : ExceptT InferError EngineM Inferrer}
    (h : KeepsHome make.run) : KeepsHome (cached key make).run := by
  intro e
  rw [cached_run]
  cases e.inferrers.find? key with
  | some f => rfl
  | none =>
    have hmake := h e
    rcases hout : make.run.run e with ⟨r, e'⟩
    rw [hout] at hmake
    cases r <;> exact hmake

theorem keepsHome_primitiveInferrer (operator : Primitive) (track : Track) :
    KeepsHome (primitiveInferrer operator track).run := by
  refine keepsHome_cached _ (Leaves.tryBind (Leaves.lift Leaves.get) fun e => ?_)
  split
  · exact Leaves.lift fun _ => rfl
  · refine Leaves.tryBind (Leaves.pure _) fun f => ?_
    exact Leaves.tryBind (Leaves.lift fun _ => rfl) fun _ => Leaves.pure _

theorem keepsHome_graphInferrer (track : Track) (graph : GraphId) (ctx : Context) :
    KeepsHome (graphInferrer track graph ctx) := by
  intro e
  rw [graphInferrer_run]
  cases e.inferrers.find? { track, callee := .graph graph, ctx } <;> rfl

theorem keepsHome_dataProperty (track : Track) (value : Constant) :
    KeepsHome (dataProperty track value).run := by
  cases track with
  | value => exact Leaves.pure _
  | type =>
    refine Leaves.tryBind (Leaves.lift (keepsHome_interning (Interning.steady_typeOfConstant value)))
      fun r => ?_
    cases r <;> exact Leaves.pure _
  | shape => exact Leaves.tryBind (Leaves.pure _) fun s => Leaves.pure _

theorem keepsHome_classInferrer (c : RecordClass) (track : Track) :
    KeepsHome (classInferrer c track).run := by
  refine keepsHome_cached _ (Leaves.tryBind (keepsHome_primitiveInferrer _ _) fun make => ?_)
  refine Leaves.tryBind (Leaves.lift (keepsHome_interning (Interning.steady_declaredType c)))
    fun declared => ?_
  refine Leaves.tryBind (Leaves.lift (keepsHome_interning (Interning.steady_generic _)))
    fun type => ?_
  exact Leaves.lift fun _ => rfl

theorem keepsHome_constantProperty (value : Constant) (ctx : Context) (track : Track) :
    KeepsHome (constantProperty value ctx track).run := by
  cases value with
  | primitive operator =>
    exact Leaves.tryBind (keepsHome_primitiveInferrer _ _) fun _ => Leaves.pure _
  | graph g =>
    exact Leaves.tryBind (Leaves.lift (keepsHome_graphInferrer _ _ _)) fun _ => Leaves.pure _
  | metaGraph m =>
    exact Leaves.tryBind (keepsHome_cached _ (Leaves.lift fun _ => rfl)) fun _ => Leaves.pure _
  | recordType c => exact Leaves.tryBind (keepsHome_classInferrer c track) fun _ => Leaves.pure _
  | _ => exact keepsHome_dataProperty track _

theorem keepsHome_answer {query : Query} (steady : query.Steady) : KeepsHome (answer query) := by
  cases query with
  | intern make => exact keepsHome_interning steady
  | constant value ctx track => exact keepsHome_constantProperty value ctx track
  | graphInferrer track graph ctx => exact keepsHome_graphInferrer track graph ctx
  | generate generator types =>
    intro e
    show (((generate generator types).run).run e).2.types.home = _
    rw [generate_run]
    cases e.generated.find? { generator, types } with
    | some g => rfl
    | none => cases generator.generate e.program types <;> rfl
  | specialize graph ctx =>
    intro e
    show (((specialize graph ctx).run).run e).2.types.home = _
    rw [specialize_run]
    split
    · rfl
    · split <;> rfl
  | _ => exact fun _ => rfl

end EngineM

namespace Engine

/-- An engine that comes after another one, all of its types still of one home: such questions were
asked, and results changed. -/
inductive Becomes (e : Engine) : Engine → Prop where
  | refl : Becomes e e
  | answer {f : Engine} (h : Becomes e f) {query : Query} (steady : query.Steady) :
      Becomes e ((EngineM.answer query).run f).2
  | results {f : Engine} (h : Becomes e f) (memo : Memo) (readers : Readers)
      (diagnostics : Diagnostics) : Becomes e { f with memo, readers, diagnostics }

namespace Becomes

variable {e f g : Engine}

theorem trans (h : e.Becomes f) (h' : f.Becomes g) : e.Becomes g := by
  induction h' with
  | refl => exact h
  | answer _ steady ih => exact ih.answer steady
  | results _ memo readers diagnostics ih => exact ih.results memo readers diagnostics

theorem follows (h : e.Becomes f) : e.Follows f := by
  induction h with
  | refl => exact .refl
  | answer _ steady ih => exact ih.answer _
  | results _ memo readers diagnostics ih => exact ih.results memo readers diagnostics

theorem standard (h : e.Becomes f) (standard : e.Standard) : f.Standard :=
  h.follows.standard standard

theorem callable? (h : e.Becomes f) {i : Inferrer} {c : Callable} (known : e.callable? i = some c) :
    f.callable? i = some c :=
  h.follows.extends.callables known

/-- What such questions keep, and what does not depend on results. -/
theorem invariant (Inv : Engine → Prop)
    (answer : ∀ {f : Engine} {query : Query}, query.Steady → Inv f →
      Inv ((EngineM.answer query).run f).2)
    (results : ∀ {f : Engine} (memo : Memo) (readers : Readers) (diagnostics : Diagnostics),
      Inv f → Inv { f with memo, readers, diagnostics })
    (h : e.Becomes f) (start : Inv e) : Inv f := by
  induction h with
  | refl => exact start
  | answer _ steady ih => exact answer steady ih
  | results _ memo readers diagnostics ih => exact results memo readers diagnostics ih

theorem home (h : e.Becomes f) : f.types.home = e.types.home :=
  h.invariant (fun f => f.types.home = e.types.home)
    (fun steady same => (EngineM.keepsHome_answer steady _).trans same) (fun _ _ _ same => same) rfl

end Becomes

end Engine

end ArrayInference
