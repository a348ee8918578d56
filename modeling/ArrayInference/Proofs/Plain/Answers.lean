import ArrayInference.Proofs.Plain.Reading

/-!
# The same answers

An engine that can be read answers a question as the plain evaluation does, and can be read
afterwards. There is one exception: a context beyond the limit is refused.
-/

namespace ArrayInference

open Engine

namespace EngineM

variable {P : Plain} {e : Engine} {reading : Nat → Inferrer}

theorem reads_dataProperty (h : Reading P e reading) {value : Constant}
    (free : value.isMetaFree = true) (track : Track) :
    Reads P e reading (dataProperty track value).run fun w r =>
      SameOutcome w r (P.data track value) := by
  cases track with
  | value => exact reads_pure h (.ok (.known free))
  | type =>
    refine Reads.tryBind (reads_interning h (Interning.steady_typeOfConstant value)).lift
      (fun r hread _ hr => ?_) (by simp)
    obtain ⟨_, heq, hr⟩ := hr
    cases heq
    rw [Plain.data, ← hr]
    cases r with
    | ok t => exact reads_pure hread (.ok (.type t))
    | error e => exact reads_pure hread (.error _)
  | shape =>
    refine Reads.tryBind (R := fun _ r => r = Shape.ofConstant value)
      (m := ExceptT.mk (pure (Shape.ofConstant value))) (reads_pure h rfl)
      (fun s hread _ hs => ?_) (fun w err hs => ?_)
    · rw [Plain.data, ← hs]
      exact reads_pure hread (.ok (.shape s))
    · rw [Plain.data, ← hs]
      exact .error err

/-- A property that is an inferrer. -/
theorem reads_inferrerProperty {make : ExceptT InferError EngineM Inferrer}
    {made : Except InferError Inferrer}
    (h : Reads P e reading make.run fun w r => SameMade w r made) :
    Reads P e reading (make >>= fun f => pure (Property.inferrer f)).run fun w r =>
      SameOutcome w r (made.map .inferrer) := by
  refine h.tryBind (fun f hread _ hf => ?_) (fun w err hf => ?_)
  · exact reads_pure hread hf.outcome
  · exact hf.outcome

theorem reads_constantProperty (h : Reading P e reading) {value : Constant}
    (free : value.isMetaFree = true) {ctx ctx₀ : Context}
    (same : SameContext (e.world reading) ctx ctx₀) (track : Track) :
    ∃ r₀, P.constant? value ctx₀ track = some r₀
      ∧ Reads P e reading (constantProperty value ctx track).run fun w r => SameOutcome w r r₀ := by
  cases value with
  | primitive operator =>
    exact ⟨_, rfl, reads_inferrerProperty (reads_primitiveInferrer h operator track)⟩
  | graph g =>
    refine ⟨_, rfl, ?_⟩
    refine Reads.tryBind (reads_graphInferrer h track g same).lift (fun f hread _ hf => ?_) (by simp)
    obtain ⟨_, heq, hf⟩ := hf
    cases heq
    exact reads_pure hread (.ok (.inferrer hf))
  | metaGraph m => cases free
  | recordType c => exact ⟨_, rfl, reads_inferrerProperty (reads_classInferrer h c track)⟩
  | _ => exact ⟨_, rfl, reads_dataProperty h free track⟩

end EngineM

namespace Engine

/-- The engine has entered more contexts for a graph than its limit allows. -/
def Exceeded (e : Engine) : Prop :=
  ∃ graph, e.config.maxSpecializations < e.specializationCount graph

theorem describe_eq (e : Engine) (x : Ref) : e.describe x = e.program.describe x := by
  induction x with
  | node r => rfl
  | virtual props => rfl
  | element container ih => rw [describe, Program.describe, ih]

theorem locate_eq (e : Engine) (node : NodeId) (ctx : Context) :
    e.locate node ctx = e.program.locate node ctx := rfl

end Engine

theorem Program.describe_eq (p : Program) {w : World} {x x₀ : Ref} (h : SameRef w x x₀) :
    p.describe x₀ = p.describe x := by
  induction h with
  | node same =>
    cases same
    rfl
  | virtual same => rfl
  | element _ ih => rw [describe, describe, ih]

theorem Program.sameNode_locate (p : Program) {w : World} (node : NodeId) {ctx ctx₀ : Context}
    (h : SameContext w ctx ctx₀) : SameNode w (p.locate node ctx) (p.locate node ctx₀) := by
  refine .mk ?_
  split
  · exact h.filter _
  · exact .empty
  · exact h.filter _
  · exact h.filter _

namespace EngineM

variable {P : Plain} {e : Engine} {reading : Nat → Inferrer}

/-- A context is entered, or refused because there are too many. -/
theorem reads_specialize (h : Reading P e reading) {graph : GraphId} {parent parent₀ : Context}
    {args args₀ : List ArgProps} (outside : SameContext (e.world reading) parent parent₀)
    (same : List.Forall₂ (SameArgs (e.world reading)) args args₀) :
    Reads P e reading (specialize graph (.frame parent graph args)).run fun w r =>
      r = .ok () → SameContext w (.frame parent graph args) (.frame parent₀ graph args₀) := by
  have hentered : ∀ f : Engine, f.program = e.program → f.rules = e.rules → f.types = e.types →
      f.callables = e.callables → f.inferrers = e.inferrers →
      (∀ g ctx, ctx ∈ e.contextsOf g → ctx ∈ f.contextsOf g) →
      (e.world reading).Le (f.world reading) ∧ Reading P f reading := by
    intro f program rules types callables inferrers contexts
    have le : (e.world reading).Le (f.world reading) :=
      ⟨fun hc => by rw [world, callables]; exact hc, fun hc => contexts _ _ hc, fun _ => rfl⟩
    refine ⟨le, program.trans h.program, rules.trans h.rules, types ▸ h.home,
      callables ▸ h.anything, callables ▸ h.scalarShape, ?_, ?_⟩
    · intro i c hc
      obtain ⟨j, hj, read⟩ := h.reads (callables ▸ hc)
      exact ⟨j, hj.mono le, read⟩
    · intro key g hg
      exact (h.kept (inferrers ▸ hg)).mono le
  have hcontexts : ∀ g ctx, ctx ∈ e.contextsOf g →
      ctx ∈ (entered e graph (.frame parent graph args)).contextsOf g := by
    intro g ctx hctx
    rw [contextsOf_entered]
    split
    · exact List.mem_append_left _ hctx
    · exact hctx
  have hself : ∀ f : Engine, f.specializations
      = (entered e graph (.frame parent graph args)).specializations →
      .frame parent graph args ∈ f.contextsOf graph := by
    intro f hf
    have : f.contextsOf graph = (entered e graph (.frame parent graph args)).contextsOf graph := by
      rw [contextsOf, contextsOf, hf]
    rw [this, contextsOf_entered, if_pos rfl]
    simp
  rw [Reads, specialize_run]
  by_cases hknown : .frame parent graph args ∈ e.contextsOf graph
  · rw [if_pos hknown]
    exact ⟨reading, .refl _, h, fun _ => .frame outside same hknown⟩
  · rw [if_neg hknown]
    split
    · obtain ⟨le, hread⟩ := hentered (entered e graph (.frame parent graph args)) rfl rfl rfl rfl rfl
        hcontexts
      exact ⟨reading, le, hread, by rintro ⟨⟩⟩
    · obtain ⟨le, hread⟩ := hentered ((note
        { reason := .specialized (e.program.graph graph).name ((e.contextsOf graph).length + 1)
          subject := none }).run (entered e graph (.frame parent graph args))).2 rfl rfl rfl rfl rfl
        hcontexts
      exact ⟨reading, le, hread, fun _ => .frame (outside.mono le)
        (same.imp fun _ _ ha => ha.mono le) (hself _ rfl)⟩

theorem exceeded_of_refused {graph : GraphId} {ctx : Context} {err : InferError}
    (h : ((specialize graph ctx).run.run e).1 = .error err) :
    ((specialize graph ctx).run.run e).2.Exceeded := by
  rw [specialize_run] at h ⊢
  split at h
  · cases h
  · rename_i hknown
    rw [if_neg hknown]
    split at h
    · rename_i hlimit
      rw [if_pos hlimit]
      refine ⟨graph, ?_⟩
      show e.config.maxSpecializations < ((entered e graph ctx).contextsOf graph).length
      rw [contextsOf_entered, if_pos rfl, List.length_append]
      exact hlimit
    · cases h

end EngineM

/-- A question is answered alike, unless a context is refused. -/
theorem Similar.answer {α : Type} {R : World → α → α → Prop} {P : Plain} {e : Engine}
    {reading : Nat → Inferrer} (free : P.program.MetaFree) (h : Reading P e reading) {query : Query}
    {next : query.Answer → Infer α} {b : Infer α}
    (same : Similar R (e.world reading) (.ask query next) b) :
    (∃ query₀ next₀ a₀, b = .ask query₀ next₀ ∧ P.answer? query₀ = some a₀
      ∧ EngineM.Reads P e reading (EngineM.answer query) fun w a => Similar R w (next a) (next₀ a₀))
        ∨ ((EngineM.answer query).run e).2.Exceeded
          ∧ ∃ err, next ((EngineM.answer query).run e).1 = .fail err := by
  cases same with
  | @describe _ x x₀ next next₀ same rest =>
    refine Or.inl ⟨.describe x₀, next₀, _, rfl, rfl, reading, .refl _, h, ?_⟩
    have htext : e.describe x = P.program.describe x₀ := by
      rw [describe_eq, h.program, Program.describe_eq _ same]
    show Similar R (e.world reading) (next (e.describe x)) (next₀ _)
    rw [htext]
    exact rest _
  | @note _ d d₀ next next₀ rest =>
    exact Or.inl ⟨.note d₀, next₀, (), rfl, rfl, reading, .refl _,
      h.congr rfl rfl rfl rfl rfl rfl, rest⟩
  | @intern _ make next next₀ steady rest =>
    refine Or.inl ⟨.intern make, next₀, _, rfl, rfl, reading, .refl _,
      h.congr rfl rfl (steady.home e.types) rfl rfl rfl, ?_⟩
    show Similar R (e.world reading) (next (make.run e.types).1) (next₀ (make.run P.types).1)
    rw [steady.answer _ _ h.home]
    exact rest _
  | @constant _ value ctx ctx₀ track next next₀ free same rest =>
    obtain ⟨r₀, known, hreads⟩ := EngineM.reads_constantProperty h free same track
    obtain ⟨later, le, hread, hr⟩ := hreads
    exact Or.inl ⟨.constant value ctx₀ track, next₀, r₀, rfl, known, later, le, hread, rest le hr⟩
  | @graphInferrer _ track graph ctx ctx₀ next next₀ same rest =>
    obtain ⟨later, le, hread, hf⟩ := EngineM.reads_graphInferrer h track graph same
    exact Or.inl ⟨.graphInferrer track graph ctx₀, next₀, _, rfl, rfl, later, le, hread, rest le hf⟩
  | @binds _ inner inner₀ bound bound₀ next next₀ same passed rest =>
    obtain ⟨later, le, hread, hf⟩ := EngineM.reads_newInferrer h (.bound same passed)
    exact Or.inl ⟨.bind inner₀ bound₀, next₀, _, rfl, rfl, later, le, hread, rest le hf⟩
  | @scalarShape _ next next₀ rest =>
    obtain ⟨later, le, hread, hf⟩ := EngineM.reads_newInferrer h .scalarShape
    exact Or.inl ⟨.scalarShape, next₀, _, rfl, rfl, later, le, hread, rest le hf⟩
  | @anything _ next next₀ rest =>
    obtain ⟨later, le, hread, hf⟩ := EngineM.reads_newInferrer h .anything
    exact Or.inl ⟨.anything, next₀, _, rfl, rfl, later, le, hread, rest le hf⟩
  | @specialize _ graph parent parent₀ args args₀ next next₀ outside same refused rest =>
    cases hanswer : ((EngineM.specialize graph (.frame parent graph args)).run.run e).1 with
    | error err =>
      exact Or.inr ⟨EngineM.exceeded_of_refused hanswer, err, (congrArg next hanswer).trans (refused err)⟩
    | ok u =>
      obtain ⟨later, le, hread, hctx⟩ := EngineM.reads_specialize h outside same
      refine Or.inl ⟨.specialize graph (.frame parent₀ graph args₀), next₀, .ok (), rfl, rfl, later, le, hread, ?_⟩
      have hnext : next ((EngineM.answer (.specialize graph (.frame parent graph args))).run e).1
          = next (.ok ()) := congrArg next hanswer
      have hrest := rest le (hctx hanswer)
      rw [← hnext] at hrest
      exact hrest
  | @locate _ node ctx ctx₀ next next₀ same rest =>
    refine Or.inl ⟨.locate node ctx₀, next₀, _, rfl, rfl, reading, .refl _, h, ?_⟩
    show Similar R (e.world reading) (next (e.locate node ctx)) (next₀ _)
    rw [locate_eq, h.program]
    exact rest (.refl _) (Program.sameNode_locate _ node same)
  | @node _ id next next₀ rest =>
    refine Or.inl ⟨.node id, next₀, _, rfl, rfl, reading, .refl _, h, ?_⟩
    show Similar R (e.world reading) (next (e.program.node id)) (next₀ _)
    rw [h.program]
    exact rest _ fun c hc => free id c hc
  | @graph _ id next next₀ rest =>
    refine Or.inl ⟨.graph id, next₀, _, rfl, rfl, reading, .refl _, h, ?_⟩
    show Similar R (e.world reading) (next (e.program.graph id)) (next₀ _)
    rw [h.program]
    exact rest _

end ArrayInference
