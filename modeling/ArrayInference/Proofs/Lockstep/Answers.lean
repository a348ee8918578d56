import ArrayInference.Proofs.Lockstep.Engines

/-!
# Answers in step

Engines in step answer questions about what belongs together with what belongs together, and they
are in step afterwards.
-/

namespace ArrayInference

namespace Overlap

variable (x : Overlap)

/-- Both engines do the same, with equal results, and stay in step. -/
def Same {α : Type} (e : Engine) (m : EngineM α) : Prop :=
  ∀ e', x.Engines e e' → x.Engines (m.run e).2 (m.run e').2 ∧ (m.run e').1 = (m.run e).1

variable {x} {α β ε : Type} {e e' : Engine} {p : Program}

/-! ## Single changes -/

namespace Engines

theorem note (h : x.Engines e e') (d d' : Diagnostics) :
    x.Engines { e with diagnostics := d } { e' with diagnostics := d' } :=
  { h with }

theorem interned (h : x.Engines e e') (types : TypeCache) :
    x.Engines { e with types } { e' with types } :=
  { h with types := rfl }

/-- Each engine gets a new inferrer. -/
theorem push (h : x.Engines e e') {c c' : Callable} (same : x.SameCallable e.program c c') :
    x.Engines { e with callables := e.callables.push c }
      { e' with callables := e'.callables.push c' } :=
  { h with
    count := by
      show (e'.callables.push c').size = (e.callables.push c).size
      rw [Array.size_push, Array.size_push, h.count]
    callables := by
      intro i d d' found found'
      replace found : (e.callables.push c)[i]? = some d := found
      replace found' : (e'.callables.push c')[i]? = some d' := found'
      rw [Array.getElem?_push] at found found'
      rw [h.count] at found'
      split at found
      · rename_i last
        rw [if_pos last] at found'
        cases found
        cases found'
        exact same
      · rename_i other
        rw [if_neg other] at found'
        exact h.callables found found' }

theorem keep (h : x.Engines e e') {k : InferrerKey} (hk : x.KeyOf k) {f f' : Inferrer}
    (same : x.SameInferrer k f f') :
    x.Engines { e with inferrers := e.inferrers.insert k f }
      { e' with inferrers := e'.inferrers.insert (x.key k) f' } :=
  { h with inferrers := h.inferrers.insert (fun _ hl => hk.key_injective hl) same }

end Engines

/-! ## What is the same in both engines -/

theorem same_pure (a : α) : x.Same e (pure a : EngineM α) :=
  fun _ h => ⟨h, rfl⟩

theorem Same.bind {m : EngineM α} {k : α → EngineM β} (h : x.Same e m)
    (h' : x.Same (m.run e).2 (k (m.run e).1)) : x.Same e (m >>= k) := by
  intro e' engines
  obtain ⟨engines, same⟩ := h e' engines
  have hk := h' _ engines
  rw [← same] at hk
  show x.Engines ((k (m.run e).1).run (m.run e).2).2 ((k (m.run e').1).run (m.run e').2).2
    ∧ ((k (m.run e').1).run (m.run e').2).1 = ((k (m.run e).1).run (m.run e).2).1
  rwa [← same]

theorem Same.tryBind {m : ExceptT ε EngineM α} {k : α → ExceptT ε EngineM β} (h : x.Same e m.run)
    (h' : ∀ a, (m.run.run e).1 = .ok a → x.Same (m.run.run e).2 (k a).run) :
    x.Same e (m >>= k).run := by
  rw [ExceptT.run_bind]
  refine h.bind ?_
  split
  · rename_i a ha
    exact h' a ha
  · exact same_pure _

theorem Same.lift {m : EngineM α} (h : x.Same e m) :
    x.Same e (ExceptT.lift m : ExceptT ε EngineM α).run := by
  intro e' engines
  obtain ⟨engines, same⟩ := h e' engines
  rw [ExceptT.run_lift, StateT.run_map, StateT.run_map]
  exact ⟨engines, congrArg Except.ok same⟩

theorem same_interning {γ : Type} (make : Interning γ) : x.Same e (EngineM.interning make) := by
  intro e' h
  show x.Engines { e with types := (make.run e.types).2 } { e' with types := (make.run e'.types).2 }
    ∧ (make.run e'.types).1 = (make.run e.types).1
  rw [h.types]
  exact ⟨h.interned _, rfl⟩

theorem same_note (d : Diagnostic) : x.Same e (EngineM.note d) :=
  fun _ h => ⟨h.note _ _, rfl⟩

/-- What is done with an engine that was looked at must not depend on what may be different. -/
theorem Same.get {k : Engine → ExceptT InferError EngineM β} (h : x.Same e (k e).run)
    (same : ∀ e', x.Engines e e' → k e' = k e) :
    x.Same e ((get : ExceptT InferError EngineM Engine) >>= k).run := by
  intro e' engines
  show x.Engines ((k e).run.run e).2 ((k e').run.run e').2
    ∧ ((k e').run.run e').1 = ((k e).run.run e).1
  rw [same e' engines]
  exact h e' engines

theorem newInferrer_pairs (h : x.Engines e e') {c c' : Callable}
    (same : x.SameCallable e.program c c')
    (form : c'.form = c.form) :
    x.Engines ((EngineM.newInferrer c).run e).2 ((EngineM.newInferrer c').run e').2
      ∧ ((EngineM.newInferrer c').run e').1 = ((EngineM.newInferrer c).run e).1 := by
  refine ⟨h.push same, ?_⟩
  show ({ id := e'.callables.size, form := c'.form } : Inferrer) =
    { id := e.callables.size, form := c.form }
  rw [h.count, form]

theorem same_newInferrer {c : Callable} (same : x.SameCallable e.program c c) :
    x.Same e (EngineM.newInferrer c) :=
  fun _ h => newInferrer_pairs h same rfl

theorem same_cached {track : Track} {value : Constant} (other : ∀ g, value ≠ .graph g)
    {make : ExceptT InferError EngineM Inferrer} (h : x.Same e make.run) :
    x.Same e (EngineM.cached { track, callee := value, ctx := .empty } make).run := by
  intro e' engines
  have hkey : x.KeyOf { track, callee := value, ctx := .empty } := .constant other
  have kept := engines.inferrers _ hkey
  rw [key_constant other] at kept
  rw [EngineM.cached_run, EngineM.cached_run]
  cases found : e.inferrers.find? { track, callee := value, ctx := .empty } with
  | some f =>
    rw [found] at kept
    obtain ⟨f', found', same⟩ := exists_of_rel_some kept
    rw [found']
    exact ⟨engines, congrArg Except.ok (same.2 fun g hg => absurd hg (other g))⟩
  | none =>
    rw [found] at kept
    rw [eq_none_of_rel kept]
    obtain ⟨engines, same⟩ := h e' engines
    rcases hout : make.run.run e with ⟨r, e₁⟩
    rcases hout' : make.run.run e' with ⟨r', e₁'⟩
    rw [hout, hout'] at engines same
    obtain rfl : r' = r := same
    cases r' with
    | error err => exact ⟨engines, rfl⟩
    | ok f =>
      have kept : x.SameInferrer ⟨track, value, .empty⟩ f f := ⟨rfl, fun _ => rfl⟩
      have keep := engines.keep hkey kept
      rw [key_constant other] at keep
      exact ⟨keep, rfl⟩

theorem same_primitiveInferrer (operator : Primitive) (track : Track) :
    x.Same e (EngineM.primitiveInferrer operator track).run := by
  refine same_cached (by simp) fun e' h => Same.get ?_ (fun e' h => ?_) e' h
  · split
    · rename_i arity rule found
      rw [h.rules] at found
      exact (same_newInferrer (.primitive (Registries.uniform_builtin track _ _ _ found))).lift
    · exact Same.tryBind (same_pure _) fun _ _ => (same_note _).lift.tryBind fun _ _ => same_pure _
  · rw [h.rules, h.rules']

theorem same_dataProperty (track : Track) (value : Constant) :
    x.Same e (EngineM.dataProperty track value).run := by
  cases track with
  | value => exact same_pure _
  | type =>
    refine (same_interning _).lift.tryBind fun r _ => ?_
    cases r with
    | ok t => exact same_pure _
    | error e => exact same_pure _
  | shape => exact Same.tryBind (same_pure _) fun s _ => same_pure _

theorem same_classInferrer {c : RecordClass} (own : (Constant.recordType c).Within x.shows)
    (track : Track) : x.Same e (EngineM.classInferrer c track).run := by
  refine same_cached (by simp) ((same_primitiveInferrer _ _).tryBind fun make _ => ?_)
  refine (same_interning _).lift.tryBind fun declared hdeclared => ?_
  refine (same_interning _).lift.tryBind fun type htype => ?_
  have within : declared.Within x.shows := by
    cases hdeclared
    exact Ty.within_record.mpr (Constant.within_recordType.mp own)
  have data : type.Within x.shows := by
    cases htype
    exact forall_mem_of_eq_nil rfl
  refine (same_newInferrer (.bound (.cons (.virtual ⟨?_, ?_, ?_⟩) .nil))).lift
  · rintro q ⟨⟩
    exact within
  · rintro q ⟨⟩
    exact data
  · rintro q ⟨⟩

/-! ## Inferrers of graphs -/

theorem Frames.keyOf {g : GraphId} {c : Context} (h : x.Frames p g c) (track : Track) :
    x.KeyOf ⟨track, .graph g, c⟩ := by
  cases h with
  | shown own within => exact .shown own within
  | added new there => exact .added new

namespace Engines

theorem graphInferrer (h : x.Engines e e') {g : GraphId} {c : Context}
    (frames : x.Frames e.program g c) (track : Track) :
    x.Engines ((EngineM.graphInferrer track g c).run e).2
        ((EngineM.graphInferrer track (x.graph g) (x.ctx c)).run e').2
      ∧ x.SameInferrer ⟨track, .graph g, c⟩ ((EngineM.graphInferrer track g c).run e).1
        ((EngineM.graphInferrer track (x.graph g) (x.ctx c)).run e').1 := by
  have kept := h.inferrers _ (frames.keyOf track)
  rw [key_graph] at kept
  rw [EngineM.graphInferrer_run, EngineM.graphInferrer_run]
  cases found : e.inferrers.find? ⟨track, .graph g, c⟩ with
  | some f =>
    rw [found] at kept
    obtain ⟨f', found', same⟩ := exists_of_rel_some kept
    rw [found']
    exact ⟨h, same⟩
  | none =>
    rw [found] at kept
    rw [eq_none_of_rel kept]
    have same : x.SameInferrer ⟨track, .graph g, c⟩ ⟨e.callables.size, .graph track g⟩
        ⟨e'.callables.size, .graph track (x.graph g)⟩ := by
      refine ⟨h.count, fun own => ?_⟩
      rw [h.count, graph_eq_of_shows (own g rfl)]
    exact ⟨(h.push (.graph frames)).keep (frames.keyOf track) same, same⟩

end Engines

theorem same_graphInferrer (track : Track) {g : GraphId} {c : Context} (own : x.shows g)
    (within : c.Within x.shows) : x.Same e (EngineM.graphInferrer track g c) := by
  intro e' h
  obtain ⟨engines, same⟩ := h.graphInferrer (.shown own within) track
  rw [graph_eq_of_shows own, ctx_eq_of_within within] at engines same
  refine ⟨engines, same.2 fun k hk => ?_⟩
  cases hk
  exact own

/-! ## Properties of constants -/

theorem same_constantProperty {value : Constant} {c : Context} (own : value.Within x.shows)
    (within : c.Within x.shows) (track : Track) :
    x.Same e (EngineM.constantProperty value c track).run := by
  cases value with
  | primitive operator => exact (same_primitiveInferrer _ _).tryBind fun _ _ => same_pure _
  | graph g =>
    exact (same_graphInferrer track (Constant.within_graph.mp own) within).lift.tryBind
      fun _ _ => same_pure _
  | metaGraph m =>
    refine (same_cached (by simp) ?_).tryBind fun _ _ => same_pure _
    exact (same_newInferrer (.metaGraph own)).lift
  | recordType cls => exact (same_classInferrer own track).tryBind fun _ _ => same_pure _
  | _ => exact same_dataProperty track _

end Overlap

namespace EngineM

variable {V : GraphId → Prop} {value : Constant} {e : Engine} {v : Property}

theorem within_dataProperty (own : value.Within V) {track : Track}
    (h : ((EngineM.dataProperty track value).run.run e).1 = .ok v) : v.Within V := by
  cases track with
  | value =>
    cases h
    exact own
  | type =>
    rw [dataProperty, ExceptT.run_bind, ExceptT.run_lift] at h
    rcases hout : (Interning.typeOfConstant value).run.run e.types with ⟨r, types⟩
    have hr : (interning (Interning.typeOfConstant value).run).run e = (r, { e with types }) := by
      show (((Interning.typeOfConstant value).run.run e.types).1,
        { e with types := ((Interning.typeOfConstant value).run.run e.types).2 }) = _
      rw [hout]
    simp only [StateT.run_bind, StateT.run_map, hr] at h
    cases r with
    | ok t =>
      cases h
      exact Constant.HasType.within value t ⟨e.types, congrArg Prod.fst hout⟩ own
    | error err => cases h
  | shape =>
    rw [dataProperty, ExceptT.run_bind] at h
    cases hs : Shape.ofConstant value with
    | ok s =>
      rw [hs] at h
      cases h
      exact forall_mem_of_eq_nil rfl
    | error err =>
      rw [hs] at h
      cases h

theorem within_of_inferrer {make : ExceptT InferError EngineM Inferrer}
    (h : ((make >>= fun f => return .inferrer f : ExceptT InferError EngineM Property).run.run e).1
      = .ok v) : v.Within V := by
  rw [ExceptT.run_bind, StateT.run_bind] at h
  rcases hout : make.run.run e with ⟨r, e'⟩
  rw [hout] at h
  cases r with
  | ok f =>
    cases h
    exact within_inferrer f
  | error err => cases h

/-- The property of a constant mentions no graph that the constant does not mention. -/
theorem within_constantProperty (own : value.Within V) {c : Context} {track : Track}
    (h : ((constantProperty value c track).run.run e).1 = .ok v) : v.Within V := by
  cases value with
  | primitive operator => exact within_of_inferrer h
  | graph g => exact @within_of_inferrer V e v (liftM (graphInferrer track g c)) h
  | metaGraph m => exact within_of_inferrer h
  | recordType cls => exact within_of_inferrer h
  | _ => exact within_dataProperty own h

end EngineM

namespace Overlap

variable {x : Overlap} {e e' : Engine} {p : Program}

/-! ## Graphs that are made, and contexts that are entered -/

/-- Answers that may be refused. -/
inductive SameAnswer {α β : Type} (R : α → β → Prop) :
    Except InferError α → Except InferError β → Prop where
  | ok {a : α} {b : β} (same : R a b) : SameAnswer R (.ok a) (.ok b)
  | error (err : InferError) : SameAnswer R (.error err) (.error err)

/-- Graphs that occur have different numbers in the other program. -/
theorem graph_inj {g k : GraphId} (h : x.shows g ∨ x.graphs ≤ g.index)
    (h' : x.shows k ∨ x.graphs ≤ k.index) (same : x.graph g = x.graph k) : g = k := by
  rcases h with own | new <;> rcases h' with own' | new'
  · rwa [graph_eq_of_shows own, graph_eq_of_shows own'] at same
  · exact absurd same (graph_ne_of_shows own new')
  · exact absurd same.symm (graph_ne_of_shows own' new)
  · exact graph_injective new new' same

namespace Engines

theorem generate (h : x.Engines e e') {m : MetaGraph} (own : ∀ g ∈ m.mentions, x.shows g)
    {types : List Ty} (owns : ∀ t ∈ types, t.Within x.shows) :
    x.Engines ((EngineM.generate m types).run.run e).2 ((EngineM.generate m types).run.run e').2
      ∧ SameAnswer
        (fun g g' => x.Has ((EngineM.generate m types).run.run e).2.program g ∧ g' = x.graph g)
        ((EngineM.generate m types).run.run e).1 ((EngineM.generate m types).run.run e').1 := by
  have kept := h.generated ⟨m, types⟩ trivial
  rw [EngineM.generate_run, EngineM.generate_run]
  cases found : e.generated.find? ⟨m, types⟩ with
  | some g =>
    rw [found] at kept
    obtain ⟨g', found', has, rfl⟩ := exists_of_rel_some kept
    replace found' : e'.generated.find? ⟨m, types⟩ = some (x.graph g) := found'
    rw [found']
    exact ⟨h, .ok ⟨has, rfl⟩⟩
  | none =>
    rw [found] at kept
    rw [show e'.generated.find? ⟨m, types⟩ = none from eq_none_of_rel kept]
    have made := h.programs.generate own owns
    generalize hgen : m.generate e.program types = out at made
    generalize hgen' : m.generate e'.program types = out' at made
    cases made with
    | refused err => exact ⟨h, .error _⟩
    | @made g q q' programs has =>
      have grown := Program.extends_generate hgen
      refine ⟨{ h with
        programs
        callables := fun found found' => (h.callables found found').mono grown
        generated := ?_ }, .ok ⟨has, rfl⟩⟩
      have linked : e.generated.Linked (fun _ => True) id
          (fun _ g g' => x.Has q g ∧ g' = x.graph g) e'.generated :=
        h.generated.mono fun _ _ _ same => ⟨same.1.mono (size_le_of_extends grown), same.2⟩
      exact linked.insert (fun _ _ same => same) ⟨has, rfl⟩

theorem graph_name (h : x.Engines e e') {g : GraphId} (has : x.Has e.program g) :
    (e'.program.graph (x.graph g)).name = (e.program.graph g).name := by
  rcases has with own | ⟨new, there⟩
  · rw [graph_eq_of_shows own, (h.programs.shown own).1]
  · exact (h.programs.drawn new there).name

/-- A context is entered for graphs that belong together. -/
theorem enter (h : x.Engines e e') {g : GraphId} {c : Context}
    (known : x.shows g ∨ x.graphs ≤ g.index)
    (enters : x.Enters g c) :
    x.Engines (EngineM.entered e g c) (EngineM.entered e' (x.graph g) (x.ctx c)) := by
  refine { h with contexts := fun k hk => ?_ }
  obtain ⟨same, all⟩ := h.contexts k hk
  rw [EngineM.contextsOf_entered, EngineM.contextsOf_entered, same]
  by_cases heq : g = k
  · subst heq
    rw [if_pos rfl, if_pos rfl, List.map_append, List.map_singleton]
    refine ⟨rfl, fun d hd => ?_⟩
    rcases List.mem_append.mp hd with hd | hd
    · exact all d hd
    · exact List.mem_singleton.mp hd ▸ enters
  · rw [if_neg heq, if_neg fun hg => heq (graph_inj known hk hg)]
    exact ⟨rfl, all⟩

theorem specialize (h : x.Engines e e') {g : GraphId} {c : Context} (has : x.Has e.program g)
    (enters : x.Enters g c) :
    x.Engines ((EngineM.specialize g c).run.run e).2
        ((EngineM.specialize (x.graph g) (x.ctx c)).run.run e').2
      ∧ ((EngineM.specialize (x.graph g) (x.ctx c)).run.run e').1
        = ((EngineM.specialize g c).run.run e).1 := by
  have known : x.shows g ∨ x.graphs ≤ g.index := has.imp_right And.left
  obtain ⟨same, all⟩ := h.contexts g known
  have hmem : x.ctx c ∈ (e.contextsOf g).map x.ctx ↔ c ∈ e.contextsOf g := by
    refine ⟨fun hc => ?_, List.mem_map_of_mem⟩
    obtain ⟨d, hd, heq⟩ := List.mem_map.mp hc
    exact enters.ctx_injective (all d hd) heq.symm ▸ hd
  rw [EngineM.specialize_run, EngineM.specialize_run, same, h.config, h.graph_name has,
    List.length_map]
  by_cases hc : c ∈ e.contextsOf g
  · rw [if_pos hc, if_pos (hmem.mpr hc)]
    exact ⟨h, rfl⟩
  · rw [if_neg hc, if_neg (mt hmem.mp hc)]
    split
    · exact ⟨h.enter known enters, rfl⟩
    · exact ⟨(h.enter known enters).note _ _, rfl⟩

/-- A node is found in the same part of a context. -/
theorem locate (h : x.Engines e e') {n : NodeId} {c : Context} (sees : x.Sees e.program n c) :
    x.Knows e.program (e.locate n c) ∧ e'.locate (x.node n) (x.ctx c) = x.ref (e.locate n c) := by
  rw [Engine.locate, Engine.locate, ref]
  cases sees with
  | shared own within =>
    rw [node_eq_of_shares own, ctx_eq_of_within within]
    have shared := h.programs.shared own
    have both : ∀ {visible : Context}, visible.Within x.shows →
        x.Knows e.program ⟨n, visible⟩ ∧ (⟨n, visible⟩ : NodeRef) = ⟨n, x.ctx visible⟩ :=
      fun hv => ⟨.shared own hv, by rw [ctx_eq_of_within hv]⟩
    generalize hn : e.program.node n = k at shared
    generalize hn' : e'.program.node n = k' at shared
    cases shared with
    | @constant value owner name mentioned =>
      cases value with
      | graph g =>
        dsimp only
        rw [(h.programs.shown (Constant.within_graph.mp mentioned)).1]
        exact both (within.filter _)
      | _ => exact both trivial
    | parameter => exact both (within.filter _)
    | apply => exact both (within.filter _)
    | conditional => exact both (within.filter _)
  | @framed g args own new there count within =>
    have added := h.programs.added own.new own.there
    have seen := own.seen
    have frame : ∀ {owner : Option GraphId}, (e.program.node n).owner = some g →
        owner = some g → x.Knows e.program ⟨n, (Context.frame .empty g args).filter owner⟩
          ∧ (⟨x.node n, (x.ctx (.frame .empty g args)).filter (owner.map x.graph)⟩ : NodeRef)
            = ⟨x.node n, x.ctx ((Context.frame .empty g args).filter owner)⟩ := by
      rintro owner howner rfl
      rw [Option.map_some, ctx, ctx, Context.filter, Context.filter, Context.dropTo, if_pos rfl,
        Context.dropTo, if_pos rfl]
      exact ⟨.framed own.new own.there howner new there count within, rfl⟩
    generalize hn : e.program.node n = k at added seen frame
    generalize hn' : e'.program.node (x.node n) = k' at added
    cases added with
    | @constant value name mentioned data =>
      have kind : (e.program.node n).kind = .constant value := by rw [hn]
      cases value with
      | graph g => exact absurd rfl (data g)
      | _ => exact ⟨.constant own.new own.there kind, rfl⟩
    | @parameter k index name new' there' bound =>
      rcases seen with howner | ⟨value, hkind⟩
      · exact frame howner howner
      · cases hkind
    | @apply k inputs name new' there' own' =>
      rcases seen with howner | ⟨value, hkind⟩
      · exact frame howner howner
      · cases hkind

end Engines

/-! ## Questions -/

variable (x)

/-- A graph in the two programs. -/
structure SameGraph (p : Program) (g : GraphId) (graph graph' : Graph) : Prop where
  name : graph'.name = graph.name
  parameters : graph'.parameters.length = graph.parameters.length
  output : Option.Rel (fun o o' => (x.shows g → x.shares o) ∧ (x.graphs ≤ g.index → x.Local p g o)
    ∧ o' = x.node o) graph.output graph'.output

/-- Questions about what belongs together, and how their answers are related. -/
inductive Asks (p : Program) :
    (q q' : Query) → (Engine → q.Answer → q'.Answer → Prop) → Prop where
  | pairs {q q' : Query} {R : q.Answer → q'.Answer → Prop}
      (same : q.Pairs (fun r r' => x.Knows p r ∧ r' = x.ref r) x.shows q' R) :
      Asks p q q' fun _ => R
  | constant {value : Constant} {c : Context} (own : value.Within x.shows)
      (within : c.Within x.shows) (track : Track) :
      Asks p (.constant value c track) (.constant value c track)
        fun _ (r r' : Outcome) => r' = r ∧ ∀ v, r = .ok v → v.Within x.shows
  | graphInferrer (track : Track) {g : GraphId} (frames : x.Frames p g .empty) :
      Asks p (.graphInferrer track g .empty) (.graphInferrer track (x.graph g) .empty)
        fun e (f f' : Inferrer) => f'.id = f.id ∧ e.callable? f = some (.graph track g .empty)
  | generate {m : MetaGraph} (own : ∀ g ∈ m.mentions, x.shows g) {types : List Ty}
      (owns : ∀ t ∈ types, t.Within x.shows) :
      Asks p (.generate m types) (.generate m types)
        fun e => SameAnswer fun g g' => x.Has e.program g ∧ g' = x.graph g
  | specialize {g : GraphId} {c : Context} (has : x.Has p g) (enters : x.Enters g c) :
      Asks p (.specialize g c) (.specialize (x.graph g) (x.ctx c)) fun _ r r' => r' = r
  | locate {n : NodeId} {c : Context} (sees : x.Sees p n c) :
      Asks p (.locate n c) (.locate (x.node n) (x.ctx c))
        fun e (r r' : NodeRef) => (x.Knows e.program r ∧ r' = x.ref r) ∧ r.node = n
  /-- The branch that is not taken is looked up as well, and may be another node. -/
  | elsewhere (n n' : NodeId) (c c' : Context) :
      Asks p (.locate n c) (.locate n' c') fun _ _ _ => True
  | sharedNode {n : NodeId} (own : x.shares n) :
      Asks p (.node n) (.node n) fun _ (k k' : Node) => x.Shared k k'
  | addedNode {n : NodeId} (new : x.nodes ≤ n.index) (there : n.index < p.nodes.size) :
      Asks p (.node n) (.node (x.node n)) fun e (k k' : Node) =>
        k = p.node n ∧ x.Added e.program k k'
  | graph {g : GraphId} (has : x.Has p g) :
      Asks p (.graph g) (.graph (x.graph g))
        fun e (k k' : Graph) => k = e.program.graph g ∧ x.SameGraph e.program g k k'

variable {x}

/-- A reference behind which there is no node has the same description everywhere. -/
theorem describe_eq (e e' : Engine) {y y' : Ref} (same : x.Pairs p y y')
    (virtual : y.node? = none) :
    e'.describe y' = e.describe y := by
  induction same with
  | node same => cases virtual
  | virtual own => rfl
  | element same ih => rw [Engine.describe, Engine.describe, ih virtual]

theorem Programs.sameGraph {p' : Program} (h : x.Programs p p') {g : GraphId} (has : x.Has p g) :
    x.SameGraph p g (p.graph g) (p'.graph (x.graph g)) := by
  rcases has with own | ⟨new, there⟩
  · obtain ⟨same, output⟩ := h.shown own
    rw [graph_eq_of_shows own, same]
    refine ⟨rfl, rfl, ?_⟩
    cases hout : (p.graph g).output with
    | none => exact .none
    | some o =>
      have shared := output o hout
      exact .some ⟨fun _ => shared, fun new => absurd (x.shows_lt own).1 (Nat.not_lt_of_le new),
        (node_eq_of_shares shared).symm⟩
  · have drawn := h.drawn new there
    exact ⟨drawn.name, drawn.parameters, rel_imp drawn.output fun o o' same =>
      ⟨fun own => absurd (x.shows_lt own).1 (Nat.not_lt_of_le new), fun _ => same.1, same.2⟩⟩

theorem Engines.pairs (h : x.Engines e e') {q q' : Query} {R : q.Answer → q'.Answer → Prop}
    (same : q.Pairs (fun r r' => x.Knows e.program r ∧ r' = x.ref r) x.shows q' R) :
    x.Engines ((EngineM.answer q).run e).2 ((EngineM.answer q').run e').2
      ∧ R ((EngineM.answer q).run e).1 ((EngineM.answer q').run e').1 := by
  have outermost : Context.empty.Within x.shows := trivial
  cases same with
  | describe same => exact ⟨h, describe_eq e e' same⟩
  | note d d' => exact ⟨h.note _ _, trivial⟩
  | intern own =>
    obtain ⟨engines, same⟩ := same_interning _ e' h
    exact ⟨engines, same, own _⟩
  | constant own track =>
    obtain ⟨engines, same⟩ := same_constantProperty own outermost track e' h
    exact ⟨engines, same, fun v hv => EngineM.within_constantProperty own hv⟩
  | graphInferrer track own => exact same_graphInferrer track own outermost e' h
  | bind f same =>
    exact newInferrer_pairs h (.bound same) (by rw [Callable.form, Callable.form, same.length_eq])
  | scalarShape => exact same_newInferrer .scalarShape e' h
  | anything => exact same_newInferrer .anything e' h

/-- Engines in step give answers that belong together, and are in step afterwards. -/
theorem Engines.answer (h : x.Engines e e') (apt : e.Apt) {q q' : Query}
    {R : Engine → q.Answer → q'.Answer → Prop} (asks : x.Asks e.program q q' R) :
    x.Engines ((EngineM.answer q).run e).2 ((EngineM.answer q').run e').2
      ∧ R ((EngineM.answer q).run e).2 ((EngineM.answer q).run e).1
        ((EngineM.answer q').run e').1 := by
  cases asks with
  | pairs same => exact h.pairs same
  | constant own within track =>
    obtain ⟨engines, same⟩ := same_constantProperty own within track e' h
    exact ⟨engines, same, fun v hv => EngineM.within_constantProperty own hv⟩
  | graphInferrer track frames =>
    obtain ⟨engines, same⟩ := h.graphInferrer frames track
    exact ⟨engines, same.1, Engine.callable?_graphInferrer apt track _ _⟩
  | generate own owns => exact h.generate own owns
  | specialize has enters => exact h.specialize has enters
  | locate sees =>
    obtain ⟨knows, same⟩ := h.locate sees
    exact ⟨h, ⟨knows, same⟩, rfl⟩
  | elsewhere n n' c c' => exact ⟨h, trivial⟩
  | sharedNode own => exact ⟨h, h.programs.shared own⟩
  | addedNode new there => exact ⟨h, rfl, h.programs.added new there⟩
  | graph has => exact ⟨h, rfl, h.programs.sameGraph has⟩

end Overlap

end ArrayInference
