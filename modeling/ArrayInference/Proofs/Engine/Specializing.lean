import Mathlib.Data.Finset.Card
import ArrayInference.Proofs.Engine.Inferrers

/-!
# The limit on specializations

A graph may be inferred in a limited number of contexts. Every call of a graph visits its context:
one that was visited before is accepted, and a new one is accepted below the limit. A context is
entered before its number is compared with the limit, so a refused one counts as well, and it is
accepted when it is visited again.
-/

namespace ArrayInference

/-- A context was visited for a graph, and accepted or refused. -/
structure Visit where
  graph : GraphId
  ctx : Context
  result : Except InferError Unit

/-- The contexts that were visited for a graph. -/
def visited (log : List Visit) (graph : GraphId) : Finset Context :=
  ((log.filter fun v => v.graph = graph).map Visit.ctx).toFinset

/-- The contexts that were accepted for a graph, sooner or later. -/
def accepted (log : List Visit) (graph : GraphId) : Finset Context :=
  visited (log.filter fun v => v.result.isOk) graph

theorem mem_visited {log : List Visit} {graph : GraphId} {ctx : Context} :
    ctx ∈ visited log graph ↔ ∃ v ∈ log, v.graph = graph ∧ v.ctx = ctx := by
  simp [visited, and_assoc]

theorem visited_append_singleton (log : List Visit) (v : Visit) (graph : GraphId) :
    visited (log ++ [v]) graph
      = if v.graph = graph then insert v.ctx (visited log graph) else visited log graph := by
  rw [visited, List.filter_append, List.filter_singleton, List.map_append, List.toFinset_append]
  by_cases h : v.graph = graph
  · rw [decide_eq_true h, if_pos h, Finset.insert_eq, Finset.union_comm]
    rfl
  · rw [decide_eq_false h, if_neg h]
    exact Finset.union_empty _

theorem accepted_append_singleton (log : List Visit) (v : Visit) (graph : GraphId) :
    accepted (log ++ [v]) graph
      = if v.graph = graph ∧ v.result.isOk then insert v.ctx (accepted log graph)
        else accepted log graph := by
  rw [accepted, List.filter_append, List.filter_singleton]
  cases isOk : v.result.isOk with
  | true => simp [visited_append_singleton, accepted]
  | false => simp [accepted]

theorem accepted_subset (log : List Visit) (graph : GraphId) :
    accepted log graph ⊆ visited log graph := by
  intro ctx h
  obtain ⟨v, hv, same⟩ := mem_visited.mp h
  exact mem_visited.mpr ⟨v, (List.mem_filter.mp hv).1, same⟩

/-! ## The rule of the limit -/

/-- Each visit was decided by the contexts visited before it. -/
def Ruled (limit : Nat) (log : List Visit) : Prop :=
  ∀ past v since, log = past ++ v :: since →
    (v.result = .ok () ↔
      v.ctx ∈ visited past v.graph ∨ (visited past v.graph).card < limit)

/-- No context was visited again for a graph after it had been refused. -/
def Obeyed (log : List Visit) (graph : GraphId) : Prop :=
  ∀ past v between w since, log = past ++ v :: between ++ w :: since →
    v.graph = graph → w.graph = graph → w.ctx = v.ctx → v.result = .ok ()

theorem Ruled.prefix {limit : Nat} {log later : List Visit} (h : Ruled limit (log ++ later)) :
    Ruled limit log :=
  fun past v since heq => h past v (since ++ later) (by simp [heq])

theorem Ruled.snoc {limit : Nat} {log : List Visit} {v : Visit} (h : Ruled limit log)
    (decided : v.result = .ok () ↔
      v.ctx ∈ visited log v.graph ∨ (visited log v.graph).card < limit) :
    Ruled limit (log ++ [v]) := by
  intro past w since heq
  rcases List.eq_nil_or_concat since with rfl | ⟨before, x, rfl⟩
  · obtain ⟨rfl, hw⟩ := List.append_inj' heq rfl
    cases hw
    exact decided
  · rw [List.concat_eq_append, ← List.cons_append, ← List.append_assoc] at heq
    obtain ⟨hlog, -⟩ := List.append_inj' heq rfl
    exact h past w before hlog

/-- A visit to a context that was visited before is accepted. -/
theorem Ruled.again {limit : Nat} {log past between since : List Visit} {v w : Visit}
    (h : Ruled limit log) (heq : log = past ++ v :: between ++ w :: since)
    (graph : w.graph = v.graph) (ctx : w.ctx = v.ctx) : w.result = .ok () := by
  refine (h (past ++ v :: between) w since heq).mpr (.inl (mem_visited.mpr ⟨v, ?_, ?_⟩))
  · simp
  · exact ⟨graph.symm, ctx.symm⟩

/-- The limit holds if no context is visited again after it was refused. -/
theorem Ruled.card_accepted_le {limit : Nat} {log : List Visit} {graph : GraphId}
    (h : Ruled limit log) (obeyed : Obeyed log graph) :
    (accepted log graph).card ≤ limit := by
  induction log using List.reverseRecOn with
  | nil => exact Nat.zero_le _
  | append_singleton log v ih =>
    have ih := ih h.prefix fun past w between x since heq =>
      obeyed past w between x (since ++ [v]) (by simp [heq])
    rw [accepted_append_singleton]
    split
    · rename_i new
      obtain ⟨rfl, isOk⟩ := new
      have ok : v.result = .ok () := by
        cases hr : v.result with
        | ok u => rfl
        | error e =>
          rw [hr] at isOk
          cases isOk
      rcases (h log v [] rfl).mp ok with seen | room
      · -- The first visit was accepted as well, so the context is not a new one.
        obtain ⟨w, hw, hgraph, hctx⟩ := mem_visited.mp seen
        obtain ⟨past, between, rfl⟩ := List.append_of_mem hw
        have first := obeyed past w between v [] (by simp) hgraph rfl hctx.symm
        have known : v.ctx ∈ accepted (past ++ w :: between) v.graph :=
          mem_visited.mpr ⟨w, List.mem_filter.mpr ⟨hw, by rw [first]; rfl⟩, hgraph, hctx⟩
        rw [Finset.insert_eq_of_mem known]
        exact ih
      · calc (insert v.ctx (accepted log v.graph)).card
            ≤ (accepted log v.graph).card + 1 := Finset.card_insert_le _ _
          _ ≤ (visited log v.graph).card + 1 :=
            Nat.succ_le_succ (Finset.card_le_card (accepted_subset log v.graph))
          _ ≤ limit := room
    · exact ih

/-! ## The visits of an engine -/

namespace EngineM

theorem specialize_ok_iff (graph : GraphId) (ctx : Context) (e : Engine) :
    ((specialize graph ctx).run.run e).1 = .ok () ↔
      ctx ∈ e.contextsOf graph ∨ (e.contextsOf graph).length < e.config.maxSpecializations := by
  rw [specialize_run]
  split
  · rename_i known
    exact iff_of_true rfl (.inl known)
  · rename_i absent
    split <;> rename_i exceeded
    · simp [absent]
      omega
    · simp [absent]
      omega

theorem contextsOf_specialize (graph : GraphId) (ctx : Context) (e : Engine) (other : GraphId) :
    ((specialize graph ctx).run.run e).2.contextsOf other
      = if graph = other ∧ ctx ∉ e.contextsOf graph then e.contextsOf other ++ [ctx]
        else e.contextsOf other := by
  rw [specialize_run]
  by_cases known : ctx ∈ e.contextsOf graph
  · simp [known]
  · have after : ∀ f : Engine, f.specializations = (entered e graph ctx).specializations →
        f.contextsOf other
          = if graph = other ∧ ctx ∉ e.contextsOf graph then e.contextsOf other ++ [ctx]
            else e.contextsOf other := by
      intro f same
      rw [Engine.contextsOf, same]
      exact (contextsOf_entered e graph other ctx).trans (by simp [known])
    rw [if_neg known]
    split <;> exact after _ rfl

theorem config_specialize (graph : GraphId) (ctx : Context) (e : Engine) :
    ((specialize graph ctx).run.run e).2.config = e.config :=
  (grows_specialize graph ctx e).config

end EngineM

namespace Engine

/-- The visits to contexts in the life of an engine, with whatever else was done meanwhile. -/
inductive Visits (e : Engine) : List Visit → Engine → Prop where
  | rest : Visits e [] e
  | specialized {log : List Visit} {f : Engine} (h : Visits e log f) (graph : GraphId)
      (ctx : Context) :
      Visits e (log ++ [⟨graph, ctx, ((EngineM.specialize graph ctx).run.run f).1⟩])
        ((EngineM.specialize graph ctx).run.run f).2
  | meanwhile {log : List Visit} {f g : Engine} (h : Visits e log f) (config : g.config = f.config)
      (specializations : g.specializations = f.specializations) : Visits e log g

/-- The account of the visits: the engine knows exactly the contexts that were visited. -/
structure Accounts (limit : Nat) (log : List Visit) (e : Engine) : Prop where
  config : e.config.maxSpecializations = limit
  distinct : ∀ graph, (e.contextsOf graph).Nodup
  entered : ∀ graph, (e.contextsOf graph).toFinset = visited log graph
  ruled : Ruled limit log

namespace Accounts

variable {limit : Nat} {log : List Visit} {e f : Engine}

theorem new (program : Program) (types : TypeCache) (config : Config) :
    Accounts config.maxSpecializations [] (.new program types config) :=
  ⟨rfl, fun _ => List.nodup_nil, fun _ => rfl, by rintro past v since heq; simp at heq⟩

theorem length_eq (h : Accounts limit log e) (graph : GraphId) :
    (e.contextsOf graph).length = (visited log graph).card := by
  rw [← h.entered, List.toFinset_card_of_nodup (h.distinct graph)]

theorem mem_iff (h : Accounts limit log e) {graph : GraphId} {ctx : Context} :
    ctx ∈ e.contextsOf graph ↔ ctx ∈ visited log graph := by
  rw [← h.entered, List.mem_toFinset]

/-- One visit keeps the account. -/
theorem specialized (h : Accounts limit log e) (graph : GraphId) (ctx : Context) :
    Accounts limit (log ++ [⟨graph, ctx, ((EngineM.specialize graph ctx).run.run e).1⟩])
      ((EngineM.specialize graph ctx).run.run e).2 := by
  refine ⟨?_, ?_, ?_, ?_⟩
  · rw [EngineM.config_specialize]
    exact h.config
  · intro other
    rw [EngineM.contextsOf_specialize]
    split
    · rename_i fresh
      obtain ⟨rfl, absent⟩ := fresh
      exact (h.distinct graph).append (List.nodup_singleton ctx) (by simpa using absent)
    · exact h.distinct other
  · intro other
    rw [EngineM.contextsOf_specialize, visited_append_singleton]
    by_cases same : graph = other
    · subst same
      by_cases known : ctx ∈ e.contextsOf graph
      · have seen := h.mem_iff.mp known
        rw [if_neg (by simp [known]), if_pos rfl, Finset.insert_eq_of_mem seen, h.entered]
      · rw [if_pos ⟨rfl, known⟩, if_pos rfl, List.toFinset_append, h.entered, Finset.insert_eq,
          Finset.union_comm]
        rfl
    · rw [if_neg (by simp [same]), if_neg same, h.entered]
  · refine h.ruled.snoc ?_
    rw [EngineM.specialize_ok_iff, h.mem_iff, h.length_eq, h.config]

theorem meanwhile (h : Accounts limit log e) (config : f.config = e.config)
    (specializations : f.specializations = e.specializations) : Accounts limit log f := by
  have same : ∀ graph, f.contextsOf graph = e.contextsOf graph := by
    intro graph
    rw [contextsOf, contextsOf, specializations]
  exact ⟨config ▸ h.config, fun graph => same graph ▸ h.distinct graph,
    fun graph => same graph ▸ h.entered graph, h.ruled⟩

end Accounts

theorem Visits.accounts {limit : Nat} {log : List Visit} {e f : Engine} (h : e.Visits log f)
    (start : Accounts limit [] e) : Accounts limit log f := by
  induction h with
  | rest => exact start
  | specialized _ graph ctx ih => exact ih.specialized graph ctx
  | meanwhile _ config specializations ih => exact ih.meanwhile config specializations

end Engine

/-! ## Other questions -/

namespace Engine

/-- An engine after something that enters no context. -/
structure Elsewhere (e f : Engine) : Prop where
  config : f.config = e.config
  specializations : f.specializations = e.specializations

instance : Std.Refl Elsewhere :=
  ⟨fun _ => ⟨rfl, rfl⟩⟩

instance : IsTrans Engine Elsewhere :=
  ⟨fun _ _ _ h h' => ⟨h'.config.trans h.config, h'.specializations.trans h.specializations⟩⟩

end Engine

namespace EngineM

variable {α : Type}

/-- A computation that enters no context. -/
abbrev Elsewhere (m : EngineM α) : Prop :=
  m.Leaves Engine.Elsewhere

theorem elsewhere_newInferrer (c : Callable) : Elsewhere (newInferrer c) :=
  fun _ => ⟨rfl, rfl⟩

theorem elsewhere_interning (make : Interning α) : Elsewhere (interning make) :=
  fun _ => ⟨rfl, rfl⟩

theorem elsewhere_note (d : Diagnostic) : Elsewhere (note d) :=
  fun _ => ⟨rfl, rfl⟩

theorem elsewhere_cached (key : InferrerKey) {make : ExceptT InferError EngineM Inferrer}
    (h : Elsewhere make.run) : Elsewhere (cached key make).run := by
  intro e
  rw [cached_run]
  cases e.inferrers.find? key with
  | some f => exact refl_of _ e
  | none =>
    have hmake := h e
    rcases hout : make.run.run e with ⟨r, e'⟩
    rw [hout] at hmake
    cases r with
    | ok f => exact ⟨hmake.config, hmake.specializations⟩
    | error err => exact hmake

theorem elsewhere_primitiveInferrer (operator : Primitive) (track : Track) :
    Elsewhere (primitiveInferrer operator track).run := by
  refine elsewhere_cached _ (Leaves.tryBind (Leaves.lift Leaves.get) fun e => ?_)
  split
  · exact Leaves.lift (elsewhere_newInferrer _)
  · refine Leaves.tryBind (Leaves.pure _) fun f => ?_
    exact Leaves.tryBind (Leaves.lift (elsewhere_note _)) fun _ => Leaves.pure _

theorem elsewhere_graphInferrer (track : Track) (graph : GraphId) (ctx : Context) :
    Elsewhere (graphInferrer track graph ctx) := by
  intro e
  rw [graphInferrer_run]
  cases e.inferrers.find? { track, callee := .graph graph, ctx } <;> exact ⟨rfl, rfl⟩

theorem elsewhere_constantProperty (value : Constant) (ctx : Context) (track : Track) :
    Elsewhere (constantProperty value ctx track).run := by
  cases value with
  | primitive operator =>
    exact Leaves.tryBind (elsewhere_primitiveInferrer _ _) fun _ => Leaves.pure _
  | graph g =>
    exact Leaves.tryBind (Leaves.lift (elsewhere_graphInferrer _ _ _)) fun _ => Leaves.pure _
  | metaGraph m =>
    refine Leaves.tryBind (elsewhere_cached _ ?_) fun _ => Leaves.pure _
    exact Leaves.lift (elsewhere_newInferrer _)
  | recordType c =>
    refine Leaves.tryBind (elsewhere_cached _ ?_) fun _ => Leaves.pure _
    refine Leaves.tryBind (elsewhere_primitiveInferrer _ _) fun make => ?_
    refine Leaves.tryBind (Leaves.lift (elsewhere_interning _)) fun declared => ?_
    refine Leaves.tryBind (Leaves.lift (elsewhere_interning _)) fun type => ?_
    exact Leaves.lift (elsewhere_newInferrer _)
  | _ =>
    cases track with
    | value => exact Leaves.pure _
    | type =>
      refine Leaves.tryBind (Leaves.lift (elsewhere_interning _)) fun r => ?_
      cases r <;> exact Leaves.pure _
    | shape => exact Leaves.tryBind (Leaves.pure _) fun s => Leaves.pure _

theorem elsewhere_generate (generator : MetaGraph) (types : List Ty) :
    Elsewhere (generate generator types).run := by
  intro e
  rw [generate_run]
  cases e.generated.find? { generator, types } with
  | some g => exact refl_of _ e
  | none => cases generator.generate e.program types <;> exact ⟨rfl, rfl⟩

/-- A question enters a context only if it is a visit. -/
theorem elsewhere_answer (query : Query) :
    (∃ graph ctx, query = .specialize graph ctx) ∨ Elsewhere (answer query) := by
  cases query with
  | specialize graph ctx => exact .inl ⟨graph, ctx, rfl⟩
  | note d => exact .inr (elsewhere_note d)
  | intern make => exact .inr (elsewhere_interning make)
  | constant value ctx track => exact .inr (elsewhere_constantProperty value ctx track)
  | graphInferrer track graph ctx => exact .inr (elsewhere_graphInferrer track graph ctx)
  | bind inner bound => exact .inr (elsewhere_newInferrer _)
  | scalarShape => exact .inr (elsewhere_newInferrer _)
  | anything => exact .inr (elsewhere_newInferrer _)
  | generate generator types => exact .inr (elsewhere_generate generator types)
  | _ => exact .inr (Leaves.get.bind fun _ => Leaves.pure _)

end EngineM

/-! ## Whole lives -/

namespace Engine

theorem Visits.answer {log : List Visit} {e f : Engine} (h : e.Visits log f) (query : Query) :
    ∃ since, e.Visits (log ++ since) ((EngineM.answer query).run f).2 := by
  rcases EngineM.elsewhere_answer query with ⟨graph, ctx, rfl⟩ | elsewhere
  · exact ⟨_, h.specialized graph ctx⟩
  · have same := elsewhere f
    exact ⟨[], (List.append_nil log).symm ▸ h.meanwhile same.config same.specializations⟩

theorem Visits.follows {log : List Visit} {e f g : Engine} (h : e.Visits log f)
    (follows : f.Follows g) : ∃ since, e.Visits (log ++ since) g := by
  induction follows with
  | refl => exact ⟨[], (List.append_nil log).symm ▸ h⟩
  | answer _ query ih =>
    obtain ⟨since, ih⟩ := ih
    obtain ⟨new, visits⟩ := ih.answer query
    exact ⟨since ++ new, List.append_assoc .. ▸ visits⟩
  | results _ memo readers diagnostics ih =>
    obtain ⟨since, ih⟩ := ih
    exact ⟨since, ih.meanwhile rfl rfl⟩

/-- Contexts are entered by visits alone, whatever else becomes of an engine. -/
theorem Arises.exists_visits {e : Engine} (h : e.Arises) :
    ∃ program types config log, (Engine.new program types config).Visits log e := by
  induction h with
  | new program types config => exact ⟨program, types, config, [], .rest⟩
  | answered _ query ih =>
    obtain ⟨program, types, config, log, ih⟩ := ih
    obtain ⟨since, visits⟩ := ih.answer query
    exact ⟨program, types, config, _, visits⟩
  | ran _ body polls finished ih =>
    obtain ⟨program, types, config, log, ih⟩ := ih
    obtain ⟨since, visits⟩ := ih.follows (polls.follows.trans (Run.follows_close _))
    exact ⟨program, types, config, _, visits⟩
  | @refused e _ key ih =>
    obtain ⟨program, types, config, log, ih⟩ := ih
    refine ⟨program, types, config, log, ?_⟩
    rw [Run.request]
    split
    · exact ih
    · rw [if_neg (show ¬ (Run.start e false).active = true from Bool.false_ne_true)]
      exact ih.meanwhile rfl rfl
  | @registered e _ track operator arity rule ih =>
    obtain ⟨program, types, config, log, ih⟩ := ih
    refine ⟨program, types, config, log, ?_⟩
    rw [registerRule]
    split
    · exact ih
    · exact ih.meanwhile rfl rfl

/-- How the limit on specializations works, in the whole life of an engine: a visit is accepted
exactly if its context was visited before or fewer contexts of the graph were visited than the limit
says. So a context that was accepted stays accepted, but one that was refused is accepted the next
time, and it counts as a specialization from the start. No more contexts are accepted than the limit
says as long as none is visited again after it was refused. -/
theorem specialization_verdicts {program : Program} {types : TypeCache} {config : Config}
    {log : List Visit} {e : Engine} (visits : (Engine.new program types config).Visits log e) :
    (∀ past v since, log = past ++ v :: since → (v.result = .ok () ↔
        v.ctx ∈ visited past v.graph ∨ (visited past v.graph).card < config.maxSpecializations))
      ∧ (∀ past v between w since, log = past ++ v :: between ++ w :: since →
        w.graph = v.graph → w.ctx = v.ctx → w.result = .ok ())
      ∧ (∀ graph, e.specializationCount graph = (visited log graph).card)
      ∧ ∀ graph, Obeyed log graph → (accepted log graph).card ≤ config.maxSpecializations := by
  have accounts := visits.accounts (.new program types config)
  exact ⟨accounts.ruled, fun past v between w since heq => accounts.ruled.again heq,
    accounts.length_eq, fun graph => accounts.ruled.card_accepted_le⟩

/-- A graph that returns its parameter. -/
def echo : Program where
  graphs := #[⟨"f", none, [⟨0⟩], some ⟨0⟩⟩]
  nodes := #[⟨.parameter ⟨0⟩ 0, some ⟨0⟩, some "x"⟩]

/-- The context of a call of the graph on an integer with so many bits. -/
def echoing (bits : Nat) : Context :=
  Context.empty.extend ⟨0⟩
    [{ value := .value .anything, type := .type (.int ⟨0⟩ bits), shape := .shape .noShape }]

/-- With a limit of one, a second context is refused, counted, and accepted when it is visited
again. -/
theorem specialization_verdicts_echo :
    ∃ log e, (Engine.new echo (.empty ⟨0⟩) ⟨1, false⟩).Visits log e
      ∧ log.map (fun v => (v.ctx, v.result.isOk))
        = [(echoing 64, true), (echoing 32, false), (echoing 32, true)]
      ∧ e.specializationCount ⟨0⟩ = 2
      ∧ (∀ past v since, log = past ++ v :: since → (v.result = .ok () ↔
        v.ctx ∈ visited past v.graph ∨ (visited past v.graph).card < 1))
      ∧ (∀ past v between w since, log = past ++ v :: between ++ w :: since →
        w.graph = v.graph → w.ctx = v.ctx → w.result = .ok ())
      ∧ (∀ graph, e.specializationCount graph = (visited log graph).card)
      ∧ ∀ graph, Obeyed log graph → (accepted log graph).card ≤ 1 := by
  have visits := ((Visits.rest (e := .new echo (.empty ⟨0⟩) ⟨1, false⟩)).specialized ⟨0⟩
    (echoing 64)).specialized ⟨0⟩ (echoing 32) |>.specialized ⟨0⟩ (echoing 32)
  refine ⟨_, _, visits, ?_, ?_, specialization_verdicts visits⟩
  · decide +kernel
  · decide +kernel

end Engine

end ArrayInference
