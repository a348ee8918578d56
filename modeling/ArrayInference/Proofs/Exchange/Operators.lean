import ArrayInference.Proofs.Exchange.Twins
import ArrayInference.Proofs.Run.Results
import ArrayInference.Proofs.Run.Root

/-!
# Nodes that are operators

The computation of a constant that is an operator ends in its first turn, and its result is an
inferrer that applies the operator's rule. So whatever calls such a node calls that rule.
-/

namespace ArrayInference

namespace Run

variable {s t s₁ s₂ : Run} {self : TaskId} {reader : Option Entry} {log log₁ : List Event}
  {node : NodeId} {operator : Primitive}

/-- A property that is an inferrer which applies the rule of an operator. -/
def StandsFor (e : Engine) (track : Track) (operator : Primitive) (v : Property) : Prop :=
  ∃ f, v = .inferrer f ∧ ∀ arity rule,
    (Registries.builtin.get track).get? operator = some (arity, rule) →
      e.callable? f = some (.primitive track operator arity rule)

theorem StandsFor.mono {e f : Engine} {track : Track} {v : Property} (h : StandsFor e track operator v)
    (grown : e.Extends f) : StandsFor f track operator v := by
  obtain ⟨g, hv, stands⟩ := h
  exact ⟨g, hv, fun arity rule known => grown.callables (stands arity rule known)⟩

/-- What calls the operator of a conditional calls a conditional. -/
theorem StandsFor.conditional {e : Engine} {track : Track} {use : BranchUse} {v : Property}
    (h : StandsFor e track use.operator v) :
    ∃ f, v = .inferrer f ∧ e.callable? f = some (.conditional track use) := by
  obtain ⟨f, hv, stands⟩ := h
  obtain ⟨rule, known, hrule⟩ := Callable.conditional_registered track use
  exact ⟨f, hv, hrule ▸ stands _ _ known⟩

/-- The turn in which an operator is computed. -/
theorem ended_of_operator {r : NodeRef} {track : Track} {b : Infer Property}
    {progress : Progress Property}
    (kind : (s.engine.program.node r.node).kind = .constant (.primitive operator))
    (standard : s.engine.Standard) (steps : Steps reader (r.infer track) s log b s₁)
    (halt : Halt self reader b s₁ log₁ progress s₂) :
    ∃ out, progress = .ended out ∧ ∀ v, out = .ok v → StandsFor s₂.engine track operator v := by
  have hinfer : r.inferAs track (s.engine.program.node r.node)
      = .ask (.constant (.primitive operator) r.ctx track) Infer.ofExcept := by
    rw [NodeRef.inferAs, kind]
  have applies := EngineM.applies_primitiveInferrer standard operator track
  have hanswer : (EngineM.answer (.constant (.primitive operator) r.ctx track)).run s.engine
      = (((EngineM.primitiveInferrer operator track).run.run s.engine).1.map .inferrer,
          ((EngineM.primitiveInferrer operator track).run.run s.engine).2) := by
    show (EngineM.constantProperty (.primitive operator) r.ctx track).run.run s.engine = _
    rw [EngineM.constantProperty, ExceptT.run_bind, StateT.run_bind]
    rcases (EngineM.primitiveInferrer operator track).run.run s.engine with ⟨out, e⟩
    cases out <;> rfl
  rw [NodeRef.infer_eq] at steps
  cases steps with
  | refl => cases halt
  | head first rest =>
    cases first
    replace rest : Steps reader (r.inferAs track (s.engine.program.node r.node)) s _ b s₁ := rest
    rw [hinfer] at rest
    cases rest with
    | refl => cases halt
    | head first rest =>
      cases first
      have hstate : (s.afterAnswer (.constant (.primitive operator) r.ctx track)).engine
          = ((EngineM.primitiveInferrer operator track).run.run s.engine).2 :=
        congrArg Prod.snd hanswer
      rw [hanswer] at rest
      rcases hout : (EngineM.primitiveInferrer operator track).run.run s.engine with ⟨out, e⟩
      rw [hout] at rest applies hstate
      cases out with
      | error err =>
        cases rest with
        | refl =>
          cases halt
          exact ⟨_, rfl, by simp⟩
        | head first rest => cases first
      | ok f =>
        cases rest with
        | refl =>
          cases halt
          refine ⟨_, rfl, fun v hv => ?_⟩
          cases hv
          rw [hstate]
          exact ⟨f, rfl, applies.2 f rfl⟩
        | head first rest => cases first

/-- What is known of a node that is an operator: its tasks have not begun, and its properties stand for
the operator. -/
structure Operates (node : NodeId) (operator : Primitive) (s : Run) : Prop where
  distinct : s.tasks.Distinct
  tasks : ∀ {i : TaskId} {key : Entry} {w : Work}, s.tasks.find? i = some ⟨.entry key, w⟩ →
    key.ref.node = node → w = .ready (key.ref.infer key.track)
  results : ∀ {key : Entry} {v : Property}, key.ref.node = node →
    s.resultOf (.entry key) = some (.ok v) → StandsFor s.engine key.track operator v

namespace Operates

/-- At the start of a call on a fresh engine there are no entries. -/
theorem asking (program : Program) (types : TypeCache) (config : Config) (graph : GraphId)
    (args : List ArgSpec) (track : Track) :
    Operates node operator (asking (.new program types config) graph args track) := by
  have hmemo : (Run.asking (.new program types config) graph args track).engine.memo = [] :=
    (EngineM.grows_graphInferrer track graph .empty (.new program types config)).memo
  refine ⟨List.nodup_singleton _, fun {i key w} found _ => ?_, fun {key v} _ hv => ?_⟩
  · have hgoal := Table.mem_of_find? found
    rw [Run.asking] at hgoal
    simp only [opening, start, spawn, Table.insert, List.mem_singleton] at hgoal
    cases hgoal
  · obtain ⟨p, found, -⟩ := exists_promise_of_resultOf hv
    replace found : (Run.asking (.new program types config) graph args track).engine.memo.find? key
      = some p := found
    rw [hmemo] at found
    cases found

theorem alike (h : Operates node operator s) (tasks : t.tasks = s.tasks)
    (results : ∀ source, t.resultOf source = s.resultOf source) (grown : s.engine.Extends t.engine) :
    Operates node operator t where
  distinct := tasks ▸ h.distinct
  tasks := fun found => h.tasks (tasks ▸ found)
  results := fun hkey hv => (h.results hkey ((results _).symm.trans hv)).mono grown

/-- A task ends; if it is one of the node, its result stands for the operator. -/
theorem ended (h : Operates node operator s) (self : TaskId) {goal : Goal} {r : Outcome}
    (stands : ∀ key v, goal = .entry key → key.ref.node = node → r = .ok v →
      StandsFor s.engine key.track operator v) : Operates node operator (s.endTask self goal r) := by
  have ending := ending_endTask s self goal r
  have hfollows : s.engine.Follows (s.endTask self goal r).engine := ending.follows
  have htasks : (s.endTask self goal r).tasks = s.tasks.erase self := ending.same.1
  refine ⟨htasks ▸ h.distinct.erase self, fun {i key w} found hkey => ?_, fun {key v} hkey hv => ?_⟩
  · rw [htasks, Table.find?_erase h.distinct] at found
    split at found
    · cases found
    · exact h.tasks found hkey
  · rcases ending.resultOf (.entry key) with
      hsame | ⟨haims, -, hnew⟩ | ⟨_, _, _, _, _, -, -, -, -, -, hnew, -⟩
    · have hold : (s.leave self).resultOf (.entry key) = s.resultOf (.entry key) :=
        resultOf_congr (promise?_leave s self _)
      exact (h.results hkey (hold.symm.trans (hsame.symm.trans hv))).mono hfollows.extends
    · rw [hnew] at hv
      cases goal with
      | answer => cases haims
      | branch c => cases haims
      | entry key' =>
        cases haims
        cases r with
        | error e => cases hv
        | ok v' =>
          cases hv
          exact (stands key v rfl hkey rfl).mono hfollows.extends
    · rw [hnew] at hv
      cases hv

/-- The last step of a turn begins new tasks at most. -/
theorem halt (h : Operates node operator s) {b : Infer Property} {progress : Progress Property}
    (halt : Halt self reader b s log progress t) : Operates node operator t := by
  have hresults := halt.resultOf
  have hgrown := halt.follows.extends
  cases halt with
  | begin absent =>
    refine ⟨?_, fun {i key' w} found hkey => ?_, fun hkey hv => ?_⟩
    · exact (show (s.addReader _ reader).tasks.Distinct by cases reader <;> exact h.distinct).insert _ _
    · rw [find?_beginEntry] at found
      split at found
      · cases found
        rfl
      · have hold : s.tasks.find? i = some ⟨.entry key', w⟩ := by cases reader <;> exact found
        exact h.tasks hold hkey
    · exact (h.results hkey ((hresults _).symm.trans hv)).mono hgrown
  | race track use first second next =>
    refine ⟨(h.distinct.insert _ _).insert _ _, fun {i key' w} found hkey => ?_, fun hkey hv => ?_⟩
    · rw [find?_beginRace] at found
      split at found
      · cases found
      · split at found
        · cases found
        · exact h.tasks found hkey
    · exact (h.results hkey ((hresults _).symm.trans hv)).mono hgrown
  | readFailed found failed => exact h.alike (by cases reader <;> rfl) hresults hgrown
  | wait found missing =>
    refine h.alike ((setPromise_same _ _ _).2.2.1.trans ?_) hresults hgrown
    cases reader <;> rfl
  | _ => exact h.alike rfl hresults hgrown

/-- Every turn keeps it. -/
theorem turned (h : Operates node operator s)
    (kind : (s.engine.program.node node).kind = .constant (.primitive operator))
    (standard : s.engine.Standard) (turned : Turned s self log t) : Operates node operator t := by
  cases turned with
  | absent gone => exact h
  | asleep task => exact h
  | unfounded task missing => exact h
  | blocked task found missing =>
    have alike := alike_waitOn found missing self
    exact h.alike alike.tasks alike.results (follows_setPromise _ _ _).extends
  | failed task found failed => exact h.ended self fun _ _ _ _ hv => by cases hv
  | @moved task body b₁ s₁ s₂ log log₁ progress found goes steps halt =>
    have quiet := steps.quiet
    have h₁ : Operates node operator s₁ :=
      h.alike (by rw [quiet.same]) quiet.resultOf steps.follows.extends
    have h₂ := h₁.halt halt
    have ends : ∀ key, task.goal = .entry key → key.ref.node = node →
        ∃ out, progress = .ended out ∧ ∀ v, out = .ok v → StandsFor s₂.engine key.track operator v := by
      intro key hgoal hkey
      obtain ⟨goal, work⟩ := task
      cases hgoal
      have hwork := h.tasks found hkey
      cases hwork
      cases goes
      exact ended_of_operator (hkey ▸ kind) standard steps halt
    have stays : ∀ w, (∀ out, progress ≠ .ended out) →
        Operates node operator { s₂ with tasks := s₂.tasks.insert self ⟨task.goal, w⟩ } := by
      intro w unended
      refine ⟨h₂.distinct.insert _ _, fun {i key w'} found' hkey => ?_, h₂.results⟩
      replace found' : (s₂.tasks.insert self _).find? i = some _ := found'
      rw [Table.find?_insert] at found'
      split at found'
      · obtain ⟨out, hout, -⟩ := ends key (congrArg Task.goal (Option.some.inj found')) hkey
        exact absurd hout (unended out)
      · exact h₂.tasks found' hkey
    cases progress with
    | ended r =>
      refine h₂.ended self fun key v hgoal hkey hr => ?_
      obtain ⟨out, hout, stands⟩ := ends key hgoal hkey
      cases hout
      exact stands v hr
    | waiting source next => exact stays _ (by simp)
    | calling body => exact stays _ (by simp)
    | forever => exact stays _ (by simp)

end Operates

end Run

end ArrayInference
