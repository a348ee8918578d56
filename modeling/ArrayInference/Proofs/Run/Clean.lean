import ArrayInference.Proofs.Run.Outside

/-!
# Between two operations

An operation may succeed, fail or stall; it may leave tasks half-way and branches that nobody waits
for. Whatever it was, nothing of it is left over that the next one could trip on: every promise has
its result, nothing counts as being computed, nothing can be made outside a run, and a run waits for
its own tasks and fails with its own errors only.
-/

namespace ArrayInference

namespace Run

variable {α : Type} {e : Engine} {before : Memo} {s t : Run} {self : TaskId}
  {past log : List Event}

/-! ## Outside a run -/

/-- What a computation without a run has done to an engine: no task was made and no read was noted,
and all that is new are failures of entries that had no result. -/
structure Aloof (e : Engine) (s : Run) : Prop where
  active : s.active = false
  tasks : s.tasks = []
  readers : s.engine.readers = e.readers
  memo : ∀ key, s.engine.memo.find? key = e.memo.find? key
    ∨ (e.memo.find? key = none ∧ s.engine.memo.find? key = some (Engine.refusal key))

theorem Aloof.resolved (h : Aloof e s) (settled : e.Settled) {key : Entry} {p : Promise TaskId}
    (found : s.engine.memo.find? key = some p) : ∃ r, p.result = some r := by
  rcases h.memo key with same | ⟨-, refused⟩
  · exact Option.ne_none_iff_exists'.mp (settled.resolved (same ▸ found))
  · cases refused.symm.trans found
    exact ⟨_, rfl⟩

theorem Aloof.request (h : Aloof e s) (key : Entry) :
    Aloof e (s.request key) ∧ ∃ p, (s.request key).engine.memo.find? key = some p := by
  rw [Run.request]
  split
  · rename_i known
    exact ⟨h, Table.contains_eq_true.mp known⟩
  · rename_i unknown
    have absent : s.engine.memo.find? key = none :=
      Table.contains_eq_false.mp (Bool.not_eq_true _ ▸ unknown)
    rw [if_neg (by rw [h.active]; exact Bool.false_ne_true)]
    refine ⟨⟨h.active, h.tasks, h.readers, fun other => ?_⟩, _, Table.find?_insert_self _ _ _⟩
    show (s.engine.memo.insert key (Engine.refusal key)).find? other = _ ∨ _
    by_cases same : key = other
    · subst same
      rcases h.memo key with old | ⟨-, refused⟩
      · exact .inr ⟨old ▸ absent, Table.find?_insert_self _ _ _⟩
      · cases absent.symm.trans refused
    · show (s.engine.memo.insert key (Engine.refusal key)).find? other = _ ∨
        (_ ∧ (s.engine.memo.insert key (Engine.refusal key)).find? other = _)
      rw [Table.find?_insert_of_ne _ _ same]
      exact h.memo other

/-- A pass over a computation keeps aloof, and it does not wait. -/
theorem Aloof.advance (h : Aloof e s) (settled : e.Settled) (self : TaskId) (b : Infer α) :
    Aloof e (advance self none b s).2
      ∧ ∀ source next, (advance self none b s).1 ≠ .waiting source next := by
  induction b generalizing s with
  | done a => exact ⟨h, by rintro _ _ ⟨⟩⟩
  | fail err => exact ⟨h, by rintro _ _ ⟨⟩⟩
  | forever => exact ⟨h, by rintro _ _ ⟨⟩⟩
  | ask query next ih =>
    have grows := EngineM.grows_answer query s.engine
    refine ih _ (s := s.afterAnswer query) ⟨h.active, h.tasks, grows.readers.trans h.readers, ?_⟩
    intro key
    rw [afterAnswer_memo]
    exact h.memo key
  | demand key next ih =>
    obtain ⟨requested, p, found⟩ := h.request key
    obtain ⟨r, ready⟩ := requested.resolved settled found
    have awaited : (s.request key).await self (.entry key) = (some r, s.request key) :=
      await_of_result found ready
    rw [Run.advance, addReader, awaited]
    cases r with
    | ok v => exact ih v requested
    | error err => exact ⟨requested, by rintro _ _ ⟨⟩⟩
  | call callee args next ih =>
    rw [Run.advance]
    split <;> exact ⟨h, by rintro _ _ ⟨⟩⟩
  | unify track use first second next ih =>
    rw [Run.advance, if_neg (by rw [h.active]; exact Bool.false_ne_true)]
    exact ⟨h, by rintro _ _ ⟨⟩⟩

theorem Aloof.work (h : Aloof e s) (settled : e.Settled) {b : Infer α} {progress : Progress α}
    (worked : work self none b s = some (progress, t)) :
    Aloof e t ∧ ∀ source next, progress ≠ .waiting source next := by
  refine work.partial_correctness self none
    (fun b s out => Aloof e s → Aloof e out.2 ∧ ∀ source next, out.1 ≠ .waiting source next)
    ?_ b s _ worked h
  intro recurse ih b s out hout h
  have pass := h.advance settled self b
  rcases hadvance : Run.advance self none b s with ⟨progress, s'⟩
  rw [hadvance] at hout pass
  cases progress with
  | calling body => exact ih body s' out hout pass.1
  | _ =>
    cases hout
    exact pass

/-! ## Promises and their tasks -/

/-- Every promise without a result is that of a task which has not ended. -/
def Attended (s : Run) : Prop :=
  ∀ source p, s.promise? source = some p → p.result = none →
    ∃ x goal w, s.tasks.find? x = some ⟨goal, w⟩ ∧ goal.source? = some source

/-- The source of a task has its result when the task has ended. -/
theorem Ending.resolves {goal : Goal} {r : Outcome} (ending : Ending s goal r t) {source : Source}
    (aims : goal.source? = some source) (present : t.promise? source ≠ none) :
    t.resultOf source ≠ none := by
  have kept : ∀ {r'}, s.resultOf source = some r' → t.resultOf source ≠ none := by
    intro r' h
    rcases ending.resultOf source with same | ⟨-, -, new⟩ | ⟨_, _, _, _, _, -, -, -, -, -, new, -⟩
    · rw [same, h]
      simp
    · rw [new]
      simp
    · rw [new]
      simp
  obtain ⟨p, found⟩ := Option.ne_none_iff_exists'.mp (ending.promise?_ne_none.mp present)
  cases ending with
  | answer r => cases aims
  | fulfils r aims' held missing =>
    cases aims'.symm.trans aims
    rw [resultOf_fulfil held, if_pos rfl]
    simp
  | overtaken r settled =>
    cases aims
    exact Option.isSome_iff_ne_none.mp (resultOf_of_promise? found ▸ settled p found)
  | lost r gone =>
    cases aims
    exact absurd gone present
  | second r first =>
    cases aims
    exact kept first
  | agrees first same d =>
    cases aims
    exact kept first
  | late first clash =>
    cases aims
    exact kept first

namespace Attended

theorem exists_task (h : Attended s) {source : Source} (present : s.promise? source ≠ none)
    (missing : s.resultOf source = none) :
    ∃ x goal w, s.tasks.find? x = some ⟨goal, w⟩ ∧ goal.source? = some source := by
  obtain ⟨p, found⟩ := Option.ne_none_iff_exists'.mp present
  exact h source p found ((resultOf_of_promise? found).symm.trans missing)

theorem of_tasks (h : ∀ source, s.promise? source ≠ none → s.resultOf source = none →
    ∃ x goal w, s.tasks.find? x = some ⟨goal, w⟩ ∧ goal.source? = some source) : Attended s :=
  fun source _ found missing =>
    h source (by simp [found]) ((resultOf_of_promise? found).trans missing)

theorem alike (h : Attended s) (alike : Alike s t) : Attended t := by
  refine of_tasks fun source present missing => ?_
  rw [alike.tasks]
  exact h.exists_task ((alike.present source).mp present) (alike.results source ▸ missing)

/-- The source of the task that ends has its result, and other tasks are still there. -/
theorem ends (h : Attended s) {goal : Goal} {asks : List Event} {s₀ : Run} {r : Outcome}
    (ends : Ends s self goal asks s₀ r) : Attended (s₀.endTask self goal r) := by
  have alike := alike_of_engine ends.same ends.memo
  have ending := ending_endTask s₀ self goal r
  refine of_tasks fun source present missing => ?_
  have before : s.promise? source ≠ none := by
    rw [← alike.present, ← promise?_leave s₀ self]
    exact ending.promise?_ne_none.mp present
  have unresolved : s.resultOf source = none := by
    rw [← alike.results, ← resultOf_leave s₀ self]
    rcases ending.resultOf source with
      same | ⟨-, none, -⟩ | ⟨_, _, _, _, _, -, -, -, -, -, new, -⟩
    · rw [← same, missing]
    · exact none
    · cases missing.symm.trans new
  obtain ⟨x, goal', w, task, aims⟩ := h.exists_task before unresolved
  have other : self ≠ x := by
    rintro rfl
    obtain ⟨w', known⟩ := ends.known
    cases known.symm.trans task
    exact ending.resolves aims present missing
  refine ⟨x, goal', w, ?_, aims⟩
  rw [ending.same.1, ← task, ← alike.tasks]
  exact Table.find?_erase_of_ne _ other

/-- What a task has made before it stopped has a task. -/
theorem stays (h : Attended s) (tidy : Tidy before (some self) s) {goal : Goal} {w : Work}
    (known : s.tasks.find? self = some ⟨goal, w⟩) {asks : List Event} {s₁ s₂ : Run}
    {b : Infer Property} {progress : Progress Property} (quiet : Quiet goal.reader s asks s₁)
    (halt : Halt self goal.reader b s₁ log progress s₂) (unended : ∀ r, progress ≠ .ended r) :
    Attended (s₂.settle self goal progress) := by
  refine of_tasks fun source present missing => ?_
  rw [resultOf_settle quiet halt unended] at missing
  by_cases absent : s.promise? source = none
  · obtain ⟨x, goal', w', -, aims, task⟩ :=
      exists_task_of_settle tidy known quiet halt unended absent present
    exact ⟨x, goal', w', task, aims⟩
  · obtain ⟨x, goal', w', task, aims⟩ := h.exists_task absent missing
    by_cases same : x = self
    · subst same
      cases known.symm.trans task
      obtain ⟨after, hsettle⟩ := exists_settle s₂ x goal unended
      exact ⟨x, goal, after, by rw [hsettle]; exact Table.find?_insert_self _ _ _, aims⟩
    · exact ⟨x, goal', w', find?_settle_of_ne tidy quiet halt unended same task, aims⟩

/-- A turn gives the promises that it makes a task, and the task that it ends a result. -/
theorem turned (h : Attended s) (tidy : Tidy before (some self) s)
    (turned : Turned s self log t) : Attended t := by
  cases turned.move with
  | idle alike => exact h.alike alike
  | ends ends => exact h.ends ends
  | stays known waited quiet halt unended => exact h.stays tidy known quiet halt unended

end Attended

/-! ## Detached errors -/

/-- An error of a branch that has ended second in this run: it has failed with it, or disagrees. -/
def LateError (log : List Event) (err : InferError) : Prop :=
  ∃ c c' first r, List.Sublist [.ended (.branch c) (.ok first), .ended (.branch c') r] log
    ∧ c.cell = c'.cell ∧ Clash c' first r err

theorem LateError.append {err : InferError} (h : LateError past err) (log : List Event) :
    LateError (past ++ log) err := by
  obtain ⟨c, c', first, r, order, rest⟩ := h
  exact ⟨c, c', first, r, order.trans (List.sublist_append_left _ _), rest⟩

theorem Ending.detached {goal : Goal} {r : Outcome} (ending : Ending s goal r t) :
    t.detached = s.detached ∨ ∃ c first err, goal = .branch c ∧ Clash c first r err
      ∧ s.resultOf (.cell c.cell) = some (.ok first) ∧ t.detached = s.detached ++ [err] := by
  cases ending with
  | fulfils r aims found missing => exact .inl (setPromise_same _ _ _).2.2.2.2.2.1
  | late first clash =>
    exact .inr ⟨_, _, _, rfl, clash, first, (failBranch_same _ _ _).2.2.2.2.1⟩
  | _ => exact .inl rfl

/-- The errors that a run will fail with are its own. -/
theorem lateError_turned (h : ∀ err ∈ s.detached, LateError past err)
    (traced : Traced before past s) (turned : Turned s self log t) :
    ∀ err ∈ t.detached, LateError (past ++ log) err := by
  intro err hmem
  cases turned.move with
  | idle alike =>
    rw [alike.detached] at hmem
    exact (h err hmem).append _
  | @ends goal asks s₀ r ends =>
    have alike := alike_of_engine ends.same ends.memo
    have left : (s₀.leave self).detached = s.detached := alike.detached
    rcases (ending_endTask s₀ self goal r).detached with
      same | ⟨c, first, late, rfl, clash, found, new⟩
    · rw [same, left] at hmem
      exact (h err hmem).append _
    · rw [new, left, List.mem_append, List.mem_singleton] at hmem
      rcases hmem with old | rfl
      · exact (h err old).append _
      · rw [resultOf_leave, alike.results] at found
        obtain ⟨c₁, cell, ended⟩ := traced.first found
        refine ⟨c₁, c, first, r, ?_, cell, clash⟩
        exact (List.singleton_sublist.mpr ended).append (List.sublist_append_right asks _)
  | @stays goal w asks log s₁ s₂ b progress known waited quiet halt unended =>
    obtain ⟨after, hsettle⟩ := exists_settle s₂ self goal unended
    have same : (s₂.settle self goal progress).detached = s.detached := by
      rw [hsettle]
      show s₂.detached = s.detached
      rw [halt.detached_eq, quiet.same]
    rw [same] at hmem
    exact (h err hmem).append _

/-! ## Runs -/

/-- The account of a run by which nothing in it comes from outside. -/
structure Contained (before : Memo) (past : List Event) (s : Run) : Prop where
  kept : Kept before past s
  traced : Traced before past s
  attended : Attended s
  errors : ∀ err ∈ s.detached, LateError past err

theorem Contained.turned {schedule : Schedule} (h : Contained before past s)
    (offers : s.schedule.Offers self schedule) (turn : Turned (s.scheduled schedule) self log t) :
    Contained before (past ++ log) t := by
  have tidy := h.kept.tidy.offered offers
  have traced := h.traced.alike (alike_scheduled s schedule) rfl
  have attended : Attended (s.scheduled schedule) := fun source p found missing =>
    h.attended source p (promise?_scheduled s schedule source ▸ found) missing
  exact ⟨h.kept.turned offers turn, traced.turned tidy turn, attended.turned tidy turn,
    lateError_turned (s := s.scheduled schedule) h.errors traced turn⟩

end Run

/-! ## Operations -/

/-- What can be done with an engine. -/
inductive Operation where
  | inferTrack (graph : GraphId) (args : List ArgSpec) (track : Track)
  | inferGraph (graph : GraphId) (args : List ArgSpec)
  | inferNode (node : NodeId) (ctx : Context) (track : Track)
  | registerRule (track : Track) (operator : Primitive) (arity : Arity) (rule : Rule)

namespace Engine

/-- The engine after an operation, whatever came of it. -/
def perform (e : Engine) : Operation → Engine
  | .inferTrack graph args track => (e.inferTrack graph args track).2
  | .inferGraph graph args => (e.inferGraph graph args).2
  | .inferNode node ctx track => (e.inferNode node ctx track).2
  | .registerRule track operator arity rule => (e.registerRule track operator arity rule).2

theorem Arises.run? {e e' : Engine} (h : e.Arises) {body : Infer Property} {r : Outcome}
    (ran : e.run? body = some (r, e')) : e'.Arises := by
  obtain ⟨s, drive, hs⟩ := Option.map_eq_some_iff.mp ran
  cases hs
  obtain ⟨log, polls, finished⟩ := Run.exists_polls_of_drive rfl drive
  exact h.ran body polls finished

theorem Arises.run {e : Engine} (h : e.Arises) (body : Infer Property) :
    (e.run body).2.Arises := by
  rw [Engine.run]
  cases ran : e.run? body with
  | none => exact h
  | some out => exact h.run? ran

theorem Arises.inferTrack {e : Engine} (h : e.Arises) (graph : GraphId) (args : List ArgSpec)
    (track : Track) : (e.inferTrack graph args track).2.Arises := by
  rw [Engine.inferTrack]
  cases ran : e.inferTrack? graph args track with
  | none => exact h
  | some out => exact (h.answered (.graphInferrer track graph .empty)).run? ran

/-- No operation leads out of the life of an engine. -/
theorem Arises.perform {e : Engine} (h : e.Arises) (operation : Operation) :
    (e.perform operation).Arises := by
  cases operation with
  | inferTrack graph args track => exact h.inferTrack graph args track
  | inferNode node ctx track => exact (h.refused _).run _
  | registerRule track operator arity rule => exact h.registered track operator arity rule
  | inferGraph graph args =>
    have step : ∀ {e e' : Engine} {track : Track} {r : Outcome}, e.Arises →
        e.inferTrack graph args track = (r, e') → e'.Arises := by
      intro e e' track r h heq
      have after := h.inferTrack graph args track
      rwa [heq] at after
    show (e.inferGraph graph args).2.Arises
    rw [Engine.inferGraph]
    split
    · rename_i value
      exact step h value
    · rename_i value
      have first := step h value
      split
      · rename_i type
        exact step first type
      · rename_i type
        have second := step first type
        split <;> rename_i shape <;> exact step second shape

end Engine

end ArrayInference
