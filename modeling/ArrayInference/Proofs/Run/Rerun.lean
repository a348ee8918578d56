import ArrayInference.Proofs.Run.Root
import ArrayInference.Proofs.Run.Success
import ArrayInference.Proofs.Run.Trace

/-!
# The same call again

A call that is made again finds the entry that the first call asked for. If this entry has failed
the second call fails, and otherwise it succeeds, whatever the first run has reported. The two agree
unless the first run had a property and then failed over a conditional that its entry does not
depend on by reads of its own.
-/

namespace ArrayInference

namespace Run

variable {before : Memo} {s t : Run} {self : TaskId} {past log : List Event}

/-! ## What is found late -/

theorem Clash.not_agree {c : BranchCheck} {first second : Property} {r : Outcome} {e : InferError}
    (clash : Clash c first r e) (hr : r = .ok second) : agree c.track first second = false := by
  cases clash with
  | failed e => cases hr
  | disagrees differ =>
    cases hr
    exact differ

/-- At the end of a run, the site of a late failure has failed, and so has every entry that depends
on it by reads of its own. -/
theorem failedAt_of_reached {base : Nat → TaskId} (tidy : Tidy before none s)
    (paired : Paired base past s) (traced : Traced before past s) (finished : s.Finished)
    {key : Entry} (reached : Reached past key) : s.FailedAt (.entry key) := by
  obtain ⟨site, ⟨c, c', r', first, hsub, hcell, hsite, e, clash⟩, path⟩ := reached
  induction path with
  | refl =>
    have hpair := paired.compared.sublist hsub
    rw [List.pairwise_cons] at hpair
    obtain ⟨-, hfirst⟩ := hpair.1 _ (List.mem_singleton.mpr rfl) c _ c' r' rfl rfl hcell
    rcases hfirst first rfl with ⟨second, hsecond, hagree⟩ | ⟨-, -, hfail⟩
    · rw [clash.not_agree hsecond] at hagree
      cases hagree
    · exact hfail site hsite
  | @tail key reader _ hasked ih =>
    obtain ⟨e', he'⟩ := ih
    rcases traced.passed hasked with ⟨v, hv⟩ | hfail | ⟨x, next, hf⟩
    · rw [he'] at hv
      cases hv
    · exact hfail
    · obtain ⟨p, found, -, hqueue⟩ := tidy.waiting hf
      rw [resultOf_of_promise? found] at he'
      have hmem := hqueue (by simp [he']) (by simp)
      rw [finished] at hmem
      cases hmem

/-- What a branch reads is recorded for nobody. -/
theorem Ends.mem_readers_of_branch {c : BranchCheck} {asks : List Event} {s₀ : Run} {r : Outcome}
    (ends : Ends s self (.branch c) asks s₀ r) {key reader : Entry}
    (h : reader ∈ s₀.engine.readers.of key) : reader ∈ s.engine.readers.of key := by
  rcases (ends.readers key reader).mp h with hold | hnew
  · exact hold
  · obtain ⟨_, hasked, -⟩ := ends.asked _ hnew
    cases hasked

/-- The way of a late failure is in the records. -/
theorem reachedBy_of_path {busy : Option TaskId} (tidy : Tidy before busy s)
    (traced : Traced before past s) {c : BranchCheck} {w : Work} {first : Property} {r : Outcome}
    {e : InferError} {site key : Entry} (known : s.tasks.find? self = some ⟨.branch c, w⟩)
    (ended : s.resultOf (.cell c.cell) = some (.ok first)) (clash : Clash c first r e)
    (hsite : c.site = some site) (path : Relation.ReflTransGen s.engine.readers.Edge site key)
    (asks : List Event) : ReachedBy (past ++ (asks ++ [.ended (.branch c) r])) key e := by
  obtain ⟨c₁, hcell, hmem⟩ := traced.first ended
  have hsub : List.Sublist [.ended (.branch c₁) (.ok first), .ended (.branch c) r]
      (past ++ (asks ++ [.ended (.branch c) r])) :=
    (List.singleton_sublist.mpr hmem).append (List.sublist_append_right asks _)
  refine ⟨site, c₁, c, r, first, hsub, hcell, hsite, clash, ?_⟩
  have hpath : Relation.ReflTransGen (AskedBy past) site key ∧ before.find? key = none := by
    induction path with
    | refl => exact ⟨.refl, ((tidy.branches known).2 site hsite).1⟩
    | @tail key reader _ edge ih =>
      rcases traced.recorded edge with hold | hasked
      · exact absurd ih.2 hold
      · exact ⟨ih.1.tail hasked, (traced.noted hasked).2.1⟩
  exact Relation.ReflTransGen.mono (fun _ _ h => List.mem_append_left _ h) _ _ hpath.1

/-! ## The task of the call -/

/-- How the call and the entry that it asks for belong together. -/
inductive Rooted (key : Entry) (past : List Event) (s : Run) : Prop where
  | waiting (task : s.tasks.find? 0 = some ⟨.answer, .waiting (.entry key) .done⟩)
      (outcome : s.outcome = none)
  | answered {p : Property} (gone : ∀ x w, s.tasks.find? x ≠ some ⟨.answer, w⟩)
      (outcome : s.outcome = some (.ok p))
      (result : s.resultOf (.entry key) = some (.ok p)
        ∨ (s.FailedAt (.entry key) ∧ s.detached ≠ [] ∧ Reached past key))
  | failed {e : InferError} (gone : ∀ x w, s.tasks.find? x ≠ some ⟨.answer, w⟩)
      (outcome : s.outcome = some (.error e)) (result : s.FailedAt (.entry key))

namespace Rooted

variable {key : Entry}

theorem alike (h : Rooted key past s) (alike : Alike s t) (log : List Event) :
    Rooted key (past ++ log) t := by
  cases h with
  | waiting task outcome =>
    exact .waiting (alike.tasks ▸ task) (alike.outcome.trans outcome)
  | answered gone outcome result =>
    refine .answered (alike.tasks ▸ gone) (alike.outcome.trans outcome) ?_
    rw [FailedAt, alike.results, alike.detached]
    refine result.imp id ?_
    rintro ⟨hfail, hdetached, hreached⟩
    exact ⟨hfail, hdetached, hreached.append log⟩
  | failed gone outcome result =>
    refine .failed (alike.tasks ▸ gone) (alike.outcome.trans outcome) ?_
    rw [FailedAt, alike.results]
    exact result

/-- Another task ends. -/
theorem ends (h : Rooted key past s) (tidy : Tidy before (some self) s)
    (traced : Traced before past s) {goal : Goal} {asks : List Event} {s₀ : Run} {r : Outcome}
    (ends : Ends s self goal asks s₀ r) (other : goal ≠ .answer) :
    Rooted key (past ++ (asks ++ [.ended goal r])) (s₀.endTask self goal r) := by
  obtain ⟨w, known⟩ := ends.known
  have alike := alike_of_engine ends.same ends.memo
  have ending := ending_endTask s₀ self goal r
  have hresult : ∀ source, (s₀.leave self).resultOf source = s.resultOf source :=
    fun source => (resultOf_leave s₀ self source).trans (alike.results source)
  have htasks : (s₀.endTask self goal r).tasks = s.tasks.erase self := by
    rw [ending.same.1, ← alike.tasks]
    rfl
  have houtcome : (s₀.endTask self goal r).outcome = s.outcome := by
    rcases ending.outcome_eq with hsame | ⟨hgoal, -⟩
    · exact hsame.trans alike.outcome
    · exact absurd hgoal other
  have hgone : (∀ x w, s.tasks.find? x ≠ some ⟨.answer, w⟩) →
      ∀ x w, (s₀.endTask self goal r).tasks.find? x ≠ some ⟨.answer, w⟩ := by
    intro hgone x w hf
    rw [htasks, Table.find?_erase tidy.distinct] at hf
    split at hf
    · cases hf
    · exact hgone x w hf
  have hfailed : s.FailedAt (.entry key) → (s₀.endTask self goal r).FailedAt (.entry key) := by
    rintro ⟨e, he⟩
    exact ending.failedAt ⟨e, (hresult _).trans he⟩
  cases h with
  | waiting task outcome =>
    refine .waiting ?_ (houtcome.trans outcome)
    have hne : self ≠ 0 := by
      rintro rfl
      rw [known] at task
      cases task
      exact other rfl
    rw [htasks, Table.find?_erase_of_ne _ hne, task]
  | @answered p gone outcome result =>
    refine .answered (hgone gone) (houtcome.trans outcome) ?_
    rcases result with hok | ⟨hfail, hdetached, hreached⟩
    · rcases ending.resultOf (.entry key) with
        hsame | ⟨-, hnone, -⟩ | ⟨c, first, e, site, k, rfl, hfirst, clash, hk, -, hnew, hsite, path⟩
      · exact Or.inl (hsame.trans ((hresult _).trans hok))
      · rw [hresult, hok] at hnone
        cases hnone
      · cases hk
        rw [hresult] at hfirst
        have hpath := Relation.ReflTransGen.mono (fun _ _ => ends.mem_readers_of_branch) _ _ path
        refine Or.inr ⟨⟨e, hnew⟩, ?_,
          (reachedBy_of_path tidy traced known hfirst clash hsite hpath asks).reached⟩
        rcases @Ending.changed _ _ _ _ ending (.entry key) (by simp [hnew, hresult, hok]) with
          ⟨hgoal, -⟩ | hdetached | ⟨e', he'⟩
        · cases hgoal
        · exact hdetached
        · rw [houtcome, outcome] at he'
          cases he'
    · refine Or.inr ⟨hfailed hfail, fun hnil => hdetached ?_, hreached.append _⟩
      have hprefix := ending.same.2.2.2.2
      rw [hnil] at hprefix
      exact alike.detached ▸ List.prefix_nil.mp hprefix
  | failed gone outcome result =>
    exact .failed (hgone gone) (houtcome.trans outcome) (hfailed result)

/-- Another task goes on and does not end. -/
theorem stays (h : Rooted key past s) (tidy : Tidy before (some self) s) {goal : Goal} {w : Work}
    {asks log : List Event} {s₁ s₂ : Run} {b : Infer Property} {progress : Progress Property}
    (known : s.tasks.find? self = some ⟨goal, w⟩) (other : goal ≠ .answer)
    (quiet : Quiet goal.reader s asks s₁) (halt : Halt self goal.reader b s₁ log progress s₂)
    (unended : ∀ r, progress ≠ .ended r) :
    Rooted key (past ++ (asks ++ log)) (s₂.settle self goal progress) := by
  have hresult := resultOf_settle quiet halt unended
  obtain ⟨after, hsettle⟩ := exists_settle s₂ self goal unended
  have houtcome : (s₂.settle self goal progress).outcome = s.outcome := by
    rw [hsettle]
    show s₂.outcome = s.outcome
    rw [halt.outcome_eq, quiet.same]
  have hdetached : (s₂.settle self goal progress).detached = s.detached := by
    rw [hsettle]
    show s₂.detached = s.detached
    rw [halt.detached_eq, quiet.same]
  have hgone : (∀ x w, s.tasks.find? x ≠ some ⟨.answer, w⟩) →
      ∀ x w, (s₂.settle self goal progress).tasks.find? x ≠ some ⟨.answer, w⟩ := by
    intro hgone x v hf
    rcases find?_of_settle quiet halt unended hf with ⟨-, rfl⟩ | hf | ⟨source, hsource, -⟩
    · exact other rfl
    · exact hgone x v hf
    · cases hsource
  cases h with
  | waiting task outcome =>
    refine .waiting ?_ (houtcome.trans outcome)
    have hne : self ≠ 0 := by
      rintro rfl
      rw [known] at task
      cases task
      exact other rfl
    exact find?_settle_of_ne tidy quiet halt unended (Ne.symm hne) task
  | answered gone outcome result =>
    refine .answered (hgone gone) (houtcome.trans outcome) ?_
    rw [FailedAt, hresult, hdetached]
    refine result.imp id ?_
    rintro ⟨hfail, hne, hreached⟩
    exact ⟨hfail, hne, hreached.append _⟩
  | failed gone outcome result =>
    refine .failed (hgone gone) (houtcome.trans outcome) ?_
    rw [FailedAt, hresult]
    exact result

/-- The task of the call takes its turn: it waits on, or it ends with what the entry holds. -/
theorem answers (tidy : Tidy before (some 0) s)
    (task : s.tasks.find? 0 = some ⟨.answer, .waiting (.entry key) .done⟩)
    (outcome : s.outcome = none) (turn : Turned s 0 log t) : Rooted key (past ++ log) t := by
  have hgone : ∀ {s₀ : Run} (r : Outcome), s₀.tasks = s.tasks →
      ∀ x w, (s₀.endTask 0 .answer r).tasks.find? x ≠ some ⟨.answer, w⟩ := by
    intro s₀ r htasks x w hf
    replace hf : Table.find? (s₀.tasks.erase 0) x = some ⟨.answer, w⟩ := hf
    rw [htasks, Table.find?_erase tidy.distinct] at hf
    split at hf
    · cases hf
    · rename_i hne
      exact hne (tidy.alone hf task (fun _ => (by simp))).symm
  have hresult : ∀ (s₀ : Run) (r : Outcome) source,
      (s₀.endTask 0 .answer r).resultOf source = s₀.resultOf source :=
    fun s₀ r source => resultOf_congr (by cases source <;> rfl)
  cases turn with
  | absent gone =>
    rw [task] at gone
    cases gone
  | asleep sleeps =>
    rw [task] at sleeps
    cases sleeps
  | unfounded _ _ => exact .alike (.waiting task outcome) (.refl s) []
  | blocked _ found missing => exact .alike (.waiting task outcome) (alike_waitOn found missing 0) []
  | @failed goal source next p e waits found failed =>
    rw [task] at waits
    cases waits
    refine .failed (hgone _ rfl) rfl ⟨e, ?_⟩
    rw [hresult, resultOf_of_promise? found, failed]
  | @moved found body b₁ s₁ s₂ asks log progress known goes steps halt =>
    rw [task] at known
    cases known
    cases goes with
    | @resumed _ _ p v promised ready =>
      cases steps with
      | refl =>
        cases halt with
        | done =>
          refine .answered (hgone _ rfl) rfl (Or.inl ?_)
          exact (hresult s _ _).trans ((resultOf_of_promise? promised).trans ready)
      | head first _ => cases first

/-- Every turn keeps the call and its entry together. -/
theorem turned (h : Rooted key past s) (tidy : Tidy before (some self) s)
    (traced : Traced before past s) (turn : Turned s self log t) : Rooted key (past ++ log) t := by
  by_cases hself : ∃ w, s.tasks.find? self = some ⟨.answer, w⟩
  · obtain ⟨w, hself⟩ := hself
    cases h with
    | waiting task outcome =>
      have heq := tidy.alone hself task (fun _ => (by simp))
      subst heq
      exact answers tidy task outcome turn
    | answered gone outcome result => exact absurd hself (gone self w)
    | failed gone outcome result => exact absurd hself (gone self w)
  · have hother : ∀ {goal w}, s.tasks.find? self = some ⟨goal, w⟩ → goal ≠ .answer := by
      rintro goal w hf rfl
      exact hself ⟨w, hf⟩
    cases turn.move with
    | idle alike => exact h.alike alike []
    | ends ends =>
      obtain ⟨w, known⟩ := ends.known
      exact h.ends tidy traced ends (hother known)
    | stays known _ quiet halt unended => exact h.stays tidy known (hother known) quiet halt unended

end Rooted

/-! ## The whole run -/

theorem offers_asking {e : Engine} {graph : GraphId} {args : List ArgSpec} {track : Track}
    {schedule : Schedule} (offers : (asking e graph args track).schedule.Offers self schedule) :
    self = 0 := by
  have hmem : self ∈ (asking e graph args track).schedule.queue :=
    offers.mem_iff.mp List.mem_cons_self
  exact List.mem_singleton.mp hmem

theorem traced_opening {e : Engine} (settled : e.Settled) (body : Infer Property) :
    Traced e.memo [] (opening e body) := by
  refine ⟨by rintro _ _ ⟨⟩, ?_, by rintro _ _ ⟨⟩, ?_, by rintro _ _ ⟨⟩⟩
  · intro key reader hmem
    refine Or.inl (settled.covered fun hnone => ?_)
    replace hmem : reader ∈ e.readers.of key := hmem
    rw [Readers.of, hnone] at hmem
    cases hmem
  · intro x key w hf
    cases (opening_find? hf).2

theorem alike_scheduled (s : Run) (schedule : Schedule) : Alike s (s.scheduled schedule) := by
  refine ⟨rfl, rfl, rfl, rfl, rfl, fun source => ?_, fun source => ?_⟩
  · exact resultOf_congr (promise?_scheduled s schedule source)
  · rw [promise?_scheduled]

section

variable {e : Engine} {graph : GraphId} {args : List ArgSpec} {track : Track}

/-- Where the run of a call stands: before its first turn, at its end because there is nothing to ask
for, or in between. -/
inductive Stands (e : Engine) (graph : GraphId) (args : List ArgSpec) (track : Track)
    (past : List Event) (s : Run) : Prop where
  | before (start : s = asking e graph args track) (fresh : past = []) :
      Stands e graph args track past s
  | refused {err : InferError} (asks : (target e graph args track).1 = .error err)
      (grown : (target e graph args track).2.Extends s.engine) (gone : s.tasks = [])
      (outcome : s.outcome = some (.error err)) : Stands e graph args track past s
  | rooted {key : Entry} (asks : (target e graph args track).1 = .ok key)
      (grown : (target e graph args track).2.Extends s.engine) (rooted : Rooted key past s) :
      Stands e graph args track past s

/-- The first turn. -/
theorem stands_of_first (apt : e.Apt) (settled : e.Settled) {schedule : Schedule}
    (turned : Turned ((asking e graph args track).scheduled schedule) 0 log t) :
    Stands e graph args track log t := by
  have hturn := turn_of_turned rfl turned
  have hmemo : (target e graph args track).2.memo = e.memo :=
    (target_grows e graph args track).memo.trans (EngineM.grows_graphInferrer track graph .empty e).memo
  rcases htarget : target e graph args track with ⟨r, f⟩
  rw [htarget] at hmemo
  have hgone : ∀ (r : Outcome), (endTask { (asking e graph args track).scheduled schedule with
      engine := f } 0 .answer r).tasks = [] := fun _ => rfl
  have hnone : ∀ {u : Run}, u.tasks = [] → ∀ x w, u.tasks.find? x ≠ some ⟨.answer, w⟩ := by
    intro u hu x w hf
    rw [hu] at hf
    cases hf
  cases r with
  | error err =>
    rw [turn_of_atOnce apt (.refused htarget), Option.some.injEq] at hturn
    subst hturn
    refine .refused (congrArg Prod.fst htarget) ?_ (hgone _) rfl
    rw [htarget]
    exact .refl f
  | ok key =>
    cases found : f.memo.find? key with
    | none =>
      rw [turn_of_absent apt htarget found, Option.some.injEq] at hturn
      subst hturn
      refine .rooted (congrArg Prod.fst htarget) ?_ (.waiting rfl rfl)
      rw [htarget]
      exact (Engine.Follows.refl.results _ f.readers f.diagnostics).extends
    | some p =>
      obtain ⟨r, ready⟩ := Option.ne_none_iff_exists'.mp (settled.resolved (hmemo ▸ found))
      rw [turn_of_atOnce apt (.known htarget found ready), Option.some.injEq] at hturn
      subst hturn
      refine .rooted (congrArg Prod.fst htarget) (by rw [htarget]; exact .refl f) ?_
      have hresult : ∀ {v : Outcome}, p.result = some v →
          resultOf (endTask { (asking e graph args track).scheduled schedule with engine := f } 0
            .answer v) (.entry key) = some v := by
        intro v hv
        have found : promise? (endTask { (asking e graph args track).scheduled schedule with
          engine := f } 0 .answer v) (.entry key) = some p := found
        exact (resultOf_of_promise? found).trans hv
      cases r with
      | ok v => exact .answered (hnone (hgone _)) rfl (Or.inl (hresult ready))
      | error err => exact .failed (hnone (hgone _)) rfl ⟨err, hresult ready⟩

/-- Every turn leaves the call somewhere. -/
theorem Stands.turned (h : Stands e graph args track past s) (apt : e.Apt) (settled : e.Settled)
    (tidy : Tidy before none s) (traced : Traced before past s) {schedule : Schedule}
    (offers : s.schedule.Offers self schedule) (turn : Turned (s.scheduled schedule) self log t) :
    Stands e graph args track (past ++ log) t := by
  cases h with
  | before start fresh =>
    subst start fresh
    have hself := offers_asking offers
    subst hself
    exact stands_of_first apt settled turn
  | refused asks grown gone outcome =>
    have hnone : (s.scheduled schedule).tasks.find? self = none := by
      show Table.find? s.tasks self = none
      rw [gone]
      rfl
    cases turn with
    | absent _ => exact .refused asks grown gone outcome
    | asleep task => rw [hnone] at task; cases task
    | unfounded task _ => rw [hnone] at task; cases task
    | blocked task _ _ => rw [hnone] at task; cases task
    | failed task _ _ => rw [hnone] at task; cases task
    | moved found _ _ _ => rw [hnone] at found; cases found
  | rooted asks grown rooted =>
    have rooted := rooted.alike (alike_scheduled s schedule) []
    rw [List.append_nil] at rooted
    exact .rooted asks (grown.trans turn.follows.extends)
      (rooted.turned (tidy.offered offers) (traced.alike (alike_scheduled s schedule) rfl) turn)

/-- The account of the whole run of a call. -/
theorem stands_polls (arises : e.Arises) (polls : Polls (asking e graph args track) log s) :
    Kept e.memo log s ∧ Traced e.memo log s ∧ Stands e graph args track log s := by
  have hmemo : ((EngineM.graphInferrer track graph .empty).run e).2.memo = e.memo :=
    (EngineM.grows_graphInferrer track graph .empty e).memo
  have settled : ((EngineM.graphInferrer track graph .empty).run e).2.Settled :=
    (arises.answered (.graphInferrer track graph .empty)).settled
  have traced := traced_opening settled (Infer.callInferrer
    ((EngineM.graphInferrer track graph .empty).run e).1 (args.map ArgSpec.toRef))
  have kept := kept_opening ((EngineM.graphInferrer track graph .empty).run e).2
    (Infer.callInferrer ((EngineM.graphInferrer track graph .empty).run e).1
      (args.map ArgSpec.toRef))
  rw [hmemo] at traced kept
  refine Polls.invariant (fun past s => Kept e.memo past s
    ∧ Traced e.memo past s ∧ Stands e graph args track past s) ?_ [] polls
    ⟨kept, traced, .before rfl rfl⟩
  rintro past log s t self schedule ⟨kept, traced, stands⟩ offers turn
  exact ⟨kept.turned offers turn,
    (traced.alike (alike_scheduled s schedule) rfl).turned (kept.tidy.offered offers) turn,
    stands.turned arises.apt arises.settled kept.tidy traced offers turn⟩

theorem graphInferrer_program (e : Engine) (track : Track) (graph : GraphId) (ctx : Context) :
    ((EngineM.graphInferrer track graph ctx).run e).2.program = e.program := by
  rw [EngineM.graphInferrer_run]
  cases e.inferrers.find? { track, callee := .graph graph, ctx } <;> rfl

/-- The next call asks for the same. -/
theorem target_close (complete : e.program.Complete) (known : graph.index < e.program.graphs.size)
    (grown : (target e graph args track).2.Extends s.engine)
    (limit : s.engine.specializationCount graph ≤ s.engine.config.maxSpecializations) :
    target s.close graph args track = ((target e graph args track).1, s.close) := by
  have hclose := grown.trans (follows_close s).extends
  have hagain := Engine.graphInferrer_again
    ((target_grows e graph args track).toExtends.trans hclose)
  rw [← graphInferrer_program e track graph .empty] at complete known
  have htarget := Engine.target_again complete known hclose limit
  rw [target, hagain]
  exact htarget

theorem find?_close (distinct : s.Distinct) {key : Entry} {r : Outcome}
    (h : s.resultOf (.entry key) = some r) :
    ∃ p, s.close.memo.find? key = some p ∧ p.result = some r := by
  obtain ⟨p, found, ready⟩ := exists_promise_of_resultOf h
  have found : s.engine.memo.find? key = some p := found
  refine ⟨p, ?_, ready⟩
  show Table.find? (s.engine.memo.filter fun q => q.2.isResolved) key = some p
  rw [Table.find?_filter distinct.1, found, Option.filter_some, if_pos]
  show p.result.isSome = true
  rw [ready]
  rfl

/-- What becomes of a call that is made again after a run that was answered, whatever the order of
its turns. A success is found again. After a failure the call succeeds exactly if the first run had
a property and no late failure has reached the entry that the call asks for, by reads of this entry
and of those that it depends on. Every entry that a late failure has reached in this way has failed. -/
theorem again_after_answer (arises : e.Arises) (complete : e.program.Complete)
    (known : graph.index < e.program.graphs.size)
    (polls : Polls (asking e graph args track) log s) (finished : s.Finished)
    (limit : s.engine.specializationCount graph ≤ s.engine.config.maxSpecializations)
    (answered : s.outcome ≠ none) :
    (∃ r e', s.close.inferTrack? graph args track = some (r, e')
      ∧ (∀ p, s.result = .ok p → r = .ok p)
      ∧ (∀ err, s.result = .error err → ((∃ p, r = .ok p) ↔ (∃ p, s.outcome = some (.ok p))
          ∧ ∀ key, (target e graph args track).1 = .ok key → ¬ Reached log key)))
      ∧ ∀ key, Reached log key → s.close.memo.Failed key := by
  obtain ⟨kept, traced, stands⟩ := stands_polls arises polls
  obtain ⟨base, paired⟩ := kept.paired
  have settled : ((EngineM.graphInferrer track graph .empty).run e).2.Settled :=
    (arises.answered (.graphInferrer track graph .empty)).settled
  have distinct : s.Distinct :=
    Distinct.polls (s := asking e graph args track) ⟨settled.memo, settled.readers⟩ polls
  have apt : s.close.Apt := (polls.follows.trans (follows_close s)).apt
    ((Engine.Follows.refl.answer (.graphInferrer track graph .empty)).apt arises.apt)
  have hreached : ∀ {key}, Reached log key → s.FailedAt (.entry key) :=
    fun h => failedAt_of_reached kept.tidy paired traced finished h
  refine ⟨?_, ?_⟩
  · cases stands with
    | before start fresh =>
      subst start
      cases finished
    | @refused err asks grown gone outcome =>
      have hclose := target_close complete known grown limit
      rw [asks] at hclose
      obtain ⟨e', he'⟩ := inferTrack?_of_atOnce apt (.refused hclose)
      refine ⟨_, e', he', ?_, ?_⟩
      · intro p hp
        rw [result, outcome] at hp
        cases hp
      · intro _ _
        constructor
        · rintro ⟨p, hp⟩
          cases hp
        · rintro ⟨⟨p, hp⟩, -⟩
          rw [outcome] at hp
          cases hp
    | @rooted key asks grown rooted =>
      have hclose := target_close complete known grown limit
      rw [asks] at hclose
      cases rooted with
      | waiting task outcome => exact absurd outcome answered
      | @failed err gone outcome result =>
        obtain ⟨e₁, he₁⟩ := result
        obtain ⟨q, found, ready⟩ := find?_close distinct he₁
        obtain ⟨e', he'⟩ := inferTrack?_of_atOnce apt (.known hclose found ready)
        refine ⟨_, e', he', ?_, ?_⟩
        · intro p hp
          rw [Run.result, outcome] at hp
          cases hp
        · intro _ _
          constructor
          · rintro ⟨p, hp⟩
            cases hp
          · rintro ⟨⟨p, hp⟩, -⟩
            rw [outcome] at hp
            cases hp
      | @answered p gone outcome result =>
        rcases result with hok | ⟨⟨e₁, he₁⟩, hdetached, hlate⟩
        · obtain ⟨q, found, ready⟩ := find?_close distinct hok
          obtain ⟨e', he'⟩ := inferTrack?_of_atOnce apt (.known hclose found ready)
          refine ⟨_, e', he', ?_, ?_⟩
          · intro p' hp'
            rw [Run.result, outcome] at hp'
            cases hdetached : s.detached with
            | nil =>
              simp only [hdetached] at hp'
              exact hp'
            | cons first rest =>
              simp only [hdetached] at hp'
              cases hp'
          · intro _ _
            refine ⟨fun _ => ⟨⟨p, outcome⟩, ?_⟩, fun _ => ⟨p, rfl⟩⟩
            intro k hk hlate
            rw [asks] at hk
            cases hk
            obtain ⟨e₁, he₁⟩ := hreached hlate
            rw [hok] at he₁
            cases he₁
        · obtain ⟨q, found, ready⟩ := find?_close distinct he₁
          obtain ⟨e', he'⟩ := inferTrack?_of_atOnce apt (.known hclose found ready)
          refine ⟨_, e', he', ?_, ?_⟩
          · intro p' hp'
            exact absurd (Or.inl hdetached) (no_trouble_of_ok hp')
          · intro _ _
            constructor
            · rintro ⟨p, hp⟩
              cases hp
            · rintro ⟨-, hnot⟩
              exact absurd hlate (hnot key asks)
  · intro key h
    obtain ⟨e', he'⟩ := hreached h
    obtain ⟨p, found, ready⟩ := find?_close distinct he'
    exact ⟨p, e', found, ready⟩

end

/-- A node that belongs to a graph. -/
def inner (graph : Nat) (kind : NodeKind) : Node :=
  { kind, owner := some ⟨graph⟩, name := none }

/-- A constant. -/
def outer (value : Constant) : Node :=
  { kind := .constant value, owner := none, name := none }

/-- Conditionals over one unknown condition, one inside the other. The branches of the inner one are
a number and, at the end of a long way, a text; by then the outer one has its property. -/
def lateClash : Program where
  graphs :=
    #[⟨"main", none, [⟨0⟩], some ⟨19⟩⟩, ⟨"left", some ⟨0⟩, [], some ⟨14⟩⟩,
      ⟨"right", some ⟨0⟩, [], some ⟨15⟩⟩, ⟨"quick", some ⟨1⟩, [], some ⟨1⟩⟩,
      ⟨"slow", some ⟨1⟩, [], some ⟨10⟩⟩]
  nodes :=
    #[inner 0 (.parameter ⟨0⟩ 0), outer (.int 1), outer (.str "s"),
      outer (.primitive .identity), inner 4 (.apply [⟨3⟩, ⟨2⟩]),
      outer (.primitive .identity), inner 4 (.apply [⟨5⟩, ⟨4⟩]),
      outer (.primitive .identity), inner 4 (.apply [⟨7⟩, ⟨6⟩]),
      outer (.primitive .identity), inner 4 (.apply [⟨9⟩, ⟨8⟩]),
      outer (.graph ⟨3⟩), outer (.graph ⟨4⟩),
      outer (.primitive .ifElse), inner 1 (.apply [⟨13⟩, ⟨0⟩, ⟨11⟩, ⟨12⟩]),
      outer (.int 2), outer (.graph ⟨1⟩), outer (.graph ⟨2⟩),
      outer (.primitive .ifElse), inner 0 (.apply [⟨18⟩, ⟨0⟩, ⟨16⟩, ⟨17⟩])]

theorem complete_lateClash : lateClash.Complete where
  outputs := by
    intro i g output hi hg
    match i with
    | 0 | 1 | 2 | 3 | 4 =>
      cases hi
      cases hg
      decide
  constants := by
    intro i n g hi hn
    match i with
    | 0 | 1 | 2 | 3 | 4 | 5 | 6 | 7 | 8 | 9 | 10 | 11 | 12 | 13 | 14 | 15 | 16 | 17 | 18 | 19 =>
      cases hi
      cases hn <;> decide

/-- The first call of `lateClash` fails although it has found a property, and the second one
succeeds. -/
theorem again_after_lateClash :
    ∃ log s, Polls (asking (.new lateClash (.empty ⟨0⟩) .standard) ⟨0⟩ [someBool] .type) log s
      ∧ s.Finished ∧ s.outcome = some (.ok (.type (.int ⟨0⟩ 64)))
      ∧ (∃ err, s.result = .error err)
      ∧ (∃ e', s.close.inferTrack? ⟨0⟩ [someBool] .type = some (.ok (.type (.int ⟨0⟩ 64)), e'))
      ∧ (∃ r e', s.close.inferTrack? ⟨0⟩ [someBool] .type = some (r, e')
        ∧ (∀ p, s.result = .ok p → r = .ok p)
        ∧ (∀ err, s.result = .error err → ((∃ p, r = .ok p) ↔ (∃ p, s.outcome = some (.ok p))
          ∧ ∀ key, (target (.new lateClash (.empty ⟨0⟩) .standard) ⟨0⟩ [someBool] .type).1 = .ok key →
            ¬ Reached log key)))
      ∧ ∀ key, Reached log key → s.close.memo.Failed key := by
  have hrun : (driveWithin 20 100
      (asking (.new lateClash (.empty ⟨0⟩) .standard) ⟨0⟩ [someBool] .type)).map
        (fun t => (t.outcome.bind Except.toOption, t.result.toOption,
          decide (t.engine.specializationCount ⟨0⟩ ≤ t.engine.config.maxSpecializations),
          (driveWithin 20 100 (asking t.close ⟨0⟩ [someBool] .type)).map fun u => u.result.toOption))
        = some (some (.type (.int ⟨0⟩ 64)), none, true, some (some (.type (.int ⟨0⟩ 64)))) := by
    decide +kernel
  obtain ⟨log, s, polls, finished, hseen⟩ := exists_polls_of_driveWithin rfl hrun
  simp only [Prod.mk.injEq] at hseen
  obtain ⟨houtcome, hresult, hlimit, hagain⟩ := hseen
  obtain ⟨r, hr, hok⟩ := Option.bind_eq_some_iff.mp houtcome
  rw [eq_ok_of_toOption hok] at hr
  have failed : ∃ err, s.result = .error err := by
    cases h : s.result with
    | ok p =>
      rw [h] at hresult
      cases hresult
    | error err => exact ⟨err, rfl⟩
  obtain ⟨u, hdrive, hu⟩ := Option.map_eq_some_iff.mp hagain
  have hsecond : s.close.inferTrack? ⟨0⟩ [someBool] .type
      = some (.ok (.type (.int ⟨0⟩ 64)), u.close) := by
    rw [inferTrack?_eq, drive_of_driveWithin hdrive, Option.map_some, eq_ok_of_toOption hu]
  exact ⟨log, s, polls, finished, hr, failed, ⟨_, hsecond⟩,
    again_after_answer (.new _ _ _) complete_lateClash (by decide) polls finished
      (of_decide_eq_true hlimit) (by simp [hr])⟩

end Run

end ArrayInference
