import ArrayInference.Proofs.Exchange.Passes
import ArrayInference.Proofs.Lockstep.Abreast

/-!
# The same turns in both runs

As long as the conditions that are known to be true or false turn out to be so, whatever a task does
in its turn, the task with the same number does in the other run. So both runs go on forever, or
both come to an end, and they are abreast then.
-/

namespace ArrayInference

namespace Overlap

variable (x : Overlap)

/-- What is known of the conditionals agrees with all results so far. -/
def Informs (s : Run) : Prop :=
  ∀ (key : Entry) (v : Property), s.resultOf (.entry key) = some (.ok v) → x.Learned s.engine key v

/-- How turns of tasks that belong together go on in two runs. -/
inductive Advanced : Run.Progress Property × Run → Run.Progress Property × Run → Prop where
  | ended {r r' : Outcome} {s t : Run} (same : x.SameOutcome r r') (h : x.Abreast s t) :
      Advanced (.ended r, s) (.ended r', t)
  | waiting {source source' : Source} {next next' : Property → Infer Property} {s t : Run}
      (later : x.SameWork s.engine (.waiting source next) (.waiting source' next'))
      (h : x.Abreast s t) : Advanced (.waiting source next, s) (.waiting source' next', t)
  | calling {b b' : Infer Property} {s t : Run} (later : x.SameWork s.engine (.ready b) (.ready b'))
      (h : x.Abreast s t) (informs : x.Informs s) : Advanced (.calling b, s) (.calling b', t)
  | forever {s t : Run} (h : x.Abreast s t) : Advanced (.forever, s) (.forever, t)

variable {x} {s t : Run} {self : TaskId} {reader reader' : Option Entry} {b b' : Infer Property}

theorem Learned.mono {e e₁ : Engine} {key : Entry} {v : Property} (h : x.Learned e key v)
    (later : e.Extends e₁) : x.Learned e₁ key v where
  callee := fun decides own => (h.callee decides own).mono later
  condition := h.condition

theorem Informs.later {s₁ : Run} (h : x.Informs s)
    (results : ∀ source, s₁.resultOf source = s.resultOf source)
    (follows : s.engine.Follows s₁.engine) : x.Informs s₁ :=
  fun key v hv => (h key v ((results _).symm.trans hv)).mono follows.extends

/-- Computations in step take the same steps up to the next call, or to the end of the turn. -/
theorem Kin.advance {e : Engine} (h : x.Kin x.SameProperty e b b')
    (hreader : x.SameEntry? reader reader') :
    ∀ s t : Run, s.engine = e → x.Abreast s t → x.Informs s →
      x.Advanced (Run.advance self reader b s) (Run.advance self reader' b' t) := by
  induction h with
  | done same =>
    rintro s t - abreast -
    obtain ⟨rfl, own⟩ := same
    exact .ended (.ok own) abreast
  | fail err =>
    rintro s t - abreast -
    exact .ended (.error (.inl rfl)) abreast
  | forever =>
    rintro s t - abreast -
    exact .forever abreast
  | @ask e q q' R next next' asks later ih =>
    rintro s t rfl abreast informs
    have grows := EngineM.grows_answer q s.engine
    have same := (abreast.engines.answer abreast.apt asks).2
    refine ih _ grows.toExtends _ _ same (s.afterAnswer q) (t.afterAnswer q') rfl
      (abreast.afterAnswer asks) ?_
    exact informs.later (fun source => Run.resultOf_congr (by
      cases source with
      | entry key =>
        show (s.afterAnswer q).engine.memo.find? key = _
        rw [Run.afterAnswer_memo]
        rfl
      | cell id => rfl)) (Engine.Follows.refl.answer q)
  | @demand e r track next next' knows later ih =>
    rintro s t rfl abreast informs
    have own : x.Carries (⟨r, track⟩ : Entry).ref := knows.carries
    show x.Advanced _ (Run.advance self reader' (.demand (x.entry ⟨r, track⟩) next') t)
    have read := abreast.addReader own hreader
    have follows := Run.follows_addReader s ⟨r, track⟩ reader
    have work : ∀ {s₁ : Run}, s.engine.Follows s₁.engine →
        x.SameWork s₁.engine (.waiting (.entry ⟨r, track⟩) next)
          (.waiting (.entry (x.entry ⟨r, track⟩)) next') :=
      fun follows => .waiting (.entry own) fun e₁ more v hv learned =>
        later e₁ (follows.extends.trans more) v hv (learned _ rfl)
    have promises := abreast.promises (.entry own)
    generalize found : s.promise? (.entry ⟨r, track⟩) = p,
      found' : t.promise? (.entry (x.entry ⟨r, track⟩)) = p' at promises
    cases promises with
    | none =>
      rw [Run.advance_of_halt abreast.active (.begin found),
        Run.advance_of_halt abreast.active' (.begin found')]
      refine .waiting (work ?_) (read.beginEntry self (knows.mono follows.extends.program) track)
      exact follows.results _ _ _
    | @some p p' hp =>
      have hresult := hp.result
      generalize ready : p.result = out, ready' : p'.result = out' at hresult
      cases hresult with
      | none =>
        rw [Run.advance_of_halt abreast.active (.wait found ready),
          Run.advance_of_halt abreast.active' (.wait found' ready')]
        refine .waiting (work ?_) (read.waitOn self (.entry own) hp)
        exact follows.trans (Run.follows_setPromise _ _ _)
      | some hout =>
        cases hout with
        | error same =>
          rw [Run.advance_of_halt abreast.active (.readFailed found ready),
            Run.advance_of_halt abreast.active' (.readFailed found' ready')]
          exact .ended (.error same) read
        | @ok v hv =>
          rw [Run.advance_of_read found ready, Run.advance_of_read found' ready']
          have informs' : x.Informs (s.addReader ⟨r, track⟩ reader) :=
            informs.later (Run.resultOf_addReader s _ reader) follows
          have hresult : s.resultOf (.entry ⟨r, track⟩) = some (.ok v) :=
            (Run.resultOf_of_promise? found).trans ready
          have learned := (informs _ v hresult).mono follows.extends
          exact ih _ follows.extends v hv learned _ _ rfl read informs'
  | @call e f args args' next next' same later ih =>
    rintro s t rfl abreast informs
    rw [Run.advance, Run.advance]
    cases found : s.engine.callable? f with
    | none =>
      rw [show t.engine.callable? f = none from abreast.engines.callable_of_none found]
      exact .ended (.error (.inl rfl)) abreast
    | some c =>
      obtain ⟨c', found', hc⟩ := abreast.engines.callable_of_some found
      rw [show t.engine.callable? f = some c' from found']
      refine .calling (.ready fun e₁ more => ?_) abreast informs
      refine (kin_body (hc.mono more.program) (forall_pairs_mono same more.program)).bind
        fun e₂ more' v v' hv => ?_
      obtain ⟨rfl, own⟩ := hv
      exact later e₂ (more.trans more') _ own
  | @known e f f' args args' next next' c id found later ih =>
    rintro s t rfl abreast informs
    obtain ⟨c', found', hc⟩ := abreast.engines.callable_of_some found
    rw [Run.advance, Run.advance, found,
      show t.engine.callable? f' = some c' from (congrArg (t.engine.callables[·]?) id).trans found']
    exact .calling (.ready fun e₁ more => later e₁ more c' (hc.mono more.program)) abreast informs
  | @unify e track use y y' z z' next next' same same' later ih =>
    rintro s t rfl abreast informs
    rw [Run.advance_of_halt abreast.active (.race track use y z next s),
      Run.advance_of_halt abreast.active' (.race track use y' z' next' t), abreast.size]
    refine .waiting (.waiting (.cell _) fun e₁ more v hv _ => ?_)
      (abreast.beginRace self hreader track use same same')
    have follows : s.engine.Follows (s.beginRace self reader track use y z).engine :=
      Run.follows_setPromise (s.race reader track use y z).2 _ _
    exact later e₁ (follows.extends.trans more) v hv

/-! ## Turns -/

theorem rel_of_some {α β : Type} {R : α → β → Prop} {p : Option α} {q : Option β}
    (h : ∀ a, p = some a → ∃ b, q = some b ∧ R a b) (h' : ∀ b, q = some b → ∃ a, p = some a) :
    Option.Rel R p q := by
  cases p with
  | some a =>
    obtain ⟨b, rfl, same⟩ := h a rfl
    exact .some same
  | none =>
    cases q with
    | none => exact .none
    | some b =>
      obtain ⟨a, ha⟩ := h' b rfl
      cases ha

/-- Computations in step make the same calls in a turn. -/
theorem Kin.work (hreader : x.SameEntry? reader reader') (kin : x.Kin x.SameProperty s.engine b b')
    (abreast : x.Abreast s t) (informs : x.Informs s) :
    Option.Rel x.Advanced (Run.work self reader b s) (Run.work self reader' b' t) := by
  refine rel_of_some (fun out hout => ?_) fun out' hout' => ?_
  · refine Run.work.partial_correctness self reader
      (fun b s out => ∀ b' t, x.Kin x.SameProperty s.engine b b' → x.Abreast s t → x.Informs s →
        ∃ out', Run.work self reader' b' t = some out' ∧ x.Advanced out out')
      ?_ b s out hout b' t kin
      abreast informs
    intro recurse ih b s out hout b' t kin abreast informs
    have advanced := @Kin.advance x self reader reader' b b' _ kin hreader s t rfl abreast informs
    rw [Run.work.eq_def]
    generalize Run.advance self reader b s = stop, Run.advance self reader' b' t = stop'
      at advanced hout
    cases advanced with
    | calling later abreast informs =>
      cases later with
      | ready kin => exact ih _ _ out hout _ _ (kin _ (.refl _)) abreast informs
    | ended same abreast =>
      cases hout
      exact ⟨_, rfl, .ended same abreast⟩
    | waiting later abreast =>
      cases hout
      exact ⟨_, rfl, .waiting later abreast⟩
    | forever abreast =>
      cases hout
      exact ⟨_, rfl, .forever abreast⟩
  · refine Run.work.partial_correctness self reader'
      (fun b' t _ => ∀ b s, x.Kin x.SameProperty s.engine b b' → x.Abreast s t → x.Informs s →
        ∃ out, Run.work self reader b s = some out) ?_ b' t out' hout' b s kin abreast informs
    intro recurse ih b' t out' hout' b s kin abreast informs
    have advanced := @Kin.advance x self reader reader' b b' _ kin hreader s t rfl abreast informs
    rw [Run.work.eq_def]
    generalize Run.advance self reader b s = stop, Run.advance self reader' b' t = stop'
      at advanced hout'
    cases advanced with
    | calling later abreast informs =>
      cases later with
      | ready kin => exact ih _ _ out' hout' _ _ (kin _ (.refl _)) abreast informs
    | _ => exact ⟨_, rfl⟩

theorem Advanced.settle {out out' : Run.Progress Property × Run} (h : x.Advanced out out')
    (self : TaskId) {goal goal' : Goal} (same : x.SameGoal goal goal') :
    x.Abreast (out.2.settle self goal out.1) (out'.2.settle self goal' out'.1) := by
  cases h with
  | ended hr abreast => exact abreast.endTask self same hr
  | waiting later abreast => exact abreast.setTask ⟨same, later⟩
  | calling later abreast => exact abreast.setTask ⟨same, later⟩
  | forever abreast => exact abreast.setTask ⟨same, .forever⟩

/-- The tasks with the same number take the same turn. -/
theorem Abreast.turn (h : x.Abreast s t) (informs : x.Informs s) (self : TaskId) :
    Option.Rel x.Abreast (Run.turn s self) (Run.turn t self) := by
  have tasks := h.tasks self
  rw [Run.turn, Run.turn]
  generalize s.tasks.find? self = task, t.tasks.find? self = task' at tasks
  cases tasks with
  | none => exact .some h
  | @some task task' same =>
    obtain ⟨goal, work⟩ := task
    obtain ⟨goal', work'⟩ := task'
    obtain ⟨hgoal, hwork⟩ := same
    -- a task that goes on is left where its turn has brought it
    have go : ∀ {b b' : Infer Property}, x.Kin x.SameProperty s.engine b b' →
        Option.Rel x.Abreast
          ((Run.work self goal.reader b s).map fun out => out.2.settle self goal out.1)
          ((Run.work self goal'.reader b' t).map fun out => out.2.settle self goal' out.1) := by
      intro b b' kin
      have advanced := @Kin.work x s t self _ _ b b' hgoal.reader kin h informs
      generalize Run.work self goal.reader b s = out,
        Run.work self goal'.reader b' t = out' at advanced
      cases advanced with
      | none => exact .none
      | some advanced => exact .some (advanced.settle self hgoal)
    dsimp only at hwork ⊢
    cases hwork with
    | ready kin => exact go (kin _ (.refl _))
    | forever => exact .some h
    | @waiting source source' next next' same later =>
      have promises := h.promises same
      generalize found : s.promise? source = p, found' : t.promise? source' = p' at promises
      cases promises with
      | none =>
        have hs : s.await self source = (none, s) := by rw [Run.await, found]
        have ht : t.await self source' = (none, t) := by rw [Run.await, found']
        simp only [hs, ht]
        exact .some h
      | @some p p' hp =>
        have hresult := hp.result
        generalize ready : p.result = out, ready' : p'.result = out' at hresult
        cases hresult with
        | none =>
          simp only [Run.await_of_pending found ready, Run.await_of_pending found' ready']
          exact .some (h.waitOn self same hp)
        | some hout =>
          simp only [Run.await_of_result found ready, Run.await_of_result found' ready']
          cases hout with
          | error herr => exact .some (h.endTask self hgoal (.error herr))
          | @ok v own =>
            refine go (later _ (.refl _) v own fun key hkey => informs key v ?_)
            subst hkey
            exact (Run.resultOf_of_promise? found).trans ready

/-! ## Runs -/

/-- The schedules change in the same way. -/
theorem Abreast.scheduled (h : x.Abreast s t) (schedule : Schedule) :
    x.Abreast (s.scheduled schedule) (t.scheduled schedule) :=
  { h with schedule := rfl }

theorem Informs.scheduled (h : x.Informs s) (schedule : Schedule) :
    x.Informs (s.scheduled schedule) :=
  h.later (fun source => Run.resultOf_congr (Run.promise?_scheduled s schedule source)) .refl

/-- One run is never where the other one cannot be. -/
theorem Abreast.driven {u : Run} (driven : Run.Driven s u) :
    ∀ {t : Run}, x.Abreast s t → (∀ v, Run.Driven s v → x.Informs v) →
      ∃ u', Run.Driven t u' ∧ x.Abreast u u' := by
  induction driven with
  | rest s => exact fun h _ => ⟨_, .rest _, h⟩
  | @turn s s₁ u self schedule offered turned later ih =>
    intro t h informs
    have rel := (h.scheduled schedule).turn ((informs s (.rest s)).scheduled schedule) self
    rw [turned] at rel
    obtain ⟨t₁, turned', h₁⟩ := exists_of_rel_some rel
    obtain ⟨u', driven', hu⟩ := ih h₁ fun v hv => informs v (.turn offered turned hv)
    exact ⟨u', .turn (h.schedule ▸ offered) turned' driven', hu⟩

/-- Both runs end, or none of them does. -/
theorem Abreast.drive (h : x.Abreast s t) (informs : ∀ u, Run.Driven s u → x.Informs u) :
    Option.Rel x.Abreast (Run.drive s) (Run.drive t) := by
  have turn : ∀ {s t : Run} {self : TaskId} {schedule : Schedule}, x.Abreast s t → x.Informs s →
      Option.Rel x.Abreast (Run.turn { s with schedule } self)
        (Run.turn { t with schedule } self) :=
    fun h informs => (h.scheduled _).turn (informs.scheduled _) _
  refine rel_of_some (fun out hout => ?_) fun out' hout' => ?_
  · refine Run.drive.partial_correctness
      (fun s out => ∀ t, x.Abreast s t → (∀ u, Run.Driven s u → x.Informs u) →
        ∃ out', Run.drive t = some out' ∧ x.Abreast out out') ?_ s out hout t h informs
    intro recurse ih s out hout t h informs
    rw [Run.drive.eq_def, h.schedule]
    cases hnext : s.schedule.next? with
    | none =>
      simp only [hnext, Option.some.injEq] at hout
      exact ⟨t, rfl, hout ▸ h⟩
    | some pair =>
      obtain ⟨self, schedule⟩ := pair
      have rel := @turn _ _ self schedule h (informs s (.rest s))
      simp only [hnext] at hout ⊢
      generalize hs : Run.turn { s with schedule } self = next,
        ht : Run.turn { t with schedule } self = next' at rel
      cases rel with
      | none =>
        simp only [hs] at hout
        cases hout
      | some h₁ =>
        simp only [hs] at hout
        exact ih _ out hout _ h₁ fun v hv => informs v (.turn hnext hs hv)
  · refine Run.drive.partial_correctness
      (fun t _ => ∀ s, x.Abreast s t → (∀ u, Run.Driven s u → x.Informs u) →
        ∃ out, Run.drive s = some out) ?_ t out' hout' s h informs
    intro recurse ih t out' hout' s h informs
    rw [Run.drive.eq_def]
    rw [h.schedule] at hout'
    cases hnext : s.schedule.next? with
    | none => exact ⟨s, rfl⟩
    | some pair =>
      obtain ⟨self, schedule⟩ := pair
      have rel := @turn _ _ self schedule h (informs s (.rest s))
      simp only [hnext] at hout' ⊢
      generalize hs : Run.turn { s with schedule } self = next,
        ht : Run.turn { t with schedule } self = next' at rel
      cases rel with
      | none =>
        simp only [ht] at hout'
        cases hout'
      | some h₁ =>
        simp only [ht] at hout'
        exact ih _ out' hout' _ h₁ fun v hv => informs v (.turn hnext hs hv)

/-- What runs that are over have found. -/
theorem Abreast.result (h : x.Abreast s t) : x.SameOutcome s.result t.result := by
  have outcome := h.outcome
  have detached := h.detached
  rw [Run.result, Run.result]
  generalize s.outcome = out, t.outcome = out' at outcome
  generalize s.detached = errs, t.detached = errs' at detached
  cases outcome with
  | none => exact .error (.inl rfl)
  | some same =>
    cases same with
    | error herr => exact .error herr
    | ok own =>
      cases detached with
      | nil => exact .ok own
      | cons herr _ => exact .error herr

end Overlap

end ArrayInference
