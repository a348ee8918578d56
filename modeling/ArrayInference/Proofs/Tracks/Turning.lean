import ArrayInference.Proofs.Tracks.Charting

/-!
# Every turn keeps the ledger

The last step of a turn, the end of a task, and from these the turns of a run in any order.
-/

namespace ArrayInference

namespace Ledger

variable {v w : Ledger} {s t : Run} {goal : Goal} {self : TaskId} {reader : Option Entry}
  {log : List Event} {b : Infer Property} {progress : Run.Progress Property}

/-! ## The last step of a turn -/

theorem Manned.spawn (h : w.Manned s) {goal : Goal} {body : Infer Property} (fine : w.Fine goal body) :
    w.Manned (s.spawn goal body) := by
  intro x task there
  rcases Table.mem_insert there with same | there
  · cases same
    exact fine
  · exact h x task there

theorem awaits_of_demand {key : Entry} {next : Property → Infer Property}
    (fine : w.Fine goal (.demand key next)) : w.Awaits goal (.entry key) next := by
  obtain ⟨tame, leads⟩ := fine
  cases tame with
  | demand good later =>
    intro v p le lawful found
    refine ⟨later v p le lawful found, fun k same => ⟨(leads k same).1.mono le, fun u q le' hq => ?_⟩⟩
    exact (leads k same).2 u q (le.trans le') ⟨p, le'.found found, hq⟩

theorem awaits_of_unify {track : Track} {use : BranchUse} {first second : Ref}
    {next : Property → Infer Property} (fine : w.Fine goal (.unify track use first second next))
    (cell : Nat) : w.Awaits goal (.cell cell) next := by
  obtain ⟨tame, leads⟩ := fine
  cases tame with
  | unify sure sure' later =>
    intro v p le lawful _
    refine ⟨later v p le lawful, fun k same => ⟨(leads k same).1.mono le, fun u q le' hq => ?_⟩⟩
    exact (leads k same).2 u q (le.trans le') ⟨p, hq⟩

theorem tasks_addReader (s : Run) (key : Entry) (reader : Option Entry) :
    (s.addReader key reader).tasks = s.tasks := by
  cases reader <;> rfl

theorem Charted.halt (h : w.Charted s) (manned : w.Manned s) (fine : w.Fine goal b)
    (halt : Run.Halt self reader b s log progress t) :
    ∃ v, w.Le v ∧ v.Charted t ∧ v.Manned t ∧ v.Leaves goal progress := by
  obtain ⟨le, charted⟩ := h.same halt.recorded fun key => halt.resultOf (.entry key)
  refine ⟨_, le, charted, ?_⟩
  have manned : (w.after t.engine).Manned s := manned.same le rfl
  have fine := fine.mono le
  cases halt with
  | done a => exact ⟨manned, fine⟩
  | fail e => exact ⟨manned, trivial⟩
  | forever => exact ⟨manned, trivial⟩
  | readFailed found failed =>
    exact ⟨manned.same (.refl _) (tasks_addReader _ _ _), trivial⟩
  | wait found missing =>
    refine ⟨manned.same (.refl _) ?_, awaits_of_demand fine⟩
    rw [Run.waitOn, (Run.setPromise_same _ _ _).2.2.1, tasks_addReader]
  | @begin key next _ absent =>
    refine ⟨?_, awaits_of_demand fine⟩
    cases fine.1 with
    | demand good later =>
      exact Manned.spawn (manned.same (.refl _) (tasks_addReader s key reader))
        (charted.toLawful.fine_infer good)
  | uncallable unknown => exact ⟨manned, trivial⟩
  | race track use first second next =>
    refine ⟨?_, awaits_of_unify fine _⟩
    cases fine.1 with
    | unify sure sure' later =>
      exact ((manned.spawn (fine_branch use sure track _)).spawn
        (fine_branch use sure' track _)).same (.refl _) rfl

/-! ## The end of a task -/

/-- What a task for an entry ends with is found from then on, unless the entry has a result. -/
theorem Charted.fulfil (h : w.Charted s) {key : Entry} {p : Property} {q : Promise TaskId}
    (found : s.promise? (.entry key) = some q) (missing : q.result = none)
    (fine : w.Fine (.entry key) (.done p)) :
    ∃ v, w.Le v ∧ v.Charted (s.fulfil (.entry key) q (.ok p)) := by
  obtain ⟨good, leads⟩ := fine.2 key rfl
  have gives := leads w p (.refl w) rfl
  have fresh : ∀ a, ¬ w.found key a := fun a ha =>
    h.settled ha ((Run.resultOf_of_promise? found).trans missing)
  have le := le_record w key p
  have same : (w.record key p).engine.Recorded (s.fulfil (.entry key) q (.ok p)).engine := by
    rw [show (w.record key p).engine = s.engine from h.engine]
    exact Run.recorded_setPromise s _ _
  have le' := le_recorded same
  refine ⟨_, le.trans le', (h.toLawful.record fresh good h.derived gives).recorded same, rfl, ?_, ?_, ?_⟩
  · intro k a ok
    rw [Run.resultOf_fulfil found] at ok
    split at ok
    · rename_i same
      cases same
      cases ok
      exact .inr ⟨rfl, rfl⟩
    · exact .inl (h.logged ok)
  · rintro k a (ha | ⟨rfl, rfl⟩)
    · rw [Run.resultOf_fulfil found]
      split
      · simp
      · exact h.settled ha
    · rw [Run.resultOf_fulfil found, if_pos rfl]
      simp
  · rintro k a (ha | ⟨rfl, rfl⟩)
    · exact (h.derived ha).later (le.trans le')
    · exact gives.later (le.trans le')

/-- An end that gives no entry a property. -/
theorem Charted.unfound (h : w.Charted s) {r : Outcome} (ending : Run.Ending s goal r t)
    (none : ∀ key p, goal.source? = some (.entry key) → r ≠ .ok p) : ∃ v, w.Le v ∧ v.Charted t := by
  refine ⟨_, h.recorded ending.recorded ?_ ?_⟩
  · intro key p ok
    rcases ending.resultOf (.entry key) with
      same | ⟨aims, -, given⟩ | ⟨_, _, _, _, _, -, -, -, -, -, given, -⟩
    · exact same ▸ ok
    · rw [given] at ok
      cases goal with
      | entry k =>
        cases r with
        | ok q => exact absurd rfl (none k q rfl)
        | error e => cases ok
      | _ => cases aims
    · rw [given] at ok
      cases ok
  · intro key kept
    rcases ending.resultOf (.entry key) with
      same | ⟨-, -, given⟩ | ⟨_, _, _, _, _, -, -, -, -, -, given, -⟩
    · exact same.symm ▸ kept
    · simp [given]
    · simp [given]

theorem Charted.ending (h : w.Charted s) {r : Outcome} (ending : Run.Ending s goal r t)
    (leaves : w.Leaves goal (.ended r)) : ∃ v, w.Le v ∧ v.Charted t := by
  cases r with
  | error e => exact h.unfound ending fun _ _ _ => by simp
  | ok p =>
    cases goal with
    | entry key =>
      cases ending with
      | fulfils r aims found missing =>
        cases aims
        exact h.fulfil found missing leaves
      | overtaken r settled => exact ⟨w, .refl w, h⟩
    | answer => exact h.unfound ending (by rintro _ _ ⟨⟩)
    | branch c => exact h.unfound ending (by rintro _ _ ⟨⟩)

theorem Charted.endTask (h : w.Charted s) (manned : w.Manned s) {r : Outcome}
    (leaves : w.Leaves goal (.ended r)) :
    ∃ v, w.Le v ∧ v.Charted (s.endTask self goal r) ∧ v.Manned (s.endTask self goal r) := by
  obtain ⟨le, charted⟩ := h.same (t := s.leave self) rfl
    fun key => Run.resultOf_congr (Run.promise?_leave s self _)
  have ending := Run.ending_endTask s self goal r
  have still : (w.after (s.leave self).engine).Leaves goal (.ended r) := by
    cases r with
    | ok p => exact Fine.mono leaves le
    | error e => trivial
  obtain ⟨v, le', charted⟩ := charted.ending ending still
  refine ⟨v, le.trans le', charted, manned.mono (le.trans le') ?_⟩
  rw [ending.same.1]
  exact (Table.erase_sublist s.tasks self).subset

/-! ## Turns -/

theorem Charted.settle (h : w.Charted s) (manned : w.Manned s) (leaves : w.Leaves goal progress) :
    ∃ v, w.Le v ∧ v.Charted (s.settle self goal progress) ∧ v.Manned (s.settle self goal progress) := by
  have entered : ∀ work, w.Able ⟨goal, work⟩ →
      ∃ v, w.Le v ∧ v.Charted { s with tasks := s.tasks.insert self ⟨goal, work⟩ }
        ∧ v.Manned { s with tasks := s.tasks.insert self ⟨goal, work⟩ } := by
    intro work able
    obtain ⟨le, charted⟩ := h.same (t := { s with tasks := s.tasks.insert self ⟨goal, work⟩ }) rfl
      fun _ => Run.resultOf_congr rfl
    refine ⟨_, le, charted, fun x task there => ?_⟩
    rcases Table.mem_insert there with same | there
    · cases same
      exact able.mono le
    · exact (manned x task there).mono le
  cases progress with
  | ended r => exact h.endTask manned leaves
  | waiting source next => exact entered (.waiting source next) leaves
  | calling body => exact entered (.ready body) leaves
  | forever => exact entered .forever trivial

theorem Charted.goesOn (h : w.Charted s) {task : Task} (able : w.Able task)
    (goes : Run.GoesOn s task.work b) : w.Fine task.goal b := by
  obtain ⟨goal, work⟩ := task
  cases goes with
  | ready body => exact able
  | @resumed source next p a found ready =>
    refine able w a (.refl w) h.toLawful ?_
    cases source with
    | entry key => exact h.logged ((Run.resultOf_of_promise? found).trans ready)
    | cell id => trivial

theorem Charted.turned (h : w.Charted s) (manned : w.Manned s) (turned : Run.Turned s self log t) :
    ∃ v, w.Le v ∧ v.Charted t ∧ v.Manned t := by
  cases turned with
  | absent gone => exact ⟨w, .refl w, h, manned⟩
  | asleep task => exact ⟨w, .refl w, h, manned⟩
  | unfounded task missing => exact ⟨w, .refl w, h, manned⟩
  | blocked task found missing =>
    obtain ⟨le, charted⟩ := h.same (Run.recorded_setPromise s _ _)
      fun key => Run.resultOf_waitOn found missing self (.entry key)
    exact ⟨_, le, charted, manned.same le (Run.setPromise_same _ _ _).2.2.1⟩
  | failed task found failed => exact h.endTask manned trivial
  | @moved task body b₁ s₁ s₂ asks log progress found goes steps halt =>
    have fine := h.goesOn (manned _ _ (Table.mem_of_find? found)) goes
    obtain ⟨u, le, charted, fine⟩ := h.steps fine steps
    have tasks : s₁.tasks = s.tasks := by rw [steps.quiet.same]
    have manned := manned.same le tasks
    obtain ⟨v, le', charted, manned, leaves⟩ := charted.halt manned fine halt
    obtain ⟨x, le'', charted, manned⟩ := charted.settle manned leaves
    exact ⟨x, le.trans (le'.trans le''), charted, manned⟩

/-- A run in any order of turns. -/
theorem Charted.polls (h : w.Charted s) (manned : w.Manned s) (polls : Run.Polls s log t) :
    ∃ v, w.Le v ∧ v.Charted t := by
  have kept := polls.invariant (fun _ s => ∃ v, w.Le v ∧ v.Charted s ∧ v.Manned s) ?_ []
    ⟨w, .refl w, h, manned⟩
  · obtain ⟨v, le, charted, -⟩ := kept
    exact ⟨v, le, charted⟩
  · rintro past log s t self schedule ⟨u, le, charted, manned⟩ - turned
    obtain ⟨le', charted⟩ := charted.same (t := s.scheduled schedule) rfl
      fun _ => Run.resultOf_congr (Run.promise?_scheduled s schedule _)
    obtain ⟨x, le'', charted, manned⟩ := charted.turned (manned.same le' rfl) turned
    exact ⟨x, le.trans (le'.trans le''), charted, manned⟩

end Ledger

end ArrayInference
