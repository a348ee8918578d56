import ArrayInference.Proofs.Run.Tidy

/-!
# How results come about

A source has no result, then one, and a property may still turn into a failure. Only the end of a
task does either: the steps of a turn, and the beginning of a wait, leave every result as it is.
-/

namespace ArrayInference

namespace Run

variable {α : Type} {s t : Run} {self : TaskId} {reader : Option Entry} {log : List Event}

/-- The source has failed. -/
def FailedAt (s : Run) (source : Source) : Prop :=
  ∃ e, s.resultOf source = some (.error e)

theorem resultOf_congr {source : Source} (h : t.promise? source = s.promise? source) :
    t.resultOf source = s.resultOf source := by
  rw [resultOf, resultOf, h]

theorem promise?_ne_none {source : Source} {r : Outcome} (h : s.resultOf source = some r) :
    s.promise? source ≠ none := by
  obtain ⟨p, found, -⟩ := exists_promise_of_resultOf h
  rw [found]
  simp

theorem Quiet.promise? (q : Quiet reader s log t) (source : Source) :
    t.promise? source = s.promise? source := by
  cases source with
  | entry key =>
    show t.engine.memo.find? key = s.engine.memo.find? key
    rw [q.memo]
  | cell id =>
    rw [q.same]
    rfl

theorem Quiet.resultOf (q : Quiet reader s log t) (source : Source) :
    t.resultOf source = s.resultOf source :=
  resultOf_congr (q.promise? source)

theorem resultOf_addReader (s : Run) (key : Entry) (reader : Option Entry) (source : Source) :
    (s.addReader key reader).resultOf source = s.resultOf source :=
  resultOf_congr (promise?_addReader s key reader source)

theorem resultOf_waitOn {source : Source} {p : Promise TaskId} (found : s.promise? source = some p)
    (missing : p.result = none) (self : TaskId) (other : Source) :
    (s.waitOn self source p).resultOf other = s.resultOf other := by
  rw [Run.resultOf, promise?_waitOn found]
  split
  · rename_i heq
    rw [← heq, resultOf_of_promise? found, missing]
    rfl
  · rfl

/-- The last step of a turn gives no results. -/
theorem Halt.resultOf {b : Infer α} {progress : Progress α}
    (halt : Halt self reader b s log progress t) (source : Source) :
    t.resultOf source = s.resultOf source := by
  cases halt with
  | readFailed found failed => exact resultOf_addReader _ _ _ _
  | @wait key next _ p found missing =>
    have hfound : (s.addReader key reader).promise? (.entry key) = some p := by
      rw [promise?_addReader]
      exact found
    rw [resultOf_waitOn hfound missing, resultOf_addReader]
  | @begin key next _ absent =>
    rw [Run.resultOf, promise?_beginEntry, Run.resultOf, promise?_addReader]
    split
    · rename_i heq
      rw [← heq, show s.promise? (.entry key) = none from absent]
      rfl
    · rfl
  | race track use first second next =>
    rw [Run.resultOf, promise?_beginRace, Run.resultOf]
    split
    · rename_i heq
      rw [← heq, show s.promise? (.cell s.cells.size) = none from
        Array.getElem?_eq_none (Nat.le_refl _)]
      rfl
    · rfl
  | _ => rfl

/-- What the last step of a turn does not take away. -/
theorem Halt.promise?_ne_none {b : Infer α} {progress : Progress α}
    (halt : Halt self reader b s log progress t) {source : Source}
    (h : s.promise? source ≠ none) : t.promise? source ≠ none := by
  cases halt with
  | readFailed found failed =>
    rw [promise?_addReader]
    exact h
  | @wait key next _ p found missing =>
    have hfound : (s.addReader key reader).promise? (.entry key) = some p := by
      rw [promise?_addReader]
      exact found
    rw [promise?_waitOn hfound, promise?_addReader]
    split
    · simp
    · exact h
  | @begin key next _ absent =>
    rw [promise?_beginEntry, promise?_addReader]
    split
    · simp
    · exact h
  | race track use first second next =>
    rw [promise?_beginRace]
    split
    · simp
    · exact h
  | _ => exact h

theorem Halt.detached_eq {b : Infer α} {progress : Progress α}
    (halt : Halt self reader b s log progress t) : t.detached = s.detached := by
  cases halt with
  | readFailed found failed => cases reader <;> rfl
  | wait found missing =>
    refine (setPromise_same _ _ _).2.2.2.2.2.1.trans ?_
    cases reader <;> rfl
  | begin absent => cases reader <;> rfl
  | race track use first second next => exact (setPromise_same _ _ _).2.2.2.2.2.1
  | _ => rfl

theorem Halt.mem_readers {b : Infer α} {progress : Progress α}
    (halt : Halt self reader b s log progress t) (key other : Entry) :
    other ∈ t.engine.readers.of key ↔
      other ∈ s.engine.readers.of key ∨ Event.asked (some other) key ∈ log := by
  have hadd : ∀ (k : Entry), other ∈ (s.addReader k reader).engine.readers.of key ↔
      other ∈ s.engine.readers.of key ∨ Event.asked (some other) key ∈ [Event.asked reader k] := by
    intro k
    rw [mem_readers_addReader, List.mem_singleton, Event.asked.injEq]
    simp only [eq_comm (a := reader)]
  cases halt with
  | readFailed found failed => exact hadd _
  | wait found missing =>
    rw [waitOn, (setPromise_same _ _ _).2.2.2.2.2.2.2]
    exact hadd _
  | begin absent => exact hadd _
  | race track use first second next =>
    rw [beginRace, (setPromise_same _ _ _).2.2.2.2.2.2.2]
    simp only [List.not_mem_nil, or_false]
    rfl
  | _ => simp only [List.not_mem_nil, or_false]

theorem Halt.outcome_eq {b : Infer α} {progress : Progress α}
    (halt : Halt self reader b s log progress t) : t.outcome = s.outcome := by
  cases halt with
  | readFailed found failed => cases reader <;> rfl
  | wait found missing =>
    refine (setPromise_same _ _ _).2.2.2.2.2.2.1.trans ?_
    cases reader <;> rfl
  | begin absent => cases reader <;> rfl
  | race track use first second next => exact (setPromise_same _ _ _).2.2.2.2.2.2.1
  | _ => rfl

/-! ## The end of a task -/

theorem resultOf_fulfil {source : Source} {p : Promise TaskId} (found : s.promise? source = some p)
    (r : Outcome) (other : Source) :
    (s.fulfil source p r).resultOf other
      = if source = other then some r else s.resultOf other := by
  rw [resultOf, promise?_fulfil found]
  split <;> rfl

theorem resultOf_failBranch (s : Run) (site : Option Entry) (e : InferError) (source : Source) :
    (s.failBranch site e).resultOf source = s.resultOf source ∨
      ∃ k start, source = .entry k ∧ ¬ s.FailedAt source
        ∧ (s.failBranch site e).resultOf source = some (.error e) ∧ site = some start
        ∧ Relation.ReflTransGen s.engine.readers.Edge start k := by
  rcases failBranch_changed s site e source with
    hsame | ⟨k, p, start, hk, found, sound, hnew, -, hsite, path⟩
  · exact Or.inl (resultOf_congr hsame)
  · refine Or.inr ⟨k, start, hk, ?_, ?_, hsite, path⟩
    · rintro ⟨e', he'⟩
      rw [resultOf_of_promise? found] at he'
      rw [Promise.hasFailed_eq_true.mpr ⟨e', he'⟩] at sound
      cases sound
    · rw [resultOf_of_promise? hnew]

/-- What the end of a task does to a source: nothing, or it gives the source its result, or it is
found out late that the source has failed. -/
theorem Ending.resultOf {goal : Goal} {r : Outcome} (ending : Ending s goal r t)
    (source : Source) :
    t.resultOf source = s.resultOf source
      ∨ (goal.source? = some source ∧ s.resultOf source = none
          ∧ t.resultOf source = some (goal.outcome r))
      ∨ ∃ c p e start k, goal = .branch c ∧ s.resultOf (.cell c.cell) = some (.ok p)
          ∧ Clash c p r e ∧ source = .entry k ∧ ¬ s.FailedAt source
          ∧ t.resultOf source = some (.error e) ∧ c.site = some start
          ∧ Relation.ReflTransGen s.engine.readers.Edge start k := by
  cases ending with
  | answer r => exact Or.inl (resultOf_congr (by cases source <;> rfl))
  | @fulfils _ target p r aims found missing =>
    rw [resultOf_fulfil found]
    by_cases heq : target = source
    · subst heq
      rw [if_pos rfl, resultOf_of_promise? found]
      exact Or.inr (Or.inl ⟨aims, missing, rfl⟩)
    · rw [if_neg heq]
      exact Or.inl rfl
  | agrees first same d => exact Or.inl (resultOf_congr (by cases source <;> rfl))
  | @late c p r e first clash =>
    rcases resultOf_failBranch s c.site e source with
      hsame | ⟨k, start, hk, hsound, hnew, hsite, path⟩
    · exact Or.inl hsame
    · exact Or.inr (Or.inr ⟨c, p, e, start, k, rfl, first, clash, hk, hsound, hnew, hsite, path⟩)
  | overtaken r settled => exact Or.inl rfl
  | second r first => exact Or.inl rfl
  | lost r gone => exact Or.inl rfl

theorem Ending.failedAt {goal : Goal} {r : Outcome} (ending : Ending s goal r t) {source : Source}
    (failed : s.FailedAt source) : t.FailedAt source := by
  obtain ⟨e, he⟩ := failed
  rcases ending.resultOf source with hsame | ⟨-, hnone, -⟩ | ⟨_, _, _, _, _, -, -, -, -, hsound, -⟩
  · exact ⟨e, hsame.trans he⟩
  · rw [he] at hnone
    cases hnone
  · exact absurd ⟨e, he⟩ hsound

theorem Ending.same {goal : Goal} {r : Outcome} (ending : Ending s goal r t) :
    t.tasks = s.tasks ∧ t.nextTask = s.nextTask ∧ t.cells.size = s.cells.size
      ∧ t.engine.readers = s.engine.readers ∧ s.detached <+: t.detached := by
  cases ending with
  | fulfils r aims found missing =>
    obtain ⟨-, -, htasks, hnext, hcells, hdetached, -, hreaders⟩ :=
      setPromise_same s _ { result := some _, waiters := [] }
    exact ⟨htasks, hnext, hcells, hreaders, by rw [← hdetached]; exact List.prefix_refl _⟩
  | @late c p r e first clash =>
    obtain ⟨-, htasks, hnext, hcells, hdetached, -, hreaders⟩ := failBranch_same s c.site e
    exact ⟨htasks, hnext, by rw [hcells], hreaders, by rw [hdetached]; exact List.prefix_append _ _⟩
  | _ => exact ⟨rfl, rfl, rfl, rfl, List.prefix_refl _⟩

theorem Ending.promise?_ne_none {goal : Goal} {r : Outcome} (ending : Ending s goal r t)
    {source : Source} : t.promise? source ≠ none ↔ s.promise? source ≠ none := by
  cases ending with
  | answer r => cases source <;> rfl
  | @fulfils _ target p r aims found missing =>
    rw [promise?_fulfil found]
    split
    · rename_i heq
      rw [← heq, found]
      exact ⟨by simp, by simp⟩
    · rfl
  | agrees first same d => cases source <;> rfl
  | @late c p r e first clash =>
    rcases failBranch_changed s c.site e source with
      hsame | ⟨k, q, start, -, found, -, hnew, -⟩
    · rw [hsame]
    · rw [hnew, found]
      exact ⟨by simp, by simp⟩
  | _ => rfl

theorem Ending.outcome_eq {goal : Goal} {r : Outcome} (ending : Ending s goal r t) :
    t.outcome = s.outcome ∨ (goal = .answer ∧ t.outcome = some r) := by
  cases ending with
  | answer r => exact Or.inr ⟨rfl, rfl⟩
  | fulfils r aims found missing => exact Or.inl (setPromise_same s _ _).2.2.2.2.2.2.1
  | @late c p r e first clash => exact Or.inl (failBranch_same s c.site e).2.2.2.2.2.1
  | _ => exact Or.inl rfl

/-! ## The shapes of a turn -/

/-- Only who waits for what may differ. -/
structure Alike (s t : Run) : Prop where
  tasks : t.tasks = s.tasks
  nextTask : t.nextTask = s.nextTask
  cells : t.cells.size = s.cells.size
  detached : t.detached = s.detached
  outcome : t.outcome = s.outcome
  results : ∀ source, t.resultOf source = s.resultOf source
  present : ∀ source, t.promise? source ≠ none ↔ s.promise? source ≠ none

theorem Alike.refl (s : Run) : Alike s s :=
  ⟨rfl, rfl, rfl, rfl, rfl, fun _ => rfl, fun _ => Iff.rfl⟩

theorem alike_waitOn {source : Source} {p : Promise TaskId} (found : s.promise? source = some p)
    (missing : p.result = none) (self : TaskId) : Alike s (s.waitOn self source p) := by
  obtain ⟨-, -, htasks, hnext, hcells, hdetached, houtcome, -⟩ :=
    setPromise_same s source { result := none, waiters := p.waiters ++ [self] }
  refine ⟨htasks, hnext, hcells, hdetached, houtcome,
    resultOf_waitOn found missing self, fun other => ?_⟩
  rw [promise?_waitOn found]
  split
  · rename_i heq
    rw [← heq, found]
    exact ⟨by simp, by simp⟩
  · rfl

/-- A task comes to its end with `r`; `s₀` is the run just before. -/
structure Ends (s : Run) (task : TaskId) (goal : Goal) (asks : List Event) (s₀ : Run)
    (r : Outcome) : Prop where
  known : ∃ w, s.tasks.find? task = some ⟨goal, w⟩
  same : s₀ = { s with engine := s₀.engine }
  memo : s₀.engine.memo = s.engine.memo
  /-- A failure that is read is passed on. -/
  asked : ∀ event ∈ asks, ∃ key, event = .asked goal.reader key
    ∧ ((∃ v, s.resultOf (.entry key) = some (.ok v))
      ∨ ∃ e, s.resultOf (.entry key) = some (.error e) ∧ r = .error e)
  readers : ∀ key other, other ∈ s₀.engine.readers.of key ↔
    other ∈ s.engine.readers.of key ∨ Event.asked (some other) key ∈ asks
  waited : ∀ source, s.Waits task source →
    (∃ v, s.resultOf source = some (.ok v))
      ∨ ∃ e, s.resultOf source = some (.error e) ∧ r = .error e

theorem alike_of_engine {t : Run} (same : t = { s with engine := t.engine })
    (memo : t.engine.memo = s.engine.memo) : Alike s t := by
  have hpromise : ∀ source, t.promise? source = s.promise? source := by
    intro source
    cases source with
    | entry key =>
      show t.engine.memo.find? key = s.engine.memo.find? key
      rw [memo]
    | cell id =>
      rw [same]
      rfl
  refine ⟨by rw [same], by rw [same], by rw [same], by rw [same], by rw [same],
    fun source => resultOf_congr (hpromise source), fun source => ?_⟩
  rw [hpromise]

theorem alike_addReader (s : Run) (key : Entry) (reader : Option Entry) :
    Alike s (s.addReader key reader) :=
  alike_of_engine (by cases reader <;> rfl) (addReader_memo s key reader)

/-- What becomes of a run in a turn. -/
inductive Move (s : Run) (self : TaskId) : List Event → Run → Prop where
  | idle {t : Run} (alike : Alike s t) (readers : t.engine.readers = s.engine.readers) :
      Move s self [] t
  | ends {goal : Goal} {asks : List Event} {s₀ : Run} {r : Outcome}
      (ends : Ends s self goal asks s₀ r) :
      Move s self (asks ++ [.ended goal r]) (s₀.endTask self goal r)
  | stays {goal : Goal} {w : Work} {asks log : List Event} {s₁ s₂ : Run} {b : Infer Property}
      {progress : Progress Property} (known : s.tasks.find? self = some ⟨goal, w⟩)
      (waited : ∀ source, s.Waits self source → ∃ v, s.resultOf source = some (.ok v))
      (quiet : Quiet goal.reader s asks s₁) (halt : Halt self goal.reader b s₁ log progress s₂)
      (unended : ∀ r, progress ≠ .ended r) :
      Move s self (asks ++ log) (s₂.settle self goal progress)

theorem GoesOn.waited {task : Task} {body : Infer Property}
    (found : s.tasks.find? self = some task) (goes : GoesOn s task.work body) :
    ∀ source, s.Waits self source → ∃ v, s.resultOf source = some (.ok v) := by
  rintro source ⟨goal, next, hw⟩
  rw [found, Option.some.injEq] at hw
  subst hw
  cases goes with
  | resumed promised ready => exact ⟨_, (resultOf_of_promise? promised).trans ready⟩

/-- A step at which a task ends reads a failure at most, and then it ends with one. -/
theorem Halt.ends {goal : Goal} {w : Work} {b : Infer Property} {asks log : List Event} {s₁ s₂ : Run}
    {r : Outcome} (known : s.tasks.find? self = some ⟨goal, w⟩)
    (waited : ∀ source, s.Waits self source → ∃ v, s.resultOf source = some (.ok v))
    (quiet : Quiet goal.reader s asks s₁) (halt : Halt self goal.reader b s₁ log (.ended r) s₂) :
    Ends s self goal (asks ++ log) s₂ r := by
  have hread : ∀ event ∈ asks, ∃ key, event = .asked goal.reader key
      ∧ ((∃ v, s.resultOf (.entry key) = some (.ok v))
        ∨ ∃ e, s.resultOf (.entry key) = some (.error e) ∧ r = .error e) := by
    intro event hevent
    obtain ⟨key, p, v, hk, found, ready⟩ := quiet.asked event hevent
    have found : s.promise? (.entry key) = some p := found
    exact ⟨key, hk, Or.inl ⟨v, (resultOf_of_promise? found).trans ready⟩⟩
  have hquiet : Ends s self goal asks s₁ r :=
    ⟨⟨w, known⟩, quiet.same, quiet.memo, hread, quiet.readers, fun X hX => Or.inl (waited X hX)⟩
  cases halt with
  | done a =>
    rw [List.append_nil]
    exact hquiet
  | fail e =>
    rw [List.append_nil]
    exact hquiet
  | uncallable unknown =>
    rw [List.append_nil]
    exact hquiet
  | @readFailed key next _ p e found failed =>
    refine ⟨⟨w, known⟩, ?_, (addReader_memo _ _ _).trans quiet.memo, ?_, ?_,
      fun source hw => Or.inl (waited source hw)⟩
    · have hreader : s₁.addReader key goal.reader
          = { s₁ with engine := (s₁.addReader key goal.reader).engine } := by
        cases goal.reader <;> rfl
      rw [hreader, quiet.same]
    · intro event hevent
      rcases List.mem_append.mp hevent with hmem | hmem
      · exact hread event hmem
      · refine ⟨key, List.mem_singleton.mp hmem, Or.inr ⟨e, ?_, rfl⟩⟩
        have found : s₁.promise? (.entry key) = some p := found
        rw [← quiet.resultOf, resultOf_of_promise? found, failed]
    · intro k other
      rw [mem_readers_addReader, quiet.readers, List.mem_append, List.mem_singleton, or_assoc,
        Event.asked.injEq]
      simp only [eq_comm (a := goal.reader)]

/-- Every turn has one of these shapes. -/
theorem Turned.move (turned : Turned s self log t) : Move s self log t := by
  cases turned with
  | absent gone => exact .idle (.refl s) rfl
  | asleep task => exact .idle (.refl s) rfl
  | unfounded task missing => exact .idle (.refl s) rfl
  | blocked task found missing =>
    exact .idle (alike_waitOn found missing self) (setPromise_same _ _ _).2.2.2.2.2.2.2
  | @failed goal source next p e task found failed =>
    have hfailed : s.resultOf source = some (.error e) := (resultOf_of_promise? found).trans failed
    refine @Move.ends _ _ _ [] _ _ ⟨⟨_, task⟩, rfl, rfl, by simp, fun _ _ => ?_, ?_⟩
    · simp
    · rintro other ⟨g, n, hw⟩
      rw [task] at hw
      cases hw
      exact Or.inr ⟨e, hfailed, rfl⟩
  | @moved task body b₁ s₁ s₂ asks log progress found goes steps halt =>
    have waited := goes.waited found
    cases progress with
    | ended r =>
      exact .ends (halt.ends found waited steps.quiet)
    | waiting source next =>
      rw [settled, List.append_nil]
      exact .stays found waited steps.quiet halt (by simp)
    | calling body => cases halt
    | forever =>
      rw [settled, List.append_nil]
      exact .stays found waited steps.quiet halt (by simp)

end Run

end ArrayInference
