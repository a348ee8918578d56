import ArrayInference.Engine.Run
import ArrayInference.Proofs.Table

/-!
# What a turn does

A turn is a chain of steps that no other task notices, and one last step at which the task ends or
begins to wait. The steps are stated here as a relation, one rule for each kind of question, and the
turn of the engine is shown to follow it.

Beside the run that a turn leaves stands what happened in it: which entries were asked for, and by
the computation of which entry, and how tasks ended.
-/

namespace ArrayInference

/-- What happens in a run. -/
inductive Event where
  /-- The computation of `reader` asks for an entry. Root and branch tasks compute none. -/
  | asked (reader : Option Entry) (key : Entry)
  /-- A task ends. -/
  | ended (goal : Goal) (r : Outcome)

namespace Run

/-- The engine after a question. -/
def afterAnswer (s : Run) (query : Query) : Run :=
  { s with engine := ((EngineM.answer query).run s.engine).2 }

/-- Enters a task among those that wait for a source. -/
def waitOn (s : Run) (self : TaskId) (source : Source) (p : Promise TaskId) : Run :=
  s.setPromise source { result := none, waiters := p.waiters ++ [self] }

/-- Makes the task of an entry that nobody has asked for, with the task that waits for it. -/
def beginEntry (s : Run) (self : TaskId) (key : Entry) : Run :=
  (s.setMemo (s.engine.memo.insert key { result := none, waiters := [self] })).spawn (.entry key)
    (key.ref.infer key.track)

/-- Makes the tasks of both branches, with the task that waits for the first of them. -/
def beginRace (s : Run) (self : TaskId) (site : Option Entry) (track : Track) (use : BranchUse)
    (first second : Ref) : Run :=
  (s.race site track use first second).2.setPromise (.cell s.cells.size)
    { result := none, waiters := [self] }

variable {α : Type}

/-- One step of a computation after which it goes on in the same turn. -/
inductive Step (reader : Option Entry) : Infer α → Run → List Event → Infer α → Run → Prop where
  | ask (query : Query) (next : query.Answer → Infer α) (s : Run) :
      Step reader (.ask query next) s [] (next ((EngineM.answer query).run s.engine).1)
        (s.afterAnswer query)
  | read {key : Entry} {next : Property → Infer α} {s : Run} {p : Promise TaskId} {v : Property}
      (found : s.engine.memo.find? key = some p) (ready : p.result = some (.ok v)) :
      Step reader (.demand key next) s [.asked reader key] (next v) (s.addReader key reader)
  | call {callee : Inferrer} {args : List Ref} {next : Property → Infer α} {s : Run} {c : Callable}
      (found : s.engine.callable? callee = some c) :
      Step reader (.call callee args next) s [] ((c.body args).bind next) s

/-- The steps of a turn before the last one. -/
inductive Steps (reader : Option Entry) : Infer α → Run → List Event → Infer α → Run → Prop where
  | refl (b : Infer α) (s : Run) : Steps reader b s [] b s
  | head {b b₁ b₂ : Infer α} {s s₁ s₂ : Run} {log log' : List Event}
      (first : Step reader b s log b₁ s₁) (rest : Steps reader b₁ s₁ log' b₂ s₂) :
      Steps reader b s (log ++ log') b₂ s₂

/-- The last step of a turn. -/
inductive Halt (self : TaskId) (reader : Option Entry) :
    Infer α → Run → List Event → Progress α → Run → Prop where
  | done (a : α) (s : Run) : Halt self reader (.done a) s [] (.ended (.ok a)) s
  | fail (e : InferError) (s : Run) : Halt self reader (.fail e) s [] (.ended (.error e)) s
  | forever (s : Run) : Halt self reader .forever s [] .forever s
  | readFailed {key : Entry} {next : Property → Infer α} {s : Run} {p : Promise TaskId}
      {e : InferError} (found : s.engine.memo.find? key = some p)
      (failed : p.result = some (.error e)) :
      Halt self reader (.demand key next) s [.asked reader key] (.ended (.error e))
        (s.addReader key reader)
  | wait {key : Entry} {next : Property → Infer α} {s : Run} {p : Promise TaskId}
      (found : s.engine.memo.find? key = some p) (missing : p.result = none) :
      Halt self reader (.demand key next) s [.asked reader key] (.waiting (.entry key) next)
        ((s.addReader key reader).waitOn self (.entry key) p)
  | begin {key : Entry} {next : Property → Infer α} {s : Run}
      (absent : s.engine.memo.find? key = none) :
      Halt self reader (.demand key next) s [.asked reader key] (.waiting (.entry key) next)
        ((s.addReader key reader).beginEntry self key)
  | uncallable {callee : Inferrer} {args : List Ref} {next : Property → Infer α} {s : Run}
      (unknown : s.engine.callable? callee = none) :
      Halt self reader (.call callee args next) s []
        (.ended (.error (.inference (callee.text ++ " is not callable")))) s
  | race (track : Track) (use : BranchUse) (first second : Ref) (next : Property → Infer α)
      (s : Run) :
      Halt self reader (.unify track use first second next) s []
        (.waiting (.cell s.cells.size) next) (s.beginRace self reader track use first second)

/-! ## The function behind the relation -/

theorem addReader_memo (s : Run) (key : Entry) (reader : Option Entry) :
    (s.addReader key reader).engine.memo = s.engine.memo := by
  cases reader <;> rfl

theorem addReader_active (s : Run) (key : Entry) (reader : Option Entry) :
    (s.addReader key reader).active = s.active := by
  cases reader <;> rfl

theorem request_of_find? {s : Run} {key : Entry} {p : Promise TaskId}
    (found : s.engine.memo.find? key = some p) : s.request key = s := by
  rw [request, if_pos (Table.contains_eq_true.mpr ⟨p, found⟩)]

theorem setPromise_of_promise? {s : Run} {source : Source} {p : Promise TaskId}
    (found : s.promise? source = some p) : s.setPromise source p = s := by
  cases source with
  | entry key =>
    have h : s.engine.memo.insert key p = s.engine.memo := Table.insert_of_find? found
    rw [setPromise, setMemo, h]
  | cell id =>
    obtain ⟨hlt, hget⟩ := Array.getElem?_eq_some_iff.mp found
    have h : s.cells.setIfInBounds id p = s.cells := by
      rw [← hget, Array.setIfInBounds_def, dif_pos hlt, Array.set_getElem_self]
    rw [setPromise, h]

theorem await_of_result {s : Run} {self : TaskId} {source : Source} {p : Promise TaskId}
    {r : Outcome} (found : s.promise? source = some p) (ready : p.result = some r) :
    s.await self source = (some r, s) := by
  rw [await, found]
  simp only [Promise.ask, ready, setPromise_of_promise? found]

theorem await_of_pending {s : Run} {self : TaskId} {source : Source} {p : Promise TaskId}
    (found : s.promise? source = some p) (missing : p.result = none) :
    s.await self source = (none, s.waitOn self source p) := by
  rw [await, found]
  simp only [Promise.ask, missing, waitOn]

theorem request_await_of_absent {s : Run} {self : TaskId} {key : Entry} (active : s.active = true)
    (absent : s.engine.memo.find? key = none) :
    (s.request key).await self (.entry key) = (none, s.beginEntry self key) := by
  have hfound : (s.request key).promise? (.entry key) = some .pending := by
    rw [request, if_neg (by rw [Table.contains_eq_false.mpr absent]; exact Bool.false_ne_true),
      if_pos active]
    exact Table.find?_insert_self _ _ _
  rw [await_of_pending hfound rfl, request,
    if_neg (by rw [Table.contains_eq_false.mpr absent]; exact Bool.false_ne_true), if_pos active]
  simp only [waitOn, setPromise, setMemo, spawn, beginEntry, Promise.pending, List.nil_append,
    Table.insert_insert]

theorem race_fst (s : Run) (site : Option Entry) (track : Track) (use : BranchUse)
    (first second : Ref) : (s.race site track use first second).1 = s.cells.size := rfl

theorem race_await (s : Run) (self : TaskId) (site : Option Entry) (track : Track) (use : BranchUse)
    (first second : Ref) :
    (s.race site track use first second).2.await self (.cell s.cells.size)
      = (none, s.beginRace self site track use first second) := by
  have hfound : (s.race site track use first second).2.promise? (.cell s.cells.size)
      = some .pending := Array.getElem?_push_size
  rw [await_of_pending hfound rfl]
  rfl

theorem advance_of_read {self : TaskId} {reader : Option Entry} {key : Entry}
    {next : Property → Infer α} {s : Run} {p : Promise TaskId} {v : Property}
    (found : s.engine.memo.find? key = some p) (ready : p.result = some (.ok v)) :
    advance self reader (.demand key next) s
      = advance self reader (next v) (s.addReader key reader) := by
  have hfound : (s.addReader key reader).engine.memo.find? key = some p := by
    rw [addReader_memo, found]
  rw [advance, request_of_find? hfound, @await_of_result _ _ (.entry key) _ _ hfound ready]

/-- A step stays within a pass over the computation, unless it is a call. -/
theorem advance_of_step {self : TaskId} {reader : Option Entry} {b b₁ : Infer α} {s s₁ : Run}
    {log : List Event} (step : Step reader b s log b₁ s₁) :
    advance self reader b s = advance self reader b₁ s₁
      ∨ advance self reader b s = (.calling b₁, s₁) := by
  cases step with
  | ask query next s => exact Or.inl rfl
  | read found ready => exact Or.inl (advance_of_read found ready)
  | call found =>
    refine Or.inr ?_
    rw [advance, found]

theorem work_of_step {self : TaskId} {reader : Option Entry} {b b₁ : Infer α} {s s₁ : Run}
    {log : List Event} (step : Step reader b s log b₁ s₁) :
    work self reader b s = work self reader b₁ s₁ := by
  rcases @advance_of_step _ self _ _ _ _ _ _ step with h | h
  · rw [work.eq_def self reader b s, work.eq_def self reader b₁ s₁, h]
  · rw [work.eq_def self reader b s, h]

theorem advance_of_halt {self : TaskId} {reader : Option Entry} {b : Infer α} {s s₁ : Run}
    {log : List Event} {progress : Progress α} (active : s.active = true)
    (halt : Halt self reader b s log progress s₁) :
    advance self reader b s = (progress, s₁) := by
  cases halt with
  | done a s => rfl
  | fail e s => rfl
  | forever s => rfl
  | @readFailed key next s p e found failed =>
    have hfound : (s.addReader key reader).engine.memo.find? key = some p := by
      rw [addReader_memo, found]
    rw [advance, request_of_find? hfound, @await_of_result _ _ (.entry key) _ _ hfound failed]
  | @wait key next s p found missing =>
    have hfound : (s.addReader key reader).engine.memo.find? key = some p := by
      rw [addReader_memo, found]
    rw [advance, request_of_find? hfound, @await_of_pending _ _ (.entry key) _ hfound missing]
  | @begin key next s absent =>
    have habsent : (s.addReader key reader).engine.memo.find? key = none := by
      rw [addReader_memo, absent]
    have hactive : (s.addReader key reader).active = true := by rw [addReader_active, active]
    rw [advance, request_await_of_absent hactive habsent]
  | @uncallable callee args next s unknown => rw [advance, unknown]
  | race track use first second next s =>
    rw [advance, if_pos active]
    simp only [race_fst, race_await]

theorem work_of_halt {self : TaskId} {reader : Option Entry} {b : Infer α} {s s₁ : Run}
    {log : List Event} {progress : Progress α} (active : s.active = true)
    (halt : Halt self reader b s log progress s₁) :
    work self reader b s = some (progress, s₁) := by
  rw [work.eq_def, advance_of_halt active halt]
  cases halt <;> rfl

theorem Step.active_eq {reader : Option Entry} {b b₁ : Infer α} {s s₁ : Run} {log : List Event}
    (step : Step reader b s log b₁ s₁) : s₁.active = s.active := by
  cases step with
  | ask query next s => rfl
  | read found ready => exact addReader_active _ _ _
  | call found => rfl

theorem Steps.active_eq {reader : Option Entry} {b b₁ : Infer α} {s s₁ : Run} {log : List Event}
    (steps : Steps reader b s log b₁ s₁) : s₁.active = s.active := by
  induction steps with
  | refl b s => rfl
  | head first rest ih => rw [ih, first.active_eq]

theorem work_of_steps {self : TaskId} {reader : Option Entry} {b b₁ : Infer α} {s s₁ : Run}
    {log : List Event} (steps : Steps reader b s log b₁ s₁) :
    work self reader b s = work self reader b₁ s₁ := by
  induction steps with
  | refl b s => rfl
  | head first rest ih => rw [work_of_step first, ih]

/-- Every computation takes a step or stops. -/
theorem step_or_halt (self : TaskId) (reader : Option Entry) (b : Infer α) (s : Run) :
    (∃ log b₁ s₁, Step reader b s log b₁ s₁)
      ∨ ∃ log progress s₁, Halt self reader b s log progress s₁ := by
  cases b with
  | done a => exact Or.inr ⟨_, _, _, .done a s⟩
  | fail e => exact Or.inr ⟨_, _, _, .fail e s⟩
  | forever => exact Or.inr ⟨_, _, _, .forever s⟩
  | ask query next => exact Or.inl ⟨_, _, _, .ask query next s⟩
  | demand key next =>
    cases found : s.engine.memo.find? key with
    | none => exact Or.inr ⟨_, _, _, .begin found⟩
    | some p =>
      cases ready : p.result with
      | none => exact Or.inr ⟨_, _, _, .wait found ready⟩
      | some r =>
        cases r with
        | ok v => exact Or.inl ⟨_, _, _, .read found ready⟩
        | error e => exact Or.inr ⟨_, _, _, .readFailed found ready⟩
  | call callee args next =>
    cases found : s.engine.callable? callee with
    | none => exact Or.inr ⟨_, _, _, .uncallable found⟩
    | some c => exact Or.inl ⟨_, _, _, .call found⟩
  | unify track use first second next =>
    exact Or.inr ⟨_, _, _, .race track use first second next s⟩

/-- A pass over a computation up to its next call, or to the end of the turn. -/
theorem exists_steps_of_advance (self : TaskId) (reader : Option Entry) (b : Infer α) (s : Run)
    (active : s.active = true) :
    (∃ log b₁ s₁, Steps reader b s log b₁ s₁ ∧ advance self reader b s = (.calling b₁, s₁))
      ∨ ∃ log b₁ s₁ log₁ progress s₂, Steps reader b s log b₁ s₁
          ∧ Halt self reader b₁ s₁ log₁ progress s₂ ∧ advance self reader b s = (progress, s₂) := by
  induction b generalizing s with
  | done a => exact Or.inr ⟨_, _, _, _, _, _, .refl _ _, .done a s, rfl⟩
  | fail e => exact Or.inr ⟨_, _, _, _, _, _, .refl _ _, .fail e s, rfl⟩
  | forever => exact Or.inr ⟨_, _, _, _, _, _, .refl _ _, .forever s, rfl⟩
  | ask query next ih =>
    have step : Step reader (.ask query next) s [] _ _ := .ask query next s
    rcases ih _ (s.afterAnswer query) active with
      ⟨_, _, _, steps, h⟩ | ⟨_, _, _, _, _, _, steps, halt, h⟩
    · exact Or.inl ⟨_, _, _, .head step steps, h⟩
    · exact Or.inr ⟨_, _, _, _, _, _, .head step steps, halt, h⟩
  | demand key next ih =>
    rcases step_or_halt self reader (.demand key next) s with ⟨_, _, _, step⟩ | ⟨_, _, _, halt⟩
    · cases step with
      | read found ready =>
        rw [advance_of_read found ready]
        have step : Step reader (.demand key next) s _ _ _ := .read found ready
        rcases ih _ _ ((addReader_active _ _ _).trans active) with
          ⟨_, _, _, steps, h⟩ | ⟨_, _, _, _, _, _, steps, halt, h⟩
        · exact Or.inl ⟨_, _, _, .head step steps, h⟩
        · exact Or.inr ⟨_, _, _, _, _, _, .head step steps, halt, h⟩
    · exact Or.inr ⟨_, _, _, _, _, _, .refl _ _, halt, advance_of_halt active halt⟩
  | call callee args next ih =>
    cases found : s.engine.callable? callee with
    | none =>
      have halt : Halt self reader (.call callee args next) s [] _ s := .uncallable found
      exact Or.inr ⟨_, _, _, _, _, _, .refl _ _, halt, advance_of_halt active halt⟩
    | some c =>
      refine Or.inl ⟨_, _, _, .head (.call found) (.refl _ _), ?_⟩
      rw [advance, found]
  | unify track use first second next ih =>
    have halt : Halt self reader (.unify track use first second next) s _ _ _ :=
      .race track use first second next s
    exact Or.inr ⟨_, _, _, _, _, _, .refl _ _, halt, advance_of_halt active halt⟩

theorem Steps.trans {reader : Option Entry} {b b₁ b₂ : Infer α} {s s₁ s₂ : Run}
    {log log' : List Event} (first : Steps reader b s log b₁ s₁)
    (rest : Steps reader b₁ s₁ log' b₂ s₂) : Steps reader b s (log ++ log') b₂ s₂ := by
  induction first with
  | refl b s => exact rest
  | head step _ ih =>
    rw [List.append_assoc]
    exact .head step (ih rest)

/-- A turn that ends is a chain of steps and a last one. -/
theorem exists_steps_of_work {self : TaskId} {reader : Option Entry} {b : Infer α} {s s₂ : Run}
    {progress : Progress α} (active : s.active = true)
    (h : work self reader b s = some (progress, s₂)) :
    ∃ log b₁ s₁ log₁, Steps reader b s log b₁ s₁ ∧ Halt self reader b₁ s₁ log₁ progress s₂ := by
  refine work.partial_correctness self reader
    (fun b s out => s.active = true → ∃ log b₁ s₁ log₁,
      Steps reader b s log b₁ s₁ ∧ Halt self reader b₁ s₁ log₁ out.1 out.2) ?_ b s _ h active
  intro recurse ih b s out hout active
  rcases exists_steps_of_advance self reader b s active with
    ⟨log, b₁, s₁, steps, hadvance⟩ | ⟨log, b₁, s₁, log₁, progress, s₂, steps, halt, hadvance⟩
  · rw [hadvance] at hout
    obtain ⟨log', b₂, s₂, log₂, more, halt⟩ := ih b₁ s₁ out hout (steps.active_eq.trans active)
    exact ⟨_, _, _, _, steps.trans more, halt⟩
  · rw [hadvance] at hout
    have hend : out = (progress, s₂) := by
      cases halt <;> exact (Option.some.inj hout).symm
    rw [hend]
    exact ⟨log, b₁, s₁, log₁, steps, halt⟩

/-! ## Turns -/

/-- What is left of a turn when it stops: a task that ends has ended. -/
def settled (goal : Goal) : Progress Property → List Event
  | .ended r => [.ended goal r]
  | .waiting .. | .calling _ | .forever => []

/-- The computation that a task goes on with. -/
inductive GoesOn (s : Run) : Work → Infer Property → Prop where
  | ready (body : Infer Property) : GoesOn s (.ready body) body
  | resumed {source : Source} {next : Property → Infer Property} {p : Promise TaskId} {v : Property}
      (found : s.promise? source = some p) (ready : p.result = some (.ok v)) :
      GoesOn s (.waiting source next) (next v)

/-- A turn of a task. -/
inductive Turned (s : Run) (self : TaskId) : List Event → Run → Prop where
  | absent (gone : s.tasks.find? self = none) : Turned s self [] s
  | asleep {goal : Goal} (task : s.tasks.find? self = some ⟨goal, .forever⟩) : Turned s self [] s
  | unfounded {goal : Goal} {source : Source} {next : Property → Infer Property}
      (task : s.tasks.find? self = some ⟨goal, .waiting source next⟩)
      (missing : s.promise? source = none) : Turned s self [] s
  | blocked {goal : Goal} {source : Source} {next : Property → Infer Property} {p : Promise TaskId}
      (task : s.tasks.find? self = some ⟨goal, .waiting source next⟩)
      (found : s.promise? source = some p) (missing : p.result = none) :
      Turned s self [] (s.waitOn self source p)
  | failed {goal : Goal} {source : Source} {next : Property → Infer Property} {p : Promise TaskId}
      {e : InferError} (task : s.tasks.find? self = some ⟨goal, .waiting source next⟩)
      (found : s.promise? source = some p) (failed : p.result = some (.error e)) :
      Turned s self [.ended goal (.error e)] (s.endTask self goal (.error e))
  | moved {task : Task} {body b₁ : Infer Property} {s₁ s₂ : Run} {log log₁ : List Event}
      {progress : Progress Property} (found : s.tasks.find? self = some task)
      (goes : GoesOn s task.work body) (steps : Steps task.goal.reader body s log b₁ s₁)
      (halt : Halt self task.goal.reader b₁ s₁ log₁ progress s₂) :
      Turned s self (log ++ log₁ ++ settled task.goal progress) (s₂.settle self task.goal progress)

/-- The turn of the engine is a turn. -/
theorem exists_turned_of_turn {s t : Run} {self : TaskId} (active : s.active = true)
    (h : turn s self = some t) : ∃ log, Turned s self log t := by
  rw [turn] at h
  cases htask : s.tasks.find? self with
  | none =>
    rw [htask] at h
    cases h
    exact ⟨_, .absent htask⟩
  | some task =>
    obtain ⟨goal, state⟩ := task
    rw [htask] at h
    have moved : ∀ {body : Infer Property}, GoesOn s state body →
        (work self goal.reader body s).map (fun out => out.2.settle self goal out.1) = some t →
        ∃ log, Turned s self log t := by
      intro body goes hmap
      obtain ⟨⟨progress, s₂⟩, hwork, rfl⟩ := Option.map_eq_some_iff.mp hmap
      obtain ⟨log, b₁, s₁, log₁, steps, halt⟩ := exists_steps_of_work active hwork
      exact ⟨_, .moved htask goes steps halt⟩
    cases state with
    | ready body => exact moved (.ready body) h
    | forever =>
      cases h
      exact ⟨_, .asleep htask⟩
    | waiting source next =>
      cases found : s.promise? source with
      | none =>
        have hawait : s.await self source = (none, s) := by rw [await, found]
        simp only [hawait] at h
        cases h
        exact ⟨_, .unfounded htask found⟩
      | some p =>
        cases ready : p.result with
        | none =>
          simp only [await_of_pending found ready] at h
          cases h
          exact ⟨_, .blocked htask found ready⟩
        | some r =>
          cases r with
          | error e =>
            simp only [await_of_result found ready] at h
            cases h
            exact ⟨_, .failed htask found ready⟩
          | ok v =>
            simp only [await_of_result found ready] at h
            exact moved (.resumed found ready) h

/-- Every turn is the one that the engine takes. -/
theorem turn_of_turned {s t : Run} {self : TaskId} {log : List Event} (active : s.active = true)
    (turned : Turned s self log t) : turn s self = some t := by
  rw [turn]
  cases turned with
  | absent gone => rw [gone]
  | asleep task => rw [task]
  | unfounded task missing =>
    rw [task]
    simp only [await, missing]
  | blocked task found missing =>
    rw [task]
    simp only [await_of_pending found missing]
  | failed task found failed =>
    rw [task]
    simp only [await_of_result found failed]
  | @moved task body b₁ s₁ s₂ log log₁ progress found goes steps halt =>
    have hwork : work self task.goal.reader body s = some (progress, s₂) := by
      rw [work_of_steps steps, work_of_halt (steps.active_eq.trans active) halt]
    obtain ⟨goal, state⟩ := task
    rw [found]
    cases goes with
    | ready body => simp only [hwork, Option.map_some]
    | resumed promised ready => simp only [await_of_result promised ready, hwork, Option.map_some]

end Run

end ArrayInference
