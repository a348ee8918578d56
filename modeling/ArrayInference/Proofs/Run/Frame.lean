import ArrayInference.Proofs.Engine.Growth
import ArrayInference.Proofs.Engine.Poisoning
import ArrayInference.Proofs.Run.Queue
import ArrayInference.Proofs.Run.Turn

/-!
# What a turn changes

The parts of a run that an invariant speaks of are the tasks, the queue, and the results of the
sources. For each thing that a turn does, this is what becomes of each of them.
-/

namespace ArrayInference

namespace Run

/-- The result of a source, if there is one. -/
def resultOf (s : Run) (source : Source) : Option Outcome :=
  (s.promise? source).bind fun p => p.result

/-- Whether a task waits for a source. -/
def Waits (s : Run) (t : TaskId) (source : Source) : Prop :=
  ∃ goal next, s.tasks.find? t = some ⟨goal, .waiting source next⟩

theorem resultOf_of_promise? {s : Run} {source : Source} {p : Promise TaskId}
    (found : s.promise? source = some p) : s.resultOf source = p.result := by
  rw [resultOf, found, Option.bind_some]

theorem exists_promise_of_resultOf {s : Run} {source : Source} {r : Outcome}
    (h : s.resultOf source = some r) : ∃ p, s.promise? source = some p ∧ p.result = some r := by
  rw [resultOf, Option.bind_eq_some_iff] at h
  exact h

/-! ## Promises -/

theorem promise?_setPromise {s : Run} {source : Source} {q : Promise TaskId}
    (found : s.promise? source = some q) (p : Promise TaskId) (other : Source) :
    (s.setPromise source p).promise? other = if source = other then some p else s.promise? other := by
  cases source with
  | entry key =>
    cases other with
    | entry k =>
      show (s.engine.memo.insert key p).find? k = _
      rw [Table.find?_insert]
      simp only [Source.entry.injEq, promise?]
    | cell id => rfl
  | cell id =>
    obtain ⟨hlt, -⟩ := Array.getElem?_eq_some_iff.mp found
    cases other with
    | entry k => rfl
    | cell i =>
      show (s.cells.setIfInBounds id p)[i]? = _
      rw [Array.getElem?_setIfInBounds]
      simp only [Source.cell.injEq, hlt, ↓reduceIte, promise?]

theorem promise?_waitOn {s : Run} {source : Source} {q : Promise TaskId}
    (found : s.promise? source = some q) (self : TaskId) (other : Source) :
    (s.waitOn self source q).promise? other
      = if source = other then some { result := none, waiters := q.waiters ++ [self] }
        else s.promise? other :=
  promise?_setPromise found _ other

theorem promise?_beginEntry (s : Run) (self : TaskId) (key : Entry) (other : Source) :
    (s.beginEntry self key).promise? other
      = if Source.entry key = other then some { result := none, waiters := [self] }
        else s.promise? other := by
  cases other with
  | entry k =>
    show (s.engine.memo.insert key _).find? k = _
    rw [Table.find?_insert]
    simp only [Source.entry.injEq, promise?]
  | cell id => rfl

theorem promise?_beginRace (s : Run) (self : TaskId) (site : Option Entry) (track : Track)
    (use : BranchUse) (first second : Ref) (other : Source) :
    (s.beginRace self site track use first second).promise? other
      = if Source.cell s.cells.size = other then some { result := none, waiters := [self] }
        else s.promise? other := by
  have found : (s.race site track use first second).2.promise? (.cell s.cells.size)
      = some .pending := Array.getElem?_push_size
  rw [beginRace, promise?_setPromise found]
  cases other with
  | entry k => rfl
  | cell id =>
    by_cases h : Source.cell s.cells.size = .cell id
    · rw [if_pos h, if_pos h]
    · rw [if_neg h, if_neg h]
      show (s.cells.push _)[id]? = s.cells[id]?
      rw [Array.getElem?_push, if_neg]
      rintro rfl
      exact h rfl

/-- What a branch of a new conditional is checked against. -/
def newCheck (s : Run) (site : Option Entry) (track : Track) (first second subject : Ref) :
    BranchCheck :=
  { cell := s.cells.size, track, site, nodes := [first, second].filterMap Ref.node?, subject }

theorem find?_beginEntry (s : Run) (self : TaskId) (key : Entry) (x : TaskId) :
    (s.beginEntry self key).tasks.find? x
      = if s.nextTask = x then some ⟨.entry key, .ready (key.ref.infer key.track)⟩
        else s.tasks.find? x :=
  Table.find?_insert _ _ _ _

theorem find?_beginRace (s : Run) (self : TaskId) (site : Option Entry) (track : Track)
    (use : BranchUse) (first second : Ref) (x : TaskId) :
    (s.beginRace self site track use first second).tasks.find? x
      = if s.nextTask + 1 = x then
          some ⟨.branch (s.newCheck site track first second second),
            .ready (Infer.branch track use second)⟩
        else if s.nextTask = x then
          some ⟨.branch (s.newCheck site track first second first),
            .ready (Infer.branch track use first)⟩
        else s.tasks.find? x := by
  show Table.find? ((s.tasks.insert s.nextTask _).insert (s.nextTask + 1) _) x = _
  rw [Table.find?_insert, Table.find?_insert]
  rfl

theorem promise?_addReader (s : Run) (key : Entry) (reader : Option Entry) (other : Source) :
    (s.addReader key reader).promise? other = s.promise? other := by
  cases reader <;> cases other <;> rfl

theorem afterAnswer_memo (s : Run) (query : Query) :
    (s.afterAnswer query).engine.memo = s.engine.memo :=
  (EngineM.grows_answer query s.engine).memo

/-! ## The quiet part of a turn -/

variable {α : Type}

/-- What a quiet step leaves: only the engine has changed, and of the engine neither the results nor
who has read them, except for what was asked for. -/
structure Quiet (reader : Option Entry) (s : Run) (log : List Event) (t : Run) : Prop where
  same : t = { s with engine := t.engine }
  memo : t.engine.memo = s.engine.memo
  grown : s.engine.Extends t.engine
  /-- Only entries with a property were read. -/
  asked : ∀ event ∈ log, ∃ key p v, event = .asked reader key ∧ s.engine.memo.find? key = some p
    ∧ p.result = some (.ok v)
  readers : ∀ key other, other ∈ t.engine.readers.of key ↔
    other ∈ s.engine.readers.of key ∨ Event.asked (some other) key ∈ log

end Run

theorem Readers.mem_of_add (r : Readers) (key reader other k : Entry) :
    other ∈ (r.add key reader).of k ↔ other ∈ r.of k ∨ (other = reader ∧ k = key) := by
  rw [Readers.of, Readers.add, Table.find?_insert]
  by_cases h : key = k
  · subst h
    rw [if_pos rfl, Option.getD_some]
    by_cases hknown : reader ∈ r.of key
    · rw [if_pos hknown]
      constructor
      · exact fun hm => Or.inl hm
      · rintro (hm | ⟨rfl, -⟩)
        · exact hm
        · exact hknown
    · rw [if_neg hknown, List.mem_append, List.mem_singleton]
      simp only [and_true]
  · rw [if_neg h]
    constructor
    · exact fun hm => Or.inl hm
    · rintro (hm | ⟨-, hk⟩)
      · exact hm
      · exact absurd hk.symm h

namespace Run

theorem mem_readers_addReader (s : Run) (key : Entry) (reader : Option Entry) (k other : Entry) :
    other ∈ (s.addReader key reader).engine.readers.of k ↔
      other ∈ s.engine.readers.of k ∨ (reader = some other ∧ k = key) := by
  cases reader with
  | none => simp [addReader]
  | some reader =>
    rw [show (s.addReader key (some reader)).engine.readers
      = s.engine.readers.add key reader from rfl, Readers.mem_of_add]
    simp only [Option.some.injEq, eq_comm (a := reader)]

variable {α : Type} {reader : Option Entry} {s t u : Run} {log log' : List Event}

theorem addReader_extends (s : Run) (key : Entry) (reader : Option Entry) :
    s.engine.Extends (s.addReader key reader).engine := by
  cases reader with
  | none => exact .refl _
  | some reader =>
    exact ⟨rfl, rfl, .refl _, fun h => h, fun h => h, fun _ => List.prefix_refl _⟩

theorem Quiet.refl (s : Run) : Quiet reader s [] s where
  same := rfl
  memo := rfl
  grown := .refl _
  asked := fun _ h => nomatch h
  readers := fun _ _ => by simp

theorem Quiet.trans (h : Quiet reader s log t) (h' : Quiet reader t log' u) :
    Quiet reader s (log ++ log') u where
  same := by rw [h'.same, h.same]
  memo := h'.memo.trans h.memo
  grown := h.grown.trans h'.grown
  asked := by
    intro event hevent
    rcases List.mem_append.mp hevent with hmem | hmem
    · exact h.asked event hmem
    · have := h'.asked event hmem
      rwa [h.memo] at this
  readers := by
    intro key other
    rw [h'.readers, h.readers, List.mem_append, or_assoc]

theorem Step.quiet {b b₁ : Infer α} (step : Step reader b s log b₁ t) : Quiet reader s log t := by
  cases step with
  | ask query next =>
    have grows := EngineM.grows_answer query s.engine
    refine ⟨rfl, grows.memo, grows.toExtends, by simp, fun key other => ?_⟩
    rw [show (s.afterAnswer query).engine.readers = s.engine.readers from grows.readers]
    simp
  | @read key next _ p v found ready =>
    refine ⟨by cases reader <;> rfl, addReader_memo s key reader, addReader_extends s key reader,
      ?_, ?_⟩
    · intro event hevent
      exact ⟨key, p, v, List.mem_singleton.mp hevent, found, ready⟩
    · intro k other
      rw [mem_readers_addReader, List.mem_singleton, Event.asked.injEq]
      simp only [eq_comm (a := reader)]
  | call found => exact .refl s

/-- The steps before the last one of a turn are quiet. -/
theorem Steps.quiet {b b₁ : Infer α} (steps : Steps reader b s log b₁ t) :
    Quiet reader s log t := by
  induction steps with
  | refl b s => exact .refl s
  | head first rest ih => exact first.quiet.trans ih

/-- The last step of a turn does no more than ask. -/
theorem Halt.asks {self : TaskId} {progress : Progress α} (halt : Halt self reader b s log progress t) :
    ∀ event ∈ log, ∃ reader key, event = .asked reader key := by
  intro event there
  cases halt with
  | wait => exact ⟨_, _, List.mem_singleton.mp there⟩
  | begin => exact ⟨_, _, List.mem_singleton.mp there⟩
  | readFailed => exact ⟨_, _, List.mem_singleton.mp there⟩
  | _ => cases there

end Run

/-! ## The end of a task -/

/-- The source that a task gives its result to. -/
def Goal.source? : Goal → Option Source
  | .answer => none
  | .entry key => some (.entry key)
  | .branch c => some (.cell c.cell)

/-- The result that a task gives to its source. -/
def Goal.outcome : Goal → Outcome → Outcome
  | .entry key, r => Run.attributed key.ref.node r
  | .answer, r | .branch _, r => r

namespace Run

/-- A task leaves the run. -/
def leave (s : Run) (self : TaskId) : Run :=
  { s with tasks := s.tasks.erase self, schedule := s.schedule.finish }

/-- A source gets its result. -/
def fulfil (s : Run) (source : Source) (p : Promise TaskId) (r : Outcome) : Run :=
  (s.setPromise source { result := some r, waiters := [] }).wake p.waiters

/-- The branch that ends second fails, or disagrees with the first one. -/
inductive Clash (c : BranchCheck) (first : Property) : Outcome → InferError → Prop where
  | failed (e : InferError) : Clash c first (.error e) e
  | disagrees {second : Property} (differ : agree c.track first second = false) :
      Clash c first (.ok second) ⟨.branchMismatch c.track first.text second.text, c.nodes⟩

/-- What the end of a task does to the rest of the run. -/
inductive Ending (s : Run) : Goal → Outcome → Run → Prop where
  | answer (r : Outcome) : Ending s .answer r { s with outcome := some r }
  | fulfils {goal : Goal} {source : Source} {p : Promise TaskId} (r : Outcome)
      (aims : goal.source? = some source) (found : s.promise? source = some p)
      (missing : p.result = none) : Ending s goal r (s.fulfil source p (goal.outcome r))
  /-- The entry has failed while its task was still at work. -/
  | overtaken {key : Entry} (r : Outcome)
      (settled : ∀ p, s.promise? (.entry key) = some p → p.result.isSome) :
      Ending s (.entry key) r s
  /-- The branch that ended first has failed. -/
  | second {c : BranchCheck} {e : InferError} (r : Outcome)
      (first : s.resultOf (.cell c.cell) = some (.error e)) : Ending s (.branch c) r s
  | agrees {c : BranchCheck} {p q : Property} (first : s.resultOf (.cell c.cell) = some (.ok p))
      (same : agree c.track p q = true) (d : Diagnostic) :
      Ending s (.branch c) (.ok q)
        { s with engine := { s.engine with diagnostics := s.engine.diagnostics.emit d } }
  | late {c : BranchCheck} {p : Property} {r : Outcome} {e : InferError}
      (first : s.resultOf (.cell c.cell) = some (.ok p)) (clash : Clash c p r e) :
      Ending s (.branch c) r (s.failBranch c.site e)
  | lost {c : BranchCheck} (r : Outcome) (gone : s.promise? (.cell c.cell) = none) :
      Ending s (.branch c) r s

theorem hasFailed_attributed (node : NodeId) (r : Outcome) :
    (∃ e, attributed node r = .error e) ↔ ∃ e, r = .error e := by
  cases r with
  | ok p => exact ⟨fun ⟨_, h⟩ => (nomatch h), fun ⟨_, h⟩ => (nomatch h)⟩
  | error e => exact ⟨fun _ => ⟨e, rfl⟩, fun _ => ⟨_, rfl⟩⟩

theorem outcome_eq_error (goal : Goal) (r : Outcome) :
    (∃ e, goal.outcome r = .error e) ↔ ∃ e, r = .error e := by
  cases goal with
  | entry key => exact hasFailed_attributed _ _
  | answer => rfl
  | branch c => rfl

theorem resolve_of_pending {s : Run} {source : Source} {p : Promise TaskId}
    (found : s.promise? source = some p) (missing : p.result = none) (r : Outcome) :
    s.resolve source r = s.fulfil source p r := by
  rw [resolve, found, Option.bind_some, Promise.resolve?, Promise.isResolved, missing]
  rfl

theorem resolve_of_settled {s : Run} {source : Source}
    (settled : ∀ p, s.promise? source = some p → p.result.isSome) (r : Outcome) :
    s.resolve source r = s := by
  rw [resolve]
  cases found : s.promise? source with
  | none => rfl
  | some p =>
    rw [Option.bind_some, Promise.resolve?, Promise.isResolved, settled p found]
    rfl

/-- The end of a task is one of these. -/
theorem ending_endTask (s : Run) (self : TaskId) (goal : Goal) (r : Outcome) :
    Ending (s.leave self) goal r (s.endTask self goal r) := by
  cases goal with
  | answer => exact .answer r
  | entry key =>
    show Ending (s.leave self) (.entry key) r ((s.leave self).resolve (.entry key) _)
    by_cases h : ∃ p, (s.leave self).promise? (.entry key) = some p ∧ p.result = none
    · obtain ⟨p, found, missing⟩ := h
      rw [resolve_of_pending found missing]
      exact .fulfils r rfl found missing
    · have settled : ∀ p, (s.leave self).promise? (.entry key) = some p → p.result.isSome := by
        intro p found
        rw [Option.isSome_iff_ne_none]
        exact fun missing => h ⟨p, found, missing⟩
      rw [resolve_of_settled settled]
      exact .overtaken r settled
  | branch c =>
    show Ending (s.leave self) (.branch c) r ((s.leave self).endBranch c r)
    rw [endBranch]
    cases found : (s.leave self).promise? (.cell c.cell) with
    | none =>
      rw [Option.bind_none]
      simp only []
      rw [resolve, found, Option.bind_none]
      exact .lost r found
    | some p =>
      rw [Option.bind_some]
      have hresult := resultOf_of_promise? found
      cases hp : p.result with
      | none =>
        simp only []
        rw [resolve_of_pending found hp]
        exact .fulfils r rfl found hp
      | some first =>
        rw [hp] at hresult
        cases first with
        | error e => exact .second r hresult
        | ok v =>
          cases r with
          | error e => exact .late hresult (.failed e)
          | ok q =>
            simp only []
            split
            · rename_i same
              exact .agrees hresult same _
            · rename_i differ
              exact .late hresult (.disagrees (Bool.not_eq_true _ ▸ differ))

/-! ## A late failure -/

theorem failBranch_same (s : Run) (site : Option Entry) (e : InferError) :
    (s.failBranch site e).active = s.active ∧ (s.failBranch site e).tasks = s.tasks
      ∧ (s.failBranch site e).nextTask = s.nextTask ∧ (s.failBranch site e).cells = s.cells
      ∧ (s.failBranch site e).detached = s.detached ++ [e]
      ∧ (s.failBranch site e).outcome = s.outcome
      ∧ (s.failBranch site e).engine.readers = s.engine.readers := by
  cases site <;> exact ⟨rfl, rfl, rfl, rfl, rfl, rfl, rfl⟩

theorem mem_queue_failBranch {s : Run} {t : TaskId} (site : Option Entry) (e : InferError)
    (h : t ∈ s.schedule.queue) : t ∈ (s.failBranch site e).schedule.queue := by
  cases site with
  | none => exact h
  | some key => exact (Schedule.mem_wake _ _ _).mpr (Or.inl h)

/-- A late failure changes entries alone; those that it changes have failed with its error, and
whoever waited for them can go on. -/
theorem failBranch_changed (s : Run) (site : Option Entry) (e : InferError) (source : Source) :
    (s.failBranch site e).promise? source = s.promise? source ∨
      ∃ k p start, source = .entry k ∧ s.promise? source = some p ∧ p.hasFailed = false
        ∧ (s.failBranch site e).promise? source = some { result := some (.error e), waiters := [] }
        ∧ (∀ t ∈ p.waiters, t ∈ (s.failBranch site e).schedule.queue)
        ∧ site = some start ∧ Relation.ReflTransGen s.engine.readers.Edge start k := by
  cases site with
  | none =>
    refine Or.inl ?_
    cases source <;> rfl
  | some key =>
    cases source with
    | cell id => exact Or.inl rfl
    | entry k =>
      have poisoned := Memo.poisoned_poison s.engine.memo s.engine.readers key e
      rcases poisoned.changed k with hsame | ⟨p, hp, hsound, hnew, hwoken, start, hstart, path⟩
      · exact Or.inl hsame
      · rw [List.mem_singleton.mp hstart] at path
        refine Or.inr ⟨k, p, key, rfl, hp, hsound, hnew, ?_, rfl, path⟩
        exact fun t ht => (Schedule.mem_wake _ _ _).mpr (Or.inr (hwoken ht))

/-! ## What stays the same -/

/-- The run with another schedule. -/
def scheduled (s : Run) (schedule : Schedule) : Run :=
  { s with schedule }

@[simp] theorem promise?_scheduled (s : Run) (schedule : Schedule) (source : Source) :
    (s.scheduled schedule).promise? source = s.promise? source := by
  cases source <;> rfl

@[simp] theorem promise?_leave (s : Run) (self : TaskId) (source : Source) :
    (s.leave self).promise? source = s.promise? source := by
  cases source <;> rfl

@[simp] theorem promise?_wake (s : Run) (woken : List TaskId) (source : Source) :
    (s.wake woken).promise? source = s.promise? source := by
  cases source <;> rfl

theorem promise?_fulfil {s : Run} {source : Source} {q : Promise TaskId}
    (found : s.promise? source = some q) (r : Outcome) (other : Source) :
    (s.fulfil source q r).promise? other
      = if source = other then some { result := some r, waiters := [] } else s.promise? other := by
  rw [fulfil, promise?_wake, promise?_setPromise found]

theorem setPromise_same (s : Run) (source : Source) (p : Promise TaskId) :
    (s.setPromise source p).active = s.active ∧ (s.setPromise source p).schedule = s.schedule
      ∧ (s.setPromise source p).tasks = s.tasks ∧ (s.setPromise source p).nextTask = s.nextTask
      ∧ (s.setPromise source p).cells.size = s.cells.size
      ∧ (s.setPromise source p).detached = s.detached
      ∧ (s.setPromise source p).outcome = s.outcome
      ∧ (s.setPromise source p).engine.readers = s.engine.readers := by
  cases source with
  | entry key => exact ⟨rfl, rfl, rfl, rfl, rfl, rfl, rfl, rfl⟩
  | cell id => exact ⟨rfl, rfl, rfl, rfl, Array.size_setIfInBounds, rfl, rfl, rfl⟩

theorem Ending.active_eq {s t : Run} {goal : Goal} {r : Outcome} (ending : Ending s goal r t) :
    t.active = s.active := by
  cases ending with
  | fulfils r aims found missing => exact (setPromise_same s _ _).1
  | @late c p _ e first clash =>
    cases hsite : c.site <;> rfl
  | _ => rfl

theorem Halt.active_eq {self : TaskId} {reader : Option Entry} {b : Infer α} {s t : Run}
    {log : List Event} {progress : Progress α} (halt : Halt self reader b s log progress t) :
    t.active = s.active := by
  cases halt with
  | readFailed found failed => exact addReader_active _ _ _
  | wait found missing => exact (setPromise_same _ _ _).1.trans (addReader_active _ _ _)
  | begin absent => exact addReader_active _ _ _
  | race track use first second next => exact (setPromise_same _ _ _).1
  | _ => rfl

theorem Turned.active_eq {s t : Run} {self : TaskId} {log : List Event}
    (turned : Turned s self log t) : t.active = s.active := by
  cases turned with
  | blocked task found missing => exact (setPromise_same _ _ _).1
  | failed task found failed => exact (ending_endTask s self _ _).active_eq
  | @moved task body b₁ s₁ s₂ log log₁ progress found goes steps halt =>
    have h : s₂.active = s.active := halt.active_eq.trans steps.active_eq
    cases progress with
    | ended r => exact (ending_endTask s₂ self _ _).active_eq.trans h
    | _ => exact h
  | _ => rfl

end Run

end ArrayInference
