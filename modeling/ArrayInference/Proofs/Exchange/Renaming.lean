import ArrayInference.Proofs.Exchange.Twins
import ArrayInference.Proofs.Run.Frame
import Mathlib.Logic.Equiv.Basic

/-!
# Runs that differ in the numbers of tasks

A run of the program with two branches exchanged can do what a run of the program does, task by task.
Only the two tasks of a conditional are made in the other order, so a task may have another number
there. Errors may name the branches in the other order as well, so of a failure it is only compared
that it is one.
-/

namespace ArrayInference

section

variable {α β : Type} {r r' : α → β → Prop}

theorem exists_of_rel_some {a : α} {q : Option β} (h : Option.Rel r (some a) q) :
    ∃ b, q = some b ∧ r a b := by
  cases h with
  | some h => exact ⟨_, rfl, h⟩

theorem eq_none_of_rel {q : Option β} (h : Option.Rel r none q) : q = none := by
  cases h
  rfl

theorem rel_imp {p : Option α} {q : Option β} (h : Option.Rel r p q)
    (imp : ∀ a b, r a b → r' a b) : Option.Rel r' p q := by
  cases h with
  | none => exact .none
  | some h => exact .some (imp _ _ h)

end

variable {x : Exchange} {σ τ : Equiv.Perm TaskId} {n m : Nat}

/-- The promises of two runs: the same result, or a failure in both, and the same tasks that wait,
all of them numbered below `n`. -/
structure SamePromise (σ : Equiv.Perm TaskId) (n : Nat) (p q : Promise TaskId) : Prop where
  result : q.result.map Except.toOption = p.result.map Except.toOption
  waiters : q.waiters = p.waiters.map σ
  bounded : ∀ i ∈ p.waiters, i < n

namespace SamePromise

variable {p q : Promise TaskId}

theorem mono (h : SamePromise σ n p q) (le : n ≤ m) (agree : ∀ i < n, τ i = σ i) :
    SamePromise τ m p q where
  result := h.result
  waiters := by
    rw [h.waiters]
    exact List.map_congr_left fun i hi => (agree i (h.bounded i hi)).symm
  bounded := fun i hi => Nat.lt_of_lt_of_le (h.bounded i hi) le

theorem missing_iff (h : SamePromise σ n p q) : q.result = none ↔ p.result = none := by
  have := h.result
  cases hp : p.result <;> cases hq : q.result <;> simp_all

theorem ok_iff (h : SamePromise σ n p q) {v : Property} :
    q.result = some (.ok v) ↔ p.result = some (.ok v) := by
  have := h.result
  rcases hp : p.result with _ | _ | _ <;> rcases hq : q.result with _ | _ | _ <;>
    simp_all [Except.toOption]

theorem failed (h : SamePromise σ n p q) {e : InferError} (he : p.result = some (.error e)) :
    ∃ e', q.result = some (.error e') := by
  have := h.result
  rcases hq : q.result with _ | _ | _ <;> simp_all [Except.toOption]

theorem hasFailed_eq (h : SamePromise σ n p q) : q.hasFailed = p.hasFailed := by
  have := h.result
  rcases hp : p.result with _ | _ | _ <;> rcases hq : q.result with _ | _ | _ <;>
    simp_all [Except.toOption, Promise.hasFailed]

/-- A promise that has just got its result. -/
theorem settled {r r' : Outcome} (same : r'.toOption = r.toOption) :
    SamePromise σ n { result := some r, waiters := [] } { result := some r', waiters := [] } where
  result := congrArg some same
  waiters := rfl
  bounded := by simp

/-- One task more waits. -/
theorem wait (h : SamePromise σ n p q) {self : TaskId} (own : self < n) :
    SamePromise σ n { result := none, waiters := p.waiters ++ [self] }
      { result := none, waiters := q.waiters ++ [σ self] } where
  result := rfl
  waiters := by rw [h.waiters, List.map_append, List.map_singleton]
  bounded := by
    intro i hi
    rcases List.mem_append.mp hi with hi | hi
    · exact h.bounded i hi
    · exact List.mem_singleton.mp hi ▸ own

end SamePromise

/-- The tasks of two runs are for the same. -/
inductive SameGoal : Goal → Goal → Prop where
  | answer : SameGoal .answer .answer
  | entry (key : Entry) : SameGoal (.entry key) (.entry key)
  | branch {c c' : BranchCheck} (cell : c'.cell = c.cell) (track : c'.track = c.track)
      (site : c'.site = c.site) : SameGoal (.branch c) (.branch c')

theorem SameGoal.reader_eq {g g' : Goal} (h : SameGoal g g') : g'.reader = g.reader := by
  cases h <;> rfl

/-- They have come equally far. -/
inductive SameWork (x : Exchange) : Work → Work → Prop where
  | ready {b b' : Infer Property} (twins : Twins x b b') : SameWork x (.ready b) (.ready b')
  | waiting {source : Source} {next next' : Property → Infer Property}
      (later : ∀ v, (∀ key, source = .entry key → x.Fits key v) → Twins x (next v) (next' v)) :
      SameWork x (.waiting source next) (.waiting source next')
  | forever : SameWork x .forever .forever

/-- The tasks of two runs that belong together. -/
structure SameTask (x : Exchange) (t t' : Task) : Prop where
  goal : SameGoal t.goal t'.goal
  work : SameWork x t.work t'.work

namespace Run

/-- A run, and one of the program with the branches exchanged that has come equally far. A task of the
one is `σ` of it in the other. -/
structure Exchanged (x : Exchange) (σ : Equiv.Perm TaskId) (s t : Run) : Prop where
  engine : t.engine = s.engine.exchanged x.id t.engine.memo t.engine.diagnostics
  active : t.active = s.active
  ready : t.schedule.ready = s.schedule.ready.map σ
  incoming : t.schedule.incoming = s.schedule.incoming.map σ
  queued : ∀ i ∈ s.schedule.queue, i < s.nextTask
  tasks : ∀ i, Option.Rel (SameTask x) (s.tasks.find? i) (t.tasks.find? (σ i))
  distinct : s.tasks.Distinct
  distinct' : t.tasks.Distinct
  bounded : ∀ i task, s.tasks.find? i = some task → i < s.nextTask
  nextTask : t.nextTask = s.nextTask
  fresh : ∀ i, s.nextTask ≤ i → σ i = i
  promises : ∀ source, Option.Rel (SamePromise σ s.nextTask) (s.promise? source) (t.promise? source)
  cells : t.cells.size = s.cells.size
  detached : t.detached = [] ↔ s.detached = []
  outcome : t.outcome.map Except.toOption = s.outcome.map Except.toOption

namespace Exchanged

variable {s t : Run} {self : TaskId} {source : Source}

theorem promise_of_some (h : Exchanged x σ s t) (source : Source) {p : Promise TaskId}
    (found : s.promise? source = some p) :
    ∃ q, t.promise? source = some q ∧ SamePromise σ s.nextTask p q :=
  exists_of_rel_some (found ▸ h.promises source)

theorem promise_of_none (h : Exchanged x σ s t) (source : Source)
    (absent : s.promise? source = none) : t.promise? source = none :=
  eq_none_of_rel (absent ▸ h.promises source)

theorem task_of_some (h : Exchanged x σ s t) {task : Task} (found : s.tasks.find? self = some task) :
    ∃ task', t.tasks.find? (σ self) = some task' ∧ SameTask x task task' :=
  exists_of_rel_some (found ▸ h.tasks self)

theorem task_of_none (h : Exchanged x σ s t) (absent : s.tasks.find? self = none) :
    t.tasks.find? (σ self) = none :=
  eq_none_of_rel (absent ▸ h.tasks self)

theorem callable?_eq (h : Exchanged x σ s t) (f : Inferrer) :
    t.engine.callable? f = s.engine.callable? f := by
  rw [h.engine]
  rfl

/-- Both engines change in the same way, apart from the results. -/
theorem withEngine (h : Exchanged x σ s t) {e f : Engine}
    (same : f = e.exchanged x.id f.memo f.diagnostics) (memo : e.memo = s.engine.memo)
    (memo' : f.memo = t.engine.memo) :
    Exchanged x σ { s with engine := e } { t with engine := f } := by
  refine { h with engine := same, promises := fun source => ?_ }
  have hrel := h.promises source
  cases source with
  | entry key =>
    show Option.Rel _ (e.memo.find? key) (f.memo.find? key)
    rw [memo, memo']
    exact hrel
  | cell id => exact hrel

theorem afterAnswer (h : Exchanged x σ s t) (known : x.id.index < s.engine.program.nodes.size)
    (query : Query) (other : query ≠ .node x.id) :
    ((EngineM.answer query).run t.engine).1 = ((EngineM.answer query).run s.engine).1
      ∧ Exchanged x σ (s.afterAnswer query) (t.afterAnswer query) := by
  obtain ⟨d', hrun⟩ := EngineM.echoes_answer known other t.engine.memo t.engine.diagnostics
  rw [← h.engine] at hrun
  refine ⟨by rw [hrun], h.withEngine ?_ ?_ ?_⟩
  · rw [hrun]
    rfl
  · exact (EngineM.grows_answer query s.engine).memo
  · exact (EngineM.grows_answer query t.engine).memo

theorem addReader (h : Exchanged x σ s t) (key : Entry) (reader : Option Entry) :
    Exchanged x σ (s.addReader key reader) (t.addReader key reader) := by
  cases reader with
  | none => exact h
  | some reader =>
    refine @withEngine x σ s t h { s.engine with readers := s.engine.readers.add key reader }
      { t.engine with readers := t.engine.readers.add key reader } ?_ rfl rfl
    rw [h.engine]
    rfl

theorem note (h : Exchanged x σ s t) (d d' : Diagnostic) :
    Exchanged x σ { s with engine := { s.engine with diagnostics := s.engine.diagnostics.emit d } }
      { t with engine := { t.engine with diagnostics := t.engine.diagnostics.emit d' } } := by
  refine h.withEngine ?_ rfl rfl
  rw [h.engine]
  rfl

/-- The promise of a source changes in both runs. -/
theorem setPromise (h : Exchanged x σ s t) (source : Source) {p q : Promise TaskId}
    (same : SamePromise σ s.nextTask p q)
    (hs : ∀ other, (s.setPromise source p).promise? other
      = if source = other then some p else s.promise? other)
    (ht : ∀ other, (t.setPromise source q).promise? other
      = if source = other then some q else t.promise? other) :
    Exchanged x σ (s.setPromise source p) (t.setPromise source q) := by
  have hpromises : ∀ other, Option.Rel (SamePromise σ s.nextTask)
      ((s.setPromise source p).promise? other) ((t.setPromise source q).promise? other) := by
    intro other
    rw [hs, ht]
    split
    · exact .some same
    · exact h.promises other
  cases source with
  | entry key =>
    refine { h with engine := ?_, promises := hpromises }
    exact congrArg (fun e : Engine => { e with memo := t.engine.memo.insert key q }) h.engine
  | cell id =>
    refine { h with promises := hpromises, cells := ?_ }
    show (t.cells.setIfInBounds id q).size = (s.cells.setIfInBounds id p).size
    rw [Array.size_setIfInBounds, Array.size_setIfInBounds, h.cells]

theorem setFound (h : Exchanged x σ s t) {p q p₁ q₁ : Promise TaskId}
    (found : s.promise? source = some p) (found' : t.promise? source = some q)
    (same : SamePromise σ s.nextTask p₁ q₁) :
    Exchanged x σ (s.setPromise source p₁) (t.setPromise source q₁) :=
  h.setPromise source same (promise?_setPromise found p₁) (promise?_setPromise found' q₁)

/-- A task waits. -/
theorem waitOn (h : Exchanged x σ s t) (own : self < s.nextTask) {p q : Promise TaskId}
    (found : s.promise? source = some p) (found' : t.promise? source = some q)
    (same : SamePromise σ s.nextTask p q) :
    Exchanged x σ (s.waitOn self source p) (t.waitOn (σ self) source q) :=
  h.setFound found found' (same.wait own)

/-- Numbers that are not taken yet do not belong to other tasks. -/
theorem fresh_ne (h : Exchanged x σ s t) {new i : TaskId} (le : s.nextTask ≤ new) (hi : new ≠ i) :
    new ≠ σ i := by
  intro heq
  rw [← h.fresh new le] at heq
  exact hi (σ.injective heq)

/-- A new task. -/
theorem spawn (h : Exchanged x σ s t) {goal goal' : Goal} {body body' : Infer Property}
    (same : SameGoal goal goal') (twins : Twins x body body') :
    Exchanged x σ (s.spawn goal body) (t.spawn goal' body') := by
  have hnew : σ s.nextTask = s.nextTask := h.fresh _ (Nat.le_refl _)
  refine { h with
    incoming := ?_, queued := ?_, tasks := ?_, distinct := h.distinct.insert _ _
    distinct' := h.distinct'.insert _ _, bounded := ?_, nextTask := congrArg (· + 1) h.nextTask
    fresh := fun i hi => h.fresh i (Nat.le_of_succ_le hi), promises := fun source => ?_ }
  · show t.schedule.incoming ++ [t.nextTask] = (s.schedule.incoming ++ [s.nextTask]).map σ
    rw [h.incoming, h.nextTask, List.map_append, List.map_singleton, hnew]
  · intro i hi
    show i < s.nextTask + 1
    rcases (Schedule.mem_spawn s.schedule s.nextTask i).mp hi with hi | rfl
    · exact Nat.lt_succ_of_lt (h.queued i hi)
    · exact Nat.lt_succ_self _
  · intro i
    show Option.Rel _ ((s.tasks.insert s.nextTask _).find? i)
      ((t.tasks.insert t.nextTask _).find? (σ i))
    rw [Table.find?_insert, Table.find?_insert, h.nextTask]
    by_cases hi : s.nextTask = i
    · subst hi
      rw [if_pos rfl, if_pos hnew.symm]
      exact .some ⟨same, .ready twins⟩
    · rw [if_neg hi, if_neg (h.fresh_ne (Nat.le_refl _) hi)]
      exact h.tasks i
  · intro i task found
    show i < s.nextTask + 1
    replace found : (s.tasks.insert s.nextTask _).find? i = some task := found
    rw [Table.find?_insert] at found
    split at found
    · rename_i heq
      exact heq ▸ Nat.lt_succ_self _
    · exact Nat.lt_succ_of_lt (h.bounded i task found)
  · have hs : (s.spawn goal body).promise? source = s.promise? source := by cases source <;> rfl
    have ht : (t.spawn goal' body').promise? source = t.promise? source := by cases source <;> rfl
    rw [hs, ht]
    exact rel_imp (h.promises source) fun _ _ same => same.mono (Nat.le_succ _) fun _ _ => rfl

/-- A task goes on as another one. -/
theorem setTask (h : Exchanged x σ s t) (own : self < s.nextTask) {task task' : Task}
    (same : SameTask x task task') :
    Exchanged x σ { s with tasks := s.tasks.insert self task }
      { t with tasks := t.tasks.insert (σ self) task' } := by
  refine { h with
    tasks := ?_, distinct := h.distinct.insert _ _, distinct' := h.distinct'.insert _ _
    bounded := ?_ }
  · intro i
    show Option.Rel _ ((s.tasks.insert self _).find? i) ((t.tasks.insert (σ self) _).find? (σ i))
    rw [Table.find?_insert, Table.find?_insert]
    by_cases hi : self = i
    · rw [if_pos hi, if_pos (congrArg σ hi)]
      exact .some same
    · rw [if_neg hi, if_neg fun heq => hi (σ.injective heq)]
      exact h.tasks i
  · intro i task found
    replace found : (s.tasks.insert self _).find? i = some task := found
    rw [Table.find?_insert] at found
    split at found
    · rename_i heq
      exact heq ▸ own
    · exact h.bounded i task found

/-- A task leaves. -/
theorem leave (h : Exchanged x σ s t) (self : TaskId) :
    Exchanged x σ (s.leave self) (t.leave (σ self)) := by
  refine { h with
    tasks := ?_, distinct := h.distinct.erase _, distinct' := h.distinct'.erase _
    bounded := ?_, promises := fun source => ?_ }
  · intro i
    show Option.Rel _ ((s.tasks.erase self).find? i) ((t.tasks.erase (σ self)).find? (σ i))
    rw [Table.find?_erase h.distinct, Table.find?_erase h.distinct']
    by_cases hi : self = i
    · rw [if_pos hi, if_pos (congrArg σ hi)]
      exact .none
    · rw [if_neg hi, if_neg fun heq => hi (σ.injective heq)]
      exact h.tasks i
  · intro i task found
    replace found : (s.tasks.erase self).find? i = some task := found
    rw [Table.find?_erase h.distinct] at found
    split at found
    · cases found
    · exact h.bounded i task found
  · rw [promise?_leave, promise?_leave]
    exact h.promises source

/-- Tasks can go on. -/
theorem wake (h : Exchanged x σ s t) {woken : List TaskId} (bounded : ∀ i ∈ woken, i < s.nextTask) :
    Exchanged x σ (s.wake woken) (t.wake (woken.map σ)) := by
  refine { h with ready := ?_, queued := ?_, promises := fun source => ?_ }
  · show (woken.map σ).foldl _ t.schedule.ready = (woken.foldl _ s.schedule.ready).map σ
    rw [h.ready]
    generalize s.schedule.ready = ready
    clear bounded
    induction woken generalizing ready with
    | nil => rfl
    | cons first rest ih =>
      rw [List.map_cons, List.foldl_cons, List.foldl_cons, ← ih]
      congr 1
      by_cases hfirst : first ∈ ready
      · rw [if_pos hfirst, if_pos (List.mem_map_of_mem hfirst)]
      · rw [if_neg hfirst, if_neg, List.map_append, List.map_singleton]
        intro hmem
        obtain ⟨i, hi, heq⟩ := List.mem_map.mp hmem
        exact hfirst (σ.injective heq ▸ hi)
  · intro i hi
    rcases (Schedule.mem_wake _ _ _).mp hi with hi | hi
    · exact h.queued i hi
    · exact bounded i hi
  · rw [promise?_wake, promise?_wake]
    exact h.promises source

end Exchanged

end Run

end ArrayInference
