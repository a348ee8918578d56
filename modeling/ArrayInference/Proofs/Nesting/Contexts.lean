import ArrayInference.Proofs.Nesting.Placing
import ArrayInference.Proofs.Run.Bounded
import ArrayInference.Proofs.Run.Root
import ArrayInference.Proofs.Tracks.Charting

/-!
# Contexts follow lexical nesting

Whatever an engine is asked to infer, with the built-in rules, the context of every entry follows the
nesting of the graph whose frame the node of the entry sees. So the graphs of a context are the first
ones among the ancestors of a graph: no graph has two frames in it, however deep graphs call one
another, and there are not more frames than graphs around the node.
-/

namespace ArrayInference

namespace Run

variable {s t s₁ s₂ : Run} {self : TaskId} {reader : Option Entry} {log : List Event}
  {b b₁ : Infer Property} {progress : Progress Property}

/-- A task that keeps to the nesting wherever it goes on. -/
def Settles (p : Program) (task : Task) : Prop :=
  match task.work with
  | .ready body => body.Keeps p
  | .waiting _ next => ∀ q v, p.Sprouts q → (next v).Keeps q
  | .forever => True

/-- A run in which contexts follow the nesting of graphs. -/
structure Nested (s : Run) : Prop where
  standard : s.engine.Standard
  callables : ∀ {i : Nat} {c : Callable}, s.engine.callables[i]? = some c → s.engine.program.Allows c
  entries : ∀ {key : Entry}, s.promise? (.entry key) ≠ none →
    s.engine.program.Places (.node key.ref)
  tasks : ∀ {x : TaskId} {task : Task}, (x, task) ∈ s.tasks → Settles s.engine.program task

theorem Settles.mono {p q : Program} {task : Task} (h : Settles p task) (later : p.Sprouts q) :
    Settles q task := by
  obtain ⟨goal, work⟩ := task
  cases work with
  | ready body => exact Infer.Placed.mono h later
  | waiting source next => exact fun r v up => h r v (later.trans up)
  | forever => trivial

namespace Nested

/-- Nothing is asked for, and no task is made. -/
theorem recorded (h : s.Nested) (same : s.engine.Recorded t.engine)
    (entries : ∀ {key : Entry}, t.promise? (.entry key) ≠ none → s.promise? (.entry key) ≠ none)
    (tasks : t.tasks ⊆ s.tasks) : t.Nested where
  standard := h.standard.congr (by rw [same]) (by rw [same]) (by rw [same])
  callables := by
    rw [same]
    exact h.callables
  entries := by
    intro key there
    rw [same]
    exact h.entries (entries there)
  tasks := by
    intro x task there
    rw [same]
    exact h.tasks (tasks there)

/-- One more task. -/
theorem insert (h : s.Nested) (x : TaskId) (task : Task) (settles : Settles s.engine.program task) :
    Nested { s with tasks := s.tasks.insert x task } where
  standard := h.standard
  callables := h.callables
  entries := h.entries
  tasks := by
    intro y other there
    rcases Table.mem_insert there with same | there
    · cases same
      exact settles
    · exact h.tasks there

theorem spawn (h : s.Nested) (goal : Goal) (keeps : b.Keeps s.engine.program) :
    (s.spawn goal b).Nested :=
  (h.insert s.nextTask ⟨goal, .ready b⟩ keeps).recorded rfl id (List.Subset.refl _)

/-- A permitted question. -/
theorem answered (h : s.Nested) (query : Query) (permitted : s.engine.program.Permits query) :
    (s.afterAnswer query).Nested
      ∧ s.engine.program.Sprouts (s.afterAnswer query).engine.program := by
  have standard : (s.afterAnswer query).engine.Standard :=
    EngineM.keepsStandard_answer query _ h.standard
  have makes : s.engine.Makes query.Makes (s.afterAnswer query).engine :=
    EngineM.makes_answer query s.engine
  refine ⟨⟨standard, fun found => ?_, fun {key} there => ?_, fun there => ?_⟩, makes.program⟩
  · rcases makes.made found with old | new
    · exact (h.callables old).mono makes.program
    · refine (permitted.allows new fun track operator arity rule heq => ?_).mono makes.program
      exact standard.callables (heq ▸ found)
  · have same : (s.afterAnswer query).promise? (.entry key) = s.promise? (.entry key) :=
      congrArg (Table.find? · key) (afterAnswer_memo s query)
    exact (h.entries (same ▸ there)).mono makes.program
  · exact (h.tasks there).mono makes.program

/-- What a question that keeps to the nesting is answered with. -/
theorem answers_answer {query : Query} (permitted : s.engine.program.Permits query) :
    (s.afterAnswer query).engine.program.Answers query ((EngineM.answer query).run s.engine).1 := by
  cases query with
  | locate id ctx => exact Program.Linked.locate permitted id
  | node id => rfl
  | _ => trivial

theorem step (h : s.Nested) (keeps : b.Keeps s.engine.program) (step : Step reader b s log b₁ t) :
    t.Nested ∧ b₁.Keeps t.engine.program := by
  cases step with
  | ask query next =>
    cases keeps with
    | ask permitted later =>
      obtain ⟨nested, up⟩ := h.answered _ permitted
      exact ⟨nested, later _ _ up (answers_answer permitted)⟩
  | @read key next _ p v found ready =>
    cases keeps with
    | demand places later =>
      have same := recorded_addReader s key reader
      refine ⟨h.recorded same (fun {k} there => promise?_addReader s key reader _ ▸ there) ?_, ?_⟩
      · cases reader <;> exact List.Subset.refl _
      · rw [same]
        exact later _ v (.refl _)
  | call found =>
    cases keeps with
    | call places later =>
      exact ⟨h, (Callable.keeps_body (h.callables found) places).bind fun q v up _ => later q v up⟩

theorem steps (h : s.Nested) (keeps : b.Keeps s.engine.program)
    (steps : Steps reader b s log b₁ t) : t.Nested ∧ b₁.Keeps t.engine.program := by
  induction steps with
  | refl b s => exact ⟨h, keeps⟩
  | head first rest ih =>
    obtain ⟨h, keeps⟩ := h.step keeps first
    exact ih h keeps

/-- What a turn leaves of a task keeps to the nesting. -/
def Leaves (p : Program) : Progress Property → Prop
  | .waiting _ next => ∀ q v, p.Sprouts q → (next v).Keeps q
  | .calling body => body.Keeps p
  | .ended _ | .forever => True

theorem addReader (h : s.Nested) (key : Entry) (reader : Option Entry) :
    (s.addReader key reader).Nested := by
  refine h.recorded (recorded_addReader s key reader)
    (fun {k} there => promise?_addReader s key reader _ ▸ there) ?_
  cases reader <;> exact List.Subset.refl _

theorem waitOn (h : s.Nested) {source : Source} {p : Promise TaskId}
    (found : s.promise? source = some p) (missing : p.result = none) (self : TaskId) :
    (s.waitOn self source p).Nested :=
  h.recorded (recorded_setPromise s source _) ((alike_waitOn found missing self).present _).mp
    ((alike_waitOn found missing self).tasks ▸ List.Subset.refl _)

/-- An entry that is asked for gets a task, and its context follows the nesting. -/
theorem beginEntry (h : s.Nested) {key : Entry} (places : s.engine.program.Places (.node key.ref))
    (self : TaskId) : (s.beginEntry self key).Nested := by
  have entered : (s.setMemo (s.engine.memo.insert key { result := none, waiters := [self] })).Nested :=
    ⟨h.standard.congr rfl rfl rfl, h.callables, fun {k} there => by
      replace there : (s.engine.memo.insert key _).find? k ≠ none := there
      rw [Table.find?_insert] at there
      split at there
      · rename_i same
        exact same ▸ places
      · exact h.entries there, h.tasks⟩
  exact entered.spawn _ (Infer.keeps_infer key.track places)

theorem beginRace (h : s.Nested) {first second : Ref} (places : s.engine.program.Places first)
    (places' : s.engine.program.Places second) (self : TaskId) (site : Option Entry) (track : Track)
    (use : BranchUse) : (s.beginRace self site track use first second).Nested := by
  have raced : (s.race site track use first second).2.Nested :=
    Nested.spawn (Nested.spawn (h.recorded (t := { s with cells := s.cells.push .pending }) rfl id
        (List.Subset.refl _)) _ (Infer.keeps_branch track use places)) _
      (Infer.keeps_branch track use places')
  exact raced.recorded rfl id (List.Subset.refl _)

theorem halt (h : s.Nested) (keeps : b.Keeps s.engine.program)
    (halt : Halt self reader b s log progress t) : t.Nested ∧ Leaves t.engine.program progress := by
  have later : s.engine.program = t.engine.program := by rw [halt.recorded]
  cases halt with
  | readFailed found failed => exact ⟨h.addReader _ _, trivial⟩
  | @wait key next _ p found missing =>
    cases keeps with
    | demand places next =>
      have found : (s.addReader key reader).promise? (.entry key) = some p :=
        (promise?_addReader s key reader _).trans found
      exact ⟨(h.addReader key reader).waitOn found missing self, later ▸ next⟩
  | @begin key next _ absent =>
    cases keeps with
    | demand places next =>
      refine ⟨(h.addReader key reader).beginEntry ?_ self, later ▸ next⟩
      rw [recorded_addReader s key reader]
      exact places
  | race track use first second next =>
    cases keeps with
    | unify places places' next => exact ⟨h.beginRace places places' self reader track use, later ▸ next⟩
  | _ => exact ⟨h, trivial⟩

theorem ended (h : s.Nested) (self : TaskId) (goal : Goal) (r : Outcome) :
    (s.endTask self goal r).Nested := by
  have ending := ending_endTask s self goal r
  refine h.recorded (ending.recorded : (s.leave self).engine.Recorded _) (fun there => ?_) ?_
  · rw [ending.promise?_ne_none, promise?_leave] at there
    exact there
  · rw [ending.same.1]
    exact (Table.erase_sublist s.tasks self).subset

theorem settle (h : s.Nested) (leaves : Leaves s.engine.program progress) (goal : Goal) :
    (s.settle self goal progress).Nested := by
  cases progress with
  | ended r => exact h.ended self goal r
  | waiting source next => exact h.insert self ⟨goal, .waiting source next⟩ leaves
  | calling body => exact h.insert self ⟨goal, .ready body⟩ leaves
  | forever => exact h.insert self ⟨goal, .forever⟩ trivial

/-- Every turn keeps contexts to the nesting. -/
theorem turned (h : s.Nested) (turned : Turned s self log t) : t.Nested := by
  cases turned with
  | absent gone => exact h
  | asleep task => exact h
  | unfounded task missing => exact h
  | blocked task found missing => exact h.waitOn found missing self
  | failed task found failed => exact h.ended self _ _
  | @moved task body b₁ s₁ s₂ asks log progress found goes steps halt =>
    have settles := h.tasks (Table.mem_of_find? found)
    have keeps : body.Keeps s.engine.program := by
      obtain ⟨goal, work⟩ := task
      cases goes with
      | ready body => exact settles
      | resumed found ready => exact settles _ _ (.refl _)
    obtain ⟨h, keeps⟩ := h.steps keeps steps
    obtain ⟨h, leaves⟩ := h.halt keeps halt
    exact h.settle leaves task.goal

/-- Every run does, in any order of turns. -/
theorem polls (h : s.Nested) (polls : Polls s log t) : t.Nested :=
  Polls.invariant (fun _ s => s.Nested)
    (fun {_ _ s _ _ schedule} h _ turn =>
      (h.recorded (t := s.scheduled schedule) rfl id (List.Subset.refl _)).turned turn) [] polls h

end Nested

end Run

namespace Engine

/-- An engine that has inferred graphs of a program, each in any order of turns. -/
inductive Infers (program : Program) : Engine → Prop where
  | new (types : TypeCache) (config : Config) : Infers program (.new program types config)
  | ran {e : Engine} (h : Infers program e) {graph : GraphId} {args : List ArgSpec} {track : Track}
      {log : List Event} {s : Run} (polls : Run.Polls (Run.asking e graph args track) log s)
      (finished : s.Finished) : Infers program s.close

theorem Infers.arises {p : Program} {e : Engine} (h : e.Infers p) : e.Arises := by
  induction h with
  | new types config => exact .new p types config
  | ran _ polls finished ih => exact .ran (.answered ih (.graphInferrer _ _ .empty)) _ polls finished

end Engine

namespace Run

variable {p : Program} {e : Engine} {s : Run} {graph : GraphId} {args : List ArgSpec}
  {track : Track} {log : List Event} {key : Entry}

theorem Nested.asking (h : (start e true).Nested) (graph : GraphId) (args : List ArgSpec)
    (track : Track) :
    (asking e graph args track).Nested
      ∧ e.program.Sprouts (Run.asking e graph args track).engine.program := by
  obtain ⟨nested, up⟩ := h.answered (.graphInferrer track graph .empty) trivial
  refine ⟨nested.spawn .answer (Infer.keeps_callInferrer fun x hx => ?_), up⟩
  obtain ⟨a, -, rfl⟩ := List.mem_map.mp hx
  trivial

theorem Nested.close (h : s.Nested) (distinct : s.Distinct) : (start s.close true).Nested := by
  refine h.recorded (t := start s.close true) rfl (fun {key} there => ?_) (by simp [start])
  intro absent
  refine there ?_
  replace absent : s.engine.memo.find? key = none := absent
  show s.engine.memo.resolved.find? key = none
  rw [Memo.resolved, Table.find?_filter distinct.1, absent]
  rfl

/-- Generators are all that adds to a program. -/
theorem Polls.sprouts {t : Run} (polls : Polls s log t) :
    s.engine.program.Sprouts t.engine.program :=
  Engine.Follows.invariant (fun e => s.engine.program.Sprouts e.program)
    (fun query up => up.trans (EngineM.makes_answer query _).program) (fun _ _ _ up => up)
    polls.follows (.refl _)

end Run

end ArrayInference
