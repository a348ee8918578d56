import ArrayInference.Proofs.Run.Follows

/-!
# Runs in which nothing waits but callers

Without an undecided conditional only one task can go on at any time: the others wait for it, one for
the next. So a run is an evaluation. A task that needs the result of an entry begins the task of the
entry, and goes on when that one has ended; whatever the run has found before stays as it was.
-/

namespace ArrayInference

namespace Schedule

/-- If one task can go on, it is next. -/
theorem next?_of_queue {s : Schedule} {i : TaskId} (h : s.queue = [i]) :
    ∃ t, s.next? = some (i, t) ∧ t.queue = [] := by
  cases next : s.next? with
  | none =>
    rw [queue_of_next? next] at h
    cases h
  | some pair =>
    obtain ⟨j, t⟩ := pair
    have offers := offers_of_next? next
    rw [Offers, h, List.perm_singleton, List.cons.injEq] at offers
    obtain ⟨rfl, queue⟩ := offers
    exact ⟨t, rfl, queue⟩

end Schedule

namespace Run

/-- The run during the next turn. -/
def taken (s : Run) : Run :=
  s.scheduled (s.schedule.next?.elim s.schedule (·.2))

/-- What becomes of a run in which a task goes on with a computation. -/
def goOn (self : TaskId) (goal : Goal) (b : Infer Property) (s : Run) : Option Run :=
  (work self goal.reader b s).bind fun (progress, t) => drive (t.settle self goal progress)

/-- No other task can go on during the turn of a task. -/
structure Alone (i : TaskId) (s : Run) : Prop where
  active : s.active = true
  queue : s.schedule.queue = []
  numbered : i < s.nextTask

/-- What the work of a task leaves as it was: the other tasks, and every promise. -/
structure Spares (i : TaskId) (s t : Run) : Prop extends Alone i t where
  follows : s.engine.Follows t.engine
  nextTask : s.nextTask ≤ t.nextTask
  tasks : ∀ j < s.nextTask, j ≠ i → t.tasks.find? j = s.tasks.find? j
  memo : ∀ {key : Entry} {p : Promise TaskId},
    s.engine.memo.find? key = some p → t.engine.memo.find? key = some p
  detached : t.detached = s.detached

/-- The work of a task comes to its end with a result. -/
structure Returns (i : TaskId) (goal : Goal) (b : Infer Property) (s : Run) (r : Outcome)
    (t : Run) : Prop extends Spares i s t where
  goes : goOn i goal b s = drive (t.endTask i goal r)

/-- The run in which the task of an entry has its first turn. Another task has asked for the entry
and waits for it. -/
def descend (s : Run) (self : TaskId) (goal : Goal) (key : Entry) (next : Property → Infer Property) :
    Run :=
  (((s.addReader key goal.reader).beginEntry self key).settle self goal
    (.waiting (.entry key) next)).taken

/-- The run in which the task of an entry has ended, and the one that waits for it goes on. -/
def ascend (s : Run) (child : TaskId) (key : Entry) (r : Outcome) : Run :=
  (s.endTask child (.entry key) r).taken

variable {s t u : Run} {self i : TaskId} {goal : Goal} {b b₁ : Infer Property} {r r' : Outcome}
  {key : Entry} {next : Property → Infer Property} {log : List Event}

/-! ## Turns of the only task that can go on -/

theorem taken_queue (h : s.schedule.queue = [i]) : s.taken.schedule.queue = [] := by
  obtain ⟨schedule, next, queue⟩ := Schedule.next?_of_queue h
  show (s.schedule.next?.elim s.schedule (·.2)).queue = []
  rw [next]
  exact queue

theorem drive_of_queue (h : s.schedule.queue = [i]) : drive s = (turn s.taken i).bind drive := by
  obtain ⟨schedule, next, -⟩ := Schedule.next?_of_queue h
  rw [drive.eq_def, taken, next, Option.elim_some]
  cases turned : turn (s.scheduled schedule) i with
  | none =>
    rw [scheduled] at turned
    simp only [turned, Option.bind_none]
  | some u =>
    rw [scheduled] at turned
    simp only [turned, Option.bind_some]

theorem drive_of_rest (h : s.schedule.queue = []) : drive s = some s := by
  cases next : s.schedule.next? with
  | none => rw [drive.eq_def, next]
  | some pair =>
    have offers := Schedule.offers_of_next? next
    rw [Schedule.Offers, h, List.perm_nil] at offers
    cases offers

theorem goOn_of_map (s : Run) (self : TaskId) (goal : Goal) (b : Infer Property) :
    ((work self goal.reader b s).map fun (progress, t) => t.settle self goal progress).bind drive
      = goOn self goal b s := by
  rw [goOn, Option.map_eq_bind, Option.bind_assoc]
  rfl

theorem turn_of_ready (task : s.tasks.find? self = some ⟨goal, .ready b⟩) :
    (turn s self).bind drive = goOn self goal b s := by
  rw [turn, task]
  exact goOn_of_map s self goal b

theorem turn_of_answered {p : Promise TaskId} {v : Property}
    (task : s.tasks.find? self = some ⟨goal, .waiting (.entry key) next⟩)
    (found : s.engine.memo.find? key = some p) (ready : p.result = some (.ok v)) :
    (turn s self).bind drive = goOn self goal (next v) s := by
  rw [turn, task]
  simp only [@await_of_result s self (.entry key) p _ found ready]
  exact goOn_of_map s self goal (next v)

theorem turn_of_failed {p : Promise TaskId} {e : InferError}
    (task : s.tasks.find? self = some ⟨goal, .waiting (.entry key) next⟩)
    (found : s.engine.memo.find? key = some p) (failed : p.result = some (.error e)) :
    (turn s self).bind drive = drive (s.endTask self goal (.error e)) := by
  rw [turn, task]
  simp only [@await_of_result s self (.entry key) p _ found failed]
  rfl

/-! ## What is left as it was -/

theorem Alone.spares (h : Alone self s) : Spares self s s where
  toAlone := h
  follows := .refl
  nextTask := Nat.le_refl _
  tasks := fun _ _ _ => rfl
  memo := id
  detached := rfl

theorem Spares.trans (h : Spares self s t) (h' : Spares self t u) : Spares self s u where
  toAlone := h'.toAlone
  follows := h.follows.trans h'.follows
  nextTask := Nat.le_trans h.nextTask h'.nextTask
  tasks := fun i lt other =>
    (h'.tasks i (Nat.lt_of_lt_of_le lt h.nextTask) other).trans (h.tasks i lt other)
  memo := fun found => h'.memo (h.memo found)
  detached := h'.detached.trans h.detached

theorem Alone.spares_step {α : Type} {reader : Option Entry} {b b₁ : Infer α} (h : Alone self s)
    (step : Step reader b s log b₁ t) : Spares self s t := by
  have quiet := step.quiet
  have follows := step.follows
  have memo := quiet.memo
  rw [quiet.same]
  exact ⟨⟨h.active, h.queue, h.numbered⟩, follows, Nat.le_refl _, fun _ _ _ => rfl,
    fun found => by rw [memo, found], rfl⟩

theorem Alone.spares_addReader (h : Alone self s) (key : Entry) (reader : Option Entry) :
    Spares self s (s.addReader key reader) := by
  cases reader with
  | none => exact h.spares
  | some reader =>
    exact ⟨⟨h.active, h.queue, h.numbered⟩, follows_addReader s key (some reader), Nat.le_refl _,
      fun _ _ _ => rfl, id, rfl⟩

/-! ## Steps and ends -/

/-- A step of the turn. -/
theorem Returns.step (alone : Alone self s) (step : Step goal.reader b s log b₁ t)
    (h : Returns self goal b₁ t r u) : Returns self goal b s r u where
  toSpares := (alone.spares_step step).trans h.toSpares
  goes := by rw [goOn, work_of_step step, ← goOn, h.goes]

/-- The last step of the turn. -/
theorem returns_of_halt (alone : Alone self s) (spares : Spares self s t)
    (halt : Halt self goal.reader b s log (.ended r) t) : Returns self goal b s r t where
  toSpares := spares
  goes := by rw [goOn, work_of_halt alone.active halt]; rfl

theorem returns_done (alone : Alone self s) (p : Property) : Returns self goal (.done p) s (.ok p) s :=
  returns_of_halt alone alone.spares (.done p s)

theorem returns_fail (alone : Alone self s) (e : InferError) :
    Returns self goal (.fail e) s (.error e) s :=
  returns_of_halt alone alone.spares (.fail e s)

/-- A question that is answered at once. -/
theorem Returns.ask (alone : Alone self s) {query : Query} {next : query.Answer → Infer Property}
    (h : Returns self goal (next ((EngineM.answer query).run s.engine).1) (s.afterAnswer query) r t) :
    Returns self goal (.ask query next) s r t :=
  .step alone (.ask query next s) h

theorem Returns.call (alone : Alone self s) {callee : Inferrer} {args : List Ref} {c : Callable}
    (found : s.engine.callable? callee = some c)
    (h : Returns self goal ((c.body args).bind next) s r t) :
    Returns self goal (.call callee args next) s r t :=
  .step alone (.call found) h

/-- An entry that has a property. -/
theorem Returns.read (alone : Alone self s) {p : Promise TaskId} {v : Property}
    (found : s.engine.memo.find? key = some p) (ready : p.result = some (.ok v))
    (h : Returns self goal (next v) (s.addReader key goal.reader) r t) :
    Returns self goal (.demand key next) s r t :=
  .step alone (.read found ready) h

/-- An entry that has failed. -/
theorem returns_of_failed (alone : Alone self s) {p : Promise TaskId} {e : InferError}
    (found : s.engine.memo.find? key = some p) (failed : p.result = some (.error e)) :
    Returns self goal (.demand key next) s (.error e) (s.addReader key goal.reader) :=
  returns_of_halt alone (alone.spares_addReader key goal.reader) (.readFailed found failed)

/-! ## Entries that nobody has asked for -/

theorem descend_queue (alone : Alone self s) :
    (((s.addReader key goal.reader).beginEntry self key).settle self goal
      (.waiting (.entry key) next)).schedule.queue = [s.nextTask] := by
  have same := (alone.spares_addReader key goal.reader).queue
  have number : (s.addReader key goal.reader).nextTask = s.nextTask := by
    cases goal.reader <;> rfl
  show ((s.addReader key goal.reader).schedule.spawn
    (s.addReader key goal.reader).nextTask).queue = _
  rw [Schedule.queue, List.append_eq_nil_iff] at same
  rw [Schedule.queue, Schedule.spawn, same.1, same.2, number]
  rfl

theorem find?_descend (s : Run) (self : TaskId) (goal : Goal) (key : Entry)
    (next : Property → Infer Property) (i : TaskId) :
    (s.descend self goal key next).tasks.find? i
      = if self = i then some ⟨goal, .waiting (.entry key) next⟩
        else if s.nextTask = i then some ⟨.entry key, .ready (key.ref.infer key.track)⟩
        else s.tasks.find? i := by
  have same : (s.addReader key goal.reader).nextTask = s.nextTask
      ∧ (s.addReader key goal.reader).tasks = s.tasks := by
    cases goal.reader <;> exact ⟨rfl, rfl⟩
  show ((((s.addReader key goal.reader).beginEntry self key).tasks).insert self _).find? i = _
  rw [Table.find?_insert, find?_beginEntry, same.1, same.2]

theorem memo_descend (s : Run) (self : TaskId) (goal : Goal) (key : Entry)
    (next : Property → Infer Property) :
    (s.descend self goal key next).engine.memo
      = s.engine.memo.insert key { result := none, waiters := [self] } := by
  show (s.addReader key goal.reader).engine.memo.insert key _ = _
  rw [addReader_memo]

/-- The run in which the task of an entry begins, for that task. -/
theorem Alone.descend (alone : Alone self s) (goal : Goal) (key : Entry)
    (next : Property → Infer Property) : Alone s.nextTask (s.descend self goal key next) where
  active := (addReader_active s key goal.reader).trans alone.active
  queue := taken_queue (descend_queue alone)
  numbered := by
    show s.nextTask < (s.addReader key goal.reader).nextTask + 1
    cases goal.reader <;> exact Nat.lt_succ_self _

theorem follows_descend (s : Run) (self : TaskId) (goal : Goal) (key : Entry)
    (next : Property → Infer Property) :
    s.engine.Follows (s.descend self goal key next).engine :=
  (follows_addReader s key goal.reader).results _ _ _

variable {child : TaskId}

theorem endTask_eq_fulfil {p : Promise TaskId} (found : u.engine.memo.find? key = some p)
    (missing : p.result = none) :
    u.endTask child (.entry key) r
      = (u.leave child).fulfil (.entry key) p (attributed key.ref.node r) := by
  have there : (u.leave child).promise? (.entry key) = some p := found
  exact resolve_of_pending there missing _

theorem memo_ascend {p : Promise TaskId} (found : u.engine.memo.find? key = some p)
    (missing : p.result = none) :
    (u.ascend child key r).engine.memo
      = u.engine.memo.insert key { result := some (attributed key.ref.node r), waiters := [] } := by
  rw [ascend, endTask_eq_fulfil found missing]
  rfl

theorem queue_endTask (queue : u.schedule.queue = [])
    (found : u.engine.memo.find? key = some { result := none, waiters := [self] }) :
    (u.endTask child (.entry key) r).schedule.queue = [self] := by
  rw [endTask_eq_fulfil found rfl]
  show (u.schedule.finish.wake [self]).queue = _
  rw [Schedule.queue, List.append_eq_nil_iff] at queue
  rw [Schedule.queue, Schedule.wake, Schedule.finish, queue.1, queue.2]
  rfl

/-- The task of an entry that nobody has asked for has run in between. -/
theorem Alone.spares_ascend (alone : Alone self s) (absent : s.engine.memo.find? key = none)
    (spares : Spares s.nextTask (s.descend self goal key next) u) :
    Spares self s (u.ascend s.nextTask key r)
      ∧ (u.ascend s.nextTask key r).tasks.find? self = some ⟨goal, .waiting (.entry key) next⟩
      ∧ (u.ascend s.nextTask key r).engine.memo.find? key
        = some { result := some (attributed key.ref.node r), waiters := [] }
      ∧ (u.endTask s.nextTask (.entry key) r).schedule.queue = [self] := by
  have later : s.nextTask < u.nextTask := spares.numbered
  have begun : s.nextTask < (s.descend self goal key next).nextTask :=
    (alone.descend goal key next).numbered
  have pending : u.engine.memo.find? key = some { result := none, waiters := [self] } := by
    refine spares.memo ?_
    rw [memo_descend, Table.find?_insert_self]
  have queue : (u.endTask s.nextTask (.entry key) r).schedule.queue = [self] :=
    queue_endTask spares.queue pending
  have memo : (u.ascend s.nextTask key r).engine.memo
      = u.engine.memo.insert key { result := some (attributed key.ref.node r), waiters := [] } :=
    memo_ascend pending rfl
  have eq : u.endTask s.nextTask (.entry key) r
      = (u.leave s.nextTask).fulfil (.entry key) _ (attributed key.ref.node r) :=
    endTask_eq_fulfil pending rfl
  have tasks : ∀ j < s.nextTask,
      (u.ascend s.nextTask key r).tasks.find? j = (s.descend self goal key next).tasks.find? j := by
    intro j lt
    rw [ascend, eq]
    show (u.tasks.erase s.nextTask).find? j = _
    rw [Table.find?_erase_of_ne _ (Nat.ne_of_gt lt)]
    exact spares.tasks j (Nat.lt_trans lt begun) (Nat.ne_of_lt lt)
  refine ⟨⟨⟨?_, taken_queue queue, ?_⟩, ?_, ?_, ?_, ?_, ?_⟩, ?_, ?_, queue⟩
  · rw [ascend, eq]
    exact spares.active
  · rw [ascend, eq]
    exact Nat.lt_trans alone.numbered later
  · rw [ascend, eq]
    exact ((follows_descend s self goal key next).trans spares.follows).results _ _ _
  · rw [ascend, eq]
    exact Nat.le_of_lt later
  · intro j lt other
    rw [tasks j lt, find?_descend, if_neg (Ne.symm other), if_neg (Nat.ne_of_gt lt)]
  · intro k p found
    have ne : key ≠ k := by
      rintro rfl
      rw [absent] at found
      cases found
    rw [memo, Table.find?_insert_of_ne _ _ ne]
    refine spares.memo ?_
    rw [memo_descend, Table.find?_insert_of_ne _ _ ne, found]
  · rw [ascend, eq]
    refine spares.detached.trans ?_
    show (s.addReader key goal.reader).detached = _
    cases goal.reader <;> rfl
  · rw [tasks self alone.numbered, find?_descend, if_pos rfl]
  · rw [memo, Table.find?_insert_self]

/-- What an entry that nobody has asked for does to the run: its task runs until it ends. -/
theorem goOn_demand (alone : Alone self s) (absent : s.engine.memo.find? key = none)
    (child : Returns s.nextTask (.entry key) (key.ref.infer key.track)
      (s.descend self goal key next) r' u) :
    goOn self goal (.demand key next) s = (turn (u.ascend s.nextTask key r') self).bind drive := by
  have task : (s.descend self goal key next).tasks.find? s.nextTask
      = some ⟨.entry key, .ready (key.ref.infer key.track)⟩ := by
    rw [find?_descend, if_neg (Nat.ne_of_lt alone.numbered), if_pos rfl]
  rw [goOn, work_of_halt alone.active (.begin absent), Option.bind_some]
  dsimp only
  rw [drive_of_queue (descend_queue alone), ← descend, turn_of_ready task, child.goes,
    drive_of_queue (alone.spares_ascend absent child.toSpares).2.2.2, ascend]

/-- An entry that comes to have a property. -/
theorem Returns.begin {v : Property} (alone : Alone self s)
    (absent : s.engine.memo.find? key = none)
    (child : Returns s.nextTask (.entry key) (key.ref.infer key.track)
      (s.descend self goal key next) r' u) (value : r' = .ok v)
    (rest : Returns self goal (next v) (u.ascend s.nextTask key r') r t) :
    Returns self goal (.demand key next) s r t := by
  subst value
  obtain ⟨spares, task, found, -⟩ := alone.spares_ascend (r := .ok v) absent child.toSpares
  refine ⟨spares.trans rest.toSpares, ?_⟩
  rw [goOn_demand alone absent child, turn_of_answered task found rfl, rest.goes]

/-- An entry that comes to fail. -/
theorem Returns.beginFailed {e : InferError} (alone : Alone self s)
    (absent : s.engine.memo.find? key = none)
    (child : Returns s.nextTask (.entry key) (key.ref.infer key.track)
      (s.descend self goal key next) (.error e) u) :
    Returns self goal (.demand key next) s (.error (e.attributeTo key.ref.node))
      (u.ascend s.nextTask key (.error e)) := by
  obtain ⟨spares, task, found, -⟩ := alone.spares_ascend (r := .error e) absent child.toSpares
  exact ⟨spares, by rw [goOn_demand alone absent child, turn_of_failed task found rfl]⟩

/-! ## Whole runs -/

/-- A run that is an evaluation finds its result. -/
theorem run?_of_returns {e : Engine}
    (h : Returns 0 .answer b (opening e b).taken r t) :
    e.run? b = some (r, ({ t with outcome := some r } : Run).close) := by
  have queue : (t.endTask 0 .answer r).schedule.queue = [] := h.queue
  have detached : t.detached = [] := h.detached
  have task : (opening e b).taken.tasks.find? 0 = some ⟨.answer, .ready b⟩ := rfl
  have drives : drive (opening e b) = some (t.endTask 0 .answer r) := by
    rw [drive_of_queue (i := 0) rfl, turn_of_ready task, h.goes, drive_of_rest queue]
  show (drive (opening e b)).map _ = _
  rw [drives, Option.map_some]
  refine congrArg some (Prod.ext ?_ rfl)
  show Run.result { t with outcome := some r } = r
  rw [result]
  simp only [detached]
  cases r <;> rfl

theorem alone_opening (e : Engine) (b : Infer Property) : Alone 0 (opening e b).taken where
  active := rfl
  queue := rfl
  numbered := Nat.zero_lt_one

end Run

end ArrayInference
