import ArrayInference.Proofs.Engine.Poisoning
import ArrayInference.Proofs.Exchange.Events
import ArrayInference.Proofs.Lockstep.Kin

/-!
# Runs abreast

Two runs are abreast if their engines are in step and their tasks belong together, one by one and
under the same numbers. Whatever happens to what belongs together in both runs leaves them abreast.
-/

namespace ArrayInference

namespace Overlap

variable (x : Overlap)

/-- Sources that belong together. -/
inductive SameSource : Source → Source → Prop where
  | entry {key : Entry} (own : x.Carries key.ref) : SameSource (.entry key) (.entry (x.entry key))
  | cell (id : Nat) : SameSource (.cell id) (.cell id)

/-- Entries that belong together, if there are any. -/
abbrev SameEntry? : Option Entry → Option Entry → Prop :=
  Option.Rel fun k k' => x.Carries k.ref ∧ k' = x.entry k

/-- Goals that belong together. -/
inductive SameGoal : Goal → Goal → Prop where
  | answer : SameGoal .answer .answer
  | entry {key : Entry} (own : x.Carries key.ref) : SameGoal (.entry key) (.entry (x.entry key))
  | branch {c c' : BranchCheck} (cell : c'.cell = c.cell) (track : c'.track = c.track)
      (site : x.SameEntry? c.site c'.site) (nodes : c'.nodes = c.nodes.map x.node) :
      SameGoal (.branch c) (.branch c')

/-- What tasks that belong together go on with, at every engine from now on. -/
inductive SameWork (e : Engine) : Work → Work → Prop where
  | ready {b b' : Infer Property} (kin : ∀ e₁, e.Extends e₁ → x.Kin x.SameProperty e₁ b b') :
      SameWork e (.ready b) (.ready b')
  | waiting {source source' : Source} {next next' : Property → Infer Property}
      (same : x.SameSource source source')
      (later : ∀ e₁, e.Extends e₁ → ∀ v, v.Within x.shows →
        (∀ key, source = .entry key → x.Learned e₁ key v) →
          x.Kin x.SameProperty e₁ (next v) (next' v)) :
      SameWork e (.waiting source next) (.waiting source' next')
  | forever : SameWork e .forever .forever

/-- Tasks that belong together. -/
structure SameTask (e : Engine) (task task' : Task) : Prop where
  goal : x.SameGoal task.goal task'.goal
  work : x.SameWork e task.work task'.work

/-- Two runs that have come equally far. -/
structure Abreast (s t : Run) : Prop where
  engines : x.Engines s.engine t.engine
  apt : s.engine.Apt
  active : s.active = true
  active' : t.active = true
  schedule : t.schedule = s.schedule
  nextTask : t.nextTask = s.nextTask
  tasks : ∀ i, Option.Rel (x.SameTask s.engine) (s.tasks.find? i) (t.tasks.find? i)
  distinct : s.tasks.Distinct
  distinct' : t.tasks.Distinct
  size : t.cells.size = s.cells.size
  cells : ∀ i : Nat, Option.Rel x.SamePromise s.cells[i]? t.cells[i]?
  detached : List.Forall₂ x.SameError s.detached t.detached
  outcome : Option.Rel x.SameOutcome s.outcome t.outcome

variable {x} {e e' e₁ : Engine} {s t : Run}

/-! ## Results -/

namespace SamePromise

variable {p p' : Promise TaskId}

theorem pending : x.SamePromise .pending .pending :=
  ⟨.none, rfl⟩

theorem missing_iff (h : x.SamePromise p p') : p'.result = none ↔ p.result = none := by
  have hr := h.result
  generalize p.result = r, p'.result = r' at hr
  cases hr <;> simp

theorem hasFailed_eq (h : x.SamePromise p p') : p'.hasFailed = p.hasFailed := by
  have hr := h.result
  rw [Promise.hasFailed, Promise.hasFailed]
  generalize p.result = r, p'.result = r' at hr
  cases hr with
  | none => rfl
  | some same => cases same <;> rfl

theorem settled {r r' : Outcome} (same : x.SameOutcome r r') :
    x.SamePromise ⟨some r, []⟩ ⟨some r', []⟩ :=
  ⟨.some same, rfl⟩

/-- The same task begins to wait. -/
theorem wait (h : x.SamePromise p p') (self : TaskId) :
    x.SamePromise ⟨none, p.waiters ++ [self]⟩ ⟨none, p'.waiters ++ [self]⟩ :=
  ⟨.none, by rw [h.waiters]⟩

end SamePromise

theorem SameError.attributed {err err' : InferError} (h : x.SameError err err') (n : NodeId) :
    x.SameError (err.attributeTo n) (err'.attributeTo (x.node n)) := by
  obtain ⟨cause, nodes⟩ := err
  rcases h with rfl | rfl
  · cases nodes with
    | nil => cases cause <;> first | exact .inl rfl | exact .inr rfl
    | cons m ms => cases cause <;> exact .inl rfl
  · cases nodes with
    | nil => cases cause <;> first | exact .inl rfl | exact .inr rfl
    | cons m ms => cases cause <;> exact .inr rfl

theorem SameOutcome.attributed {r r' : Outcome} (h : x.SameOutcome r r') (n : NodeId) :
    x.SameOutcome (Run.attributed n r) (Run.attributed (x.node n) r') := by
  cases h with
  | ok own => exact .ok own
  | error same => exact .error (same.attributed n)

/-! ## Engines in step -/

theorem sameReaders_of {readers readers' : Readers}
    (h : readers.Linked (fun key => x.Carries key.ref) x.entry (fun _ => x.SameReaders) readers')
    {key : Entry} (own : x.Carries key.ref) :
    x.SameReaders (readers.of key) (readers'.of (x.entry key)) := by
  have linked := h key own
  rw [Readers.of, Readers.of]
  generalize readers.find? key = rs, readers'.find? (x.entry key) = rs' at linked
  cases linked with
  | none => exact ⟨rfl, by simp⟩
  | some same => exact same

namespace Engines

/-- Entries that belong together get promises that do. -/
theorem hold (h : x.Engines e e') {key : Entry} (own : x.Carries key.ref) {p p' : Promise TaskId}
    (same : x.SamePromise p p') :
    x.Engines { e with memo := e.memo.insert key p }
      { e' with memo := e'.memo.insert (x.entry key) p' } :=
  { h with
    memo := h.memo.insert (fun _ other heq => entry_injective own other heq) same
    entered := by
      intro k hk
      replace hk : (e.memo.insert key p).find? k ≠ none := hk
      rw [Table.find?_insert] at hk
      split at hk
      · rename_i heq
        exact heq ▸ own
      · exact h.entered k hk
    entered' := by
      intro k hk
      replace hk : (e'.memo.insert (x.entry key) p').find? k ≠ none := hk
      rw [Table.find?_insert] at hk
      split at hk
      · rename_i heq
        exact ⟨key, own, heq.symm⟩
      · exact h.entered' k hk }

/-- An entry is read while another one is computed. -/
theorem read (h : x.Engines e e') {key reader : Entry} (own : x.Carries key.ref)
    (own' : x.Carries reader.ref) :
    x.Engines { e with readers := e.readers.add key reader }
      { e' with readers := e'.readers.add (x.entry key) (x.entry reader) } := by
  refine { h with readers := h.readers.insert (fun _ other eq => entry_injective own other eq) ?_ }
  obtain ⟨same, all⟩ := sameReaders_of h.readers own
  have hmem : x.entry reader ∈ (e.readers.of key).map x.entry ↔ reader ∈ e.readers.of key := by
    refine ⟨fun hr => ?_, List.mem_map_of_mem⟩
    obtain ⟨k, hk, heq⟩ := List.mem_map.mp hr
    exact entry_injective own' (all k hk) heq.symm ▸ hk
  rw [same]
  by_cases hr : reader ∈ e.readers.of key
  · rw [if_pos hr, if_pos (hmem.mpr hr)]
    exact ⟨rfl, all⟩
  · rw [if_neg hr, if_neg (mt hmem.mp hr)]
    refine ⟨by rw [List.map_append, List.map_singleton], fun k hk => ?_⟩
    rcases List.mem_append.mp hk with hk | hk
    · exact all k hk
    · exact List.mem_singleton.mp hk ▸ own'

end Engines

/-! ## Late failures -/

/-- A late failure reaches entries that belong together. -/
theorem linked_poisonAll {readers readers' : Readers}
    (read : readers.Linked (fun key => x.Carries key.ref) x.entry (fun _ => x.SameReaders) readers')
    {err err' : InferError} (same : x.SameError err err') {m m' : Memo}
    (memo : m.Linked (fun key => x.Carries key.ref) x.entry (fun _ => x.SamePromise) m')
    (woken : List TaskId) {pending : List Entry} (own : ∀ key ∈ pending, x.Carries key.ref) :
    (Memo.poisonAll readers' err' m' woken (pending.map x.entry)).1
        = (Memo.poisonAll readers err m woken pending).1
      ∧ (Memo.poisonAll readers err m woken pending).2.Linked (fun key => x.Carries key.ref) x.entry
          (fun _ => x.SamePromise)
          (Memo.poisonAll readers' err' m' woken (pending.map x.entry)).2 := by
  fun_induction Memo.poisonAll readers err m woken pending generalizing m' with
  | case1 m woken =>
    rw [List.map_nil, Memo.poisonAll]
    exact ⟨rfl, memo⟩
  | case2 m woken key rest absent ih =>
    rw [List.forall_mem_cons] at own
    rw [List.map_cons, Memo.poisonAll_of_absent (eq_none_of_rel (absent ▸ memo key own.1))]
    exact ih memo own.2
  | case3 m woken key rest p found failed ih =>
    rw [List.forall_mem_cons] at own
    obtain ⟨q, found', hsame⟩ := exists_of_rel_some (found ▸ memo key own.1)
    have hfailed : p.hasFailed = true := by
      by_contra sound
      rw [Promise.poison?_of_not_failed (Bool.not_eq_true _ ▸ sound)] at failed
      cases failed
    rw [List.map_cons, Memo.poisonAll_of_failed found' (hsame.hasFailed_eq.trans hfailed)]
    exact ih memo own.2
  | case4 m woken key rest p found waiters q failing ih =>
    rw [List.forall_mem_cons] at own
    have sound := (Promise.hasFailed_of_poison? failing).1
    rw [Promise.poison?_of_not_failed sound] at failing
    cases failing
    obtain ⟨q, found', hsame⟩ := exists_of_rel_some (found ▸ memo key own.1)
    have known := sameReaders_of read own.1
    rw [List.map_cons, Memo.poisonAll_of_sound found' (hsame.hasFailed_eq.trans sound),
      hsame.waiters,
      known.1, ← List.map_append]
    refine ih (memo.insert (fun _ other heq => entry_injective own.1 other heq) ?_) fun k hk => ?_
    · exact .settled (.error same)
    · rcases List.mem_append.mp hk with hk | hk
      · exact known.2 k hk
      · exact own.2 k hk

/-- Nothing is entered by a late failure. -/
theorem entered_of_poison {m : Memo} {readers : Readers} {key k : Entry} {err : InferError}
    (h : (m.poison readers key err).2.find? k ≠ none) : m.find? k ≠ none := by
  rcases (Memo.poisoned_poison m readers key err).changed k with same | ⟨p, found, -⟩
  · rwa [same] at h
  · rw [found]
    exact Option.some_ne_none p

/-! ## Runs -/

theorem SameWork.mono {w w' : Work} (h : x.SameWork e w w') (later : e.Extends e₁) :
    x.SameWork e₁ w w' := by
  cases h with
  | ready kin => exact .ready fun e₂ more => kin e₂ (later.trans more)
  | waiting same next => exact .waiting same fun e₂ more => next e₂ (later.trans more)
  | forever => exact .forever

theorem SameGoal.reader {goal goal' : Goal} (h : x.SameGoal goal goal') :
    x.SameEntry? goal.reader goal'.reader := by
  cases h with
  | answer => exact .none
  | entry own => exact .some ⟨own, rfl⟩
  | branch => exact .none

namespace Abreast

variable {source source' : Source} {p p' : Promise TaskId} {self : TaskId}

/-- The engines change, and nothing else. -/
theorem withEngines (h : x.Abreast s t) {e f : Engine} (follows : s.engine.Follows e)
    (engines : x.Engines e f) : x.Abreast { s with engine := e } { t with engine := f } :=
  { h with
    engines
    apt := follows.apt h.apt
    tasks := fun i => rel_imp (h.tasks i) fun _ _ same =>
      ⟨same.goal, same.work.mono follows.extends⟩ }

theorem promises (h : x.Abreast s t) (same : x.SameSource source source') :
    Option.Rel x.SamePromise (s.promise? source) (t.promise? source') := by
  cases same with
  | entry own => exact h.engines.memo _ own
  | cell id => exact h.cells id

/-- A source gets another promise. -/
theorem setPromise (h : x.Abreast s t) (same : x.SameSource source source')
    (hp : x.SamePromise p p') : x.Abreast (s.setPromise source p) (t.setPromise source' p') := by
  cases same with
  | entry own => exact h.withEngines (Engine.Follows.refl.results _ _ _) (h.engines.hold own hp)
  | cell id =>
    refine { h with size := ?_, cells := fun i => ?_ }
    · show (t.cells.setIfInBounds id p').size = (s.cells.setIfInBounds id p).size
      rw [Array.size_setIfInBounds, Array.size_setIfInBounds, h.size]
    · show Option.Rel _ (s.cells.setIfInBounds id p)[i]? (t.cells.setIfInBounds id p')[i]?
      rw [Array.getElem?_setIfInBounds, Array.getElem?_setIfInBounds, h.size]
      split
      · split
        · exact .some hp
        · exact .none
      · exact h.cells i

theorem wake (h : x.Abreast s t) (woken : List TaskId) : x.Abreast (s.wake woken) (t.wake woken) :=
  { h with schedule := congrArg (·.wake woken) h.schedule }

theorem addReader (h : x.Abreast s t) {key : Entry} (own : x.Carries key.ref)
    {reader reader' : Option Entry} (same : x.SameEntry? reader reader') :
    x.Abreast (s.addReader key reader) (t.addReader (x.entry key) reader') := by
  cases same with
  | none => exact h
  | some same =>
    obtain ⟨own', rfl⟩ := same
    exact h.withEngines (Engine.Follows.refl.results _ _ _) (h.engines.read own own')

theorem note (h : x.Abreast s t) (d d' : Diagnostics) :
    x.Abreast { s with engine := { s.engine with diagnostics := d } }
      { t with engine := { t.engine with diagnostics := d' } } :=
  h.withEngines (Engine.Follows.refl.results _ _ _) (h.engines.note d d')

theorem afterAnswer (h : x.Abreast s t) {q q' : Query} {R : Engine → q.Answer → q'.Answer → Prop}
    (asks : x.Asks s.engine.program q q' R) : x.Abreast (s.afterAnswer q) (t.afterAnswer q') :=
  h.withEngines (Engine.Follows.refl.answer q) (h.engines.answer h.apt asks).1

/-- A new task. -/
theorem spawn (h : x.Abreast s t) {goal goal' : Goal} (same : x.SameGoal goal goal')
    {b b' : Infer Property} (kin : ∀ e, s.engine.Extends e → x.Kin x.SameProperty e b b') :
    x.Abreast (s.spawn goal b) (t.spawn goal' b') :=
  { h with
    schedule := by
      show t.schedule.spawn t.nextTask = s.schedule.spawn s.nextTask
      rw [h.schedule, h.nextTask]
    nextTask := congrArg (· + 1) h.nextTask
    tasks := by
      intro i
      show Option.Rel _ ((s.tasks.insert s.nextTask _).find? i)
        ((t.tasks.insert t.nextTask _).find? i)
      rw [Table.find?_insert, Table.find?_insert, h.nextTask]
      split
      · exact .some ⟨same, .ready kin⟩
      · exact h.tasks i
    distinct := h.distinct.insert _ _
    distinct' := h.distinct'.insert _ _ }

/-- A task goes on as another one. -/
theorem setTask (h : x.Abreast s t) {task task' : Task} (same : x.SameTask s.engine task task') :
    x.Abreast { s with tasks := s.tasks.insert self task }
      { t with tasks := t.tasks.insert self task' } :=
  { h with
    tasks := by
      intro i
      show Option.Rel _ ((s.tasks.insert self _).find? i) ((t.tasks.insert self _).find? i)
      rw [Table.find?_insert, Table.find?_insert]
      split
      · exact .some same
      · exact h.tasks i
    distinct := h.distinct.insert _ _
    distinct' := h.distinct'.insert _ _ }

/-- A task leaves. -/
theorem leave (h : x.Abreast s t) (self : TaskId) : x.Abreast (s.leave self) (t.leave self) :=
  { h with
    schedule := congrArg Schedule.finish h.schedule
    tasks := by
      intro i
      show Option.Rel _ ((s.tasks.erase self).find? i) ((t.tasks.erase self).find? i)
      rw [Table.find?_erase h.distinct, Table.find?_erase h.distinct']
      split
      · exact .none
      · exact h.tasks i
    distinct := h.distinct.erase _
    distinct' := h.distinct'.erase _ }

/-- A source gets its result, unless it has one. -/
theorem resolve (h : x.Abreast s t) (same : x.SameSource source source') {r r' : Outcome}
    (hr : x.SameOutcome r r') : x.Abreast (s.resolve source r) (t.resolve source' r') := by
  have rel := h.promises same
  rw [Run.resolve, Run.resolve]
  generalize s.promise? source = p, t.promise? source' = p' at rel
  cases rel with
  | none => exact h
  | @some p p' hp =>
    rw [Option.bind_some, Option.bind_some, Promise.resolve?, Promise.resolve?, Promise.isResolved,
      Promise.isResolved]
    cases hmissing : p.result with
    | none =>
      rw [hp.missing_iff.mpr hmissing, hp.waiters]
      exact (h.setPromise same (.settled hr)).wake _
    | some first =>
      have hresult := hp.result
      rw [hmissing] at hresult
      obtain ⟨first', hfirst, -⟩ := exists_of_rel_some hresult
      rw [hfirst]
      exact h

/-- A branch that ended second makes the conditional fail. -/
theorem failBranch (h : x.Abreast s t) {site site' : Option Entry} (same : x.SameEntry? site site')
    {err err' : InferError} (herr : x.SameError err err') :
    x.Abreast (s.failBranch site err) (t.failBranch site' err') := by
  have detached : ∀ {u v : Run}, x.Abreast u v →
      x.Abreast { u with detached := u.detached ++ [err] }
        { v with detached := v.detached ++ [err'] } :=
    fun huv => { huv with detached := List.rel_append huv.detached (.cons herr .nil) }
  cases same with
  | none => exact detached h
  | @some key key' same =>
    obtain ⟨own, rfl⟩ := same
    refine detached ?_
    have linked := linked_poisonAll h.engines.readers herr h.engines.memo []
      (fun k hk => List.mem_singleton.mp hk ▸ own : ∀ k ∈ [key], x.Carries k.ref)
    show x.Abreast
      ((s.setMemo (s.engine.memo.poison s.engine.readers key err).2).wake
        (s.engine.memo.poison s.engine.readers key err).1)
      ((t.setMemo (t.engine.memo.poison t.engine.readers (x.entry key) err').2).wake
        (t.engine.memo.poison t.engine.readers (x.entry key) err').1)
    rw [Memo.poison, Memo.poison, ← List.map_singleton, linked.1]
    refine Abreast.wake (h.withEngines (Engine.Follows.refl.results _ _ _) ?_) _
    exact { h.engines with
      memo := linked.2
      entered := fun k hk => h.engines.entered k (entered_of_poison hk)
      entered' := fun k hk => h.engines.entered' k (entered_of_poison hk) }

/-- A branch ends. -/
theorem endBranch (h : x.Abreast s t) {c c' : BranchCheck} (cell : c'.cell = c.cell)
    (track : c'.track = c.track) (site : x.SameEntry? c.site c'.site)
    (nodes : c'.nodes = c.nodes.map x.node) {r r' : Outcome} (hr : x.SameOutcome r r') :
    x.Abreast (s.endBranch c r) (t.endBranch c' r') := by
  have first : Option.Rel x.SameOutcome ((s.promise? (.cell c.cell)).bind fun p => p.result)
      ((t.promise? (.cell c.cell)).bind fun p => p.result) := by
    have rel := h.promises (.cell c.cell)
    generalize s.promise? (.cell c.cell) = p, t.promise? (.cell c.cell) = p' at rel
    cases rel with
    | none => exact .none
    | some hp => exact hp.result
  rw [Run.endBranch, Run.endBranch, cell, track, nodes]
  generalize (s.promise? (.cell c.cell)).bind (fun p => p.result) = out,
    (t.promise? (.cell c.cell)).bind (fun p => p.result) = out' at first
  cases first with
  | none => exact h.resolve (.cell c.cell) hr
  | some first =>
    cases first with
    | error => exact h
    | ok =>
      cases hr with
      | error same => exact h.failBranch site same
      | ok =>
        dsimp only
        split
        · exact h.note _ _
        · exact h.failBranch site (.inr rfl)

/-- A task ends. -/
theorem endTask (h : x.Abreast s t) (self : TaskId) {goal goal' : Goal}
    (same : x.SameGoal goal goal')
    {r r' : Outcome} (hr : x.SameOutcome r r') :
    x.Abreast (s.endTask self goal r) (t.endTask self goal' r') := by
  have left := h.leave self
  cases same with
  | answer => exact { left with outcome := .some hr }
  | entry own => exact left.resolve (.entry own) (hr.attributed _)
  | branch cell track site nodes => exact left.endBranch cell track site nodes hr

/-- A task waits. -/
theorem waitOn (h : x.Abreast s t) (self : TaskId) (same : x.SameSource source source')
    (hp : x.SamePromise p p') : x.Abreast (s.waitOn self source p) (t.waitOn self source' p') :=
  h.setPromise same (hp.wait self)

/-- The task of an entry that nobody has asked for. -/
theorem beginEntry (h : x.Abreast s t) (self : TaskId) {r : NodeRef}
    (knows : x.Knows s.engine.program r) (track : Track) :
    x.Abreast (s.beginEntry self ⟨r, track⟩) (t.beginEntry self ⟨x.ref r, track⟩) := by
  have waiting : x.SamePromise ⟨none, [self]⟩ ⟨none, [self]⟩ := ⟨.none, rfl⟩
  have own : x.SameSource (.entry ⟨r, track⟩) (.entry ⟨x.ref r, track⟩) :=
    .entry (show x.Carries (⟨r, track⟩ : Entry).ref from knows.carries)
  have goal : x.SameGoal (.entry ⟨r, track⟩) (.entry ⟨x.ref r, track⟩) :=
    .entry (show x.Carries (⟨r, track⟩ : Entry).ref from knows.carries)
  exact (h.setPromise own waiting).spawn goal fun e later =>
    kin_infer (knows.mono later.program) track

theorem node?_eq {p : Program} {y y' : Ref} (h : x.Pairs p y y') :
    y'.node? = y.node?.map x.node := by
  induction h with
  | node same =>
    obtain ⟨-, rfl⟩ := same
    rfl
  | virtual own => rfl
  | element _ ih => exact ih

/-- The tasks of both branches of a conditional. -/
theorem beginRace (h : x.Abreast s t) (self : TaskId) {site site' : Option Entry}
    (hsite : x.SameEntry? site site') (track : Track) (use : BranchUse) {y y' z z' : Ref}
    (hy : x.Pairs s.engine.program y y') (hz : x.Pairs s.engine.program z z') :
    x.Abreast (s.beginRace self site track use y z) (t.beginRace self site' track use y' z') := by
  have nodes : [y', z'].filterMap Ref.node? = ([y, z].filterMap Ref.node?).map x.node := by
    simp only [List.filterMap_cons, List.filterMap_nil, node?_eq hy, node?_eq hz]
    cases y.node? <;> cases z.node? <;> rfl
  have goal : ∀ u u', x.SameGoal (.branch
    ⟨s.cells.size, track, site, [y, z].filterMap Ref.node?, u⟩)
      (.branch ⟨s.cells.size, track, site', [y', z'].filterMap Ref.node?, u'⟩) :=
    fun u u' => .branch rfl rfl hsite nodes
  have kin : ∀ {u u' : Ref}, x.Pairs s.engine.program u u' → ∀ e, s.engine.Extends e →
      x.Kin x.SameProperty e (Infer.branch track use u) (Infer.branch track use u') :=
    fun same e later =>
      kin_of_parallel_property (Infer.parallel_branch track use same) later.program
  have pushed : x.Abreast { s with cells := s.cells.push .pending }
      { t with cells := t.cells.push .pending } := by
    refine { h with size := ?_, cells := fun i => ?_ }
    · show (t.cells.push _).size = (s.cells.push _).size
      rw [Array.size_push, Array.size_push, h.size]
    · show Option.Rel _ (s.cells.push _)[i]? (t.cells.push _)[i]?
      rw [Array.getElem?_push, Array.getElem?_push, h.size]
      split
      · exact .some .pending
      · exact h.cells i
  have waiting : x.SamePromise ⟨none, [self]⟩ ⟨none, [self]⟩ := ⟨.none, rfl⟩
  rw [Run.beginRace, Run.beginRace, Run.race, Run.race]
  dsimp only
  rw [h.size]
  refine Abreast.setPromise ?_ (.cell s.cells.size) waiting
  exact (pushed.spawn (goal y y') (kin hy)).spawn (goal z z') (kin hz)

end Abreast

end Overlap

end ArrayInference
