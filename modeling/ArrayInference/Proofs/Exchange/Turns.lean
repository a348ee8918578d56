import ArrayInference.Proofs.Exchange.Events
import ArrayInference.Proofs.Run.Root

/-!
# The same turn in both runs

Whatever a task does in its turn, the task that belongs to it can do in the other run. As long as the
exchanged application calls the operator of a conditional, and does not know its condition, the two
runs stay together.
-/

namespace ArrayInference

namespace Exchange

/-- A state of a run in which the exchange can go unnoticed. -/
structure Suits (x : Exchange) (s : Run) : Prop where
  known : x.id.index < s.engine.program.nodes.size
  node : s.engine.program.node x.id = x.node
  standard : s.engine.Standard
  fits : ∀ {key : Entry} {p : Promise TaskId} {v : Property}, s.engine.memo.find? key = some p →
    p.result = some (.ok v) → x.Fits key v

variable {x : Exchange} {s t : Run}

theorem Suits.follows (h : x.Suits s) (follows : s.engine.Follows t.engine)
    (memo : t.engine.memo = s.engine.memo) : x.Suits t where
  known := Nat.lt_of_lt_of_le h.known follows.extends.program.size_le
  node := (follows.extends.program.node_eq h.known).trans h.node
  standard := follows.standard h.standard
  fits := by
    intro key p v found
    exact h.fits (memo ▸ found)

end Exchange

namespace Run

variable {x : Exchange} {σ : Equiv.Perm TaskId} {s t s₁ s₂ u : Run} {self : TaskId}
  {reader : Option Entry} {b b' b₁ : Infer Property} {log log₁ : List Event}
  {progress : Progress Property}

/-- How turns of tasks that belong together leave the two runs. If the tasks of branches were made in
another order, the new tasks belong together crosswise, and are found so in another queue. -/
inductive Left (x : Exchange) (σ : Equiv.Perm TaskId) (self : TaskId) :
    Progress Property → Run → Progress Property → Run → Prop where
  | ended {r r' : Outcome} {s t : Run} (same : r'.toOption = r.toOption) (h : Exchanged x σ s t) :
      Left x σ self (.ended r) s (.ended r') t
  | waiting {source : Source} {next next' : Property → Infer Property} {τ : Equiv.Perm TaskId}
      {s t : Run} {schedule : Schedule} (own : τ self = σ self) (old : self < s.nextTask)
      (later : SameWork x (.waiting source next) (.waiting source next'))
      (h : Exchanged x τ s (t.scheduled schedule)) (queue : schedule.queue.Perm t.schedule.queue) :
      Left x σ self (.waiting source next) s (.waiting source next') t
  | forever {s t : Run} (old : self < s.nextTask) (h : Exchanged x σ s t) :
      Left x σ self .forever s .forever t

/-- Both branches of a conditional get tasks. If the branches stand in the other order, the numbers of
the two tasks are exchanged. -/
theorem Exchanged.races (h : Exchanged x σ s t) (own : self < s.nextTask) (reader : Option Entry)
    (track : Track) (use : BranchUse) {first second first' second' : Ref}
    (either : first' = first ∧ second' = second ∨ first' = second ∧ second' = first)
    {next next' : Property → Infer Property} (later : ∀ v, Twins x (next v) (next' v)) :
    Left x σ self (.waiting (.cell s.cells.size) next)
      (s.beginRace self reader track use first second) (.waiting (.cell t.cells.size) next')
      (t.beginRace (σ self) reader track use first' second') := by
  have hfirst : σ s.nextTask = s.nextTask := h.fresh _ (Nat.le_refl _)
  have hsecond : σ (s.nextTask + 1) = s.nextTask + 1 := h.fresh _ (Nat.le_succ _)
  have hold : self < (s.beginRace self reader track use first second).nextTask :=
    Nat.lt_add_right 2 own
  have hqueue : (t.beginRace (σ self) reader track use first' second').schedule.queue
      = t.schedule.ready ++ (t.schedule.incoming ++ [s.nextTask, s.nextTask + 1]) := by
    show t.schedule.ready ++ ((t.schedule.incoming ++ [t.nextTask]) ++ [t.nextTask + 1]) = _
    rw [h.nextTask, List.append_assoc]
    rfl
  rw [h.cells]
  rcases either with same | crossed
  · have numbered : Exchanged.Numbered σ σ s.nextTask first second first' second' :=
      ⟨fun _ _ _ => rfl, .inl ⟨hfirst, hsecond, same⟩⟩
    refine .waiting rfl hold (.waiting fun v _ => later v)
      (h.beginRace own reader track use numbered rfl) ?_
    rw [hqueue, hfirst, hsecond]
    exact .refl _
  · have hτfirst : (Equiv.swap s.nextTask (s.nextTask + 1)).trans σ s.nextTask = s.nextTask + 1 := by
      rw [Equiv.trans_apply, Equiv.swap_apply_left, hsecond]
    have hτsecond : (Equiv.swap s.nextTask (s.nextTask + 1)).trans σ (s.nextTask + 1) = s.nextTask := by
      rw [Equiv.trans_apply, Equiv.swap_apply_right, hfirst]
    have hτold : ∀ i, i ≠ s.nextTask → i ≠ s.nextTask + 1 →
        (Equiv.swap s.nextTask (s.nextTask + 1)).trans σ i = σ i := by
      intro i hi hi'
      rw [Equiv.trans_apply, Equiv.swap_apply_of_ne_of_ne hi hi']
    have hown := hτold self (Nat.ne_of_lt own) (Nat.ne_of_lt (Nat.lt_succ_of_lt own))
    refine .waiting hown hold (.waiting fun v _ => later v)
      (h.beginRace own reader track use ⟨hτold, .inr ⟨hτfirst, hτsecond, crossed⟩⟩ rfl) ?_
    rw [hqueue, hτfirst, hτsecond]
    exact ((List.Perm.swap _ _ _).append_left _).append_left _

/-- The last step of a turn. -/
theorem Exchanged.halts {ifTrue ifFalse : NodeId}
    (kind : x.node.kind = .apply [x.callee, x.condition, ifTrue, ifFalse])
    (h : Exchanged x σ s t) (own : self < s.nextTask) (twins : Twins x b b')
    (halt : Halt self reader b s log progress u) :
    ∃ log' progress' u', Halt (σ self) reader b' t log' progress' u'
      ∧ Left x σ self progress u progress' u' := by
  have hreader : ∀ key, (s.addReader key reader).nextTask = s.nextTask := by
    intro key
    cases reader <;> rfl
  cases twins with
  | done p =>
    cases halt
    exact ⟨_, _, _, .done p t, .ended rfl h⟩
  | fail e =>
    cases halt
    exact ⟨_, _, _, .fail e t, .ended rfl h⟩
  | forever =>
    cases halt
    exact ⟨_, _, _, .forever t, .forever own h⟩
  | ask other later => cases halt
  | node later => cases halt
  | locate later => cases halt
  | @demand key next next' later =>
    have hread := h.addReader key reader
    cases halt with
    | readFailed found failed =>
      obtain ⟨q, found', same⟩ := h.promise_of_some (.entry key) found
      obtain ⟨e', failed'⟩ := same.failed failed
      exact ⟨_, _, _, .readFailed found' failed', .ended rfl hread⟩
    | wait found missing =>
      obtain ⟨q, found', same⟩ := h.promise_of_some (.entry key) found
      have hwait : SameWork x (.waiting (.entry key) next) (.waiting (.entry key) next') :=
        .waiting fun v fits => later v (fits key rfl)
      refine ⟨_, _, _, .wait found' (same.missing_iff.mpr missing), ?_⟩
      have hs := (promise?_addReader s key reader (.entry key)).trans found
      have ht := (promise?_addReader t key reader (.entry key)).trans found'
      have hsame : SamePromise σ (s.addReader key reader).nextTask _ _ := (hreader key).symm ▸ same
      have hown : self < (s.addReader key reader).nextTask := (hreader key).symm ▸ own
      refine .waiting rfl ?_ hwait (hread.waitOn hown hs ht hsame) (.refl _)
      exact hown
    | begin absent =>
      have absent' : t.engine.memo.find? key = none := h.promise_of_none (.entry key) absent
      have hwait : SameWork x (.waiting (.entry key) next) (.waiting (.entry key) next') :=
        .waiting fun v fits => later v (fits key rfl)
      have hown : self < (s.addReader key reader).nextTask := (hreader key).symm ▸ own
      refine ⟨_, _, _, .begin absent', ?_⟩
      exact .waiting rfl (Nat.lt_succ_of_lt hown) hwait
        (hread.beginEntry hown key (twins_infer kind key.ref key.track)) (.refl _)
  | call later =>
    cases halt with
    | uncallable unknown =>
      exact ⟨_, _, _, .uncallable ((h.callable?_eq _).trans unknown), .ended rfl h⟩
  | decide stands later =>
    cases halt with
    | uncallable unknown =>
      exact ⟨_, _, _, .uncallable ((h.callable?_eq _).trans unknown), .ended rfl h⟩
  | @unify track use first second next next' later =>
    cases halt
    refine ⟨_, _, _, .race track use first second next' t, ?_⟩
    exact h.races own reader track use (.inl ⟨rfl, rfl⟩) later
  | @race track use first second next next' later =>
    cases halt
    refine ⟨_, _, _, .race track use second first next' t, ?_⟩
    exact h.races own reader track use (.inr ⟨rfl, rfl⟩) later

/-- A turn up to its end. -/
theorem Exchanged.turns {ifTrue ifFalse : NodeId}
    (kind : x.node.kind = .apply [x.callee, x.condition, ifTrue, ifFalse])
    (h : Exchanged x σ s t) (suits : x.Suits s) (own : self < s.nextTask) (twins : Twins x b b')
    (steps : Steps reader b s log b₁ s₁) (halt : Halt self reader b₁ s₁ log₁ progress s₂)
    (last : s₁.engine.Extends x.last) :
    ∃ log' b₁' t₁ log₁' progress' t₂, Steps reader b' t log' b₁' t₁
      ∧ Halt (σ self) reader b₁' t₁ log₁' progress' t₂ ∧ Left x σ self progress s₂ progress' t₂ := by
  induction steps generalizing t b' with
  | refl b s =>
    obtain ⟨_, _, _, halt', left⟩ := h.halts kind own twins halt
    exact ⟨_, _, _, _, _, _, .refl b' t, halt', left⟩
  | @head b b₀ b₁ s s₀ s₁ log log' first rest ih =>
    have goes : ∀ {b₀' : Infer Property} {t₀ : Run} {log'' : List Event},
        Step reader b' t log'' b₀' t₀ → Twins x b₀ b₀' → Exchanged x σ s₀ t₀ → x.Suits s₀ →
        self < s₀.nextTask → ∃ log' b₁' t₁ log₁' progress' t₂, Steps reader b' t log' b₁' t₁
          ∧ Halt (σ self) reader b₁' t₁ log₁' progress' t₂
          ∧ Left x σ self progress s₂ progress' t₂ := by
      intro b₀' t₀ log'' first' twins' h' suits' own'
      obtain ⟨_, _, _, _, _, _, steps', halt', left⟩ := ih h' suits' own' twins' halt last
      exact ⟨_, _, _, _, _, _, .head first' steps', halt', left⟩
    cases twins with
    | done p => cases first
    | fail e => cases first
    | forever => cases first
    | unify later => cases first
    | race later => cases first
    | @ask query next next' other later =>
      cases first
      obtain ⟨hanswer, h'⟩ := h.afterAnswer suits.known query other
      refine goes (.ask query next' t) ?_ h' ?_ own
      · rw [hanswer]
        exact later _ (EngineM.admits_answer query s.engine)
      · exact suits.follows (Engine.Follows.refl.answer query) (afterAnswer_memo s query)
    | @node next next' later =>
      cases first
      have hs : ((EngineM.answer (.node x.id)).run s.engine).1 = x.node := suits.node
      have ht : ((EngineM.answer (.node x.id)).run t.engine).1 = x.node.exchange := by
        show t.engine.program.node x.id = _
        rw [h.engine]
        exact (Program.node_exchange_self _ _).trans (congrArg Node.exchange suits.node)
      refine goes (.ask (.node x.id) next' t) ?_ h suits own
      rw [hs, ht]
      exact later
    | @locate m m' ctx next next' later =>
      cases first
      -- the other run is one question ahead, and stands where it would after this one alone
      obtain ⟨_, _, _, _, _, _, steps', halt', left⟩ := ih h suits own
        (.ask (by simp) fun b _ => later _ b) halt last
      cases steps' with
      | refl => cases halt'
      | head first' rest' =>
        cases first'
        have hfirst := (h.afterAnswer suits.known (.locate m ctx) (by simp)).1
        rw [← hfirst] at rest'
        have ahead : Steps reader
            (.ask (.locate m' ctx) fun b => .ask (.locate m ctx) fun a => next' a b) t _ _ t :=
          .head (.ask _ _ t) (.head (.ask _ _ t) (.refl _ t))
        exact ⟨_, _, _, _, _, _, ahead.trans rest', halt', left⟩
    | @demand key next next' later =>
      cases first with
      | read found ready =>
        obtain ⟨q, found', same⟩ := h.promise_of_some (.entry key) found
        refine goes (.read found' (same.ok_iff.mpr ready)) (later _ (suits.fits found ready))
          (h.addReader key reader) ?_ ?_
        · exact suits.follows (follows_addReader s key reader) (addReader_memo s key reader)
        · cases reader <;> exact own
    | @call callee args next next' later =>
      cases first with
      | call found =>
        refine goes (.call ((h.callable?_eq callee).trans found)) ?_ h suits own
        exact (suits.standard.blind found args).twins later
    | @decide callee args args' next next' c stands later =>
      cases first with
      | @call _ _ _ _ c' found =>
        have hlast := last.callables (rest.follows.extends.callables found)
        have hc : c' = c := Option.some.inj (hlast.symm.trans stands)
        subst hc
        exact goes (.call ((h.callable?_eq callee).trans found)) later h suits own

/-- Two runs that belong together, apart from the order of those tasks that can go on. -/
def Together (x : Exchange) (s t : Run) : Prop :=
  ∃ σ schedule, Exchanged x σ s (t.scheduled schedule) ∧ schedule.queue.Perm t.schedule.queue

theorem Exchanged.together (h : Exchanged x σ s t) : Together x s t :=
  ⟨σ, t.schedule, h, .refl _⟩

/-- The end of a turn leaves the two runs together. -/
theorem Left.settle {progress progress' : Progress Property} (left : Left x σ self progress s progress' t)
    {goal goal' : Goal} (belongs : SameGoal goal goal') :
    Together x (s.settle self goal progress) (t.settle (σ self) goal' progress') := by
  cases left with
  | ended same h => exact (h.endTask self belongs same).together
  | @waiting source next next' τ _ _ schedule own old later h queue =>
    refine ⟨τ, schedule, ?_, queue⟩
    have same : SameTask x ⟨goal, .waiting source next⟩ ⟨goal', .waiting source next'⟩ :=
      ⟨belongs, later⟩
    have hset := h.setTask old same
    rw [own] at hset
    exact hset
  | forever old h =>
    have same : SameTask x ⟨goal, .forever⟩ ⟨goal', .forever⟩ := ⟨belongs, .forever⟩
    exact (h.setTask old same).together

theorem follows_settle (s : Run) (self : TaskId) (goal : Goal) (progress : Progress Property) :
    s.engine.Follows (s.settle self goal progress).engine := by
  cases progress with
  | ended r => exact (ending_endTask s self goal r).follows
  | _ => exact .refl

/-- A turn of a task, and one of the task that belongs to it. -/
theorem Exchanged.turned {ifTrue ifFalse : NodeId}
    (kind : x.node.kind = .apply [x.callee, x.condition, ifTrue, ifFalse])
    (h : Exchanged x σ s t) (suits : x.Suits s) (turned : Turned s self log u)
    (last : u.engine.Extends x.last) :
    ∃ log' u', Turned t (σ self) log' u' ∧ Together x u u' := by
  cases turned with
  | absent gone => exact ⟨_, _, .absent (h.task_of_none gone), h.together⟩
  | asleep task =>
    obtain ⟨⟨goal', work'⟩, task', same⟩ := h.task_of_some task
    cases same.work
    exact ⟨_, _, .asleep task', h.together⟩
  | unfounded task missing =>
    obtain ⟨⟨goal', work'⟩, task', same⟩ := h.task_of_some task
    cases same.work
    exact ⟨_, _, .unfounded task' (h.promise_of_none _ missing), h.together⟩
  | blocked task found missing =>
    obtain ⟨⟨goal', work'⟩, task', same⟩ := h.task_of_some task
    cases same.work
    obtain ⟨q, found', hsame⟩ := h.promise_of_some _ found
    exact ⟨_, _, .blocked task' found' (hsame.missing_iff.mpr missing),
      (h.waitOn (h.bounded _ _ task) found found' hsame).together⟩
  | @failed goal source next p e task found failed =>
    obtain ⟨⟨goal', work'⟩, task', same⟩ := h.task_of_some task
    cases same.work
    obtain ⟨q, found', hsame⟩ := h.promise_of_some _ found
    obtain ⟨e', failed'⟩ := hsame.failed failed
    have hfails : Except.toOption (.error e' : Outcome) = Except.toOption (.error e : Outcome) := rfl
    exact ⟨_, _, .failed task' found' failed', (h.endTask self same.goal hfails).together⟩
  | @moved task body b₁ s₁ s₂ log log₁ progress found goes steps halt =>
    obtain ⟨task', found', same⟩ := h.task_of_some found
    have own := h.bounded _ _ found
    have hlast : s₁.engine.Extends x.last :=
      (halt.follows.trans (follows_settle _ _ _ _)).extends.trans last
    have next : ∃ body', GoesOn t task'.work body' ∧ Twins x body body' := by
      have hwork := same.work
      obtain ⟨goal, work⟩ := task
      obtain ⟨goal', work'⟩ := task'
      cases goes with
      | ready body =>
        cases hwork with
        | ready twins => exact ⟨_, .ready _, twins⟩
      | @resumed source next p v promised ready =>
        cases hwork with
        | waiting later =>
          obtain ⟨q, promised', hsame⟩ := h.promise_of_some _ promised
          refine ⟨_, .resumed promised' (hsame.ok_iff.mpr ready), later v fun key hkey => ?_⟩
          subst hkey
          exact suits.fits promised ready
    obtain ⟨body', goes', twins⟩ := next
    obtain ⟨_, _, _, _, _, t₂, steps', halt', left⟩ := h.turns kind suits own twins steps halt hlast
    rw [← same.goal.reader_eq] at steps' halt'
    exact ⟨_, _, .moved found' goes' steps' halt', left.settle same.goal⟩

end Run

end ArrayInference
