import ArrayInference.Proofs.Run.Polls

/-!
# Tasks and what they wait for

Between two turns every task that can go on stands in the queue, and every task that waits is entered
with the source it waits for. So nobody is forgotten: when no task can go on, every task that is left
waits for a result that is missing. A task computes an entry that was not there when the run began.
-/

namespace ArrayInference

namespace Run

/-- The order that turns keep. `before` is the memo at the start of the run, and `busy` the task whose
turn it is. -/
structure Tidy (before : Memo) (busy : Option TaskId) (s : Run) : Prop where
  active : s.active = true
  distinct : s.tasks.Distinct
  bounded : ∀ {t : TaskId} {task : Task}, s.tasks.find? t = some task → t < s.nextTask
  ready : ∀ {t : TaskId} {goal : Goal} {body : Infer Property},
    s.tasks.find? t = some ⟨goal, .ready body⟩ → busy ≠ some t → t ∈ s.schedule.queue
  waiting : ∀ {t : TaskId} {goal : Goal} {source : Source} {next : Property → Infer Property},
    s.tasks.find? t = some ⟨goal, .waiting source next⟩ →
    ∃ p, s.promise? source = some p ∧ (p.result = none → t ∈ p.waiters)
      ∧ (p.result ≠ none → busy ≠ some t → t ∈ s.schedule.queue)
  entries : ∀ {t : TaskId} {key : Entry} {w : Work}, s.tasks.find? t = some ⟨.entry key, w⟩ →
    before.find? key = none ∧ s.promise? (.entry key) ≠ none
  branches : ∀ {t : TaskId} {c : BranchCheck} {w : Work}, s.tasks.find? t = some ⟨.branch c, w⟩ →
    s.promise? (.cell c.cell) ≠ none ∧ ∀ k, c.site = some k →
      before.find? k = none ∧ s.promise? (.entry k) ≠ none
  kept : ∀ {key : Entry}, before.find? key ≠ none → s.promise? (.entry key) ≠ none
  /-- Only branches may have two tasks. -/
  alone : ∀ {t u : TaskId} {goal : Goal} {w w' : Work}, s.tasks.find? t = some ⟨goal, w⟩ →
    s.tasks.find? u = some ⟨goal, w'⟩ → (∀ c, goal ≠ .branch c) → t = u

namespace Tidy

variable {before : Memo} {busy : Option TaskId} {s t : Run} {self : TaskId}

/-- Only the tasks, the queue and the promises matter. A source that gets a result lets those go on
who waited for it, and one that gets none still knows them. -/
theorem update (h : Tidy before busy s) (active : t.active = s.active) (tasks : t.tasks = s.tasks)
    (nextTask : t.nextTask = s.nextTask)
    (queue : ∀ x, x ∈ s.schedule.queue → x ∈ t.schedule.queue)
    (promises : ∀ source p, s.promise? source = some p → ∃ q, t.promise? source = some q
      ∧ (q.result = none → p.result = none ∧ p.waiters ⊆ q.waiters)
      ∧ (q.result ≠ none → p.result = none → ∀ x ∈ p.waiters, x ∈ t.schedule.queue)) :
    Tidy before busy t := by
  have hsome : ∀ source, s.promise? source ≠ none → t.promise? source ≠ none := by
    intro source hne
    obtain ⟨p, found⟩ := Option.ne_none_iff_exists'.mp hne
    obtain ⟨q, hq, -⟩ := promises source p found
    rw [hq]
    simp
  refine ⟨active.trans h.active, tasks ▸ h.distinct, fun hf => nextTask ▸ h.bounded (tasks ▸ hf),
    fun hf hbusy => queue _ (h.ready (tasks ▸ hf) hbusy), ?_,
    fun hf => ⟨(h.entries (tasks ▸ hf)).1, hsome _ (h.entries (tasks ▸ hf)).2⟩, ?_,
    fun hk => hsome _ (h.kept hk), fun hf hf' => h.alone (tasks ▸ hf) (tasks ▸ hf')⟩
  · intro x goal source next hf
    obtain ⟨p, found, hwaits, hqueue⟩ := h.waiting (tasks ▸ hf)
    obtain ⟨q, hq, hmissing, hready⟩ := promises source p found
    refine ⟨q, hq, fun hr => (hmissing hr).2 (hwaits (hmissing hr).1), fun hr hbusy => ?_⟩
    cases hp : p.result with
    | none => exact hready hr hp x (hwaits hp)
    | some r => exact queue _ (hqueue (by simp [hp]) hbusy)
  · intro x c w hf
    have := h.branches (tasks ▸ hf)
    exact ⟨hsome _ this.1, fun k hk => ⟨(this.2 k hk).1, hsome _ (this.2 k hk).2⟩⟩

/-- Nothing that matters has changed. -/
theorem congr (h : Tidy before busy s) (active : t.active = s.active) (tasks : t.tasks = s.tasks)
    (nextTask : t.nextTask = s.nextTask) (schedule : t.schedule = s.schedule)
    (promises : ∀ source, t.promise? source = s.promise? source) : Tidy before busy t := by
  refine h.update active tasks nextTask (fun x hx => schedule ▸ hx) fun source p found => ?_
  refine ⟨p, (promises source).trans found, fun hr => ⟨hr, fun _ hx => hx⟩, fun hr hp => ?_⟩
  exact absurd hp hr

/-- A task takes its turn. -/
theorem offered (h : Tidy before none s) {schedule : Schedule}
    (offers : s.schedule.Offers self schedule) :
    Tidy before (some self) (s.scheduled schedule) := by
  have hqueue : ∀ x, x ∈ s.schedule.queue → some self ≠ some x → x ∈ schedule.queue := by
    intro x hx hne
    rcases List.mem_cons.mp (offers.mem_iff.mpr hx) with rfl | hx
    · exact absurd rfl hne
    · exact hx
  refine ⟨h.active, h.distinct, h.bounded, ?_, ?_, ?_, ?_, ?_, h.alone⟩
  · exact fun hf hbusy => hqueue _ (h.ready hf (by simp)) hbusy
  · intro t goal source next hf
    obtain ⟨p, found, hwaits, hq⟩ := h.waiting hf
    refine ⟨p, ?_, hwaits, fun hr hbusy => hqueue _ (hq hr (by simp)) hbusy⟩
    rw [promise?_scheduled, found]
  · intro t key w hf
    rw [promise?_scheduled]
    exact h.entries hf
  · intro t c w hf
    rw [promise?_scheduled]
    refine ⟨(h.branches hf).1, fun k hk => ?_⟩
    rw [promise?_scheduled]
    exact (h.branches hf).2 k hk
  · intro key hk
    rw [promise?_scheduled]
    exact h.kept hk

/-- Its turn is over, and it cannot go on. -/
theorem rest (h : Tidy before (some self) s)
    (ready : ∀ {goal body}, s.tasks.find? self ≠ some ⟨goal, .ready body⟩)
    (waiting : ∀ {goal source next}, s.tasks.find? self = some ⟨goal, .waiting source next⟩ →
      s.resultOf source = none) : Tidy before none s := by
  refine ⟨h.active, h.distinct, h.bounded, ?_, ?_, h.entries, h.branches, h.kept, h.alone⟩
  · intro t goal body hf _
    refine h.ready hf ?_
    rintro ⟨rfl⟩
    exact ready hf
  · intro t goal source next hf
    obtain ⟨p, found, hwaits, hq⟩ := h.waiting hf
    refine ⟨p, found, hwaits, fun hr _ => hq hr ?_⟩
    rintro ⟨rfl⟩
    rw [← resultOf_of_promise? found] at hr
    exact hr (waiting hf)

theorem alike_engine (h : Tidy before busy s) (same : t = { s with engine := t.engine })
    (memo : t.engine.memo = s.engine.memo) : Tidy before busy t := by
  refine h.congr (by rw [same]) (by rw [same]) (by rw [same]) (by rw [same]) fun source => ?_
  cases source with
  | entry key =>
    show t.engine.memo.find? key = s.engine.memo.find? key
    rw [memo]
  | cell id =>
    rw [same]
    rfl

theorem quiet (h : Tidy before busy s) {reader : Option Entry} {log : List Event}
    (q : Quiet reader s log t) : Tidy before busy t :=
  h.alike_engine q.same q.memo

theorem leave (h : Tidy before (some self) s) : Tidy before none (s.leave self) := by
  have hfind : ∀ {t : TaskId} {task : Task}, (s.leave self).tasks.find? t = some task →
      s.tasks.find? t = some task ∧ some self ≠ some t := by
    intro t task hf
    rw [show (s.leave self).tasks = s.tasks.erase self from rfl, Table.find?_erase h.distinct] at hf
    split at hf
    · cases hf
    · rename_i hne
      exact ⟨hf, fun heq => hne (Option.some.inj heq)⟩
  refine ⟨h.active, h.distinct.erase self, fun hf => h.bounded (hfind hf).1, ?_, ?_, ?_, ?_, ?_,
    fun hf hf' => h.alone (hfind hf).1 (hfind hf').1⟩
  · exact fun hf _ => h.ready (hfind hf).1 (hfind hf).2
  · intro t goal source next hf
    obtain ⟨p, found, hwaits, hq⟩ := h.waiting (hfind hf).1
    rw [promise?_leave]
    exact ⟨p, found, hwaits, fun hr _ => hq hr (hfind hf).2⟩
  · intro t key w hf
    rw [promise?_leave]
    exact h.entries (hfind hf).1
  · intro t c w hf
    simp only [promise?_leave]
    exact h.branches (hfind hf).1
  · intro key hk
    rw [promise?_leave]
    exact h.kept hk

/-! ## The end of a task -/

theorem fulfil (h : Tidy before busy s) {source : Source} {p : Promise TaskId}
    (found : s.promise? source = some p) (r : Outcome) :
    Tidy before busy (s.fulfil source p r) := by
  obtain ⟨hactive, hschedule, htasks, hnext, -⟩ :=
    setPromise_same s source { result := some r, waiters := [] }
  have hqueue : ∀ x, x ∈ (s.fulfil source p r).schedule.queue
      ↔ x ∈ s.schedule.queue ∨ x ∈ p.waiters := by
    intro x
    rw [← hschedule]
    exact Schedule.mem_wake _ _ _
  refine h.update hactive htasks hnext (fun x hx => (hqueue x).mpr (Or.inl hx)) ?_
  intro other q hq
  rw [promise?_fulfil found]
  by_cases heq : source = other
  · subst heq
    rw [found, Option.some.injEq] at hq
    subst hq
    refine ⟨_, if_pos rfl, by simp, fun _ _ x hx => (hqueue x).mpr (Or.inr hx)⟩
  · refine ⟨q, by rw [if_neg heq, hq], fun hr => ⟨hr, fun _ hx => hx⟩, fun hr hq => ?_⟩
    exact absurd hq hr

theorem failBranch (h : Tidy before busy s) (site : Option Entry) (e : InferError) :
    Tidy before busy (s.failBranch site e) := by
  obtain ⟨hactive, htasks, hnext, -⟩ := failBranch_same s site e
  refine h.update hactive htasks hnext (fun x hx => mem_queue_failBranch site e hx) ?_
  intro source p found
  rcases failBranch_changed s site e source with
    hsame | ⟨k, q, start, rfl, hq, -, hnew, hwoken, -⟩
  · exact ⟨p, hsame.trans found, fun hr => ⟨hr, fun _ hx => hx⟩, fun hr hp => absurd hp hr⟩
  · rw [found, Option.some.injEq] at hq
    subst hq
    exact ⟨_, hnew, by simp, fun _ _ x hx => hwoken x hx⟩

theorem ending (h : Tidy before busy s) {goal : Goal} {r : Outcome} (e : Ending s goal r t) :
    Tidy before busy t := by
  cases e with
  | answer r => exact h.congr rfl rfl rfl rfl fun source => by cases source <;> rfl
  | fulfils r aims found missing => exact h.fulfil found _
  | overtaken r settled => exact h
  | second r first => exact h
  | agrees first same d => exact h.congr rfl rfl rfl rfl fun source => by cases source <;> rfl
  | late first clash => exact h.failBranch _ _
  | lost r gone => exact h

theorem endTask (h : Tidy before (some self) s) (goal : Goal) (r : Outcome) :
    Tidy before none (s.endTask self goal r) :=
  h.leave.ending (ending_endTask s self goal r)

/-! ## New tasks and new waiters -/

theorem spawn (h : Tidy before busy s) {goal : Goal} (body : Infer Property)
    (entries : ∀ key, goal = .entry key →
      before.find? key = none ∧ s.promise? (.entry key) ≠ none)
    (branches : ∀ c, goal = .branch c → s.promise? (.cell c.cell) ≠ none ∧ ∀ k, c.site = some k →
      before.find? k = none ∧ s.promise? (.entry k) ≠ none)
    (first : ∀ {x w}, s.tasks.find? x = some ⟨goal, w⟩ → ∃ c, goal = .branch c) :
    Tidy before busy (s.spawn goal body) := by
  have hfind : ∀ {x : TaskId} {task : Task}, (s.spawn goal body).tasks.find? x = some task →
      (x = s.nextTask ∧ task = ⟨goal, .ready body⟩) ∨ s.tasks.find? x = some task := by
    intro x task hf
    rw [show (s.spawn goal body).tasks = s.tasks.insert s.nextTask ⟨goal, .ready body⟩ from rfl,
      Table.find?_insert] at hf
    split at hf
    · rename_i heq
      exact Or.inl ⟨heq.symm, (Option.some.inj hf).symm⟩
    · exact Or.inr hf
  have hqueue : ∀ x, x ∈ (s.spawn goal body).schedule.queue ↔
      x ∈ s.schedule.queue ∨ x = s.nextTask := Schedule.mem_spawn s.schedule s.nextTask
  have hpromise : ∀ source, (s.spawn goal body).promise? source = s.promise? source := by
    intro source
    cases source <;> rfl
  refine ⟨h.active, h.distinct.insert _ _, ?_, ?_, ?_, ?_, ?_, ?_, ?_⟩
  · intro x task hf
    show x < s.nextTask + 1
    rcases hfind hf with ⟨rfl, -⟩ | hf
    · exact Nat.lt_succ_self _
    · exact Nat.lt_succ_of_lt (h.bounded hf)
  · intro x g b hf hbusy
    rw [hqueue]
    rcases hfind hf with ⟨rfl, -⟩ | hf
    · exact Or.inr rfl
    · exact Or.inl (h.ready hf hbusy)
  · intro x g source next hf
    rcases hfind hf with ⟨rfl, heq⟩ | hf
    · cases heq
    · obtain ⟨p, found, hwaits, hq⟩ := h.waiting hf
      refine ⟨p, (hpromise _).trans found, hwaits, fun hr hbusy => ?_⟩
      exact (hqueue _).mpr (Or.inl (hq hr hbusy))
  · intro x key w hf
    rw [hpromise]
    rcases hfind hf with ⟨rfl, heq⟩ | hf
    · cases heq
      exact entries key rfl
    · exact h.entries hf
  · intro x c w hf
    simp only [hpromise]
    rcases hfind hf with ⟨rfl, heq⟩ | hf
    · cases heq
      exact branches c rfl
    · exact h.branches hf
  · intro key hk
    rw [hpromise]
    exact h.kept hk
  · intro x y g w w' hx hy hg
    rcases hfind hx with ⟨rfl, heq⟩ | hx
    · cases heq
      rcases hfind hy with ⟨rfl, -⟩ | hy
      · rfl
      · obtain ⟨c, hc⟩ := first hy
        exact absurd hc (hg c)
    · rcases hfind hy with ⟨rfl, heq⟩ | hy
      · cases heq
        obtain ⟨c, hc⟩ := first hx
        exact absurd hc (hg c)
      · exact h.alone hx hy hg

/-- A task that cannot go on is left behind. -/
theorem park (h : Tidy before (some self) s) {goal : Goal} {w after : Work}
    (known : s.tasks.find? self = some ⟨goal, w⟩) (stops : ∀ body, after ≠ .ready body)
    (waits : ∀ source next, after = .waiting source next →
      ∃ p, s.promise? source = some p ∧ p.result = none ∧ self ∈ p.waiters) :
    Tidy before none { s with tasks := s.tasks.insert self { goal, work := after } } := by
  have hfind : ∀ {x : TaskId} {task : Task},
      Table.find? (s.tasks.insert self ⟨goal, after⟩) x = some task →
      (x = self ∧ task = ⟨goal, after⟩) ∨ (some self ≠ some x ∧ s.tasks.find? x = some task) := by
    intro x task hf
    rw [Table.find?_insert] at hf
    split at hf
    · rename_i heq
      exact Or.inl ⟨heq.symm, (Option.some.inj hf).symm⟩
    · rename_i hne
      exact Or.inr ⟨fun heq => hne (Option.some.inj heq), hf⟩
  have hpromise : ∀ source, Run.promise?
      { s with tasks := s.tasks.insert self { goal, work := after } } source
        = s.promise? source := by
    intro source
    cases source <;> rfl
  have hold : ∀ {x : TaskId} {g : Goal} {v : Work},
      Table.find? (s.tasks.insert self ⟨goal, after⟩) x = some ⟨g, v⟩ →
      ∃ v', s.tasks.find? x = some ⟨g, v'⟩ := by
    intro x g v hf
    rcases hfind hf with ⟨rfl, heq⟩ | ⟨-, hf⟩
    · cases heq
      exact ⟨w, known⟩
    · exact ⟨v, hf⟩
  refine ⟨h.active, h.distinct.insert _ _, ?_, ?_, ?_, ?_, ?_, ?_, ?_⟩
  · intro x task hf
    rcases hfind hf with ⟨rfl, -⟩ | ⟨-, hf⟩
    · exact h.bounded known
    · exact h.bounded hf
  · intro x g b hf _
    rcases hfind hf with ⟨rfl, heq⟩ | ⟨hne, hf⟩
    · cases heq
      exact absurd rfl (stops b)
    · exact h.ready hf hne
  · intro x g source next hf
    simp only [hpromise]
    rcases hfind hf with ⟨rfl, heq⟩ | ⟨hne, hf⟩
    · cases heq
      obtain ⟨p, found, missing, hmem⟩ := waits source next rfl
      exact ⟨p, found, fun _ => hmem, fun hr => absurd missing hr⟩
    · obtain ⟨q, hq, hwaits, hqueue⟩ := h.waiting hf
      exact ⟨q, hq, hwaits, fun hr _ => hqueue hr hne⟩
  · intro x key w' hf
    obtain ⟨v, hf⟩ := hold hf
    rw [hpromise]
    exact h.entries hf
  · intro x c w' hf
    obtain ⟨v, hf⟩ := hold hf
    simp only [hpromise]
    exact h.branches hf
  · intro key hk
    rw [hpromise]
    exact h.kept hk
  · intro x y g w₁ w₂ hx hy hg
    obtain ⟨v, hx⟩ := hold hx
    obtain ⟨v', hy⟩ := hold hy
    exact h.alone hx hy hg

theorem addReader (h : Tidy before busy s) (key : Entry) (reader : Option Entry) :
    Tidy before busy (s.addReader key reader) :=
  h.congr (by cases reader <;> rfl) (by cases reader <;> rfl) (by cases reader <;> rfl)
    (by cases reader <;> rfl) (promise?_addReader s key reader)

theorem waitOn (h : Tidy before busy s) {source : Source} {p : Promise TaskId}
    (found : s.promise? source = some p) (missing : p.result = none) (self : TaskId) :
    Tidy before busy (s.waitOn self source p) := by
  obtain ⟨hactive, hschedule, htasks, hnext, -⟩ :=
    setPromise_same s source { result := none, waiters := p.waiters ++ [self] }
  refine h.update hactive htasks hnext (fun x hx => ?_) ?_
  · rw [Run.waitOn, hschedule]
    exact hx
  · intro other q hq
    rw [promise?_waitOn found]
    by_cases heq : source = other
    · subst heq
      rw [found, Option.some.injEq] at hq
      subst hq
      exact ⟨_, if_pos rfl, fun _ => ⟨missing, List.subset_append_left _ _⟩, fun hr => absurd rfl hr⟩
    · refine ⟨q, by rw [if_neg heq, hq], fun hr => ⟨hr, fun _ hx => hx⟩, fun hr hq => ?_⟩
      exact absurd hq hr

theorem beginEntry (h : Tidy before busy s) {key : Entry}
    (absent : s.promise? (.entry key) = none) (self : TaskId) :
    Tidy before busy (s.beginEntry self key) := by
  have hpromise := promise?_beginEntry s self key
  have hset : Tidy before busy
      (s.setMemo (s.engine.memo.insert key { result := none, waiters := [self] })) := by
    refine h.update rfl rfl rfl (fun x hx => hx) fun source p found => ?_
    have hne : Source.entry key ≠ source := by
      rintro rfl
      rw [absent] at found
      cases found
    refine ⟨p, ?_, fun hr => ⟨hr, fun _ hx => hx⟩, fun hr hp => absurd hp hr⟩
    have hsame := hpromise source
    rw [if_neg hne, found] at hsame
    rw [← hsame]
    cases source <;> rfl
  refine hset.spawn _ ?_ (by simp) ?_
  · rintro k ⟨rfl⟩
    refine ⟨?_, ?_⟩
    · by_contra hne
      exact h.kept hne absent
    · show (s.engine.memo.insert key _).find? key ≠ none
      rw [Table.find?_insert_self]
      simp
  · intro x w hf
    exact absurd absent (h.entries hf).2

theorem beginRace (h : Tidy before busy s) {site : Option Entry}
    (known : ∀ k, site = some k → before.find? k = none ∧ s.promise? (.entry k) ≠ none)
    (self : TaskId) (track : Track) (use : BranchUse) (first second : Ref) :
    Tidy before busy (s.beginRace self site track use first second) := by
  have hpush : Tidy before busy { s with cells := s.cells.push .pending } := by
    refine h.update rfl rfl rfl (fun x hx => hx) fun source p found => ?_
    refine ⟨p, ?_, fun hr => ⟨hr, fun _ hx => hx⟩, fun hr hp => absurd hp hr⟩
    cases source with
    | entry key => exact found
    | cell id => exact Program.getElem?_push_of_some found
  have hcell : Run.promise? { s with cells := s.cells.push .pending } (.cell s.cells.size)
      = some .pending := Array.getElem?_push_size
  have hbranch : ∀ c : BranchCheck, c.cell = s.cells.size → c.site = site →
      Run.promise? { s with cells := s.cells.push .pending } (.cell c.cell) ≠ none
        ∧ ∀ k, c.site = some k → before.find? k = none ∧ s.promise? (.entry k) ≠ none := by
    intro c hid hsite
    rw [hid, hcell, hsite]
    exact ⟨by simp, known⟩
  have hboth : Tidy before busy (s.race site track use first second).2 := by
    refine Tidy.spawn (Tidy.spawn hpush _ ?_ ?_ fun _ => ⟨_, rfl⟩) _ (fun _ h => nomatch h) ?_
      fun _ => ⟨_, rfl⟩
    · exact fun _ h => nomatch h
    · rintro c ⟨rfl⟩
      exact hbranch _ rfl rfl
    · rintro c ⟨rfl⟩
      exact hbranch _ rfl rfl
  have hcell : (s.race site track use first second).2.promise? (.cell s.cells.size)
      = some .pending := hcell
  exact hboth.waitOn hcell rfl self

/-! ## Turns -/

/-- What a task waits for after its turn is a source that has no result and knows the task. -/
theorem waits_of_halt {reader : Option Entry} {b : Infer Property} {log : List Event}
    {source : Source} {next : Property → Infer Property}
    (halt : Halt self reader b s log (.waiting source next) t) :
    ∃ p, t.promise? source = some p ∧ p.result = none ∧ self ∈ p.waiters := by
  cases halt with
  | @wait key _ _ p found missing =>
    have hfound : (s.addReader key reader).promise? (.entry key) = some p := by
      rw [promise?_addReader]
      exact found
    rw [promise?_waitOn hfound]
    exact ⟨_, if_pos rfl, rfl, List.mem_append_right _ (List.mem_singleton.mpr rfl)⟩
  | @begin key _ _ absent =>
    rw [promise?_beginEntry]
    exact ⟨_, if_pos rfl, rfl, List.mem_singleton.mpr rfl⟩
  | race track use first second next =>
    rw [promise?_beginRace]
    exact ⟨_, if_pos rfl, rfl, List.mem_singleton.mpr rfl⟩

theorem halt (h : Tidy before busy s) {goal : Goal} {w : Work}
    (known : s.tasks.find? self = some ⟨goal, w⟩) {b : Infer Property} {log : List Event}
    {progress : Progress Property} (stop : Halt self goal.reader b s log progress t) :
    Tidy before busy t := by
  cases stop with
  | done a => exact h
  | fail e => exact h
  | forever => exact h
  | uncallable unknown => exact h
  | readFailed found failed => exact h.addReader _ _
  | @wait key next _ p found missing =>
    refine (h.addReader key goal.reader).waitOn (p := p) ?_ missing self
    rw [promise?_addReader]
    exact found
  | @begin key next _ absent =>
    refine (h.addReader key goal.reader).beginEntry ?_ self
    rw [promise?_addReader]
    exact absent
  | race track use first second next =>
    refine h.beginRace ?_ self track use first second
    intro k hk
    cases goal with
    | answer => cases hk
    | branch c => cases hk
    | entry key =>
      cases hk
      exact h.entries known

/-- The last step of a turn leaves the tasks that are there. -/
theorem halt_find? (h : Tidy before busy s) {x : TaskId} {task : Task}
    (known : s.tasks.find? x = some task) {reader : Option Entry} {b : Infer Property}
    {log : List Event} {progress : Progress Property} (stop : Halt self reader b s log progress t) :
    t.tasks.find? x = some task := by
  have hlt := h.bounded known
  cases stop with
  | @readFailed key next _ p e found failed =>
    cases reader <;> exact known
  | @wait key next _ p found missing =>
    rw [Run.waitOn, (setPromise_same _ _ _).2.2.1]
    cases reader <;> exact known
  | @begin key next _ absent =>
    have hnext : (s.addReader key reader).nextTask = s.nextTask := by cases reader <;> rfl
    have htasks : (s.addReader key reader).tasks = s.tasks := by cases reader <;> rfl
    rw [find?_beginEntry, hnext, htasks, if_neg (Nat.ne_of_gt hlt), known]
  | race track use first second next =>
    rw [find?_beginRace, if_neg (Nat.ne_of_gt (Nat.lt_succ_of_lt hlt)),
      if_neg (Nat.ne_of_gt hlt), known]
  | _ => exact known

/-- Tasks that are new after the last step of a turn are those of a new source. -/
theorem find?_of_halt {x : TaskId} {goal : Goal} {w : Work} {reader : Option Entry}
    {b : Infer Property} {log : List Event} {progress : Progress Property}
    (stop : Halt self reader b s log progress t) (h : t.tasks.find? x = some ⟨goal, w⟩) :
    s.tasks.find? x = some ⟨goal, w⟩
      ∨ ∃ source, goal.source? = some source ∧ s.promise? source = none := by
  cases stop with
  | @readFailed key next _ p e found failed =>
    cases reader <;> exact Or.inl h
  | @wait key next _ p found missing =>
    rw [Run.waitOn, (setPromise_same _ _ _).2.2.1] at h
    cases reader <;> exact Or.inl h
  | @begin key next _ absent =>
    have htasks : (s.addReader key reader).tasks = s.tasks := by cases reader <;> rfl
    rw [find?_beginEntry, htasks] at h
    split at h
    · cases h
      exact Or.inr ⟨_, rfl, absent⟩
    · exact Or.inl h
  | race track use first second next =>
    have absent : s.promise? (.cell s.cells.size) = none := Array.getElem?_eq_none (Nat.le_refl _)
    rw [find?_beginRace] at h
    split at h
    · cases h
      exact Or.inr ⟨_, rfl, absent⟩
    · split at h
      · cases h
        exact Or.inr ⟨_, rfl, absent⟩
      · exact Or.inl h
  | _ => exact Or.inl h

theorem settle (h : Tidy before (some self) s) {goal : Goal} {w : Work}
    (known : s.tasks.find? self = some ⟨goal, w⟩) {reader : Option Entry} {b : Infer Property}
    {log : List Event} {progress : Progress Property} {s₀ : Run}
    (stop : Halt self reader b s₀ log progress s) : Tidy before none (s.settle self goal progress) := by
  cases progress with
  | ended r => exact h.endTask goal r
  | waiting source next =>
    refine h.park known (by simp) ?_
    rintro source' next' ⟨rfl, rfl⟩
    exact waits_of_halt stop
  | calling body => cases stop
  | forever => exact h.park known (by simp) (by simp)

/-- Every turn keeps the order. -/
theorem turned (h : Tidy before (some self) s) {log : List Event} (turn : Turned s self log t) :
    Tidy before none t := by
  cases turn with
  | absent gone =>
    refine h.rest ?_ ?_
    · intro goal body hf
      rw [gone] at hf
      cases hf
    · intro goal source next hf
      rw [gone] at hf
      cases hf
  | asleep task =>
    refine h.rest ?_ ?_
    · intro goal body hf
      rw [task] at hf
      cases hf
    · intro goal source next hf
      rw [task] at hf
      cases hf
  | unfounded task missing =>
    obtain ⟨p, found, -⟩ := h.waiting task
    rw [missing] at found
    cases found
  | @blocked goal source next p task found missing =>
    refine (h.waitOn found missing self).rest ?_ ?_
    · intro goal body hf
      rw [Run.waitOn, (setPromise_same _ _ _).2.2.1, task] at hf
      cases hf
    · intro goal source' next hf
      rw [Run.waitOn, (setPromise_same _ _ _).2.2.1, task] at hf
      cases hf
      rw [resultOf, promise?_waitOn found, if_pos rfl]
      rfl
  | failed task found failed => exact h.endTask _ _
  | @moved task body b₁ s₁ s₂ log log₁ progress found goes steps stop =>
    have hquiet := h.quiet steps.quiet
    have known : s₁.tasks.find? self = some ⟨task.goal, task.work⟩ := by
      rw [steps.quiet.same]
      exact found
    exact (hquiet.halt known stop).settle (hquiet.halt_find? known stop) stop

/-- Every run keeps the order. -/
theorem polls (h : Tidy before none s) {log : List Event} (run : Polls s log t) :
    Tidy before none t :=
  Polls.invariant (fun _ s => Tidy before none s)
    (fun hs offers turn => (hs.offered offers).turned turn) [] run h

end Tidy

end Run

end ArrayInference
