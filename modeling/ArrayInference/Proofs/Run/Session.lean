import ArrayInference.Proofs.Run.Attribution

/-!
# Sessions

In a session an engine runs computations one after the other, each in some order of turns, and it
answers questions in between. Rules are not given to it meanwhile. What is computed stays: an entry
is computed again only if a run has ended without its result, and a result that is there can only
turn into a failure, once, when a branch that ends late fails the conditional it belongs to.
-/

namespace ArrayInference

/-- An engine between two runs, or in the middle of one. -/
inductive Moment where
  | idle (engine : Engine)
  | running (run : Run)

/-- What happens to the computation of an entry. -/
inductive Happening where
  /-- A task is made that computes it. -/
  | started (key : Entry)
  /-- A run ends, and it has no result. -/
  | dropped (key : Entry)

namespace Run

/-- The entries whose tasks were made after a run stood at `s`. -/
def begun (s t : Run) : List Entry :=
  t.tasks.filterMap fun made => if s.nextTask ≤ made.1 then made.2.goal.reader else none

/-- The entries that were asked for and have no result. -/
def unresolved (s : Run) : List Entry :=
  (s.engine.memo.filter fun (_, p) => !p.isResolved).map Prod.fst

/-- A turn has turned the result of an entry into this error: of a conditional whose first branch had
a property, the other branch has failed or disagrees, and the entry has read what the conditional is
a part of, itself or by way of other entries. -/
def Poisons (s t : Run) (key : Entry) (e : InferError) : Prop :=
  ∃ self schedule log c first r site, s.schedule.Offers self schedule
    ∧ Turned (s.scheduled schedule) self log t ∧ .ended (.branch c) r ∈ log
    ∧ s.resultOf (.cell c.cell) = some (.ok first) ∧ Clash c first r e ∧ c.site = some site
    ∧ Relation.ReflTransGen t.engine.readers.Edge site key

end Run

namespace Moment

/-- The results that are there. -/
def memo : Moment → Memo
  | idle e => e.memo
  | running s => s.engine.memo

/-- The result of an entry, if there is one. -/
def resultOf (m : Moment) (key : Entry) : Option Outcome :=
  (m.memo.find? key).bind fun p => p.result

/-- One thing that is done with an engine, and what happens to computations thereby. -/
inductive Step : Moment → List Happening → Moment → Prop where
  | answered (e : Engine) (query : Query) :
      Step (idle e) [] (idle ((EngineM.answer query).run e).2)
  | refused (e : Engine) (key : Entry) :
      Step (idle e) [] (idle ((Run.start e false).request key).engine)
  | begins (e : Engine) (body : Infer Property) :
      Step (idle e) [] (running (Run.opening e body))
  | turn {s t : Run} {self : TaskId} {schedule : Schedule} {log : List Event}
      (offered : s.schedule.Offers self schedule)
      (turned : Run.Turned (s.scheduled schedule) self log t) :
      Step (running s) ((s.begun t).map .started) (running t)
  | ends {s : Run} (finished : s.Finished) :
      Step (running s) (s.unresolved.map .dropped) (idle s.close)

/-- A part of a session. -/
inductive Session : Moment → List Happening → Moment → Prop where
  | rest (m : Moment) : Session m [] m
  | step {m₁ m₂ m₃ : Moment} {log log' : List Happening} (first : Step m₁ log m₂)
      (later : Session m₂ log' m₃) : Session m₁ (log ++ log') m₃

/-- A moment in the life of an engine. -/
def Arises : Moment → Prop
  | idle e => e.Arises
  | running s => ∃ e body log, e.Arises ∧ Run.Polls (Run.opening e body) log s

end Moment

/-! ## One turn -/

namespace Run

variable {before : Memo} {s t : Run} {self : TaskId} {log : List Event} {key : Entry}

/-- A task that a turn has made computes what was not there. -/
theorem Move.promise?_of_new (tidy : Tidy before (some self) s) (move : Move s self log t)
    {x : TaskId} {goal : Goal} {w : Work} (found : t.tasks.find? x = some ⟨goal, w⟩)
    (new : s.nextTask ≤ x) : ∃ source, goal.source? = some source ∧ s.promise? source = none := by
  have old : ∀ {task : Task}, s.tasks.find? x ≠ some task :=
    fun known => absurd (tidy.bounded known) (Nat.not_lt_of_le new)
  cases move with
  | idle alike => exact absurd (alike.tasks ▸ found) old
  | @ends goal' asks s₀ r ends =>
    rw [(ending_endTask s₀ self goal' r).same.1] at found
    replace found : Table.find? (s₀.tasks.erase self) x = some ⟨goal, w⟩ := found
    rw [(alike_of_engine ends.same ends.memo).tasks, Table.find?_erase tidy.distinct] at found
    split at found
    · cases found
    · exact absurd found old
  | stays known waited quiet halt unended =>
    rcases find?_of_settle quiet halt unended found with ⟨rfl, rfl⟩ | known' | absent
    · exact absurd known old
    · exact absurd known' old
    · exact absent

theorem mem_begun (distinct : t.tasks.Distinct) :
    key ∈ s.begun t ↔ ∃ x w, s.nextTask ≤ x ∧ t.tasks.find? x = some ⟨.entry key, w⟩ := by
  rw [begun, List.mem_filterMap]
  constructor
  · rintro ⟨⟨x, goal, w⟩, hmem, hreader⟩
    obtain ⟨new, hreader⟩ := Option.ite_none_right_eq_some.mp hreader
    cases Goal.eq_entry_of_reader hreader
    exact ⟨x, w, new, Table.find?_of_mem distinct hmem⟩
  · rintro ⟨x, w, new, found⟩
    exact ⟨_, Table.mem_of_find? found, if_pos new⟩

/-- No entry gets two tasks. -/
theorem nodup_begun (tidy : Tidy before none t) : (s.begun t).Nodup := by
  rw [begun, List.Nodup, List.pairwise_filterMap]
  refine List.Pairwise.imp_of_mem ?_ (List.pairwise_map.mp tidy.distinct)
  rintro ⟨x, goal, w⟩ ⟨y, goal', w'⟩ hx hy hne k hk k' hk' rfl
  obtain ⟨-, hk⟩ := Option.ite_none_right_eq_some.mp hk
  obtain ⟨-, hk'⟩ := Option.ite_none_right_eq_some.mp hk'
  cases Goal.eq_entry_of_reader hk
  cases Goal.eq_entry_of_reader hk'
  exact hne (tidy.alone (Table.find?_of_mem tidy.distinct hx)
    (Table.find?_of_mem tidy.distinct hy) (by simp))

/-- What a turn asks for and was absent gets a task. -/
theorem mem_begun_of_absent (tidy : Tidy before (some self) s) (turned : Turned s self log t)
    (absent : s.promise? (.entry key) = none) (present : t.promise? (.entry key) ≠ none) :
    key ∈ s.begun t := by
  refine (mem_begun (tidy.turned turned).distinct).mpr ?_
  cases turned.move with
  | idle alike => exact absurd absent ((alike.present _).mp present)
  | @ends goal asks s₀ r ends =>
    rw [(ending_endTask s₀ self goal r).promise?_ne_none, promise?_leave,
      (alike_of_engine ends.same ends.memo).present] at present
    exact absurd absent present
  | stays known waited quiet halt unended =>
    obtain ⟨x, goal, w, new, aims, found⟩ :=
      exists_task_of_settle tidy known quiet halt unended absent present
    cases goal with
    | answer => cases aims
    | branch c => cases aims
    | entry k =>
      cases aims
      exact ⟨x, w, new, found⟩

/-- What a turn does to a result that is there. -/
theorem resultOf_turned {schedule : Schedule} (offered : s.schedule.Offers self schedule)
    (turned : Turned (s.scheduled schedule) self log t) {r : Outcome}
    (h : s.resultOf (.entry key) = some r) :
    t.resultOf (.entry key) = some r
      ∨ ∃ v e, r = .ok v ∧ t.resultOf (.entry key) = some (.error e) ∧ s.Poisons t key e := by
  have same : ∀ source, (s.scheduled schedule).resultOf source = s.resultOf source :=
    (alike_scheduled s schedule).results
  rw [← same] at h
  cases turned.move with
  | idle alike => exact .inl ((alike.results _).trans h)
  | stays known waited quiet halt unended =>
    exact .inl ((resultOf_settle quiet halt unended _).trans h)
  | @ends goal asks s₀ r' ends =>
    have alike := alike_of_engine ends.same ends.memo
    have left : ∀ source, (s₀.leave self).resultOf source = (s.scheduled schedule).resultOf source :=
      fun source => (resultOf_leave s₀ self source).trans (alike.results source)
    have ending := ending_endTask s₀ self goal r'
    rcases ending.resultOf (.entry key) with hsame | ⟨-, hnone, -⟩ |
      ⟨c, first, e, site, k, rfl, hfirst, clash, hk, sound, hnew, hsite, path⟩
    · exact .inl (hsame.trans ((left _).trans h))
    · rw [left, h] at hnone
      cases hnone
    · cases hk
      cases r with
      | error e' => exact absurd ⟨e', (left _).trans h⟩ sound
      | ok v =>
        rw [← ending.same.2.2.2.1] at path
        exact .inr ⟨v, e, rfl, hnew, self, schedule, _, c, first, r', site, offered, turned,
          List.mem_append_right _ (List.mem_singleton.mpr rfl), (same _).symm.trans
          ((left _).symm.trans hfirst), clash, hsite, path⟩

/-- What a turn does not take away. -/
theorem Turned.promise?_ne_none (turned : Turned s self log t) (source : Source)
    (h : s.promise? source ≠ none) : t.promise? source ≠ none := by
  cases turned.move with
  | idle alike => exact (alike.present source).mpr h
  | @ends goal asks s₀ r ends =>
    refine (ending_endTask s₀ self goal r).promise?_ne_none.mpr ?_
    rw [promise?_leave]
    exact ((alike_of_engine ends.same ends.memo).present source).mpr h
  | @stays goal w asks log s₁ s₂ b progress known waited quiet halt unended =>
    rw [← quiet.promise?] at h
    obtain ⟨after, hsettle⟩ := exists_settle s₂ self goal unended
    rw [hsettle]
    cases source <;> exact halt.promise?_ne_none h

theorem mem_unresolved (distinct : s.Distinct) :
    key ∈ s.unresolved ↔ ∃ p, s.engine.memo.find? key = some p ∧ p.result = none := by
  rw [unresolved, List.mem_map]
  constructor
  · rintro ⟨⟨k, p⟩, hmem, rfl⟩
    obtain ⟨hmem, missing⟩ := List.mem_filter.mp hmem
    exact ⟨p, Table.find?_of_mem distinct.1 hmem, by simpa [Promise.isResolved] using missing⟩
  · rintro ⟨p, found, missing⟩
    refine ⟨(key, p), List.mem_filter.mpr ⟨Table.mem_of_find? found, ?_⟩, rfl⟩
    simp [Promise.isResolved, missing]

theorem Polls.snoc {schedule : Schedule} {u : Run} {log' : List Event} (polls : Polls s log t)
    (offered : t.schedule.Offers self schedule) (turned : Turned (t.scheduled schedule) self log' u) :
    Polls s (log ++ log') u := by
  induction polls with
  | rest s =>
    have := Polls.poll offered turned (.rest u)
    rwa [List.append_nil] at this
  | poll offered' turned' later ih =>
    rw [List.append_assoc]
    exact .poll offered' turned' (ih offered turned)

end Run

/-! ## One step of a session -/

namespace Moment

variable {m m' : Moment} {log log' : List Happening} {key : Entry} {r : Outcome}

theorem Step.arises (step : Step m log m') (arises : m.Arises) : m'.Arises := by
  cases step with
  | answered e query => exact Engine.Arises.answered arises query
  | refused e key => exact Engine.Arises.refused arises key
  | begins e body => exact ⟨e, body, [], arises, .rest _⟩
  | turn offered turned =>
    obtain ⟨e, body, past, he, polls⟩ := arises
    exact ⟨e, body, _, he, polls.snoc offered turned⟩
  | ends finished =>
    obtain ⟨e, body, past, he, polls⟩ := arises
    exact .ran he body polls finished

theorem distinct_of_arises {s : Run} (arises : (running s).Arises) : s.Distinct := by
  obtain ⟨e, body, past, he, polls⟩ := arises
  exact Run.Distinct.polls (s := Run.opening e body) ⟨he.settled.memo, he.settled.readers⟩ polls

theorem exists_tidy_of_arises {s : Run} (arises : (running s).Arises) :
    ∃ before, Run.Tidy before none s := by
  obtain ⟨e, body, past, -, polls⟩ := arises
  exact ⟨_, (Run.tidy_opening e body).polls polls⟩

theorem find?_refused (e : Engine) (other : Entry) (h : e.memo.find? key ≠ none) :
    ((Run.start e false).request other).engine.memo.find? key = e.memo.find? key := by
  rw [Run.request]
  split
  · rfl
  · rename_i absent
    rw [if_neg (show ¬ (Run.start e false).active = true from Bool.false_ne_true)]
    refine Table.find?_insert_of_ne _ _ ?_
    rintro rfl
    exact h (Table.contains_eq_false.mp (Bool.not_eq_true _ ▸ absent))

/-- A result that is there stays, unless it turns into a failure. -/
theorem Step.resultOf (step : Step m log m') (arises : m.Arises) (h : m.resultOf key = some r) :
    m'.resultOf key = some r ∨ ∃ v e, r = .ok v ∧ m'.resultOf key = some (.error e)
      ∧ ∃ s t, m = running s ∧ m' = running t ∧ s.Poisons t key e := by
  have present : m.memo.find? key ≠ none := by
    intro absent
    rw [Moment.resultOf, absent] at h
    cases h
  cases step with
  | answered e query =>
    have same : ((EngineM.answer query).run e).2.memo = e.memo := (EngineM.grows_answer query e).memo
    exact .inl ((congrArg (fun memo : Memo => (memo.find? key).bind (·.result)) same).trans h)
  | refused e other =>
    refine .inl (Eq.trans ?_ h)
    exact congrArg (·.bind fun p => p.result) (find?_refused e other present)
  | begins e body => exact .inl h
  | @turn s t self schedule log offered turned =>
    rcases Run.resultOf_turned offered turned (show s.resultOf (.entry key) = some r from h) with
      same | ⟨v, e, hr, failed, poisons⟩
    · exact .inl same
    · exact .inr ⟨v, e, hr, failed, s, t, rfl, rfl, poisons⟩
  | @ends s finished =>
    obtain ⟨p, found, ready⟩ := Run.find?_close (distinct_of_arises arises)
      (show s.resultOf (.entry key) = some r from h)
    refine .inl ?_
    rw [Moment.resultOf, show (idle s.close).memo.find? key = some p from found, Option.bind_some,
      ready]

/-- What is there stays, unless a run ends without a result for it. -/
theorem Step.present (step : Step m log m') (arises : m.Arises) (h : m.memo.find? key ≠ none) :
    m'.memo.find? key ≠ none ∨ .dropped key ∈ log := by
  cases step with
  | answered e query =>
    refine .inl ?_
    rw [show (idle ((EngineM.answer query).run e).2).memo = e.memo from
      (EngineM.grows_answer query e).memo]
    exact h
  | refused e other => exact .inl (find?_refused e other h ▸ h)
  | begins e body => exact .inl h
  | @turn s t self schedule log offered turned =>
    exact .inl (turned.promise?_ne_none (.entry key) (by rw [Run.promise?_scheduled]; exact h))
  | @ends s finished =>
    have distinct := distinct_of_arises arises
    obtain ⟨p, found⟩ := Option.ne_none_iff_exists'.mp h
    cases ready : p.result with
    | none =>
      exact .inr (List.mem_map_of_mem ((Run.mem_unresolved distinct).mpr ⟨p, found, ready⟩))
    | some r =>
      obtain ⟨q, kept, -⟩ := Run.find?_close distinct
        ((Run.resultOf_of_promise? (show s.promise? (.entry key) = some p from found)).trans ready)
      refine .inl ?_
      rw [show (idle s.close).memo.find? key = some q from kept]
      simp

end Moment

/-! ## What has happened so far -/

/-- The computation of an entry was started, and no run has dropped it since. -/
def Underway (log : List Happening) (key : Entry) : Prop :=
  ∃ past since, log = past ++ .started key :: since ∧ .dropped key ∉ since

/-- Between two computations of an entry, a run has dropped the first one. -/
def Once (log : List Happening) : Prop :=
  ∀ (key : Entry) (past between rest : List Happening),
    log = past ++ .started key :: between ++ .started key :: rest → .dropped key ∈ between

variable {log : List Happening} {key : Entry} {keys : List Entry}

theorem Underway.of_snoc {new : Happening} (h : Underway (log ++ [new]) key) :
    new ≠ .dropped key ∧ (new = .started key ∨ Underway log key) := by
  obtain ⟨past, since, split, kept⟩ := h
  rcases List.eq_nil_or_concat since with rfl | ⟨since, last, rfl⟩
  · obtain ⟨-, hnew⟩ := List.append_inj' split rfl
    cases hnew
    exact ⟨by simp, .inl rfl⟩
  · rw [List.concat_eq_append, ← List.cons_append, ← List.append_assoc] at split
    obtain ⟨hlog, hnew⟩ := List.append_inj' split rfl
    cases hnew
    rw [List.concat_eq_append, List.mem_append, not_or] at kept
    exact ⟨fun h => kept.2 (List.mem_singleton.mpr h.symm), .inr ⟨past, since, hlog, kept.1⟩⟩

theorem Once.snoc (h : Once log) {new : Happening}
    (fresh : ∀ key, new = .started key → ¬ Underway log key) : Once (log ++ [new]) := by
  intro key past between rest split
  rcases List.eq_nil_or_concat rest with rfl | ⟨rest, last, rfl⟩
  · obtain ⟨hlog, hnew⟩ := List.append_inj' split rfl
    cases hnew
    by_contra kept
    exact fresh key rfl ⟨past, between, hlog, kept⟩
  · rw [List.concat_eq_append, ← List.cons_append, ← List.append_assoc] at split
    exact h key past between rest (List.append_inj' split rfl).1

theorem Underway.of_started (h : Underway (log ++ keys.map .started) key) :
    key ∈ keys ∨ Underway log key := by
  induction keys generalizing log with
  | nil =>
    rw [List.map_nil, List.append_nil] at h
    exact .inr h
  | cons first keys ih =>
    rw [List.map_cons, List.append_cons] at h
    rcases ih h with hmem | hold
    · exact .inl (List.mem_cons_of_mem _ hmem)
    · rcases hold.of_snoc.2 with hfirst | hold
      · cases hfirst
        exact .inl List.mem_cons_self
      · exact .inr hold

theorem Underway.of_dropped (h : Underway (log ++ keys.map .dropped) key) :
    key ∉ keys ∧ Underway log key := by
  induction keys generalizing log with
  | nil =>
    rw [List.map_nil, List.append_nil] at h
    exact ⟨by simp, h⟩
  | cons first keys ih =>
    rw [List.map_cons, List.append_cons] at h
    obtain ⟨hmem, hold⟩ := ih h
    obtain ⟨hne, hfirst | hold⟩ := hold.of_snoc
    · cases hfirst
    · rw [List.mem_cons, not_or]
      exact ⟨⟨fun heq => hne (heq ▸ rfl), hmem⟩, hold⟩

theorem Once.started (h : Once log) (distinct : keys.Nodup)
    (fresh : ∀ key ∈ keys, ¬ Underway log key) : Once (log ++ keys.map .started) := by
  induction keys generalizing log with
  | nil => rwa [List.map_nil, List.append_nil]
  | cons first keys ih =>
    obtain ⟨hfirst, distinct⟩ := List.nodup_cons.mp distinct
    rw [List.map_cons, List.append_cons]
    refine ih (h.snoc ?_) distinct ?_
    · rintro key ⟨⟩
      exact fresh first List.mem_cons_self
    · intro key hkey underway
      rcases underway.of_snoc.2 with heq | hold
      · cases heq
        exact hfirst hkey
      · exact fresh key (List.mem_cons_of_mem _ hkey) hold

theorem Once.dropped (h : Once log) : Once (log ++ keys.map .dropped) := by
  induction keys generalizing log with
  | nil => rwa [List.map_nil, List.append_nil]
  | cons first keys ih =>
    rw [List.map_cons, List.append_cons]
    exact ih (h.snoc (by rintro key ⟨⟩))

/-! ## Whole sessions -/

namespace Moment

variable {m m' m'' : Moment} {log log' : List Happening} {key : Entry} {r : Outcome}

/-- The account of a session: nothing was computed again while it was there, and what is being
computed, or was, is there. -/
structure Recorded (past : List Happening) (m : Moment) : Prop where
  arises : m.Arises
  once : Once past
  present : ∀ {key : Entry}, Underway past key → m.memo.find? key ≠ none

/-- Only what is absent is computed. -/
theorem started_absent {s t : Run} {self : TaskId} {schedule : Schedule} {log : List Event}
    (arises : (running s).Arises) (offered : s.schedule.Offers self schedule)
    (turned : Run.Turned (s.scheduled schedule) self log t) :
    (s.begun t).Nodup ∧ ∀ key ∈ s.begun t, s.engine.memo.find? key = none
      ∧ t.engine.memo.find? key ≠ none := by
  obtain ⟨before, tidy⟩ := exists_tidy_of_arises arises
  have busy := tidy.offered offered
  have after := busy.turned turned
  refine ⟨Run.nodup_begun after, fun key hkey => ?_⟩
  obtain ⟨x, w, new, found⟩ := (Run.mem_begun after.distinct).mp hkey
  obtain ⟨source, aims, absent⟩ := turned.move.promise?_of_new busy found new
  cases aims
  rw [Run.promise?_scheduled] at absent
  exact ⟨absent, (after.entries found).2⟩

theorem Recorded.step {past : List Happening} (h : Recorded past m) (step : Step m log m') :
    Recorded (past ++ log) m' := by
  have stays : ∀ {key}, Underway past key → .dropped key ∉ log → m'.memo.find? key ≠ none :=
    fun underway kept => (step.present h.arises (h.present underway)).resolve_right kept
  refine ⟨step.arises h.arises, ?_, ?_⟩
  · cases step with
    | turn offered turned =>
      obtain ⟨distinct, fresh⟩ := started_absent h.arises offered turned
      exact h.once.started distinct fun key hkey underway =>
        h.present underway (fresh key hkey).1
    | ends finished => exact h.once.dropped
    | _ =>
      rw [List.append_nil]
      exact h.once
  · intro key underway
    cases step with
    | turn offered turned =>
      rcases underway.of_started with hkey | hold
      · exact ((started_absent h.arises offered turned).2 key hkey).2
      · exact stays hold (by simp)
    | ends finished =>
      obtain ⟨hkey, hold⟩ := underway.of_dropped
      exact stays hold (by simpa using hkey)
    | _ =>
      rw [List.append_nil] at underway
      exact stays underway (by simp)

theorem Recorded.session {past : List Happening} (h : Recorded past m) (session : Session m log m') :
    Recorded (past ++ log) m' := by
  induction session generalizing past with
  | rest m =>
    rw [List.append_nil]
    exact h
  | step first later ih =>
    rw [← List.append_assoc]
    exact ih (h.step first)

/-- An entry that has a result is not computed again, and its result stays or turns into a
failure. -/
theorem Session.resultOf (session : Session m log m') (arises : m.Arises)
    (h : m.resultOf key = some r) : .started key ∉ log
      ∧ (m'.resultOf key = some r ∨ ∃ v e, r = .ok v ∧ m'.resultOf key = some (.error e)) := by
  induction session generalizing r with
  | rest m => exact ⟨List.not_mem_nil, .inl h⟩
  | @step m₁ m₂ m₃ log log' first later ih =>
    have fresh : .started key ∉ log := by
      intro started
      cases first with
      | turn offered turned =>
        obtain ⟨k, hk, heq⟩ := List.mem_map.mp started
        cases heq
        have absent := ((started_absent arises offered turned).2 key hk).1
        rw [Moment.resultOf, show (running _).memo.find? key = none from absent] at h
        cases h
      | ends finished => simp at started
      | _ => cases started
    rw [List.mem_append, not_or]
    rcases first.resultOf arises h with same | ⟨v, e, rfl, failed, -⟩
    · obtain ⟨hlater, result⟩ := ih (first.arises arises) same
      exact ⟨⟨fresh, hlater⟩, result⟩
    · obtain ⟨hlater, same | ⟨_, _, hr, -⟩⟩ := ih (first.arises arises) failed
      · exact ⟨⟨fresh, hlater⟩, .inr ⟨v, e, rfl, same⟩⟩
      · cases hr

/-- What an engine computes, it computes once, whatever the order of turns in its runs: an entry is
computed again only after a run has ended without its result. A result that is there stays; it can
only turn from a property into an error, and only because a conditional that it depends on has found
out late that its second branch has failed or disagrees. -/
theorem computed_once {e : Engine} (arises : e.Arises) (session : Session (.idle e) log m) :
    (∀ key past between rest, log = past ++ .started key :: between ++ .started key :: rest →
        .dropped key ∈ between)
      ∧ (∀ key r log' m', m.resultOf key = some r → Session m log' m' → .started key ∉ log'
        ∧ (m'.resultOf key = some r ∨ ∃ v e, r = .ok v ∧ m'.resultOf key = some (.error e)))
      ∧ ∀ key r log' m', m.resultOf key = some r → Step m log' m' → m'.resultOf key ≠ some r →
        ∃ s t e, m = .running s ∧ m' = .running t ∧ m'.resultOf key = some (.error e)
          ∧ s.Poisons t key e := by
  have recorded : Recorded log m := by
    have start : Recorded [] (.idle e) := ⟨arises, ?_, ?_⟩
    · exact start.session session
    · rintro key past between rest h
      simp at h
    · rintro key ⟨past, since, h, -⟩
      simp at h
  refine ⟨recorded.once,
    fun key r log' m' h session => session.resultOf recorded.arises h, ?_⟩
  intro key r log' m' h step changed
  rcases step.resultOf recorded.arises h with same | ⟨v, e, -, failed, s, t, hs, ht, poisons⟩
  · exact absurd same changed
  · exact ⟨s, t, e, hs, ht, failed, poisons⟩

/-! ## The session of a call -/

theorem Session.trans (first : Session m log m') (later : Session m' log' m'') :
    Session m (log ++ log') m'' := by
  induction first with
  | rest m => exact later
  | step step rest ih =>
    rw [List.append_assoc]
    exact .step step (ih later)

/-- Turns as a part of a session. What was absent and is there afterwards was computed. -/
theorem exists_session_of_polls {s t : Run} {events : List Event} (polls : Run.Polls s events t)
    (arises : (running s).Arises) : ∃ log, Session (running s) log (running t)
      ∧ ∀ key, s.engine.memo.find? key = none → t.engine.memo.find? key ≠ none →
        .started key ∈ log := by
  induction polls with
  | rest s => exact ⟨_, .rest _, fun key absent present => absurd absent present⟩
  | @poll s u t self schedule _ _ offered turned later ih =>
    have step := Step.turn offered turned
    obtain ⟨log, session, started⟩ := ih (step.arises arises)
    refine ⟨_, .step step session, fun key absent present => ?_⟩
    rw [List.mem_append]
    by_cases middle : u.engine.memo.find? key = none
    · exact .inr (started key middle present)
    · obtain ⟨before, tidy⟩ := exists_tidy_of_arises arises
      have begun := Run.mem_begun_of_absent (tidy.offered offered) turned
        ((Run.promise?_scheduled _ _ (.entry key)).trans absent) middle
      exact .inl (List.mem_map_of_mem begun)

/-- The call of a graph as a part of a session. -/
theorem exists_session_of_asking {e : Engine} (arises : e.Arises) {graph : GraphId}
    {args : List ArgSpec} {track : Track} {events : List Event} {s : Run}
    (polls : Run.Polls (Run.asking e graph args track) events s) :
    ∃ log, Session (.idle e) log (.running s)
      ∧ ∀ key, e.memo.find? key = none → s.engine.memo.find? key ≠ none → .started key ∈ log := by
  have asked := Step.answered e (.graphInferrer track graph .empty)
  have begins := Step.begins ((EngineM.graphInferrer track graph .empty).run e).2
    (Infer.callInferrer ((EngineM.graphInferrer track graph .empty).run e).1
      (args.map ArgSpec.toRef))
  obtain ⟨log, session, started⟩ := exists_session_of_polls polls
    (begins.arises (asked.arises (show (Moment.idle e).Arises from arises)))
  refine ⟨_, .step asked (.step begins session), fun key absent present => started key ?_ present⟩
  rw [show (Run.asking e graph args track).engine.memo = e.memo from
    (EngineM.grows_graphInferrer track graph .empty e).memo]
  exact absent

/-- A graph without parameters that calls itself. -/
def endlessCall : Program where
  graphs := #[⟨"main", none, [], some ⟨1⟩⟩]
  nodes := #[Run.outer (.graph ⟨0⟩), Run.inner 0 (.apply [⟨0⟩])]

/-- The type of the call. -/
def endlessEntry : Entry :=
  { ref := ⟨⟨1⟩, .frame .empty ⟨0⟩ []⟩, track := .type }

/-- The call depends on itself, so the run ends without its type, and the next run computes it
again. -/
theorem computed_once_endlessCall :
    ∃ log m, Session (.idle (.new endlessCall (.empty ⟨0⟩) .standard)) log m
      ∧ (∃ past between rest, .dropped endlessEntry ∈ between ∧ log
        = past ++ .started endlessEntry :: between ++ .started endlessEntry :: rest)
      ∧ (∀ key r log' m', m.resultOf key = some r → Session m log' m' → .started key ∉ log'
        ∧ (m'.resultOf key = some r ∨ ∃ v e, r = .ok v ∧ m'.resultOf key = some (.error e)))
      ∧ ∀ key r log' m', m.resultOf key = some r → Step m log' m' → m'.resultOf key ≠ some r →
        ∃ s t e, m = .running s ∧ m' = .running t ∧ m'.resultOf key = some (.error e)
          ∧ s.Poisons t key e := by
  have hrun : ((Run.driveWithin 10 30
      (.asking (.new endlessCall (.empty ⟨0⟩) .standard) ⟨0⟩ [] .type)).bind fun s =>
        (Run.driveWithin 10 30 (.asking s.close ⟨0⟩ [] .type)).map fun t =>
          (s.engine.memo.contains endlessEntry, s.close.memo.contains endlessEntry,
            t.engine.memo.contains endlessEntry)) = some (true, false, true) := by
    decide +kernel
  obtain ⟨s, first, second⟩ := Option.bind_eq_some_iff.mp hrun
  obtain ⟨t, second, seen⟩ := Option.map_eq_some_iff.mp second
  simp only [Prod.mk.injEq, Table.contains_eq_true, Table.contains_eq_false] at seen
  obtain ⟨⟨p, there⟩, gone, ⟨q, again⟩⟩ := seen
  obtain ⟨_, polls, finished⟩ := Run.exists_polls_of_drive rfl (Run.drive_of_driveWithin first)
  obtain ⟨_, polls', -⟩ := Run.exists_polls_of_drive rfl (Run.drive_of_driveWithin second)
  have arises : (Engine.new endlessCall (.empty ⟨0⟩) .standard).Arises := .new _ _ _
  obtain ⟨log, session, started⟩ := exists_session_of_asking arises polls
  have closed : s.close.Arises := by
    refine .ran (.answered arises (.graphInferrer .type ⟨0⟩ .empty)) _ polls finished
  obtain ⟨log', session', started'⟩ := exists_session_of_asking closed polls'
  obtain ⟨past, since, rfl⟩ := List.append_of_mem (started endlessEntry rfl (by simp [there]))
  obtain ⟨middle, rest, rfl⟩ := List.append_of_mem (started' endlessEntry gone (by simp [again]))
  have whole := session.trans (.step (.ends finished) session')
  have once := computed_once arises whole
  refine ⟨_, _, whole, ⟨past, since ++ (s.unresolved.map .dropped ++ middle), rest, ?_, ?_⟩, once.2⟩
  · exact once.1 endlessEntry past _ rest (by simp)
  · simp

end Moment

end ArrayInference
