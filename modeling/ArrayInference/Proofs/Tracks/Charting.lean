import ArrayInference.Proofs.Run.Results
import ArrayInference.Proofs.Tracks.Tame

/-!
# A run keeps its ledger

While a run goes on, its ledger holds the engine and every property that an entry was found to have,
and each of these is what the computation of the entry gives. Every task that is at work for an entry
is on the way to what that computation gives. Main statement: each turn of a run keeps this, with a
later ledger.
-/

namespace ArrayInference

namespace Engine

/-- Only results, their readers and notes have changed. -/
def Recorded (e f : Engine) : Prop :=
  f = { e with memo := f.memo, readers := f.readers, diagnostics := f.diagnostics }

theorem Recorded.trans {e f g : Engine} (h : e.Recorded f) (h' : f.Recorded g) : e.Recorded g := by
  rw [Recorded] at h h' ⊢
  rw [h', h]

end Engine

namespace Run

variable {α : Type} {s t : Run} {self : TaskId} {reader : Option Entry} {log : List Event}

theorem recorded_addReader (s : Run) (key : Entry) (reader : Option Entry) :
    s.engine.Recorded (s.addReader key reader).engine := by
  cases reader <;> rfl

theorem recorded_setPromise (s : Run) (source : Source) (p : Promise TaskId) :
    s.engine.Recorded (s.setPromise source p).engine := by
  cases source <;> rfl

theorem Halt.recorded {b : Infer α} {progress : Progress α}
    (halt : Halt self reader b s log progress t) : s.engine.Recorded t.engine := by
  cases halt with
  | readFailed found failed => exact recorded_addReader _ _ _
  | wait found missing => exact (recorded_addReader _ _ _).trans (recorded_setPromise _ _ _)
  | @begin key next _ absent =>
    refine (recorded_addReader s key reader).trans ?_
    rfl
  | race track use first second next =>
    exact recorded_setPromise (s.race reader track use first second).2 _ _
  | _ => rfl

theorem Ending.recorded {goal : Goal} {r : Outcome} (ending : Ending s goal r t) :
    s.engine.Recorded t.engine := by
  cases ending with
  | fulfils r aims found missing => exact recorded_setPromise _ _ _
  | @late c p r e first clash =>
    cases hsite : c.site with
    | none => rfl
    | some k => rfl
  | _ => rfl

end Run

namespace Ledger

variable {v w : Ledger} {s t : Run} {goal : Goal}

/-! ## What is recorded -/

theorem Lawful.after {e : Engine} (lawful : w.Lawful) (le : w.Le (w.after e))
    (kept : (w.after e).Kept) : (w.after e).Lawful where
  toKept := kept
  functional := lawful.functional
  agree := fun left other right => (lawful.agree left other right).mono le

theorem le_recorded {e : Engine} (same : w.engine.Recorded e) : w.Le (w.after e) := by
  rw [same]
  exact le_after (.refl _) rfl rfl id

theorem Lawful.recorded {e : Engine} (lawful : w.Lawful) (same : w.engine.Recorded e) :
    (w.after e).Lawful := by
  have le := le_recorded same
  refine lawful.after le (lawful.toKept.congr le ?_ ?_ ?_) <;> rw [same]

/-- The ledger with one property more. -/
def record (w : Ledger) (key : Entry) (p : Property) : Ledger :=
  { w with found := fun k q => w.found k q ∨ (k = key ∧ q = p) }

theorem le_record (w : Ledger) (key : Entry) (p : Property) : w.Le (w.record key p) where
  program := .refl _
  home := rfl
  callables := id
  generated := id
  found := Or.inl
  shapes := .rfl

/-- What the computation of an entry gives, if the entry had nothing yet, agrees with what was found
before. -/
theorem Lawful.record (lawful : w.Lawful) {key : Entry} {p : Property} (fresh : ∀ q, ¬ w.found key q)
    (good : w.Good key.ref.ctx)
    (derived : ∀ {k : Entry} {q : Property}, w.found k q → w.Yields w.Gives (k.ref.infer k.track) q)
    (gives : w.Yields w.Gives (key.ref.infer key.track) p) : (w.record key p).Lawful where
  rules := lawful.rules
  anything := lawful.anything
  scalarShape := lawful.scalarShape
  sound := fun known => (lawful.sound known).mono (le_record w key p)
  kept := fun known => (lawful.kept known).mono (le_record w key p)
  functional := by
    rintro k a b (ha | ⟨rfl, rfl⟩) (hb | ⟨hk, rfl⟩)
    · exact lawful.functional ha hb
    · exact (fresh a (hk ▸ ha)).elim
    · exact (fresh b hb).elim
    · rfl
  agree := by
    rintro r t a b (ha | ⟨hk, rfl⟩) other (hb | ⟨hk', rfl⟩)
    · exact (lawful.agree ha other hb).mono (le_record w key p)
    · subst hk'
      exact (lawful.agree_infer other good (derived ha) gives).mono (le_record w _ _)
    · subst hk
      exact (lawful.agree_infer other good gives (derived hb)).mono (le_record w _ _)
    · rw [← hk] at hk'
      cases hk'
      exact absurd rfl other

/-- The ledger of a run. -/
structure Charted (w : Ledger) (s : Run) : Prop extends Lawful w where
  engine : w.engine = s.engine
  logged : ∀ {key : Entry} {p : Property}, s.resultOf (.entry key) = some (.ok p) → w.found key p
  settled : ∀ {key : Entry} {p : Property}, w.found key p → s.resultOf (.entry key) ≠ none
  derived : ∀ {key : Entry} {p : Property}, w.found key p →
    w.Yields w.Gives (key.ref.infer key.track) p

theorem Yields.later {α : Type} {b : Infer α} {r : α} (h : v.Yields v.Gives b r) (le : v.Le w) :
    w.Yields w.Gives b r :=
  h.mono le fun _ _ _ gives => gives.mono le

/-- Nothing is found, and nothing is forgotten. -/
theorem Charted.after (h : w.Charted s) (le : w.Le (w.after t.engine))
    (lawful : (w.after t.engine).Lawful)
    (ok : ∀ {key : Entry} {p : Property}, t.resultOf (.entry key) = some (.ok p) →
      s.resultOf (.entry key) = some (.ok p))
    (kept : ∀ {key : Entry}, s.resultOf (.entry key) ≠ none → t.resultOf (.entry key) ≠ none) :
    (w.after t.engine).Charted t where
  toLawful := lawful
  engine := rfl
  logged := fun result => h.logged (ok result)
  settled := fun found => kept (h.settled found)
  derived := fun found => (h.derived found).later le

theorem Charted.recorded (h : w.Charted s) (same : s.engine.Recorded t.engine)
    (ok : ∀ {key : Entry} {p : Property}, t.resultOf (.entry key) = some (.ok p) →
      s.resultOf (.entry key) = some (.ok p))
    (kept : ∀ {key : Entry}, s.resultOf (.entry key) ≠ none → t.resultOf (.entry key) ≠ none) :
    w.Le (w.after t.engine) ∧ (w.after t.engine).Charted t := by
  rw [← h.engine] at same
  exact ⟨le_recorded same, h.after (le_recorded same) (h.toLawful.recorded same) ok kept⟩

theorem Charted.same (h : w.Charted s) (same : s.engine.Recorded t.engine)
    (results : ∀ key, t.resultOf (.entry key) = s.resultOf (.entry key)) :
    w.Le (w.after t.engine) ∧ (w.after t.engine).Charted t :=
  h.recorded same (fun {key _} ok => results key ▸ ok) (fun {key} kept => (results key).symm ▸ kept)

/-! ## Tasks on their way -/

/-- Whatever a computation comes to find is what the computation of an entry gives. -/
def Leads (w : Ledger) (b : Infer Property) (key : Entry) : Prop :=
  ∀ v p, w.Le v → v.Yields v.Gives b p → v.Yields v.Gives (key.ref.infer key.track) p

/-- A computation that a task for a goal can be at. -/
def Fine (w : Ledger) (goal : Goal) (b : Infer Property) : Prop :=
  w.Tame b ∧ ∀ key, goal = .entry key → w.Good key.ref.ctx ∧ w.Leads b key

/-- What a source is known to hold. Nothing is known of the branches of a conditional. -/
def Learns (w : Ledger) : Source → Property → Prop
  | .entry key, p => w.found key p
  | .cell _, _ => True

/-- A computation that can wait for a source. -/
def Awaits (w : Ledger) (goal : Goal) (source : Source) (next : Property → Infer Property) : Prop :=
  ∀ v p, w.Le v → v.Lawful → v.Learns source p → v.Fine goal (next p)

/-- A task that is fine wherever it goes on. -/
def Able (w : Ledger) (task : Task) : Prop :=
  match task.work with
  | .ready body => w.Fine task.goal body
  | .waiting source next => w.Awaits task.goal source next
  | .forever => True

/-- Every task is. -/
def Manned (w : Ledger) (s : Run) : Prop :=
  ∀ t task, (t, task) ∈ s.tasks → w.Able task

theorem Leads.mono {b : Infer Property} {key : Entry} (h : v.Leads b key) (le : v.Le w) :
    w.Leads b key :=
  fun u p le' => h u p (le.trans le')

theorem Fine.mono {b : Infer Property} (h : v.Fine goal b) (le : v.Le w) : w.Fine goal b :=
  ⟨h.1.mono le, fun key same => ⟨(h.2 key same).1.mono le, (h.2 key same).2.mono le⟩⟩

theorem Awaits.mono {source : Source} {next : Property → Infer Property}
    (h : v.Awaits goal source next) (le : v.Le w) : w.Awaits goal source next :=
  fun u p le' => h u p (le.trans le')

theorem Able.mono {task : Task} (h : v.Able task) (le : v.Le w) : w.Able task := by
  obtain ⟨goal, work⟩ := task
  cases work with
  | ready body => exact Fine.mono h le
  | waiting source next => exact Awaits.mono h le
  | forever => trivial

theorem Manned.mono (h : v.Manned s) (le : v.Le w) (sub : t.tasks ⊆ s.tasks) : w.Manned t :=
  fun x task there => (h x task (sub there)).mono le

theorem Manned.same (h : v.Manned s) (le : v.Le w) (same : t.tasks = s.tasks) : w.Manned t :=
  h.mono le (same ▸ List.Subset.refl _)

/-- The computation of a node leads to what it gives. -/
theorem Lawful.fine_infer (lawful : w.Lawful) {key : Entry} (good : w.Good key.ref.ctx) :
    w.Fine (.entry key) (key.ref.infer key.track) := by
  refine ⟨lawful.tame_infer good, ?_⟩
  rintro k ⟨⟩
  exact ⟨good, fun v p _ => id⟩

theorem fine_branch (use : BranchUse) {x : Ref} (sure : w.Sure x) (track : Track) (c : BranchCheck) :
    w.Fine (.branch c) (Infer.branch track use x) :=
  ⟨tame_branch use sure, by rintro k ⟨⟩⟩

/-- Where a turn may leave a task. -/
def Leaves (w : Ledger) (goal : Goal) : Run.Progress Property → Prop
  | .ended (.ok p) => w.Fine goal (.done p)
  | .ended (.error _) | .forever => True
  | .waiting source next => w.Awaits goal source next
  | .calling body => w.Fine goal body

/-! ## Steps -/

variable {reader : Option Entry} {self : TaskId} {log : List Event} {b b₁ : Infer Property}

theorem Charted.ask (h : w.Charted s) {query : Query} (permitted : w.Permits query) :
    w.Le (w.after (s.afterAnswer query).engine)
      ∧ (w.after (s.afterAnswer query).engine).Charted (s.afterAnswer query)
      ∧ (w.after (s.afterAnswer query).engine).Answers query ((EngineM.answer query).run s.engine).1 := by
  obtain ⟨le, kept, answers⟩ := keeps_answer h.toKept permitted
  rw [h.engine] at le kept answers
  have results : ∀ key, (s.afterAnswer query).resultOf (.entry key) = s.resultOf (.entry key) := by
    intro key
    refine Run.resultOf_congr ?_
    show (s.afterAnswer query).engine.memo.find? key = s.engine.memo.find? key
    rw [Run.afterAnswer_memo]
  refine ⟨le, h.after le (h.toLawful.after le kept) ?_ ?_, answers⟩
  · exact fun {key _} ok => results key ▸ ok
  · exact fun {key} kept => (results key).symm ▸ kept

/-- A step of a turn. -/
theorem Charted.step (h : w.Charted s) (fine : w.Fine goal b) (step : Run.Step reader b s log b₁ t) :
    ∃ v, w.Le v ∧ v.Charted t ∧ v.Fine goal b₁ := by
  obtain ⟨tame, leads⟩ := fine
  cases step with
  | ask query next =>
    cases tame with
    | ask permitted later =>
      obtain ⟨le, charted, answers⟩ := h.ask permitted
      refine ⟨_, le, charted, later _ _ le charted.toLawful answers, fun key same => ?_⟩
      refine ⟨(leads key same).1.mono le, fun v p le' hp => ?_⟩
      exact (leads key same).2 v p (le.trans le') ⟨_, answers.mono le', hp⟩
  | @read key next _ p q found ready =>
    obtain ⟨le, charted⟩ := h.same (Run.recorded_addReader s key reader)
      fun _ => Run.resultOf_addReader s key reader _
    replace found : s.promise? (.entry key) = some p := found
    have learnt : w.found key q := h.logged ((Run.resultOf_of_promise? found).trans ready)
    cases tame with
    | demand good later =>
      refine ⟨_, le, charted, later _ _ le charted.toLawful learnt, fun other same => ?_⟩
      refine ⟨(leads other same).1.mono le, fun v p le' hp => ?_⟩
      exact (leads other same).2 v p (le.trans le') ⟨q, (le.trans le').found learnt, hp⟩
  | @call callee args next _ c found =>
    rw [← h.engine] at found
    cases tame with
    | call sure later =>
      refine ⟨w, .refl w, h, ?_, fun key same => ⟨(leads key same).1, fun v p le hp => ?_⟩⟩
      · exact (h.toLawful.tame_body (h.sound found) sure).bind h.toLawful
          fun v a le lawful _ => later v a le lawful
      · obtain ⟨q, hq, hp⟩ := yields_bind.mp hp
        exact (leads key same).2 v p le ⟨q, gives_iff.mpr ⟨c, le.callables found, hq⟩, hp⟩

theorem Charted.steps (h : w.Charted s) (fine : w.Fine goal b) (steps : Run.Steps reader b s log b₁ t) :
    ∃ v, w.Le v ∧ v.Charted t ∧ v.Fine goal b₁ := by
  induction steps generalizing w with
  | refl b s => exact ⟨w, .refl w, h, fine⟩
  | head first rest ih =>
    obtain ⟨v, le, charted, fine⟩ := h.step fine first
    obtain ⟨u, le', charted, fine⟩ := ih charted fine
    exact ⟨u, le.trans le', charted, fine⟩

end Ledger

end ArrayInference
