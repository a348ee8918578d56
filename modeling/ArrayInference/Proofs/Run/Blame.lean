import ArrayInference.Proofs.Run.Results
import Mathlib.Logic.Function.Basic

/-!
# No failure is lost

A task that is made for a source has a number, and whoever asked for the source first has a smaller
one. So a failure has someone to go to: the task that asked first still waits for the source, or it
has already passed the failure on to a source that was begun earlier. A run in which no task can go
on has nobody left who waits for a failure, and the failure has reached the run itself.
-/

namespace ArrayInference

namespace Run

variable {before : Memo} {s t : Run} {self : TaskId} {log : List Event}

/-- The source had no result when the run began. -/
def Fresh (before : Memo) : Source → Prop
  | .entry key => before.find? key = none
  | .cell _ => True

/-- The run is bound to fail. -/
def Trouble (s : Run) : Prop :=
  s.detached ≠ [] ∨ ∃ e, s.outcome = some (.error e)

/-- A failure has come up during the run. -/
def Alarm (before : Memo) (s : Run) : Prop :=
  s.Trouble ∨ ∃ source, Fresh before source ∧ s.FailedAt source

/-- Somebody answers for a source without a property: the run itself, the task that asked for it
first, or an earlier source that has failed. -/
def Blamed (before : Memo) (rank : Source → TaskId) (s : Run) (source : Source) : Prop :=
  s.Trouble ∨ (∃ t < rank source, s.Waits t source)
    ∨ ∃ earlier, Fresh before earlier ∧ rank earlier < rank source ∧ s.FailedAt earlier

/-- Every failure is on its way. `rank` is the number of the first task of a source. The source in
`except` is one that a task is about to wait for. -/
structure Accounted (before : Memo) (rank : Source → TaskId) (except : Option Source) (s : Run) :
    Prop where
  root : ∀ {t : TaskId} {w : Work}, s.tasks.find? t = some ⟨.answer, w⟩ → s.outcome = none
  order : ∀ {t : TaskId} {goal : Goal} {w : Work} {source : Source},
    s.tasks.find? t = some ⟨goal, w⟩ → goal.source? = some source → rank source ≤ t
  overtaken : ∀ {t : TaskId} {key : Entry} {w : Work}, s.tasks.find? t = some ⟨.entry key, w⟩ →
    s.resultOf (.entry key) ≠ none → s.Trouble
  blamed : ∀ {source : Source}, except ≠ some source → Fresh before source →
    s.promise? source ≠ none → (∀ v, s.resultOf source ≠ some (.ok v)) →
    Blamed before rank s source

theorem Trouble.ending {goal : Goal} {r : Outcome} (ending : Ending s goal r t)
    (h : s.Trouble) (root : goal = .answer → s.outcome = none) : t.Trouble := by
  rcases h with hdetached | ⟨e, he⟩
  · refine Or.inl fun hnil => hdetached ?_
    have := ending.same.2.2.2.2
    rw [hnil] at this
    exact List.prefix_nil.mp this
  · rcases ending.outcome_eq with hsame | ⟨hgoal, -⟩
    · exact Or.inr ⟨e, hsame.trans he⟩
    · rw [root hgoal] at he
      cases he

/-- A result changes because its task ends, or the run is bound to fail. -/
theorem Ending.changed {goal : Goal} {r : Outcome} (ending : Ending s goal r t) {source : Source}
    (changed : t.resultOf source ≠ s.resultOf source) :
    (goal.source? = some source ∧ s.resultOf source = none
      ∧ t.resultOf source = some (goal.outcome r)) ∨ t.Trouble := by
  rcases ending.resultOf source with hsame | hfulfil | ⟨c, p, e, _, _, rfl, first, clash, -⟩
  · exact absurd hsame changed
  · exact Or.inl hfulfil
  · refine Or.inr (Or.inl ?_)
    cases ending with
    | late first clash =>
      rw [(failBranch_same s _ _).2.2.2.2.1]
      simp
    | @fulfils _ target q _ aims found missing =>
      cases aims
      rw [resultOf_of_promise? found, missing] at first
      cases first
    | second _ failed =>
      rw [failed] at first
      cases first
    | agrees _ _ d => exact absurd (resultOf_congr (by cases source <;> rfl)) changed
    | lost _ gone => exact absurd rfl changed

namespace Accounted

variable {rank : Source → TaskId}

theorem alike (h : Accounted before rank none s) (alike : Alike s t) :
    Accounted before rank none t := by
  have hfailed : ∀ source, t.FailedAt source ↔ s.FailedAt source := by
    intro source
    rw [FailedAt, FailedAt, alike.results]
  have htrouble : t.Trouble ↔ s.Trouble := by
    rw [Trouble, Trouble, alike.detached, alike.outcome]
  refine ⟨?_, ?_, ?_, ?_⟩
  · intro x w hf
    rw [alike.tasks] at hf
    rw [alike.outcome]
    exact h.root hf
  · intro x goal w source hf hsource
    rw [alike.tasks] at hf
    exact h.order hf hsource
  · intro x key w hf hr
    rw [alike.tasks] at hf
    rw [alike.results] at hr
    exact htrouble.mpr (h.overtaken hf hr)
  · intro source _ hfresh hpresent hbad
    rw [alike.present] at hpresent
    simp only [alike.results] at hbad
    rcases h.blamed (by simp) hfresh hpresent hbad with hb | ⟨x, hlt, hw⟩ | ⟨earlier, hf, hlt, hfail⟩
    · exact Or.inl (htrouble.mpr hb)
    · refine Or.inr (Or.inl ⟨x, hlt, ?_⟩)
      rw [Waits, alike.tasks]
      exact hw
    · exact Or.inr (Or.inr ⟨earlier, hf, hlt, (hfailed _).mpr hfail⟩)

/-- A task that ends with a failure hands it on. -/
theorem alarm_of_error {goal : Goal} {r : Outcome} {w : Work} (h : Accounted before rank none s)
    (tidy : Tidy before (some self) s) (known : s.tasks.find? self = some ⟨goal, w⟩)
    (ending : Ending (s.leave self) goal r t) {e : InferError} (he : r = .error e) :
    t.Trouble ∨ ∃ source, goal.source? = some source ∧ Fresh before source ∧ t.FailedAt source := by
  subst he
  cases ending with
  | answer r => exact Or.inl (Or.inr ⟨e, rfl⟩)
  | @fulfils _ source p _ aims found missing =>
    refine Or.inr ⟨source, aims, ?_, ?_⟩
    · cases goal with
      | answer => cases aims
      | entry key =>
        cases aims
        exact (tidy.entries known).1
      | branch c =>
        cases aims
        exact trivial
    · obtain ⟨e', he'⟩ := (outcome_eq_error goal (.error e)).mpr ⟨e, rfl⟩
      refine ⟨e', ?_⟩
      rw [resultOf_fulfil found, if_pos rfl, he']
  | @overtaken key _ settled =>
    refine Or.inl (h.overtaken known ?_)
    obtain ⟨p, found⟩ := Option.ne_none_iff_exists'.mp (tidy.entries known).2
    rw [resultOf_of_promise? found]
    exact Option.isSome_iff_ne_none.mp (settled p ((promise?_leave s self _).trans found))
  | @second c e' _ first => exact Or.inr ⟨_, rfl, trivial, e', first⟩
  | late first clash =>
    refine Or.inl (Or.inl ?_)
    rw [(failBranch_same _ _ _).2.2.2.2.1]
    simp
  | lost _ gone =>
    rw [promise?_leave] at gone
    exact absurd gone (tidy.branches known).1

/-- The end of a task. A source without a property had none before, and if the task that ends was to
blame for it, the task has failed and its own source is to blame now. -/
theorem endTask (h : Accounted before rank none s) (tidy : Tidy before (some self) s) {goal : Goal}
    {w : Work} (known : s.tasks.find? self = some ⟨goal, w⟩) {r : Outcome}
    (waited : ∀ source, s.Waits self source →
      (∃ v, s.resultOf source = some (.ok v)) ∨ (s.FailedAt source ∧ ∃ e, r = .error e)) :
    Accounted before rank none (s.endTask self goal r) := by
  have ending := ending_endTask s self goal r
  have hleave : ∀ source, (s.leave self).resultOf source = s.resultOf source :=
    fun source => resultOf_congr (promise?_leave s self source)
  have hfind : ∀ {x : TaskId} {task : Task}, (s.endTask self goal r).tasks.find? x = some task →
      x ≠ self ∧ s.tasks.find? x = some task := by
    intro x task hf
    rw [ending.same.1, show (s.leave self).tasks = s.tasks.erase self from rfl,
      Table.find?_erase tidy.distinct] at hf
    split at hf
    · cases hf
    · rename_i hne
      exact ⟨fun heq => hne heq.symm, hf⟩
  have htrouble : s.Trouble → (s.endTask self goal r).Trouble := by
    intro ht
    refine Trouble.ending (s := s.leave self) ending ht ?_
    rintro rfl
    exact h.root known
  refine ⟨?_, ?_, ?_, ?_⟩
  · intro x w' hf
    obtain ⟨hne, hs⟩ := hfind hf
    rcases ending.outcome_eq with hsame | ⟨rfl, -⟩
    · exact hsame.trans (h.root hs)
    · exact absurd (tidy.alone hs known (by simp)) hne
  · intro x g w' source hf hsource
    exact h.order (hfind hf).2 hsource
  · intro x key w' hf hr
    obtain ⟨hne, hs⟩ := hfind hf
    by_cases hsame : (s.endTask self goal r).resultOf (.entry key)
        = (s.leave self).resultOf (.entry key)
    · rw [hsame, hleave] at hr
      exact htrouble (h.overtaken hs hr)
    · rcases ending.changed hsame with ⟨hgoal, -⟩ | ht
      · have hgoal : goal = .entry key := by
          cases goal with
          | answer => cases hgoal
          | entry k =>
            cases hgoal
            rfl
          | branch c => cases hgoal
        subst hgoal
        exact absurd (tidy.alone hs known (by simp)) hne
      · exact ht
  · intro source _ hfresh hpresent hbad
    by_cases ht : (s.endTask self goal r).Trouble
    · exact Or.inl ht
    have hbefore : ∀ v, s.resultOf source ≠ some (.ok v) := by
      intro v hv
      by_cases hsame : (s.endTask self goal r).resultOf source = (s.leave self).resultOf source
      · exact hbad v (hsame.trans ((hleave source).trans hv))
      · rcases ending.changed hsame with ⟨-, hnone, -⟩ | ht'
        · rw [hleave, hv] at hnone
          cases hnone
        · exact ht ht'
    rw [ending.promise?_ne_none, promise?_leave] at hpresent
    rcases h.blamed (by simp) hfresh hpresent hbefore with hb | ⟨x, hlt, hw⟩ | ⟨earlier, hf, hlt, hfail⟩
    · exact Or.inl (htrouble hb)
    · by_cases hx : x = self
      · subst hx
        rcases waited source hw with ⟨v, hv⟩ | ⟨-, e, he⟩
        · exact absurd hv (hbefore v)
        · rcases h.alarm_of_error tidy known ending he with ht' | ⟨own, hown, hfreshOwn, hfail⟩
          · exact absurd ht' ht
          · exact Or.inr (Or.inr ⟨own, hfreshOwn, Nat.lt_of_le_of_lt (h.order known hown) hlt, hfail⟩)
      · refine Or.inr (Or.inl ⟨x, hlt, ?_⟩)
        obtain ⟨g, next, hf⟩ := hw
        refine ⟨g, next, ?_⟩
        rw [ending.same.1, show (s.leave self).tasks = s.tasks.erase self from rfl,
          Table.find?_erase_of_ne _ (Ne.symm hx), hf]
    · refine Or.inr (Or.inr ⟨earlier, hf, hlt, ending.failedAt ?_⟩)
      rw [FailedAt, hleave]
      exact hfail

/-- A task that is left behind is to blame for the source that it has begun to wait for. -/
theorem park {except : Option Source} (h : Accounted before rank except s) {goal : Goal} {w : Work}
    (known : s.tasks.find? self = some ⟨goal, w⟩) (after : Work)
    (waited : ∀ source, s.Waits self source → ∃ v, s.resultOf source = some (.ok v))
    (waits : ∀ source, except = some source →
      self < rank source ∧ ∃ next, after = .waiting source next) :
    Accounted before rank none
      { s with tasks := s.tasks.insert self { goal, work := after } } := by
  have hresult : ∀ source, Run.resultOf
      { s with tasks := s.tasks.insert self { goal, work := after } } source
        = s.resultOf source := fun source => resultOf_congr (by cases source <;> rfl)
  have hold : ∀ {x : TaskId} {g : Goal} {v : Work},
      Table.find? (s.tasks.insert self ⟨goal, after⟩) x = some ⟨g, v⟩ →
      ∃ v', s.tasks.find? x = some ⟨g, v'⟩ := by
    intro x g v hf
    rw [Table.find?_insert] at hf
    split at hf
    · rename_i heq
      cases hf
      exact ⟨w, heq ▸ known⟩
    · exact ⟨v, hf⟩
  refine ⟨?_, ?_, ?_, ?_⟩
  · intro x v hf
    obtain ⟨v', hf⟩ := hold hf
    exact h.root hf
  · intro x g v source hf hsource
    obtain ⟨v', hf⟩ := hold hf
    exact h.order hf hsource
  · intro x key v hf hr
    obtain ⟨v', hf⟩ := hold hf
    exact h.overtaken hf ((hresult _) ▸ hr)
  · intro source _ hfresh hpresent hbad
    simp only [hresult] at hbad
    by_cases hexcept : except = some source
    · obtain ⟨hlt, next, hafter⟩ := waits source hexcept
      refine Or.inr (Or.inl ⟨self, hlt, goal, next, ?_⟩)
      show Table.find? (s.tasks.insert self ⟨goal, after⟩) self = _
      rw [Table.find?_insert_self, hafter]
    · have hpresent : s.promise? source ≠ none := by
        cases source <;> exact hpresent
      rcases h.blamed hexcept hfresh hpresent hbad with
        hb | ⟨x, hlt, hw⟩ | ⟨earlier, hf, hlt, e, he⟩
      · exact Or.inl hb
      · have hx : x ≠ self := by
          rintro rfl
          obtain ⟨v, hv⟩ := waited source hw
          exact hbad v hv
        refine Or.inr (Or.inl ⟨x, hlt, ?_⟩)
        obtain ⟨g, next, hf⟩ := hw
        refine ⟨g, next, ?_⟩
        show Table.find? (s.tasks.insert self ⟨goal, after⟩) x = _
        rw [Table.find?_insert_of_ne _ _ (Ne.symm hx), hf]
      · exact Or.inr (Or.inr ⟨earlier, hf, hlt, e, (hresult _).trans he⟩)

/-- A new source has a higher rank than whatever is there. -/
theorem opens (h : Accounted before rank none s) (tidy : Tidy before (some self) s)
    {source : Source} (absent : s.promise? source = none)
    (results : ∀ other, t.resultOf other = s.resultOf other)
    (present : ∀ other, other ≠ source → t.promise? other ≠ none → s.promise? other ≠ none)
    (outcome : t.outcome = s.outcome) (detached : t.detached = s.detached)
    (old : ∀ {x : TaskId} {task : Task}, s.tasks.find? x = some task → t.tasks.find? x = some task)
    (new : ∀ {x : TaskId} {goal : Goal} {w : Work}, t.tasks.find? x = some ⟨goal, w⟩ →
      s.tasks.find? x = some ⟨goal, w⟩ ∨ (s.nextTask ≤ x ∧ goal.source? = some source)) :
    Accounted before (Function.update rank source s.nextTask) (some source) t := by
  have hnone : s.resultOf source = none := by
    rw [resultOf, absent]
    rfl
  have htrouble : t.Trouble ↔ s.Trouble := by
    rw [Trouble, Trouble, outcome, detached]
  have hrank : ∀ other, other ≠ source →
      Function.update rank source s.nextTask other = rank other :=
    fun other hne => Function.update_of_ne hne _ _
  refine ⟨?_, ?_, ?_, ?_⟩
  · intro x w hf
    rcases new hf with hf | ⟨-, hsource⟩
    · exact outcome.trans (h.root hf)
    · cases hsource
  · intro x goal w other hf hsource
    rcases new hf with hf | ⟨hle, hown⟩
    · have hne : other ≠ source := by
        rintro rfl
        cases goal with
        | answer => cases hsource
        | entry key =>
          cases hsource
          exact (tidy.entries hf).2 absent
        | branch c =>
          cases hsource
          exact (tidy.branches hf).1 absent
      rw [hrank other hne]
      exact h.order hf hsource
    · rw [hown, Option.some.injEq] at hsource
      rw [← hsource, Function.update_self]
      exact hle
  · intro x key w hf hr
    rw [results] at hr
    rcases new hf with hf | ⟨-, hown⟩
    · exact htrouble.mpr (h.overtaken hf hr)
    · cases hown
      exact absurd hnone hr
  · intro other hexcept hfresh hpresent hbad
    have hne : other ≠ source := fun heq => hexcept (congrArg some heq.symm)
    simp only [results] at hbad
    rw [Blamed, hrank other hne]
    rcases h.blamed (by simp) hfresh (present other hne hpresent) hbad with
      hb | ⟨x, hlt, hw⟩ | ⟨earlier, hf, hlt, e, he⟩
    · exact Or.inl (htrouble.mpr hb)
    · obtain ⟨g, next, hf⟩ := hw
      exact Or.inr (Or.inl ⟨x, hlt, g, next, old hf⟩)
    · have hearlier : earlier ≠ source := by
        rintro rfl
        rw [hnone] at he
        cases he
      refine Or.inr (Or.inr ⟨earlier, hf, ?_, e, (results _).trans he⟩)
      rw [hrank earlier hearlier]
      exact hlt

theorem opens_entry (h : Accounted before rank none s) (tidy : Tidy before (some self) s)
    {key : Entry} (absent : s.promise? (.entry key) = none) :
    Accounted before (Function.update rank (.entry key) s.nextTask) (some (.entry key))
      (s.beginEntry self key) := by
  refine h.opens tidy absent ?_ ?_ rfl rfl ?_ ?_
  · intro other
    rw [resultOf, promise?_beginEntry]
    split
    · rename_i heq
      rw [← heq, resultOf, absent]
      rfl
    · rfl
  · intro other hne hpresent
    rw [promise?_beginEntry, if_neg (Ne.symm hne)] at hpresent
    exact hpresent
  · intro x task hf
    rw [find?_beginEntry, if_neg (Nat.ne_of_gt (tidy.bounded hf)), hf]
  · intro x goal w hf
    rw [find?_beginEntry] at hf
    split at hf
    · rename_i heq
      cases hf
      exact Or.inr ⟨Nat.le_of_eq heq, rfl⟩
    · exact Or.inl hf

theorem opens_race (h : Accounted before rank none s) (tidy : Tidy before (some self) s)
    (site : Option Entry) (track : Track) (use : BranchUse) (first second : Ref) :
    Accounted before (Function.update rank (.cell s.cells.size) s.nextTask)
      (some (.cell s.cells.size)) (s.beginRace self site track use first second) := by
  have absent : s.promise? (.cell s.cells.size) = none := Array.getElem?_eq_none (Nat.le_refl _)
  refine h.opens tidy absent ?_ ?_ ?_ ?_ ?_ ?_
  · intro other
    rw [resultOf, promise?_beginRace]
    split
    · rename_i heq
      rw [← heq, resultOf, absent]
      rfl
    · rfl
  · intro other hne hpresent
    rw [promise?_beginRace, if_neg (Ne.symm hne)] at hpresent
    exact hpresent
  · exact (setPromise_same _ _ _).2.2.2.2.2.2.1
  · exact (setPromise_same _ _ _).2.2.2.2.2.1
  · intro x task hf
    have hlt := tidy.bounded hf
    rw [find?_beginRace, if_neg (Nat.ne_of_gt (Nat.lt_succ_of_lt hlt)),
      if_neg (Nat.ne_of_gt hlt), hf]
  · intro x goal w hf
    rw [find?_beginRace] at hf
    split at hf
    · rename_i heq
      cases hf
      exact Or.inr ⟨Nat.le_of_succ_le (Nat.le_of_eq heq), rfl⟩
    · split at hf
      · rename_i heq
        cases hf
        exact Or.inr ⟨Nat.le_of_eq heq, rfl⟩
      · exact Or.inl hf

/-! ## Turns -/

/-- Every turn keeps account of the failures. -/
theorem turned (h : Accounted before rank none s) (tidy : Tidy before (some self) s)
    (turn : Turned s self log t) : ∃ rank', Accounted before rank' none t := by
  cases turn.move with
  | idle alike => exact ⟨rank, h.alike alike⟩
  | @ends goal asks s₀ r ends =>
    obtain ⟨w, known⟩ := ends.known
    have alike := alike_of_engine ends.same ends.memo
    have known₀ : s₀.tasks.find? self = some ⟨goal, w⟩ := by
      rw [ends.same]
      exact known
    refine ⟨rank, (h.alike alike).endTask (tidy.alike_engine ends.same ends.memo) known₀ ?_⟩
    rintro source ⟨g, next, hw⟩
    rw [FailedAt, alike.results]
    rw [ends.same] at hw
    exact (ends.waited source ⟨g, next, hw⟩).imp_right
      fun h => ⟨h.imp fun _ h => h.1, h.imp fun _ h => h.2⟩
  | @stays goal w asks log s₁ s₂ b progress known waited quiet halt unended =>
    have alike := alike_of_engine quiet.same quiet.memo
    have known₁ : s₁.tasks.find? self = some ⟨goal, w⟩ := by
      rw [quiet.same]
      exact known
    have h₁ := h.alike alike
    have tidy₁ := tidy.quiet quiet
    have known₂ := tidy₁.halt_find? known₁ halt
    have waited₂ : ∀ source, s₂.Waits self source → ∃ v, s₂.resultOf source = some (.ok v) := by
      rintro source ⟨g, next, hw⟩
      rw [known₂, ← known] at hw
      rw [halt.resultOf, quiet.resultOf]
      exact waited source ⟨g, next, hw⟩
    cases halt with
    | done a => exact absurd rfl (unended _)
    | fail e => exact absurd rfl (unended _)
    | uncallable unknown => exact absurd rfl (unended _)
    | readFailed found failed => exact absurd rfl (unended _)
    | forever => exact ⟨rank, h₁.park known₂ .forever waited₂ (by simp)⟩
    | @wait key next _ p found missing =>
      have hreader := alike_addReader s₁ key goal.reader
      have hfound : (s₁.addReader key goal.reader).promise? (.entry key) = some p := by
        rw [promise?_addReader]
        exact found
      have h₂ := (h₁.alike hreader).alike (alike_waitOn hfound missing self)
      exact ⟨rank, h₂.park known₂ (.waiting (.entry key) next) waited₂ (by simp)⟩
    | @begin key next _ absent =>
      have hreader := alike_addReader s₁ key goal.reader
      have habsent : (s₁.addReader key goal.reader).promise? (.entry key) = none := by
        rw [promise?_addReader]
        exact absent
      have tidy' := tidy₁.addReader key goal.reader
      have hlt := tidy'.bounded (by rw [hreader.tasks]; exact known₁)
      have h₂ := (h₁.alike hreader).opens_entry tidy' habsent
      refine ⟨_, h₂.park known₂ (.waiting (.entry key) next) waited₂ ?_⟩
      rintro source ⟨rfl⟩
      exact ⟨by rw [Function.update_self]; exact hlt, next, rfl⟩
    | race track use first second next =>
      have hlt := tidy₁.bounded known₁
      have h₂ := h₁.opens_race tidy₁ goal.reader track use first second
      refine ⟨_, h₂.park known₂ (.waiting (.cell s₁.cells.size) next) waited₂ ?_⟩
      rintro source ⟨rfl⟩
      exact ⟨by rw [Function.update_self]; exact hlt, next, rfl⟩

end Accounted

/-! ## Runs -/

/-- Once no task can go on, every failure has reached the run. -/
theorem Accounted.trouble {rank : Source → TaskId} (h : Accounted before rank none s)
    (tidy : Tidy before none s) (finished : s.Finished) {source : Source}
    (fresh : Fresh before source) (failed : s.FailedAt source) : s.Trouble := by
  induction hn : rank source using Nat.strongRecOn generalizing source with
  | ind n ih =>
    obtain ⟨e, he⟩ := failed
    have hbad : ∀ v, s.resultOf source ≠ some (.ok v) := by
      intro v hv
      rw [he] at hv
      cases hv
    rcases h.blamed (by simp) fresh (promise?_ne_none he) hbad with
      hb | ⟨x, hlt, goal, next, hf⟩ | ⟨earlier, hfresh, hlt, hfail⟩
    · exact hb
    · obtain ⟨p, found, -, hqueue⟩ := tidy.waiting hf
      rw [resultOf_of_promise? found] at he
      have hmem := hqueue (by simp [he]) (by simp)
      rw [show s.schedule.queue = [] from finished] at hmem
      cases hmem
    · exact ih (rank earlier) (hn ▸ hlt) hfresh hfail rfl

end Run

end ArrayInference
