import ArrayInference.Proofs.Engine.History
import ArrayInference.Proofs.Run.Blame
import ArrayInference.Proofs.Run.Branches

/-!
# How failures travel

What an entry has read is recorded with what was read, so a failure that is found late reaches every
entry that depends on it by reads of its own. It does not pass through the task of a branch: what a
branch reads is recorded for nobody. An entry whose property was there, and is a failure in the end,
has been reached in this way and in no other.
-/

namespace ArrayInference

theorem Goal.eq_entry_of_reader {goal : Goal} {key : Entry} (h : goal.reader = some key) :
    goal = .entry key := by
  cases goal with
  | answer => cases h
  | branch c => cases h
  | entry k =>
    cases h
    rfl

namespace Run

variable {before : Memo} {s t : Run} {self : TaskId} {past log : List Event}

/-- The computation of `reader` has asked for `key`. -/
def AskedBy (log : List Event) (key reader : Entry) : Prop :=
  Event.asked (some reader) key ∈ log

/-- Of two branches of a conditional in an entry, the one that ended second has failed or disagrees,
while the first one had a property. -/
def LateAt (log : List Event) (site : Entry) : Prop :=
  ∃ c c' r' first, List.Sublist [.ended (.branch c) (.ok first), .ended (.branch c') r'] log
    ∧ c.cell = c'.cell ∧ c'.site = some site ∧ ∃ e, Clash c' first r' e

/-- A late failure has reached an entry. -/
def Reached (log : List Event) (key : Entry) : Prop :=
  ∃ site, LateAt log site ∧ Relation.ReflTransGen (AskedBy log) site key

theorem LateAt.append {site : Entry} (h : LateAt past site) (log : List Event) :
    LateAt (past ++ log) site := by
  obtain ⟨c, c', r', first, hsub, hrest⟩ := h
  exact ⟨c, c', r', first, hsub.trans (List.sublist_append_left _ _), hrest⟩

theorem Reached.append {key : Entry} (h : Reached past key) (log : List Event) :
    Reached (past ++ log) key := by
  obtain ⟨site, hlate, path⟩ := h
  refine ⟨site, hlate.append log, Relation.ReflTransGen.mono ?_ _ _ path⟩
  exact fun _ _ h => List.mem_append_left _ h

/-- A late failure has reached an entry with this error: of two branches of a conditional that the
entry depends on, the one that ended second has ended with the error or disagrees with the first. -/
def ReachedBy (log : List Event) (key : Entry) (e : InferError) : Prop :=
  ∃ site c c' r' first, List.Sublist [.ended (.branch c) (.ok first), .ended (.branch c') r'] log
    ∧ c.cell = c'.cell ∧ c'.site = some site ∧ Clash c' first r' e
    ∧ Relation.ReflTransGen (AskedBy log) site key

theorem ReachedBy.append {key : Entry} {e : InferError} (h : ReachedBy past key e)
    (log : List Event) : ReachedBy (past ++ log) key e := by
  obtain ⟨site, c, c', r', first, hsub, hcell, hsite, clash, path⟩ := h
  refine ⟨site, c, c', r', first, hsub.trans (List.sublist_append_left _ _), hcell, hsite, clash, ?_⟩
  exact Relation.ReflTransGen.mono (fun _ _ h => List.mem_append_left _ h) _ _ path

theorem ReachedBy.reached {key : Entry} {e : InferError} (h : ReachedBy log key e) :
    Reached log key := by
  obtain ⟨site, c, c', r', first, hsub, hcell, hsite, clash, path⟩ := h
  exact ⟨site, ⟨c, c', r', first, hsub, hcell, hsite, e, clash⟩, path⟩

/-- The records of who has read what. -/
structure Traced (before : Memo) (past : List Event) (s : Run) : Prop where
  noted : ∀ {key reader : Entry}, AskedBy past key reader →
    reader ∈ s.engine.readers.of key ∧ before.find? reader = none
      ∧ s.promise? (.entry reader) ≠ none
  recorded : ∀ {key reader : Entry}, reader ∈ s.engine.readers.of key →
    before.find? key ≠ none ∨ AskedBy past key reader
  passed : ∀ {key reader : Entry}, AskedBy past key reader →
    (∃ v, s.resultOf (.entry key) = some (.ok v)) ∨ s.FailedAt (.entry reader)
      ∨ ∃ t next, s.tasks.find? t = some ⟨.entry reader, .waiting (.entry key) next⟩
  overtaken : ∀ {t : TaskId} {key : Entry} {w : Work}, s.tasks.find? t = some ⟨.entry key, w⟩ →
    s.resultOf (.entry key) ≠ none → s.FailedAt (.entry key)
  first : ∀ {id : Nat} {r : Outcome}, s.resultOf (.cell id) = some r →
    ∃ c : BranchCheck, c.cell = id ∧ .ended (.branch c) r ∈ past

/-- A property that turns into a failure takes its readers along. -/
theorem Ending.closed {goal : Goal} {r : Outcome} (ending : Ending s goal r t) {key : Entry}
    {v : Property} (sound : s.resultOf (.entry key) = some (.ok v))
    (changed : t.resultOf (.entry key) ≠ some (.ok v)) {reader : Entry}
    (edge : reader ∈ s.engine.readers.of key) (present : s.promise? (.entry reader) ≠ none) :
    t.FailedAt (.entry reader) := by
  cases ending with
  | @late c p _ e first clash =>
    cases hsite : c.site with
    | none =>
      rw [hsite] at changed
      exact absurd sound changed
    | some start =>
      rw [hsite] at changed
      have poisoned := Memo.poisoned_poison s.engine.memo s.engine.readers start e
      have hne : Table.find? (s.engine.memo.poison s.engine.readers start e).2 key
          ≠ s.engine.memo.find? key := by
        intro hsame
        refine changed ?_
        rw [← sound]
        exact @resultOf_congr s _ (.entry key) hsame
      obtain ⟨p, e', found, failed⟩ := poisoned.closed key hne reader edge
        (Option.isSome_iff_ne_none.mpr present)
      have found : (s.failBranch (some start) e).promise? (.entry reader) = some p := found
      exact ⟨e', (resultOf_of_promise? found).trans failed⟩
  | @fulfils _ target p r aims found missing =>
    rw [resultOf_fulfil found] at changed
    split at changed
    · rename_i heq
      rw [← heq, resultOf_of_promise? found, missing] at sound
      cases sound
    · exact absurd sound changed
  | answer r => exact absurd sound changed
  | agrees first same d => exact absurd sound changed
  | overtaken r settled => exact absurd sound changed
  | second r first => exact absurd sound changed
  | lost r gone => exact absurd sound changed

/-- An entry whose task ends with a failure has failed. -/
theorem failedAt_of_error (tidy : Tidy before (some self) s) {key : Entry} {w : Work}
    (known : s.tasks.find? self = some ⟨.entry key, w⟩)
    (overtaken : s.resultOf (.entry key) ≠ none → s.FailedAt (.entry key)) {r : Outcome}
    (ending : Ending (s.leave self) (.entry key) r t) {e : InferError} (he : r = .error e) :
    t.FailedAt (.entry key) := by
  cases ending with
  | @fulfils _ source p _ aims found missing =>
    cases aims
    obtain ⟨e', he'⟩ := (outcome_eq_error (.entry key) r).mpr ⟨e, he⟩
    exact ⟨e', by rw [resultOf_fulfil found, if_pos rfl, he']⟩
  | overtaken _ settled =>
    obtain ⟨p, found⟩ := Option.ne_none_iff_exists'.mp (tidy.entries known).2
    refine overtaken ?_
    rw [resultOf_of_promise? found]
    exact Option.isSome_iff_ne_none.mp (settled p ((promise?_leave s self _).trans found))

/-! ## Turns at whose end the task goes on -/

section

variable {goal : Goal} {asks : List Event} {s₁ s₂ : Run} {b : Infer Property}
  {progress : Progress Property}

theorem exists_settle (s : Run) (self : TaskId) (goal : Goal) (unended : ∀ r, progress ≠ .ended r) :
    ∃ after, s.settle self goal progress
      = { s with tasks := s.tasks.insert self { goal, work := after } } := by
  cases progress with
  | ended r => exact absurd rfl (unended r)
  | waiting source next => exact ⟨_, rfl⟩
  | calling body => exact ⟨_, rfl⟩
  | forever => exact ⟨_, rfl⟩

/-- It gives no results. -/
theorem resultOf_settle (quiet : Quiet goal.reader s asks s₁)
    (halt : Halt self goal.reader b s₁ log progress s₂) (unended : ∀ r, progress ≠ .ended r)
    (source : Source) : (s₂.settle self goal progress).resultOf source = s.resultOf source := by
  obtain ⟨after, hsettle⟩ := exists_settle s₂ self goal unended
  rw [← quiet.resultOf, ← halt.resultOf, hsettle]
  exact resultOf_congr (by cases source <;> rfl)

/-- Other tasks stay as they are. -/
theorem find?_settle_of_ne (tidy : Tidy before (some self) s) (quiet : Quiet goal.reader s asks s₁)
    (halt : Halt self goal.reader b s₁ log progress s₂) (unended : ∀ r, progress ≠ .ended r)
    {x : TaskId} {task : Task} (other : x ≠ self) (known : s.tasks.find? x = some task) :
    (s₂.settle self goal progress).tasks.find? x = some task := by
  obtain ⟨after, hsettle⟩ := exists_settle s₂ self goal unended
  rw [hsettle]
  show Table.find? (s₂.tasks.insert self _) x = _
  rw [Table.find?_insert_of_ne _ _ (Ne.symm other)]
  refine (tidy.quiet quiet).halt_find? ?_ halt
  rw [quiet.same]
  exact known

/-- Its tasks are the task itself, those that there were, and new ones for what was absent. -/
theorem find?_of_settle (quiet : Quiet goal.reader s asks s₁)
    (halt : Halt self goal.reader b s₁ log progress s₂) (unended : ∀ r, progress ≠ .ended r)
    {x : TaskId} {goal' : Goal} {w : Work}
    (found : (s₂.settle self goal progress).tasks.find? x = some ⟨goal', w⟩) :
    (x = self ∧ goal' = goal) ∨ s.tasks.find? x = some ⟨goal', w⟩
      ∨ ∃ source, goal'.source? = some source ∧ s.promise? source = none := by
  obtain ⟨after, hsettle⟩ := exists_settle s₂ self goal unended
  rw [hsettle] at found
  replace found : Table.find? (s₂.tasks.insert self ⟨goal, after⟩) x = some ⟨goal', w⟩ := found
  rw [Table.find?_insert] at found
  split at found
  · rename_i same
    cases found
    exact .inl ⟨same.symm, rfl⟩
  · rcases Tidy.find?_of_halt halt found with found | ⟨source, aims, absent⟩
    · rw [quiet.same] at found
      exact .inr (.inl found)
    · rw [quiet.promise?] at absent
      exact .inr (.inr ⟨source, aims, absent⟩)

/-- What it has asked for and was absent gets a task. -/
theorem exists_task_of_settle (tidy : Tidy before (some self) s) {w : Work}
    (known : s.tasks.find? self = some ⟨goal, w⟩) (quiet : Quiet goal.reader s asks s₁)
    (halt : Halt self goal.reader b s₁ log progress s₂) (unended : ∀ r, progress ≠ .ended r)
    {source : Source} (absent : s.promise? source = none)
    (present : (s₂.settle self goal progress).promise? source ≠ none) :
    ∃ x goal' w', s.nextTask ≤ x ∧ goal'.source? = some source
      ∧ (s₂.settle self goal progress).tasks.find? x = some ⟨goal', w'⟩ := by
  have number : s₁.nextTask = s.nextTask := by rw [quiet.same]
  have older : ∀ {x}, s.nextTask ≤ x → self ≠ x := fun h =>
    Nat.ne_of_lt (Nat.lt_of_lt_of_le (tidy.bounded known) h)
  obtain ⟨after, hsettle⟩ := exists_settle s₂ self goal unended
  rw [hsettle] at present ⊢
  have present : s₂.promise? source ≠ none := by cases source <;> exact present
  rw [← quiet.promise?] at absent
  cases halt with
  | readFailed found failed => exact absurd rfl (unended _)
  | @wait k next _ p found missing =>
    have found : s₁.promise? (.entry k) = some p := found
    rw [promise?_waitOn ((promise?_addReader _ _ _ _).trans found), promise?_addReader] at present
    split at present
    · rename_i heq
      rw [heq, absent] at found
      cases found
    · exact absurd absent present
  | @begin k next _ fresh =>
    rw [promise?_beginEntry, promise?_addReader] at present
    split at present
    · rename_i heq
      refine ⟨s.nextTask, .entry k, .ready (k.ref.infer k.track), Nat.le_refl _,
        congrArg some heq, ?_⟩
      refine (Table.find?_insert_of_ne _ _ (older (Nat.le_refl _))).trans ?_
      rw [find?_beginEntry, if_pos (by cases goal <;> exact number)]
    · exact absurd absent present
  | race track use first second next =>
    rw [promise?_beginRace] at present
    split at present
    · rename_i heq
      refine ⟨s.nextTask + 1, .branch (s₁.newCheck goal.reader track first second second),
        .ready (Infer.branch track use second), Nat.le_succ _, congrArg some heq, ?_⟩
      refine (Table.find?_insert_of_ne _ _ (older (Nat.le_succ _))).trans ?_
      rw [find?_beginRace, if_pos (by rw [number])]
    · exact absurd absent present
  | _ => exact absurd absent present

/-- What an entry has asked for is there, except for the last thing, and the task waits for it. -/
theorem asked_of_settle (quiet : Quiet goal.reader s asks s₁)
    (halt : Halt self goal.reader b s₁ log progress s₂) (unended : ∀ r, progress ≠ .ended r)
    {key reader : Entry} (asked : AskedBy (asks ++ log) key reader) :
    goal = .entry reader ∧ ((∃ v, s.resultOf (.entry key) = some (.ok v))
      ∨ ∃ next, (s₂.settle self goal progress).tasks.find? self
        = some ⟨.entry reader, .waiting (.entry key) next⟩) := by
  rcases List.mem_append.mp asked with asked | asked
  · obtain ⟨k, p, v, hk, found, ready⟩ := quiet.asked _ asked
    rw [Event.asked.injEq] at hk
    obtain ⟨hreader, rfl⟩ := hk
    have found : s.promise? (.entry key) = some p := found
    exact ⟨Goal.eq_entry_of_reader hreader.symm, .inl ⟨v, (resultOf_of_promise? found).trans ready⟩⟩
  · cases halt with
    | readFailed found failed => exact absurd rfl (unended _)
    | @wait k next _ p found missing =>
      obtain ⟨hreader, rfl⟩ := Event.asked.injEq .. ▸ List.mem_singleton.mp asked
      cases Goal.eq_entry_of_reader hreader.symm
      exact ⟨rfl, .inr ⟨next, Table.find?_insert_self _ _ _⟩⟩
    | @begin k next _ absent =>
      obtain ⟨hreader, rfl⟩ := Event.asked.injEq .. ▸ List.mem_singleton.mp asked
      cases Goal.eq_entry_of_reader hreader.symm
      exact ⟨rfl, .inr ⟨next, Table.find?_insert_self _ _ _⟩⟩
    | _ => cases asked

end

namespace Traced

theorem alike (h : Traced before past s) (alike : Alike s t)
    (readers : t.engine.readers = s.engine.readers) : Traced before past t := by
  refine ⟨?_, ?_, ?_, ?_, ?_⟩
  · intro key reader hasked
    rw [readers, alike.present]
    exact h.noted hasked
  · intro key reader hmem
    rw [readers] at hmem
    exact h.recorded hmem
  · intro key reader hasked
    rw [alike.results, FailedAt, alike.results, alike.tasks]
    exact h.passed hasked
  · intro x key w hf hr
    rw [alike.tasks] at hf
    rw [alike.results] at hr
    rw [FailedAt, alike.results]
    exact h.overtaken hf hr
  · intro id r hr
    rw [alike.results] at hr
    exact h.first hr

theorem ends (h : Traced before past s) (tidy : Tidy before (some self) s) {goal : Goal}
    {asks : List Event} {s₀ : Run} {r : Outcome} (ends : Ends s self goal asks s₀ r) :
    Traced before (past ++ (asks ++ [.ended goal r])) (s₀.endTask self goal r) := by
  obtain ⟨w, known⟩ := ends.known
  have alike := alike_of_engine ends.same ends.memo
  have tidy₀ := tidy.alike_engine ends.same ends.memo
  have known₀ : s₀.tasks.find? self = some ⟨goal, w⟩ := by
    rw [alike.tasks]
    exact known
  have ending := ending_endTask s₀ self goal r
  have hresult : ∀ source, (s₀.leave self).resultOf source = s.resultOf source :=
    fun source => (resultOf_congr (promise?_leave s₀ self source)).trans (alike.results source)
  have hpresent : ∀ source, s.promise? source ≠ none → (s₀.leave self).promise? source ≠ none := by
    intro source hne
    rw [promise?_leave]
    exact (alike.present source).mpr hne
  have hfailed : ∀ source, s.FailedAt source → (s₀.endTask self goal r).FailedAt source := by
    rintro source ⟨e, he⟩
    exact ending.failedAt ⟨e, (hresult source).trans he⟩
  have hfind : ∀ {x : TaskId} {task : Task}, (s₀.endTask self goal r).tasks.find? x = some task →
      x ≠ self ∧ s.tasks.find? x = some task := by
    intro x task hf
    rw [ending.same.1, show (s₀.leave self).tasks = s₀.tasks.erase self from rfl,
      Table.find?_erase tidy₀.distinct, alike.tasks] at hf
    split at hf
    · cases hf
    · rename_i hne
      exact ⟨fun heq => hne heq.symm, hf⟩
  have hask : ∀ {key reader : Entry}, AskedBy asks key reader →
      goal = .entry reader ∧ ((∃ v, s.resultOf (.entry key) = some (.ok v)) ∨ ∃ e, r = .error e) := by
    intro key reader hasked
    obtain ⟨k, hk, hread⟩ := ends.asked _ hasked
    rw [Event.asked.injEq] at hk
    obtain ⟨hreader, rfl⟩ := hk
    exact ⟨Goal.eq_entry_of_reader hreader.symm, hread.imp_right (.imp fun _ h => h.2)⟩
  have hsplit : ∀ {key reader : Entry}, AskedBy (past ++ (asks ++ [.ended goal r])) key reader →
      AskedBy past key reader ∨ AskedBy asks key reader := by
    intro key reader hasked
    rcases List.mem_append.mp hasked with hpast | hasked
    · exact Or.inl hpast
    · rcases List.mem_append.mp hasked with hasks | hended
      · exact Or.inr hasks
      · cases List.mem_singleton.mp hended
  have hedge : ∀ {key reader : Entry}, AskedBy (past ++ (asks ++ [.ended goal r])) key reader →
      reader ∈ s₀.engine.readers.of key ∧ before.find? reader = none
        ∧ s.promise? (.entry reader) ≠ none := by
    intro key reader hasked
    rcases hsplit hasked with hpast | hasks
    · obtain ⟨hmem, hrest⟩ := h.noted hpast
      exact ⟨(ends.readers _ _).mpr (Or.inl hmem), hrest⟩
    · obtain ⟨rfl, -⟩ := hask hasks
      exact ⟨(ends.readers _ _).mpr (Or.inr hasks), tidy.entries known⟩
  refine ⟨?_, ?_, ?_, ?_, ?_⟩
  · intro key reader hasked
    obtain ⟨hmem, hfresh, hne⟩ := hedge hasked
    rw [ending.same.2.2.2.1]
    exact ⟨hmem, hfresh, ending.promise?_ne_none.mpr (hpresent _ hne)⟩
  · intro key reader hmem
    rw [ending.same.2.2.2.1] at hmem
    rcases (ends.readers key reader).mp hmem with hold | hnew
    · exact (h.recorded hold).imp id fun hasked => List.mem_append_left _ hasked
    · exact Or.inr (List.mem_append_right _ (List.mem_append_left _ hnew))
  · intro key reader hasked
    -- A property that was read either stays, or the reader fails with it.
    have hsound : ∀ v, s.resultOf (.entry key) = some (.ok v) →
        (∃ v, (s₀.endTask self goal r).resultOf (.entry key) = some (.ok v))
          ∨ (s₀.endTask self goal r).FailedAt (.entry reader) := by
      intro v hv
      by_cases hsame : (s₀.endTask self goal r).resultOf (.entry key) = some (.ok v)
      · exact Or.inl ⟨v, hsame⟩
      · obtain ⟨hmem, -, hne⟩ := hedge hasked
        exact Or.inr (ending.closed ((hresult _).trans hv) hsame hmem (hpresent _ hne))
    have herror : goal = .entry reader → (∃ e, r = .error e) →
        (s₀.endTask self goal r).FailedAt (.entry reader) := by
      rintro rfl ⟨e, he⟩
      refine failedAt_of_error tidy₀ known₀ (fun hne => ?_) ending he
      rw [FailedAt, alike.results]
      rw [alike.results] at hne
      exact h.overtaken known hne
    rcases hsplit hasked with hpast | hasks
    · rcases h.passed hpast with ⟨v, hv⟩ | hfail | ⟨x, next, hf⟩
      · exact (hsound v hv).imp id Or.inl
      · exact Or.inr (Or.inl (hfailed _ hfail))
      · by_cases hx : x = self
        · subst hx
          rw [known] at hf
          cases hf
          rcases ends.waited (.entry key) ⟨_, next, known⟩ with ⟨v, hv⟩ | ⟨e, -, he⟩
          · exact (hsound v hv).imp id Or.inl
          · exact Or.inr (Or.inl (herror rfl ⟨e, he⟩))
        · refine Or.inr (Or.inr ⟨x, next, ?_⟩)
          rw [ending.same.1, show (s₀.leave self).tasks = s₀.tasks.erase self from rfl,
            Table.find?_erase_of_ne _ (Ne.symm hx), alike.tasks, hf]
    · obtain ⟨hgoal, ⟨v, hv⟩ | he⟩ := hask hasks
      · exact (hsound v hv).imp id Or.inl
      · exact Or.inr (Or.inl (herror hgoal he))
  · intro x key w' hf hr
    obtain ⟨hne, hs⟩ := hfind hf
    by_cases hnone : s.resultOf (.entry key) = none
    · rcases ending.resultOf (.entry key) with
        hsame | ⟨hgoal, -⟩ | ⟨_, _, e, _, _, -, -, -, -, -, hfail, -⟩
      · exact absurd (hsame.trans ((hresult _).trans hnone)) hr
      · have hgoal : goal = .entry key := by
          cases goal with
          | answer => cases hgoal
          | entry k =>
            cases hgoal
            rfl
          | branch c => cases hgoal
        subst hgoal
        exact absurd (tidy.alone hs known (by simp)) hne
      · exact ⟨e, hfail⟩
    · exact hfailed _ (h.overtaken hs hnone)
  · intro id r' hr
    rcases ending.resultOf (.cell id) with
      hsame | ⟨hgoal, -, hnew⟩ | ⟨_, _, _, _, _, -, -, -, hentry, -⟩
    · obtain ⟨c, hid, hmem⟩ := h.first ((hresult _).symm.trans (hsame.symm.trans hr))
      exact ⟨c, hid, List.mem_append_left _ hmem⟩
    · cases goal with
      | answer => cases hgoal
      | entry k => cases hgoal
      | branch c =>
        cases hgoal
        rw [hr, Option.some.injEq] at hnew
        refine ⟨c, rfl, List.mem_append_right _ (List.mem_append_right _ ?_)⟩
        rw [hnew]
        exact List.mem_singleton.mpr rfl
    · cases hentry

theorem stays (h : Traced before past s) (tidy : Tidy before (some self) s) {goal : Goal} {w : Work}
    {asks log : List Event} {s₁ s₂ : Run} {b : Infer Property} {progress : Progress Property}
    (known : s.tasks.find? self = some ⟨goal, w⟩)
    (waited : ∀ source, s.Waits self source → ∃ v, s.resultOf source = some (.ok v))
    (quiet : Quiet goal.reader s asks s₁) (halt : Halt self goal.reader b s₁ log progress s₂)
    (unended : ∀ r, progress ≠ .ended r) :
    Traced before (past ++ (asks ++ log)) (s₂.settle self goal progress) := by
  have hresult := resultOf_settle quiet halt unended
  have hpresent : ∀ source, s.promise? source ≠ none →
      (s₂.settle self goal progress).promise? source ≠ none := by
    intro source hne
    rw [← quiet.promise?] at hne
    have := halt.promise?_ne_none hne
    obtain ⟨after, hsettle⟩ := exists_settle s₂ self goal unended
    rw [hsettle]
    cases source <;> exact this
  have hreaders : ∀ key reader, reader ∈ (s₂.settle self goal progress).engine.readers.of key ↔
      reader ∈ s.engine.readers.of key ∨ AskedBy (asks ++ log) key reader := by
    intro key reader
    obtain ⟨after, hsettle⟩ := exists_settle s₂ self goal unended
    rw [hsettle]
    show reader ∈ s₂.engine.readers.of key ↔ _
    rw [halt.mem_readers, quiet.readers, or_assoc, AskedBy, List.mem_append]
  refine ⟨?_, ?_, ?_, ?_, ?_⟩
  · intro key reader hasked
    rw [hreaders]
    rcases List.mem_append.mp hasked with hpast | hasked
    · obtain ⟨hmem, hfresh, hne⟩ := h.noted hpast
      exact ⟨Or.inl hmem, hfresh, hpresent _ hne⟩
    · obtain ⟨rfl, -⟩ := asked_of_settle quiet halt unended hasked
      exact ⟨Or.inr hasked, (tidy.entries known).1, hpresent _ (tidy.entries known).2⟩
  · intro key reader hmem
    rw [hreaders] at hmem
    rcases hmem with hold | hasked
    · exact (h.recorded hold).imp id fun hasked => List.mem_append_left _ hasked
    · exact Or.inr (List.mem_append_right _ hasked)
  · intro key reader hasked
    rw [hresult, FailedAt, hresult]
    rcases List.mem_append.mp hasked with hpast | hasked
    · rcases h.passed hpast with hok | hfail | ⟨x, next, hf⟩
      · exact Or.inl hok
      · exact Or.inr (Or.inl hfail)
      · by_cases hx : x = self
        · subst hx
          exact Or.inl (waited _ ⟨_, next, hf⟩)
        · exact Or.inr (Or.inr ⟨x, next, find?_settle_of_ne tidy quiet halt unended hx hf⟩)
    · obtain ⟨-, hok | ⟨next, hf⟩⟩ := asked_of_settle quiet halt unended hasked
      · exact Or.inl hok
      · exact Or.inr (Or.inr ⟨self, next, hf⟩)
  · intro x key v hf hr
    rw [hresult] at hr
    rw [FailedAt, hresult]
    rcases find?_of_settle quiet halt unended hf with ⟨-, rfl⟩ | hf | ⟨source, hsource, absent⟩
    · exact h.overtaken known hr
    · exact h.overtaken hf hr
    · cases hsource
      rw [resultOf, absent] at hr
      exact absurd rfl hr
  · intro id r hr
    rw [hresult] at hr
    obtain ⟨c, hid, hmem⟩ := h.first hr
    exact ⟨c, hid, List.mem_append_left _ hmem⟩

/-- Every turn keeps the records. -/
theorem turned (h : Traced before past s) (tidy : Tidy before (some self) s)
    (turn : Turned s self log t) : Traced before (past ++ log) t := by
  cases turn.move with
  | idle alike readers =>
    rw [List.append_nil]
    exact h.alike alike readers
  | ends ends => exact h.ends tidy ends
  | stays known waited quiet halt unended => exact h.stays tidy known waited quiet halt unended

end Traced

end Run

end ArrayInference
