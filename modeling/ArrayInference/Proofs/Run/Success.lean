import ArrayInference.Proofs.Engine.History
import ArrayInference.Proofs.Run.Blame
import ArrayInference.Proofs.Run.Bounded
import ArrayInference.Proofs.Run.Branches
import ArrayInference.Proofs.Run.Root

/-!
# What a successful run guarantees

A run succeeds only if nothing that it has computed or read is a failure, and if the branches of
every undecided conditional that it has come across agree, as far as both were computed. This holds
for any order of turns.
-/

namespace ArrayInference

namespace Run

variable {before : Memo} {rank : Source → TaskId} {s t : Run} {self : TaskId}
  {past log : List Event}

theorem Trouble.alike (h : s.Trouble) (alike : Alike s t) : t.Trouble := by
  rw [Trouble, alike.detached, alike.outcome]
  exact h

theorem Alarm.alike (h : Alarm before s) (alike : Alike s t) : Alarm before t := by
  rcases h with h | ⟨source, hfresh, e, he⟩
  · exact Or.inl (h.alike alike)
  · exact Or.inr ⟨source, hfresh, e, (alike.results source).trans he⟩

/-- Whatever has failed in the run and was read in it has raised the alarm. -/
def Heard (before : Memo) (past : List Event) (s : Run) : Prop :=
  ∀ {reader : Option Entry} {key : Entry}, .asked reader key ∈ past → s.FailedAt (.entry key) →
    Alarm before s

theorem resultOf_leave (s : Run) (self : TaskId) (source : Source) :
    (s.leave self).resultOf source = s.resultOf source :=
  resultOf_congr (promise?_leave s self source)

/-- An alarm is not taken back. -/
theorem Alarm.ending {goal : Goal} {r : Outcome} {w : Work} (h : Alarm before s)
    (accounted : Accounted before rank none s) (known : s.tasks.find? self = some ⟨goal, w⟩)
    (ending : Ending (s.leave self) goal r t) : Alarm before t := by
  rcases h with h | ⟨source, hfresh, hfail⟩
  · refine Or.inl (Trouble.ending (s := s.leave self) ending h ?_)
    rintro rfl
    exact accounted.root known
  · refine Or.inr ⟨source, hfresh, ending.failedAt ?_⟩
    rw [FailedAt, resultOf_leave]
    exact hfail

/-- A source that fails in a turn raises the alarm. -/
theorem alarm_of_failing {goal : Goal} {r : Outcome} {w : Work}
    (accounted : Accounted before rank none s) (tidy : Tidy before (some self) s)
    (known : s.tasks.find? self = some ⟨goal, w⟩) (ending : Ending (s.leave self) goal r t)
    {source : Source} (sound : ¬ s.FailedAt source) (failed : t.FailedAt source) :
    Alarm before t := by
  obtain ⟨e, he⟩ := failed
  have hchanged : t.resultOf source ≠ (s.leave self).resultOf source := by
    intro hsame
    refine sound ⟨e, ?_⟩
    rw [← resultOf_leave s self, ← hsame, he]
  rcases ending.changed hchanged with ⟨-, -, hr⟩ | htrouble
  · rw [he, Option.some.injEq] at hr
    obtain ⟨e', he'⟩ := (outcome_eq_error goal r).mp ⟨e, hr.symm⟩
    rcases accounted.alarm_of_error tidy known ending he' with ht | ⟨own, -, hfresh, hfail⟩
    · exact Or.inl ht
    · exact Or.inr ⟨own, hfresh, hfail⟩
  · exact Or.inl htrouble

/-- Every turn listens to what it reads. -/
theorem Heard.turned (h : Heard before past s) (accounted : Accounted before rank none s)
    (tidy : Tidy before (some self) s) (turn : Turned s self log t) :
    Heard before (past ++ log) t := by
  cases turn.move with
  | idle alike =>
    intro reader key hasked hfailed
    rw [List.append_nil] at hasked
    rw [FailedAt, alike.results] at hfailed
    exact (h hasked hfailed).alike alike
  | @ends goal asks s₀ r ends =>
    obtain ⟨w, known⟩ := ends.known
    have alike := alike_of_engine ends.same ends.memo
    have accounted₀ := accounted.alike alike
    have tidy₀ := tidy.alike_engine ends.same ends.memo
    have known₀ : s₀.tasks.find? self = some ⟨goal, w⟩ := by
      rw [ends.same]
      exact known
    have ending := ending_endTask s₀ self goal r
    intro reader key hasked hfailed
    by_cases hbefore : s₀.FailedAt (.entry key)
    · rcases List.mem_append.mp hasked with hpast | hasked
      · rw [FailedAt, alike.results] at hbefore
        exact ((h hpast hbefore).alike alike).ending accounted₀ known₀ ending
      · rcases List.mem_append.mp hasked with hasks | hended
        · obtain ⟨k, hk, hread⟩ := ends.asked _ hasks
          cases hk
          rw [FailedAt, alike.results] at hbefore
          obtain ⟨e, he⟩ := hbefore
          rcases hread with ⟨v, hv⟩ | ⟨e', -, he'⟩
          · rw [he] at hv
            cases hv
          · rcases accounted₀.alarm_of_error tidy₀ known₀ ending he' with ht | ⟨own, -, hfresh, hfail⟩
            · exact Or.inl ht
            · exact Or.inr ⟨own, hfresh, hfail⟩
        · cases List.mem_singleton.mp hended
    · exact alarm_of_failing accounted₀ tidy₀ known₀ ending hbefore hfailed
  | @stays goal w asks log s₁ s₂ b progress known waited quiet halt unended =>
    have hresult : ∀ source,
        (s₂.settle self goal progress).resultOf source = s.resultOf source := by
      intro source
      rw [← quiet.resultOf, ← halt.resultOf]
      cases progress with
      | ended r => exact absurd rfl (unended r)
      | _ => exact resultOf_congr (by cases source <;> rfl)
    have hkeep : Alarm before s → Alarm before (s₂.settle self goal progress) := by
      rintro (htrouble | ⟨source, hfresh, e, he⟩)
      · have h₁ := htrouble.alike (alike_of_engine quiet.same quiet.memo)
        have h₂ : s₂.Trouble := by
          rw [Trouble, halt.detached_eq, halt.outcome_eq]
          exact h₁
        refine Or.inl ?_
        cases progress with
        | ended r => exact absurd rfl (unended r)
        | _ => exact h₂
      · exact Or.inr ⟨source, hfresh, e, (hresult source).trans he⟩
    intro reader key hasked hfailed
    rw [FailedAt, hresult] at hfailed
    rcases List.mem_append.mp hasked with hpast | hasked
    · exact hkeep (h hpast hfailed)
    · obtain ⟨e, he⟩ := hfailed
      rcases List.mem_append.mp hasked with hasks | hlast
      · obtain ⟨k, p, v, hk, found, ready⟩ := quiet.asked _ hasks
        cases hk
        have found : s.promise? (.entry key) = some p := found
        rw [resultOf_of_promise? found, ready] at he
        cases he
      · rw [← quiet.resultOf] at he
        cases halt with
        | readFailed found failed => exact absurd rfl (unended _)
        | @wait k next _ p found missing =>
          cases List.mem_singleton.mp hlast
          have found : s₁.promise? (.entry key) = some p := found
          rw [resultOf_of_promise? found, missing] at he
          cases he
        | @begin k next _ absent =>
          cases List.mem_singleton.mp hlast
          have absent : s₁.promise? (.entry key) = none := absent
          rw [resultOf, absent] at he
          cases he
        | _ => cases hlast

/-! ## Whole runs -/

/-- The account that turns keep, with everything that has happened so far. -/
structure Kept (before : Memo) (past : List Event) (s : Run) : Prop where
  tidy : Tidy before none s
  accounted : ∃ rank, Accounted before rank none s
  paired : ∃ base, Paired base past s
  heard : Heard before past s

theorem opening_find? {e : Engine} {body : Infer Property} {x : TaskId} {task : Task}
    (h : (opening e body).tasks.find? x = some task) : x = 0 ∧ task = ⟨.answer, .ready body⟩ := by
  replace h : Table.find? [(0, ⟨.answer, .ready body⟩)] x = some task := h
  rw [Table.find?] at h
  split at h
  · rename_i heq
    exact ⟨heq.symm, (Option.some.inj h).symm⟩
  · cases h

theorem tidy_opening (e : Engine) (body : Infer Property) :
    Tidy e.memo none (opening e body) := by
  refine ⟨rfl, List.nodup_singleton 0, ?_, ?_, ?_, ?_, ?_, ?_, ?_⟩
  · intro x task hf
    rw [(opening_find? hf).1]
    exact Nat.zero_lt_one
  · intro x goal b hf _
    rw [(opening_find? hf).1]
    exact List.mem_singleton.mpr rfl
  · intro x goal source next hf
    cases (opening_find? hf).2
  · intro x key w hf
    cases (opening_find? hf).2
  · intro x c w hf
    cases (opening_find? hf).2
  · exact fun hk => hk
  · intro x y goal w w' hx hy _
    rw [(opening_find? hx).1, (opening_find? hy).1]

theorem kept_opening (e : Engine) (body : Infer Property) :
    Kept e.memo [] (opening e body) := by
  have hcell : ∀ id, (opening e body).resultOf (.cell id) = none := fun id => rfl
  refine ⟨tidy_opening e body, ⟨fun _ => 0, ?_, ?_, ?_, ?_⟩, ⟨fun _ => 0, ?_, ?_, ?_, ?_, ?_⟩, ?_⟩
  · exact fun _ => rfl
  · exact fun _ _ => Nat.zero_le _
  · intro x key w hf
    cases (opening_find? hf).2
  · intro source _ hfresh hpresent
    cases source with
    | entry key => exact absurd hfresh hpresent
    | cell id => exact absurd rfl hpresent
  · intro x c w hf
    cases (opening_find? hf).2
  · exact fun id hlt => absurd hlt (Nat.not_lt_zero id)
  · exact fun id hne => absurd (hcell id) hne
  · simp
  · exact List.Pairwise.nil
  · rintro _ _ ⟨⟩

theorem Kept.turned {schedule : Schedule} (h : Kept before past s)
    (offers : s.schedule.Offers self schedule) (turn : Turned (s.scheduled schedule) self log t) :
    Kept before (past ++ log) t := by
  obtain ⟨rank, accounted⟩ := h.accounted
  obtain ⟨base, paired⟩ := h.paired
  have alike : Alike s (s.scheduled schedule) := by
    refine ⟨rfl, rfl, rfl, rfl, rfl, fun source => ?_, fun source => ?_⟩
    · exact resultOf_congr (promise?_scheduled s schedule source)
    · rw [promise?_scheduled]
  have tidy := h.tidy.offered offers
  have accounted := accounted.alike alike
  have heard : Heard before past (s.scheduled schedule) := by
    intro reader key hasked hfailed
    rw [FailedAt, alike.results] at hfailed
    exact (h.heard hasked hfailed).alike alike
  exact ⟨tidy.turned turn, accounted.turned tidy turn, (paired.alike alike).turned tidy turn,
    heard.turned accounted tidy turn⟩

theorem kept_polls {e : Engine} {body : Infer Property}
    (polls : Polls (opening e body) log s) : Kept e.memo log s :=
  Polls.invariant (Kept e.memo) Kept.turned [] polls (kept_opening e body)

theorem no_trouble_of_ok {p : Property} (ok : s.result = .ok p) : ¬ s.Trouble := by
  rw [result] at ok
  rintro (hdetached | ⟨e, he⟩)
  · cases houtcome : s.outcome with
    | none => simp [houtcome] at ok
    | some r =>
      cases hlist : s.detached with
      | nil => exact hdetached hlist
      | cons first rest => cases r <;> simp [houtcome, hlist] at ok
  · simp [he] at ok

theorem failed_of_close (distinct : s.Distinct) {key : Entry} (h : s.close.memo.Failed key) :
    s.FailedAt (.entry key) := by
  obtain ⟨p, e, found, failed⟩ := h
  replace found : Table.find? (s.engine.memo.filter fun q => q.2.isResolved) key = some p :=
    found
  rw [Table.find?_filter distinct.1, Option.filter_eq_some_iff] at found
  have found : s.promise? (.entry key) = some p := found.1
  exact ⟨e, (resultOf_of_promise? found).trans failed⟩

/-- No error and no disagreement is lost in a run that succeeds, whatever the order of its turns: no
entry that was computed or read in it has failed in the end, and of the branches of a conditional
both have succeeded and agree if both have come to an end. -/
theorem nothing_lost_of_ok {e : Engine} (arises : e.Arises) {body : Infer Property}
    (polls : Polls (opening e body) log s) (finished : s.Finished) {p : Property}
    (ok : s.result = .ok p) :
    (∀ key, (e.memo.find? key = none ∨ ∃ reader, Event.asked reader key ∈ log) →
        ¬ s.close.memo.Failed key)
      ∧ log.Pairwise fun a b => ∀ c r c' r', a = .ended (.branch c) r → b = .ended (.branch c') r' →
          c.cell = c'.cell → ∃ first second, r = .ok first ∧ r' = .ok second
            ∧ agree c'.track first second = true := by
  have settled := arises.settled
  obtain ⟨tidy, ⟨rank, accounted⟩, ⟨base, paired⟩, heard⟩ := kept_polls polls
  have hsound : ∀ source : Source, Fresh e.memo source → ¬ s.FailedAt source :=
    fun _ hfresh hfail => no_trouble_of_ok ok (accounted.trouble tidy finished hfresh hfail)
  have distinct : s.Distinct :=
    Distinct.polls (s := opening e body) ⟨settled.memo, settled.readers⟩ polls
  refine ⟨?_, ?_⟩
  · intro key hkey hfailed
    have hfailed := failed_of_close distinct hfailed
    rcases hkey with hfresh | ⟨reader, hasked⟩
    · exact hsound (.entry key) hfresh hfailed
    · rcases heard hasked hfailed with htrouble | ⟨source, hfresh, hfail⟩
      · exact no_trouble_of_ok ok htrouble
      · exact hsound source hfresh hfail
  · refine paired.compared.imp ?_
    intro a b hab c r c' r' ha hb hcell
    obtain ⟨hresult, hfirst⟩ := hab c r c' r' ha hb hcell
    cases r with
    | error e => exact absurd ⟨e, hresult⟩ (hsound (.cell c.cell) trivial)
    | ok first =>
      rcases hfirst first rfl with ⟨second, hsecond, hagree⟩ | ⟨hdetached, -⟩
      · exact ⟨first, second, rfl, hsecond, hagree⟩
      · exact absurd (Or.inl hdetached) (no_trouble_of_ok ok)

/-- A graph that switches between two integers over its parameter. -/
def switching : Program :=
  let (g, p) := Program.empty.addGraph "main" none
  let (c, p) := p.addParameter g "c"
  let (one, p) := p.addConstant (.int 1)
  let (two, p) := p.addConstant (.int 2)
  let (output, p) := p.addOperation g .switch [c, one, two]
  p.setOutput g output

/-- A boolean of which nothing is known. -/
def someBool : ArgSpec :=
  { type := .generic ⟨0⟩ .bool, shape := none, value := none }

theorem nothing_lost_of_switching :
    ∃ log s, Polls (asking (.new switching (.empty ⟨0⟩) .standard) ⟨0⟩ [someBool] .type) log s
      ∧ s.Finished ∧ s.result = .ok (.type (.int ⟨0⟩ 64))
      ∧ ((∀ key, (((EngineM.graphInferrer .type ⟨0⟩ .empty).run
            (.new switching (.empty ⟨0⟩) .standard)).2.memo.find? key = none
            ∨ ∃ reader, Event.asked reader key ∈ log) → ¬ s.close.memo.Failed key)
        ∧ log.Pairwise fun a b => ∀ c r c' r', a = .ended (.branch c) r →
          b = .ended (.branch c') r' → c.cell = c'.cell → ∃ first second, r = .ok first
            ∧ r' = .ok second ∧ agree c'.track first second = true) := by
  have hrun : (driveWithin 10 30
      (asking (.new switching (.empty ⟨0⟩) .standard) ⟨0⟩ [someBool] .type)).map
        (fun t => t.result.toOption) = some (some (.type (.int ⟨0⟩ 64))) := by
    decide +kernel
  obtain ⟨log, s, polls, finished, hresult⟩ := exists_polls_of_driveWithin rfl hrun
  have ok : s.result = .ok (.type (.int ⟨0⟩ 64)) := eq_ok_of_toOption hresult
  exact ⟨log, s, polls, finished, ok,
    nothing_lost_of_ok (.answered (.new _ _ _) (.graphInferrer _ _ _)) polls finished ok⟩

end Run

end ArrayInference
