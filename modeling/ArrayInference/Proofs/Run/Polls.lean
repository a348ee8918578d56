import ArrayInference.Proofs.Run.Frame

/-!
# Orders of turns

The engine gives turns to waiting tasks in one order, but nothing that is proved of results depends
on it. `Polls` is a run in which any task that can go on may be next; the order of the engine is one
of them.
-/

namespace ArrayInference

namespace Run

/-- A run from one state to another, with any order of turns. -/
inductive Polls : Run → List Event → Run → Prop where
  | rest (s : Run) : Polls s [] s
  | poll {s t u : Run} {self : TaskId} {schedule : Schedule} {log log' : List Event}
      (offered : s.schedule.Offers self schedule) (turned : Turned (s.scheduled schedule) self log t)
      (later : Polls t log' u) : Polls s (log ++ log') u

/-- No task can go on. -/
def Finished (s : Run) : Prop :=
  s.schedule.queue = []

/-- What every turn keeps holds after every run. -/
theorem Polls.invariant (Inv : List Event → Run → Prop)
    (step : ∀ {past log : List Event} {s t : Run} {self : TaskId} {schedule : Schedule},
      Inv past s → s.schedule.Offers self schedule → Turned (s.scheduled schedule) self log t →
      Inv (past ++ log) t)
    (past : List Event) {log : List Event} {s t : Run} (polls : Polls s log t) (start : Inv past s) :
    Inv (past ++ log) t := by
  induction polls generalizing past with
  | rest s =>
    rw [List.append_nil]
    exact start
  | poll offered turned later ih =>
    rw [← List.append_assoc]
    exact ih _ (step start offered turned)

/-- The order of turns of the engine is one of all orders. -/
theorem exists_polls_of_drive {s t : Run} (active : s.active = true) (h : drive s = some t) :
    ∃ log, Polls s log t ∧ t.Finished := by
  refine drive.partial_correctness
    (fun s t => s.active = true → ∃ log, Polls s log t ∧ t.Finished) ?_ s t h active
  intro recurse ih s t ht active
  cases hnext : s.schedule.next? with
  | none =>
    simp only [hnext, Option.some.injEq] at ht
    subst ht
    exact ⟨_, .rest s, Schedule.queue_of_next? hnext⟩
  | some pair =>
    obtain ⟨task, schedule⟩ := pair
    cases hturn : turn (s.scheduled schedule) task with
    | none =>
      rw [scheduled] at hturn
      simp [hnext, hturn] at ht
    | some u =>
      have ht : recurse u = some t := by
        rw [scheduled] at hturn
        simpa only [hnext, hturn] using ht
      have hactive : (s.scheduled schedule).active = true := active
      obtain ⟨log, turned⟩ := exists_turned_of_turn hactive hturn
      obtain ⟨log', later, finished⟩ := ih u t ht (turned.active_eq.trans hactive)
      exact ⟨_, .poll (Schedule.offers_of_next? hnext) turned later, finished⟩

end Run

end ArrayInference
