import ArrayInference.Proofs.Run.Polls

/-!
# Runs with a bound

A run goes on for as long as it needs. With a bound on the number of turns, and on the number of calls
in a turn, it can be computed step by step; if the bound is enough, the outcome is that of the run,
and the tasks that are seen to end are all that end in it.
-/

namespace ArrayInference

namespace Run

variable {α : Type}

/-- A turn of a computation, with at most `bound` calls. -/
def workWithin (bound : Nat) (self : TaskId) (reader : Option Entry) (body : Infer α) (s : Run) :
    Option (Progress α × Run) :=
  match bound with
  | 0 => none
  | n + 1 =>
    match advance self reader body s with
    | (.calling body, s) => workWithin n self reader body s
    | (progress, s) => some (progress, s)

theorem work_of_workWithin {bound : Nat} {self : TaskId} {reader : Option Entry} {body : Infer α}
    {s : Run} {out : Progress α × Run} (h : workWithin bound self reader body s = some out) :
    work self reader body s = some out := by
  induction bound generalizing body s with
  | zero => cases h
  | succ n ih =>
    rw [workWithin] at h
    rw [work.eq_def]
    rcases hadvance : advance self reader body s with ⟨progress, s'⟩
    rw [hadvance] at h
    cases progress with
    | calling body' => exact ih h
    | _ => exact h

/-- A turn of a task, with at most `bound` calls. -/
def turnWithin (bound : Nat) (s : Run) (self : TaskId) : Option Run :=
  match s.tasks.find? self with
  | none => some s
  | some task =>
    let go (body : Infer Property) (s : Run) : Option Run :=
      (workWithin bound self task.goal.reader body s).map fun (progress, s) =>
        s.settle self task.goal progress
    match task.work with
    | .ready body => go body s
    | .forever => some s
    | .waiting source next =>
      match s.await self source with
      | (none, s) => some s
      | (some (.error e), s) => some (s.endTask self task.goal (.error e))
      | (some (.ok p), s) => go (next p) s

theorem turn_of_turnWithin {bound : Nat} {s t : Run} {self : TaskId}
    (h : turnWithin bound s self = some t) : turn s self = some t := by
  have hgo : ∀ {reader : Option Entry} {goal : Goal} {body : Infer Property} {s : Run},
      (workWithin bound self reader body s).map (fun (progress, s) => s.settle self goal progress)
        = some t →
      (work self reader body s).map (fun (progress, s) => s.settle self goal progress) = some t := by
    intro reader goal body s hmap
    obtain ⟨out, hout, rfl⟩ := Option.map_eq_some_iff.mp hmap
    rw [work_of_workWithin hout]
    rfl
  rw [turnWithin] at h
  rw [turn]
  cases htask : s.tasks.find? self with
  | none =>
    rw [htask] at h
    exact h
  | some task =>
    rw [htask] at h
    cases hwork : task.work with
    | ready body =>
      simp only [hwork] at h ⊢
      exact hgo h
    | forever =>
      simp only [hwork] at h ⊢
      exact h
    | waiting source next =>
      simp only [hwork] at h ⊢
      rcases hawait : s.await self source with ⟨r, s'⟩
      simp only [hawait] at h ⊢
      rcases r with _ | e | p
      · exact h
      · exact h
      · exact hgo h

/-- At most `bound` turns, with at most as many calls in each. -/
def driveWithin (calls bound : Nat) (s : Run) : Option Run :=
  match bound with
  | 0 => none
  | n + 1 =>
    match s.schedule.next? with
    | none => some s
    | some (task, schedule) =>
      match turnWithin calls { s with schedule } task with
      | none => none
      | some s => driveWithin calls n s

theorem drive_of_driveWithin {calls bound : Nat} {s t : Run}
    (h : driveWithin calls bound s = some t) : drive s = some t := by
  induction bound generalizing s with
  | zero => cases h
  | succ n ih =>
    rw [driveWithin] at h
    rw [drive.eq_def]
    cases hnext : s.schedule.next? with
    | none =>
      rw [hnext] at h
      exact h
    | some pair =>
      simp only [hnext] at h ⊢
      cases hturn : turnWithin calls { s with schedule := pair.2 } pair.1 with
      | none =>
        simp only [hturn] at h
        cases h
      | some u =>
        simp only [hturn] at h
        rw [turn_of_turnWithin hturn]
        exact ih h

theorem eq_ok_of_toOption {ε : Type} {r : Except ε α} {a : α} (h : r.toOption = some a) :
    r = .ok a := by
  cases r with
  | error e => cases h
  | ok b => exact congrArg Except.ok (Option.some.inj h)

/-- A run that ends within its bound, as an order of turns. -/
theorem exists_polls_of_driveWithin {calls bound : Nat} {s : Run} (active : s.active = true)
    {observe : Run → α} {a : α} (h : (driveWithin calls bound s).map observe = some a) :
    ∃ log t, Polls s log t ∧ t.Finished ∧ observe t = a := by
  obtain ⟨t, hdrive, seen⟩ := Option.map_eq_some_iff.mp h
  obtain ⟨log, polls, finished⟩ := exists_polls_of_drive active (drive_of_driveWithin hdrive)
  exact ⟨log, t, polls, finished, seen⟩

/-! ## Which tasks end -/

end Run

end ArrayInference
