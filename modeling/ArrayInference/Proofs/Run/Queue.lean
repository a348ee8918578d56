import ArrayInference.Engine.Schedule

/-!
# The queue

Which tasks can go on, whatever their order. The schedule of the engine takes its next task out of
these, and it says that there is none only when there is none.
-/

namespace ArrayInference

namespace Schedule

/-- The tasks that can go on, those included that were made since the round began. -/
def queue (s : Schedule) : List TaskId :=
  s.ready ++ s.incoming

/-- A task is taken out of those that can go on. -/
def Offers (s : Schedule) (task : TaskId) (t : Schedule) : Prop :=
  (task :: t.queue).Perm s.queue

theorem advanceRound_queue (s : Schedule) : s.advanceRound.queue = s.queue := by
  rw [advanceRound]
  split
  · rw [beginRound, queue, queue, List.append_nil]
  · rfl

theorem offers_of_next? {s t : Schedule} {task : TaskId} (h : s.next? = some (task, t)) :
    s.Offers task t := by
  rw [Offers, ← advanceRound_queue s]
  rw [next?] at h
  cases hready : s.advanceRound.ready with
  | nil => simp [hready] at h
  | cons first rest =>
    simp only [hready, Option.some.injEq, Prod.mk.injEq] at h
    obtain ⟨rfl, rfl⟩ := h
    rw [queue, queue, hready]
    exact List.Perm.refl _

/-- No task is next only if none can go on. -/
theorem queue_of_next? {s : Schedule} (h : s.next? = none) : s.queue = [] := by
  rw [← advanceRound_queue s]
  rw [next?] at h
  have hready : s.advanceRound.ready = [] := by
    cases hcase : s.advanceRound.ready with
    | nil => rfl
    | cons first rest => simp [hcase] at h
  rw [queue, hready, List.nil_append]
  rw [advanceRound] at hready ⊢
  split at hready
  · rename_i hround
    rw [if_pos hround, beginRound]
  · rename_i hround
    rw [hready] at hround
    exact absurd (by simp) hround

theorem mem_wake_ready (s : Schedule) (tasks : List TaskId) (t : TaskId) :
    t ∈ (s.wake tasks).ready ↔ t ∈ s.ready ∨ t ∈ tasks := by
  rw [wake]
  induction tasks generalizing s with
  | nil => simp
  | cons first rest ih =>
    rw [List.foldl_cons, List.mem_cons]
    have := ih { s with ready := if first ∈ s.ready then s.ready else s.ready ++ [first] }
    rw [this]
    by_cases h : first ∈ s.ready
    · simp only [if_pos h]
      constructor
      · rintro (h' | h')
        · exact Or.inl h'
        · exact Or.inr (Or.inr h')
      · rintro (h' | rfl | h')
        · exact Or.inl h'
        · exact Or.inl h
        · exact Or.inr h'
    · simp only [if_neg h, List.mem_append, List.mem_singleton, or_assoc]

theorem mem_wake (s : Schedule) (tasks : List TaskId) (t : TaskId) :
    t ∈ (s.wake tasks).queue ↔ t ∈ s.queue ∨ t ∈ tasks := by
  have hincoming : (s.wake tasks).incoming = s.incoming := rfl
  rw [queue, queue, List.mem_append, List.mem_append, mem_wake_ready, hincoming]
  constructor
  · rintro ((h | h) | h)
    · exact Or.inl (Or.inl h)
    · exact Or.inr h
    · exact Or.inl (Or.inr h)
  · rintro ((h | h) | h)
    · exact Or.inl (Or.inl h)
    · exact Or.inr h
    · exact Or.inl (Or.inr h)

theorem mem_spawn (s : Schedule) (task t : TaskId) :
    t ∈ (s.spawn task).queue ↔ t ∈ s.queue ∨ t = task := by
  simp [spawn, queue, or_assoc]

end Schedule

end ArrayInference
