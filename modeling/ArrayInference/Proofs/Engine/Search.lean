import Mathlib.Logic.Relation

/-!
# Searches in any order

A search starts from some places and looks at the pending ones, one at a time and in any order. An
open place is entered when it is looked at for the first time, and then the places it leads to are
pending as well. Closed places, and places that were entered before, are passed over. When nothing is
pending any more, the places entered are exactly those that can be reached through open places.
-/

namespace ArrayInference

/-- A search on its way. -/
structure Search (κ : Type) where
  /-- The places entered so far. -/
  entered : List κ
  /-- The places that are still to be looked at. -/
  pending : List κ

namespace Search

variable {κ : Type} {next : κ → List κ} {Open : κ → Prop} {starts : List κ} {s t : Search κ}
  {place : κ}

/-- A place that can be reached from one of the starts through open places only. -/
def Reached (next : κ → List κ) (Open : κ → Prop) (starts : List κ) (place : κ) : Prop :=
  ∃ start ∈ starts, Open start
    ∧ Relation.ReflTransGen (fun a b => b ∈ next a ∧ Open b) start place

/-- A pending place is looked at, no matter which. -/
inductive Step (next : κ → List κ) (Open : κ → Prop) : Search κ → Search κ → Prop where
  /-- It is open and new, so it is entered. -/
  | enter {s : Search κ} {place : κ} {rest pending : List κ}
      (picked : s.pending.Perm (place :: rest)) (opened : Open place) (new : place ∉ s.entered)
      (pushed : pending.Perm (next place ++ rest)) :
      Step next Open s { entered := place :: s.entered, pending }
  /-- It is closed or was entered before, so it is passed over. -/
  | pass {s : Search κ} {place : κ} {rest pending : List κ}
      (picked : s.pending.Perm (place :: rest)) (idle : Open place → place ∈ s.entered)
      (left : pending.Perm rest) :
      Step next Open s { entered := s.entered, pending }

/-- What is true at every moment of a search. -/
structure Sound (next : κ → List κ) (Open : κ → Prop) (starts : List κ) (s : Search κ) : Prop where
  /-- Only what can be reached is entered. -/
  entered : ∀ place ∈ s.entered, Reached next Open starts place
  /-- Only what can be reached, as far as it is open, is pending. -/
  pending : ∀ place ∈ s.pending, Open place → Reached next Open starts place
  /-- No start is forgotten. -/
  starts : ∀ place ∈ starts, Open place → place ∈ s.entered ∨ place ∈ s.pending
  /-- Nothing that an entered place leads to is forgotten. -/
  closed : ∀ place ∈ s.entered, ∀ other ∈ next place, Open other →
    other ∈ s.entered ∨ other ∈ s.pending

theorem Reached.start (h : place ∈ starts) (opened : Open place) :
    Reached next Open starts place :=
  ⟨place, h, opened, .refl⟩

theorem Reached.tail (h : Reached next Open starts place) {other : κ} (edge : other ∈ next place)
    (opened : Open other) : Reached next Open starts other := by
  obtain ⟨start, hstart, hopen, path⟩ := h
  exact ⟨start, hstart, hopen, path.tail ⟨edge, opened⟩⟩

theorem Reached.opened (h : Reached next Open starts place) : Open place := by
  obtain ⟨start, -, hopen, path⟩ := h
  rcases path.cases_tail with rfl | ⟨_, -, -, opened⟩
  · exact hopen
  · exact opened

theorem sound_start (next : κ → List κ) (Open : κ → Prop) (starts : List κ) :
    Sound next Open starts { entered := [], pending := starts } where
  entered := fun _ h => nomatch h
  pending := fun _ h opened => .start h opened
  starts := fun _ h _ => Or.inr h
  closed := fun _ h => nomatch h

/-- What was pending and open is entered or pending after a step. -/
theorem Step.keeps (step : Step next Open s t) (opened : Open place)
    (h : place ∈ s.entered ∨ place ∈ s.pending) : place ∈ t.entered ∨ place ∈ t.pending := by
  cases step with
  | enter picked _ _ pushed =>
    rcases h with h | h
    · exact Or.inl (List.mem_cons_of_mem _ h)
    · rcases List.mem_cons.mp (picked.mem_iff.mp h) with rfl | h
      · exact Or.inl List.mem_cons_self
      · exact Or.inr (pushed.mem_iff.mpr (List.mem_append_right _ h))
  | pass picked idle left =>
    rcases h with h | h
    · exact Or.inl h
    · rcases List.mem_cons.mp (picked.mem_iff.mp h) with rfl | h
      · exact Or.inl (idle opened)
      · exact Or.inr (left.mem_iff.mpr h)

theorem Sound.step (h : Sound next Open starts s) (step : Step next Open s t) :
    Sound next Open starts t := by
  have kept {place : κ} (opened : Open place) :
      place ∈ s.entered ∨ place ∈ s.pending → place ∈ t.entered ∨ place ∈ t.pending :=
    step.keeps opened
  cases step with
  | @enter place rest pending picked opened _ pushed =>
    have reached : Reached next Open starts place :=
      h.pending place (picked.mem_iff.mpr List.mem_cons_self) opened
    refine ⟨?_, ?_, fun k hk ho => kept ho (h.starts k hk ho), ?_⟩
    · intro k hk
      rcases List.mem_cons.mp hk with rfl | hk
      · exact reached
      · exact h.entered k hk
    · intro k hk ho
      rcases List.mem_append.mp (pushed.mem_iff.mp hk) with hk | hk
      · exact reached.tail hk ho
      · exact h.pending k (picked.mem_iff.mpr (List.mem_cons_of_mem _ hk)) ho
    · intro k hk other hother ho
      rcases List.mem_cons.mp hk with rfl | hk
      · exact Or.inr (pushed.mem_iff.mpr (List.mem_append_left _ hother))
      · exact kept ho (h.closed k hk other hother ho)
  | pass picked idle left =>
    refine ⟨h.entered, ?_, fun k hk ho => kept ho (h.starts k hk ho),
      fun k hk other hother ho => kept ho (h.closed k hk other hother ho)⟩
    intro k hk ho
    exact h.pending k (picked.mem_iff.mpr (List.mem_cons_of_mem _ (left.mem_iff.mp hk))) ho

theorem Sound.steps (h : Sound next Open starts s)
    (steps : Relation.ReflTransGen (Step next Open) s t) : Sound next Open starts t := by
  induction steps with
  | refl => exact h
  | tail _ step ih => exact ih.step step

/-- A search that is over has entered exactly what can be reached. -/
theorem Sound.mem_entered_iff (h : Sound next Open starts s) (finished : s.pending = []) :
    place ∈ s.entered ↔ Reached next Open starts place := by
  have settled {k : κ} (hk : k ∈ s.entered ∨ k ∈ s.pending) : k ∈ s.entered :=
    hk.resolve_right (by rw [finished]; exact List.not_mem_nil)
  constructor
  · exact h.entered place
  · rintro ⟨start, hstart, opened, path⟩
    induction path with
    | refl => exact settled (h.starts start hstart opened)
    | tail _ edge ih => exact settled (h.closed _ ih _ edge.1 edge.2)

end Search

end ArrayInference
