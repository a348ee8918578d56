import ArrayInference.Proofs.Plain.Transparency

/-!
# Runs that have a property all along

A condition is undecided in a run if no state of the run knows its value. A property that was found is
not forgotten, though it may turn into a failure; so a look at the last state can be enough.
-/

namespace ArrayInference

namespace Run

variable {s t u : Run} {self : TaskId} {log : List Event} {source : Source} {condition : NodeId}

/-- A run, in any order of turns, all of whose states have a property. -/
inductive Passes (P : Run → Prop) : Run → Run → Prop where
  | rest {s : Run} (holds : P s) : Passes P s s
  | poll {s t u : Run} {self : TaskId} {schedule : Schedule} {log : List Event} (holds : P s)
      (offered : s.schedule.Offers self schedule) (turned : Turned (s.scheduled schedule) self log t)
      (later : Passes P t u) : Passes P s u

theorem Passes.follows {P : Run → Prop} (h : Passes P s t) : s.engine.Follows t.engine := by
  induction h with
  | rest holds => exact .refl
  | poll holds offered turned later ih => exact turned.follows.trans ih

/-- The value of a node is not known anywhere. -/
def Unknown (condition : NodeId) (s : Run) : Prop :=
  ∀ (ref : NodeRef) (v : Property), ref.node = condition →
    s.resultOf (.entry ⟨ref, .value⟩) = some (.ok v) → v.toValue = .ok .anything

/-! ## What the last state shows -/

/-- A source has a property, or had it before it failed. -/
def Had (s : Run) (source : Source) (v : Property) : Prop :=
  s.resultOf source = some (.ok v) ∨ s.FailedAt source

theorem Had.of_eq {v : Property} (h : s.Had source v) (same : t.resultOf source = s.resultOf source) :
    t.Had source v :=
  h.imp same.trans fun failed => failed.imp fun _ he => same.trans he

theorem Had.ending {goal : Goal} {r : Outcome} {v : Property} (h : s.Had source v)
    (ending : Ending s goal r t) : t.Had source v := by
  rcases h with h | h
  · rcases ending.resultOf source with
      hsame | ⟨-, hnone, -⟩ | ⟨_, _, e, _, _, -, -, -, -, -, he, -⟩
    · exact .inl (hsame.trans h)
    · rw [h] at hnone
      cases hnone
    · exact .inr ⟨e, he⟩
  · exact .inr (ending.failedAt h)

theorem Had.turned {v : Property} (h : s.Had source v) (turned : Turned s self log t) :
    t.Had source v := by
  cases turned.move with
  | idle alike readers => exact h.of_eq (alike.results source)
  | @ends goal asks s₀ r ends =>
    have before := h.of_eq ((alike_of_engine ends.same ends.memo).results source)
    exact (before.of_eq (resultOf_leave s₀ self source)).ending (ending_endTask s₀ self goal r)
  | stays known waited quiet halt unended =>
    have after := (h.of_eq (quiet.resultOf source)).of_eq (halt.resultOf source)
    rename_i progress
    cases progress with
    | ended r => exact absurd rfl (unended r)
    | _ => exact after.of_eq (resultOf_congr (by cases source <;> rfl))

theorem Had.polls {v : Property} (h : s.Had source v) (polls : Polls s log t) : t.Had source v := by
  induction polls with
  | rest s => exact h
  | poll offered turned later ih =>
    exact ih (Had.turned (h.of_eq (resultOf_congr (promise?_scheduled _ _ _))) turned)

/-- The last state of a run shows a node that never had a known value. -/
def Blank (condition : NodeId) (s : Run) : Prop :=
  ∀ (ref : NodeRef) (r : Outcome), ref.node = condition →
    s.resultOf (.entry ⟨ref, .value⟩) = some r → ∃ v, r = .ok v ∧ v.toValue = .ok .anything

theorem Blank.unknown (h : Blank condition t) (polls : Polls s log t) : Unknown condition s := by
  intro ref v hnode hv
  rcases Had.polls (.inl hv) polls with hlast | ⟨e, he⟩
  · obtain ⟨w, hw, unknown⟩ := h ref _ hnode hlast
    cases hw
    exact unknown
  · obtain ⟨w, hw, -⟩ := h ref _ hnode he
    cases hw

theorem passes_of_driven {P : Run → Prop} (active : s.active = true) (driven : Driven s t)
    (holds : ∀ u, Driven s u → P u) : Passes P s t := by
  induction driven with
  | rest s => exact .rest (holds s (.rest s))
  | @turn s t u self schedule offered turned later ih =>
    obtain ⟨log, moved⟩ := exists_turned_of_turn (s := s.scheduled schedule) active turned
    refine .poll (holds s (.rest s)) (Schedule.offers_of_next? offered) moved (ih ?_ ?_)
    · exact moved.active_eq.trans active
    · exact fun v later => holds v (.turn offered turned later)

/-- A run whose last state shows a blank node never knew its value. -/
theorem Blank.driven (blank : Blank condition t) (active : s.active = true) (h : drive s = some t)
    (driven : Driven s u) : Unknown condition u := by
  obtain ⟨active', h'⟩ := drive_of_driven active h driven
  obtain ⟨log, polls, -⟩ := exists_polls_of_drive active' h'
  exact blank.unknown polls

end Run

end ArrayInference
