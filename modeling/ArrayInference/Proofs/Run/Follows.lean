import ArrayInference.Proofs.Engine.History

/-!
# What a run does to its engine

A run asks its engine questions, and it changes the results, who has read them, and the notes. It does
nothing else to it, so whatever questions keep holds of the engine after every run.
-/

namespace ArrayInference

namespace Engine

/-- An engine that comes after another one: questions were asked, and results changed. -/
inductive Follows (e : Engine) : Engine → Prop where
  | refl : Follows e e
  | answer {f : Engine} (h : Follows e f) (query : Query) :
      Follows e ((EngineM.answer query).run f).2
  | results {f : Engine} (h : Follows e f) (memo : Memo) (readers : Readers)
      (diagnostics : Diagnostics) : Follows e { f with memo, readers, diagnostics }

theorem Follows.trans {e f g : Engine} (h : e.Follows f) (h' : f.Follows g) : e.Follows g := by
  induction h' with
  | refl => exact h
  | answer _ query ih => exact ih.answer query
  | results _ memo readers diagnostics ih => exact ih.results memo readers diagnostics

theorem Follows.extends {e f : Engine} (h : e.Follows f) : e.Extends f := by
  induction h with
  | refl => exact .refl e
  | answer _ query ih => exact ih.trans (EngineM.grows_answer query _).toExtends
  | results _ memo readers diagnostics ih =>
    exact ⟨ih.config, ih.rules, ih.program, ih.callables, ih.inferrers, ih.contexts⟩

/-- What questions keep, and what does not depend on results. -/
theorem Follows.invariant (Inv : Engine → Prop)
    (answer : ∀ {f : Engine} (query : Query), Inv f → Inv ((EngineM.answer query).run f).2)
    (results : ∀ {f : Engine} (memo : Memo) (readers : Readers) (diagnostics : Diagnostics),
      Inv f → Inv { f with memo, readers, diagnostics })
    {e f : Engine} (h : e.Follows f) (start : Inv e) : Inv f := by
  induction h with
  | refl => exact start
  | answer _ query ih => exact answer query ih
  | results _ memo readers diagnostics ih => exact results memo readers diagnostics ih

end Engine

namespace Run

variable {α : Type} {s t : Run} {self : TaskId} {reader : Option Entry} {log : List Event}

theorem follows_addReader (s : Run) (key : Entry) (reader : Option Entry) :
    s.engine.Follows (s.addReader key reader).engine := by
  cases reader with
  | none => exact .refl
  | some reader => exact Engine.Follows.refl.results _ _ _

theorem follows_setPromise (s : Run) (source : Source) (p : Promise TaskId) :
    s.engine.Follows (s.setPromise source p).engine := by
  cases source with
  | entry key => exact Engine.Follows.refl.results _ _ _
  | cell id => exact .refl

theorem Step.follows {b b₁ : Infer α} (step : Step reader b s log b₁ t) :
    s.engine.Follows t.engine := by
  cases step with
  | ask query next => exact Engine.Follows.refl.answer query
  | read found ready => exact follows_addReader _ _ _
  | call found => exact .refl

theorem Steps.follows {b b₁ : Infer α} (steps : Steps reader b s log b₁ t) :
    s.engine.Follows t.engine := by
  induction steps with
  | refl b s => exact .refl
  | head first rest ih => exact first.follows.trans ih

theorem Halt.follows {b : Infer α} {progress : Progress α}
    (halt : Halt self reader b s log progress t) : s.engine.Follows t.engine := by
  cases halt with
  | readFailed found failed => exact follows_addReader _ _ _
  | wait found missing => exact (follows_addReader _ _ _).trans (follows_setPromise _ _ _)
  | begin absent => exact (follows_addReader _ _ _).results _ _ _
  | race track use first second next =>
    exact follows_setPromise (s.race reader track use first second).2 _ _
  | _ => exact .refl

theorem Ending.follows {goal : Goal} {r : Outcome} (ending : Ending s goal r t) :
    s.engine.Follows t.engine := by
  cases ending with
  | fulfils r aims found missing => exact follows_setPromise _ _ _
  | agrees first same d => exact Engine.Follows.refl.results _ _ _
  | @late c p r e first clash =>
    cases hsite : c.site with
    | none => exact .refl
    | some k => exact Engine.Follows.refl.results _ _ _
  | _ => exact .refl

theorem Turned.follows (turned : Turned s self log t) : s.engine.Follows t.engine := by
  cases turned with
  | blocked task found missing => exact follows_setPromise _ _ _
  | failed task found failed => exact (ending_endTask s self _ _).follows
  | @moved task body b₁ s₁ s₂ asks log progress found goes steps halt =>
    have h := steps.follows.trans halt.follows
    cases progress with
    | ended r => exact h.trans (ending_endTask s₂ self _ _).follows
    | _ => exact h
  | _ => exact .refl

theorem Polls.follows (polls : Polls s log t) : s.engine.Follows t.engine := by
  induction polls with
  | rest s => exact .refl
  | poll offered turned later ih => exact turned.follows.trans ih

theorem follows_close (s : Run) : s.engine.Follows s.close := by
  rw [close]
  exact Engine.Follows.refl.results _ _ s.engine.diagnostics

end Run

end ArrayInference
