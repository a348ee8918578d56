import ArrayInference.Engine.Registration
import ArrayInference.Proofs.Engine.Invalidation
import ArrayInference.Proofs.Run.Results

/-!
# The life of an engine

An engine begins without results. It answers questions, it runs computations, in any order of turns,
and it is given rules; outside a run whatever is asked for has failed. Whatever its life was, between
two of these every entry that it knows has its result, and readers are kept for such entries only.
-/

namespace ArrayInference

namespace Run

variable {α : Type} {s t : Run} {self : TaskId} {reader : Option Entry} {log : List Event}

/-- No entry stands twice in the memo, nor among the readers. -/
def Distinct (s : Run) : Prop :=
  s.engine.memo.Distinct ∧ s.engine.readers.Distinct

theorem Distinct.setPromise (h : s.Distinct) (source : Source) (p : Promise TaskId) :
    (s.setPromise source p).Distinct := by
  cases source with
  | entry key => exact ⟨h.1.insert _ _, h.2⟩
  | cell id => exact h

theorem Distinct.addReader (h : s.Distinct) (key : Entry) (reader : Option Entry) :
    (s.addReader key reader).Distinct := by
  cases reader with
  | none => exact h
  | some reader => exact ⟨h.1, h.2.insert _ _⟩

theorem distinct_poisonAll (readers : Readers) (e : InferError) {m : Memo} (h : m.Distinct)
    (woken : List TaskId) (pending : List Entry) :
    (Memo.poisonAll readers e m woken pending).2.Distinct := by
  fun_induction Memo.poisonAll readers e m woken pending with
  | case1 m woken => exact h
  | case2 m woken key rest absent ih => exact ih h
  | case3 m woken key rest p found failed ih => exact ih h
  | case4 m woken key rest p found waiters q sound ih => exact ih (h.insert _ _)

theorem Distinct.ending (h : s.Distinct) {goal : Goal} {r : Outcome} (ending : Ending s goal r t) :
    t.Distinct := by
  cases ending with
  | fulfils r aims found missing => exact h.setPromise _ _
  | @late c p r e first clash =>
    cases hsite : c.site with
    | none => exact h
    | some k => exact ⟨distinct_poisonAll _ _ h.1 _ _, h.2⟩
  | _ => exact h

theorem Distinct.step (h : s.Distinct) {b b₁ : Infer α} (step : Step reader b s log b₁ t) :
    t.Distinct := by
  cases step with
  | ask query next =>
    have grows := EngineM.grows_answer query s.engine
    refine ⟨?_, ?_⟩
    · rw [show (s.afterAnswer query).engine.memo = s.engine.memo from grows.memo]
      exact h.1
    · rw [show (s.afterAnswer query).engine.readers = s.engine.readers from grows.readers]
      exact h.2
  | read found ready => exact h.addReader _ _
  | call found => exact h

theorem Distinct.steps (h : s.Distinct) {b b₁ : Infer α} (steps : Steps reader b s log b₁ t) :
    t.Distinct := by
  induction steps with
  | refl b s => exact h
  | head first rest ih => exact ih (h.step first)

theorem Distinct.halt (h : s.Distinct) {b : Infer α} {progress : Progress α}
    (halt : Halt self reader b s log progress t) : t.Distinct := by
  cases halt with
  | readFailed found failed => exact h.addReader _ _
  | wait found missing => exact (h.addReader _ _).setPromise _ _
  | begin absent => exact ⟨(h.addReader _ _).1.insert _ _, (h.addReader _ _).2⟩
  | _ => exact h

theorem Distinct.turned (h : s.Distinct) (turned : Turned s self log t) : t.Distinct := by
  cases turned with
  | blocked task found missing => exact h.setPromise _ _
  | failed task found failed =>
    exact Distinct.ending (s := s.leave self) h (ending_endTask s self _ _)
  | @moved task body b₁ s₁ s₂ asks log progress found goes steps halt =>
    have h₂ := (h.steps steps).halt halt
    cases progress with
    | ended r => exact Distinct.ending (s := s₂.leave self) h₂ (ending_endTask s₂ self _ _)
    | _ => exact h₂
  | _ => exact h

theorem Distinct.polls (h : s.Distinct) (polls : Polls s log t) : t.Distinct :=
  Polls.invariant (fun _ s => s.Distinct)
    (fun {_ _ s _ _ schedule} hs _ turn => Distinct.turned (s := s.scheduled schedule) hs turn) []
    polls h

/-- A run that has not begun yet. -/
def opening (e : Engine) (body : Infer Property) : Run :=
  (Run.start e true).spawn .answer body

end Run

namespace Engine

/-- An engine with some life behind it. -/
inductive Arises : Engine → Prop where
  | new (program : Program) (types : TypeCache) (config : Config) :
      Arises (.new program types config)
  | answered {e : Engine} (h : Arises e) (query : Query) :
      Arises ((EngineM.answer query).run e).2
  | ran {e : Engine} (h : Arises e) (body : Infer Property) {log : List Event} {s : Run}
      (polls : Run.Polls (Run.opening e body) log s) (finished : s.Finished) : Arises s.close
  | refused {e : Engine} (h : Arises e) (key : Entry) :
      Arises ((Run.start e false).request key).engine
  | registered {e : Engine} (h : Arises e) (track : Track) (operator : Primitive) (arity : Arity)
      (rule : Rule) : Arises (e.registerRule track operator arity rule).2

/-- What holds of an engine between two questions. -/
structure Settled (e : Engine) : Prop where
  memo : e.memo.Distinct
  readers : e.readers.Distinct
  resolved : ∀ {key : Entry} {p : Promise TaskId}, e.memo.find? key = some p → p.result ≠ none
  covered : ∀ {key : Entry}, e.readers.find? key ≠ none → e.memo.find? key ≠ none

theorem settled_close {s : Run} (h : s.Distinct) : s.close.Settled := by
  have hfind : ∀ key, Table.find? s.close.memo key
      = (s.engine.memo.find? key).filter fun p => p.isResolved :=
    fun key => Table.find?_filter h.1 _ key
  refine ⟨h.1.filter _, h.2.filter _, ?_, ?_⟩
  · intro key p hp
    rw [hfind, Option.filter_eq_some_iff] at hp
    exact Option.isSome_iff_ne_none.mp hp.2
  · intro key hne
    have hreaders : Table.find? s.close.readers key
        = (s.engine.readers.find? key).filter fun _ => s.close.memo.contains key :=
      Table.find?_filter h.2 _ key
    obtain ⟨known, hknown⟩ := Option.ne_none_iff_exists'.mp hne
    rw [hreaders, Option.filter_eq_some_iff] at hknown
    obtain ⟨p, hp⟩ := Table.contains_eq_true.mp hknown.2
    rw [hp]
    simp

/-- Every engine is settled between two questions. -/
theorem Arises.settled {e : Engine} (h : e.Arises) : e.Settled := by
  induction h with
  | new program types config =>
    exact ⟨List.nodup_nil, List.nodup_nil, by rintro _ _ ⟨⟩, fun h => absurd rfl h⟩
  | @answered e _ query ih =>
    have grows := EngineM.grows_answer query e
    refine ⟨?_, ?_, ?_, ?_⟩
    · rw [grows.memo]
      exact ih.memo
    · rw [grows.readers]
      exact ih.readers
    · rw [grows.memo]
      exact ih.resolved
    · rw [grows.memo, grows.readers]
      exact ih.covered
  | @ran e _ body log s polls finished ih =>
    exact settled_close (Run.Distinct.polls (s := Run.opening e body) ⟨ih.memo, ih.readers⟩ polls)
  | @refused e _ key ih =>
    rw [Run.request]
    split
    · exact ih
    · rw [if_neg (show ¬ (Run.start e false).active = true from Bool.false_ne_true)]
      refine ⟨ih.memo.insert _ _, ih.readers, ?_, ?_⟩
      · intro k p hp
        replace hp : (e.memo.insert key _).find? k = some p := hp
        rw [Table.find?_insert] at hp
        split at hp
        · cases hp
          simp
        · exact ih.resolved hp
      · intro k hk
        show (e.memo.insert key _).find? k ≠ none
        rw [Table.find?_insert]
        split
        · simp
        · exact ih.covered hk
  | @registered e _ track operator arity rule ih =>
    rw [registerRule]
    split
    · exact ih
    · have dropped := Memo.dropped_dropAll 0 ih.memo ih.readers
        ((e.memo.filter fun entry => holdsAny track
          ((e.inferrers.filter fun q =>
            q.1.track = track && q.1.callee = .primitive operator).map (·.2)) entry.1 entry.2).map
              (·.1))
      refine ⟨dropped.distinct, dropped.distinctReaders, ?_, ?_⟩
      · intro key p hp
        rcases dropped.kept key with ⟨hm, -⟩ | ⟨hgone, -⟩
        · exact ih.resolved (hm ▸ hp)
        · exact absurd (hgone.1.symm.trans hp) (by simp)
      · intro key hk
        rcases dropped.kept key with ⟨hm, hr⟩ | ⟨hgone, -⟩
        · exact fun hnone => ih.covered (hr ▸ hk) (hm ▸ hnone)
        · exact absurd hgone.2 hk

end Engine

end ArrayInference
