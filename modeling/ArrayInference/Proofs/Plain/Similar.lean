import ArrayInference.Infer.Conditional
import ArrayInference.Proofs.Infer.Monad
import ArrayInference.Proofs.Plain.Steady
import ArrayInference.Proofs.Plain.World

/-!
# Similar computations

Two computations are similar if they ask the same questions and, whatever the answers, go on in a
similar way, as long as the answers are the same for each of them. A computation that looks at an
inferrer only by calling it or by its text is similar to itself on arguments that are the same.

Nothing is said of a conditional over an unknown condition: once a computation comes to one it is
similar to every other.
-/

namespace ArrayInference

/-- One computation does in a world what the other one does, up to readings. Results are related by
`R`. -/
inductive Similar {α : Type} (R : World → α → α → Prop) : World → Infer α → Infer α → Prop where
  | done {w : World} {a a₀ : α} (same : R w a a₀) : Similar R w (.done a) (.done a₀)
  | fail {w : World} (e : InferError) : Similar R w (.fail e) (.fail e)
  | describe {w : World} {x x₀ : Ref} {next next₀ : String → Infer α} (same : SameRef w x x₀)
      (rest : ∀ text, Similar R w (next text) (next₀ text)) :
      Similar R w (.ask (.describe x) next) (.ask (.describe x₀) next₀)
  | note {w : World} {d d₀ : Diagnostic} {next next₀ : Unit → Infer α}
      (rest : Similar R w (next ()) (next₀ ())) :
      Similar R w (.ask (.note d) next) (.ask (.note d₀) next₀)
  | intern {w : World} {make : Interning Ty} {next next₀ : Ty → Infer α} (steady : make.Steady)
      (rest : ∀ t, Similar R w (next t) (next₀ t)) :
      Similar R w (.ask (.intern make) next) (.ask (.intern make) next₀)
  | constant {w : World} {value : Constant} {ctx ctx₀ : Context} {track : Track}
      {next next₀ : Outcome → Infer α} (free : value.isMetaFree = true)
      (same : SameContext w ctx ctx₀)
      (rest : ∀ {v : World}, w.Le v → ∀ {r r₀ : Outcome}, SameOutcome v r r₀ →
        Similar R v (next r) (next₀ r₀)) :
      Similar R w (.ask (.constant value ctx track) next) (.ask (.constant value ctx₀ track) next₀)
  | graphInferrer {w : World} {track : Track} {graph : GraphId} {ctx ctx₀ : Context}
      {next next₀ : Inferrer → Infer α} (same : SameContext w ctx ctx₀)
      (rest : ∀ {v : World}, w.Le v → ∀ {f f₀ : Inferrer}, SameInferrer v f f₀ →
        Similar R v (next f) (next₀ f₀)) :
      Similar R w (.ask (.graphInferrer track graph ctx) next)
        (.ask (.graphInferrer track graph ctx₀) next₀)
  | binds {w : World} {inner inner₀ : Inferrer} {bound bound₀ : List Ref}
      {next next₀ : Inferrer → Infer α} (same : SameInferrer w inner inner₀)
      (passed : List.Forall₂ (SameRef w) bound bound₀)
      (rest : ∀ {v : World}, w.Le v → ∀ {f f₀ : Inferrer}, SameInferrer v f f₀ →
        Similar R v (next f) (next₀ f₀)) :
      Similar R w (.ask (.bind inner bound) next) (.ask (.bind inner₀ bound₀) next₀)
  | scalarShape {w : World} {next next₀ : Inferrer → Infer α}
      (rest : ∀ {v : World}, w.Le v → ∀ {f f₀ : Inferrer}, SameInferrer v f f₀ →
        Similar R v (next f) (next₀ f₀)) :
      Similar R w (.ask .scalarShape next) (.ask .scalarShape next₀)
  | anything {w : World} {next next₀ : Inferrer → Infer α}
      (rest : ∀ {v : World}, w.Le v → ∀ {f f₀ : Inferrer}, SameInferrer v f f₀ →
        Similar R v (next f) (next₀ f₀)) :
      Similar R w (.ask .anything next) (.ask .anything next₀)
  /-- A context that cannot be entered ends the computation. -/
  | specialize {w : World} {graph : GraphId} {parent parent₀ : Context} {args args₀ : List ArgProps}
      {next next₀ : Except InferError Unit → Infer α} (outside : SameContext w parent parent₀)
      (same : List.Forall₂ (SameArgs w) args args₀) (refused : ∀ e, next (.error e) = .fail e)
      (rest : ∀ {v : World}, w.Le v →
        SameContext v (.frame parent graph args) (.frame parent₀ graph args₀) →
        Similar R v (next (.ok ())) (next₀ (.ok ()))) :
      Similar R w (.ask (.specialize graph (.frame parent graph args)) next)
        (.ask (.specialize graph (.frame parent₀ graph args₀)) next₀)
  | locate {w : World} {node : NodeId} {ctx ctx₀ : Context} {next next₀ : NodeRef → Infer α}
      (same : SameContext w ctx ctx₀)
      (rest : ∀ {v : World}, w.Le v → ∀ {r r₀ : NodeRef}, SameNode v r r₀ →
        Similar R v (next r) (next₀ r₀)) :
      Similar R w (.ask (.locate node ctx) next) (.ask (.locate node ctx₀) next₀)
  | node {w : World} {id : NodeId} {next next₀ : Node → Infer α}
      (rest : ∀ n : Node, (∀ c, n.kind = .constant c → c.isMetaFree = true) →
        Similar R w (next n) (next₀ n)) :
      Similar R w (.ask (.node id) next) (.ask (.node id) next₀)
  | graph {w : World} {id : GraphId} {next next₀ : Graph → Infer α}
      (rest : ∀ g : Graph, Similar R w (next g) (next₀ g)) :
      Similar R w (.ask (.graph id) next) (.ask (.graph id) next₀)
  | demand {w : World} {key key₀ : Entry} {next next₀ : Property → Infer α}
      (same : SameEntry w key key₀)
      (rest : ∀ {v : World}, w.Le v → ∀ {p p₀ : Property}, SameProperty v p p₀ →
        Similar R v (next p) (next₀ p₀)) :
      Similar R w (.demand key next) (.demand key₀ next₀)
  | call {w : World} {f f₀ : Inferrer} {args args₀ : List Ref} {next next₀ : Property → Infer α}
      (same : SameInferrer w f f₀) (passed : List.Forall₂ (SameRef w) args args₀)
      (rest : ∀ {v : World}, w.Le v → ∀ {p p₀ : Property}, SameProperty v p p₀ →
        Similar R v (next p) (next₀ p₀)) :
      Similar R w (.call f args next) (.call f₀ args₀ next₀)
  | unify {w : World} (track : Track) (use : BranchUse) (first second : Ref)
      (next : Property → Infer α) (b : Infer α) :
      Similar R w (.unify track use first second next) b

namespace Similar

variable {α β : Type} {R : World → α → α → Prop} {S : World → β → β → Prop} {w : World}

/-- What is similar stays so. -/
theorem mono (later : ∀ {v w : World} {a a₀ : α}, R w a a₀ → w.Le v → R v a a₀) {v : World}
    {b b₀ : Infer α} (h : Similar R w b b₀) (le : w.Le v) : Similar R v b b₀ := by
  induction h generalizing v with
  | done same => exact .done (later same le)
  | fail e => exact .fail e
  | describe same _ ih => exact .describe (same.mono le) fun text => ih text le
  | note _ ih => exact .note (ih le)
  | intern steady _ ih => exact .intern steady fun t => ih t le
  | constant free same rest =>
    exact .constant free (same.mono le) fun le' _ _ hr => rest (le.trans le') hr
  | graphInferrer same rest =>
    exact .graphInferrer (same.mono le) fun le' _ _ hf => rest (le.trans le') hf
  | binds same args rest =>
    exact .binds (same.mono le) (sameRefs_mono args le) fun le' _ _ hf => rest (le.trans le') hf
  | scalarShape rest => exact .scalarShape fun le' _ _ hf => rest (le.trans le') hf
  | anything rest => exact .anything fun le' _ _ hf => rest (le.trans le') hf
  | specialize outside same refused rest =>
    exact .specialize (outside.mono le) (same.imp fun _ _ ha => ha.mono le) refused
      fun le' entered => rest (le.trans le') entered
  | locate same rest => exact .locate (same.mono le) fun le' _ _ hr => rest (le.trans le') hr
  | node _ ih => exact .node fun n hn => ih n hn le
  | graph _ ih => exact .graph fun g => ih g le
  | demand same rest => exact .demand (same.mono le) fun le' _ _ hp => rest (le.trans le') hp
  | call same args rest =>
    exact .call (same.mono le) (sameRefs_mono args le) fun le' _ _ hp => rest (le.trans le') hp
  | unify track use first second next b => exact .unify track use first second next b

/-- Similar computations, one after the other. -/
theorem seq {b b₀ : Infer α} {f f₀ : α → Infer β} (h : Similar R w b b₀)
    (h' : ∀ {v : World}, w.Le v → ∀ {a a₀ : α}, R v a a₀ → Similar S v (f a) (f₀ a₀)) :
    Similar S w (b >>= f) (b₀ >>= f₀) := by
  show Similar S w (b.bind f) (b₀.bind f₀)
  induction h with
  | done same => exact h' (.refl _) same
  | fail e => exact .fail e
  | describe same _ ih => exact .describe same fun text => ih text h'
  | note _ ih => exact .note (ih h')
  | intern steady _ ih => exact .intern steady fun t => ih t h'
  | constant free same _ ih =>
    exact .constant free same fun le _ _ hr => ih le hr fun le' => h' (le.trans le')
  | graphInferrer same _ ih =>
    exact .graphInferrer same fun le _ _ hf => ih le hf fun le' => h' (le.trans le')
  | binds same args _ ih =>
    exact .binds same args fun le _ _ hf => ih le hf fun le' => h' (le.trans le')
  | scalarShape _ ih => exact .scalarShape fun le _ _ hf => ih le hf fun le' => h' (le.trans le')
  | anything _ ih => exact .anything fun le _ _ hf => ih le hf fun le' => h' (le.trans le')
  | specialize outside same refused _ ih =>
    refine .specialize outside same (fun e => ?_) fun le entered => ih le entered fun le' =>
      h' (le.trans le')
    rw [refused]
    rfl
  | locate same _ ih =>
    exact .locate same fun le _ _ hr => ih le hr fun le' => h' (le.trans le')
  | node _ ih => exact .node fun n hn => ih n hn h'
  | graph _ ih => exact .graph fun g => ih g h'
  | demand same _ ih => exact .demand same fun le _ _ hp => ih le hp fun le' => h' (le.trans le')
  | call same args _ ih =>
    exact .call same args fun le _ _ hp => ih le hp fun le' => h' (le.trans le')
  | unify track use first second next b => exact .unify track use first second _ _

end Similar

end ArrayInference
