import ArrayInference.Engine.Run
import ArrayInference.Proofs.Infer.Monad
import ArrayInference.Rules.Shape
import Mathlib.Data.List.Forall2

/-!
# Computations under given answers

A rule does not know how its questions are answered. So what it does is told for all ways of answering
them: under given answers a computation has one result, and keeps certain notes on its way.
-/

namespace ArrayInference

/-- An answer to everything that a computation can ask for. -/
structure Answers where
  query : (query : Query) → query.Answer
  entry : Entry → Outcome
  call : Inferrer → List Ref → Outcome
  unify : Track → BranchUse → Ref → Ref → Outcome

/-- What an engine answers outside a run: only results that are there already, and no calls. -/
def Engine.answers (e : Engine) : Answers where
  query q := ((EngineM.answer q).run e).1
  entry key := ((e.memo.find? key).bind (·.result)).getD (.error Run.notActive)
  call _ _ := .error Run.notActive
  unify _ _ _ _ := .error Run.notActive

/-- What a question makes the engine note. -/
def Query.noted : Query → List Diagnostic
  | note d => [d]
  | _ => []

namespace Infer

variable {α β : Type} {w : Answers}

/-- The result of a computation under given answers. One that waits forever has none. -/
def result? (w : Answers) : Infer α → Option (Except InferError α)
  | done a => some (.ok a)
  | fail e => some (.error e)
  | ask query next => (next (w.query query)).result? w
  | demand key next =>
    match w.entry key with
    | .ok p => (next p).result? w
    | .error e => some (.error e)
  | call callee args next =>
    match w.call callee args with
    | .ok p => (next p).result? w
    | .error e => some (.error e)
  | unify track use first second next =>
    match w.unify track use first second with
    | .ok p => (next p).result? w
    | .error e => some (.error e)
  | forever => none

/-- The notes that a computation keeps under given answers. -/
def notes (w : Answers) : Infer α → List Diagnostic
  | done _ | fail _ | forever => []
  | ask query next => query.noted ++ (next (w.query query)).notes w
  | demand key next =>
    match w.entry key with
    | .ok p => (next p).notes w
    | .error _ => []
  | call callee args next =>
    match w.call callee args with
    | .ok p => (next p).notes w
    | .error _ => []
  | unify track use first second next =>
    match w.unify track use first second with
    | .ok p => (next p).notes w
    | .error _ => []

/-! ## One computation after the other -/

theorem result?_seq (w : Answers) (b : Infer α) (f : α → Infer β) :
    (b >>= f).result? w =
      match b.result? w with
      | some (.ok a) => (f a).result? w
      | some (.error e) => some (.error e)
      | none => none := by
  show (b.bind f).result? w = _
  induction b with
  | done a => rfl
  | fail e => rfl
  | forever => rfl
  | ask query next ih => exact ih _
  | demand _ _ ih | call _ _ _ ih | unify _ _ _ _ _ ih =>
    simp only [bind, result?]
    split
    · exact ih _
    · rfl

theorem notes_seq (w : Answers) (b : Infer α) (f : α → Infer β) :
    (b >>= f).notes w =
      b.notes w ++
        match b.result? w with
        | some (.ok a) => (f a).notes w
        | _ => [] := by
  show (b.bind f).notes w = _
  induction b with
  | done a => rfl
  | fail e => rfl
  | forever => rfl
  | ask query next ih => simp only [bind, notes, result?, List.append_assoc, ih]
  | demand _ _ ih | call _ _ _ ih | unify _ _ _ _ _ ih =>
    simp only [bind, notes, result?]
    split
    · exact ih _
    · rfl

/-- A computation goes on from what a first step has found. -/
theorem result?_of_ok {b : Infer α} {a : α} (h : b.result? w = some (.ok a)) (f : α → Infer β) :
    (b >>= f).result? w = (f a).result? w := by
  rw [result?_seq, h]

@[simp] theorem result?_ofExcept (r : Except InferError α) : (ofExcept r).result? w = some r := by
  cases r <;> rfl

/-- A result that is there already is turned into a property. -/
theorem result?_ofExcept_seq (r : Except InferError α) (f : α → Property) :
    (ofExcept r >>= fun a => done (f a)).result? w = some (r.map f) := by
  cases r <;> rfl

/-! ## Computations that keep no notes -/

/-- Nothing is noted, whatever the answers are. -/
def Silent (b : Infer α) : Prop :=
  ∀ w, b.notes w = []

theorem silent_done (a : α) : (done a).Silent :=
  fun _ => rfl

theorem silent_fail (e : InferError) : (fail e : Infer α).Silent :=
  fun _ => rfl

theorem Silent.seq {b : Infer α} {f : α → Infer β} (h : b.Silent) (h' : ∀ a, (f a).Silent) :
    (b >>= f).Silent := by
  intro w
  rw [notes_seq, h w, List.nil_append]
  split
  · exact h' _ w
  · rfl

/-- What follows a computation that notes nothing keeps its own notes only. -/
theorem Silent.notes_of_ok {b : Infer α} {a : α} (h : b.Silent) (found : b.result? w = some (.ok a))
    (f : α → Infer β) : (b >>= f).notes w = (f a).notes w := by
  rw [notes_seq, h w, found, List.nil_append]

theorem silent_ofExcept (r : Except InferError α) : (ofExcept r).Silent := by
  cases r
  · exact silent_fail _
  · exact silent_done _

theorem silent_describe (x : Ref) : (describe x).Silent :=
  fun _ => rfl

theorem silent_entry (r : NodeRef) (track : Track) : (entry r track).Silent := by
  intro w
  rw [entry, notes]
  split <;> rfl

theorem silent_asType (p : Property) : (asType p).Silent := by
  cases p <;> exact fun _ => rfl

variable (x : Ref)

theorem silent_typeProperty : (typeProperty x).Silent := by
  induction x with
  | node r => exact silent_entry r .type
  | virtual props =>
    rw [typeProperty]
    split
    · exact silent_done _
    · exact (silent_describe _).seq fun _ => silent_fail _
  | element container ih => exact ih.seq fun _ => silent_ofExcept _

theorem silent_typeOf : (typeOf x).Silent :=
  (silent_typeProperty x).seq silent_asType

theorem silent_default (track : Track) : (default track x).Silent := by
  cases track with
  | value => exact silent_done _
  | type => exact (silent_describe x).seq fun _ => silent_fail _
  | shape => exact (silent_typeOf x).seq fun _ => (silent_ofExcept _).seq fun _ => silent_done _

theorem silent_get (track : Track) : (get x track).Silent := by
  induction x with
  | node r => exact silent_entry r track
  | virtual props =>
    rw [get]
    split
    · exact silent_done _
    · exact silent_default _ track
  | element container ih => exact ih.seq fun _ => silent_ofExcept _

theorem silent_valueOf : (valueOf x).Silent :=
  (silent_get x .value).seq fun _ => silent_ofExcept _

theorem silent_shapeOf : (shapeOf x).Silent := by
  refine (silent_get x .shape).seq fun p => ?_
  cases p <;> exact fun _ => rfl

theorem silent_targetDims : (targetDims x).Silent := by
  refine (silent_valueOf x).seq fun v => ?_
  cases v with
  | known c => exact silent_ofExcept _
  | anything =>
    refine (silent_typeOf x).seq fun t => ?_
    cases t.elements? with
    | some es => exact silent_done _
    | none => exact silent_fail _

end Infer

/-! ## What is known of a reference -/

namespace Answers

/-- The value of a reference is a known constant. -/
def Knows (w : Answers) (x : Ref) (c : Constant) : Prop :=
  (Infer.valueOf x).result? w = some (.ok (.known c))

/-- A reference has a shape. -/
def Shapes (w : Answers) (x : Ref) (s : Shape) : Prop :=
  (Infer.shapeOf x).result? w = some (.ok s)

/-- A reference has a type. -/
def Types (w : Answers) (x : Ref) (t : Ty) : Prop :=
  (Infer.typeOf x).result? w = some (.ok t)

/-- An argument that is an array of numbers, of which nothing but its extents is known. -/
def arrayOf (ds : List Dim) : Ref :=
  ArgSpec.toRef { type := .array ⟨0⟩ (.float ⟨0⟩ 64), shape := some (.dims ds), value := none }

theorem shapes_arrayOf (w : Answers) (ds : List Dim) : w.Shapes (arrayOf ds) (.dims ds) :=
  rfl

variable {w : Answers} {x : Ref}

theorem result?_arrayDims {ds : List Dim} (shape : w.Shapes x (.dims ds)) (what : String) :
    (Infer.arrayDims x what).result? w = some (.ok ds) := by
  rw [Infer.arrayDims, Infer.result?_of_ok shape]
  rfl

theorem result?_arraysDims {xs : List Ref} {dss : List (List Dim)}
    (shapes : List.Forall₂ (fun x ds => w.Shapes x (.dims ds)) xs dss) (what : String) :
    (Infer.arraysDims what xs).result? w = some (.ok dss) := by
  induction shapes with
  | nil => rfl
  | cons shape _ ih =>
    rw [Infer.arraysDims, Infer.result?_of_ok (result?_arrayDims shape what),
      Infer.result?_of_ok ih]
    rfl

theorem result?_targetDims {c : Constant} (known : w.Knows x c) :
    (Infer.targetDims x).result? w = some (Dim.listOfConstant c) := by
  rw [Infer.targetDims, Infer.result?_of_ok known]
  exact Infer.result?_ofExcept _

end Answers

end ArrayInference
