import ArrayInference.Constant.Text
import ArrayInference.Shape.Lattice

/-!
# Properties

What a track knows about a node. A node that can be called has an inferrer on every track; any other
node has the track's own kind of knowledge: a value, a type or a shape.
-/

namespace ArrayInference

/-- What is known of a value: which constant it is, or nothing. -/
inductive Value where
  | known (constant : Constant)
  | anything
deriving DecidableEq

namespace Value

def known? : Value → Option Constant
  | known c => some c
  | anything => none

def text : Value → String
  | known c => c.text
  | anything => "ANYTHING"

end Value

/-- How an inferrer comes about. -/
inductive InferrerForm where
  /-- The shape of every operator with scalar results. -/
  | scalarShape
  /-- The value of every operator that is not folded. -/
  | anything
  /-- A registered rule. -/
  | primitive (track : Track) (operator : Primitive)
  /-- A graph. -/
  | graph (track : Track) (graph : GraphId)
  /-- A graph generator. -/
  | metaGraph (track : Track) (name : String)
  /-- Another inferrer with this many leading arguments bound. -/
  | bound (inner : InferrerForm) (count : Nat)
deriving DecidableEq, Repr

namespace InferrerForm

/-- The name of the form's kind. -/
def kind : InferrerForm → String
  | scalarShape => "ScalarShape"
  | anything => "Anything"
  | primitive .. => "Primitive"
  | graph .. => "Graph"
  | metaGraph .. => "MetaGraph"
  | bound .. => "Partial"

def name : InferrerForm → String
  | scalarShape => "scalar_shape"
  | anything => "anything"
  | primitive track operator => track.name ++ " " ++ operator.name
  | graph track g => track.name ++ " graph " ++ g.text
  | metaGraph track name => track.name ++ " meta " ++ name
  | bound inner count => "partial " ++ inner.name ++ "/" ++ toString count

end InferrerForm

/-- The property of something that can be called: its identity, and the form that its texts show. The
engine knows what a call of it does. -/
structure Inferrer where
  id : Nat
  form : InferrerForm
deriving DecidableEq, Repr

namespace Inferrer

def text (f : Inferrer) : String :=
  "<" ++ f.form.name ++ ">"

/-- The inferrer as a record of its name. -/
def summary (f : Inferrer) : String :=
  "InferrerRef(" ++ f.form.name ++ ")"

/-- Whether two inferrers certainly give the same results: they are one, or both are of the same
stateless form. -/
def provablyEquivalent (f g : Inferrer) : Bool :=
  f = g ||
    match f.form, g.form with
    | .scalarShape, .scalarShape => true
    | .anything, .anything => true
    | _, _ => false

end Inferrer

/-- What a track knows about a node. -/
inductive Property where
  | value (v : Value)
  | type (t : Ty)
  | shape (s : Shape)
  | inferrer (f : Inferrer)
deriving DecidableEq

/-- A property, or why there is none. -/
abbrev Outcome := Except InferError Property

namespace Property

def text : Property → String
  | value v => v.text
  | type t => t.text
  | shape s => s.text
  | inferrer f => f.text

/-- The value of a node. Something that can be called has no value to fold. -/
def toValue : Property → Except InferError Value
  | value v => .ok v
  | inferrer _ => .ok .anything
  | p => .error (.inference ("expected a value, got " ++ p.text))

def toType : Property → Except InferError Ty
  | type t => .ok t
  | p => .error (.inference ("expected a type, got " ++ p.text))

def toShape : Property → Except InferError Shape
  | shape s => .ok s
  | p => .error (.inference ("expected a shape, got " ++ p.text))

def toInferrer : Property → Except InferError Inferrer
  | inferrer f => .ok f
  | p => .error (.inference (p.text ++ " is not callable"))

/-- The track of a property. An inferrer belongs to all of them. -/
def track? : Property → Option Track
  | value _ => some .value
  | type _ => some .type
  | shape _ => some .shape
  | inferrer _ => none

/-- The property of one element of a container. Nothing is known of an element's value. -/
def toElement (track : Track) (container : Property) : Outcome :=
  match track with
  | .value => .ok (.value .anything)
  | .type => do
      let t ← container.toType
      match t.element? with
      | some e => .ok (.type e)
      | none => .error (.inference (t.text ++ " has no elements"))
  | .shape => do
      let s ← container.toShape
      return .shape (← s.toElement)

/-- Two properties that describe different things. -/
def mismatch (track : Track) (first second : Property) : InferError :=
  .inference ("cannot merge " ++ track.name ++ " " ++ first.text ++ " with " ++ second.text)

/-- The property that two branches agree on. -/
def merge (track : Track) (first second : Property) : Outcome :=
  match track, first, second with
  | .value, p, q => if p = q then .ok p else .error (mismatch .value p q)
  | .type, .type s, .type t =>
      if s = t then .ok (.type s) else .error (mismatch .type (.type s) (.type t))
  | .shape, .shape s, .shape t => do return .shape (← s.merge t)
  | track, p, q => .error (mismatch track p q)

end Property

end ArrayInference
