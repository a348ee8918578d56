import ArrayInference.Infer.Basic

/-!
# Asking for properties

What rules ask, each question as one computation. A property of a node is computed once and kept; a
property given from outside is there already, and one left out falls back to the default of its
track; a property of an element follows from that of its container.
-/

namespace ArrayInference

namespace Infer

/-- How messages name a reference. -/
def describe (subject : Ref) : Infer String :=
  ask (.describe subject) done

/-- Keeps a note, with the label of a node if one is given. -/
def note (reason : Diagnostic.Reason) (subject : Option String) : Infer Unit :=
  ask (.note { reason, subject }) done

/-- Makes a type. -/
def intern (make : Interning Ty) : Infer Ty :=
  ask (.intern make) done

/-- The property of a constant that stands in no context. -/
def constant (value : Constant) (track : Track) : Infer Property :=
  ask (.constant value .empty track) ofExcept

/-- The inferrer of a graph that stands in a context. -/
def graphInferrer (track : Track) (graph : GraphId) (ctx : Context) : Infer Inferrer :=
  ask (.graphInferrer track graph ctx) done

/-- A new inferrer that binds leading arguments of another one. -/
def bindArguments (inner : Inferrer) (bound : List Ref) : Infer Property :=
  ask (.bind inner bound) fun f => done (.inferrer f)

/-- The property of a call. -/
def callInferrer (callee : Inferrer) (args : List Ref) : Infer Property :=
  call callee args done

/-- The property of a call of a constant that stands in a context. -/
def callConstant (value : Constant) (ctx : Context) (args : List Ref) (track : Track) :
    Infer Property := do
  let p ← ask (.constant value ctx track) ofExcept
  let f ← ofExcept p.toInferrer
  callInferrer f args

/-- The property of a node in a context. -/
def entry (r : NodeRef) (track : Track) : Infer Property :=
  demand { ref := r, track } done

/-- A type property as a type. Something that can be called has the generic function type. -/
def asType : Property → Infer Ty
  | .inferrer _ => intern (.generic .function)
  | p => ofExcept p.toType

/-- There is no type for a reference with this description. -/
def noTypeGiven (description : String) : InferError :=
  .inference ("no type given for " ++ description)

/-- The type property of a reference. -/
def typeProperty : Ref → Infer Property
  | .node r => entry r .type
  | .virtual props =>
    match props.type with
    | some p => done p
    | none => do
        let description ← describe (.virtual props)
        fail (noTypeGiven description)
  | .element container => do
      let p ← typeProperty container
      ofExcept (p.toElement .type)

/-- The type of a reference. -/
def typeOf (subject : Ref) : Infer Ty := do
  asType (← typeProperty subject)

/-- What a track assumes of a reference of which it is told nothing: an unknown value, no type, and
the shape that follows from the type. -/
def default (track : Track) (subject : Ref) : Infer Property :=
  match track with
  | .value => done (.value .anything)
  | .type => do
      let description ← describe subject
      fail (noTypeGiven description)
  | .shape => do
      let t ← typeOf subject
      let s ← ofExcept (Shape.ofType t)
      done (.shape s)

/-- The property of a reference on a track. -/
def get : Ref → Track → Infer Property
  | .node r, track => entry r track
  | .virtual props, track =>
    match props.get? track with
    | some p => done p
    | none => default track (.virtual props)
  | .element container, track => do
      let p ← get container track
      ofExcept (p.toElement track)

/-- The value of a reference. -/
def valueOf (subject : Ref) : Infer Value := do
  let p ← get subject .value
  ofExcept p.toValue

/-- The shape of a reference. Something that can be called has none. -/
def shapeOf (subject : Ref) : Infer Shape := do
  match ← get subject .shape with
  | .inferrer _ => done .noShape
  | p => ofExcept p.toShape

/-- The inferrer of a reference. -/
def inferrerOf (subject : Ref) (track : Track) : Infer Inferrer := do
  let p ← get subject track
  ofExcept p.toInferrer

/-- The known value of a reference; `what` names it in the error if there is none. -/
def constantOf (subject : Ref) (what : String) : Infer Constant := do
  match ← valueOf subject with
  | .known c => done c
  | .anything => fail (.inference (what ++ " must be constant"))

/-- The properties of an argument, in the order of the tracks. -/
def argProps (arg : Ref) : Infer ArgProps := do
  let value ← get arg .value
  let type ← get arg .type
  let shape ← get arg .shape
  done { value, type, shape }

end Infer

end ArrayInference
