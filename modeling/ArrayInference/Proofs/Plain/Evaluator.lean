import ArrayInference.Engine.Run

/-!
# The plain evaluator

What inference means, without memo, promises and tasks. A node is evaluated by evaluating its callee
and calling its inferrer, and whatever a rule asks for is evaluated on the spot. The only thing that
is kept is the stack of the entries that are being evaluated, and an evaluation that comes back to one
of them gives up.

An inferrer is what it stands for: a graph in a context, or another inferrer with what it binds. Each
of these has one number.
-/

namespace ArrayInference

/-- What an inferrer stands for. -/
inductive Identity where
  | scalarShape
  | anything
  | primitive (track : Track) (operator : Primitive)
  | graph (track : Track) (graph : GraphId) (ctx : Context)
  | bound (inner : Inferrer) (args : List Ref)

/-- The form that the texts of an inferrer show. -/
def Identity.form : Identity → InferrerForm
  | scalarShape => .scalarShape
  | anything => .anything
  | primitive track operator => .primitive track operator
  | graph track g _ => .graph track g
  | bound inner args => .bound inner.form args.length

/-- A number for everything that an inferrer can stand for. -/
structure Numbering where
  number : Identity → Nat
  meaning : Nat → Option Identity
  meaning_number : ∀ i, meaning (number i) = some i

/-- The one inferrer that stands for something. -/
def Numbering.inferrer (names : Numbering) (i : Identity) : Inferrer :=
  { id := names.number i, form := i.form }

namespace Program

/-- How messages name a reference. -/
def describe (p : Program) : Ref → String
  | .node r => p.label r.node
  | .virtual _ => "<argument>"
  | .element container => "element of " ++ p.describe container

/-- A node in the part of a context that it can see. -/
def locate (p : Program) (node : NodeId) (ctx : Context) : NodeRef :=
  let n := p.node node
  let visible := match n.kind with
    | .constant (.graph g) => ctx.filter (p.graph g).parent
    | .constant _ => .empty
    | .parameter .. | .apply _ => ctx.filter n.owner
  { node, ctx := visible }

end Program

/-- What a plain evaluation works with. -/
structure Plain where
  program : Program
  rules : Registries
  types : TypeCache
  names : Numbering

/-- How a plain evaluation ends. -/
inductive Verdict where
  | found (r : Outcome)
  /-- It has come to an entry that is being evaluated already. -/
  | reentered

namespace Plain

/-- The inferrer of an operator. -/
def primitive (P : Plain) (track : Track) (operator : Primitive) : Except InferError Inferrer :=
  match (P.rules.get track).get? operator, track with
  | some _, track => .ok (P.names.inferrer (.primitive track operator))
  | none, .value => .ok (P.names.inferrer .anything)
  | none, .type => .error (.inference ("no type rule registered for primitive " ++ operator.name))
  | none, .shape => .ok (P.names.inferrer .scalarShape)

/-- The property of a constant that cannot be called. -/
def data (P : Plain) (track : Track) (value : Constant) : Outcome :=
  match track with
  | .value => .ok (.value (.known value))
  | .type =>
    match ((Interning.typeOfConstant value).run.run P.types).1 with
    | .ok t => .ok (.type t)
    | .error e => .error (.ofTypeError e)
  | .shape => (Shape.ofConstant value).map .shape

/-- The inferrer of a record class. -/
def recordClass (P : Plain) (track : Track) (c : RecordClass) : Except InferError Inferrer :=
  (P.primitive track .makeRecord).map fun make =>
    let declared := ((Interning.declaredType c).run P.types).1
    let type := ((Interning.generic .type).run P.types).1
    P.names.inferrer (.bound make [.constant (.type declared) type])

/-- The property of a constant. Graph generators are left out. -/
def constant? (P : Plain) (value : Constant) (ctx : Context) (track : Track) : Option Outcome :=
  match value with
  | .primitive operator => some ((P.primitive track operator).map .inferrer)
  | .graph g => some (.ok (.inferrer (P.names.inferrer (.graph track g ctx))))
  | .metaGraph _ => none
  | .recordType c => some ((P.recordClass track c).map .inferrer)
  | value => some (P.data track value)

/-- The answer to a question. Graph generators are left out. -/
def answer? (P : Plain) : (q : Query) → Option q.Answer
  | .describe subject => some (P.program.describe subject)
  | .note _ => some ()
  | .intern make => some (make.run P.types).1
  | .constant value ctx track => P.constant? value ctx track
  | .graphInferrer track graph ctx => some (P.names.inferrer (.graph track graph ctx))
  | .bind inner bound => some (P.names.inferrer (.bound inner bound))
  | .scalarShape => some (P.names.inferrer .scalarShape)
  | .anything => some (P.names.inferrer .anything)
  | .generate .. => none
  | .specialize .. => some (.ok ())
  | .locate node ctx => some (P.program.locate node ctx)
  | .node id => some (P.program.node id)
  | .graph id => some (P.program.graph id)

/-- What a call of something does. -/
def callable (P : Plain) : Identity → Option Callable
  | .scalarShape => some .scalarShape
  | .anything => some .anything
  | .primitive track operator =>
      ((P.rules.get track).get? operator).map fun (arity, rule) =>
        .primitive track operator arity rule
  | .graph track graph ctx => some (.graph track graph ctx)
  | .bound inner args => some (.bound inner args)

/-- What a call of an inferrer does. -/
def callable? (P : Plain) (f : Inferrer) : Option Callable :=
  (P.names.meaning f.id).bind P.callable

/-- The computation of an entry. -/
def body (key : Entry) : Infer Property :=
  key.ref.infer key.track

/-- Evaluates a computation. Nothing is found if that never ends, or if the computation comes to a
conditional over an unknown condition. -/
def evaluate (P : Plain) (stack : List Entry) : Infer Property → Option Verdict
  | .done p => some (.found (.ok p))
  | .fail e => some (.found (.error e))
  | .ask query next =>
    match P.answer? query with
    | some a => by apply evaluate; exact P; exact stack; exact next a
    | none => none
  | .demand key next =>
    if key ∈ stack then some .reentered
    else do
      match ← show Option Verdict by apply evaluate; exact P; exact key :: stack; exact body key with
      | .reentered => some .reentered
      | .found r =>
        match Run.attributed key.ref.node r with
        | .ok p => by apply evaluate; exact P; exact stack; exact next p
        | .error e => some (.found (.error e))
  | .call callee args next =>
    match P.callable? callee with
    | some c => by apply evaluate; exact P; exact stack; exact (c.body args).bind next
    | none => some (.found (.error (.inference (callee.text ++ " is not callable"))))
  | .unify .. | .forever => none
partial_fixpoint

/-- The computation of a call of a graph. -/
def root (P : Plain) (graph : GraphId) (args : List ArgSpec) (track : Track) : Infer Property :=
  Infer.callInferrer (P.names.inferrer (.graph track graph .empty)) (args.map ArgSpec.toRef)

/-- One property of the output of a graph called on arguments. -/
def inferTrack (P : Plain) (graph : GraphId) (args : List ArgSpec) (track : Track) :
    Option Verdict :=
  P.evaluate [] (P.root graph args track)

end Plain

end ArrayInference
