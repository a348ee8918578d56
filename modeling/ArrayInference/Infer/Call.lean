import ArrayInference.Infer.Access

/-!
# Calls

What a call of an inferrer does. A rule checks the number of its arguments first. A graph is
inferred in a new frame that holds the properties of the arguments. A graph generator makes a graph
for the types of the arguments, which is then called like any other.
-/

namespace ArrayInference

/-- How many arguments an operator takes. -/
inductive Arity where
  | exactly (count : Nat)
  | atLeast (count : Nat)
deriving DecidableEq, Repr

namespace Arity

def accepts : Arity → Nat → Bool
  | exactly n, count => count = n
  | atLeast n, count => n ≤ count

def text : Arity → String
  | exactly n => toString n
  | atLeast n => "at least " ++ toString n

end Arity

/-- What an inferrer stands for. -/
inductive Callable where
  | scalarShape
  | anything
  | primitive (track : Track) (operator : Primitive) (arity : Arity) (rule : Rule)
  /-- A graph that stands in a context. -/
  | graph (track : Track) (graph : GraphId) (ctx : Context)
  | metaGraph (track : Track) (generator : MetaGraph)
  /-- Another inferrer with leading arguments. -/
  | bound (inner : Inferrer) (args : List Ref)

namespace Callable

/-- The form that the texts of an inferrer show. -/
def form : Callable → InferrerForm
  | scalarShape => .scalarShape
  | anything => .anything
  | primitive track operator _ _ => .primitive track operator
  | graph track g _ => .graph track g
  | metaGraph track m => .metaGraph track m.name
  | bound inner args => .bound inner.form args.length

/-- The property of a call of a graph. -/
def callGraph (track : Track) (id : GraphId) (ctx : Context) (args : List Ref) :
    Infer Property := do
  let g ← Infer.ask (.graph id) .done
  if args.length ≠ g.parameters.length then
    .fail (.inference
      ("graph '" ++ g.name ++ "' expects " ++ toString g.parameters.length ++ " arguments, got "
        ++ toString args.length))
  else
    let props ← args.mapM Infer.argProps
    let inner := ctx.extend id props
    Infer.ask (.specialize id inner) Infer.ofExcept
    match g.output with
    | none => .fail (.inference ("graph '" ++ g.name ++ "' has no output"))
    | some output =>
        let r ← Infer.ask (.locate output inner) .done
        Infer.entry r track

/-- The property of a call of a graph generator. -/
def callGenerator (track : Track) (generator : MetaGraph) (args : List Ref) : Infer Property := do
  let types ← args.mapM Infer.typeOf
  let g ← Infer.ask (.generate generator types) Infer.ofExcept
  let f ← Infer.graphInferrer track g .empty
  Infer.callInferrer f args

/-- The property of a call. -/
def body : Callable → List Ref → Infer Property
  | scalarShape, _ => .done (.shape .noShape)
  | anything, _ => .done (.value .anything)
  | primitive track operator arity rule, args =>
      if arity.accepts args.length then rule track args
      else
        .fail (.inference
          (operator.name ++ " expects " ++ arity.text ++ " arguments, got "
            ++ toString args.length))
  | graph track id ctx, args => callGraph track id ctx args
  | metaGraph track generator, args => callGenerator track generator args
  | bound inner first, args => Infer.callInferrer inner (first ++ args)

end Callable

/-- The property of a node: a constant's own property, a parameter's from the context, an
application's from a call of its callee. -/
def NodeRef.infer (r : NodeRef) (track : Track) : Infer Property := do
  let n ← Infer.ask (.node r.node) .done
  match n.kind with
  | .constant value => Infer.ask (.constant value r.ctx track) Infer.ofExcept
  | .parameter id index =>
    match r.ctx.argument? id index track with
    | some p => .done p
    | none => do
        let g ← Infer.ask (.graph id) .done
        .fail (.inference
          ("parameter " ++ toString index ++ " of '" ++ g.name ++ "' is not bound in "
            ++ r.ctx.text))
  | .apply [] => .fail (.inference "application without a callee")
  | .apply (callee :: args) => do
      let calleeRef ← Infer.ask (.locate callee r.ctx) .done
      let f ← Infer.inferrerOf (.node calleeRef) track
      let argRefs ← args.mapM fun arg => Infer.ask (.locate arg r.ctx) fun a => .done (Ref.node a)
      Infer.callInferrer f argRefs

end ArrayInference
