import ArrayInference.Diagnostics
import ArrayInference.Program.Basic
import ArrayInference.Reference
import ArrayInference.Type.Cache

/-!
# Inference as a computation

A rule computes one property of a call. It may look at the program and at any property of any
reference, and it may not know how these properties are found. So a rule is a tree: a leaf is its
result or its failure, and every other node is a question with one subtree for each answer.

Questions of the first kind have an answer at once (`ask`). The others wait for a property: that of
an entry (`demand`), of a call (`call`), or of two branches of which it is not known which one is
taken (`unify`).
-/

namespace ArrayInference

/-- A question that is answered at once. -/
inductive Query where
  /-- How messages name a reference. -/
  | describe (subject : Ref)
  /-- Keeps a note. -/
  | note (diagnostic : Diagnostic)
  /-- Makes a type in the type cache. -/
  | intern (make : Interning Ty)
  /-- The property of a constant. -/
  | constant (value : Constant) (ctx : Context) (track : Track)
  /-- The inferrer of a graph that stands in a context. -/
  | graphInferrer (track : Track) (graph : GraphId) (ctx : Context)
  /-- A new inferrer that binds leading arguments of another one. -/
  | bind (inner : Inferrer) (bound : List Ref)
  /-- A new inferrer for the shape of scalars. -/
  | scalarShape
  /-- A new inferrer for values that are not folded. -/
  | anything
  /-- The graph that a generator makes for some argument types. -/
  | generate (generator : MetaGraph) (types : List Ty)
  /-- Enters a context among those in which a graph is inferred. -/
  | specialize (graph : GraphId) (ctx : Context)
  /-- A node, in the part of a context that it can see. -/
  | locate (node : NodeId) (ctx : Context)
  | node (id : NodeId)
  | graph (id : GraphId)

/-- What a question is answered with. -/
def Query.Answer : Query → Type
  | describe _ => String
  | note _ => Unit
  | intern _ => Ty
  | constant .. => Outcome
  | graphInferrer .. => Inferrer
  | bind .. => Inferrer
  | scalarShape => Inferrer
  | anything => Inferrer
  | generate .. => Except InferError GraphId
  | specialize .. => Except InferError Unit
  | locate .. => NodeRef
  | node _ => Node
  | graph _ => Graph

/-- How a conditional uses its branches. -/
inductive BranchUse where
  /-- A branch is a graph, called without arguments. -/
  | call
  /-- A branch is the value itself. -/
  | select
deriving DecidableEq, Repr

/-- A computation of an `α` that may ask and may fail. -/
inductive Infer (α : Type) where
  | done (value : α)
  | fail (error : InferError)
  | ask (query : Query) (next : query.Answer → Infer α)
  | demand (entry : Entry) (next : Property → Infer α)
  | call (callee : Inferrer) (args : List Ref) (next : Property → Infer α)
  | unify (track : Track) (use : BranchUse) (first second : Ref) (next : Property → Infer α)
  /-- Waits for something that never comes. -/
  | forever

namespace Infer

variable {α β : Type}

/-- Goes on with a second computation. -/
def bind : Infer α → (α → Infer β) → Infer β
  | done a, f => f a
  | fail e, _ => fail e
  | ask q next, f => ask q fun answer => (next answer).bind f
  | demand entry next, f => demand entry fun p => (next p).bind f
  | call callee args next, f => call callee args fun p => (next p).bind f
  | unify track use first second next, f => unify track use first second fun p => (next p).bind f
  | forever, _ => forever

instance : Monad Infer where
  pure := done
  bind := bind

/-- A result that is there already. -/
def ofExcept : Except InferError α → Infer α
  | .ok a => done a
  | .error e => fail e

end Infer

/-- A rule: one property of a call of an operator, from the track and the arguments. -/
abbrev Rule := Track → List Ref → Infer Property

end ArrayInference
