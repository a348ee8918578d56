import ArrayInference.Config.Basic
import ArrayInference.Constant.Classify
import ArrayInference.Engine.Memo
import ArrayInference.Program.Generate
import ArrayInference.Rules.Shape
import ArrayInference.Rules.Type
import ArrayInference.Rules.Value

/-!
# The engine

What an engine keeps between runs: the program, the types, the rules, the results, the inferrers it
has made, the graphs that were generated, and the contexts in which each graph was inferred.
-/

namespace ArrayInference

/-- What an inferrer is kept under: a constant that can be called, in a context, on a track. -/
structure InferrerKey where
  track : Track
  callee : Constant
  ctx : Context
deriving DecidableEq

/-- What a generated graph is kept under. -/
structure GeneratedKey where
  generator : MetaGraph
  types : List Ty
deriving DecidableEq

/-- The rules of the three tracks. -/
structure Registries where
  value : Registry
  type : Registry
  shape : Registry

namespace Registries

/-- The built-in rules. -/
def builtin : Registries :=
  { value := ValueRules.registry, type := TypeRules.registry, shape := ShapeRules.registry }

def get (r : Registries) : Track → Registry
  | .value => r.value
  | .type => r.type
  | .shape => r.shape

def set (r : Registries) (track : Track) (registry : Registry) : Registries :=
  match track with
  | .value => { r with value := registry }
  | .type => { r with type := registry }
  | .shape => { r with shape := registry }

end Registries

/-- An engine between two questions. -/
structure Engine where
  program : Program
  types : TypeCache
  config : Config
  rules : Registries
  memo : Memo
  readers : Readers
  /-- What each inferrer stands for, by its identity. -/
  callables : Array Callable
  inferrers : Table InferrerKey Inferrer
  generated : Table GeneratedKey GraphId
  specializations : Table GraphId (List Context)
  diagnostics : Diagnostics

namespace Engine

/-- The inferrer of every operator without a value rule. -/
def anything : Inferrer :=
  { id := 0, form := .anything }

/-- The inferrer of every operator without a shape rule. -/
def scalarShape : Inferrer :=
  { id := 1, form := .scalarShape }

/-- An engine for a program that has been asked nothing yet. -/
def new (program : Program) (types : TypeCache) (config : Config) : Engine :=
  { program, types, config
    rules := .builtin
    memo := []
    readers := []
    callables := #[.anything, .scalarShape]
    inferrers := []
    generated := []
    specializations := []
    diagnostics := .empty config.diagnostics }

/-- What an inferrer stands for. -/
def callable? (e : Engine) (f : Inferrer) : Option Callable :=
  e.callables[f.id]?

/-- In how many contexts a graph was inferred. -/
def specializationCount (e : Engine) (graph : GraphId) : Nat :=
  ((e.specializations.find? graph).getD []).length

/-- How messages name a reference. -/
def describe (e : Engine) : Ref → String
  | .node r => e.program.label r.node
  | .virtual _ => "<argument>"
  | .element container => "element of " ++ e.describe container

/-- A node in the part of a context that it can see. Applications and parameters see the frames from
that of their graph outwards; a graph sees the frames from that of its parent outwards; other
constants see none. -/
def locate (e : Engine) (node : NodeId) (ctx : Context) : NodeRef :=
  let n := e.program.node node
  let visible := match n.kind with
    | .constant (.graph g) => ctx.filter (e.program.graph g).parent
    | .constant _ => .empty
    | .parameter .. | .apply _ => ctx.filter n.owner
  { node, ctx := visible }

end Engine

/-- A computation that works on an engine. -/
abbrev EngineM := StateM Engine

namespace EngineM

/-- A new inferrer. -/
def newInferrer (c : Callable) : EngineM Inferrer :=
  modifyGet fun e =>
    ({ id := e.callables.size, form := c.form }, { e with callables := e.callables.push c })

/-- Makes types in the cache of the engine. -/
def interning {α : Type} (make : Interning α) : EngineM α :=
  modifyGet fun e =>
    let (a, types) := make.run e.types
    (a, { e with types })

/-- Keeps a note. -/
def note (d : Diagnostic) : EngineM Unit :=
  modify fun e => { e with diagnostics := e.diagnostics.emit d }

/-- The inferrer that is kept under a key, or else a new one that is kept from now on. -/
def cached (key : InferrerKey) (make : ExceptT InferError EngineM Inferrer) :
    ExceptT InferError EngineM Inferrer := do
  match (← get).inferrers.find? key with
  | some f => return f
  | none => do
      let f ← make
      modify fun e => { e with inferrers := e.inferrers.insert key f }
      return f

/-- What a track does with an operator that has no rule: its value is unknown, its shape is that of
a scalar, and its type is an error. -/
def fallback (track : Track) (operator : Primitive) : Except InferError Inferrer :=
  match track with
  | .value => .ok Engine.anything
  | .type =>
      .error (.inference ("no type rule registered for primitive " ++ operator.name))
  | .shape => .ok Engine.scalarShape

/-- The inferrer of an operator. -/
def primitiveInferrer (operator : Primitive) (track : Track) :
    ExceptT InferError EngineM Inferrer :=
  cached { track, callee := .primitive operator, ctx := .empty } do
    match ((← get).rules.get track).get? operator with
    | some (arity, rule) => newInferrer (.primitive track operator arity rule)
    | none => do
        let f ← ExceptT.mk (pure (fallback track operator))
        note { reason := .fallback operator.name track, subject := none }
        return f

/-- The inferrer of a graph that stands in a context. -/
def graphInferrer (track : Track) (graph : GraphId) (ctx : Context) : EngineM Inferrer := do
  let key : InferrerKey := { track, callee := .graph graph, ctx }
  match (← get).inferrers.find? key with
  | some f => return f
  | none => do
      let f ← newInferrer (.graph track graph ctx)
      modify fun e => { e with inferrers := e.inferrers.insert key f }
      return f

/-- The property of a constant that cannot be called. -/
def dataProperty (track : Track) (value : Constant) : ExceptT InferError EngineM Property :=
  match track with
  | .value => return .value (.known value)
  | .type => do
      match ← ExceptT.lift (interning (Interning.typeOfConstant value).run) with
      | .ok t => return .type t
      | .error e => throw (.ofTypeError e)
  | .shape => do
      let s ← ExceptT.mk (pure (Shape.ofConstant value))
      return .shape s

/-- The inferrer of a record class: that of `make_record` with the class bound as its first
argument. -/
def classInferrer (c : RecordClass) (track : Track) : ExceptT InferError EngineM Inferrer :=
  cached { track, callee := .recordType c, ctx := .empty } do
    let make ← primitiveInferrer .makeRecord track
    let declared ← ExceptT.lift (interning (Interning.declaredType c))
    let type ← ExceptT.lift (interning (Interning.generic .type))
    newInferrer (.bound make [.constant (.type declared) type])

/-- The property of a constant. What can be called has an inferrer on every track. -/
def constantProperty (value : Constant) (ctx : Context) (track : Track) :
    ExceptT InferError EngineM Property :=
  match value with
  | .primitive operator => return .inferrer (← primitiveInferrer operator track)
  | .graph g => return .inferrer (← graphInferrer track g ctx)
  | .metaGraph m => do
      let key : InferrerKey := { track, callee := .metaGraph m, ctx := .empty }
      return .inferrer (← cached key (newInferrer (.metaGraph track m)))
  | .recordType c => return .inferrer (← classInferrer c track)
  | data => dataProperty track data

/-- The graph that a generator makes for some argument types. Each is made once. -/
def generate (generator : MetaGraph) (types : List Ty) : ExceptT InferError EngineM GraphId := do
  let e ← get
  let key : GeneratedKey := { generator, types }
  match e.generated.find? key with
  | some g => return g
  | none =>
    match generator.generate e.program types with
    | .error error => throw (.inference error.message)
    | .ok (g, program) => do
        set { e with program, generated := e.generated.insert key g }
        return g

/-- Enters a context among those in which a graph is inferred. A context beyond the limit is entered
as well, but the call that brings it in fails. -/
def specialize (graph : GraphId) (ctx : Context) : ExceptT InferError EngineM Unit := do
  let e ← get
  let known := (e.specializations.find? graph).getD []
  if ctx ∈ known then return ()
  else do
    let name := (e.program.graph graph).name
    let count := known.length + 1
    set { e with specializations := e.specializations.insert graph (known ++ [ctx]) }
    if e.config.maxSpecializations < count then
      throw (.inference
        ("graph '" ++ name ++ "' exceeded " ++ toString e.config.maxSpecializations
          ++ " specializations"))
    else note { reason := .specialized name count, subject := none }

/-- The answer to a question. -/
def answer : (q : Query) → EngineM q.Answer
  | .describe subject => return (← get).describe subject
  | .note d => note d
  | .intern make => interning make
  | .constant value ctx track => (constantProperty value ctx track).run
  | .graphInferrer track graph ctx => graphInferrer track graph ctx
  | .bind inner bound => newInferrer (.bound inner bound)
  | .scalarShape => newInferrer .scalarShape
  | .anything => newInferrer .anything
  | .generate generator types => (generate generator types).run
  | .specialize graph ctx => (specialize graph ctx).run
  | .locate node ctx => return (← get).locate node ctx
  | .node id => return (← get).program.node id
  | .graph id => return (← get).program.graph id

end EngineM

end ArrayInference
