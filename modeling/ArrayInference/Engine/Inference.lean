import ArrayInference.Engine.Run

/-!
# What an engine infers

The output of a graph on some arguments, and single nodes in a context.
-/

namespace ArrayInference

/-- The output of a graph on every track. -/
structure GraphInference where
  value : Property
  type : Property
  shape : Property

namespace Engine

/-- One property of the output of a graph called on arguments. There is no result if the run never
ends. -/
def inferTrack? (e : Engine) (graph : GraphId) (args : List ArgSpec) (track : Track) :
    Option (Outcome × Engine) :=
  let (f, e) := (EngineM.graphInferrer track graph .empty).run e
  e.run? (Infer.callInferrer f (args.map ArgSpec.toRef))

/-- One property of the output of a graph called on arguments. -/
def inferTrack (e : Engine) (graph : GraphId) (args : List ArgSpec) (track : Track) :
    Outcome × Engine :=
  (e.inferTrack? graph args track).getD (.error endless, e)

/-- All properties of the output of a graph called on arguments, up to the first one that fails. -/
def inferGraph (e : Engine) (graph : GraphId) (args : List ArgSpec) :
    Except InferError GraphInference × Engine :=
  match e.inferTrack graph args .value with
  | (.error error, e) => (.error error, e)
  | (.ok value, e) =>
    match e.inferTrack graph args .type with
    | (.error error, e) => (.error error, e)
    | (.ok type, e) =>
      match e.inferTrack graph args .shape with
      | (.error error, e) => (.error error, e)
      | (.ok shape, e) => (.ok { value, type, shape }, e)

/-- One property of a node in a context. The node is asked for before the run begins, so only a
property that is known already is found. -/
def inferNode (e : Engine) (node : NodeId) (ctx : Context) (track : Track) : Outcome × Engine :=
  let key : Entry := { ref := e.locate node ctx, track }
  let e := ((Run.start e false).request key).engine
  e.run (Infer.entry key.ref track)

end Engine

end ArrayInference
