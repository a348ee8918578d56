import ArrayInference.Program.Basic

/-!
# Generated graphs

A graph generator adds a graph for the argument types of a call. The graphs it adds are top level
and see no parameters but their own.
-/

namespace ArrayInference

namespace Program

/-- Adds parameters `x0`, `x1` and so on to a graph. -/
def addNumbered (graph : GraphId) (p : Program) (count : Nat) : List NodeId × Program :=
  (List.range count).foldl
    (fun (ids, p) n =>
      let (id, p) := p.addParameter graph ("x" ++ toString n)
      (ids ++ [id], p))
    ([], p)

/-- Adds a top-level graph for a call on `count` arguments, named after its generator. -/
def addGenerated (p : Program) (generator : String) (count : Nat) :
    GraphId × List NodeId × Program :=
  let (graph, p) := p.addGraph (generator ++ toString count) none
  let (params, p) := p.addNumbered graph count
  (graph, params, p)

/-- Adds a left fold of an operator over nodes. -/
def addFold (graph : GraphId) (operator : Primitive) (p : Program) (first : NodeId)
    (rest : List NodeId) : NodeId × Program :=
  rest.foldl (fun (acc, p) x => p.addOperation graph operator [acc, x]) (first, p)

/-- Adds a constant node for each type. -/
def addTypes (p : Program) (types : List Ty) : List NodeId × Program :=
  types.foldl
    (fun (ids, p) t =>
      let (id, p) := p.addConstant (.type t)
      (ids ++ [id], p))
    ([], p)

end Program

namespace MetaGraph

/-- The graph for a call on arguments of these types, with the program that holds it. -/
def generate (m : MetaGraph) (p : Program) (types : List Ty) :
    Except TypeError (GraphId × Program) :=
  match m.recipe with
  | .refuse error => .error error
  | .existing graph => .ok (graph, p)
  | .empty =>
      let (graph, _, p) := p.addGenerated m.name types.length
      .ok (graph, p)
  | .types =>
      let (graph, _, p) := p.addGenerated m.name types.length
      let (ids, p) := p.addTypes types
      let (out, p) := p.addOperation graph .makeTuple ids
      .ok (graph, p.setOutput graph out)
  | .fold operator =>
      match p.addGenerated m.name types.length with
      | (_, [], _) => .error (.generator m.name "needs at least one argument")
      | (graph, first :: rest, p) =>
          let (out, p) := p.addFold graph operator first rest
          .ok (graph, p.setOutput graph out)

end MetaGraph

end ArrayInference
