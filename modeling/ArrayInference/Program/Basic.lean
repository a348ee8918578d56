import ArrayInference.Constant.Text

/-!
# Programs

A program is a collection of nodes and graphs. A node is a constant, a parameter of a graph, or an
application whose first input is what it calls. A graph may stand inside a parent, whose parameters
it then sees.

A number that no node or graph has yet reads as an application without inputs, or as a graph
without a name, parameters and output.
-/

namespace ArrayInference

/-- What a node computes. -/
inductive NodeKind where
  | constant (value : Constant)
  /-- The parameter of a graph at a position. -/
  | parameter (graph : GraphId) (index : Nat)
  /-- A call of the first input on the others. -/
  | apply (inputs : List NodeId)

/-- A node, the graph that owns it, and its name if it has one. Constants have no owner. -/
structure Node where
  kind : NodeKind
  owner : Option GraphId
  name : Option String

/-- A graph. -/
structure Graph where
  name : String
  parent : Option GraphId
  parameters : List NodeId
  output : Option NodeId

/-- The nodes and graphs made so far. -/
structure Program where
  nodes : Array Node
  graphs : Array Graph

namespace Program

def empty : Program :=
  { nodes := #[], graphs := #[] }

def node (p : Program) (id : NodeId) : Node :=
  p.nodes[id.index]?.getD { kind := .apply [], owner := none, name := none }

def graph (p : Program) (id : GraphId) : Graph :=
  p.graphs[id.index]?.getD { name := "", parent := none, parameters := [], output := none }

def nodeCount (p : Program) : Nat :=
  p.nodes.size

def graphCount (p : Program) : Nat :=
  p.graphs.size

/-- Adds a graph without parameters and output. -/
def addGraph (p : Program) (name : String) (parent : Option GraphId) : GraphId × Program :=
  (⟨p.graphs.size⟩,
   { p with graphs := p.graphs.push { name, parent, parameters := [], output := none } })

/-- Adds a node. -/
def addNode (p : Program) (node : Node) : NodeId × Program :=
  (⟨p.nodes.size⟩, { p with nodes := p.nodes.push node })

/-- Changes one graph. -/
def modifyGraph (p : Program) (id : GraphId) (change : Graph → Graph) : Program :=
  { p with graphs := p.graphs.modify id.index change }

/-- Adds a parameter after those that the graph has. -/
def addParameter (p : Program) (graph : GraphId) (name : String) : NodeId × Program :=
  let index := (p.graph graph).parameters.length
  let (id, p) := p.addNode { kind := .parameter graph index, owner := some graph, name := some name }
  (id, p.modifyGraph graph fun g => { g with parameters := g.parameters ++ [id] })

def addConstant (p : Program) (value : Constant) : NodeId × Program :=
  p.addNode { kind := .constant value, owner := none, name := none }

/-- Adds an application; the first input is what it calls. -/
def addApply (p : Program) (graph : GraphId) (inputs : List NodeId) : NodeId × Program :=
  p.addNode { kind := .apply inputs, owner := some graph, name := none }

/-- Adds a constant for an operator, and then the application of it. -/
def addOperation (p : Program) (graph : GraphId) (operator : Primitive) (args : List NodeId) :
    NodeId × Program :=
  let (callee, p) := p.addConstant (.primitive operator)
  p.addApply graph (callee :: args)

def setOutput (p : Program) (graph : GraphId) (output : NodeId) : Program :=
  p.modifyGraph graph fun g => { g with output := some output }

def setName (p : Program) (node : NodeId) (name : String) : Program :=
  { p with nodes := p.nodes.modify node.index fun n => { n with name := some name } }

/-- How messages name a node: by its number, followed by its name or its constant. -/
def label (p : Program) (id : NodeId) : String :=
  let n := p.node id
  match n.name, n.kind with
  | some name, _ => id.text ++ ":" ++ name
  | none, .constant value => id.text ++ ":" ++ value.text
  | none, _ => id.text

end Program

end ArrayInference
