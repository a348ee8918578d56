import ArrayInference.Property

/-!
# Contexts

A context says on which arguments the graphs around a node are called. It is a chain of frames, one
for each graph, from the innermost outwards, and the frame of a closure stands on the frame of the
graph that it was defined in. Contexts with equal frames are equal, so calls on arguments with the
same properties share their results.
-/

namespace ArrayInference

/-- The properties of one argument. -/
structure ArgProps where
  value : Property
  type : Property
  shape : Property
deriving DecidableEq

def ArgProps.get (a : ArgProps) : Track → Property
  | .value => a.value
  | .type => a.type
  | .shape => a.shape

/-- A chain of frames. -/
inductive Context where
  /-- No frames: the context of constants and of top-level graphs. -/
  | empty
  /-- A frame for a graph called on arguments, on top of the frames of its parents. -/
  | frame (parent : Context) (graph : GraphId) (args : List ArgProps)
deriving DecidableEq

namespace Context

def isEmpty : Context → Bool
  | empty => true
  | frame .. => false

/-- Adds a frame for a graph called on arguments. -/
def extend (c : Context) (graph : GraphId) (args : List ArgProps) : Context :=
  frame c graph args

/-- The frames from that of a graph outwards; none if the graph has no frame. -/
def dropTo (c : Context) (graph : GraphId) : Context :=
  match c with
  | empty => empty
  | frame parent g args => if g = graph then frame parent g args else parent.dropTo graph

/-- The frames that something owned by a graph can see. What no graph owns sees none. -/
def filter (c : Context) : Option GraphId → Context
  | none => empty
  | some graph => c.dropTo graph

/-- The property of an argument of the innermost call. -/
def frameArgument? (c : Context) (index : Nat) (track : Track) : Option Property :=
  match c with
  | empty => none
  | frame _ _ args => args[index]?.map fun a => a.get track

/-- The property of a parameter of a graph. -/
def argument? (c : Context) (graph : GraphId) (index : Nat) (track : Track) : Option Property :=
  (c.dropTo graph).frameArgument? index track

/-- The graph of the innermost frame. -/
def graph? : Context → Option GraphId
  | empty => none
  | frame _ g _ => some g

def depth : Context → Nat
  | empty => 0
  | frame parent _ _ => parent.depth + 1

/-- The innermost graph with the types of its arguments, and then the frames outside it. -/
def text : Context → String
  | empty => "\x7b\x7d"
  | frame parent g args =>
      let outside := if parent.isEmpty then "" else " <- " ++ parent.text
      "\x7b" ++ g.text ++ "(" ++ Text.commaSeparated (args.map fun a => a.type.text) ++ ")" ++ outside
        ++ "\x7d"

end Context

end ArrayInference
