import ArrayInference.Text.Listing

/-!
# Identifiers

Nodes and graphs are numbered in the order in which a program makes them. Shared host objects and
type caches are told apart by their number alone.
-/

namespace ArrayInference

/-- The number of a node in its program. -/
structure NodeId where
  index : Nat
deriving DecidableEq, Repr

/-- The number of a graph in its program. -/
structure GraphId where
  index : Nat
deriving DecidableEq, Repr

/-- The identity of a shared host object: a record class, a graph generator, a namespace or an
object with attributes. -/
structure ObjectId where
  index : Nat
deriving DecidableEq, Repr

/-- The identity of a type cache. -/
structure CacheId where
  index : Nat
deriving DecidableEq, Repr

/-- The text of a node, such as `%4`. -/
def NodeId.text (node : NodeId) : String :=
  "%" ++ toString node.index

/-- The text of a graph, such as `@2`. -/
def GraphId.text (graph : GraphId) : String :=
  "@" ++ toString graph.index

/-- A node as a record of its number. -/
def NodeId.summary (node : NodeId) : String :=
  Text.applied "NodeId" (toString node.index)

/-- A graph as a record of its number. -/
def GraphId.summary (graph : GraphId) : String :=
  Text.applied "GraphId" (toString graph.index)

end ArrayInference
