import ArrayInference.Context

/-!
# References

What a property can be asked of: a node in a context, an argument that stands outside the program,
or an element of another reference.
-/

namespace ArrayInference

/-- A node in a context. -/
structure NodeRef where
  node : NodeId
  ctx : Context
deriving DecidableEq

/-- Properties given from outside. A track that is left out falls back to its default. -/
structure VirtualProps where
  value : Option Property
  type : Option Property
  shape : Option Property
deriving DecidableEq

def VirtualProps.get? (p : VirtualProps) : Track → Option Property
  | .value => p.value
  | .type => p.type
  | .shape => p.shape

/-- What a property can be asked of. -/
inductive Ref where
  | node (r : NodeRef)
  | virtual (props : VirtualProps)
  /-- One element of a container. -/
  | element (container : Ref)
deriving DecidableEq

namespace Ref

/-- A known constant of a type. -/
def constant (value : Constant) (type : Ty) : Ref :=
  .virtual { value := some (.value (.known value)), type := some (.type type), shape := none }

/-- The node behind a reference. -/
def node? : Ref → Option NodeId
  | node r => some r.node
  | virtual _ => none
  | element container => container.node?

end Ref

/-- An argument that a graph is inferred on. -/
structure ArgSpec where
  type : Ty
  shape : Option Shape
  value : Option Constant

/-- The argument as a reference. A missing value is unknown; a missing shape follows the type. -/
def ArgSpec.toRef (a : ArgSpec) : Ref :=
  .virtual
    { value := some (.value (a.value.elim .anything .known))
      type := some (.type a.type)
      shape := a.shape.map .shape }

/-- A property that is computed once and kept: that of a node in a context, on a track. -/
structure Entry where
  ref : NodeRef
  track : Track
deriving DecidableEq

end ArrayInference
