/-!
# Tracks

Every property of a node belongs to one of three tracks: what its value is, what type it has, and
what shape it has.
-/

namespace ArrayInference

/-- One of the three kinds of property. -/
inductive Track where
  | value
  | type
  | shape
deriving DecidableEq, Repr

namespace Track

/-- The tracks in the order in which a graph is inferred. -/
def all : List Track := [value, type, shape]

def name : Track → String
  | value => "value"
  | type => "type"
  | shape => "shape"

/-- The name of a track inside a record. -/
def constructorName : Track → String
  | value => "Value"
  | type => "Type"
  | shape => "Shape"

/-- The place of a track among the three. -/
def rank : Track → Nat
  | value => 0
  | type => 1
  | shape => 2

end Track

end ArrayInference
