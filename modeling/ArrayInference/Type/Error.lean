/-!
# Errors of type construction

The ways in which building or classifying a type can fail, and how each is worded.
-/

namespace ArrayInference

/-- Why a type could not be built. -/
inductive TypeError where
  /-- A family was instantiated in a way it does not admit. -/
  | construction (message : String)
  /-- The parts of a value do not fit together. -/
  | structuralMismatch (message : String)
  /-- No scalar type has this dtype name. -/
  | unknownDtype (name : String)
  /-- The type with this text is not a scalar. -/
  | notAScalar (type : String)
  /-- A graph generator refused its argument types. -/
  | generator (name : String) (message : String)
deriving DecidableEq, Repr

/-- The wording of an error. -/
def TypeError.message : TypeError → String
  | construction message => "cannot construct type: " ++ message
  | structuralMismatch message => "structural mismatch: " ++ message
  | unknownDtype name => "unknown dtype '" ++ name ++ "'"
  | notAScalar type => "type " ++ type ++ " has no dtype"
  | generator name message => "meta graph '" ++ name ++ "' failed: " ++ message

end ArrayInference
