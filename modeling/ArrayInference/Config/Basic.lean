import ArrayInference.Error

/-!
# Configuration

How an engine is set up.
-/

namespace ArrayInference

/-- The settings of an engine. -/
structure Config where
  /-- In how many contexts one graph may be inferred. The limit ends recursions whose arguments
  never repeat. -/
  maxSpecializations : Nat
  /-- Whether diagnostics are kept. -/
  diagnostics : Bool
deriving DecidableEq, Repr

namespace Config

/-- The settings of an engine that is told nothing else. -/
def standard : Config :=
  { maxSpecializations := 64, diagnostics := false }

/-- Fails if no graph could be inferred at all. -/
def validate (c : Config) : Except InferError Unit :=
  if c.maxSpecializations = 0 then .error (.config "max_specializations must be at least 1")
  else .ok ()

/-- The settings as a record. -/
def summary (c : Config) : String :=
  Text.fielded "InferenceConfig"
    [("max_specializations", toString c.maxSpecializations),
     ("diagnostics", toString c.diagnostics)]

end Config

end ArrayInference
