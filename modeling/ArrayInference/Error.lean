import ArrayInference.Identifier
import ArrayInference.Text.Listing
import ArrayInference.Text.Quoted
import ArrayInference.Track
import ArrayInference.Type.Error

/-!
# Errors of inference

An error has a cause and names the nodes it belongs to. It belongs to the node whose computation
raised it, and keeps that attribution on its way through the nodes that depend on it.
-/

namespace ArrayInference

/-- Why a property could not be inferred. -/
inductive Cause where
  /-- A type that does not exist was asked for. -/
  | typeConstruction (message : String)
  /-- The parts of a value do not fit together. -/
  | structuralMismatch (message : String)
  /-- Dimensions do not fit together. -/
  | shape (message : String)
  /-- The branches of a conditional disagree. -/
  | branchMismatch (track : Track) (first second : String)
  /-- The program is not well formed at this place. -/
  | inference (message : String)
  /-- The case is deliberately not handled. -/
  | unsupported (message : String)
  /-- The configuration is not valid. -/
  | config (message : String)
deriving DecidableEq, Repr

/-- The wording of a cause. -/
def Cause.message : Cause → String
  | typeConstruction message => "type construction error: " ++ message
  | structuralMismatch message => "structural mismatch: " ++ message
  | shape message => "shape error: " ++ message
  | branchMismatch track first second =>
      "branches disagree on " ++ track.name ++ ": " ++ first ++ " vs " ++ second
  | inference message => "inference error: " ++ message
  | unsupported message => "unsupported configuration: " ++ message
  | config message => "invalid inference config: " ++ message

/-- A failure of inference. -/
structure InferError where
  cause : Cause
  nodes : List NodeId
deriving DecidableEq, Repr

namespace InferError

def inference (message : String) : InferError := ⟨.inference message, []⟩

def shape (message : String) : InferError := ⟨.shape message, []⟩

def structural (message : String) : InferError := ⟨.structuralMismatch message, []⟩

def unsupported (message : String) : InferError := ⟨.unsupported message, []⟩

def config (message : String) : InferError := ⟨.config message, []⟩

/-- The wording of an error, without its nodes. -/
def message (e : InferError) : String :=
  e.cause.message

/-- Attributes the error to a node unless it already belongs to one. An error of the configuration
belongs to no node. -/
def attributeTo (e : InferError) (node : NodeId) : InferError :=
  match e.cause, e.nodes with
  | .config _, _ => e
  | _, [] => { e with nodes := [node] }
  | _, _ :: _ => e

/-- The error of inference that an error of type construction becomes. -/
def ofTypeError : TypeError → InferError
  | .structuralMismatch message => structural message
  | e => ⟨.typeConstruction e.message, []⟩

/-- The error as a record of its kind, its texts and its nodes. -/
def summary (e : InferError) : String :=
  let nodes := ("nodes", Text.bracketed (e.nodes.map NodeId.summary))
  let worded (kind message : String) :=
    Text.fielded kind [("message", Text.quoted message), nodes]
  match e.cause with
  | .typeConstruction message => worded "TypeConstruction" message
  | .structuralMismatch message => worded "StructuralMismatch" message
  | .shape message => worded "Shape" message
  | .branchMismatch track first second =>
      Text.fielded "BranchMismatch"
        [("track", track.constructorName), ("first", Text.quoted first),
         ("second", Text.quoted second), nodes]
  | .inference message => worded "Inference" message
  | .unsupported message => worded "UnsupportedConfiguration" message
  | .config message => Text.fielded "Config" [("message", Text.quoted message)]

end InferError

end ArrayInference
