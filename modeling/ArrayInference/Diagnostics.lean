import ArrayInference.Track

/-!
# Diagnostics

Notes on the points where inference took a short cut or made a choice. They are kept only if
collection is enabled.
-/

namespace ArrayInference

/-- What a diagnostic notes. -/
inductive Diagnostic.Reason where
  /-- An operator without a rule on a track was given the fallback of the track. -/
  | fallback (operator : String) (track : Track)
  /-- A constant condition; only one branch was inferred. -/
  | branchElided (taken : Bool)
  /-- Both branches were inferred and agree. -/
  | branchesUnified (track : Track)
  /-- A reshape whose element count could not be compared. -/
  | reshapeUnchecked
  /-- A graph was called in a new context; `count` contexts are known now. -/
  | specialized (graph : String) (count : Nat)
deriving DecidableEq, Repr

def Diagnostic.Reason.text : Diagnostic.Reason → String
  | fallback operator track => "no " ++ track.name ++ " rule for '" ++ operator ++ "', using fallback"
  | branchElided taken => "condition is statically " ++ toString taken ++ ", other branch skipped"
  | branchesUnified track => "both branches agree on " ++ track.name
  | reshapeUnchecked => "reshape element count not checked (unknown extent)"
  | specialized graph count => "graph '" ++ graph ++ "' specialized (" ++ toString count ++ " contexts)"

/-- A note, with the label of the node that it concerns if there is one. -/
structure Diagnostic where
  reason : Diagnostic.Reason
  subject : Option String
deriving DecidableEq, Repr

def Diagnostic.text (d : Diagnostic) : String :=
  let subject := d.subject.elim "" fun s => " (" ++ s ++ ")"
  "inference note: " ++ d.reason.text ++ subject

/-- The notes collected so far, in order. -/
structure Diagnostics where
  enabled : Bool
  notes : List Diagnostic
deriving DecidableEq, Repr

namespace Diagnostics

def empty (enabled : Bool) : Diagnostics :=
  { enabled, notes := [] }

/-- Keeps a note if collection is enabled. -/
def emit (d : Diagnostics) (note : Diagnostic) : Diagnostics :=
  if d.enabled then { d with notes := d.notes ++ [note] } else d

def count (d : Diagnostics) : Nat :=
  d.notes.length

/-- The collection without its notes. -/
def clear (d : Diagnostics) : Diagnostics :=
  { d with notes := [] }

end Diagnostics

end ArrayInference
