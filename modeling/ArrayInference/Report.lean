import ArrayInference.Property
import ArrayInference.Text.Json

/-!
# Reports

A report lists resolved properties, ordered by node, then by track, then by the text of the context.
Entries that agree in all three keep the order in which they were given.
-/

namespace ArrayInference

/-- One resolved property, as text. -/
structure ReportEntry where
  node : NodeId
  label : String
  context : String
  track : Track
  result : Option String
  error : Option String
deriving DecidableEq, Repr

namespace ReportEntry

/-- The entry of an outcome. -/
def ofOutcome (node : NodeId) (label context : String) (track : Track) : Outcome → ReportEntry
  | .ok p => { node, label, context, track, result := some p.text, error := none }
  | .error e => { node, label, context, track, result := none, error := some e.message }

def isError (e : ReportEntry) : Bool :=
  e.error.isSome

/-- Whether an entry may stand before another one: it has the smaller node, or the same node and the
smaller track, or both the same and a context that is not greater. -/
def precedes (a b : ReportEntry) : Bool :=
  if a.node.index ≠ b.node.index then a.node.index < b.node.index
  else if a.track.rank ≠ b.track.rank then a.track.rank < b.track.rank
  else decide (a.context ≤ b.context)

def json (e : ReportEntry) : Text.Json :=
  let optional (name : String) (text : Option String) :=
    (text.map fun t => (name, Text.Json.string t)).toList
  .object
    ([("node", .number e.node.index), ("label", .string e.label), ("context", .string e.context),
      ("track", .string e.track.name)] ++ optional "result" e.result ++ optional "error" e.error)

end ReportEntry

/-- An ordered list of entries. -/
structure Report where
  entries : List ReportEntry

namespace Report

/-- The report of some entries. -/
def ofEntries (entries : List ReportEntry) : Report :=
  { entries := entries.mergeSort ReportEntry.precedes }

def total (r : Report) : Nat :=
  r.entries.length

/-- The entries that failed. -/
def errors (r : Report) : List ReportEntry :=
  r.entries.filter ReportEntry.isError

/-- The entries of a node. -/
def forNode (r : Report) (node : NodeId) : List ReportEntry :=
  r.entries.filter fun e => e.node = node

def json (r : Report) : Text.Json :=
  .object
    [("summary",
      .object [("total", .number r.total), ("errors", .number r.errors.length)]),
     ("entries", .array (r.entries.map ReportEntry.json))]

/-- The report as indented JSON. -/
def text (r : Report) : String :=
  r.json.pretty

end Report

end ArrayInference
