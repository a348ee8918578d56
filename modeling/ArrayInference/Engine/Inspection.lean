import ArrayInference.Engine.State
import ArrayInference.Report

/-!
# Inspection of an engine

What an engine has found so far, as lists and as text.
-/

namespace ArrayInference

/-- One result of a node. -/
structure NodeResult where
  track : Track
  ctx : Context
  outcome : Outcome

namespace NodeResult

/-- The text of the property, or of the error. -/
def text (r : NodeResult) : String :=
  match r.outcome with
  | .ok p => p.text
  | .error e => e.message

/-- Whether the result is a property. -/
def succeeded (r : NodeResult) : Bool :=
  r.outcome.toBool

/-- Whether a result may stand before another one: by track, by depth of the context, by the text of
the context, failures before successes, and by text. -/
def precedes (a b : NodeResult) : Bool :=
  if a.track.rank ≠ b.track.rank then a.track.rank < b.track.rank
  else if a.ctx.depth ≠ b.ctx.depth then a.ctx.depth < b.ctx.depth
  else if a.ctx.text ≠ b.ctx.text then a.ctx.text < b.ctx.text
  else if a.succeeded ≠ b.succeeded then b.succeeded
  else decide (a.text ≤ b.text)

end NodeResult

/-- Whether the entry of a failure or of the smaller text may stand before another one. -/
def ReportEntry.settles (a b : ReportEntry) : Bool :=
  let text (e : ReportEntry) := e.result.getD ""
  let message (e : ReportEntry) := e.error.getD ""
  if a.isError ≠ b.isError then a.isError
  else if text a ≠ text b then text a < text b
  else decide (message a ≤ message b)

namespace Engine

/-- The results of a node in every context and on every track. -/
def resultsFor (e : Engine) (node : NodeId) : List NodeResult :=
  let results := e.memo.filterMap fun (key, p) =>
    if key.ref.node = node then
      p.result.map fun outcome => { track := key.track, ctx := key.ref.ctx, outcome }
    else none
  results.mergeSort NodeResult.precedes

/-- A report of every result. Results of one node that no context text tells apart are ordered by
their text, failures first. -/
def report (e : Engine) : Report :=
  let entries := e.memo.filterMap fun (key, p) =>
    p.result.map fun outcome =>
      ReportEntry.ofOutcome key.ref.node (e.program.label key.ref.node) key.ref.ctx.text key.track
        outcome
  .ofEntries (entries.mergeSort ReportEntry.settles)

/-- The engine as a record of its sizes and settings. -/
def summary (e : Engine) : String :=
  Text.fielded "InferenceEngine"
    [("nodes", toString e.program.nodeCount), ("memo", toString e.memo.length),
     ("inferrers", toString e.inferrers.length), ("config", e.config.summary)]

end Engine

end ArrayInference
