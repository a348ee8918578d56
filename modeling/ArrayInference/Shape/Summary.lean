import ArrayInference.Shape.Basic
import ArrayInference.Text.Quoted

/-!
# Shapes as records

How a shape is shown with each part under the name of its case.
-/

namespace ArrayInference

def Dim.summary : Dim → String
  | known n => Text.applied "Known" (toString n.toNat)
  | anything => "Anything"

namespace Shape

mutual

def summary : Shape → String
  | noShape => "NoShape"
  | dims ds => Text.applied "Dims" (Text.bracketed (ds.map Dim.summary))
  | tuple ss => Text.applied "Tuple" (Text.bracketed (summaries ss))
  | list s => Text.applied "List" (summary s)
  | record as => Text.applied "Class" (Text.namedPairs (attributeSummaries as))

def summaries : List Shape → List String
  | [] => []
  | s :: ss => summary s :: summaries ss

def attributeSummaries : List (String × Shape) → List (String × String)
  | [] => []
  | (n, s) :: as => (n, summary s) :: attributeSummaries as

end

end Shape

end ArrayInference
