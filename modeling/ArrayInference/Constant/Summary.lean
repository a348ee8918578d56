import ArrayInference.Constant.Text

/-!
# Constants as records

How a constant is shown when its parts are to be told apart: each under the name of its case, and
each shared host object with everything that it holds.
-/

namespace ArrayInference

def ArrayValue.summary (v : ArrayValue) : String :=
  Text.fielded "ArrayValue"
    [("dtype", Text.quoted v.dtype),
     ("shape", Text.bracketed (v.extents.map fun n => toString n.toNat))]

def RecordClass.summary (c : RecordClass) : String :=
  Text.fielded "RecordClass"
    [("name", Text.quoted c.name), ("fields", Text.namedPairs (c.fields.map fun (n, t) => (n, t.text))),
     ("methods", Text.namedPairs (c.methods.map fun (n, g) => (n, g.summary)))]

def Primitive.summary (p : Primitive) : String :=
  Text.applied "Primitive" p.name

namespace Constant

/-- Entries in the order of their names, such as `\x7b"a": 1\x7d` with plain braces. -/
def sortedEntries (entries : List (String × String)) : String :=
  let sorted := entries.mergeSort fun (a, _) (b, _) => decide (a ≤ b)
  "\x7b" ++ Text.commaSeparated (sorted.map fun (name, part) => Text.quoted name ++ ": " ++ part)
    ++ "\x7d"

mutual

def summary : Constant → String
  | bool v => Text.applied "Bool" (toString v)
  | int v => Text.applied "Int" (toString v.toInt)
  | float b => Text.applied "Float" (Decimal.doubleText b)
  | str v => Text.applied "Str" (Text.quoted v)
  | tuple vs => Text.applied "Tuple" (Text.bracketed (summaries vs))
  | list vs => Text.applied "List" (Text.bracketed (summaries vs))
  | array v => Text.applied "Array" v.summary
  | record c vs =>
      Text.applied "Record"
        (Text.fielded "RecordValue"
          [("class", c.summary), ("values", Text.bracketed (summaries vs))])
  | recordType c => Text.applied "RecordType" c.summary
  | type t => Text.applied "Type" t.text
  | primitive p => Text.applied "Primitive" p.summary
  | graph g => Text.applied "Graph" g.summary
  | metaGraph m => Text.applied "MetaGraph" m.name
  | symbols _ n es =>
      Text.applied "Namespace"
        (Text.fielded "Namespace"
          [("name", Text.quoted n), ("entries", sortedEntries (entrySummaries es))])
  | host _ n es =>
      Text.applied "Opaque"
        (Text.fielded "OpaqueObject"
          [("type_name", Text.quoted n), ("attrs", sortedEntries (entrySummaries es))])

def summaries : List Constant → List String
  | [] => []
  | v :: vs => summary v :: summaries vs

def entrySummaries : List (String × Constant) → List (String × String)
  | [] => []
  | (n, v) :: es => (n, summary v) :: entrySummaries es

end

end Constant

end ArrayInference
