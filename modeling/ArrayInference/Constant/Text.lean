import ArrayInference.Constant.Basic
import ArrayInference.Decimal.Layout
import ArrayInference.Text.Listing
import ArrayInference.Text.Quoted

/-!
# The text of constants

How a constant is shown in messages and reports.
-/

namespace ArrayInference

/-- An array is shown by its dtype and its extents. -/
def ArrayValue.text (v : ArrayValue) : String :=
  "array<" ++ v.dtype ++ ">" ++ Text.bracketed (v.extents.map fun n => toString n.toNat)

namespace Constant

mutual

def text : Constant → String
  | bool v => toString v
  | int v => toString v.toInt
  | float b => Decimal.doubleText b
  | str v => Text.quoted v
  | tuple vs => Text.tupled (texts vs)
  | list vs => Text.bracketed (texts vs)
  | array v => v.text
  | record c vs => c.name ++ "(" ++ Text.commaSeparated (fieldTexts c.fields vs) ++ ")"
  | recordType c => "class " ++ c.name
  | type t => t.text
  | primitive p => p.name
  | graph g => "graph " ++ g.text
  | metaGraph m => "meta " ++ m.name
  | symbols _ n _ => "namespace " ++ n
  | host _ n _ => "<" ++ n ++ ">"

def texts : List Constant → List String
  | [] => []
  | v :: vs => text v :: texts vs

/-- Each value after the name of its field, as far as both lists reach. -/
def fieldTexts : List (String × Ty) → List Constant → List String
  | (name, _) :: fields, v :: vs => (name ++ "=" ++ text v) :: fieldTexts fields vs
  | _, _ => []

end

end Constant

end ArrayInference
