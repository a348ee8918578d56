import ArrayInference.Constant.Basic
import ArrayInference.Type.Dtype
import ArrayInference.Type.Order

/-!
# The type of a constant

A list takes the type of its first element, and every other element must have exactly that type. A
record whose values fit the declared fields has the declared type of its class; any other record is
typed from its values. Strings, namespaces and host objects have a host type.
-/

namespace ArrayInference

namespace Interning

/-- The type that a record class declares. -/
def declaredType (c : RecordClass) : Interning Ty := do
  record (← declaredTag c.name c.id) c.fields c.methods

/-- Whether the types of a record's values fit its declared fields, position by position. -/
def fitsFields (attributes fields : List (String × Ty)) : Bool :=
  (attributes.zip fields).all fun ((_, actual), (_, declared)) => actual.isSubtype declared

mutual

/-- The type of a constant. -/
def typeOfConstant : Constant → ExceptT TypeError Interning Ty
  | .bool _ => liftM (generic .bool)
  | .int _ => int 64
  | .float _ => float 64
  | .str _ => liftM (external "str")
  | .tuple items => do
      let elements ← typesOfConstants items
      liftM (tuple elements)
  | .list [] => do
      let object ← liftM (generic .object)
      liftM (list object)
  | .list (first :: rest) => do
      let element ← typeOfConstant first
      requireElements element rest
      liftM (list element)
  | .array value => do
      let element ← ofDtype value.dtype
      liftM (array element)
  | .record c values => do
      if values.length ≠ c.fields.length then
        throw (.structuralMismatch
          ("record of class " ++ c.name ++ " has " ++ toString values.length ++ " values for "
            ++ toString c.fields.length ++ " fields"))
      let types ← typesOfConstants values
      let actual := (c.fields.map (·.1)).zip types
      let attributes := if fitsFields actual c.fields then c.fields else actual
      let tag ← liftM (declaredTag c.name c.id)
      liftM (record tag attributes c.methods)
  | .recordType c => liftM (declaredType c)
  | .type _ => liftM (generic .type)
  | .primitive _ | .graph _ | .metaGraph _ => liftM (generic .function)
  | .symbols .. => liftM (external "namespace")
  | .host _ typeName _ => liftM (external typeName)

/-- The types of several constants, in order. -/
def typesOfConstants : List Constant → ExceptT TypeError Interning (List Ty)
  | [] => return []
  | c :: cs => do
      let t ← typeOfConstant c
      let ts ← typesOfConstants cs
      return t :: ts

/-- Fails at the first constant that has another type. -/
def requireElements (element : Ty) : List Constant → ExceptT TypeError Interning Unit
  | [] => return ()
  | c :: cs => do
      let other ← typeOfConstant c
      if other ≠ element then
        throw (.structuralMismatch
          ("list elements must share one type, found " ++ element.text ++ " and " ++ other.text))
      requireElements element cs

end

end Interning

end ArrayInference
