/-!
# Primitive operators

A primitive is an operator known by its name alone. The catalog lists every operator that has
built-in rules; names outside it belong to operators whose rules are registered later.
-/

namespace ArrayInference

/-- An operator. Two operators are the same exactly when they have the same name. -/
structure Primitive where
  name : String
deriving DecidableEq, Repr

namespace Primitive

/-! ## Arithmetic -/

def scalarAdd : Primitive := ⟨"scalar_add"⟩
def scalarSub : Primitive := ⟨"scalar_sub"⟩
def scalarMul : Primitive := ⟨"scalar_mul"⟩
def scalarDiv : Primitive := ⟨"scalar_div"⟩
def scalarMod : Primitive := ⟨"scalar_mod"⟩
def scalarPow : Primitive := ⟨"scalar_pow"⟩
def scalarUadd : Primitive := ⟨"scalar_uadd"⟩
def scalarUsub : Primitive := ⟨"scalar_usub"⟩
def scalarExp : Primitive := ⟨"scalar_exp"⟩
def scalarLog : Primitive := ⟨"scalar_log"⟩
def scalarSin : Primitive := ⟨"scalar_sin"⟩
def scalarCos : Primitive := ⟨"scalar_cos"⟩
def scalarTan : Primitive := ⟨"scalar_tan"⟩

/-! ## Comparisons -/

def scalarEq : Primitive := ⟨"scalar_eq"⟩
def scalarLt : Primitive := ⟨"scalar_lt"⟩
def scalarGt : Primitive := ⟨"scalar_gt"⟩
def scalarNe : Primitive := ⟨"scalar_ne"⟩
def scalarLe : Primitive := ⟨"scalar_le"⟩
def scalarGe : Primitive := ⟨"scalar_ge"⟩
def boolNot : Primitive := ⟨"bool_not"⟩
def boolAnd : Primitive := ⟨"bool_and"⟩
def boolOr : Primitive := ⟨"bool_or"⟩

/-! ## Type introspection -/

def typeOf : Primitive := ⟨"typeof"⟩
def hasType : Primitive := ⟨"hastype"⟩

/-! ## Data structures -/

def makeTuple : Primitive := ⟨"make_tuple"⟩
def tail : Primitive := ⟨"tail"⟩
def tupleGetItem : Primitive := ⟨"tuple_getitem"⟩
def listGetItem : Primitive := ⟨"list_getitem"⟩
def arrayGetItem : Primitive := ⟨"array_getitem"⟩
def tupleSetItem : Primitive := ⟨"tuple_setitem"⟩
def listSetItem : Primitive := ⟨"list_setitem"⟩
def arraySetItem : Primitive := ⟨"array_setitem"⟩
def getAttribute : Primitive := ⟨"getattr"⟩
def setAttribute : Primitive := ⟨"setattr"⟩
def tupleLen : Primitive := ⟨"tuple_len"⟩
def listLen : Primitive := ⟨"list_len"⟩
def arrayLen : Primitive := ⟨"array_len"⟩

/-! ## Arrays -/

def scalarToArray : Primitive := ⟨"scalar_to_array"⟩
def broadcastShape : Primitive := ⟨"broadcast_shape"⟩
def shape : Primitive := ⟨"shape"⟩
def arrayMap : Primitive := ⟨"array_map"⟩
def arrayScan : Primitive := ⟨"array_scan"⟩
def arrayReduce : Primitive := ⟨"array_reduce"⟩
def distribute : Primitive := ⟨"distribute"⟩
def reshape : Primitive := ⟨"reshape"⟩
def dot : Primitive := ⟨"dot"⟩

/-! ## Statements -/

def ifElse : Primitive := ⟨"if"⟩
def switch : Primitive := ⟨"switch"⟩
def returnValue : Primitive := ⟨"return"⟩

/-! ## Miscellaneous -/

def scalarCast : Primitive := ⟨"scalar_cast"⟩
def listMap : Primitive := ⟨"list_map"⟩
def identity : Primitive := ⟨"identity"⟩
def resolve : Primitive := ⟨"resolve"⟩
def applyPartially : Primitive := ⟨"partial"⟩
def makeRecord : Primitive := ⟨"make_record"⟩

/-- Every operator with built-in rules. -/
def catalog : List Primitive :=
  [scalarAdd, scalarSub, scalarMul, scalarDiv, scalarMod, scalarPow, scalarUadd, scalarUsub,
   scalarExp, scalarLog, scalarSin, scalarCos, scalarTan, scalarEq, scalarLt, scalarGt,
   scalarNe, scalarLe, scalarGe, boolNot, boolAnd, boolOr, typeOf, hasType, makeTuple, tail,
   tupleGetItem, listGetItem, arrayGetItem, tupleSetItem, listSetItem, arraySetItem,
   getAttribute, setAttribute, tupleLen, listLen, arrayLen, scalarToArray, broadcastShape,
   shape, arrayMap, arrayScan, arrayReduce, distribute, reshape, dot, ifElse, switch,
   returnValue, scalarCast, listMap, identity, resolve, applyPartially, makeRecord]

/-- The catalog entry of a name. -/
def ofName? (name : String) : Option Primitive :=
  catalog.find? fun p => p.name = name

/-- Whether the operator has built-in rules. -/
def isBuiltin (p : Primitive) : Bool :=
  catalog.contains p

end Primitive

end ArrayInference
