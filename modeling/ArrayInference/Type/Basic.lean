import ArrayInference.Identifier
import ArrayInference.Text.Listing

/-!
# Types

The type hierarchy:

* `Object` is above everything;
* `Number` is above the integers, the unsigned integers and the floats of each width;
* booleans, tuples, lists, arrays, records, functions, host types and the type of types stand
  directly below `Object`.

Each family has one generic type, and most have instances made from parameters. A type carries the
cache that made it at every level, so two types are the same exactly when one cache made both and
they agree all the way down.
-/

namespace ArrayInference

/-- A family of types. -/
inductive Family where
  | object
  | number
  | int
  | uint
  | float
  | bool
  | tuple
  | list
  | array
  | record
  | function
  | external
  | type
deriving DecidableEq, Repr

namespace Family

/-- The families in the order of their declaration. -/
def all : List Family :=
  [object, number, int, uint, float, bool, tuple, list, array, record, function, external, type]

def name : Family → String
  | object => "Object"
  | number => "Number"
  | int => "Int"
  | uint => "UInt"
  | float => "Float"
  | bool => "Bool"
  | tuple => "Tuple"
  | list => "List"
  | array => "Array"
  | record => "Class"
  | function => "Function"
  | external => "External"
  | type => "TypeType"

/-- The family one level up. Only `object` has none. -/
def parent? : Family → Option Family
  | object => none
  | int | uint | float => some number
  | number | bool | tuple | list | array | record | function | external | type => some object

/-- The family and everything above it, from the bottom up. -/
def ancestors : Family → List Family
  | object => [object]
  | int => [int, number, object]
  | uint => [uint, number, object]
  | float => [float, number, object]
  | f => [f, object]

/-- Whether a family is another one or below it. -/
def descendsFrom (f g : Family) : Bool :=
  f.ancestors.contains g

end Family

/-- Where the tag of a record class comes from. -/
inductive TagOrigin where
  /-- The tag that a cache gave to a host class. -/
  | declared (home : CacheId) (host : ObjectId)
  /-- A tag of its own, made for no host class. -/
  | fresh (home : CacheId) (serial : Nat)
deriving DecidableEq, Repr

/-- The identity of a record class. Classes of one name are still distinct. -/
structure ClassTag where
  name : String
  origin : TagOrigin
deriving DecidableEq, Repr

/-- A type. -/
inductive Ty where
  | generic (home : CacheId) (family : Family)
  | int (home : CacheId) (bits : Nat)
  | uint (home : CacheId) (bits : Nat)
  | float (home : CacheId) (bits : Nat)
  | tuple (home : CacheId) (elements : List Ty)
  | list (home : CacheId) (element : Ty)
  | array (home : CacheId) (element : Ty)
  | record (home : CacheId) (tag : ClassTag) (attributes : List (String × Ty))
      (methods : List (String × GraphId))
  | function (home : CacheId) (params : List Ty) (result : Ty)
  | external (home : CacheId) (host : String)

/-- The attributes and methods of an instantiated record type, in declaration order. -/
structure ClassDesc where
  tag : ClassTag
  attributes : List (String × Ty)
  methods : List (String × GraphId)

namespace ClassDesc

/-- The type of the first attribute of that name. -/
def attribute? (c : ClassDesc) (name : String) : Option Ty :=
  c.attributes.lookup name

/-- The graph of the first method of that name. -/
def method? (c : ClassDesc) (name : String) : Option GraphId :=
  c.methods.lookup name

end ClassDesc

namespace Ty

/-- The cache that made the type. -/
def home : Ty → CacheId
  | generic h _ | int h _ | uint h _ | float h _ | tuple h _ | list h _ | array h _
  | record h _ _ _ | function h _ _ | external h _ => h

def family : Ty → Family
  | generic _ f => f
  | int .. => .int
  | uint .. => .uint
  | float .. => .float
  | tuple .. => .tuple
  | list .. => .list
  | array .. => .array
  | record .. => .record
  | function .. => .function
  | external .. => .external

/-- The generic type of the same family in the same cache. -/
def toGeneric (t : Ty) : Ty :=
  .generic t.home t.family

def isGeneric : Ty → Bool
  | generic .. => true
  | _ => false

/-- The width of an instantiated number type. -/
def bits? : Ty → Option Nat
  | int _ b | uint _ b | float _ b => some b
  | _ => none

/-- Whether this is an instantiated number type. -/
def isNumber (t : Ty) : Bool :=
  t.bits?.isSome

def isBool (t : Ty) : Bool :=
  t.family = .bool

/-- The element types of an instantiated tuple. -/
def elements? : Ty → Option (List Ty)
  | tuple _ es => some es
  | _ => none

/-- The element type of an instantiated list or array. -/
def element? : Ty → Option Ty
  | list _ e | array _ e => some e
  | _ => none

/-- The description of an instantiated record class. -/
def class? : Ty → Option ClassDesc
  | record _ tag attributes methods => some { tag, attributes, methods }
  | _ => none

mutual

/-- The text of a type, such as `Tuple[Int[64], Bool]`. -/
def text : Ty → String
  | generic _ f => f.name
  | int _ b => "Int[" ++ toString b ++ "]"
  | uint _ b => "UInt[" ++ toString b ++ "]"
  | float _ b => "Float[" ++ toString b ++ "]"
  | tuple _ es => "Tuple[" ++ Text.commaSeparated (texts es) ++ "]"
  | list _ e => "List[" ++ text e ++ "]"
  | array _ e => "Array[" ++ text e ++ "]"
  | record _ tag attributes _ =>
      tag.name ++ "\x7b" ++ Text.commaSeparated (attributeTexts attributes) ++ "\x7d"
  | function _ ps r =>
      "Function[(" ++ Text.commaSeparated (texts ps) ++ "), " ++ text r ++ "]"
  | external _ host => "External[" ++ host ++ "]"

/-- The text of each type of a list. -/
def texts : List Ty → List String
  | [] => []
  | t :: ts => text t :: texts ts

/-- The text of each attribute, such as `x: Int[64]`. -/
def attributeTexts : List (String × Ty) → List String
  | [] => []
  | (name, t) :: rest => (name ++ ": " ++ text t) :: attributeTexts rest

end

end Ty

end ArrayInference
