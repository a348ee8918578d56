import ArrayInference.Text.Quoted
import ArrayInference.Type.Equality
import ArrayInference.Type.Error

/-!
# The type cache

Types are made through a cache, which keeps one entry for every type it has made and never drops
one. An instance is entered after the generic type of its family, so every entry has its generic
type in the cache.
-/

namespace ArrayInference

/-- The types that a cache has made, and how many class tags of their own it has given out. -/
structure TypeCache where
  home : CacheId
  entries : List Ty
  serial : Nat

/-- A computation that may make types in a cache. -/
abbrev Interning := StateM TypeCache

namespace TypeCache

def empty (home : CacheId) : TypeCache :=
  { home, entries := [], serial := 0 }

/-- The number of types made so far. -/
def size (c : TypeCache) : Nat :=
  c.entries.length

def isEmpty (c : TypeCache) : Bool :=
  c.entries.isEmpty

/-- The cache with an entry for the type. -/
def add (c : TypeCache) (t : Ty) : TypeCache :=
  if t ∈ c.entries then c else { c with entries := t :: c.entries }

/-- The cache as a record of its size. -/
def summary (c : TypeCache) : String :=
  Text.fielded "TypeCache" [("entries", toString c.size)]

end TypeCache

namespace Interning

/-- Enters the type that `make` builds for the cache at hand, after its generic type. -/
def intern (make : CacheId → Ty) : Interning Ty :=
  modifyGet fun c =>
    let t := make c.home
    (t, (c.add t.toGeneric).add t)

/-- The generic type of a family. -/
def generic (family : Family) : Interning Ty :=
  intern (.generic · family)

def tuple (elements : List Ty) : Interning Ty :=
  intern (.tuple · elements)

def list (element : Ty) : Interning Ty :=
  intern (.list · element)

def array (element : Ty) : Interning Ty :=
  intern (.array · element)

def function (params : List Ty) (result : Ty) : Interning Ty :=
  intern (.function · params result)

def external (host : String) : Interning Ty :=
  intern (.external · host)

def record (tag : ClassTag) (attributes : List (String × Ty)) (methods : List (String × GraphId)) :
    Interning Ty :=
  intern (.record · tag attributes methods)

/-- The tag of a host class. One cache gives a class the same tag each time. -/
def declaredTag (name : String) (host : ObjectId) : Interning ClassTag := do
  return { name, origin := .declared (← get).home host }

/-- A tag unlike every other. -/
def freshTag (name : String) : Interning ClassTag :=
  modifyGet fun c =>
    ({ name, origin := .fresh c.home c.serial }, { c with serial := c.serial + 1 })

end Interning

/-- What a generic type is instantiated with. -/
inductive TypeParams where
  | bits (width : Nat)
  | elements (types : List Ty)
  | element (type : Ty)
  | record (tag : ClassTag) (attributes : List (String × Ty)) (methods : List (String × GraphId))
  | signature (params : List Ty) (result : Ty)
  | host (name : String)

namespace TypeParams

/-- The parameters as they are shown in an error. -/
def text : TypeParams → String
  | bits width => Text.applied "Bits" (toString width)
  | elements types => Text.applied "Elements" (Text.bracketed (types.map Ty.text))
  | element type => Text.applied "Element" type.text
  | record tag attributes methods =>
      Text.fielded "Class"
        [("tag", Text.applied "ClassTag" tag.name),
         ("attributes", Text.namedPairs (attributes.map fun (n, t) => (n, t.text))),
         ("methods", Text.namedPairs (methods.map fun (n, g) => (n, g.summary)))]
  | signature params result =>
      Text.fielded "Signature"
        [("params", Text.bracketed (params.map Ty.text)), ("ret", result.text)]
  | host name => Text.applied "Host" (Text.quoted name)

end TypeParams

/-- The widths of signed and unsigned integers. -/
def integerWidths : List Nat := [8, 16, 32, 64]

/-- The widths of floats. -/
def floatWidths : List Nat := [16, 32, 64]

namespace Interning

/-- A width of a number family, if it is one of the legal ones. -/
def checkedWidth (legal : List Nat) (family : Family) (width : Nat) (make : CacheId → Ty) :
    ExceptT TypeError Interning Ty :=
  if width ∈ legal then
    liftM (intern make)
  else
    throw (.construction ("invalid bit width " ++ toString width ++ " for " ++ family.name))

/-- Instantiates a generic type. The family decides which parameters it takes. -/
def instantiate (generic : Ty) (params : TypeParams) : ExceptT TypeError Interning Ty :=
  if !generic.isGeneric then
    throw (.construction (generic.text ++ " is already specialized"))
  else
    match generic.family, params with
    | .object, _ => throw (.construction "Object is abstract and cannot be instantiated")
    | .number, _ => throw (.construction "Number is abstract and cannot be instantiated")
    | .bool, _ => throw (.construction "Bool takes no parameters")
    | .type, _ => throw (.construction "TypeType takes no parameters")
    | .int, .bits width => checkedWidth integerWidths .int width (.int · width)
    | .uint, .bits width => checkedWidth integerWidths .uint width (.uint · width)
    | .float, .bits width => checkedWidth floatWidths .float width (.float · width)
    | .tuple, .elements types => liftM (tuple types)
    | .list, .element type => liftM (list type)
    | .array, .element type => liftM (array type)
    | .record, .record tag attributes methods => liftM (record tag attributes methods)
    | .function, .signature params result => liftM (function params result)
    | .external, .host name => liftM (external name)
    | family, params =>
        throw (.construction (family.name ++ " cannot be instantiated with " ++ params.text))

/-- A signed integer type. The generic type is entered even if the width is not legal. -/
def int (width : Nat) : ExceptT TypeError Interning Ty := do
  instantiate (← generic .int) (.bits width)

/-- An unsigned integer type. The generic type is entered even if the width is not legal. -/
def uint (width : Nat) : ExceptT TypeError Interning Ty := do
  instantiate (← generic .uint) (.bits width)

/-- A float type. The generic type is entered even if the width is not legal. -/
def float (width : Nat) : ExceptT TypeError Interning Ty := do
  instantiate (← generic .float) (.bits width)

end Interning

end ArrayInference
