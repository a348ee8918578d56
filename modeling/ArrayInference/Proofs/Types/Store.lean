import ArrayInference.Constant.Classify
import ArrayInference.Table

/-!
# Types by identity

A store of types as it lies in memory. Every type and every class tag is a cell of its own, and what
others hold is its identity; the parameters of a type are identities again. A descriptor is looked up
before a cell is made for it, and the cell of an instance is made after that of its generic type.

Two identities are compared, and the cells behind them never are. That this is as good as comparing
whole types is what has to be shown: the operations of the store mirror those that work on whole types.
-/

namespace ArrayInference

/-- The identity of a type. -/
structure TypeId where
  index : Nat
deriving DecidableEq, Repr

/-- The identity of a class tag. -/
structure TagId where
  index : Nat
deriving DecidableEq, Repr

/-- What a type is made of. -/
inductive Descriptor where
  | generic (family : Family)
  | int (bits : Nat)
  | uint (bits : Nat)
  | float (bits : Nat)
  | tuple (elements : List TypeId)
  | list (element : TypeId)
  | array (element : TypeId)
  | record (tag : TagId) (attributes : List (String × TypeId)) (methods : List (String × GraphId))
  | function (params : List TypeId) (result : TypeId)
  | external (host : String)
deriving DecidableEq

namespace Descriptor

def family : Descriptor → Family
  | generic f => f
  | int _ => .int
  | uint _ => .uint
  | float _ => .float
  | tuple _ => .tuple
  | list _ => .list
  | array _ => .array
  | record .. => .record
  | function .. => .function
  | external _ => .external

/-- The types among the parameters. -/
def children : Descriptor → List TypeId
  | tuple es => es
  | list e | array e => [e]
  | record _ attributes _ => attributes.map (·.2)
  | function ps r => r :: ps
  | _ => []

/-- The class tag among the parameters. -/
def tag? : Descriptor → Option TagId
  | record tag _ _ => some tag
  | _ => none

/-- The type that is described, by what the parameters stand for. -/
def toTy (home : CacheId) (type : TypeId → Ty) (tag : TagId → ClassTag) : Descriptor → Ty
  | generic f => .generic home f
  | int b => .int home b
  | uint b => .uint home b
  | float b => .float home b
  | tuple es => .tuple home (es.map type)
  | list e => .list home (type e)
  | array e => .array home (type e)
  | record t attributes methods =>
      .record home (tag t) (attributes.map fun (name, a) => (name, type a)) methods
  | function ps r => .function home (ps.map type) (type r)
  | external host => .external home host

end Descriptor

/-- The cell of a type: its descriptor, and the generic type of the family unless it is that itself. -/
structure TypeCell where
  descriptor : Descriptor
  generic : Option TypeId

/-- All types and class tags that were made. -/
structure TypeStore where
  home : CacheId
  types : Array TypeCell
  interned : Table Descriptor TypeId
  /-- What the tag in each cell was made for. -/
  tags : Array ClassTag
  classTags : Table ObjectId TagId
  /-- How many tags were made for no host class. -/
  serial : Nat

/-- A computation that may make types in a store. -/
abbrev Storing := StateM TypeStore

namespace TypeStore

def empty (home : CacheId) : TypeStore :=
  { home, types := #[], interned := [], tags := #[], classTags := [], serial := 0 }

/-- What a type is all the way down, by what the types before it are. -/
def readCell (home : CacheId) (tags : Array ClassTag) (seen : Array Ty) (cell : TypeCell) : Ty :=
  cell.descriptor.toTy home (fun h => seen[h.index]?.getD (.generic home .object))
    (fun t => tags[t.index]?.getD { name := "", origin := .fresh home 0 })

/-- What each type is all the way down. A cell only refers to types that were made before it. -/
def readings (s : TypeStore) : Array Ty :=
  s.types.foldl (fun seen cell => seen.push (readCell s.home s.tags seen cell)) #[]

/-- What a type is all the way down. -/
def read (s : TypeStore) (h : TypeId) : Ty :=
  s.readings[h.index]?.getD (.generic s.home .object)

/-- What a class tag was made for. -/
def readTag (s : TypeStore) (t : TagId) : ClassTag :=
  s.tags[t.index]?.getD { name := "", origin := .fresh s.home 0 }

/-- The identity of a type that was made. -/
def locate (s : TypeStore) (t : Ty) : TypeId :=
  ⟨s.readings.toList.idxOf t⟩

/-- The cache whose types these are. -/
def cache (s : TypeStore) : TypeCache :=
  { home := s.home, entries := s.readings.toList.reverse, serial := s.serial }

/-- The generic type of the family of a type. -/
def genericOf (s : TypeStore) (h : TypeId) : TypeId :=
  (s.types[h.index]?.bind TypeCell.generic).getD h

/-- Whether a type is the generic one of its family. -/
def isGeneric (s : TypeStore) (h : TypeId) : Bool :=
  s.types[h.index]?.all fun cell => cell.generic.isNone

def family (s : TypeStore) (h : TypeId) : Family :=
  s.types[h.index]?.elim .object fun cell => cell.descriptor.family

/-- Whether a type is another one or below it. -/
def isSubtype (s : TypeStore) (h k : TypeId) : Bool :=
  h = k || (s.isGeneric k && (s.family h).descendsFrom (s.family k))

end TypeStore

/-- What a generic type is instantiated with. -/
inductive Parameters where
  | bits (width : Nat)
  | elements (types : List TypeId)
  | element (type : TypeId)
  | record (tag : TagId) (attributes : List (String × TypeId)) (methods : List (String × GraphId))
  | signature (params : List TypeId) (result : TypeId)
  | host (name : String)

namespace Parameters

/-- The parameters as whole types. -/
def read (s : TypeStore) : Parameters → TypeParams
  | bits width => .bits width
  | elements types => .elements (types.map s.read)
  | element type => .element (s.read type)
  | record tag attributes methods =>
      .record (s.readTag tag) (attributes.map fun (name, a) => (name, s.read a)) methods
  | signature params result => .signature (params.map s.read) (s.read result)
  | host name => .host name

/-- The descriptor of a number type, if the width is one of the legal ones. -/
def checked (legal : List Nat) (family : Family) (width : Nat) (descriptor : Descriptor) :
    Except TypeError Descriptor :=
  if width ∈ legal then .ok descriptor
  else .error (.construction ("invalid bit width " ++ toString width ++ " for " ++ family.name))

/-- The descriptor of an instance. The family decides which parameters it takes. -/
def descriptor (s : TypeStore) (family : Family) (params : Parameters) : Except TypeError Descriptor :=
  match family, params with
  | .object, _ => .error (.construction "Object is abstract and cannot be instantiated")
  | .number, _ => .error (.construction "Number is abstract and cannot be instantiated")
  | .bool, _ => .error (.construction "Bool takes no parameters")
  | .type, _ => .error (.construction "TypeType takes no parameters")
  | .int, .bits width => checked integerWidths .int width (.int width)
  | .uint, .bits width => checked integerWidths .uint width (.uint width)
  | .float, .bits width => checked floatWidths .float width (.float width)
  | .tuple, .elements types => .ok (.tuple types)
  | .list, .element type => .ok (.list type)
  | .array, .element type => .ok (.array type)
  | .record, .record tag attributes methods => .ok (.record tag attributes methods)
  | .function, .signature params result => .ok (.function params result)
  | .external, .host name => .ok (.external name)
  | family, params =>
      .error (.construction (family.name ++ " cannot be instantiated with " ++ (params.read s).text))

end Parameters

namespace Storing

/-- Makes the cell of a type. -/
def publish (d : Descriptor) (generic : Option TypeId) : Storing TypeId :=
  modifyGet fun s =>
    (⟨s.types.size⟩,
      { s with types := s.types.push ⟨d, generic⟩, interned := s.interned.insert d ⟨s.types.size⟩ })

/-- The generic type of a family. -/
def generic (family : Family) : Storing TypeId := do
  match (← get).interned.find? (.generic family) with
  | some h => return h
  | none => publish (.generic family) none

/-- The type with a descriptor. -/
def intern (d : Descriptor) : Storing TypeId := do
  match (← get).interned.find? d with
  | some h => return h
  | none =>
    match d with
    | .generic family => publish (.generic family) none
    | d => do publish d (some (← generic d.family))

/-- The tag of a host class, which is made when the class is first asked for. -/
def classTag (name : String) (host : ObjectId) : Storing TagId :=
  modifyGet fun s =>
    match s.classTags.find? host with
    | some t => (t, s)
    | none =>
        (⟨s.tags.size⟩,
          { s with
            tags := s.tags.push { name, origin := .declared s.home host }
            classTags := s.classTags.insert host ⟨s.tags.size⟩ })

/-- A tag for no host class. -/
def newTag (name : String) : Storing TagId :=
  modifyGet fun s =>
    (⟨s.tags.size⟩,
      { s with
        tags := s.tags.push { name, origin := .fresh s.home s.serial }
        serial := s.serial + 1 })

/-- Instantiates a generic type. -/
def instantiate (generic : TypeId) (params : Parameters) : ExceptT TypeError Storing TypeId := do
  let s ← get
  if !s.isGeneric generic then
    throw (.construction ((s.read generic).text ++ " is already specialized"))
  else
    match params.descriptor s (s.family generic) with
    | .ok d => liftM (intern d)
    | .error e => throw e

/-- The number type of a family and width. The generic type is made even if the width is not legal. -/
def number (family : Family) (width : Nat) : ExceptT TypeError Storing TypeId := do
  instantiate (← generic family) (.bits width)

/-- The number type of a family and width, a float if the family is no integer one. -/
def numberType (family : Family) (width : Nat) : ExceptT TypeError Storing TypeId :=
  match family with
  | .uint => number .uint width
  | .int => number .int width
  | _ => number .float width

/-- The scalar type with a dtype name. -/
def ofDtype (name : String) : ExceptT TypeError Storing TypeId :=
  if name = "bool" then
    liftM (generic .bool)
  else
    match dtypeParts? name with
    | none => throw (.unknownDtype name)
    | some (family, rest) =>
      match width? rest with
      | none => throw (.unknownDtype name)
      | some width => tryCatch (numberType family width) fun _ => throw (.unknownDtype name)

/-- The declared fields of a record class. -/
def fieldsOf (c : RecordClass) : Storing (List (String × TypeId)) := do
  let s ← get
  return c.fields.map fun (name, t) => (name, s.locate t)

/-- The type that a record class declares. -/
def declaredType (c : RecordClass) : Storing TypeId := do
  let fields ← fieldsOf c
  intern (.record (← classTag c.name c.id) fields c.methods)

/-- Whether the types of a record's values fit its declared fields, position by position. -/
def fitsFields (s : TypeStore) (attributes fields : List (String × TypeId)) : Bool :=
  (attributes.zip fields).all fun ((_, actual), (_, declared)) => s.isSubtype actual declared

mutual

/-- The type of a constant. -/
def typeOfConstant : Constant → ExceptT TypeError Storing TypeId
  | .bool _ => liftM (generic .bool)
  | .int _ => number .int 64
  | .float _ => number .float 64
  | .str _ => liftM (intern (.external "str"))
  | .tuple items => do
      let elements ← typesOfConstants items
      liftM (intern (.tuple elements))
  | .list [] => do
      let object ← liftM (generic .object)
      liftM (intern (.list object))
  | .list (first :: rest) => do
      let element ← typeOfConstant first
      requireElements element rest
      liftM (intern (.list element))
  | .array value => do
      let element ← ofDtype value.dtype
      liftM (intern (.array element))
  | .record c values => do
      if values.length ≠ c.fields.length then
        throw (.structuralMismatch
          ("record of class " ++ c.name ++ " has " ++ toString values.length ++ " values for "
            ++ toString c.fields.length ++ " fields"))
      let types ← typesOfConstants values
      let fields ← liftM (fieldsOf c)
      let actual := (c.fields.map (·.1)).zip types
      let attributes := if fitsFields (← get) actual fields then fields else actual
      let tag ← liftM (classTag c.name c.id)
      liftM (intern (.record tag attributes c.methods))
  | .recordType c => liftM (declaredType c)
  | .type _ => liftM (generic .type)
  | .primitive _ | .graph _ | .metaGraph _ => liftM (generic .function)
  | .symbols .. => liftM (intern (.external "namespace"))
  | .host _ typeName _ => liftM (intern (.external typeName))

/-- The types of several constants, in order. -/
def typesOfConstants : List Constant → ExceptT TypeError Storing (List TypeId)
  | [] => return []
  | c :: cs => do
      let t ← typeOfConstant c
      let ts ← typesOfConstants cs
      return t :: ts

/-- Fails at the first constant that has another type. -/
def requireElements (element : TypeId) : List Constant → ExceptT TypeError Storing Unit
  | [] => return ()
  | c :: cs => do
      let other ← typeOfConstant c
      if other ≠ element then
        let s ← get
        throw (.structuralMismatch
          ("list elements must share one type, found " ++ (s.read element).text ++ " and "
            ++ (s.read other).text))
      requireElements element cs

end

end Storing

end ArrayInference
