import ArrayInference.Primitive
import ArrayInference.Type.Equality
import ArrayInference.Type.Error

/-!
# Constants

The host values that a program can hold. Floats are kept as their bits, so that two floats are the
same constant exactly when their bits agree. Record classes, graph generators, namespaces and
objects are shared: each carries the identity that tells it apart from an equal one.
-/

namespace ArrayInference

/-- An array is known by its element dtype and its extents. -/
structure ArrayValue where
  dtype : String
  extents : List UInt64
deriving DecidableEq, Repr

/-- A record class of the host: typed fields in declaration order, and methods. -/
structure RecordClass where
  id : ObjectId
  name : String
  fields : List (String × Ty)
  methods : List (String × GraphId)
deriving DecidableEq

namespace RecordClass

/-- The position of the first field of that name. -/
def fieldIndex? (c : RecordClass) (name : String) : Option Nat :=
  c.fields.findIdx? fun (field, _) => field = name

/-- The graph of the first method of that name. -/
def method? (c : RecordClass) (name : String) : Option GraphId :=
  c.methods.lookup name

end RecordClass

/-- What a graph generator makes for the argument types of a call. -/
inductive Recipe where
  /-- No graph: it refuses with this error. -/
  | refuse (error : TypeError)
  /-- A graph that is already there. -/
  | existing (graph : GraphId)
  /-- A left fold of an operator over the arguments. -/
  | fold (operator : Primitive)
  /-- The tuple of the argument types. -/
  | types
  /-- A graph without output. -/
  | empty
deriving DecidableEq, Repr

/-- A graph generator, called like a graph. -/
structure MetaGraph where
  id : ObjectId
  name : String
  recipe : Recipe
deriving DecidableEq, Repr

/-- A host value known before the program runs. -/
inductive Constant where
  | bool (value : Bool)
  | int (value : Int64)
  | float (bits : UInt64)
  | str (value : String)
  | tuple (items : List Constant)
  | list (items : List Constant)
  | array (value : ArrayValue)
  | record (cls : RecordClass) (values : List Constant)
  /-- A record class as a value; a call of it makes a record. -/
  | recordType (cls : RecordClass)
  /-- A type as a value. -/
  | type (value : Ty)
  | primitive (value : Primitive)
  | graph (value : GraphId)
  | metaGraph (value : MetaGraph)
  | symbols (id : ObjectId) (name : String) (entries : List (String × Constant))
  | host (id : ObjectId) (typeName : String) (attributes : List (String × Constant))

namespace Constant

/-- The name of the constant's kind. -/
def kind : Constant → String
  | bool _ => "Bool"
  | int _ => "Int"
  | float _ => "Float"
  | str _ => "Str"
  | tuple _ => "Tuple"
  | list _ => "List"
  | array _ => "Array"
  | record .. => "Record"
  | recordType _ => "RecordType"
  | type _ => "Type"
  | primitive _ => "Primitive"
  | graph _ => "Graph"
  | metaGraph _ => "MetaGraph"
  | symbols .. => "Namespace"
  | host .. => "Opaque"

def bool? : Constant → Option Bool
  | bool v => some v
  | _ => none

def int? : Constant → Option Int64
  | int v => some v
  | _ => none

def str? : Constant → Option String
  | str v => some v
  | _ => none

/-- Whether a node that holds the constant can be called. -/
def isCallable : Constant → Bool
  | primitive _ | graph _ | metaGraph _ | recordType _ => true
  | _ => false

/-- The entries in the order of their first mention, a repeated name keeping its last constant. -/
def entriesOf (pairs : List (String × Constant)) : List (String × Constant) :=
  (pairs.map (·.1)).eraseDups.filterMap fun name =>
    (pairs.reverse.lookup name).map fun value => (name, value)

mutual

/-- Whether two constants agree all the way down. -/
def same : Constant → Constant → Bool
  | bool v, bool v' => v = v'
  | int v, int v' => v = v'
  | float b, float b' => b = b'
  | str v, str v' => v = v'
  | tuple vs, tuple vs' => sameList vs vs'
  | list vs, list vs' => sameList vs vs'
  | array v, array v' => v = v'
  | record c vs, record c' vs' => c = c' && sameList vs vs'
  | recordType c, recordType c' => c = c'
  | type t, type t' => t = t'
  | primitive p, primitive p' => p = p'
  | graph g, graph g' => g = g'
  | metaGraph m, metaGraph m' => m = m'
  | symbols i n es, symbols i' n' es' => i = i' && n = n' && sameEntries es es'
  | host i n es, host i' n' es' => i = i' && n = n' && sameEntries es es'
  | _, _ => false

/-- Whether two lists of constants agree. -/
def sameList : List Constant → List Constant → Bool
  | [], [] => true
  | v :: vs, v' :: vs' => same v v' && sameList vs vs'
  | _, _ => false

/-- Whether two lists of named constants agree. -/
def sameEntries : List (String × Constant) → List (String × Constant) → Bool
  | [], [] => true
  | (n, v) :: es, (n', v') :: es' => n = n' && same v v' && sameEntries es es'
  | _, _ => false

end

mutual

theorem same_iff : ∀ c d : Constant, same c d = true ↔ c = d
  | bool _, d => by cases d <;> simp [same]
  | int _, d => by cases d <;> simp [same]
  | float _, d => by cases d <;> simp [same]
  | str _, d => by cases d <;> simp [same]
  | tuple vs, d => by cases d <;> simp [same, sameList_iff vs]
  | list vs, d => by cases d <;> simp [same, sameList_iff vs]
  | array _, d => by cases d <;> simp [same]
  | record _ vs, d => by cases d <;> simp [same, sameList_iff vs]
  | recordType _, d => by cases d <;> simp [same]
  | type _, d => by cases d <;> simp [same]
  | primitive _, d => by cases d <;> simp [same]
  | graph _, d => by cases d <;> simp [same]
  | metaGraph _, d => by cases d <;> simp [same]
  | symbols _ _ es, d => by cases d <;> simp [same, sameEntries_iff es, and_assoc]
  | host _ _ es, d => by cases d <;> simp [same, sameEntries_iff es, and_assoc]

theorem sameList_iff : ∀ cs ds : List Constant, sameList cs ds = true ↔ cs = ds
  | [], ds => by cases ds <;> simp [sameList]
  | c :: cs, ds => by cases ds <;> simp [sameList, same_iff c, sameList_iff cs]

theorem sameEntries_iff :
    ∀ cs ds : List (String × Constant), sameEntries cs ds = true ↔ cs = ds
  | [], ds => by cases ds <;> simp [sameEntries]
  | (n, c) :: cs, ds => by
      rcases ds with _ | ⟨⟨n', d⟩, ds⟩ <;>
        simp [sameEntries, same_iff c, sameEntries_iff cs]

end

instance : DecidableEq Constant := fun c d => decidable_of_iff _ (same_iff c d)

end Constant

end ArrayInference
