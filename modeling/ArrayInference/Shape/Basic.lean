import ArrayInference.Text.Listing

/-!
# Shapes

A shape follows the structure of a type: scalars have none, arrays have one extent for each axis,
and tuples, lists and records carry the shapes of their parts.
-/

namespace ArrayInference

/-- The extent of one axis. -/
inductive Dim where
  | known (extent : UInt64)
  /-- An extent that is only fixed when the program runs. -/
  | anything
deriving DecidableEq, Repr

namespace Dim

def known? : Dim → Option UInt64
  | known n => some n
  | anything => none

def isAnything : Dim → Bool
  | known _ => false
  | anything => true

/-- Equal extents, or one of them unknown. -/
def compatible : Dim → Dim → Bool
  | known m, known n => m = n
  | _, _ => true

/-- Compatible extents, or an extent of one on either side. -/
def broadcastable (d e : Dim) : Bool :=
  d = known 1 || e = known 1 || d.compatible e

def text : Dim → String
  | known n => toString n.toNat
  | anything => "?"

end Dim

/-- The shape of a value. -/
inductive Shape where
  /-- No dimensions: scalars, functions and opaque values. -/
  | noShape
  /-- The extents of an array. -/
  | dims (extents : List Dim)
  /-- One shape for each element of a tuple. -/
  | tuple (items : List Shape)
  /-- The shape that every element of a list has. -/
  | list (element : Shape)
  /-- The shapes of a record's attributes, in order. -/
  | record (attributes : List (String × Shape))

namespace Shape

mutual

/-- Whether two shapes agree all the way down. -/
def same : Shape → Shape → Bool
  | noShape, noShape => true
  | dims ds, dims ds' => ds = ds'
  | tuple ss, tuple ss' => sameList ss ss'
  | list s, list s' => same s s'
  | record as, record as' => sameAttributes as as'
  | _, _ => false

/-- Whether two lists of shapes agree. -/
def sameList : List Shape → List Shape → Bool
  | [], [] => true
  | s :: ss, s' :: ss' => same s s' && sameList ss ss'
  | _, _ => false

/-- Whether two lists of named shapes agree. -/
def sameAttributes : List (String × Shape) → List (String × Shape) → Bool
  | [], [] => true
  | (n, s) :: as, (n', s') :: as' => n = n' && same s s' && sameAttributes as as'
  | _, _ => false

end

mutual

theorem same_iff : ∀ s t : Shape, same s t = true ↔ s = t
  | noShape, t => by cases t <;> simp [same]
  | dims _, t => by cases t <;> simp [same]
  | tuple ss, t => by cases t <;> simp [same, sameList_iff ss]
  | list s, t => by cases t <;> simp [same, same_iff s]
  | record as, t => by cases t <;> simp [same, sameAttributes_iff as]

theorem sameList_iff : ∀ ss ts : List Shape, sameList ss ts = true ↔ ss = ts
  | [], ts => by cases ts <;> simp [sameList]
  | s :: ss, ts => by cases ts <;> simp [sameList, same_iff s, sameList_iff ss]

theorem sameAttributes_iff :
    ∀ as bs : List (String × Shape), sameAttributes as bs = true ↔ as = bs
  | [], bs => by cases bs <;> simp [sameAttributes]
  | (n, s) :: as, bs => by
      rcases bs with _ | ⟨⟨n', t⟩, bs⟩ <;>
        simp [sameAttributes, same_iff s, sameAttributes_iff as]

end

instance : DecidableEq Shape := fun s t => decidable_of_iff _ (same_iff s t)

/-- The shape of an array whose extents are all known. -/
def ofExtents (extents : List UInt64) : Shape :=
  dims (extents.map .known)

/-- The shape of an array of which only the number of axes is known. -/
def unknown (rank : Nat) : Shape :=
  dims (List.replicate rank .anything)

def dims? : Shape → Option (List Dim)
  | dims ds => some ds
  | _ => none

/-- The number of axes of an array. -/
def rank? (s : Shape) : Option Nat :=
  s.dims?.map List.length

/-- Whether this is an array whose extents are all known. -/
def isConcrete (s : Shape) : Bool :=
  s.dims?.any fun ds => ds.all fun d => !d.isAnything

/-- The largest count that is told from larger ones. -/
def maxCount : Nat := UInt64.size - 1

/-- The product of two counts, held at `maxCount`. -/
def saturatingMul (m n : Nat) : Nat :=
  min (m * n) maxCount

/-- The number of elements of an array whose extents are all known. -/
def elementCount? (s : Shape) : Option Nat :=
  s.dims?.bind fun ds =>
    ds.foldlM (fun count d => d.known?.map fun n => saturatingMul count n.toNat) 1

/-- The shape of the first attribute of that name. -/
def attribute? (s : Shape) (name : String) : Option Shape :=
  match s with
  | record as => as.lookup name
  | _ => none

mutual

/-- The text of a shape, such as `T(NOSHAPE, (3, ?))`. -/
def text : Shape → String
  | noShape => "NOSHAPE"
  | dims ds => Text.tupled (ds.map Dim.text)
  | tuple ss => "T(" ++ Text.commaSeparated (texts ss) ++ ")"
  | list s => "L" ++ text s
  | record as => "C\x7b" ++ Text.commaSeparated (attributeTexts as) ++ "\x7d"

def texts : List Shape → List String
  | [] => []
  | s :: ss => text s :: texts ss

/-- The text of each attribute, such as `x: (3,)`. -/
def attributeTexts : List (String × Shape) → List String
  | [] => []
  | (name, s) :: rest => (name ++ ": " ++ text s) :: attributeTexts rest

end

end Shape

end ArrayInference
