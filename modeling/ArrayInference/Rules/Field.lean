import ArrayInference.Constant.Access
import ArrayInference.Infer.Access
import ArrayInference.Rules.Registry

/-!
# Access to fields and items

Attributes of a value whose type is a record are read off by a rule of each track. Everything else
is read from a known constant while the program is inferred.
-/

namespace ArrayInference

/-- The two ways to reach into a constant. -/
inductive Access where
  /-- An attribute of a record, a namespace or a host object. -/
  | named
  /-- An entry of a namespace, or an item of a tuple or a list. -/
  | keyed
deriving DecidableEq, Repr

namespace Access

/-- The operator that reaches in this way. -/
def name : Access → String
  | named => "getattr"
  | keyed => "resolve"

/-- What is found in a constant under a key. -/
def find? (access : Access) (container key : Constant) : Option Constant :=
  match access with
  | named => key.str?.bind container.attribute?
  | keyed => container.item? key

end Access

namespace Infer

/-- The method that a key names in a record type. -/
def methodOf? (t : Ty) (key : Constant) : Option GraphId := do
  let c ← t.class?
  let name ← key.str?
  c.method? name

/-- What a constant container holds under a key. A method of a record is its graph with the record
bound as the first argument; anything else needs the container to be a known constant. -/
def access (how : Access) (track : Track) (container key : Ref) : Infer Property := do
  match ← valueOf key with
  | .anything => fail (.inference "item must be constant")
  | .known name => do
      let t ← typeOf container
      match methodOf? t name with
      | some method => do
          let f ← graphInferrer track method .empty
          bindArguments f [container]
      | none =>
        match ← valueOf container with
        | .anything =>
            fail (.inference
              ("cannot " ++ how.name ++ " " ++ name.text ++ " on a value that is not constant"))
        | .known value =>
          match how.find? value name with
          | some found => constant found track
          | none =>
              fail (.inference
                (how.name ++ " of " ++ value.text ++ " failed for " ++ name.text))

/-- The attribute that a key names in a record, with its type. There is none if the container is not
a record, or if the record has no attribute of that name. -/
def recordAttribute (container key : Ref) : Infer (Option (String × Ty)) := do
  let t ← typeOf container
  match t.class? with
  | none => done none
  | some c => do
      let name ← constantOf key "attribute name"
      match name.str? with
      | none => fail (.inference ("attribute name must be a string, got " ++ name.text))
      | some name => done ((c.attribute? name).map fun t => (name, t))

end Infer

/-- The complaint about a record class that is called on the wrong number of values. -/
def ClassDesc.wrongValueCount (c : ClassDesc) (actual : Nat) : InferError :=
  .inference
    (c.tag.name ++ " has " ++ toString c.attributes.length ++ " attributes, got "
      ++ toString actual ++ " values")

namespace Rule

/-- `resolve(container, key)`. -/
def resolve : Rule := binary fun track container key => Infer.access .keyed track container key

/-- The complaint about an index beyond the ends of a tuple. -/
def outOfRange (index : Int64) (count : Nat) : InferError :=
  .inference
    ("tuple index " ++ toString index.toInt ++ " out of range for " ++ toString count ++ " elements")

/-- The position that a constant index names in a tuple. -/
def tuplePosition (index : Constant) (count : Nat) : Except InferError Nat :=
  match index with
  | .int i =>
    match position? i.toInt count with
    | some n => .ok n
    | none => .error (outOfRange i count)
  | c => .error (.inference ("tuple index must be an integer, got " ++ c.text))

/-- The item that a constant index names in a tuple. -/
def tupleItem {α : Type} (index : Constant) (items : List α) : Except InferError α :=
  match index with
  | .int i =>
    match (position? i.toInt items.length).bind fun n => items[n]? with
    | some item => .ok item
    | none => .error (outOfRange i items.length)
  | c => .error (.inference ("tuple index must be an integer, got " ++ c.text))

end Rule

end ArrayInference
