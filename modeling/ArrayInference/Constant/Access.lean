import ArrayInference.Constant.Basic

/-!
# Attributes and items of constants

Reading a named attribute or an item of a constant. A position counts from the end when it is
negative.
-/

namespace ArrayInference

/-- The position that an index names among `count` items. -/
def position? (index : Int) (count : Nat) : Option Nat :=
  let resolved := if index < 0 then index + count else index
  if 0 ≤ resolved ∧ resolved < count then some resolved.toNat else none

namespace Constant

/-- An attribute by name. A record offers its fields first and then its methods, as graphs. -/
def attribute? (c : Constant) (name : String) : Option Constant :=
  match c with
  | record cls values =>
    match cls.fieldIndex? name with
    | some index => values[index]?
    | none => (cls.method? name).map graph
  | host _ _ attributes => attributes.lookup name
  | symbols _ _ entries => entries.lookup name
  | _ => none

/-- An item by key: a name in a namespace, a position in a tuple or a list. -/
def item? (c : Constant) (key : Constant) : Option Constant :=
  match c, key with
  | symbols _ _ entries, str name => entries.lookup name
  | tuple items, int index => (position? index.toInt items.length).bind fun i => items[i]?
  | list items, int index => (position? index.toInt items.length).bind fun i => items[i]?
  | _, _ => none

end Constant

end ArrayInference
