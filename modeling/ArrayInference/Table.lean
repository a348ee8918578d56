/-!
# Tables

A finite map as a list of pairs in the order in which its keys were first entered. No key occurs
twice.
-/

namespace ArrayInference

/-- The pairs of a finite map. -/
abbrev Table (κ α : Type) := List (κ × α)

namespace Table

variable {κ α : Type} [DecidableEq κ]

/-- What a key stands for. -/
def find? (t : Table κ α) (key : κ) : Option α :=
  match t with
  | [] => none
  | (k, a) :: rest => if k = key then some a else find? rest key

/-- Whether a key is entered. -/
def contains (t : Table κ α) (key : κ) : Bool :=
  (find? t key).isSome

/-- Enters a key, or changes what it stands for. -/
def insert (t : Table κ α) (key : κ) (value : α) : Table κ α :=
  match t with
  | [] => [(key, value)]
  | (k, a) :: rest => if k = key then (k, value) :: rest else (k, a) :: insert rest key value

/-- Removes a key. -/
def erase (t : Table κ α) (key : κ) : Table κ α :=
  match t with
  | [] => []
  | (k, a) :: rest => if k = key then rest else (k, a) :: erase rest key

end Table

end ArrayInference
