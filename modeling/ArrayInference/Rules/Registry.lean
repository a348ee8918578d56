import ArrayInference.Infer.Call
import ArrayInference.Table

/-!
# Rule registries

A registry holds at most one rule for each operator, with the number of arguments it takes.
-/

namespace ArrayInference

/-- The rules of one track. -/
structure Registry where
  rules : Table Primitive (Arity × Rule)

namespace Registry

def empty : Registry :=
  { rules := [] }

/-- Enters a rule in place of any other one. -/
def insert (r : Registry) (operator : Primitive) (arity : Arity) (rule : Rule) : Registry :=
  { rules := r.rules.insert operator (arity, rule) }

/-- Enters the same rule for several operators. -/
def insertAll (r : Registry) (operators : List Primitive) (arity : Arity) (rule : Rule) :
    Registry :=
  operators.foldl (fun r operator => r.insert operator arity rule) r

def get? (r : Registry) (operator : Primitive) : Option (Arity × Rule) :=
  r.rules.find? operator

def contains (r : Registry) (operator : Primitive) : Bool :=
  r.rules.contains operator

def size (r : Registry) : Nat :=
  r.rules.length

/-- Enters a rule for an operator that has none. -/
def register (r : Registry) (operator : Primitive) (arity : Arity) (rule : Rule) :
    Except InferError Registry :=
  if r.contains operator then
    .error (.inference ("a rule for primitive " ++ operator.name ++ " is already registered"))
  else .ok (r.insert operator arity rule)

end Registry

namespace Rule

/-- The error of a rule that was called on the wrong number of arguments. -/
def wrongCount (expected actual : Nat) : InferError :=
  .inference
    ("expected " ++ toString expected ++ " arguments, got " ++ toString actual)

/-- A rule of one argument. -/
def unary (rule : Track → Ref → Infer Property) : Rule := fun track args =>
  match args with
  | [x] => rule track x
  | _ => .fail (wrongCount 1 args.length)

/-- A rule of two arguments. -/
def binary (rule : Track → Ref → Ref → Infer Property) : Rule := fun track args =>
  match args with
  | [x, y] => rule track x y
  | _ => .fail (wrongCount 2 args.length)

/-- A rule of three arguments. -/
def ternary (rule : Track → Ref → Ref → Ref → Infer Property) : Rule := fun track args =>
  match args with
  | [x, y, z] => rule track x y z
  | _ => .fail (wrongCount 3 args.length)

/-- A rule of four arguments. -/
def quaternary (rule : Track → Ref → Ref → Ref → Ref → Infer Property) : Rule := fun track args =>
  match args with
  | [x, y, z, w] => rule track x y z w
  | _ => .fail (wrongCount 4 args.length)

/-- A rule of one argument and any number of others. `missing` is the complaint about a call
without arguments. -/
def variadic (missing : String) (rule : Track → Ref → List Ref → Infer Property) : Rule :=
  fun track args =>
    match args with
    | [] => .fail (.inference missing)
    | x :: rest => rule track x rest

end Rule

end ArrayInference
