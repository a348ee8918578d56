import ArrayInference.Constant.Summary
import ArrayInference.Promise
import ArrayInference.Shape.Summary

/-!
# Waiting rooms

A promise together with visitors who want its result. A visitor who comes too early stays until the
promise is settled. Visitors are served in rounds: those who were woken come first, in the order in
which they began to wait, and then those who have come since the last round.
-/

namespace ArrayInference

def Value.summary : Value → String
  | known c => Text.applied "Known" c.summary
  | anything => "Anything"

def Property.summary : Property → String
  | value v => Text.applied "Value" v.summary
  | type t => Text.applied "Type" t.text
  | shape s => Text.applied "Shape" s.summary
  | inferrer f => Text.applied "Inferrer" f.summary

/-- An outcome as a record. -/
def Outcome.summary : Outcome → String
  | .ok p => Text.applied "Ok" p.summary
  | .error e => Text.applied "Err" e.summary

/-- A promise as a record of its result and of how many wait for it. -/
def Promise.summary {ω : Type} (p : Promise ω) : String :=
  let result := p.result.elim "None" fun r => Text.applied "Some" r.summary
  Text.fielded "Promise" [("result", result), ("waiters", toString p.waiters.length)]

/-- A promise and its visitors, who are numbered as they come. -/
structure WaitingRoom where
  promise : Promise Nat
  /-- The visitors who have been woken. -/
  woken : List Nat
  /-- The visitors who have come since the last round. -/
  arrived : List Nat
  /-- The number of the next visitor. -/
  next : Nat

namespace WaitingRoom

/-- A promise that nobody has asked for. -/
def empty : WaitingRoom :=
  { promise := .pending, woken := [], arrived := [], next := 0 }

/-- A visitor comes. -/
def enter (w : WaitingRoom) : WaitingRoom :=
  { w with arrived := w.arrived ++ [w.next], next := w.next + 1 }

/-- Takes over what a settled promise leaves, and whom it wakes; says whether it was settled. -/
def settle (w : WaitingRoom) : Option (List Nat × Promise Nat) → Bool × WaitingRoom
  | some (woken, promise) => (true, { w with promise, woken := w.woken ++ woken })
  | none => (false, w)

/-- Gives the promise its result, unless it has one. -/
def resolve (w : WaitingRoom) (r : Outcome) : Bool × WaitingRoom :=
  w.settle (w.promise.resolve? r)

/-- Turns the promise into a failure, unless it is one. -/
def poison (w : WaitingRoom) (e : InferError) : Bool × WaitingRoom :=
  w.settle (w.promise.poison? e)

/-- One visitor asks; who gets a result leaves with it. -/
def askOnce (served : List (Nat × Outcome)) (p : Promise Nat) (visitor : Nat) :
    List (Nat × Outcome) × Promise Nat :=
  let (r, p) := p.ask visitor
  (served ++ (r.map fun r => (visitor, r)).toList, p)

/-- A round: everyone who can asks once. -/
def serve (w : WaitingRoom) : List (Nat × Outcome) × WaitingRoom :=
  let (served, promise) := (w.woken ++ w.arrived).foldl
    (fun (served, p) visitor => askOnce served p visitor) ([], w.promise)
  (served, { w with promise, woken := [], arrived := [] })

end WaitingRoom

end ArrayInference
