/-!
# Schedules

Which task has its turn next. Tasks that can go on stand in a queue; tasks that were made during a
turn wait outside until the round ends. A round has as many turns as there were tasks when it began,
and it also ends when a task ends or the queue is empty.
-/

namespace ArrayInference

/-- The number of a task. -/
abbrev TaskId := Nat

/-- The order of turns. -/
structure Schedule where
  /-- The tasks that can go on, in the order of their turns. -/
  ready : List TaskId
  /-- The tasks made since the round began. -/
  incoming : List TaskId
  /-- How many tasks have begun and not ended. -/
  total : Nat
  /-- How many turns the round still has. -/
  turns : Nat
deriving DecidableEq, Repr

namespace Schedule

def empty : Schedule :=
  { ready := [], incoming := [], total := 0, turns := 0 }

/-- Enters a new task. -/
def spawn (s : Schedule) (task : TaskId) : Schedule :=
  { s with incoming := s.incoming ++ [task] }

/-- Puts tasks at the end of the queue, unless they stand in it already. -/
def wake (s : Schedule) (tasks : List TaskId) : Schedule :=
  { s with ready := tasks.foldl (fun ready t => if t ∈ ready then ready else ready ++ [t]) s.ready }

/-- Begins a round: the new tasks join the queue. -/
def beginRound (s : Schedule) : Schedule :=
  let total := s.total + s.incoming.length
  { ready := s.ready ++ s.incoming, incoming := [], total, turns := total }

/-- Begins a round if the last one has ended. -/
def advanceRound (s : Schedule) : Schedule :=
  if s.turns = 0 || s.ready.isEmpty then s.beginRound else s

/-- The task whose turn it is, and the schedule during its turn. There is none if no task can go
on. -/
def next? (s : Schedule) : Option (TaskId × Schedule) :=
  let s := s.advanceRound
  match s.ready with
  | [] => none
  | task :: rest => some (task, { s with ready := rest, turns := s.turns - 1 })

/-- A task has ended, and the round with it. -/
def finish (s : Schedule) : Schedule :=
  { s with total := s.total - 1, turns := 0 }

end Schedule

end ArrayInference
