import ArrayInference.Engine.State
import ArrayInference.Infer.Conditional

/-!
# Runs

A run computes one property. Every entry that is asked for is computed by a task of its own, and
both branches of an undecided conditional are tasks as well. A task has turns: it goes on until it
ends or needs a result that is still missing. The run is over when no task can go on; if the
property is still missing then, it depends on itself.

Everything that lives only as long as a run is part of `Run`. What is left of it afterwards is the
engine, without the entries that never got a result.
-/

namespace ArrayInference

/-- What a task can wait for. -/
inductive Source where
  /-- The result of an entry. -/
  | entry (key : Entry)
  /-- The result of the branch that ends first. -/
  | cell (id : Nat)
deriving DecidableEq

/-- What a branch of an undecided conditional is checked against when it ends. -/
structure BranchCheck where
  /-- The place of the result that the conditional takes. -/
  cell : Nat
  track : Track
  /-- The entry that the conditional is a part of. -/
  site : Option Entry
  /-- The nodes of both branches. -/
  nodes : List NodeId
  /-- This branch. -/
  subject : Ref

/-- What a task is for. -/
inductive Goal where
  /-- The property that the run was asked for. -/
  | answer
  /-- The result of an entry. -/
  | entry (key : Entry)
  /-- One branch of an undecided conditional. -/
  | branch (check : BranchCheck)

/-- The entry for which a task computes. -/
def Goal.reader : Goal → Option Entry
  | .answer => none
  | .entry key => some key
  | .branch _ => none

/-- How far a task has come. -/
inductive Work where
  /-- It can go on with a computation. -/
  | ready (body : Infer Property)
  /-- It waits for a result. -/
  | waiting (source : Source) (next : Property → Infer Property)
  /-- It waits for something that never comes. -/
  | forever

/-- A task that has not ended. -/
structure Task where
  goal : Goal
  work : Work

/-- An engine in the middle of a run. -/
structure Run where
  engine : Engine
  /-- Whether tasks can be made. They cannot while a property is asked for outside a run. -/
  active : Bool
  schedule : Schedule
  tasks : Table TaskId Task
  /-- The number of the next task. -/
  nextTask : TaskId
  cells : Array (Promise TaskId)
  /-- The errors of branches that ended second. -/
  detached : List InferError
  /-- The property that the run was asked for. -/
  outcome : Option Outcome

namespace Run

/-- The error of a task that is made outside a run. -/
def notActive : InferError :=
  .inference "no inference run is active"

/-- An engine at the start of a run. -/
def start (engine : Engine) (active : Bool) : Run :=
  { engine, active
    schedule := .empty
    tasks := []
    nextTask := 0
    cells := #[]
    detached := []
    outcome := none }

/-- Makes a task. -/
def spawn (s : Run) (goal : Goal) (body : Infer Property) : Run :=
  { s with
    schedule := s.schedule.spawn s.nextTask
    tasks := s.tasks.insert s.nextTask { goal, work := .ready body }
    nextTask := s.nextTask + 1 }

/-- Puts tasks back into the queue. -/
def wake (s : Run) (tasks : List TaskId) : Run :=
  { s with schedule := s.schedule.wake tasks }

/-- Changes the memo. -/
def setMemo (s : Run) (memo : Memo) : Run :=
  { s with engine := { s.engine with memo } }

/-- The promise behind a source. -/
def promise? (s : Run) : Source → Option (Promise TaskId)
  | .entry key => s.engine.memo.find? key
  | .cell id => s.cells[id]?

/-- Changes the promise behind a source. -/
def setPromise (s : Run) (source : Source) (p : Promise TaskId) : Run :=
  match source with
  | .entry key => s.setMemo (s.engine.memo.insert key p)
  | .cell id => { s with cells := s.cells.setIfInBounds id p }

/-- Gives a source its result, unless it has one. -/
def resolve (s : Run) (source : Source) (r : Outcome) : Run :=
  match (s.promise? source).bind fun p => p.resolve? r with
  | some (woken, p) => (s.setPromise source p).wake woken
  | none => s

/-- Turns an entry, and everything that read it, into a failure. -/
def poison (s : Run) (key : Entry) (e : InferError) : Run :=
  let (woken, memo) := s.engine.memo.poison s.engine.readers key e
  (s.setMemo memo).wake woken

/-- The outcome of a task of a node. -/
def attributed (node : NodeId) : Outcome → Outcome
  | .ok p => .ok p
  | .error e => .error (e.attributeTo node)

/-- Notes that an entry is read while another one is computed. -/
def addReader (s : Run) (key : Entry) (reader : Option Entry) : Run :=
  match reader with
  | none => s
  | some reader => { s with engine := { s.engine with readers := s.engine.readers.add key reader } }

/-- Sees to it that an entry is computed. Outside a run it fails at once. -/
def request (s : Run) (key : Entry) : Run :=
  if s.engine.memo.contains key then s
  else if s.active then
    let s := s.setMemo (s.engine.memo.insert key .pending)
    s.spawn (.entry key) (key.ref.infer key.track)
  else
    s.setMemo (s.engine.memo.insert key
      { result := some (.error (notActive.attributeTo key.ref.node)), waiters := [] })

/-- Makes the tasks of both branches of a conditional, and the place of the first result. -/
def race (s : Run) (site : Option Entry) (track : Track) (use : BranchUse) (first second : Ref) :
    Nat × Run :=
  let cell := s.cells.size
  let nodes := [first, second].filterMap Ref.node?
  let check (subject : Ref) : BranchCheck := { cell, track, site, nodes, subject }
  let s := { s with cells := s.cells.push .pending }
  let s := s.spawn (.branch (check first)) (Infer.branch track use first)
  let s := s.spawn (.branch (check second)) (Infer.branch track use second)
  (cell, s)

/-- Where a turn of a task leaves it. -/
inductive Progress (α : Type) where
  | ended (r : Except InferError α)
  | waiting (source : Source) (next : Property → Infer α)
  /-- It has to compute a call before it can go on. -/
  | calling (body : Infer α)
  | forever

/-- What an asking task learns from a source: the result, or that it has to wait. -/
def await (s : Run) (self : TaskId) (source : Source) : Option Outcome × Run :=
  match s.promise? source with
  | none => (none, s)
  | some p =>
    let (r, p) := p.ask self
    (r, s.setPromise source p)

/-- Goes on with a computation until it ends, has to wait, or calls. Whatever it reads is noted as
read by `reader`. -/
def advance {α : Type} (self : TaskId) (reader : Option Entry) :
    Infer α → Run → Progress α × Run
  | .done a, s => (.ended (.ok a), s)
  | .fail e, s => (.ended (.error e), s)
  | .ask query next, s =>
      let (a, engine) := (EngineM.answer query).run s.engine
      advance self reader (next a) { s with engine }
  | .demand key next, s =>
      let s := (s.addReader key reader).request key
      match s.await self (.entry key) with
      | (some (.ok p), s) => advance self reader (next p) s
      | (some (.error e), s) => (.ended (.error e), s)
      | (none, s) => (.waiting (.entry key) next, s)
  | .call callee args next, s =>
      match s.engine.callable? callee with
      | some c => (.calling ((c.body args).bind next), s)
      | none => (.ended (.error (.inference (callee.text ++ " is not callable"))), s)
  | .unify track use first second next, s =>
      if s.active then
        let (cell, s) := s.race reader track use first second
        let (_, s) := s.await self (.cell cell)
        (.waiting (.cell cell) next, s)
      else (.ended (.error notActive), s)
  | .forever, s => (.forever, s)

/-- A turn of a computation, with all the calls that it makes. There is no result if it never stops
calling. -/
def work {α : Type} (self : TaskId) (reader : Option Entry) (body : Infer α) (s : Run) :
    Option (Progress α × Run) :=
  match advance self reader body s with
  -- by a tactic, so that the term keeps no place in the text with the call
  | (.calling body, s) => by apply work; exact self; exact reader; exact body; exact s
  | (progress, s) => some (progress, s)
partial_fixpoint

/-- A branch that ended second has failed or disagrees: the conditional and everything that read it
fail, and so does the run. -/
def failBranch (s : Run) (site : Option Entry) (e : InferError) : Run :=
  let s := match site with
    | some key => s.poison key e
    | none => s
  { s with detached := s.detached ++ [e] }

/-- Whether the properties of two branches agree. -/
def agree (track : Track) (first second : Property) : Bool :=
  match first, second with
  | .inferrer f, .inferrer g => f.provablyEquivalent g
  | p, q => (Property.merge track p q).toBool

/-- A branch has ended. The first one gives the conditional its property; the second one is compared
with it. -/
def endBranch (s : Run) (c : BranchCheck) (r : Outcome) : Run :=
  match (s.promise? (.cell c.cell)).bind fun p => p.result with
  | none => s.resolve (.cell c.cell) r
  | some (.error _) => s
  | some (.ok first) =>
    match r with
    | .error e => s.failBranch c.site e
    | .ok second =>
      if agree c.track first second then
        let d : Diagnostic :=
          { reason := .branchesUnified c.track, subject := some (s.engine.describe c.subject) }
        { s with engine := { s.engine with diagnostics := s.engine.diagnostics.emit d } }
      else
        s.failBranch c.site
          ⟨.branchMismatch c.track first.text second.text, c.nodes⟩

/-- A task has ended. -/
def endTask (s : Run) (self : TaskId) (goal : Goal) (r : Outcome) : Run :=
  let s := { s with tasks := s.tasks.erase self, schedule := s.schedule.finish }
  match goal with
  | .answer => { s with outcome := some r }
  | .entry key => s.resolve (.entry key) (attributed key.ref.node r)
  | .branch check => s.endBranch check r

/-- Leaves a task where its turn has brought it. -/
def settle (s : Run) (self : TaskId) (goal : Goal) : Progress Property → Run
  | .ended r => s.endTask self goal r
  | .waiting source next =>
      { s with tasks := s.tasks.insert self { goal, work := .waiting source next } }
  | .calling body => { s with tasks := s.tasks.insert self { goal, work := .ready body } }
  | .forever => { s with tasks := s.tasks.insert self { goal, work := .forever } }

/-- A turn of a task. There is no result if the turn never ends. -/
def turn (s : Run) (self : TaskId) : Option Run :=
  match s.tasks.find? self with
  | none => some s
  | some task =>
    let go (body : Infer Property) (s : Run) : Option Run :=
      (work self task.goal.reader body s).map fun (progress, s) => s.settle self task.goal progress
    match task.work with
    | .ready body => go body s
    | .forever => some s
    | .waiting source next =>
      match s.await self source with
      | (none, s) => some s
      | (some (.error e), s) => some (s.endTask self task.goal (.error e))
      | (some (.ok p), s) => go (next p) s

/-- Gives turns until no task can go on. There is no result if that never happens. -/
def drive (s : Run) : Option Run :=
  match s.schedule.next? with
  | none => some s
  | some (task, schedule) =>
    match turn { s with schedule } task with
    | none => none
    | some s => by apply drive; exact s
partial_fixpoint

/-- The engine after a run. Entries without a result are forgotten, and so are their readers. -/
def close (s : Run) : Engine :=
  let memo := s.engine.memo.resolved
  { s.engine with memo, readers := memo.readersOf s.engine.readers }

/-- What a run that is over has found. A run with a detached error fails even if its property is
there. -/
def result (s : Run) : Outcome :=
  match s.outcome, s.detached with
  | some (.ok p), [] => .ok p
  | some (.ok _), e :: _ => .error e
  | some (.error e), _ => .error e
  | none, _ => .error (.inference "inference stalled: the result depends on itself")

end Run

namespace Engine

/-- Runs a computation, and everything that it asks for. There is no result if the run never ends. -/
def run? (e : Engine) (body : Infer Property) : Option (Outcome × Engine) :=
  (((Run.start e true).spawn .answer body).drive).map fun s => (s.result, s.close)

/-- What stands for the outcome of a run that never ends. Nobody gets to see it. -/
def endless : InferError :=
  .inference "inference never ends"

/-- Runs a computation, and everything that it asks for. -/
def run (e : Engine) (body : Infer Property) : Outcome × Engine :=
  (e.run? body).getD (.error endless, e)

/-- Looks at what a computation finds without a run: its result, or `none` if it would have to wait.
Entries that it asks for in vain have failed from then on. -/
def glance {α : Type} (e : Engine) (body : Infer α) :
    Option (Except InferError α) × Engine :=
  match Run.work 0 none body (Run.start e false) with
  | some (.ended r, s) => (some r, s.engine)
  | some (_, s) => (none, s.engine)
  | none => (none, e)

end Engine

end ArrayInference
