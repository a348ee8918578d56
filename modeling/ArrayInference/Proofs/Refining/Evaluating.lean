import ArrayInference.Proofs.Refining.Rounds
import ArrayInference.Proofs.Run.Success
import ArrayInference.Proofs.Run.Trace

/-!
# Runs evaluate

Whatever a run finds can be evaluated with what it knows in the end: with its engine, and with the
results of its undecided conditionals for verdicts. In a cautious run both branches of each of these end
and say as much as the conditional does. Main statements: each turn keeps what is evaluated, and the
branches of a cautious run evaluate to what covers the verdict.
-/

namespace ArrayInference

namespace Book

/-- A book in which calls give what their bodies give. -/
structure Closed (k : Book) : Prop where
  calls : ∀ {f : Inferrer} {c : Callable} {args : List Ref} {p : Property},
    k.engine.callable? f = some c → k.Finds (c.body args) p → k.calls f args p

/-- Whatever a computation comes to find, the other one finds as well. -/
def Leads (k : Book) (b o : Infer Property) : Prop :=
  ∀ l : Book, k.Le l → l.Closed → ∀ p, l.Finds b p → l.Finds o p

variable {k l : Book} {b o : Infer Property}

theorem Leads.refl (k : Book) (b : Infer Property) : k.Leads b b :=
  fun _ _ _ _ => id

theorem Leads.mono (h : k.Leads b o) (le : k.Le l) : l.Leads b o :=
  fun m le' => h m (le.trans le')

end Book

theorem Engine.closed_evaluates (e : Engine) (v : Verdicts) : (e.evaluates v).Closed :=
  ⟨fun callable finds => calls_iff.mpr ⟨_, callable, finds⟩⟩

/-- An undecided conditional: how it uses its branches on which track, and the branches. -/
structure Contest where
  track : Track
  use : BranchUse
  first : Ref
  second : Ref

/-- One of the branches. -/
def Contest.Has (c : Contest) (x : Ref) : Prop :=
  x = c.first ∨ x = c.second

namespace Book

/-- What a source is known to hold. The cells are those of some conditionals. -/
def Learns (k : Book) (contests : Array Contest) : Source → Property → Prop
  | .entry key, p => k.found key p
  | .cell id, p => ∀ c, contests[id]? = some c → k.verdicts c.track c.use c.first c.second p

/-- Work that leads to what a computation finds. -/
def Heads (k : Book) (contests : Array Contest) (o : Infer Property) : Work → Prop
  | .ready b => k.Leads b o
  | .waiting source next => ∀ l : Book, k.Le l → l.Closed → ∀ p, l.Learns contests source p →
      l.Leads (next p) o
  | .forever => True

/-- Where a turn may leave a task that carries out a computation. -/
def Arrives (k : Book) (contests : Array Contest) (o : Infer Property) : Run.Progress Property → Prop
  | .ended (.ok p) => k.Finds o p
  | .ended (.error _) | .forever => True
  | .waiting source next => k.Heads contests o (.waiting source next)
  | .calling body => k.Leads body o

variable {k l : Book} {contests contests' : Array Contest} {o : Infer Property}

theorem Heads.mono {work : Work} (h : k.Heads contests o work) (le : k.Le l)
    (sub : ∀ {id : Nat} {c : Contest}, contests[id]? = some c → contests'[id]? = some c) :
    l.Heads contests' o work := by
  cases work with
  | ready b => exact Leads.mono h le
  | forever => trivial
  | waiting source next =>
    intro m le' closed p learns
    refine h m (le.trans le') closed p ?_
    cases source with
    | entry key => exact learns
    | cell id => exact fun c entered => learns c (sub entered)

end Book

/-- The computation that a task carries out. `root` is that of the run. -/
inductive Purpose (root : Infer Property) (contests : Array Contest) : Goal → Infer Property → Prop where
  | answer : Purpose root contests .answer root
  | entry (key : Entry) : Purpose root contests (.entry key) (key.ref.infer key.track)
  | branch {c : BranchCheck} {contest : Contest} (entered : contests[c.cell]? = some contest)
      (side : contest.Has c.subject) :
      Purpose root contests (.branch c) (Infer.branch contest.track contest.use c.subject)

theorem Purpose.mono {root o : Infer Property} {contests contests' : Array Contest} {goal : Goal}
    (h : Purpose root contests goal o)
    (sub : ∀ {id : Nat} {c : Contest}, contests[id]? = some c → contests'[id]? = some c) :
    Purpose root contests' goal o := by
  cases h with
  | answer => exact .answer
  | entry key => exact .entry key
  | branch entered side => exact .branch (sub entered) side

namespace Run

/-- How undecided conditionals have come out. -/
def verdicts (s : Run) (contests : Array Contest) : Verdicts := fun track use first second p =>
  ∃ id : Nat, contests[id]? = some ⟨track, use, first, second⟩
    ∧ s.resultOf (.cell id) = some (.ok p)

/-- What can be evaluated with what a run knows. -/
def book (s : Run) (contests : Array Contest) : Book :=
  s.engine.evaluates (s.verdicts contests)

/-- What a run has found is evaluated, and its tasks are on the way to what they were made for. -/
structure Evaluates (root : Infer Property) (contests : Array Contest) (past : List Event) (s : Run) :
    Prop where
  size : contests.size = s.cells.size
  found : ∀ {key : Entry} {p : Property}, s.resultOf (.entry key) = some (.ok p) →
    (s.book contests).found key p
  settled : ∀ {id : Nat} {c : Contest} {p : Property}, contests[id]? = some c →
    s.resultOf (.cell id) = some (.ok p) →
    (s.book contests).verdicts c.track c.use c.first c.second p
  outcome : ∀ {p : Property}, s.outcome = some (.ok p) → (s.book contests).Finds root p
  tasks : ∀ {t : TaskId} {task : Task}, (t, task) ∈ s.tasks →
    ∃ o, Purpose root contests task.goal o ∧ (s.book contests).Heads contests o task.work
  ended : ∀ {c : BranchCheck} {p : Property}, .ended (.branch c) (.ok p) ∈ past →
    ∃ o, Purpose root contests (.branch c) o ∧ (s.book contests).Finds o p

variable {root o : Infer Property} {contests contests' : Array Contest} {past past' log : List Event}
  {s t : Run} {w : Ledger} {goal : Goal} {self : TaskId} {reader : Option Entry}
  {b b₁ : Infer Property} {progress : Progress Property}

theorem book_le (later : s.engine.Later t.engine)
    (sub : ∀ {id : Nat} {c : Contest}, contests[id]? = some c → contests'[id]? = some c)
    (cells : ∀ {id : Nat} {r : Outcome}, s.resultOf (.cell id) = some r →
      t.resultOf (.cell id) = some r) : (s.book contests).Le (t.book contests') :=
  Engine.evaluates_mono later fun ⟨id, entered, result⟩ => ⟨id, sub entered, cells result⟩

theorem later_of_recorded {e f : Engine} (same : e.Recorded f) : e.Later f :=
  Engine.later_of_le (Ledger.le_recorded (w := Ledger.opening e False) same)

/-- Nothing is found, and nothing that matters is forgotten. -/
theorem Evaluates.same (h : Evaluates root contests past s) (later : s.engine.Later t.engine)
    (size : t.cells.size = s.cells.size) (results : ∀ source, t.resultOf source = s.resultOf source)
    (outcome : t.outcome = s.outcome) (tasks : t.tasks ⊆ s.tasks) :
    (s.book contests).Le (t.book contests) ∧ Evaluates root contests past t := by
  have le : (s.book contests).Le (t.book contests) := book_le later id fun h => (results _).trans h
  refine ⟨le, h.size.trans size.symm, ?_, ?_, ?_, ?_, ?_⟩
  · exact fun ok => le.ledger.found (h.found ((results _).symm.trans ok))
  · exact fun entered ok => le.verdicts (h.settled entered ((results _).symm.trans ok))
  · exact fun ok => (h.outcome (outcome.symm.trans ok)).mono le
  · intro x task there
    obtain ⟨o, purpose, heads⟩ := h.tasks (tasks there)
    exact ⟨o, purpose, heads.mono le id⟩
  · intro c p ended
    obtain ⟨o, purpose, finds⟩ := h.ended ended
    exact ⟨o, purpose, finds.mono le⟩

theorem Evaluates.alike (h : Evaluates root contests past s) (later : s.engine.Later t.engine)
    (alike : Alike s t) :
    (s.book contests).Le (t.book contests) ∧ Evaluates root contests past t :=
  h.same later alike.cells alike.results alike.outcome (alike.tasks ▸ List.Subset.refl _)

/-! ## Steps -/

/-- A question is answered as the engine has it from then on. -/
theorem Evaluates.step (h : Evaluates root contests past s) (charted : w.Charted s)
    (fine : w.Fine goal b) (leads : (s.book contests).Leads b o) (step : Step reader b s log b₁ t) :
    Evaluates root contests past t ∧ (t.book contests).Leads b₁ o := by
  cases step with
  | ask query next =>
    cases fine.1 with
    | ask permitted later =>
      obtain ⟨le, -, answers⟩ := charted.ask permitted
      have later : s.engine.Later (s.afterAnswer query).engine := by
        rw [← charted.engine]
        exact Engine.later_of_le le
      obtain ⟨le, h⟩ := h.alike later (alike_of_engine rfl (afterAnswer_memo s query))
      have same : (w.after (s.afterAnswer query).engine).engine
        = ((s.afterAnswer query).book contests).engine := rfl
      refine ⟨h, fun l le' closed p finds => leads l (le.trans le') closed p ⟨_, ?_, finds⟩⟩
      exact (answers.congr same).mono le'.ledger
  | @read key next _ p q found ready =>
    obtain ⟨le, h'⟩ := h.alike (later_of_recorded (recorded_addReader s key reader))
      (alike_addReader s key reader)
    replace found : s.promise? (.entry key) = some p := found
    have learnt := h.found ((resultOf_of_promise? found).trans ready)
    refine ⟨h', fun l le' closed p finds => ?_⟩
    exact leads l (le.trans le') closed p ⟨q, (le.trans le').ledger.found learnt, finds⟩
  | @call callee args next _ c found =>
    refine ⟨h, fun l le closed p finds => ?_⟩
    obtain ⟨q, body, finds⟩ := Book.finds_bind.mp finds
    have callable : l.engine.callable? callee = some c := le.ledger.callables found
    exact leads l le closed p ⟨q, closed.calls callable body, finds⟩

theorem Evaluates.steps (h : Evaluates root contests past s) (charted : w.Charted s)
    (fine : w.Fine goal b) (leads : (s.book contests).Leads b o) (steps : Steps reader b s log b₁ t) :
    Evaluates root contests past t ∧ (t.book contests).Leads b₁ o := by
  induction steps generalizing w with
  | refl b s => exact ⟨h, leads⟩
  | head first _ ih =>
    obtain ⟨h', leads⟩ := h.step charted fine leads first
    obtain ⟨u, -, charted, fine⟩ := charted.step fine first
    exact ih h' charted fine leads

/-! ## The last step of a turn -/

theorem heads_of_demand {k : Book} {key : Entry} {next : Property → Infer Property}
    (leads : k.Leads (.demand key next) o) : k.Heads contests o (.waiting (.entry key) next) :=
  fun _ le _ p found m le' closed q finds =>
    leads m (le.trans le') closed q ⟨p, le'.ledger.found found, finds⟩

theorem heads_of_unify {k : Book} {track : Track} {use : BranchUse} {first second : Ref}
    {next : Property → Infer Property} (leads : k.Leads (.unify track use first second next) o)
    {id : Nat} (entered : contests[id]? = some ⟨track, use, first, second⟩) :
    k.Heads contests o (.waiting (.cell id) next) :=
  fun _ le _ p learns m le' closed q finds =>
    leads m (le.trans le') closed q ⟨p, le'.verdicts (learns _ entered), finds⟩

theorem Evaluates.spawn (h : Evaluates root contests past s) {goal : Goal} {body : Infer Property}
    (purpose : Purpose root contests goal body) : Evaluates root contests past (s.spawn goal body) where
  size := h.size
  found := h.found
  settled := h.settled
  outcome := h.outcome
  tasks := by
    intro x task there
    rcases Table.mem_insert there with same | there
    · cases same
      exact ⟨body, purpose, .refl _ _⟩
    · exact h.tasks there
  ended := h.ended

/-- The undecided conditionals after a turn that a computation stops in. -/
def enter (contests : Array Contest) : Infer Property → Array Contest
  | .unify track use first second _ => contests.push ⟨track, use, first, second⟩
  | _ => contests

theorem getElem?_enter {id : Nat} {c : Contest} (entered : contests[id]? = some c)
    (b : Infer Property) : (enter contests b)[id]? = some c := by
  cases b with
  | unify track use first second next => exact Program.getElem?_push_of_some entered
  | _ => exact entered

/-- A new cell is that of a new conditional. -/
theorem Evaluates.push (h : Evaluates root contests past s) (contest : Contest)
    {p : Promise TaskId} (missing : p.result = none) :
    (s.book contests).Le (Run.book { s with cells := s.cells.push p } (contests.push contest))
      ∧ Evaluates root (contests.push contest) past { s with cells := s.cells.push p } := by
  have sub : ∀ {id : Nat} {c : Contest}, contests[id]? = some c →
      (contests.push contest)[id]? = some c := Program.getElem?_push_of_some
  have cells : ∀ {id : Nat} {r : Outcome}, s.resultOf (.cell id) = some r →
      Run.resultOf { s with cells := s.cells.push p } (.cell id) = some r := by
    intro id r result
    obtain ⟨q, found, ready⟩ := exists_promise_of_resultOf result
    replace found : (s.cells.push p)[id]? = some q := Program.getElem?_push_of_some found
    exact (congrArg (·.bind fun q => q.result) found).trans ready
  have le := book_le (s := s) (t := { s with cells := s.cells.push p }) (.refl s.engine) sub cells
  refine ⟨le, ?_, fun ok => le.ledger.found (h.found ok), ?_, fun ok => (h.outcome ok).mono le, ?_, ?_⟩
  · simp [h.size]
  · intro id c q entered ok
    obtain ⟨r, found, ready⟩ := exists_promise_of_resultOf ok
    replace found : (s.cells.push p)[id]? = some r := found
    rw [Array.getElem?_push] at entered found
    split at found
    · cases found
      rw [missing] at ready
      cases ready
    · rename_i old
      rw [h.size, if_neg old] at entered
      exact le.verdicts (h.settled entered
        ((congrArg (·.bind fun q => q.result) found).trans ready))
  · intro x task there
    obtain ⟨o, purpose, heads⟩ := h.tasks there
    exact ⟨o, purpose.mono sub, heads.mono le sub⟩
  · intro c q ended
    obtain ⟨o, purpose, finds⟩ := h.ended ended
    exact ⟨o, purpose.mono sub, finds.mono le⟩

theorem Evaluates.halt (h : Evaluates root contests past s) (leads : (s.book contests).Leads b o)
    (halt : Halt self reader b s log progress t) :
    Evaluates root (enter contests b) past t
      ∧ (t.book (enter contests b)).Arrives (enter contests b) o progress := by
  have later := later_of_recorded halt.recorded
  cases halt with
  | done a => exact ⟨h, leads _ (.refl _) (Engine.closed_evaluates _ _) a rfl⟩
  | fail e => exact ⟨h, trivial⟩
  | forever => exact ⟨h, trivial⟩
  | uncallable unknown => exact ⟨h, trivial⟩
  | @readFailed key next _ p e found failed =>
    exact ⟨(h.alike later (alike_addReader s key reader)).2, trivial⟩
  | @wait key next _ p found missing =>
    obtain ⟨le, h⟩ := h.alike (later_of_recorded (recorded_addReader s key reader))
      (alike_addReader s key reader)
    have found : (s.addReader key reader).promise? (.entry key) = some p := by
      rw [promise?_addReader]
      exact found
    obtain ⟨le', h⟩ := h.alike (later_of_recorded (recorded_setPromise _ _ _))
      (alike_waitOn found missing self)
    exact ⟨h, heads_of_demand (leads.mono (le.trans le'))⟩
  | @begin key next _ absent =>
    obtain ⟨le, h⟩ := h.alike (later_of_recorded (recorded_addReader s key reader))
      (alike_addReader s key reader)
    have halt : Halt self reader (.demand key next) s _ (.waiting (.entry key) next) _ :=
      .begin absent
    obtain ⟨le', h⟩ := h.same
      (t := (s.addReader key reader).setMemo
        ((s.addReader key reader).engine.memo.insert key { result := none, waiters := [self] }))
      (later_of_recorded rfl) rfl (fun source => (Eq.trans (by cases source <;> rfl)
        (halt.resultOf source)).trans (resultOf_addReader s key reader source).symm) rfl
      (List.Subset.refl _)
    exact ⟨h.spawn (.entry key), heads_of_demand (leads.mono (le.trans le'))⟩
  | race track use first second next =>
    have entered : (enter contests (.unify track use first second next))[s.cells.size]?
        = some ⟨track, use, first, second⟩ := by
      rw [← h.size]
      exact Array.getElem?_push_size
    have purpose : ∀ x, Contest.Has ⟨track, use, first, second⟩ x →
        Purpose root (enter contests (.unify track use first second next))
          (.branch (s.newCheck reader track first second x)) (Infer.branch track use x) :=
      fun x side => @Purpose.branch _ _ (s.newCheck reader track first second x) _ entered side
    obtain ⟨le, h⟩ := h.push ⟨track, use, first, second⟩ (p := .pending) rfl
    have h := (h.spawn (purpose first (.inl rfl))).spawn (purpose second (.inr rfl))
    have found : (s.race reader track use first second).2.promise? (.cell s.cells.size)
        = some .pending := Array.getElem?_push_size
    obtain ⟨le', h⟩ := h.alike (later_of_recorded (recorded_setPromise _ _ _))
      (alike_waitOn found rfl self)
    exact ⟨h, heads_of_unify (leads.mono (le.trans le')) entered⟩

/-! ## The end of a task -/

/-- What a task ends with is what its computation gives, so a source that it settles can take it. -/
theorem Evaluates.ending (h : Evaluates root contests past s) {r : Outcome}
    (ending : Ending s goal r t) (purpose : Purpose root contests goal o)
    (finds : ∀ p, r = .ok p → (s.book contests).Finds o p) :
    Evaluates root contests (past ++ [.ended goal r]) t := by
  have le : (s.book contests).Le (t.book contests) :=
    book_le (later_of_recorded ending.recorded) id ending.cell_result
  refine ⟨h.size.trans ending.same.2.2.1.symm, ?found, ?settled, ?outcome, ?tasks, ?ended⟩
  case found =>
    intro key p ok
    rcases ending.resultOf (.entry key) with
      same | ⟨aims, -, given⟩ | ⟨_, _, _, _, _, -, -, -, -, -, failed, -⟩
    · exact le.ledger.found (h.found (same.symm.trans ok))
    · cases purpose with
      | entry k =>
        cases aims
        cases r with
        | ok q =>
          obtain rfl : q = p := by simpa [Goal.outcome, attributed, given] using ok
          exact Engine.found_iff.mpr ((finds q rfl).mono le)
        | error e => simp [Goal.outcome, attributed, given] at ok
      | _ => cases aims
    · rw [failed] at ok
      cases ok
  case settled =>
    intro id c p entered ok
    rcases ending.resultOf (.cell id) with
      same | ⟨aims, -, given⟩ | ⟨_, _, _, _, _, -, -, -, is_entry, -⟩
    · exact le.verdicts (h.settled entered (same.symm.trans ok))
    · cases purpose with
      | branch entered' side =>
        cases aims
        cases entered'.symm.trans entered
        have finds := (finds p (Option.some.inj (given.symm.trans ok))).mono le
        refine Engine.verdicts_iff.mpr ⟨⟨_, entered, ok⟩, ?_⟩
        rcases side with side | side
        · exact .inl (side ▸ finds)
        · exact .inr (side ▸ finds)
      | _ => cases aims
    · cases is_entry
  case outcome =>
    intro p ok
    rcases ending.outcome_eq with same | ⟨rfl, given⟩
    · exact (h.outcome (same.symm.trans ok)).mono le
    · cases purpose
      exact (finds p (Option.some.inj (given.symm.trans ok))).mono le
  case tasks =>
    intro x task there
    obtain ⟨o, purpose, heads⟩ := h.tasks (ending.same.1 ▸ there)
    exact ⟨o, purpose, heads.mono le id⟩
  case ended =>
    intro c p ended
    rcases List.mem_append.mp ended with ended | ended
    · obtain ⟨o, purpose, finds⟩ := h.ended ended
      exact ⟨o, purpose, finds.mono le⟩
    · cases List.mem_singleton.mp ended
      exact ⟨o, purpose, (finds p rfl).mono le⟩

theorem Evaluates.endTask (h : Evaluates root contests past s) {r : Outcome}
    (purpose : Purpose root contests goal o)
    (finds : ∀ p, r = .ok p → (s.book contests).Finds o p) :
    Evaluates root contests (past ++ [.ended goal r]) (s.endTask self goal r) := by
  obtain ⟨le, h⟩ := h.same (t := s.leave self) (later_of_recorded rfl) rfl
    (fun source => resultOf_congr (promise?_leave s self source)) rfl
    (Table.erase_sublist s.tasks self).subset
  exact h.ending (ending_endTask s self goal r) purpose fun p ok => (finds p ok).mono le

/-! ## Turns -/

theorem Evaluates.settle (h : Evaluates root contests past s)
    (purpose : Purpose root contests goal o)
    (arrives : (s.book contests).Arrives contests o progress) :
    Evaluates root contests (past ++ Run.settled goal progress) (s.settle self goal progress) := by
  have entered : ∀ work, (s.book contests).Heads contests o work →
      Evaluates root contests past { s with tasks := s.tasks.insert self ⟨goal, work⟩ } := by
    refine fun work heads => ⟨h.size, h.found, h.settled, h.outcome, ?_, h.ended⟩
    intro x task there
    rcases Table.mem_insert there with same | there
    · cases same
      exact ⟨o, purpose, heads⟩
    · exact h.tasks there
  cases progress with
  | ended r =>
    refine h.endTask purpose fun p ok => ?_
    subst ok
    exact arrives
  | waiting source next => exact (List.append_nil past).symm ▸ entered _ arrives
  | calling body => exact (List.append_nil past).symm ▸ entered (.ready body) arrives
  | forever => exact (List.append_nil past).symm ▸ entered .forever trivial

/-- What was asked for makes no difference. -/
theorem Evaluates.asks (h : Evaluates root contests past s)
    (asks : ∀ event ∈ log, ∃ reader key, event = .asked reader key) :
    Evaluates root contests (past ++ log) s := by
  refine { h with ended := fun {c p} ended => ?_ }
  rcases List.mem_append.mp ended with ended | ended
  · exact h.ended ended
  · obtain ⟨_, _, same⟩ := asks _ ended
    cases same

theorem Evaluates.goesOn (h : Evaluates root contests past s) {task : Task}
    (heads : (s.book contests).Heads contests o task.work) (goes : GoesOn s task.work b) :
    (s.book contests).Leads b o := by
  obtain ⟨goal, work⟩ := task
  cases goes with
  | ready body => exact heads
  | @resumed source next p q found ready =>
    refine heads _ (.refl _) (Engine.closed_evaluates _ _) q ?_
    have result := (resultOf_of_promise? found).trans ready
    cases source with
    | entry key => exact h.found result
    | cell id => exact fun c entered => h.settled entered result

/-! ## Both branches -/

/-- Of every undecided conditional, each branch is either at work or has ended. -/
def Staffed (contests : Array Contest) (past : List Event) (s : Run) : Prop :=
  ∀ ⦃id : Nat⦄ ⦃contest : Contest⦄ ⦃x : Ref⦄, contests[id]? = some contest → contest.Has x →
    (∃ t c w, s.tasks.find? t = some ⟨.branch c, w⟩ ∧ c.cell = id ∧ c.subject = x)
      ∨ ∃ c r, .ended (.branch c) r ∈ past ∧ c.cell = id ∧ c.subject = x

theorem Staffed.mono (h : Staffed contests past s)
    (tasks : ∀ {x : TaskId} {c : BranchCheck} {w : Work}, s.tasks.find? x = some ⟨.branch c, w⟩ →
      (∃ w', t.tasks.find? x = some ⟨.branch c, w'⟩) ∨ ∃ r, .ended (.branch c) r ∈ log) :
    Staffed contests (past ++ log) t := by
  intro id contest x entered side
  rcases h entered side with ⟨y, c, w, known, cell, subject⟩ | ⟨c, r, ended, cell, subject⟩
  · rcases tasks known with ⟨w', known⟩ | ⟨r, ended⟩
    · exact .inl ⟨y, c, w', known, cell, subject⟩
    · exact .inr ⟨c, r, List.mem_append_right _ ended, cell, subject⟩
  · exact .inr ⟨c, r, List.mem_append_left _ ended, cell, subject⟩

theorem Staffed.endTask (h : Staffed contests past s) {work : Work} {r : Outcome}
    (known : s.tasks.find? self = some ⟨goal, work⟩) :
    Staffed contests (past ++ [.ended goal r]) (s.endTask self goal r) := by
  refine h.mono fun {x c w} there => ?_
  by_cases same : self = x
  · subst same
    cases known.symm.trans there
    exact .inr ⟨r, List.mem_singleton_self _⟩
  · refine .inl ⟨w, ?_⟩
    rw [(ending_endTask s self goal r).same.1]
    exact (Table.find?_erase_of_ne _ same).trans there

theorem Staffed.settle (h : Staffed contests past s) {work : Work}
    (known : s.tasks.find? self = some ⟨goal, work⟩) :
    Staffed contests (past ++ Run.settled goal progress) (s.settle self goal progress) := by
  by_cases unended : ∀ r, progress ≠ .ended r
  · obtain ⟨after, same⟩ := exists_settle s self goal unended
    rw [same]
    refine h.mono fun {x c w} there => .inl ?_
    by_cases same : self = x
    · subst same
      cases known.symm.trans there
      exact ⟨after, Table.find?_insert_self _ _ _⟩
    · exact ⟨w, (Table.find?_insert_of_ne _ _ same).trans there⟩
  · simp only [not_forall, not_not] at unended
    obtain ⟨r, rfl⟩ := unended
    exact h.endTask known

/-- The tasks of a new conditional are its branches. -/
theorem Staffed.halt {before : Memo} {busy : Option TaskId} (h : Staffed contests past s)
    (tidy : Tidy before busy s) (size : contests.size = s.cells.size)
    (halt : Halt self reader b s log progress t) : Staffed (enter contests b) past t := by
  have kept : Staffed contests (past ++ []) t :=
    h.mono fun there => .inl ⟨_, tidy.halt_find? there halt⟩
  rw [List.append_nil] at kept
  cases halt with
  | race track use first second next =>
    intro id contest x entered side
    rw [enter, Array.getElem?_push] at entered
    split at entered
    · rename_i new
      cases entered
      refine .inl ?_
      rcases side with side | side
      · refine ⟨s.nextTask, s.newCheck reader track first second first,
          .ready (Infer.branch track use first), ?_, ?_, side.symm⟩
        · rw [find?_beginRace, if_neg (Nat.succ_ne_self _), if_pos rfl]
        · exact size.symm.trans new.symm
      · refine ⟨s.nextTask + 1, s.newCheck reader track first second second,
          .ready (Infer.branch track use second), ?_, ?_, side.symm⟩
        · rw [find?_beginRace, if_pos rfl]
        · exact size.symm.trans new.symm
    · exact kept entered side
  | _ => exact kept

/-! ## Runs -/

theorem Evaluates.turned {before : Memo} (h : Evaluates root contests past s)
    (staffed : Staffed contests past s) (tidy : Tidy before (some self) s) (charted : w.Charted s)
    (manned : w.Manned s) (turned : Turned s self log t) :
    ∃ contests', Evaluates root contests' (past ++ log) t ∧ Staffed contests' (past ++ log) t := by
  have idle : ∀ {t : Run}, Alike s t → s.engine.Later t.engine →
      ∃ contests', Evaluates root contests' (past ++ []) t ∧ Staffed contests' (past ++ []) t := by
    intro t alike later
    refine ⟨contests, ?_, staffed.mono fun {x c w} there => .inl ⟨w, alike.tasks ▸ there⟩⟩
    rw [List.append_nil]
    exact (h.alike later alike).2
  cases turned with
  | absent gone => exact idle (.refl s) (.refl _)
  | asleep task => exact idle (.refl s) (.refl _)
  | unfounded task missing => exact idle (.refl s) (.refl _)
  | blocked task found missing =>
    exact idle (alike_waitOn found missing self) (later_of_recorded (recorded_setPromise _ _ _))
  | failed task found failed =>
    obtain ⟨o, purpose, -⟩ := h.tasks (Table.mem_of_find? task)
    exact ⟨contests, h.endTask purpose (by simp), staffed.endTask task⟩
  | @moved task body b₁ s₁ s₂ asks log progress found goes steps halt =>
    obtain ⟨o, purpose, heads⟩ := h.tasks (Table.mem_of_find? found)
    have fine := charted.goesOn (manned _ _ (Table.mem_of_find? found)) goes
    obtain ⟨h₁, leads⟩ := h.steps charted fine (h.goesOn heads goes) steps
    obtain ⟨h₂, arrives⟩ := h₁.halt leads halt
    have quiet := steps.quiet
    have known : s₁.tasks.find? self = some ⟨task.goal, task.work⟩ := by
      rw [quiet.same]
      exact found
    have asked : ∀ event ∈ asks ++ log, ∃ reader key, event = .asked reader key := by
      intro event there
      rcases List.mem_append.mp there with there | there
      · obtain ⟨key, -, -, same, -⟩ := quiet.asked event there
        exact ⟨_, key, same⟩
      · exact halt.asks event there
    have staffed : Staffed contests (past ++ (asks ++ log)) s₁ :=
      staffed.mono fun {x c w} there => .inl ⟨w, by rw [quiet.same]; exact there⟩
    have tidy := tidy.quiet quiet
    rw [← List.append_assoc]
    exact ⟨enter contests b₁, (h₂.asks asked).settle (purpose.mono (getElem?_enter · b₁)) arrives,
      (staffed.halt tidy h₁.size halt).settle (tidy.halt_find? known halt)⟩

/-- What a run keeps of its evaluation, in any order of turns. -/
theorem Evaluates.polls {before : Memo} (h : Evaluates root contests past s)
    (staffed : Staffed contests past s) (tidy : Tidy before none s) (charted : w.Charted s)
    (manned : w.Manned s) (polls : Polls s log t) :
    ∃ contests', Evaluates root contests' (past ++ log) t ∧ Staffed contests' (past ++ log) t := by
  have kept := polls.invariant (fun past s => ∃ w contests, w.Charted s ∧ w.Manned s
      ∧ Tidy before none s ∧ Evaluates root contests past s ∧ Staffed contests past s) ?_ past
    ⟨w, contests, charted, manned, tidy, h, staffed⟩
  · obtain ⟨_, contests, -, -, -, h, staffed⟩ := kept
    exact ⟨contests, h, staffed⟩
  · rintro past log s t self schedule ⟨w, contests, charted, manned, tidy, h, staffed⟩ offers turned
    obtain ⟨le, charted⟩ := charted.same (t := s.scheduled schedule) rfl
      fun _ => Run.resultOf_congr (Run.promise?_scheduled s schedule _)
    have manned := manned.same (t := s.scheduled schedule) le rfl
    have tidy := tidy.offered offers
    obtain ⟨-, h⟩ := h.same (t := s.scheduled schedule) (.refl _) rfl
      (fun source => resultOf_congr (promise?_scheduled s schedule source)) rfl
      (List.Subset.refl _)
    obtain ⟨contests, h, staffed⟩ := h.turned staffed tidy charted manned turned
    obtain ⟨u, -, charted, manned⟩ := charted.turned manned turned
    exact ⟨u, contests, charted, manned, tidy.turned turned, h, staffed⟩

variable {program : Program} {types : TypeCache} {config : Config} {graph : GraphId}
  {args : List ArgSpec} {track : Track}

/-- The call that a run of a graph carries out. -/
def call (e : Engine) (graph : GraphId) (args : List ArgSpec) (track : Track) : Infer Property :=
  Infer.callInferrer ((EngineM.graphInferrer track graph .empty).run e).1 (args.map ArgSpec.toRef)

/-- Both branches of every undecided conditional end, and what is found of the conditional is no more
than what is found of either of them. -/
structure Cautious (log : List Event) (s : Run) : Prop where
  ended : ∀ {c : BranchCheck} {r : Outcome}, .ended (.branch c) r ∈ log →
    ∃ p q, r = .ok p ∧ s.resultOf (.cell c.cell) = some (.ok q) ∧ p.Below q
  complete : ∀ {t : TaskId} {task : Task}, (t, task) ∈ s.tasks → ∀ c, task.goal ≠ .branch c

theorem Cautious.both (cautious : Cautious log s) (h : Evaluates root contests log s)
    (staffed : Staffed contests log s) {use : BranchUse} {x y : Ref} {p : Property}
    (verdict : s.verdicts contests track use x y p) :
    (s.book contests).Covers track use x p ∧ (s.book contests).Covers track use y p := by
  obtain ⟨id, entered, result⟩ := verdict
  have each : ∀ z, Contest.Has ⟨track, use, x, y⟩ z → (s.book contests).Covers track use z p := by
    intro z side
    rcases staffed entered side with ⟨t, c, w, known, -, -⟩ | ⟨c, r, ended, rfl, rfl⟩
    · exact absurd rfl (cautious.complete (Table.mem_of_find? known) c)
    · obtain ⟨q, p', rfl, result', below⟩ := cautious.ended ended
      cases result'.symm.trans result
      obtain ⟨o, purpose, finds⟩ := h.ended ended
      cases purpose with
      | branch entered' _ =>
        cases entered.symm.trans entered'
        exact ⟨q, finds, below⟩
  exact ⟨each x (.inl rfl), each y (.inr rfl)⟩

end Run

end ArrayInference
