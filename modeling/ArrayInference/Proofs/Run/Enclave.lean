import ArrayInference.Proofs.Infer.Steady
import ArrayInference.Proofs.Nesting.Contexts

/-!
# Entries that keep to themselves

The computations of some entries ask for none but entries of the same kind, each for such of a lower
rank, and for no branches. So nothing but their own computations has a say in their results: what is
shown of each computation, given that it is true of the results that the computation is handed, is true
of the results of these entries in every run, whatever else goes on there.
-/

namespace ArrayInference

theorem Engine.Recorded.becomes {e f : Engine} (h : e.Recorded f) : e.Becomes f := by
  rw [h]
  exact Engine.Becomes.refl.results _ _ _

namespace Run

/-- The end of a run takes no results away. -/
theorem resultOf_close (s : Run) (distinct : s.Distinct) (key : Entry) :
    (start s.close true).resultOf (.entry key) = s.resultOf (.entry key) := by
  show (s.engine.memo.resolved.find? key).bind _ = (s.engine.memo.find? key).bind _
  rw [Memo.resolved, Table.find?_filter distinct.1]
  cases s.engine.memo.find? key with
  | none => rfl
  | some p =>
    cases hresult : p.result <;> simp [Option.filter, Promise.isResolved, hresult]

/-- It adds no readers. -/
theorem readers_close (s : Run) (distinct : s.Distinct) {key reader : Entry}
    (there : reader ∈ s.close.readers.of key) : reader ∈ s.engine.readers.of key := by
  have found : s.close.readers.find? key
      = (s.engine.readers.find? key).filter fun _ => s.engine.memo.resolved.contains key :=
    Table.find?_filter distinct.2 _ key
  rw [Readers.of, found] at there
  rw [Readers.of]
  cases known : s.engine.readers.find? key with
  | none =>
    rw [known] at there
    cases there
  | some readers =>
    rw [known, Option.filter_some] at there
    split at there
    · exact there
    · cases there

end Run

/-- Entries that ask for none but each other, and what is said of the result of each, from the moment
at which it is there. -/
structure Enclave where
  holds : Entry → Prop
  rank : Entry → Nat
  tells : Entry → Engine → Outcome → Prop
  mono : ∀ {key : Entry} {e f : Engine} {r : Outcome}, tells key e r → e.Becomes f → tells key f r

namespace Enclave

variable {v : Enclave} {n : Nat} {R : Engine → Outcome → Prop} {e f e₀ : Engine} {key : Entry}
  {b b₁ : Infer Property}

/-- A computation comes to an end if every entry of a rank below `n` has a result, and then `R` holds of
its own. Between two questions the engine may become another one. -/
inductive Ends (v : Enclave) (n : Nat) (R : Engine → Outcome → Prop) :
    Engine → Infer Property → Prop where
  | done {e : Engine} {p : Property} (result : ∀ f, e.Becomes f → R f (.ok p)) :
      Ends v n R e (.done p)
  | fail {e : Engine} {err : InferError} (result : ∀ f, e.Becomes f → R f (.error err)) :
      Ends v n R e (.fail err)
  | ask {e : Engine} {query : Query} {next : query.Answer → Infer Property}
      (later : ∀ f, e.Becomes f →
        Ends v n R ((EngineM.answer query).run f).2 (next ((EngineM.answer query).run f).1)) :
      Ends v n R e (.ask query next)
  | demand {e : Engine} {key : Entry} {next : Property → Infer Property} (held : v.holds key)
      (below : v.rank key < n)
      (later : ∀ f p, e.Becomes f → v.tells key f (.ok p) → Ends v n R f (next p))
      (failed : ∀ f err, e.Becomes f → v.tells key f (.error err) → R f (.error err)) :
      Ends v n R e (.demand key next)
  | call {e : Engine} {callee : Inferrer} {args : List Ref} {next : Property → Infer Property}
      {c : Callable} (known : e.callable? callee = some c)
      (later : Ends v n R e ((c.body args).bind next)) : Ends v n R e (.call callee args next)

/-- What the task of an entry has to find, for its promise to hold what is said of the entry. -/
def Aim (v : Enclave) (key : Entry) (e : Engine) (r : Outcome) : Prop :=
  v.tells key e (Run.attributed key.ref.node r)

/-- From an engine on, the computations of the entries come to such ends. -/
def Closed (v : Enclave) (e₀ : Engine) : Prop :=
  ∀ {key : Entry} {e : Engine}, v.holds key → e₀.Becomes e →
    v.Ends (v.rank key) (v.Aim key) e (key.ref.infer key.track)

theorem Ends.mono (h : v.Ends n R e b) (becomes : e.Becomes f) : v.Ends n R f b := by
  induction h generalizing f with
  | done result => exact .done fun g up => result g (becomes.trans up)
  | fail result => exact .fail fun g up => result g (becomes.trans up)
  | ask later _ => exact .ask fun g up => later g (becomes.trans up)
  | demand held below later failed _ =>
    exact .demand held below (fun g p up => later g p (becomes.trans up)) fun g err up =>
      failed g err (becomes.trans up)
  | call known _ ih => exact .call (becomes.callable? known) (ih becomes)

/-! ## What a run keeps -/

/-- A computation for a reader. One for an entry of these comes to its end. -/
structure Minds (v : Enclave) (e : Engine) (reader : Option Entry) (b : Infer Property) : Prop where
  steady : b.Steady
  ends : ∀ {key : Entry}, reader = some key → v.holds key → v.Ends (v.rank key) (v.Aim key) e b

/-- What a task for a reader does when it goes on. Only tasks for other entries sleep, or wait for
branches. -/
def Bides (v : Enclave) (e : Engine) (reader : Option Entry) : Work → Prop
  | .ready body => v.Minds e reader body
  | .waiting source next => (∀ p, (next p).Steady) ∧ ∀ key, reader = some key → v.holds key →
      ∃ k, source = .entry k ∧ v.holds k
        ∧ (∀ f p, e.Becomes f → v.tells k f (.ok p) → v.Ends (v.rank key) (v.Aim key) f (next p))
        ∧ ∀ f err, e.Becomes f → v.tells k f (.error err) → v.Aim key f (.error err)
  | .forever => ∀ key, reader = some key → ¬ v.holds key

/-- A run in which what is said of the entries is true. None of them is read by the task of an entry
elsewhere, and none of them waits for a conditional. -/
structure Guards (v : Enclave) (e₀ : Engine) (s : Run) : Prop where
  becomes : e₀.Becomes s.engine
  found : ∀ {key : Entry} {r : Outcome}, v.holds key → s.resultOf (.entry key) = some r →
    v.tells key s.engine r
  readers : ∀ {key reader : Entry}, reader ∈ s.engine.readers.of key → v.holds reader → v.holds key
  bides : ∀ {x : TaskId} {task : Task}, (x, task) ∈ s.tasks →
    v.Bides s.engine task.goal.reader task.work
  sites : ∀ {x : TaskId} {c : BranchCheck} {work : Work} {key : Entry},
    (x, ⟨.branch c, work⟩) ∈ s.tasks → c.site = some key → ¬ v.holds key

theorem Minds.mono {reader : Option Entry} (h : v.Minds e reader b) (becomes : e.Becomes f) :
    v.Minds f reader b :=
  ⟨h.steady, fun same held => (h.ends same held).mono becomes⟩

theorem Bides.mono {reader : Option Entry} {work : Work} (h : v.Bides e reader work)
    (becomes : e.Becomes f) : v.Bides f reader work := by
  cases work with
  | ready body => exact Minds.mono h becomes
  | waiting source next =>
    refine ⟨h.1, fun key same held => ?_⟩
    obtain ⟨k, source, held', later, failed⟩ := h.2 key same held
    exact ⟨k, source, held', fun g p up => later g p (becomes.trans up),
      fun g err up => failed g err (becomes.trans up)⟩
  | forever => exact h

namespace Guards

variable {s t : Run} {self : TaskId} {goal : Goal} {reader : Option Entry} {log : List Event}
  {progress : Run.Progress Property} {r : Outcome}

/-- Results, readers and tasks are as before. -/
theorem kept (h : v.Guards e₀ s) (becomes : s.engine.Becomes t.engine)
    (results : ∀ key, t.resultOf (.entry key) = s.resultOf (.entry key))
    (readers : ∀ {key reader : Entry}, reader ∈ t.engine.readers.of key → v.holds reader →
      v.holds key) (tasks : t.tasks ⊆ s.tasks) : v.Guards e₀ t where
  becomes := h.becomes.trans becomes
  found := fun held known => v.mono (h.found held (results _ ▸ known)) becomes
  readers := readers
  bides := fun there => (h.bides (tasks there)).mono becomes
  sites := fun there => h.sites (tasks there)

/-- One more task. -/
theorem insert (h : v.Guards e₀ s) (x : TaskId) (task : Task)
    (bides : v.Bides s.engine task.goal.reader task.work)
    (site : ∀ {c : BranchCheck} {key : Entry}, task.goal = .branch c → c.site = some key →
      ¬ v.holds key) : v.Guards e₀ { s with tasks := s.tasks.insert x task } where
  becomes := h.becomes
  found := h.found
  readers := h.readers
  bides := by
    intro y other there
    rcases Table.mem_insert there with same | there
    · cases same
      exact bides
    · exact h.bides there
  sites := by
    intro y c work key there
    rcases Table.mem_insert there with same | there
    · cases same
      exact site rfl
    · exact h.sites there

theorem spawn (h : v.Guards e₀ s) (minds : v.Minds s.engine goal.reader b)
    (site : ∀ {c : BranchCheck} {key : Entry}, goal = .branch c → c.site = some key →
      ¬ v.holds key) : v.Guards e₀ (s.spawn goal b) :=
  (h.insert s.nextTask ⟨goal, .ready b⟩ minds site).kept (t := s.spawn goal b) .refl
    (fun _ => rfl) h.readers (List.Subset.refl _)

theorem addReader (h : v.Guards e₀ s)
    (reads : ∀ other, reader = some other → v.holds other → v.holds key) :
    v.Guards e₀ (s.addReader key reader) := by
  refine h.kept (Run.recorded_addReader s key reader).becomes
    (fun k => Run.resultOf_addReader s key reader (.entry k)) (fun {k other} there held => ?_) ?_
  · rcases (Run.mem_readers_addReader s key reader k other).mp there with there | ⟨same, rfl⟩
    · exact h.readers there held
    · exact reads other same held
  · cases reader <;> exact List.Subset.refl _

/-! ## Steps of a turn -/

/-- An entry of these only reads such entries. -/
theorem reads_of_minds {next : Property → Infer Property}
    (minds : v.Minds e reader (.demand key next)) :
    ∀ other, reader = some other → v.holds other → v.holds key := by
  intro other same held
  cases minds.ends same held with
  | demand held' _ _ _ => exact held'

theorem answered (h : v.Guards e₀ s) {query : Query} (steady : query.Steady) :
    v.Guards e₀ (s.afterAnswer query) := by
  refine h.kept (Engine.Becomes.refl.answer steady) (fun key => ?_)
    (fun {key other} there => h.readers ?_) (List.Subset.refl _)
  · exact Run.resultOf_congr (congrArg (Table.find? · key) (Run.afterAnswer_memo s query))
  · rw [← (EngineM.grows_answer query s.engine).readers]
    exact there

theorem step (h : v.Guards e₀ s) (standard : e₀.Standard) (minds : v.Minds s.engine reader b)
    (step : Run.Step reader b s log b₁ t) : v.Guards e₀ t ∧ v.Minds t.engine reader b₁ := by
  cases step with
  | ask query next =>
    cases minds.steady with
    | ask steady later =>
      refine ⟨h.answered steady, later _, fun same held => ?_⟩
      cases minds.ends same held with
      | ask later => exact later _ .refl
  | @read key next _ p q found ready =>
    cases minds.steady with
    | demand later =>
      refine ⟨h.addReader (reads_of_minds minds), later _, fun same held => ?_⟩
      cases minds.ends same held with
      | demand held' _ later _ =>
        have there : s.promise? (.entry key) = some p := found
        have tells := h.found held' ((Run.resultOf_of_promise? there).trans ready)
        have becomes := (Run.recorded_addReader s key reader).becomes
        exact later _ _ becomes (v.mono tells becomes)
  | @call callee args next _ c found =>
    cases minds.steady with
    | call later =>
      refine ⟨h, (Callable.steady_body (h.becomes.standard standard) found args).bind later,
        fun same held => ?_⟩
      cases minds.ends same held with
      | call known later =>
        rw [found] at known
        cases known
        exact later

theorem steps (h : v.Guards e₀ s) (standard : e₀.Standard) (minds : v.Minds s.engine reader b)
    (steps : Run.Steps reader b s log b₁ t) : v.Guards e₀ t ∧ v.Minds t.engine reader b₁ := by
  induction steps with
  | refl b s => exact ⟨h, minds⟩
  | head first rest ih =>
    obtain ⟨h, minds⟩ := h.step standard minds first
    exact ih h minds

end Guards

/-- What a turn leaves of a task for a reader. -/
def Leaves (v : Enclave) (e : Engine) (reader : Option Entry) : Run.Progress Property → Prop
  | .ended r => ∀ key, reader = some key → v.holds key → v.Aim key e r
  | .waiting source next => v.Bides e reader (.waiting source next)
  | .calling body => v.Minds e reader body
  | .forever => v.Bides e reader .forever

namespace Guards

variable {s t : Run} {self : TaskId} {goal : Goal} {reader : Option Entry} {log : List Event}
  {progress : Run.Progress Property} {r : Outcome}

/-- A task that waits for an entry of these. -/
theorem waits_of_minds {next : Property → Infer Property} (minds : v.Minds e reader (.demand key next))
    (becomes : e.Becomes f) : v.Bides f reader (.waiting (.entry key) next) := by
  cases minds.steady with
  | demand steady =>
    refine ⟨steady, fun other same held => ?_⟩
    cases minds.ends same held with
    | demand held' _ later failed =>
      exact ⟨key, rfl, held', fun g p up => later g p (becomes.trans up),
        fun g err up => failed g err (becomes.trans up)⟩

theorem beginEntry (h : v.Guards e₀ s) (closed : v.Closed e₀) (self : TaskId) (key : Entry)
    (absent : s.engine.memo.find? key = none) : v.Guards e₀ (s.beginEntry self key) := by
  have entered : v.Guards e₀
      (s.setMemo (s.engine.memo.insert key { result := none, waiters := [self] })) := by
    refine h.kept (t := s.setMemo _) (Engine.Becomes.refl.results _ _ _) (fun k => ?_) h.readers
      (List.Subset.refl _)
    show (Table.find? (s.engine.memo.insert key _) k).bind _ = (s.engine.memo.find? k).bind _
    rw [Table.find?_insert]
    split
    · rename_i same
      rw [← same, absent]
      rfl
    · rfl
  refine entered.spawn ⟨key.ref.steady_infer key.track, ?_⟩ (by rintro _ _ ⟨⟩)
  rintro _ ⟨⟩ held
  exact closed held entered.becomes

theorem beginRace (h : v.Guards e₀ s) (self : TaskId) (site : Option Entry)
    (other : ∀ key, site = some key → ¬ v.holds key) (track : Track) (use : BranchUse)
    (first second : Ref) : v.Guards e₀ (s.beginRace self site track use first second) := by
  have minds : ∀ {e : Engine} {c : BranchCheck} (x : Ref),
      v.Minds e (Goal.branch c).reader (Infer.branch track use x) :=
    fun x => ⟨Infer.steady_branch track use x, by rintro _ ⟨⟩⟩
  have away : ∀ {c c' : BranchCheck} {key : Entry}, c.site = site → Goal.branch c = .branch c' →
      c'.site = some key → ¬ v.holds key := by
    rintro c _ key same ⟨⟩ found
    exact other key (same.symm.trans found)
  have raced : v.Guards e₀ (s.race site track use first second).2 :=
    ((h.kept (t := { s with cells := s.cells.push .pending }) .refl (fun _ => rfl) h.readers
      (List.Subset.refl _)).spawn (minds first) (away rfl)).spawn (minds second) (away rfl)
  exact raced.kept (t := s.beginRace self site track use first second) .refl (fun _ => rfl)
    raced.readers (List.Subset.refl _)

/-- The last step of a turn. -/
theorem halt (h : v.Guards e₀ s) (closed : v.Closed e₀) (minds : v.Minds s.engine reader b)
    (halt : Run.Halt self reader b s log progress t) :
    v.Guards e₀ t ∧ v.Leaves t.engine reader progress := by
  cases halt with
  | done p =>
    refine ⟨h, fun key same held => ?_⟩
    cases minds.ends same held with
    | done result => exact result _ .refl
  | fail err =>
    refine ⟨h, fun key same held => ?_⟩
    cases minds.ends same held with
    | fail result => exact result _ .refl
  | forever =>
    refine ⟨h, fun key same held => ?_⟩
    cases minds.ends same held
  | @readFailed key next _ p err found failed =>
    refine ⟨h.addReader (reads_of_minds minds), fun other same held => ?_⟩
    cases minds.ends same held with
    | demand held' _ _ fails =>
      have there : s.promise? (.entry key) = some p := found
      have tells := h.found held' ((Run.resultOf_of_promise? there).trans failed)
      have becomes := (Run.recorded_addReader s key reader).becomes
      exact fails _ err becomes (v.mono tells becomes)
  | @wait key next _ p found missing =>
    have h := h.addReader (reads_of_minds minds)
    have found : (s.addReader key reader).promise? (.entry key) = some p :=
      (Run.promise?_addReader s key reader _).trans found
    have recorded := Run.recorded_setPromise (s.addReader key reader) (.entry key)
      { result := none, waiters := p.waiters ++ [self] }
    have becomes := (Run.recorded_addReader s key reader).becomes.trans recorded.becomes
    exact ⟨h.kept (t := (s.addReader key reader).waitOn self (.entry key) p) recorded.becomes
      (fun k => Run.resultOf_waitOn found missing self (.entry k)) h.readers (List.Subset.refl _),
      waits_of_minds minds becomes⟩
  | @begin key next _ absent =>
    have absent : (s.addReader key reader).engine.memo.find? key = none :=
      (Run.addReader_memo s key reader).symm ▸ absent
    have becomes := (Run.recorded_addReader s key reader).becomes
    exact ⟨(h.addReader (reads_of_minds minds)).beginEntry closed self key absent,
      waits_of_minds minds (becomes.trans (Engine.Becomes.refl.results _ _ _))⟩
  | @uncallable callee args next _ unknown =>
    refine ⟨h, fun key same held => ?_⟩
    cases minds.ends same held with
    | call known _ =>
      rw [unknown] at known
      cases known
  | race track use first second next =>
    have other : ∀ key, reader = some key → ¬ v.holds key := by
      intro key same held
      cases minds.ends same held
    cases minds.steady with
    | unify steady =>
      exact ⟨h.beginRace self reader other track use first second, steady,
        fun key same held => absurd held (other key same)⟩

/-! ## Turns -/

/-- Whatever an entry of these is reached from by way of readers is one of these. -/
theorem holds_of_path (h : v.Guards e₀ s) {start k : Entry}
    (path : Relation.ReflTransGen s.engine.readers.Edge start k) (held : v.holds k) :
    v.holds start := by
  induction path using Relation.ReflTransGen.head_induction_on with
  | refl => exact held
  | head edge _ ih => exact h.readers edge ih

/-- A task does not compute a branch of one of these entries. -/
theorem site_of_find? (h : v.Guards e₀ s) {work : Work}
    (known : s.tasks.find? self = some ⟨goal, work⟩) :
    ∀ {c : BranchCheck} {key : Entry}, goal = .branch c → c.site = some key → ¬ v.holds key := by
  rintro c key rfl
  exact h.sites (Table.mem_of_find? known)

/-- A task ends. A late failure does not reach the entries, because no branch is theirs. -/
theorem ended (h : v.Guards e₀ s)
    (site : ∀ {c : BranchCheck} {key : Entry}, goal = .branch c → c.site = some key →
      ¬ v.holds key)
    (aims : ∀ key, goal.reader = some key → v.holds key → v.Aim key s.engine r) :
    v.Guards e₀ (s.endTask self goal r) := by
  have ending := Run.ending_endTask s self goal r
  have becomes : s.engine.Becomes (s.endTask self goal r).engine :=
    (ending.recorded : s.engine.Recorded _).becomes
  have found : ∀ {key : Entry} {r' : Outcome}, v.holds key →
      (s.endTask self goal r).resultOf (.entry key) = some r' → v.tells key s.engine r' := by
    intro key r' held known'
    have left : (s.leave self).resultOf (.entry key) = s.resultOf (.entry key) :=
      Run.resultOf_congr (Run.promise?_leave s self _)
    rcases ending.resultOf (.entry key) with same | ⟨aim, -, result⟩ |
      ⟨c, p, err, start, k, rfl, -, -, ⟨⟩, -, -, theirs, path⟩
    · exact h.found held (left ▸ same ▸ known')
    · rw [result, Option.some.injEq] at known'
      subst known'
      cases goal with
      | entry other =>
        cases aim
        exact aims _ rfl held
      | _ => cases aim
    · exact absurd (h.holds_of_path path held) (site rfl theirs)
  obtain ⟨tasks, -, -, readers, -⟩ := ending.same
  have sub : (s.endTask self goal r).tasks ⊆ s.tasks := by
    rw [tasks]
    exact (Table.erase_sublist s.tasks self).subset
  refine ⟨h.becomes.trans becomes, fun held known' => v.mono (found held known') becomes,
    fun {key other} there => h.readers ?_, fun there => (h.bides (sub there)).mono becomes,
    fun there => h.sites (sub there)⟩
  rw [readers] at there
  exact there

theorem settle (h : v.Guards e₀ s)
    (site : ∀ {c : BranchCheck} {key : Entry}, goal = .branch c → c.site = some key →
      ¬ v.holds key)
    (leaves : v.Leaves s.engine goal.reader progress) : v.Guards e₀ (s.settle self goal progress) := by
  cases progress with
  | ended r => exact h.ended site leaves
  | waiting source next => exact h.insert self ⟨goal, .waiting source next⟩ leaves site
  | calling body => exact h.insert self ⟨goal, .ready body⟩ leaves site
  | forever => exact h.insert self ⟨goal, .forever⟩ leaves site

/-- Every turn keeps what is said of the entries true. -/
theorem turned (h : v.Guards e₀ s) (closed : v.Closed e₀) (standard : e₀.Standard)
    (turned : Run.Turned s self log t) : v.Guards e₀ t := by
  cases turned with
  | absent gone => exact h
  | asleep task => exact h
  | unfounded task missing => exact h
  | @blocked goal source next p task found missing =>
    refine h.kept (t := s.waitOn self source p) (Run.recorded_setPromise s source _).becomes
      (fun k => Run.resultOf_waitOn found missing self (.entry k)) ?_ ?_
    · rw [Run.waitOn, (Run.setPromise_same _ _ _).2.2.2.2.2.2.2]
      exact h.readers
    · exact (Run.alike_waitOn found missing self).tasks ▸ List.Subset.refl _
  | @failed goal source next p err task found failed =>
    refine h.ended (h.site_of_find? task) fun key same held => ?_
    obtain ⟨k, rfl, held', -, fails⟩ := (h.bides (Table.mem_of_find? task)).2 key same held
    exact fails _ err .refl (h.found held' ((Run.resultOf_of_promise? found).trans failed))
  | @moved task body b₁ s₁ s₂ asks log progress found goes steps halt =>
    have bides := h.bides (Table.mem_of_find? found)
    have minds : v.Minds s.engine task.goal.reader body := by
      obtain ⟨goal, work⟩ := task
      cases goes with
      | ready body => exact bides
      | resumed there ready =>
        refine ⟨bides.1 _, fun {key} same held => ?_⟩
        obtain ⟨k, rfl, held', later, -⟩ := bides.2 key same held
        exact later _ _ .refl (h.found held' ((Run.resultOf_of_promise? there).trans ready))
    obtain ⟨h₁, minds⟩ := h.steps standard minds steps
    obtain ⟨h₂, leaves⟩ := h₁.halt closed minds halt
    exact h₂.settle (h.site_of_find? found) leaves

/-- So does every run. -/
theorem polls (h : v.Guards e₀ s) (closed : v.Closed e₀) (standard : e₀.Standard)
    (polls : Run.Polls s log t) : v.Guards e₀ t :=
  Run.Polls.invariant (fun _ s => v.Guards e₀ s)
    (fun {_ _ s _ _ schedule} h _ turn => Guards.turned (s := s.scheduled schedule)
      (h.kept (t := s.scheduled schedule) .refl (fun _ => rfl) h.readers (List.Subset.refl _))
      closed standard turn) [] polls h

/-! ## Sessions -/

theorem new (v : Enclave) (program : Program) (types : TypeCache) (config : Config) :
    v.Guards (.new program types config) (Run.start (.new program types config) true) where
  becomes := .refl
  found := by rintro key r - ⟨⟩
  readers := by rintro key reader ⟨⟩
  bides := by rintro x task ⟨⟩
  sites := by rintro x c work key ⟨⟩

theorem asking (h : v.Guards e₀ (Run.start e true)) (graph : GraphId) (args : List ArgSpec)
    (track : Track) : v.Guards e₀ (Run.asking e graph args track) := by
  have steady : (Query.graphInferrer track graph .empty).Steady := trivial
  refine Guards.spawn (h.answered steady) ⟨.call .done, ?_⟩ ?_
  · rintro _ ⟨⟩
  · rintro _ _ ⟨⟩

/-- What is left of a run is where the next one begins. -/
theorem close (h : v.Guards e₀ s) (distinct : s.Distinct) :
    v.Guards e₀ (Run.start s.close true) where
  becomes := h.becomes.trans (Engine.Becomes.refl.results _ _ _)
  found := fun held known => v.mono (h.found held (s.resultOf_close distinct _ ▸ known))
    (Engine.Becomes.refl.results _ _ _)
  readers := fun there => h.readers (s.readers_close distinct there)
  bides := by rintro x task ⟨⟩
  sites := by rintro x c work key ⟨⟩

end Guards

/-- No entries at all. -/
def nobody : Enclave where
  holds := fun _ => False
  rank := fun _ => 0
  tells := fun _ _ _ => True
  mono := fun h _ => h

end Enclave

end ArrayInference
