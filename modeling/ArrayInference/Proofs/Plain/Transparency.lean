import ArrayInference.Proofs.Plain.Numbers
import ArrayInference.Proofs.Plain.ShapeRules
import ArrayInference.Proofs.Plain.Termination
import ArrayInference.Proofs.Plain.TypeRules
import ArrayInference.Proofs.Plain.ValueRules
import ArrayInference.Proofs.Run.Root
import ArrayInference.Proofs.Run.Success

/-!
# Memo and schedule cannot be noticed

A call of a graph on a fresh engine finds what the plain evaluator finds, in every order of turns: the
same data, the same error, and an inferrer that stands for the same. It stalls exactly if the plain
evaluator comes back to an entry that it is evaluating. All this holds as long as no conditional is
undecided and no graph goes beyond its contexts.
-/

namespace ArrayInference

open Engine

theorem Registries.fair_builtin (track : Track) : (Registries.builtin.get track).Fair := by
  cases track with
  | value => exact ValueRules.fair_registry
  | type => exact TypeRules.fair_registry
  | shape => exact ShapeRules.fair_registry

/-- The error of a run whose property depends on itself. -/
def InferError.stalled : InferError :=
  .inference "inference stalled: the result depends on itself"

/-- What a run finds in the place of a plain evaluation. -/
def Verdict.outcome : Verdict → Outcome
  | found r => r
  | reentered => .error .stalled

namespace Plain

/-- The plain evaluation of a program under the built-in rules. -/
def standard (program : Program) (types : TypeCache) (names : Numbering) : Plain :=
  { program, rules := .builtin, types, names }

theorem fit_standard {program : Program} (free : program.MetaFree) (types : TypeCache)
    (names : Numbering) : (standard program types names).Fit :=
  ⟨free, Registries.fair_builtin⟩

variable {P : Plain} {b : Infer Property} {e : InferError} {r : Outcome}

/-- What a run has found, with the engine that it leaves, is what a plain evaluation finds. Inferrers
are read as what they stand for, and the parts of these as well. -/
structure Agrees (P : Plain) (out : Outcome × Engine) (v : Verdict) : Prop where
  same : ∃ reading, Reading P out.2 reading ∧ SameOutcome (out.2.world reading) out.1 v.outcome
  stalled : out.1 = .error .stalled ↔ v = .reentered

/-! ## No evaluation finds the error of a stall -/

theorem attributed_ne_stalled (node : NodeId) (r : Outcome) :
    Run.attributed node r ≠ .error .stalled := by
  cases r with
  | ok p => simp [Run.attributed]
  | error e =>
    obtain ⟨cause, nodes⟩ := e
    cases cause <;> cases nodes <;>
      simp [Run.attributed, InferError.attributeTo, InferError.stalled, InferError.inference]

/-- A message that begins with another letter. -/
theorem inference_ne_stalled {message : String} (h : message.toList.head? ≠ some 'i') :
    InferError.inference message ≠ .stalled := by
  intro heq
  have hmessage : message = "inference stalled: the result depends on itself" := by
    simpa [InferError.inference, InferError.stalled] using heq
  exact h (by rw [hmessage]; decide)

theorem graph_message_ne_stalled (rest : String) :
    InferError.inference ("graph '" ++ rest) ≠ .stalled := by
  refine inference_ne_stalled ?_
  rw [String.toList_append, List.head?_append_of_ne_nil _ (by decide)]
  decide

theorem bind_ne_stalled {α β : Type} {m : Except InferError α} {f : α → Except InferError β}
    (h : m ≠ .error .stalled) (h' : ∀ a, f a ≠ .error .stalled) : (m >>= f) ≠ .error .stalled := by
  cases m with
  | ok a => exact h' a
  | error e => simpa [bind, Except.bind] using h

theorem pure_ne_stalled {α : Type} (a : α) : (pure a : Except InferError α) ≠ .error .stalled := by
  simp [pure, Except.pure]

mutual

theorem ofType_ne_stalled : ∀ t : Ty, Shape.ofType t ≠ .error .stalled
  | .array h e => by
      simp [Shape.ofType, InferError.unsupported, InferError.stalled, InferError.inference]
  | .tuple h es => bind_ne_stalled (ofTypes_ne_stalled es) fun _ => pure_ne_stalled _
  | .list h e => bind_ne_stalled (ofType_ne_stalled e) fun _ => pure_ne_stalled _
  | .record h tag as methods =>
      bind_ne_stalled (ofAttributes_ne_stalled as) fun _ => pure_ne_stalled _
  | .generic .. | .int .. | .uint .. | .float .. | .function .. | .external .. => by
      simp [Shape.ofType]

theorem ofTypes_ne_stalled : ∀ ts : List Ty, Shape.ofTypes ts ≠ .error .stalled
  | [] => by simp [Shape.ofTypes]
  | t :: ts => bind_ne_stalled (ofType_ne_stalled t) fun _ =>
      bind_ne_stalled (ofTypes_ne_stalled ts) fun _ => pure_ne_stalled _

theorem ofAttributes_ne_stalled : ∀ as : List (String × Ty), Shape.ofAttributes as ≠ .error .stalled
  | [] => by simp [Shape.ofAttributes]
  | (_, t) :: as => bind_ne_stalled (ofType_ne_stalled t) fun _ =>
      bind_ne_stalled (ofAttributes_ne_stalled as) fun _ => pure_ne_stalled _

end

theorem props_ne_stalled (a : ArgSpec) : a.props ≠ .error .stalled := by
  rw [ArgSpec.props]
  cases a.shape with
  | some s => exact pure_ne_stalled _
  | none => exact bind_ne_stalled (ofType_ne_stalled a.type) fun _ => pure_ne_stalled _

theorem mapM_props_ne_stalled (args : List ArgSpec) : args.mapM ArgSpec.props ≠ .error .stalled := by
  induction args with
  | nil => exact pure_ne_stalled _
  | cons a rest ih =>
    rw [List.mapM_cons]
    exact bind_ne_stalled (props_ne_stalled a) fun _ =>
      bind_ne_stalled ih fun _ => pure_ne_stalled _

/-- What a graph is asked for is an entry, and the error of an entry belongs to its node. -/
theorem outcome_ne_stalled_of_finds {graph : GraphId} {args : List ArgSpec} {track : Track}
    (h : P.Finds (P.root graph args track) r) : r ≠ .error .stalled := by
  obtain ⟨n, h⟩ := h
  cases h with
  | uncallable _ unknown =>
    rw [callable?, Numbering.inferrer, P.names.meaning_number] at unknown
    cases unknown
  | call known rest =>
    rw [callable?, Numbering.inferrer, P.names.meaning_number] at known
    cases known
    rw [Infer.bind_done, Callable.body, Callable.callGraph, List.length_map,
      mapM_argProps_toRef] at rest
    cases rest with
    | ask known rest =>
      cases known
      replace rest : P.FindsIn _ (if _ then _ else _) r := rest
      split at rest
      · cases rest
        intro heq
        simp only [Except.error.injEq, String.append_assoc] at heq
        exact graph_message_ne_stalled _ heq
      · cases hprops : args.mapM ArgSpec.props with
        | error e =>
          rw [hprops] at rest
          cases rest
          intro heq
          rw [Except.error.injEq] at heq
          exact mapM_props_ne_stalled args (heq ▸ hprops)
        | ok props =>
          rw [hprops] at rest
          cases rest with
          | ask known rest =>
            cases known
            cases hout : (P.program.graph graph).output with
            | none =>
              rw [hout] at rest
              cases rest
              intro heq
              simp only [Except.error.injEq, String.append_assoc] at heq
              exact graph_message_ne_stalled _ heq
            | some output =>
              rw [hout] at rest
              cases rest with
              | ask known rest =>
                cases known
                cases rest with
                | read entry ok rest =>
                  cases rest
                  simp
                | failed entry failed => exact failed ▸ attributed_ne_stalled _ _

end Plain

namespace Run

variable {P : Plain} {root body : Infer Property} {s t u : Run} {reading : Nat → Inferrer}
  {pos : TaskId → Nat} {self : TaskId} {log : List Event} {graph : GraphId} {args : List ArgSpec}
  {track : Track}

/-! ## The beginning -/

theorem reading_new (program : Program) (types : TypeCache) (config : Config) (names : Numbering) :
    Reading (.standard program types names) (.new program types config)
      fun i => names.inferrer (if i = 0 then .anything else .scalarShape) where
  program := rfl
  rules := rfl
  home := rfl
  anything := rfl
  scalarShape := rfl
  reads := by
    intro i c found
    rcases i with _ | _ | n
    · cases found
      exact ⟨.anything, .anything, rfl⟩
    · cases found
      exact ⟨.scalarShape, .scalarShape, rfl⟩
    · cases found
  kept := by
    intro key f found
    cases found

theorem sameRef_toRef {w : World} {a : ArgSpec} (free : a.MetaFree) : SameRef w a.toRef a.toRef := by
  refine .virtual ⟨.some ?_, .some (.type _), ?_⟩
  · cases hvalue : a.value with
    | none => exact .anything
    | some c => exact .known (free c hvalue)
  · cases hshape : a.shape with
    | none => exact .none
    | some s => exact .some (.shape s)

theorem sameRefs_toRef {w : World} (given : ∀ a ∈ args, a.MetaFree) :
    List.Forall₂ (SameRef w) (args.map ArgSpec.toRef) (args.map ArgSpec.toRef) := by
  rw [List.forall₂_same]
  intro x hx
  obtain ⟨a, ha, rfl⟩ := List.mem_map.mp hx
  exact sameRef_toRef (given a ha)

/-- A run begins beside an evaluation of what it computes. -/
theorem mirrors_opening {e : Engine} (readable : Reading P e reading) (fresh : e.memo = [])
    (same : Similar SameProperty (e.world reading) body root) :
    Mirrors P root (opening e body) reading fun _ => 0 := by
  have absent : ∀ key, (opening e body).engine.memo.find? key = none := by
    intro key
    show e.memo.find? key = none
    rw [fresh]
    rfl
  refine ⟨⟨readable, ?_⟩, ?_, ?_, ?_, ?_, ?_, rfl, Nat.le_add_left _ _⟩
  · intro key p r found
    rw [absent] at found
    cases found
  · intro key p found
    rw [absent] at found
    cases found
  · intro key p found
    rw [absent] at found
    cases found
  · intro x task found
    rw [(opening_find? found).2]
    exact .mk .answer (.ready _) same .refl
  · intro r hr
    cases hr
  · exact fun _ => ⟨0, _, rfl⟩

/-- A call on a fresh engine begins beside the plain evaluation of the call. -/
theorem exists_mirrors_asking (program : Program) (types : TypeCache) (config : Config)
    (names : Numbering) (graph : GraphId) (given : ∀ a ∈ args, a.MetaFree) (track : Track) :
    ∃ reading, Mirrors (.standard program types names)
      ((Plain.standard program types names).root graph args track)
      (asking (.new program types config) graph args track) reading fun _ => 0 := by
  have hgrows := EngineM.grows_graphInferrer track graph .empty (.new program types config)
  obtain ⟨reading, -, readable, same⟩ := EngineM.reads_graphInferrer
    (reading_new program types config names) track graph .empty
  exact ⟨reading, mirrors_opening readable hgrows.memo
    (similar_callInferrer same (sameRefs_toRef given))⟩

/-! ## Whole runs -/

theorem Turned.size_cells_le (turned : Turned s self log t) : s.cells.size ≤ t.cells.size := by
  cases turned with
  | blocked task found missing => exact Nat.le_of_eq (setPromise_same s _ _).2.2.2.2.1.symm
  | failed task found failed => exact Nat.le_of_eq (ending_endTask s _ _ _).same.2.2.1.symm
  | @moved task body b₁ s₁ s₂ log log₁ progress found goes steps halt =>
    have hsteps : s₁.cells = s.cells := by rw [steps.quiet.same]
    have hhalt : s₁.cells.size ≤ s₂.cells.size := by
      cases halt with
      | readFailed found failed => cases task.goal.reader <;> exact Nat.le_refl _
      | wait found missing => cases task.goal.reader <;> exact Nat.le_refl _
      | begin absent => cases task.goal.reader <;> exact Nat.le_refl _
      | race track use first second next =>
        rw [Mirrors.size_beginRace]
        exact Nat.le_succ _
      | _ => exact Nat.le_refl _
    rw [← hsteps]
    refine Nat.le_trans hhalt (Nat.le_of_eq ?_)
    cases progress with
    | ended r => exact (ending_endTask s₂ _ _ _).same.2.2.1.symm
    | _ => rfl
  | _ => exact Nat.le_refl _

/-- The run comes to its end. -/
theorem driven_of_drive (h : drive s = some t) : Driven s t := by
  refine drive.partial_correctness Driven ?_ s t h
  intro recurse ih s t ht
  cases hnext : s.schedule.next? with
  | none =>
    simp only [hnext, Option.some.injEq] at ht
    exact ht ▸ .rest s
  | some pair =>
    obtain ⟨task, schedule⟩ := pair
    cases hturn : turn (s.scheduled schedule) task with
    | none =>
      rw [scheduled] at hturn
      simp [hnext, hturn] at ht
    | some u =>
      have ht : recurse u = some t := by
        rw [scheduled] at hturn
        simpa only [hnext, hturn] using ht
      exact .turn hnext hturn (ih u t ht)

/-- A calm run was calm before. -/
theorem Calm.before (h : t.Calm) (turned : Turned s self log t) : s.Calm where
  decided := Nat.le_zero.mp (h.decided ▸ turned.size_cells_le)
  within := fun exceeded => h.within (exceeded.mono turned.follows.extends)

theorem Calm.start (h : t.Calm) (polls : Polls s log t) : s.Calm := by
  induction polls with
  | rest s => exact h
  | @poll s t u self schedule log log' offered turned later ih =>
    have h := (ih h).before turned
    exact ⟨h.decided, h.within⟩

theorem Mirrors.polls (fit : P.Fit) (h : Mirrors P root s reading pos) (tidy : Tidy [] none s)
    (polls : Polls s log t) (calm : t.Calm) :
    ∃ later pos', Mirrors P root t later pos' := by
  induction polls generalizing reading pos with
  | rest s => exact ⟨reading, pos, h⟩
  | @poll s t u self schedule log log' offered turned later ih =>
    have hcalm := calm.start later
    have hbefore := hcalm.before turned
    obtain ⟨next, pos', h', -⟩ := (h.scheduled schedule).turned fit (tidy.offered offered) turned
      (hcalm.decided.trans hbefore.decided.symm) hcalm.within
    exact ih h' ((tidy.offered offered).turned turned) calm

/-! ## The end -/

/-- Whoever is left when no task can go on waits for an entry without a result. -/
theorem Mirrors.stuck (h : Mirrors P root s reading pos) (tidy : Tidy [] none s)
    (finished : s.Finished) {x : TaskId} {goal : Goal} {work : Work}
    (known : s.tasks.find? x = some ⟨goal, work⟩) :
    ∃ key next p, work = .waiting (.entry key) next ∧ s.engine.memo.find? key = some p
      ∧ p.result = none := by
  obtain ⟨starts, pursues, same, leads⟩ := h.tasks known
  have nobody : ∀ y, y ∉ s.schedule.queue := by
    intro y hy
    rw [finished] at hy
    cases hy
  cases pursues with
  | ready => exact absurd (tidy.ready known (by simp)) (nobody x)
  | waiting key next =>
    obtain ⟨p, found, -, hqueue⟩ := tidy.waiting known
    refine ⟨key, next, p, rfl, found, ?_⟩
    by_contra hready
    exact nobody x (hqueue hready (by simp))

/-- What is left without a result needs itself, and so does what waits for it. -/
theorem Mirrors.exists_loops (h : Mirrors P root s reading pos) (tidy : Tidy [] none s)
    (finished : s.Finished) (unanswered : s.outcome = none) :
    ∃ D, P.Loops D ∧ P.Meets D root := by
  have hread : ∀ key, ∃ key₀, ∀ p, s.engine.memo.find? key = some p →
      SameEntry (s.engine.world reading) key key₀ := by
    intro key
    cases found : s.engine.memo.find? key with
    | none => exact ⟨key, fun p hp => by cases hp⟩
    | some p =>
      obtain ⟨key₀, same, -⟩ := h.asked found
      exact ⟨key₀, fun _ _ => same⟩
  choose plain hplain using hread
  let missing := (s.engine.memo.map Prod.fst).filter fun key =>
    (s.engine.memo.find? key).any fun p => p.result.isNone
  have hmem : ∀ {key p}, s.engine.memo.find? key = some p → p.result = none →
      plain key ∈ missing.map plain := by
    intro key p found hnone
    refine List.mem_map_of_mem (List.mem_filter.mpr ⟨?_, ?_⟩)
    · exact List.mem_map.mpr ⟨_, Table.mem_of_find? found, rfl⟩
    · simp [found, hnone]
  -- a task that is left comes to an entry that is missing too
  have hmeets : ∀ {x : TaskId} {goal : Goal} {work : Work},
      s.tasks.find? x = some ⟨goal, work⟩ →
      ∃ start, Starts P root (s.engine.world reading) goal start
        ∧ P.Meets (missing.map plain) start := by
    intro x goal work known
    obtain ⟨key, next, p, rfl, found, hnone⟩ := h.stuck tidy finished known
    obtain ⟨starts, pursues, same, leads⟩ := h.tasks known
    cases pursues
    cases same with
    | demand hkey rest =>
      rw [hkey.unique (hplain key p found)] at leads
      exact ⟨_, starts, leads.meets (.here (hmem found hnone))⟩
  refine ⟨missing.map plain, ?_, ?_⟩
  · intro key₀ hkey₀
    obtain ⟨key, hkey, rfl⟩ := List.mem_map.mp hkey₀
    obtain ⟨-, hmissing⟩ := List.mem_filter.mp hkey
    cases found : s.engine.memo.find? key with
    | none => simp [found] at hmissing
    | some p =>
      have hnone : p.result = none := by simpa [found] using hmissing
      obtain ⟨x, work, known⟩ := h.pending found hnone
      obtain ⟨start, starts, met⟩ := hmeets known
      cases starts with
      | entry same needs => rwa [same.unique (hplain key p found)] at met
  · obtain ⟨x, work, known⟩ := h.unanswered unanswered
    obtain ⟨start, starts, met⟩ := hmeets known
    cases starts
    exact met

/-- A call on a fresh engine begins in order. -/
theorem tidy_asking (program : Program) (types : TypeCache) (config : Config) (graph : GraphId)
    (args : List ArgSpec) (track : Track) :
    Tidy [] none (asking (.new program types config) graph args track) := by
  have tidy := tidy_opening ((EngineM.graphInferrer track graph .empty).run
    (.new program types config)).2 (Infer.callInferrer ((EngineM.graphInferrer track graph .empty).run
    (.new program types config)).1 (args.map ArgSpec.toRef))
  rwa [show _ = [] from
    (EngineM.grows_graphInferrer track graph .empty (.new program types config)).memo] at tidy

/-- A run that is over has found what the plain evaluation finds. -/
theorem Mirrors.agrees (h : Mirrors P root s reading pos) (tidy : Tidy [] none s)
    (finished : s.Finished) (named : ∀ {r}, P.Finds root r → r ≠ .error .stalled) :
    ∃ v, P.evaluate [] root = some v ∧ P.Agrees (s.result, s.close) v := by
  have readable : Reading P s.close reading := h.faithful.readable.congr rfl rfl rfl rfl rfl rfl
  have hworld : s.close.world reading = s.engine.world reading := Reading.world_eq rfl rfl
  cases houtcome : s.outcome with
  | none =>
    obtain ⟨D, loops, met⟩ := h.exists_loops tidy finished houtcome
    have hresult : s.result = .error .stalled := by
      rw [result, houtcome]
      rfl
    refine ⟨.reentered, Plain.evaluate_of_meets loops met (List.nil_subset D), ⟨reading, readable, ?_⟩,
      ?_⟩
    · rw [hresult]
      exact .error _
    · simp [hresult]
  | some r =>
    obtain ⟨r₀, same, finds⟩ := h.outcome houtcome
    have hresult : s.result = r := by
      rw [result, houtcome, h.detached]
      cases r <;> rfl
    refine ⟨.found r₀, Plain.evaluate_of_finds finds (by simp), ⟨reading, readable, ?_⟩, ?_⟩
    · rw [hresult, hworld]
      exact same
    · rw [hresult]
      refine ⟨fun hr => ?_, fun hv => by cases hv⟩
      replace hr : r = .error .stalled := hr
      rw [hr] at same
      cases same
      exact absurd rfl (named finds)

/-- Memo and schedule cannot be noticed. On a fresh engine a calm call finds what the plain evaluation
finds, whatever the order of turns, and it stalls exactly if the plain evaluation comes back to an
entry that it is evaluating. In the order of the engine the one comes to an end exactly if the other
one does. -/
theorem transparent {program : Program} (free : program.MetaFree) (types : TypeCache)
    (config : Config) (names : Numbering) (graph : GraphId) {args : List ArgSpec}
    (given : ∀ a ∈ args, a.MetaFree) (track : Track) :
    (∀ log t, Polls (asking (.new program types config) graph args track) log t → t.Finished →
      t.Calm → ∃ v, (Plain.standard program types names).inferTrack graph args track = some v
        ∧ (Plain.standard program types names).Agrees (t.result, t.close) v)
      ∧ ((∀ u, Driven (asking (.new program types config) graph args track) u → u.Calm) →
        Option.Rel (Plain.standard program types names).Agrees
          ((Engine.new program types config).inferTrack? graph args track)
          ((Plain.standard program types names).inferTrack graph args track)) := by
  have fit := Plain.fit_standard free types names
  obtain ⟨reading, opening⟩ := exists_mirrors_asking program types config names graph given track
  have hgrows := EngineM.grows_graphInferrer track graph .empty (.new program types config)
  have tidy := tidy_asking program types config graph args track
  have hends : ∀ log t, Polls (asking (.new program types config) graph args track) log t →
      t.Finished → t.Calm →
      ∃ v, (Plain.standard program types names).inferTrack graph args track = some v
        ∧ (Plain.standard program types names).Agrees (t.result, t.close) v := by
    intro log t polls finished calm
    obtain ⟨later, pos, h⟩ := opening.polls fit tidy polls calm
    exact h.agrees (tidy.polls polls) finished Plain.outcome_ne_stalled_of_finds
  refine ⟨hends, fun calm => ?_⟩
  rw [inferTrack?_eq]
  cases hdrive : drive (asking (.new program types config) graph args track) with
  | some t =>
    obtain ⟨log, polls, finished⟩ := exists_polls_of_drive rfl hdrive
    obtain ⟨v, hv, agrees⟩ := hends log t polls finished (calm t (driven_of_drive hdrive))
    rw [hv]
    exact .some agrees
  | none =>
    cases hplain : (Plain.standard program types names).inferTrack graph args track with
    | none => exact .none
    | some v =>
      obtain ⟨V, D, N, covers⟩ := Plain.exists_covers_of_evaluate hplain
      have distinct : (asking (.new program types config) graph args track).Distinct := by
        refine ⟨?_, ?_⟩
        · rw [show (asking (.new program types config) graph args track).engine.memo = [] from
            hgrows.memo]
          exact List.nodup_nil
        · rw [show (asking (.new program types config) graph args track).engine.readers = [] from
            hgrows.readers]
          exact List.nodup_nil
      obtain ⟨t, ht⟩ := opening.exists_drive fit covers tidy distinct rfl calm
      rw [hdrive] at ht
      cases ht

/-- From every state that a run comes to, it goes on to the same end. -/
theorem drive_of_driven (active : s.active = true) (h : drive s = some t) (driven : Driven s u) :
    u.active = true ∧ drive u = some t := by
  induction driven with
  | rest s => exact ⟨active, h⟩
  | @turn s t' u self schedule offered turned later ih =>
    obtain ⟨log, moved⟩ := exists_turned_of_turn (s := s.scheduled schedule) active turned
    refine ih (moved.active_eq.trans active) ?_
    rw [drive.eq_def, offered] at h
    simp only at h
    rwa [show Run.turn { s with schedule } self = some t' from turned] at h

/-- A run that ends calmly was calm all along. -/
theorem calm_of_drive (active : s.active = true) (h : drive s = some t) (calm : t.Calm) :
    ∀ u, Driven s u → u.Calm := by
  intro u driven
  obtain ⟨active', h'⟩ := drive_of_driven active h driven
  obtain ⟨log, polls, -⟩ := exists_polls_of_drive active' h'
  exact calm.start polls

theorem not_exceeded_of_all {e : Engine}
    (h : (e.specializations.all fun entry => entry.2.length ≤ e.config.maxSpecializations) = true) :
    ¬ e.Exceeded := by
  rintro ⟨graph, exceeded⟩
  rw [specializationCount] at exceeded
  cases found : e.specializations.find? graph with
  | none =>
    rw [found] at exceeded
    cases exceeded
  | some contexts =>
    rw [found] at exceeded
    have := List.all_eq_true.mp h _ (Table.mem_of_find? found)
    exact absurd exceeded (Nat.not_lt_of_le (of_decide_eq_true this))

/-- A graph that binds its parameter as the first summand, and calls what comes of it on `1`. -/
def adding : Program where
  graphs := #[⟨"main", none, [⟨0⟩], some ⟨5⟩⟩]
  nodes :=
    #[⟨.parameter ⟨0⟩ 0, some ⟨0⟩, none⟩, ⟨.constant (.int 1), none, none⟩,
      ⟨.constant (.primitive .applyPartially), none, none⟩,
      ⟨.constant (.primitive .scalarAdd), none, none⟩, ⟨.apply [⟨2⟩, ⟨3⟩, ⟨0⟩], some ⟨0⟩, none⟩,
      ⟨.apply [⟨4⟩, ⟨1⟩], some ⟨0⟩, none⟩]

/-- An integer that is known. -/
def knownInt (value : Int64) : ArgSpec :=
  { type := .int ⟨0⟩ 64, shape := none, value := some (.int value) }

/-- The plain evaluation of `adding` on `2` finds `3`, as the run does. -/
theorem transparent_adding : ∃ names,
    (Plain.standard adding (.empty ⟨0⟩) names).inferTrack ⟨0⟩ [knownInt 2] .value
      = some (.found (.ok (.value (.known (.int 3))))) := by
  have hrun : (driveWithin 10 30
      (asking (.new adding (.empty ⟨0⟩) .standard) ⟨0⟩ [knownInt 2] .value)).map
        (fun t => (t.result.toOption, t.cells.size, t.engine.specializations.all fun entry =>
          entry.2.length ≤ t.engine.config.maxSpecializations))
        = some (some (.value (.known (.int 3))), 0, true) := by
    decide +kernel
  obtain ⟨t, hdrive, hseen⟩ := Option.map_eq_some_iff.mp hrun
  simp only [Prod.mk.injEq] at hseen
  obtain ⟨hresult, hcells, hlimit⟩ := hseen
  have drives := drive_of_driveWithin hdrive
  have calm := calm_of_drive rfl drives ⟨hcells, not_exceeded_of_all hlimit⟩
  obtain ⟨names⟩ := exists_numbering
  have given : ∀ a ∈ [knownInt 2], a.MetaFree := by
    rintro a ha c hc
    cases List.mem_singleton.mp ha
    cases hc
    rfl
  have hrel := (transparent (Program.metaFree_of_all (by decide +kernel)) (.empty ⟨0⟩) .standard names ⟨0⟩
    given .value).2 calm
  rw [inferTrack?_eq, drives, Option.map_some] at hrel
  generalize hplain : (Plain.standard adding (.empty ⟨0⟩) names).inferTrack ⟨0⟩ [knownInt 2] .value
    = found at hrel
  refine ⟨names, ?_⟩
  rw [hplain]
  cases hrel with
  | @some _ v agrees =>
    obtain ⟨reading, -, same⟩ := agrees.same
    rw [eq_ok_of_toOption hresult] at same
    cases v with
    | reentered => cases same
    | found r =>
      replace same : SameOutcome (t.close.world reading) (.ok (.value (.known (.int 3)))) r := same
      cases same with
      | ok same =>
        cases same
        rfl

end Run

end ArrayInference
