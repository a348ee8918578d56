import ArrayInference.Proofs.Engine.Specializing
import ArrayInference.Proofs.Run.Rerun

/-!
# Asking outside a run

A node that is asked for alone is asked for before its run begins. Outside a run no task can be
made, so a node without a result fails at once, and the failure is kept: a later call that needs the
node in that context finds it. A node with a result has the same one again, and the engine stays
exactly as it was.
-/

namespace ArrayInference

namespace Engine

/-- What stands for an entry that was asked for outside a run, when it had no result. -/
def refusal (key : Entry) : Promise TaskId :=
  { result := some (.error (Run.notActive.attributeTo key.ref.node)), waiters := [] }

/-- The engine after an entry was asked for outside a run. -/
def refuse (e : Engine) (key : Entry) : Engine :=
  { e with memo := e.memo.insert key (refusal key) }

theorem request_of_absent {e : Engine} {key : Entry} (absent : e.memo.find? key = none) :
    ((Run.start e false).request key).engine = e.refuse key := by
  rw [Run.request, if_neg, if_neg]
  · rfl
  · exact Bool.false_ne_true
  · show ¬ e.memo.contains key = true
    rw [Table.contains_eq_false.mpr absent]
    exact Bool.false_ne_true

/-- A settled engine has nothing to forget. -/
theorem Settled.close_eq {e : Engine} (h : e.Settled) {s : Run} (same : s.engine = e) :
    s.close = e := by
  have memo : e.memo.resolved = e.memo := by
    refine List.filter_eq_self.mpr fun pair hmem => ?_
    exact Option.isSome_iff_ne_none.mpr (h.resolved (Table.find?_of_mem h.memo hmem))
  have readers : e.memo.readersOf e.readers = e.readers := by
    refine List.filter_eq_self.mpr fun pair hmem => ?_
    have known : e.readers.find? pair.1 ≠ none := by
      rw [Table.find?_of_mem h.readers hmem]
      simp
    exact Table.contains_eq_true.mpr (Option.ne_none_iff_exists'.mp (h.covered known))
  rw [Run.close, same, memo, readers]

/-- A run that asks for one entry which has its result. -/
theorem run_entry {e : Engine} (h : e.Settled) {ref : NodeRef} {track : Track}
    {p : Promise TaskId} {r : Outcome} (found : e.memo.find? { ref, track } = some p)
    (ready : p.result = some r) : e.run (Infer.entry ref track) = (r, e) := by
  let body := Infer.entry ref track
  let schedule : Schedule := { ready := [], incoming := [], total := 1, turns := 0 }
  have task : ((Run.opening e body).scheduled schedule).tasks.find? 0
      = some ⟨.answer, .ready body⟩ := rfl
  have turned : Run.turn ((Run.opening e body).scheduled schedule) 0
      = some (((Run.opening e body).scheduled schedule).endTask 0 .answer r) := by
    cases r with
    | ok v =>
      exact Run.turn_of_turned rfl (.moved task (.ready body)
        (.head (.read found ready) (.refl _ _)) (.done v _))
    | error err =>
      exact Run.turn_of_turned rfl (.moved task (.ready body) (.refl _ _)
        (.readFailed found ready))
  have drive : Run.drive (Run.opening e body)
      = some (((Run.opening e body).scheduled schedule).endTask 0 .answer r) := by
    have next : (Run.opening e body).schedule.next? = some (0, schedule) := rfl
    rw [Run.scheduled] at turned
    rw [Run.drive.eq_def, next]
    simp only [turned]
    rw [Run.drive.eq_def]
    rfl
  have close := h.close_eq
    (s := ((Run.opening e body).scheduled schedule).endTask 0 .answer r) rfl
  have run : e.run? body = some (r, e) := by
    show (Run.drive (Run.opening e body)).map _ = _
    rw [drive, Option.map_some, close]
    cases r <;> rfl
  rw [Engine.run, run]
  rfl

/-! ## A node alone -/

section

variable {e : Engine} {node : NodeId} {ctx : Context} {track : Track}

/-- A node with a result. -/
theorem inferNode_of_known (h : e.Settled) {p : Promise TaskId} {r : Outcome}
    (found : e.memo.find? { ref := e.locate node ctx, track } = some p)
    (ready : p.result = some r) : e.inferNode node ctx track = (r, e) := by
  rw [inferNode, Run.request_of_find? (s := Run.start e false) found]
  exact run_entry h found ready

/-- A node without a result. -/
theorem inferNode_of_absent (arises : e.Arises)
    (absent : e.memo.find? { ref := e.locate node ctx, track } = none) :
    e.inferNode node ctx track = (.error (Run.notActive.attributeTo node),
      e.refuse { ref := e.locate node ctx, track }) := by
  have settled := (arises.refused { ref := e.locate node ctx, track }).settled
  rw [request_of_absent absent] at settled
  rw [inferNode, request_of_absent absent]
  exact run_entry settled (Table.find?_insert_self _ _ _) rfl

/-! ## A node and a call -/

variable {graph : GraphId} {args : List ArgSpec}

theorem specialize_program (graph : GraphId) (ctx : Context) (e : Engine) :
    ((EngineM.specialize graph ctx).run.run e).2.program = e.program := by
  rw [EngineM.specialize_run]
  split
  · rfl
  · split <;> rfl

theorem specialize_congr {e f : Engine} (program : f.program = e.program)
    (config : f.config = e.config) (specializations : f.specializations = e.specializations)
    (graph : GraphId) (ctx : Context) :
    ((EngineM.specialize graph ctx).run.run f).1
      = ((EngineM.specialize graph ctx).run.run e).1 := by
  have contexts : f.contextsOf graph = e.contextsOf graph := by
    rw [contextsOf, contextsOf, specializations]
  rw [EngineM.specialize_run, EngineM.specialize_run, contexts, config, program]
  split
  · rfl
  · split <;> rfl

theorem target_congr {e f : Engine} (program : f.program = e.program)
    (config : f.config = e.config) (specializations : f.specializations = e.specializations) :
    (f.target graph args track).1 = (e.target graph args track).1 := by
  rw [target, target, program]
  split
  · rfl
  · cases args.mapM ArgSpec.props with
    | error err => rfl
    | ok props =>
      dsimp only
      generalize Context.empty.extend graph props = ctx
      have result := specialize_congr program config specializations graph ctx
      have before := specialize_program graph ctx e
      have after := specialize_program graph ctx f
      rcases he : (EngineM.specialize graph ctx).run.run e with ⟨r, e'⟩
      rcases hf : (EngineM.specialize graph ctx).run.run f with ⟨r', f'⟩
      simp only [he, hf] at result before after ⊢
      subst result
      cases r' with
      | error err => rfl
      | ok u =>
        cases (e.program.graph graph).output with
        | none => rfl
        | some output => simp only [locate, before, after, program]

/-- What a call asks for does not depend on results. -/
theorem target_refuse (e : Engine) (key : Entry) :
    (Run.target (e.refuse key) graph args track).1 = (Run.target e graph args track).1 := by
  have before := EngineM.elsewhere_graphInferrer track graph .empty e
  have after := EngineM.elsewhere_graphInferrer track graph .empty (e.refuse key)
  refine target_congr ?_ (after.config.trans before.config.symm)
    (after.specializations.trans before.specializations.symm)
  rw [Run.graphInferrer_program, Run.graphInferrer_program]
  rfl

/-- A call that asks for a node finds the failure. -/
theorem inferTrack?_refuse (arises : e.Arises) {key : Entry}
    (asks : (Run.target e graph args track).1 = .ok key) (absent : e.memo.find? key = none) :
    ∃ e', (e.refuse key).inferTrack? graph args track
      = some (.error (Run.notActive.attributeTo key.ref.node), e') := by
  have refused : (e.refuse key).Arises := request_of_absent absent ▸ arises.refused key
  rcases htarget : Run.target (e.refuse key) graph args track with ⟨r, f⟩
  have hr : r = .ok key := by rw [← asks, ← target_refuse e key, htarget]
  subst hr
  have memo : f.memo = (e.refuse key).memo := by
    have grows := (EngineM.grows_graphInferrer track graph .empty (e.refuse key)).trans
      (Run.target_grows (e.refuse key) graph args track)
    rw [htarget] at grows
    exact grows.memo
  refine Run.inferTrack?_of_atOnce refused.apt (.known htarget (p := refusal key) ?_ rfl)
  rw [memo]
  exact Table.find?_insert_self _ _ _

/-- What a call asks for, when it is made of a graph with an output. -/
theorem target_eq {key : Entry} {props : List ArgProps} {output : NodeId}
    (asks : (Run.target e graph args track).1 = .ok key)
    (hprops : args.mapM ArgSpec.props = .ok props)
    (hout : (e.program.graph graph).output = some output) :
    key = { ref := e.locate output (Context.empty.extend graph props), track } := by
  rw [Run.target, target, Run.graphInferrer_program] at asks
  split at asks
  · cases asks
  · rw [hprops] at asks
    have program := specialize_program graph (Context.empty.extend graph props)
      ((EngineM.graphInferrer track graph .empty).run e).2
    rcases hspec : (EngineM.specialize graph (Context.empty.extend graph props)).run.run
      ((EngineM.graphInferrer track graph .empty).run e).2 with ⟨r, e'⟩
    simp only [hspec, hout, Run.graphInferrer_program] at asks program
    cases r with
    | error err => cases asks
    | ok u =>
      cases asks
      rw [locate, locate, program]

/-- What a call that succeeded has asked for has its result. -/
theorem exists_answer_of_call (arises : e.Arises) {p : Property} {e' : Engine}
    (ran : e.inferTrack? graph args track = some (.ok p, e')) :
    e'.Arises ∧ e.program.Extends e'.program ∧ ∃ key q,
      (Run.target e graph args track).1 = .ok key ∧ e'.memo.find? key = some q
        ∧ q.result = some (.ok p) := by
  rw [Run.inferTrack?_eq, Option.map_eq_some_iff] at ran
  obtain ⟨s, drive, hs⟩ := ran
  obtain ⟨ok, rfl⟩ := Prod.mk.inj hs
  obtain ⟨log, polls, finished⟩ := Run.exists_polls_of_drive rfl drive
  have base : ((EngineM.graphInferrer track graph .empty).run e).2.Arises :=
    arises.answered (.graphInferrer track graph .empty)
  have distinct : s.Distinct := Run.Distinct.polls (s := Run.asking e graph args track)
    ⟨base.settled.memo, base.settled.readers⟩ polls
  obtain ⟨kept, traced, stands⟩ := Run.stands_polls arises polls
  have quiet := Run.no_trouble_of_ok ok
  cases stands with
  | before start fresh =>
    subst start
    cases finished
  | refused asks grown gone outcome => exact absurd (.inr ⟨_, outcome⟩) quiet
  | @rooted key asks grown rooted =>
    cases rooted with
    | waiting task outcome =>
      rw [Run.result, outcome] at ok
      cases ok
    | failed gone outcome result => exact absurd (.inr ⟨_, outcome⟩) quiet
    | @answered v gone outcome result =>
      have same : v = p := by
        have silent : s.detached = [] := Classical.not_not.mp fun h => quiet (.inl h)
        rw [Run.result, outcome, silent] at ok
        exact Except.ok.inj ok
      subst same
      have held := result.resolve_right fun late => quiet (.inl late.2.1)
      have later : e.program.Extends s.close.program := by
        have target := Run.target_grows e graph args track
        rw [← Run.graphInferrer_program e track graph .empty]
        exact target.program.trans (grown.trans (Run.follows_close s).extends).program
      exact ⟨base.ran _ polls finished, later, key,
        (Run.find?_close distinct held).imp fun q h => ⟨asks, h⟩⟩

/-- After a call that succeeded, its output is found alone. -/
theorem inferNode_of_call (arises : e.Arises) (complete : e.program.Complete)
    (known : graph.index < e.program.graphs.size) {props : List ArgProps} {output : NodeId}
    {p : Property} {e' : Engine} (hprops : args.mapM ArgSpec.props = .ok props)
    (hout : (e.program.graph graph).output = some output)
    (ran : e.inferTrack? graph args track = some (.ok p, e')) :
    e'.inferNode output (Context.empty.extend graph props) track = (.ok p, e') := by
  obtain ⟨after, grown, key, q, asks, found, ready⟩ := exists_answer_of_call arises ran
  rw [target_eq asks hprops hout, ← locate_of_extends grown complete
    (complete.output_lt known hout)] at found
  exact inferNode_of_known after.settled found ready

/-- What comes of asking for a node alone. If the node has a result, it is this result, and the
engine stays as it was, so nothing that is asked later is answered differently. If it has none, as
any node of a new engine, it fails because no run is active, and every call that asks for the node
in this context fails with the same error from then on. After a call that succeeded, the output of
the graph in the context of the call is what the call has found. -/
theorem inferNode_outside (arises : e.Arises) (node : NodeId) (ctx : Context) (track : Track) :
    (∀ p r, e.memo.find? { ref := e.locate node ctx, track } = some p → p.result = some r →
        e.inferNode node ctx track = (r, e))
      ∧ (e.memo.find? { ref := e.locate node ctx, track } = none →
        e.inferNode node ctx track = (.error (Run.notActive.attributeTo node),
            e.refuse { ref := e.locate node ctx, track })
          ∧ ∀ graph args,
            (Run.target e graph args track).1 = .ok { ref := e.locate node ctx, track } →
            ∃ e', (e.refuse { ref := e.locate node ctx, track }).inferTrack? graph args track
              = some (.error (Run.notActive.attributeTo node), e'))
      ∧ ∀ graph args props p e', e.program.Complete → graph.index < e.program.graphs.size →
        args.mapM ArgSpec.props = .ok props → (e.program.graph graph).output = some node →
        e.inferTrack? graph args track = some (.ok p, e') →
        e'.inferNode node (Context.empty.extend graph props) track = (.ok p, e') := by
  refine ⟨?_, fun absent => ?_, ?_⟩
  · exact fun p r found ready => inferNode_of_known arises.settled found ready
  · exact ⟨inferNode_of_absent arises absent,
      fun graph args asks => inferTrack?_refuse arises asks absent⟩
  · intro graph args props p e' complete known hprops hout ran
    exact inferNode_of_call arises complete known hprops hout ran

/-- A graph that adds its parameter to itself. -/
def summing : Program :=
  let (g, p) := Program.empty.addGraph "main" none
  let (x, p) := p.addParameter g "x"
  let (output, p) := p.addOperation g .scalarAdd [x, x]
  p.setOutput g output

/-- An integer of which nothing else is known. -/
def someInt : ArgSpec :=
  { type := .int ⟨0⟩ 64, shape := none, value := none }

/-- The context of a call of a graph on such an integer. -/
def onSomeInt : Context :=
  Context.empty.extend ⟨0⟩
    [{ value := .value .anything, type := .type (.int ⟨0⟩ 64), shape := .shape .noShape }]

theorem complete_summing : summing.Complete where
  outputs := by
    intro i g output hi hg
    match i with
    | 0 =>
      cases hi
      cases hg
      decide
  constants := by
    intro i n g hi hn
    match i with
    | 0 | 1 | 2 =>
      cases hi
      cases hn

/-- Asked for alone, the sum fails, and the call after it fails too; in a new engine the call
succeeds, and then the sum is found alone. -/
theorem inferNode_outside_summing :
    ∃ refused called after,
      Engine.inferNode (.new summing (.empty ⟨0⟩) .standard) ⟨2⟩ onSomeInt .type
        = (.error ⟨.inference "no inference run is active", [⟨2⟩]⟩, refused)
      ∧ refused.inferTrack? ⟨0⟩ [someInt] .type
        = some (.error ⟨.inference "no inference run is active", [⟨2⟩]⟩, after)
      ∧ Engine.inferTrack? (.new summing (.empty ⟨0⟩) .standard) ⟨0⟩ [someInt] .type
        = some (.ok (.type (.int ⟨0⟩ 64)), called)
      ∧ called.inferNode ⟨2⟩ onSomeInt .type = (.ok (.type (.int ⟨0⟩ 64)), called) := by
  have arises : (Engine.new summing (.empty ⟨0⟩) .standard).Arises := .new _ _ _
  have asks : (Run.target (.new summing (.empty ⟨0⟩) .standard) ⟨0⟩ [someInt] .type).1.toOption
      = some { ref := (Engine.new summing (.empty ⟨0⟩) .standard).locate ⟨2⟩ onSomeInt,
               track := .type } := by
    decide +kernel
  have hrun : (Run.driveWithin 10 30
      (.asking (.new summing (.empty ⟨0⟩) .standard) ⟨0⟩ [someInt] .type)).map
        (fun t => t.result.toOption) = some (some (.type (.int ⟨0⟩ 64))) := by
    decide +kernel
  obtain ⟨s, drive, found⟩ := Option.map_eq_some_iff.mp hrun
  have call : Engine.inferTrack? (.new summing (.empty ⟨0⟩) .standard) ⟨0⟩ [someInt] .type
      = some (.ok (.type (.int ⟨0⟩ 64)), s.close) := by
    rw [Run.inferTrack?_eq, Run.drive_of_driveWithin drive, Option.map_some,
      Run.eq_ok_of_toOption found]
  obtain ⟨-, absent, later⟩ := inferNode_outside arises ⟨2⟩ onSomeInt .type
  obtain ⟨alone, calls⟩ := absent rfl
  obtain ⟨after, fails⟩ := calls ⟨0⟩ [someInt] (Run.eq_ok_of_toOption asks)
  exact ⟨_, _, after, alone, fails, call,
    later ⟨0⟩ [someInt] _ _ _ complete_summing (by decide) rfl rfl call⟩

end

end Engine

end ArrayInference
