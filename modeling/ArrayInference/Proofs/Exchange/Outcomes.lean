import ArrayInference.Proofs.Exchange.Operators
import ArrayInference.Proofs.Exchange.Passes
import ArrayInference.Proofs.Exchange.Turns

/-!
# The branches of a conditional play the same role

Whichever branch of an undecided conditional ends first gives the property, so the order of the
branches matters to the one order of turns that the engine takes. Over all orders of turns it does
not: with the branches exchanged, calls can have the same outcomes.
-/

namespace ArrayInference

namespace Exchange

/-- The exchange concerns a conditional of the program. -/
structure Concerns (x : Exchange) (use : BranchUse) (p : Program) : Prop where
  node : p.node x.id = x.node
  kind : ∃ ifTrue ifFalse, x.node.kind = .apply [x.callee, x.condition, ifTrue, ifFalse]
  operator : (p.node x.callee).kind = .constant (.primitive use.operator)

namespace Concerns

variable {x : Exchange} {use : BranchUse} {p q : Program}

theorem lt_size (h : x.Concerns use p) : x.id.index < p.nodes.size := by
  obtain ⟨ifTrue, ifFalse, hkind⟩ := h.kind
  exact Program.lt_size_of_kind ((congrArg Node.kind h.node).trans hkind) (by simp)

theorem mono (h : x.Concerns use p) (grown : p.Extends q) : x.Concerns use q where
  node := (grown.node_eq h.lt_size).trans h.node
  kind := h.kind
  operator := by
    rw [grown.node_eq (Program.lt_size_of_kind h.operator (by simp))]
    exact h.operator

end Concerns

end Exchange

namespace Run

variable {x : Exchange} {use : BranchUse} {s t u : Run} {condition : NodeId}

theorem Operates.suits (operates : Operates x.callee use.operator s)
    (concerns : x.Concerns use s.engine.program) (standard : s.engine.Standard)
    (unknown : Unknown x.condition s) (last : s.engine.Extends x.last) : x.Suits s where
  known := concerns.lt_size
  node := concerns.node
  standard := standard
  fits := by
    intro key p v found ready
    replace found : s.promise? (.entry key) = some p := found
    have hresult : s.resultOf (.entry key) = some (.ok v) :=
      (resultOf_of_promise? found).trans ready
    refine ⟨fun hkey => ?_, fun hkey htrack => ?_⟩
    · obtain ⟨f, hv, stands⟩ := (operates.results hkey hresult).conditional
      exact ⟨f, key.track, use, hv, last.callables stands⟩
    · obtain ⟨ref, track⟩ := key
      cases htrack
      exact unknown ref v hkey hresult

theorem Together.unknown (together : Together x s t) (h : Unknown condition s) :
    Unknown condition t := by
  obtain ⟨σ, schedule, hex, -⟩ := together
  intro ref v hkey hv
  refine h ref v hkey ?_
  have hrel := hex.promises (.entry ⟨ref, .value⟩)
  obtain ⟨q, found, ready⟩ := exists_promise_of_resultOf hv
  rw [promise?_scheduled, found] at hrel
  generalize hp : s.promise? (.entry ⟨ref, .value⟩) = p at hrel
  cases hrel with
  | some same => exact (resultOf_of_promise? hp).trans (same.ok_iff.mp ready)

/-- The task that belongs to the next one can be the next one. -/
theorem Together.offered (together : Together x s t) {self : TaskId} {schedule : Schedule}
    (offered : s.schedule.Offers self schedule) :
    ∃ σ schedule', t.schedule.Offers (σ self) schedule'
      ∧ Exchanged x σ (s.scheduled schedule) (t.scheduled schedule') := by
  obtain ⟨σ, shuffled, hex, queue⟩ := together
  refine ⟨σ, { schedule with
    ready := schedule.ready.map σ, incoming := schedule.incoming.map σ }, ?_, ?_⟩
  · have hqueue : shuffled.queue = s.schedule.queue.map σ := by
      rw [Schedule.queue, Schedule.queue, List.map_append]
      exact congrArg₂ (· ++ ·) hex.ready hex.incoming
    have hoffers := (offered.map σ).trans (.of_eq hqueue.symm)
    rw [List.map_cons, Schedule.queue, List.map_append] at hoffers
    exact hoffers.trans queue
  · refine { hex with ready := rfl, incoming := rfl, queued := ?_, promises := fun source => ?_ }
    · exact fun i hi => hex.queued i (offered.subset (List.mem_cons_of_mem _ hi))
    · rw [promise?_scheduled, promise?_scheduled]
      have := hex.promises source
      rwa [promise?_scheduled] at this

/-- A run of the one program, and one of the other that stays together with it. -/
theorem Together.passes (concerns : x.Concerns use s.engine.program) (standard : s.engine.Standard)
    (operates : Operates x.callee use.operator s) (together : Together x s t)
    (passes : Passes (Unknown x.condition) s u) (last : u.engine.Extends x.last) :
    ∃ u', Passes (Unknown x.condition) t u' ∧ Together x u u' := by
  induction passes generalizing t with
  | rest unknown => exact ⟨t, .rest (together.unknown unknown), together⟩
  | @poll s s₁ u self schedule log unknown offered turned later ih =>
    obtain ⟨ifTrue, ifFalse, kind⟩ := concerns.kind
    have hlast := later.follows.extends.trans last
    have suits := operates.suits concerns standard unknown (turned.follows.extends.trans hlast)
    obtain ⟨σ, schedule', offered', hex⟩ := together.offered offered
    have suits' : x.Suits (s.scheduled schedule) := suits.follows .refl rfl
    have operates' : Operates x.callee use.operator (s.scheduled schedule) :=
      operates.alike rfl (fun source => by rw [resultOf, promise?_scheduled, resultOf]) (.refl _)
    obtain ⟨log', t₁, turned', together'⟩ := hex.turned kind suits' turned hlast
    obtain ⟨u', passes', together''⟩ := ih
      (concerns.mono turned.follows.extends.program) (turned.follows.standard standard)
      (operates'.turned concerns.operator standard turned) together' last
    exact ⟨u', .poll (together.unknown unknown) offered' turned' passes', together''⟩

theorem Together.finished (together : Together x s t) (finished : s.Finished) : t.Finished := by
  obtain ⟨σ, schedule, hex, queue⟩ := together
  have hnil : s.schedule.ready ++ s.schedule.incoming = [] := finished
  obtain ⟨hready, hincoming⟩ := List.append_eq_nil_iff.mp hnil
  have hqueue : schedule.queue = [] := by
    rw [Schedule.queue, show schedule.ready = _ from hex.ready,
      show schedule.incoming = _ from hex.incoming, hready, hincoming]
    rfl
  rw [hqueue] at queue
  exact queue.nil_eq.symm

theorem Together.result_eq (together : Together x s t) : t.result.toOption = s.result.toOption := by
  obtain ⟨σ, schedule, hex, -⟩ := together
  have houtcome : t.outcome.map Except.toOption = s.outcome.map Except.toOption := hex.outcome
  have hdetached : t.detached = [] ↔ s.detached = [] := hex.detached
  rw [result, result]
  rcases hs : s.outcome with _ | _ | v <;> rcases ht : t.outcome with _ | _ | w <;>
    rw [hs, ht] at houtcome <;> simp_all [Except.toOption]
  cases hs' : s.detached <;> cases ht' : t.detached <;> simp_all

/-- What a call on a fresh engine can end with, in some order of turns, if the value of a node is not
known meanwhile: a property, or nothing if it fails. -/
def Gives (program : Program) (types : TypeCache) (config : Config) (condition : NodeId)
    (graph : GraphId) (args : List ArgSpec) (track : Track) (p : Option Property) : Prop :=
  ∃ t, Passes (Unknown condition) (asking (.new program types config) graph args track) t
    ∧ t.Finished ∧ t.result.toOption = p

/-- At the start of a call the two runs belong together. -/
theorem together_asking {program : Program} {types : TypeCache} {config : Config} (graph : GraphId)
    (args : List ArgSpec) (track : Track) :
    Together x (asking (.new program types config) graph args track)
      (asking (.new (program.exchange x.id) types config) graph args track) := by
  obtain ⟨d', hrun⟩ := @EngineM.echoes_graphInferrer (.new program types config) x.id track graph
    .empty [] (.empty config.diagnostics)
  replace hrun : (EngineM.graphInferrer track graph .empty).run
      (.new (program.exchange x.id) types config) = _ := hrun
  have hgrows := EngineM.grows_graphInferrer track graph .empty (.new program types config)
  have hmemo : ((EngineM.graphInferrer track graph .empty).run (.new program types config)).2.memo = [] :=
    hgrows.memo
  rw [asking, asking, hrun]
  generalize (EngineM.graphInferrer track graph .empty).run (.new program types config) = made
    at hmemo ⊢
  have hstart : Exchanged x (.refl TaskId) (start made.2 true)
      (start (made.2.exchanged x.id [] d') true) :=
    { engine := rfl, active := rfl, ready := rfl, incoming := rfl
      queued := by rintro i ⟨⟩
      tasks := fun _ => .none, distinct := List.nodup_nil, distinct' := List.nodup_nil
      bounded := by rintro i task ⟨⟩
      nextTask := rfl, fresh := fun _ _ => rfl
      promises := by
        intro source
        cases source with
        | entry key =>
          show Option.Rel _ (made.2.memo.find? key) _
          rw [hmemo]
          exact .none
        | cell id => exact .none
      cells := rfl, detached := .rfl, outcome := rfl }
  exact (hstart.spawn .answer (.call .done)).together

variable {program : Program} {types : TypeCache} {config : Config} {graph : GraphId}
  {args : List ArgSpec} {track : Track} {p : Option Property}

/-- What a call can end with, it can end with after the exchange. -/
theorem Gives.exchange (h : Gives program types config condition graph args track p)
    {id callee ifTrue ifFalse : NodeId}
    (operator : (program.node callee).kind = .constant (.primitive use.operator))
    (kind : (program.node id).kind = .apply [callee, condition, ifTrue, ifFalse]) :
    Gives (program.exchange id) types config condition graph args track p := by
  obtain ⟨t, passes, finished, hp⟩ := h
  have follows : (Engine.new program types config).Follows
      (asking (.new program types config) graph args track).engine :=
    Engine.Follows.refl.answer (.graphInferrer track graph .empty)
  let x : Exchange := { id, node := program.node id, callee, condition, last := t.engine }
  have concerns : x.Concerns use program := ⟨rfl, ⟨ifTrue, ifFalse, kind⟩, operator⟩
  obtain ⟨t', passes', together⟩ := Together.passes (concerns.mono follows.extends.program)
    (follows.standard (Engine.standard_new program types config))
    (.asking program types config graph args track) (together_asking graph args track) passes (.refl _)
  exact ⟨t', passes', together.finished finished, together.result_eq.trans hp⟩

/-- What a call on a fresh engine ends with in the order of the engine, if the value of a node is not
known meanwhile. -/
def Finds (program : Program) (types : TypeCache) (config : Config) (condition : NodeId)
    (graph : GraphId) (args : List ArgSpec) (track : Track) (p : Option Property) : Prop :=
  (∀ u, Driven (asking (.new program types config) graph args track) u → Unknown condition u)
    ∧ ∃ r e, (Engine.new program types config).inferTrack? graph args track = some (r, e)
      ∧ r.toOption = p

theorem Finds.gives (h : Finds program types config condition graph args track p) :
    Gives program types config condition graph args track p := by
  obtain ⟨unknown, r, e, found, hp⟩ := h
  rw [inferTrack?_eq] at found
  obtain ⟨t, hdrive, hout⟩ := Option.map_eq_some_iff.mp found
  cases hout
  obtain ⟨log, polls, finished⟩ := exists_polls_of_drive rfl hdrive
  exact ⟨t, passes_of_driven rfl (driven_of_drive hdrive) unknown, finished, hp⟩

/-- An array of floats with as many rows. -/
def rows (d : Dim) : ArgSpec :=
  { type := .array ⟨0⟩ (.float ⟨0⟩ 64), shape := some (.dims [d]), value := none }

/-- An unknown condition, and two arrays of which the second one may have as many rows as the first. -/
def arrays : List ArgSpec :=
  [someBool, rows (.known 2), rows .anything]

end Run

end ArrayInference
