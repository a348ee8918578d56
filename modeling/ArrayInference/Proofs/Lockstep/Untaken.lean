import ArrayInference.Proofs.Lockstep.Advancing
import ArrayInference.Proofs.Run.Bounded

/-!
# Branches that are not taken

If the condition of a conditional turns out to be the same truth value whenever it has a value, then
one of its branches is never looked at. Nothing that only this branch can reach makes a difference
to a call of a graph, and nothing is entered for it.
-/

namespace ArrayInference

/-- A node or a graph of a program. -/
inductive Place where
  | node (id : NodeId)
  | graph (id : GraphId)
deriving DecidableEq

/-- The inputs of a conditional without the branch that is not taken. -/
def Decision.keeps (d : Decision) (inputs : List NodeId) : List NodeId :=
  inputs.eraseIdx (if d.taken then 3 else 2)

/-- The graphs in the type and in the value of an argument. -/
def ArgSpec.mentions (a : ArgSpec) : List GraphId :=
  a.type.mentions ++ a.value.elim [] Constant.mentions

namespace Program

/-- What is needed for a node or a graph, if some applications are conditionals whose branch is
known. -/
def needs (p : Program) (known : NodeId → Option Decision) : Place → List Place
  | .graph g => (p.graph g).output.toList.map .node
  | .node n =>
    match (p.node n).kind with
    | .constant value => value.mentions.map .graph
    | .parameter g _ => [.graph g]
    | .apply inputs => ((known n).elim inputs fun d => d.keeps inputs).map .node

/-- What a call of a graph can reach without the branches that are not taken. -/
inductive Live (p : Program) (known : NodeId → Option Decision) (root : GraphId)
    (args : List ArgSpec) : Place → Prop where
  | root : Live p known root args (.graph root)
  | argument {a : ArgSpec} {g : GraphId} (given : a ∈ args) (mentioned : g ∈ a.mentions) :
      Live p known root args (.graph g)
  | needed {y z : Place} (live : Live p known root args y) (needs : z ∈ p.needs known y) :
      Live p known root args z

/-- An application of the operator of a conditional. -/
structure Decides (p : Program) (n : NodeId) (d : Decision) (ifTrue ifFalse : NodeId) : Prop where
  kind : (p.node n).kind = .apply [d.callee, d.condition, ifTrue, ifFalse]
  operator : (p.node d.callee).kind = .constant (.primitive d.use.operator)

/-- Two programs that are equal as far as a call of a graph can reach without the branches that are
not taken. These may begin with different nodes. -/
structure Agree (p q : Program) (known : NodeId → Option Decision) (root : GraphId)
    (args : List ArgSpec) : Prop where
  node_lt : ∀ {n}, p.Live known root args (.node n) →
    n.index < p.nodes.size ∧ n.index < q.nodes.size
  graph_lt : ∀ {g}, p.Live known root args (.graph g) →
    g.index < p.graphs.size ∧ g.index < q.graphs.size
  graphs : ∀ {g}, p.Live known root args (.graph g) → q.graph g = p.graph g
  nodes : ∀ {n}, p.Live known root args (.node n) → known n = none → q.node n = p.node n
  branches : ∀ {n d}, p.Live known root args (.node n) → known n = some d →
    ∃ a b a' b', p.Decides n d a b
      ∧ q.node n = { p.node n with kind := .apply [d.callee, d.condition, a', b'] }
      ∧ if d.taken then a' = a else b' = b

variable {p q : Program} {known : NodeId → Option Decision} {root : GraphId} {args : List ArgSpec}

/-- The nodes and graphs that two programs have in common. -/
def Agree.overlap (agree : p.Agree q known root args) : Overlap where
  nodes := p.nodes.size
  nodes' := q.nodes.size
  graphs := p.graphs.size
  graphs' := q.graphs.size
  shares n := p.Live known root args (.node n)
  shows g := p.Live known root args (.graph g)
  decides d := ∃ n, p.Live known root args (.node n) ∧ known n = some d
  shares_lt := agree.node_lt
  shows_lt := agree.graph_lt

section

variable {n : NodeId} (live : p.Live known root args (.node n))

include live

theorem Live.mentioned {value : Constant} (kind : (p.node n).kind = .constant value) :
    value.Within fun g => p.Live known root args (.graph g) := by
  intro g hg
  refine .needed live ?_
  rw [needs, kind]
  exact List.mem_map_of_mem hg

theorem Live.bound {g : GraphId} {index : Nat} (kind : (p.node n).kind = .parameter g index) :
    p.Live known root args (.graph g) := by
  refine .needed live ?_
  rw [needs, kind]
  exact List.mem_singleton_self _

/-- The inputs of an application are needed, apart from a branch that is not taken. -/
theorem Live.input {m : NodeId} {inputs : List NodeId} (kind : (p.node n).kind = .apply inputs)
    (hm : m ∈ (known n).elim inputs fun d => d.keeps inputs) :
    p.Live known root args (.node m) := by
  refine .needed live ?_
  rw [needs, kind]
  exact List.mem_map_of_mem hm

theorem Agree.shared (agree : p.Agree q known root args) :
    agree.overlap.Shared (p.node n) (q.node n) := by
  rcases hnode : p.node n with ⟨kind, owner, name⟩
  have hkind : (p.node n).kind = kind := congrArg Node.kind hnode
  cases hknown : known n with
  | none =>
    rw [agree.nodes live hknown, hnode]
    cases kind with
    | constant value => exact .constant (live.mentioned hkind)
    | parameter g index => exact .parameter (live.bound hkind)
    | apply inputs =>
      refine .apply fun m hm => live.input hkind ?_
      rw [hknown]
      exact hm
  | some d =>
    obtain ⟨a, b, a', b', decides, same, branch⟩ := agree.branches live hknown
    have input : ∀ m ∈ d.keeps [d.callee, d.condition, a, b], p.Live known root args (.node m) := by
      refine fun m hm => live.input decides.kind ?_
      rw [hknown]
      exact hm
    obtain rfl : kind = _ := hkind.symm.trans decides.kind
    rw [same, hnode]
    rw [Decision.keeps] at input
    cases htaken : d.taken with
    | true =>
      simp only [htaken, ↓reduceIte, List.eraseIdx_cons_succ, List.eraseIdx_cons_zero,
        List.forall_mem_cons] at input branch
      refine .conditional ⟨n, live, hknown⟩ input.1 input.2.1 ?_
      rw [htaken]
      exact ⟨branch, input.2.2.1⟩
    | false =>
      simp only [htaken, Bool.false_eq_true, ↓reduceIte, List.eraseIdx_cons_succ,
        List.eraseIdx_cons_zero, List.forall_mem_cons] at input branch
      refine .conditional ⟨n, live, hknown⟩ input.1 input.2.1 ?_
      rw [htaken]
      exact ⟨branch, input.2.2.1⟩

end

/-- At the start the programs have in common what they agree on. -/
theorem Agree.programs (agree : p.Agree q known root args) : agree.overlap.Programs p q where
  nodes := Nat.le_refl _
  nodes' := by
    show q.nodes.size = q.nodes.size + (p.nodes.size - p.nodes.size)
    omega
  graphs := Nat.le_refl _
  graphs' := by
    show q.graphs.size = q.graphs.size + (p.graphs.size - p.graphs.size)
    omega
  shared := fun live => agree.shared live
  shown := by
    intro g (live : p.Live known root args (.graph g))
    refine ⟨agree.graphs live, fun o ho => .needed live ?_⟩
    rw [needs, ho]
    exact List.mem_singleton_self _
  added := fun new there => absurd there (Nat.not_lt_of_le new)
  drawn := fun new there => absurd there (Nat.not_lt_of_le new)

/-- Engines that have been asked nothing yet. -/
theorem Agree.engines (agree : p.Agree q known root args) (types : TypeCache) (config : Config) :
    agree.overlap.Engines (.new p types config) (.new q types config) where
  programs := agree.programs
  types := rfl
  config := rfl
  rules := rfl
  rules' := rfl
  memo := fun _ _ => .none
  entered := fun _ h => absurd rfl h
  entered' := fun _ h => absurd rfl h
  readers := fun _ _ => .none
  count := rfl
  callables := by
    intro i c c' found found'
    replace found : (#[.anything, .scalarShape] : Array Callable)[i]? = some c := found
    replace found' : (#[.anything, .scalarShape] : Array Callable)[i]? = some c' := found'
    obtain rfl : c = c' := Option.some.inj (found.symm.trans found')
    rcases i with _ | _ | i
    · cases found
      exact .anything
    · cases found
      exact .scalarShape
    · cases found
  inferrers := fun _ _ => .none
  generated := fun _ _ => .none
  contexts := fun _ _ => ⟨rfl, fun _ h => absurd h List.not_mem_nil⟩

theorem Agree.toRef (agree : p.Agree q known root args) {a : ArgSpec} (given : a ∈ args)
    (r : Program) : agree.overlap.Pairs r a.toRef a.toRef := by
  have mentioned : ∀ g ∈ a.mentions, p.Live known root args (.graph g) :=
    fun g hg => .argument given hg
  refine .virtual ⟨?_, ?_, ?_⟩
  · rintro v ⟨⟩
    cases hvalue : a.value with
    | none => exact forall_mem_of_eq_nil rfl
    | some c =>
      intro g hg
      refine mentioned g (List.mem_append_right _ ?_)
      rw [hvalue]
      exact hg
  · rintro v ⟨⟩
    exact fun g hg => mentioned g (List.mem_append_left _ hg)
  · intro v hv
    obtain ⟨shape, -, rfl⟩ := Option.map_eq_some_iff.mp hv
    exact forall_mem_of_eq_nil rfl

/-- At the start of a call the runs are abreast. -/
theorem Agree.asking (agree : p.Agree q known root args) (types : TypeCache) (config : Config)
    (track : Track) :
    agree.overlap.Abreast (Run.asking (.new p types config) root args track)
      (Run.asking (.new q types config) root args track) := by
  have own : agree.overlap.shows root := .root
  have outermost : Context.empty.Within agree.overlap.shows := trivial
  obtain ⟨engines, same⟩ :=
    Overlap.same_graphInferrer track own outermost _ (agree.engines types config)
  have apt := EngineM.keepsApt_graphInferrer track root .empty _
    (Engine.Arises.new p types config).apt
  rw [Run.asking, Run.asking, same]
  refine Overlap.Abreast.spawn ?_ .answer fun e _ => ?_
  · exact {
      engines, apt, active := rfl, active' := rfl, schedule := rfl, nextTask := rfl
      tasks := fun _ => .none, distinct := List.nodup_nil, distinct' := List.nodup_nil
      size := rfl, cells := fun _ => .none, detached := .nil, outcome := .none }
  · refine .call ?_ fun _ _ v own => .done ⟨rfl, own⟩
    rw [List.forall₂_map_left_iff, List.forall₂_map_right_iff, List.forall₂_same]
    exact fun a ha => agree.toRef ha _

end Program

namespace Run

variable {s t : Run} {node : NodeId} {operator : Primitive}

/-- Whenever a node has a value, it is this truth value. -/
def Always (condition : NodeId) (taken : Bool) (s : Run) : Prop :=
  ∀ (ref : NodeRef) (v : Property), ref.node = condition →
    s.resultOf (.entry ⟨ref, .value⟩) = some (.ok v) → v.toValue = .ok (.known (.bool taken))

/-- A node that is an operator stays one. -/
theorem Operates.driven (driven : Driven s t) (active : s.active = true)
    (kind : (s.engine.program.node node).kind = .constant (.primitive operator))
    (standard : s.engine.Standard) (h : Operates node operator s) : Operates node operator t := by
  induction driven with
  | rest s => exact h
  | @turn s s₁ t self schedule offered turned later ih =>
    obtain ⟨log, moved⟩ := exists_turned_of_turn (s := s.scheduled schedule) active turned
    have h' : Operates node operator (s.scheduled schedule) :=
      h.alike rfl (fun source => resultOf_congr (promise?_scheduled s schedule source)) (.refl _)
    have known : node.index < s.engine.program.nodes.size :=
      Program.lt_size_of_kind kind (by simp)
    refine ih (moved.active_eq.trans active) ?_ (moved.follows.standard standard)
      (h'.turned kind standard moved)
    rw [moved.follows.extends.program.node_eq known]
    exact kind

end Run

/-- The error with the numbers that its nodes have after `m` others, if they are not among the first
`n`. -/
def InferError.carried (n m : Nat) (e : InferError) : InferError :=
  { e with nodes := e.nodes.map fun i => ⟨ArrayInference.carried n m i.index⟩ }

namespace Program

variable {p q : Program} {known : NodeId → Option Decision} {root : GraphId} {args : List ArgSpec}
  {types : TypeCache} {config : Config} {track : Track}

/-- In all states of a call on a fresh engine, the conditions have the values that they are known to
have, as far as they have any. -/
def Confirms (p : Program) (types : TypeCache) (config : Config) (known : NodeId → Option Decision)
    (root : GraphId) (args : List ArgSpec) (track : Track) : Prop :=
  ∀ n d, p.Live known root args (.node n) → known n = some d →
    ∀ u, Run.Driven (Run.asking (.new p types config) root args track) u →
      u.Always d.condition d.taken

theorem Agree.informs (agree : p.Agree q known root args)
    (confirms : p.Confirms types config known root args track) (u : Run)
    (driven : Run.Driven (Run.asking (.new p types config) root args track) u) :
    agree.overlap.Informs u := by
  refine fun key v hv => ⟨?_, ?_⟩
  · rintro d ⟨n, live, hknown⟩ hkey
    obtain ⟨a, b, a', b', decides, -⟩ := agree.branches live hknown
    have follows : (Engine.new p types config).Follows
        (Run.asking (.new p types config) root args track).engine :=
      Engine.Follows.refl.answer (.graphInferrer track root .empty)
    have hcallee : d.callee.index < p.nodes.size :=
      Program.lt_size_of_kind decides.operator (by simp)
    have kind : ((Run.asking (.new p types config) root args track).engine.program.node
        d.callee).kind = .constant (.primitive d.use.operator) := by
      rw [follows.extends.program.node_eq hcallee]
      exact decides.operator
    have operates := Run.Operates.driven driven rfl kind
      (follows.standard (Engine.standard_new p types config))
      (.asking p types config root args track)
    exact operates.results hkey hv
  · rintro d ⟨n, live, hknown⟩ hkey htrack
    obtain ⟨ref, track'⟩ := key
    cases htrack
    exact confirms n d live hknown u driven ref v hkey hv

/-- Entries are for what a call can reach without the branches that are not taken, and for what
generators add to the program. -/
def Spares (p : Program) (known : NodeId → Option Decision) (root : GraphId) (args : List ArgSpec)
    (size : Nat) (s : Run) : Prop :=
  ∀ key : Entry, s.engine.memo.find? key ≠ none →
    p.Live known root args (.node key.ref.node) ∨ size ≤ key.ref.node.index

theorem Agree.spares (agree : p.Agree q known root args) {u u' : Run}
    (h : agree.overlap.Abreast u u') :
    p.Spares known root args p.nodes.size u ∧ p.Spares known root args q.nodes.size u' := by
  refine ⟨fun key hkey => ?_, fun key' hkey' => ?_⟩
  · obtain ⟨r, track⟩ := key
    cases h.engines.entered _ hkey with
    | shared own within => exact .inl own
    | bare new => exact .inr new
    | framed new new' => exact .inr new
  · obtain ⟨⟨r, track⟩, carries, rfl⟩ := h.engines.entered' key' hkey'
    have added : ∀ {n : NodeId}, p.nodes.size ≤ n.index →
        q.nodes.size ≤ (agree.overlap.node n).index := by
      intro n new
      show q.nodes.size ≤ carried p.nodes.size q.nodes.size n.index
      rw [carried_of_le new]
      exact Nat.le_add_right _ _
    cases carries with
    | @shared n c own within =>
      refine .inl ?_
      show p.Live known root args (.node (agree.overlap.node n))
      rw [Overlap.node_eq_of_shares own]
      exact own
    | bare new => exact .inr (added new)
    | framed new new' => exact .inr (added new)

end Program

namespace Run

variable {s t u : Run} {condition : NodeId} {taken : Bool}

end Run

namespace Program

variable {p : Program} {known : NodeId → Option Decision} {root : GraphId} {args : List ArgSpec}

/-- What a call can reach is in every collection that has all that is needed for what is in it. -/
theorem Live.mem {V : List Place} (start : .graph root ∈ V)
    (given : ∀ a ∈ args, ∀ g ∈ a.mentions, .graph g ∈ V) (closed : ∀ y ∈ V, p.needs known y ⊆ V)
    {y : Place} (live : p.Live known root args y) : y ∈ V := by
  induction live with
  | root => exact start
  | argument ha hg => exact given _ ha _ hg
  | needed _ needs ih => exact closed _ ih needs

end Program

end ArrayInference
