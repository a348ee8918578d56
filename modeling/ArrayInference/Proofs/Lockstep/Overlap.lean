import ArrayInference.Proofs.Exchange.Renaming
import ArrayInference.Proofs.Lockstep.Mentions
import ArrayInference.Proofs.Run.Root

/-!
# Programs that have something in common

Two programs share some of their nodes and graphs. While they are inferred, generators add further
nodes and graphs to both of them, the same ones in the same order, but behind everything that either
program holds already: so the added ones go by other numbers. Here is said which numbers belong to
the same thing, and that generators keep it so.
-/

namespace ArrayInference

/-- The number in one collection of what has a number in another one. The first `n` stay where they
are; what was added to them comes after the first `m` there. -/
def carried (n m i : Nat) : Nat :=
  if i < n then i else m + (i - n)

theorem carried_of_lt {n m i : Nat} (h : i < n) : carried n m i = i :=
  if_pos h

theorem carried_of_le {n m i : Nat} (h : n ≤ i) : carried n m i = m + (i - n) :=
  if_neg (Nat.not_lt_of_le h)

@[simp] theorem carried_self (n i : Nat) : carried n n i = i := by
  rw [carried]
  split <;> omega

/-- A condition that is known: the application of a conditional to it takes one branch. -/
structure Decision where
  callee : NodeId
  condition : NodeId
  use : BranchUse
  taken : Bool

/-- What two programs share: nodes and graphs that both of them hold from the beginning, and
conditionals of which both take the same branch. -/
structure Overlap where
  nodes : Nat
  nodes' : Nat
  graphs : Nat
  graphs' : Nat
  shares : NodeId → Prop
  shows : GraphId → Prop
  decides : Decision → Prop
  shares_lt : ∀ {n}, shares n → n.index < nodes ∧ n.index < nodes'
  shows_lt : ∀ {g}, shows g → g.index < graphs ∧ g.index < graphs'

namespace Overlap

variable (x : Overlap)

/-! ## Numbers -/

def node (n : NodeId) : NodeId :=
  ⟨carried x.nodes x.nodes' n.index⟩

def graph (g : GraphId) : GraphId :=
  ⟨carried x.graphs x.graphs' g.index⟩

def ctx : Context → Context
  | .empty => .empty
  | .frame parent g args => .frame (ctx parent) (x.graph g) args

def ref (r : NodeRef) : NodeRef :=
  ⟨x.node r.node, x.ctx r.ctx⟩

def entry (key : Entry) : Entry :=
  ⟨x.ref key.ref, key.track⟩

/-- References that can occur: to a shared node, or to an added one outside every context or in the
frame of an added graph. -/
inductive Carries : NodeRef → Prop where
  | shared {n : NodeId} {c : Context} (own : x.shares n) (within : c.Within x.shows) :
      Carries ⟨n, c⟩
  | bare {n : NodeId} (new : x.nodes ≤ n.index) : Carries ⟨n, .empty⟩
  | framed {n : NodeId} {g : GraphId} {args : List ArgProps} (new : x.nodes ≤ n.index)
      (new' : x.graphs ≤ g.index) : Carries ⟨n, .frame .empty g args⟩

variable {x}

theorem node_eq_of_shares {n : NodeId} (h : x.shares n) : x.node n = n := by
  rw [node, carried_of_lt (x.shares_lt h).1]

theorem graph_eq_of_shows {g : GraphId} (h : x.shows g) : x.graph g = g := by
  rw [graph, carried_of_lt (x.shows_lt h).1]

theorem ctx_eq_of_within {c : Context} (h : c.Within x.shows) : x.ctx c = c := by
  induction c with
  | empty => rfl
  | frame parent g args ih => rw [ctx, ih h.1, graph_eq_of_shows h.2.1]

theorem ref_eq_of_shares {n : NodeId} {c : Context} (h : x.shares n) (within : c.Within x.shows) :
    x.ref ⟨n, c⟩ = ⟨n, c⟩ := by
  rw [ref, node_eq_of_shares h, ctx_eq_of_within within]

theorem node_injective {m n : NodeId} (new : x.nodes ≤ m.index) (new' : x.nodes ≤ n.index)
    (same : x.node m = x.node n) : m = n := by
  obtain ⟨i⟩ := m
  obtain ⟨j⟩ := n
  have h := congrArg NodeId.index same
  simp only [node, carried_of_le new, carried_of_le new'] at h
  simp only at new new'
  rw [NodeId.mk.injEq]
  omega

theorem graph_injective {g h : GraphId} (new : x.graphs ≤ g.index) (new' : x.graphs ≤ h.index)
    (same : x.graph g = x.graph h) : g = h := by
  obtain ⟨i⟩ := g
  obtain ⟨j⟩ := h
  have h := congrArg GraphId.index same
  simp only [graph, carried_of_le new, carried_of_le new'] at h
  simp only at new new'
  rw [GraphId.mk.injEq]
  omega

/-- What was added stands behind what is shared. -/
theorem node_ne_of_shares {m n : NodeId} (h : x.shares m) (new : x.nodes ≤ n.index) :
    x.node m ≠ x.node n := by
  intro same
  rw [node_eq_of_shares h] at same
  have index := congrArg NodeId.index same
  simp only [node, carried_of_le new] at index
  have := (x.shares_lt h).2
  omega

theorem graph_ne_of_shows {g h : GraphId} (own : x.shows g) (new : x.graphs ≤ h.index) :
    x.graph g ≠ x.graph h := by
  intro same
  rw [graph_eq_of_shows own] at same
  have index := congrArg GraphId.index same
  simp only [graph, carried_of_le new] at index
  have := (x.shows_lt own).2
  omega

theorem Carries.ref_injective {r s : NodeRef} (hr : x.Carries r) (hs : x.Carries s)
    (same : x.ref r = x.ref s) : r = s := by
  obtain ⟨hnode, hctx⟩ := NodeRef.mk.inj same
  cases hr with
  | shared own within =>
    cases hs with
    | shared own' within' =>
      rw [← ref_eq_of_shares own within, ← ref_eq_of_shares own' within', same]
    | bare new => exact absurd hnode (node_ne_of_shares own new)
    | framed new new' => exact absurd hnode (node_ne_of_shares own new)
  | bare new =>
    cases hs with
    | shared own within => exact absurd hnode.symm (node_ne_of_shares own new)
    | bare new' => rw [node_injective new new' hnode]
    | framed => cases hctx
  | framed new new' =>
    cases hs with
    | shared own within => exact absurd hnode.symm (node_ne_of_shares own new)
    | bare => cases hctx
    | framed new'' new''' =>
      obtain ⟨-, hgraph, rfl⟩ := Context.frame.inj hctx
      rw [node_injective new new'' hnode, graph_injective new' new''' hgraph]

theorem entry_injective {key other : Entry} (h : x.Carries key.ref) (h' : x.Carries other.ref)
    (same : x.entry key = x.entry other) : key = other := by
  obtain ⟨r, t⟩ := key
  obtain ⟨r', t'⟩ := other
  obtain ⟨href, rfl⟩ := Entry.mk.inj same
  cases h.ref_injective h' href
  rfl

/-! ## Programs -/

variable (x)

/-- A shared node in the two programs. The branch that a conditional does not take may be another
node there. -/
inductive Shared : Node → Node → Prop where
  | constant {value : Constant} {owner : Option GraphId} {name : Option String}
      (own : value.Within x.shows) :
      Shared ⟨.constant value, owner, name⟩ ⟨.constant value, owner, name⟩
  | parameter {g : GraphId} {index : Nat} {owner : Option GraphId} {name : Option String}
      (own : x.shows g) : Shared ⟨.parameter g index, owner, name⟩ ⟨.parameter g index, owner, name⟩
  | apply {inputs : List NodeId} {owner : Option GraphId} {name : Option String}
      (own : ∀ m ∈ inputs, x.shares m) :
      Shared ⟨.apply inputs, owner, name⟩ ⟨.apply inputs, owner, name⟩
  | conditional {d : Decision} {a b a' b' : NodeId} {owner : Option GraphId} {name : Option String}
      (decides : x.decides d) (callee : x.shares d.callee) (condition : x.shares d.condition)
      (branch : if d.taken then a' = a ∧ x.shares a else b' = b ∧ x.shares b) :
      Shared ⟨.apply [d.callee, d.condition, a, b], owner, name⟩
        ⟨.apply [d.callee, d.condition, a', b'], owner, name⟩

/-- An added node that something in the frame of an added graph can refer to. -/
structure Local (p : Program) (g : GraphId) (m : NodeId) : Prop where
  new : x.nodes ≤ m.index
  there : m.index < p.nodes.size
  seen : (p.node m).owner = some g ∨ ∃ value, (p.node m).kind = .constant value

/-- An added node in the two programs. -/
inductive Added (p : Program) : Node → Node → Prop where
  | constant {value : Constant} {name : Option String} (own : value.Within x.shows)
      (data : ∀ g, value ≠ .graph g) :
      Added p ⟨.constant value, none, name⟩ ⟨.constant value, none, name⟩
  | parameter {g : GraphId} {index : Nat} {name : Option String} (new : x.graphs ≤ g.index)
      (there : g.index < p.graphs.size) (bound : index < (p.graph g).parameters.length) :
      Added p ⟨.parameter g index, some g, name⟩
        ⟨.parameter (x.graph g) index, some (x.graph g), name⟩
  | apply {g : GraphId} {inputs : List NodeId} {name : Option String} (new : x.graphs ≤ g.index)
      (there : g.index < p.graphs.size) (own : ∀ m ∈ inputs, x.Local p g m) :
      Added p ⟨.apply inputs, some g, name⟩ ⟨.apply (inputs.map x.node), some (x.graph g), name⟩

/-- An added graph in the two programs. -/
structure Drawn (p : Program) (g : GraphId) (graph graph' : Graph) : Prop where
  name : graph'.name = graph.name
  parameters : graph'.parameters.length = graph.parameters.length
  output : Option.Rel (fun o o' => x.Local p g o ∧ o' = x.node o) graph.output graph'.output

/-- Two programs to which the same nodes and graphs have been added. -/
structure Programs (p p' : Program) : Prop where
  nodes : x.nodes ≤ p.nodes.size
  nodes' : p'.nodes.size = x.nodes' + (p.nodes.size - x.nodes)
  graphs : x.graphs ≤ p.graphs.size
  graphs' : p'.graphs.size = x.graphs' + (p.graphs.size - x.graphs)
  shared : ∀ {n}, x.shares n → x.Shared (p.node n) (p'.node n)
  shown : ∀ {g}, x.shows g →
    p'.graph g = p.graph g ∧ ∀ o, (p.graph g).output = some o → x.shares o
  added : ∀ {n : NodeId}, x.nodes ≤ n.index → n.index < p.nodes.size →
    x.Added p (p.node n) (p'.node (x.node n))
  drawn : ∀ {g : GraphId}, x.graphs ≤ g.index → g.index < p.graphs.size →
    x.Drawn p g (p.graph g) (p'.graph (x.graph g))

variable {x}

end Overlap

/-! ## Programs that grow -/

/-- A program with all nodes of another one, and whose graphs have not fewer parameters. -/
structure Program.Fills (p q : Program) : Prop where
  size : p.nodes.size ≤ q.nodes.size
  node : ∀ {n : NodeId}, n.index < p.nodes.size → q.node n = p.node n
  graphs : p.graphs.size ≤ q.graphs.size
  parameters : ∀ g, (p.graph g).parameters.length ≤ (q.graph g).parameters.length

namespace Program

variable {p q r : Program}

theorem Fills.refl (p : Program) : p.Fills p :=
  ⟨Nat.le_refl _, fun _ => rfl, Nat.le_refl _, fun _ => Nat.le_refl _⟩

theorem Fills.trans (h : p.Fills q) (h' : q.Fills r) : p.Fills r where
  size := Nat.le_trans h.size h'.size
  node := fun lt => (h'.node (Nat.lt_of_lt_of_le lt h.size)).trans (h.node lt)
  graphs := Nat.le_trans h.graphs h'.graphs
  parameters := fun g => Nat.le_trans (h.parameters g) (h'.parameters g)

theorem node_addNode (p : Program) (n : Node) (id : NodeId) :
    (p.addNode n).2.node id = if id.index = p.nodes.size then n else p.node id := by
  show ((p.nodes.push n)[id.index]?).getD _ = _
  rw [Array.getElem?_push]
  split <;> rfl

theorem graph_modifyGraph (p : Program) (id g : GraphId) (change : Graph → Graph) :
    (p.modifyGraph id change).graph g
      = if id = g ∧ g.index < p.graphs.size then change (p.graph g) else p.graph g := by
  show ((p.graphs.modify id.index change)[g.index]?).getD _ = _
  rw [Array.getElem?_modify, graph]
  by_cases same : id = g
  · subst same
    by_cases there : id.index < p.graphs.size
    · rw [if_pos rfl, if_pos ⟨rfl, there⟩, Array.getElem?_eq_getElem there]
      rfl
    · rw [if_pos rfl, if_neg fun h => there h.2, Array.getElem?_eq_none (Nat.le_of_not_lt there)]
      rfl
  · rw [if_neg fun h => same (congrArg GraphId.mk h), if_neg fun h => same h.1]

theorem graph_addGraph (p : Program) (name : String) (parent : Option GraphId) (g : GraphId) :
    (p.addGraph name parent).2.graph g
      = if g.index = p.graphs.size then { name, parent, parameters := [], output := none }
        else p.graph g := by
  show ((p.graphs.push _)[g.index]?).getD _ = _
  rw [Array.getElem?_push]
  split <;> rfl

theorem fills_addNode (p : Program) (n : Node) : p.Fills (p.addNode n).2 where
  size := by
    show _ ≤ (p.nodes.push n).size
    rw [Array.size_push]
    exact Nat.le_succ _
  node := fun lt => by rw [node_addNode, if_neg (Nat.ne_of_lt lt)]
  graphs := Nat.le_refl _
  parameters := fun _ => Nat.le_refl _

theorem fills_addGraph (p : Program) (name : String) : p.Fills (p.addGraph name none).2 where
  size := Nat.le_refl _
  node := fun _ => rfl
  graphs := by
    show _ ≤ (p.graphs.push _).size
    rw [Array.size_push]
    exact Nat.le_succ _
  parameters := by
    intro g
    rw [graph_addGraph]
    split
    · rename_i new
      rw [graph, new, Array.getElem?_eq_none (Nat.le_refl _)]
      exact Nat.le_refl _
    · exact Nat.le_refl _

theorem fills_modifyGraph (p : Program) (id : GraphId) {change : Graph → Graph}
    (grows : ∀ g : Graph, g.parameters.length ≤ (change g).parameters.length) :
    p.Fills (p.modifyGraph id change) where
  size := Nat.le_refl _
  node := fun _ => rfl
  graphs := by
    show _ ≤ (p.graphs.modify _ _).size
    exact Nat.le_of_eq Array.size_modify.symm
  parameters := by
    intro g
    rw [graph_modifyGraph]
    split
    · exact grows _
    · exact Nat.le_refl _

end Program

namespace Overlap

variable {x : Overlap} {p p' q q' : Program} {g : GraphId}

theorem Local.mono {m : NodeId} (h : x.Local p g m) (fills : p.Fills q) : x.Local q g m where
  new := h.new
  there := Nat.lt_of_lt_of_le h.there fills.size
  seen := by
    rw [fills.node h.there]
    exact h.seen

theorem Added.mono {n n' : Node} (h : x.Added p n n') (fills : p.Fills q) : x.Added q n n' := by
  cases h with
  | constant own data => exact .constant own data
  | parameter new there bound =>
    exact .parameter new (Nat.lt_of_lt_of_le there fills.graphs)
      (Nat.lt_of_lt_of_le bound (fills.parameters _))
  | apply new there own =>
    exact .apply new (Nat.lt_of_lt_of_le there fills.graphs) fun m hm => (own m hm).mono fills

theorem Drawn.mono {graph graph' : Graph} (h : x.Drawn p g graph graph') (fills : p.Fills q) :
    x.Drawn q g graph graph' where
  name := h.name
  parameters := h.parameters
  output := rel_imp h.output fun _ _ same => ⟨same.1.mono fills, same.2⟩

namespace Programs

/-- The next node gets numbers that belong together. -/
theorem node_size (h : x.Programs p p') : x.node ⟨p.nodes.size⟩ = ⟨p'.nodes.size⟩ := by
  rw [node, carried_of_le h.nodes, h.nodes']

theorem graph_size (h : x.Programs p p') : x.graph ⟨p.graphs.size⟩ = ⟨p'.graphs.size⟩ := by
  rw [graph, carried_of_le h.graphs, h.graphs']

/-- A node is added to both programs. -/
theorem addNode (h : x.Programs p p') {n n' : Node} (added : x.Added p n n') :
    x.Programs (p.addNode n).2 (p'.addNode n').2 where
  nodes := Nat.le_trans h.nodes (Program.fills_addNode p n).size
  nodes' := by
    show (p'.nodes.push n').size = x.nodes' + ((p.nodes.push n).size - x.nodes)
    have := h.nodes
    rw [Array.size_push, Array.size_push, h.nodes']
    omega
  graphs := h.graphs
  graphs' := h.graphs'
  shared := by
    intro m own
    have lt := x.shares_lt own
    have size := h.nodes
    have size' := h.nodes'
    rw [Program.node_addNode, Program.node_addNode, if_neg (by omega), if_neg (by omega)]
    exact h.shared own
  shown := h.shown
  added := by
    intro m new there
    rw [Program.node_addNode, Program.node_addNode]
    have fills := Program.fills_addNode p n
    by_cases last : m.index = p.nodes.size
    · have hm : x.node m = ⟨p'.nodes.size⟩ := by
        rw [← h.node_size, ← last]
      rw [if_pos last, hm, if_pos rfl]
      exact added.mono fills
    · replace there : m.index < (p.nodes.push n).size := there
      rw [Array.size_push] at there
      have hm : (x.node m).index ≠ p'.nodes.size := by
        intro heq
        have heq : x.node m = ⟨p'.nodes.size⟩ := by rw [← heq]
        rw [← h.node_size] at heq
        exact last (congrArg NodeId.index (node_injective new h.nodes heq))
      rw [if_neg last, if_neg hm]
      exact (h.added new (by omega)).mono fills
  drawn := fun new there => (h.drawn new there).mono (Program.fills_addNode p n)

/-- An added graph is changed in both programs. -/
theorem modifyGraph (h : x.Programs p p') (new : x.graphs ≤ g.index)
    {change change' : Graph → Graph}
    (grows : ∀ g : Graph, g.parameters.length ≤ (change g).parameters.length)
    (drawn : ∀ graph graph', x.Drawn p g graph graph' →
      x.Drawn p g (change graph) (change' graph')) :
    x.Programs (p.modifyGraph g change) (p'.modifyGraph (x.graph g) change') := by
  have fills := Program.fills_modifyGraph p g grows
  have sizes : (p.modifyGraph g change).graphs.size = p.graphs.size := Array.size_modify
  have sizes' : (p'.modifyGraph (x.graph g) change').graphs.size = p'.graphs.size :=
    Array.size_modify
  refine
    { nodes := h.nodes, nodes' := h.nodes', graphs := sizes ▸ h.graphs
      graphs' := by rw [sizes, sizes', h.graphs'], shared := h.shared
      shown := fun {k} own => ?_, added := fun new there => (h.added new there).mono fills
      drawn := fun {k} new' there => ?_ }
  · have hk : g ≠ k := by
      rintro rfl
      exact Nat.not_lt_of_le new (x.shows_lt own).1
    have hk' : x.graph g ≠ k := by
      intro heq
      refine graph_ne_of_shows own new ?_
      rw [heq, graph_eq_of_shows own]
    rw [Program.graph_modifyGraph, Program.graph_modifyGraph, if_neg fun h => hk' h.1,
      if_neg fun h => hk h.1]
    exact h.shown own
  · rw [sizes] at there
    have there' : carried x.graphs x.graphs' k.index < p'.graphs.size := by
      rw [h.graphs', carried_of_le new']
      omega
    rw [Program.graph_modifyGraph, Program.graph_modifyGraph]
    by_cases same : g = k
    · subst same
      rw [if_pos ⟨rfl, there⟩, if_pos ⟨rfl, there'⟩]
      exact (drawn _ _ (h.drawn new' there)).mono fills
    · rw [if_neg fun h => same h.1,
        if_neg fun h => same (graph_injective new new' h.1)]
      exact (h.drawn new' there).mono fills

/-- A graph without parameters and output is added to both programs. -/
theorem addGraph (h : x.Programs p p') (name : String) :
    x.Programs (p.addGraph name none).2 (p'.addGraph name none).2 := by
  have fills := Program.fills_addGraph p name
  have sizes : (p.addGraph name none).2.graphs.size = p.graphs.size + 1 := Array.size_push _
  have sizes' : (p'.addGraph name none).2.graphs.size = p'.graphs.size + 1 := Array.size_push _
  have le := h.graphs
  refine
    { nodes := h.nodes, nodes' := h.nodes', graphs := by omega
      graphs' := by rw [sizes, sizes', h.graphs']; omega, shared := h.shared
      shown := fun {k} own => ?_, added := fun new there => (h.added new there).mono fills
      drawn := fun {k} new there => ?_ }
  · have lt := x.shows_lt own
    have size' := h.graphs'
    rw [Program.graph_addGraph, Program.graph_addGraph, if_neg (by omega), if_neg (by omega)]
    exact h.shown own
  · rw [Program.graph_addGraph, Program.graph_addGraph]
    by_cases last : k.index = p.graphs.size
    · have hk : x.graph k = ⟨p'.graphs.size⟩ := by
        rw [← h.graph_size, ← last]
      rw [if_pos last, hk, if_pos rfl]
      exact ⟨rfl, rfl, .none⟩
    · have hk : (x.graph k).index ≠ p'.graphs.size := by
        intro heq
        have heq : x.graph k = ⟨p'.graphs.size⟩ := by rw [← heq]
        rw [← h.graph_size] at heq
        exact last (congrArg GraphId.index (graph_injective new h.graphs heq))
      rw [if_neg last, if_neg hk]
      exact (h.drawn new (by omega)).mono fills

end Programs

end Overlap

end ArrayInference
