import ArrayInference.Proofs.Tracks.Locating
import Mathlib.Data.List.Perm.Subperm
import Mathlib.Logic.Relation

/-!
# Lexical nesting

A graph stands inside its parent, and the ancestors of a graph are the graph and what it stands in,
from the inside outwards. A context follows this nesting if its frames belong to a graph, to the
parent of that graph, and so on; it may stop before the outermost ancestor. Such a context stays one
when it is cut off at a graph, and when the call of a graph adds a frame to it.
-/

namespace ArrayInference

namespace Context

/-- The graphs of the frames, from the innermost outwards. -/
def graphs : Context → List GraphId
  | empty => []
  | frame parent graph _ => graph :: parent.graphs

end Context

namespace Program

variable {p q : Program}

/-- The graph whose frame is the innermost one that a node sees: an application or a parameter sees
that of its owner, a graph that of its parent. -/
def anchor (p : Program) (id : NodeId) : Option GraphId :=
  match (p.node id).kind with
  | .constant (.graph g) => (p.graph g).parent
  | .constant _ => none
  | .parameter .. | .apply _ => (p.node id).owner

/-! ## Ancestors -/

/-- One graph is the parent of another one. -/
def Encloses (p : Program) (outer inner : GraphId) : Prop :=
  (p.graph inner).parent = some outer

/-- No graph stands inside itself. -/
def Acyclic (p : Program) : Prop :=
  ∀ g, ¬ Relation.TransGen p.Encloses g g

/-- A graph and what it stands in, at most so many. -/
def outwards (p : Program) : Nat → Option GraphId → List GraphId
  | _, none | 0, _ => []
  | n + 1, some g => g :: p.outwards n (p.graph g).parent

/-- A graph and what it stands in, from the inside outwards. -/
def ancestors (p : Program) (start : Option GraphId) : List GraphId :=
  p.outwards (p.graphs.size + 1) start

@[simp] theorem ancestors_none (p : Program) : p.ancestors none = [] := rfl

theorem Sprouts.parent_eq (h : p.Sprouts q) (g : GraphId) :
    (q.graph g).parent = (p.graph g).parent := by
  rw [graph, graph]
  cases known : p.graphs[g.index]? with
  | some graph => rw [h.graphs known]
  | none =>
    cases found : q.graphs[g.index]? with
    | none => rfl
    | some graph => exact h.parents found known

/-- What a generator adds stands at the top level. -/
theorem Sprouts.acyclic (h : p.Sprouts q) (acyclic : p.Acyclic) : q.Acyclic := by
  intro g cycle
  refine acyclic g (Relation.TransGen.mono (fun outer inner encloses => ?_) g g cycle)
  rwa [Encloses, h.parent_eq] at encloses

/-! ## Contexts -/

/-- A context whose innermost frame belongs to a graph, and the others to what that stands in. -/
def Nested (p : Program) : Context → Option GraphId → Prop
  | .empty, _ => True
  | .frame outside g _, start => start = some g ∧ p.Nested outside (p.graph g).parent

/-- A context that follows the nesting of some graph. -/
def Linked (p : Program) (ctx : Context) : Prop :=
  ∃ start, p.Nested ctx start

variable {ctx : Context} {start : Option GraphId} {g : GraphId}

theorem nested_none : p.Nested ctx none ↔ ctx = .empty := by
  cases ctx <;> simp [Nested]

/-- A graph that is not there yet has no parent, so a context that follows its nesting is empty. -/
theorem Nested.mono (h : p.Nested ctx start) (later : p.Extends q) : q.Nested ctx start := by
  induction ctx generalizing start with
  | empty => trivial
  | frame outside g args ih =>
    obtain ⟨rfl, h⟩ := h
    refine ⟨rfl, ?_⟩
    cases known : p.graphs[g.index]? with
    | some graph =>
      rw [Program.graph, known] at h
      rw [Program.graph, later.graphs known]
      exact ih h
    | none =>
      rw [Program.graph, known] at h
      rw [nested_none.mp h]
      trivial

theorem Linked.mono (h : p.Linked ctx) (later : p.Extends q) : q.Linked ctx := by
  obtain ⟨start, h⟩ := h
  exact ⟨start, h.mono later⟩

theorem Nested.extend (h : p.Nested ctx (p.graph g).parent) (args : List ArgProps) :
    p.Nested (ctx.extend g args) (some g) :=
  ⟨rfl, h⟩

/-- Frames that are left out were the innermost ones. -/
theorem Nested.dropTo (h : p.Nested ctx start) (g : GraphId) : p.Nested (ctx.dropTo g) (some g) := by
  induction ctx generalizing start with
  | empty => trivial
  | frame outside inner args ih =>
    rw [Context.dropTo]
    split
    · rename_i same
      exact ⟨congrArg some same.symm, h.2⟩
    · exact ih h.2

theorem Linked.filter (h : p.Linked ctx) (start : Option GraphId) :
    p.Nested (ctx.filter start) start := by
  obtain ⟨_, h⟩ := h
  cases start with
  | none => trivial
  | some g => exact h.dropTo g

theorem ctx_locate (e : Engine) (id : NodeId) (ctx : Context) :
    (e.locate id ctx).ctx = ctx.filter (e.program.anchor id) := by
  rw [Engine.locate, anchor]
  cases (e.program.node id).kind with
  | constant value => cases value <;> rfl
  | parameter graph index => rfl
  | apply inputs => rfl

/-- A node is found in a context that follows the nesting from the graph whose frame it sees. -/
theorem Linked.locate {e : Engine} (h : e.program.Linked ctx) (id : NodeId) :
    e.program.Nested (e.locate id ctx).ctx (e.program.anchor id) :=
  ctx_locate e id ctx ▸ h.filter _

/-- A node that is not there yet sees no frame at all. -/
theorem Nested.anchor_mono {id : NodeId} (h : p.Nested ctx (p.anchor id)) (later : p.Sprouts q) :
    q.Nested ctx (q.anchor id) := by
  have h' := h.mono later.toExtends
  cases known : p.nodes[id.index]? with
  | some n =>
    have same : q.node id = p.node id := by rw [node, node, known, later.nodes known]
    rw [anchor] at h'
    rw [anchor, same]
    simpa only [later.parent_eq] using h'
  | none =>
    rw [anchor, node, known] at h
    rw [nested_none.mp h]
    trivial

end Program

end ArrayInference
