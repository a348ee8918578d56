import ArrayInference.Proofs.Engine.Growth

/-!
# What a node can see in a program that grows

A graph generator adds graphs at the top level, and nodes that no graph owns or that a new graph owns.
So in a context of graphs that are there already every node sees the same frames after the program has
grown, even a node that was not there before.
-/

namespace ArrayInference

namespace Program

/-- A program that generators have added to: what is new belongs to nothing that was there. -/
structure Sprouts (p q : Program) : Prop extends Extends p q where
  owners : ∀ {i : Nat} {n : Node} {g : GraphId}, q.nodes[i]? = some n → p.nodes[i]? = none →
    n.owner = some g → p.graphs.size ≤ g.index
  callees : ∀ {i : Nat} {n : Node} (g : GraphId), q.nodes[i]? = some n → p.nodes[i]? = none →
    n.kind ≠ .constant (.graph g)
  parents : ∀ {i : Nat} {g : Graph}, q.graphs[i]? = some g → p.graphs[i]? = none → g.parent = none

variable {p q r : Program}

theorem Extends.size_graphs_le (h : p.Extends q) : p.graphs.size ≤ q.graphs.size := by
  by_contra hlt
  have found : p.graphs[q.graphs.size]? = some p.graphs[q.graphs.size] := Array.getElem?_eq_getElem (by omega)
  have := h.graphs found
  simp at this

namespace Sprouts

theorem refl (p : Program) : p.Sprouts p :=
  ⟨.refl p, by simp_all, by simp_all, by simp_all⟩

theorem trans (h : p.Sprouts q) (h' : q.Sprouts r) : p.Sprouts r where
  toExtends := h.toExtends.trans h'.toExtends
  owners := by
    intro i n g found absent owner
    cases hq : q.nodes[i]? with
    | none => exact Nat.le_trans h.toExtends.size_graphs_le (h'.owners found hq owner)
    | some m =>
      rw [h'.nodes hq, Option.some.injEq] at found
      exact h.owners hq absent (found ▸ owner)
  callees := by
    intro i n g found absent
    cases hq : q.nodes[i]? with
    | none => exact h'.callees g found hq
    | some m =>
      rw [h'.nodes hq, Option.some.injEq] at found
      exact found ▸ h.callees g hq absent
  parents := by
    intro i g found absent
    cases hq : q.graphs[i]? with
    | none => exact h'.parents found hq
    | some m =>
      rw [h'.graphs hq, Option.some.injEq] at found
      exact found ▸ h.parents hq absent

theorem addNode (h : p.Sprouts q) {node : Node}
    (owner : ∀ g, node.owner = some g → p.graphs.size ≤ g.index)
    (kind : ∀ g, node.kind ≠ .constant (.graph g)) : p.Sprouts (q.addNode node).2 where
  toExtends := h.toExtends.trans (extends_addNode q node)
  owners := by
    intro i n g found absent hn
    replace found : (q.nodes.push node)[i]? = some n := found
    rw [Array.getElem?_push] at found
    split at found
    · cases found
      exact owner g hn
    · exact h.owners found absent hn
  callees := by
    intro i n g found absent
    replace found : (q.nodes.push node)[i]? = some n := found
    rw [Array.getElem?_push] at found
    split at found
    · cases found
      exact kind g
    · exact h.callees g found absent
  parents := h.parents

theorem addGraph (h : p.Sprouts q) (name : String) : p.Sprouts (q.addGraph name none).2 where
  toExtends := h.toExtends.trans (extends_addGraph q name none)
  owners := h.owners
  callees := h.callees
  parents := by
    intro i g found absent
    replace found : (q.graphs.push _)[i]? = some g := found
    rw [Array.getElem?_push] at found
    split at found
    · cases found
      rfl
    · exact h.parents found absent

theorem modifyGraph (h : p.Sprouts q) {id : GraphId} (fresh : p.graphs.size ≤ id.index)
    {change : Graph → Graph} (keeps : ∀ g, (change g).parent = g.parent) :
    p.Sprouts (q.modifyGraph id change) where
  toExtends := h.toExtends.modifyGraph fresh change
  owners := h.owners
  callees := h.callees
  parents := by
    intro i g found absent
    replace found : (q.graphs.modify id.index change)[i]? = some g := found
    rw [Array.getElem?_modify] at found
    split at found
    · obtain ⟨g₀, hg₀, rfl⟩ := Option.map_eq_some_iff.mp found
      rw [keeps]
      exact h.parents hg₀ absent
    · exact h.parents found absent

variable {graph : GraphId}

theorem addParameter (h : p.Sprouts q) (fresh : p.graphs.size ≤ graph.index) (name : String) :
    p.Sprouts (q.addParameter graph name).2 := by
  refine (h.addNode ?_ (by simp)).modifyGraph fresh (fun _ => rfl)
  rintro g ⟨⟩
  exact fresh

theorem addNumbered (h : p.Sprouts q) (fresh : p.graphs.size ≤ graph.index) (count : Nat) :
    p.Sprouts (q.addNumbered graph count).2 := by
  rw [Program.addNumbered]
  suffices ∀ (ns : List Nat) (start : List NodeId × Program), p.Sprouts start.2 →
      p.Sprouts (ns.foldl
        (fun q n =>
          (q.1 ++ [(q.2.addParameter graph ("x" ++ toString n)).1],
            (q.2.addParameter graph ("x" ++ toString n)).2)) start).2 from this _ _ h
  intro ns
  induction ns with
  | nil => exact fun _ hstart => hstart
  | cons n rest ih => exact fun _ hstart => ih _ (hstart.addParameter fresh _)

theorem addGenerated (p : Program) (generator : String) (count : Nat) :
    p.Sprouts (p.addGenerated generator count).2.2 :=
  ((Sprouts.refl p).addGraph _).addNumbered (Nat.le_refl _) count

theorem addOperation (h : p.Sprouts q) (fresh : p.graphs.size ≤ graph.index)
    (operator : Primitive) (args : List NodeId) :
    p.Sprouts (q.addOperation graph operator args).2 := by
  refine (h.addNode (by simp) (by simp)).addNode ?_ (by simp)
  rintro g ⟨⟩
  exact fresh

theorem addFold (h : p.Sprouts q) (fresh : p.graphs.size ≤ graph.index) (operator : Primitive)
    (first : NodeId) (rest : List NodeId) :
    p.Sprouts (q.addFold graph operator first rest).2 := by
  rw [Program.addFold]
  induction rest generalizing q first with
  | nil => exact h
  | cons x rest ih => exact ih (h.addOperation fresh operator [first, x]) _

theorem addTypes (h : p.Sprouts q) (types : List Ty) : p.Sprouts (q.addTypes types).2 := by
  rw [Program.addTypes]
  suffices ∀ (start : List NodeId × Program), p.Sprouts start.2 → p.Sprouts (types.foldl
      (fun q t =>
        (q.1 ++ [(q.2.addConstant (.type t)).1], (q.2.addConstant (.type t)).2)) start).2 from
    this ([], q) h
  induction types with
  | nil => exact fun _ hstart => hstart
  | cons t rest ih =>
    intro start hstart
    exact ih _ (hstart.addNode (by simp) (by simp))

end Sprouts

/-- A generator adds top-level graphs. -/
theorem sprouts_generate {m : MetaGraph} {types : List Ty} {g : GraphId}
    (h : m.generate p types = .ok (g, q)) : p.Sprouts q := by
  have hgen := Sprouts.addGenerated p m.name types.length
  have hfst := addGenerated_fst p m.name types.length
  rw [MetaGraph.generate] at h
  cases hrecipe : m.recipe with
  | refuse error => simp [hrecipe] at h
  | existing graph =>
    simp only [hrecipe, Except.ok.injEq, Prod.mk.injEq] at h
    rw [← h.2]
    exact .refl p
  | empty =>
    simp only [hrecipe, Except.ok.injEq, Prod.mk.injEq] at h
    rw [← h.2]
    exact hgen
  | types =>
    simp only [hrecipe, Except.ok.injEq, Prod.mk.injEq] at h
    rw [← h.2, hfst]
    exact ((hgen.addTypes _).addOperation (Nat.le_refl _) _ _).modifyGraph (Nat.le_refl _)
      fun _ => rfl
  | fold operator =>
    rcases hadd : p.addGenerated m.name types.length with ⟨graph, params, q₁⟩
    rw [hadd] at hgen hfst
    cases params with
    | nil => simp [hrecipe, hadd] at h
    | cons first rest =>
      simp only [hrecipe, hadd, Except.ok.injEq, Prod.mk.injEq] at h
      rw [← h.2]
      have hindex : p.graphs.size ≤ graph.index := Nat.le_of_eq (congrArg GraphId.index hfst).symm
      exact (hgen.addFold hindex _ _ _).modifyGraph hindex fun _ => rfl

end Program

namespace Context

/-- A context whose graphs are among the first ones. -/
def Below (count : Nat) : Context → Prop
  | empty => True
  | frame parent graph _ => graph.index < count ∧ parent.Below count

variable {m n : Nat} {c : Context}

theorem Below.mono (h : c.Below m) (le : m ≤ n) : c.Below n := by
  induction c with
  | empty => trivial
  | frame parent graph args ih => exact ⟨by have := h.1; omega, ih h.2⟩

theorem Below.dropTo (h : c.Below n) (graph : GraphId) : (c.dropTo graph).Below n := by
  induction c with
  | empty => trivial
  | frame parent g args ih =>
    rw [Context.dropTo]
    split
    · exact h
    · exact ih h.2

theorem Below.dropTo_eq_empty (h : c.Below n) {graph : GraphId} (beyond : n ≤ graph.index) :
    c.dropTo graph = .empty := by
  induction c with
  | empty => rfl
  | frame parent g args ih =>
    rw [Context.dropTo, if_neg, ih h.2]
    rintro rfl
    have := h.1
    omega

end Context

namespace Engine

/-- A node sees the same frames after generators have added to the program. -/
theorem locate_of_sprouts {e f : Engine} (h : e.program.Sprouts f.program) {ctx : Context}
    (below : ctx.Below e.program.graphs.size) (node : NodeId) :
    f.locate node ctx = e.locate node ctx := by
  have parent : ∀ g, (f.program.graph g).parent = (e.program.graph g).parent := by
    intro g
    rw [Program.graph, Program.graph]
    cases hp : e.program.graphs[g.index]? with
    | some graph => rw [h.graphs hp]
    | none =>
      cases hq : f.program.graphs[g.index]? with
      | none => rfl
      | some graph => exact h.parents hq hp
  rw [locate, locate, Program.node, Program.node]
  cases hp : e.program.nodes[node.index]? with
  | some n => simp only [h.nodes hp, Option.getD_some, parent]
  | none =>
    cases hq : f.program.nodes[node.index]? with
    | none => rfl
    | some n =>
      have hidden : ctx.filter n.owner = .empty := by
        cases howner : n.owner with
        | none => rfl
        | some g => exact below.dropTo_eq_empty (h.owners hq hp howner)
      simp only [Option.getD_some, Option.getD_none, Context.filter]
      congr 1
      split
      · rename_i g hkind
        exact absurd hkind (h.callees g hq hp)
      · rfl
      · exact hidden
      · exact hidden

end Engine

end ArrayInference
