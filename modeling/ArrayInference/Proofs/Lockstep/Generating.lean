import ArrayInference.Proofs.Lockstep.Overlap

/-!
# Generators in two programs

A generator adds the same nodes and the same graph to two programs that have something in common,
step by step. So they still have it in common afterwards.
-/

namespace ArrayInference

namespace Overlap

variable (x : Overlap) {g : GraphId} {p p' q q' : Program}

/-- A graph that occurs: a shared one, or an added one that is there. -/
def Has (p : Program) (g : GraphId) : Prop :=
  x.shows g ∨ x.graphs ≤ g.index ∧ g.index < p.graphs.size

/-- A node was added to two programs, for the frame of an added graph. -/
structure Drafted (g : GraphId) (p : Program) (out out' : NodeId × Program) : Prop where
  id : out'.1 = x.node out.1
  own : x.Local out.2 g out.1
  programs : x.Programs out.2 out'.2
  fills : p.Fills out.2

/-- Several nodes were added to two programs, for the frame of an added graph. -/
structure DraftedAll (g : GraphId) (p : Program) (out out' : List NodeId × Program) : Prop where
  ids : out'.1 = out.1.map x.node
  own : ∀ m ∈ out.1, x.Local out.2 g m
  programs : x.Programs out.2 out'.2
  fills : p.Fills out.2

variable {x}

theorem Has.mono (h : x.Has p g) (le : p.graphs.size ≤ q.graphs.size) : x.Has q g :=
  h.imp_right fun new => ⟨new.1, Nat.lt_of_lt_of_le new.2 le⟩

theorem Drafted.later (h : p.Fills q) {out out' : NodeId × Program}
    (drafted : x.Drafted g q out out') :
    x.Drafted g p out out' :=
  { drafted with fills := h.trans drafted.fills }

/-! ## Single steps -/

theorem drafted_addNode (h : x.Programs p p') {n n' : Node} (added : x.Added p n n')
    (seen : n.owner = some g ∨ ∃ value, n.kind = .constant value) :
    x.Drafted g p (p.addNode n) (p'.addNode n') where
  id := h.node_size.symm
  own := by
    refine ⟨h.nodes, ?_, ?_⟩
    · show p.nodes.size < (p.nodes.push n).size
      rw [Array.size_push]
      exact Nat.lt_succ_self _
    · rw [Program.node_addNode, if_pos (show (p.addNode n).1.index = p.nodes.size from rfl)]
      exact seen
  programs := h.addNode added
  fills := Program.fills_addNode p n

theorem drafted_addConstant (h : x.Programs p p') {value : Constant} (own : value.Within x.shows)
    (data : ∀ g, value ≠ .graph g) : x.Drafted g p (p.addConstant value) (p'.addConstant value) :=
  drafted_addNode h (.constant own data) (.inr ⟨value, rfl⟩)

theorem drafted_addApply (h : x.Programs p p') (new : x.graphs ≤ g.index)
    (there : g.index < p.graphs.size) {inputs : List NodeId} (own : ∀ m ∈ inputs, x.Local p g m) :
    x.Drafted g p (p.addApply g inputs) (p'.addApply (x.graph g) (inputs.map x.node)) :=
  drafted_addNode h (.apply new there own) (.inl rfl)

theorem drafted_addOperation (h : x.Programs p p') (new : x.graphs ≤ g.index)
    (there : g.index < p.graphs.size) (operator : Primitive) {args : List NodeId}
    (own : ∀ m ∈ args, x.Local p g m) :
    x.Drafted g p (p.addOperation g operator args)
      (p'.addOperation (x.graph g) operator (args.map x.node)) := by
  have callee : x.Drafted g p (p.addConstant (.primitive operator))
      (p'.addConstant (.primitive operator)) :=
    drafted_addConstant h (forall_mem_of_eq_nil rfl) (by simp)
  have inputs : ∀ m ∈ (p.addConstant (.primitive operator)).1 :: args,
      x.Local (p.addConstant (.primitive operator)).2 g m :=
    List.forall_mem_cons.mpr ⟨callee.own, fun m hm => (own m hm).mono callee.fills⟩
  have applied := drafted_addApply callee.programs new
    (Nat.lt_of_lt_of_le there callee.fills.graphs)
    inputs
  rw [List.map_cons, ← callee.id] at applied
  exact applied.later callee.fills

theorem drafted_addParameter (h : x.Programs p p') (new : x.graphs ≤ g.index)
    (there : g.index < p.graphs.size) (name : String) :
    x.Drafted g p (p.addParameter g name) (p'.addParameter (x.graph g) name) := by
  -- the graph may as well be changed before the node is added, and then the position is there
  let change : Graph → Graph := fun k => { k with parameters := k.parameters ++ [⟨p.nodes.size⟩] }
  let change' : Graph → Graph := fun k => { k with parameters := k.parameters ++ [⟨p'.nodes.size⟩] }
  have grows : ∀ k : Graph, k.parameters.length ≤ (change k).parameters.length := by
    intro k
    show _ ≤ (k.parameters ++ [_]).length
    rw [List.length_append]
    exact Nat.le_add_right _ _
  have changed : x.Programs (p.modifyGraph g change) (p'.modifyGraph (x.graph g) change') := by
    refine h.modifyGraph new grows fun graph graph' drawn => ⟨drawn.name, ?_, drawn.output⟩
    show (graph'.parameters ++ [_]).length = (graph.parameters ++ [_]).length
    rw [List.length_append, List.length_append, drawn.parameters]
    rfl
  have size : (p.modifyGraph g change).graphs.size = p.graphs.size := Array.size_modify
  have bound : (p.graph g).parameters.length
      < ((p.modifyGraph g change).graph g).parameters.length := by
    rw [Program.graph_modifyGraph, if_pos ⟨rfl, there⟩]
    show _ < ((p.graph g).parameters ++ [_]).length
    rw [List.length_append]
    exact Nat.lt_succ_self _
  have added : x.Added (p.modifyGraph g change)
      { kind := .parameter g (p.graph g).parameters.length, owner := some g, name := some name }
      { kind := .parameter (x.graph g) (p'.graph (x.graph g)).parameters.length,
        owner := some (x.graph g), name := some name } := by
    rw [(h.drawn new there).parameters]
    exact .parameter new (size ▸ there) bound
  exact (drafted_addNode changed added (.inl rfl)).later (Program.fills_modifyGraph p g grows)

theorem programs_setOutput (h : x.Programs p p') (new : x.graphs ≤ g.index) {out : NodeId}
    (own : x.Local p g out) :
    x.Programs (p.setOutput g out) (p'.setOutput (x.graph g) (x.node out)) :=
  h.modifyGraph new (fun _ => Nat.le_refl _) fun _ _ drawn =>
    ⟨drawn.name, drawn.parameters, .some ⟨own, rfl⟩⟩

/-! ## Chains of steps -/

section

variable {β : Type} {bs : List β}

/-- One node for each item of a list. -/
theorem draftedAll_foldl (step step' : Program → β → NodeId × Program)
    (h : ∀ {q q'}, ∀ b ∈ bs, x.Programs q q' → g.index < q.graphs.size →
      x.Drafted g q (step q b) (step' q' b))
    {out out' : List NodeId × Program} (start : x.DraftedAll g p out out')
    (there : g.index < out.2.graphs.size) :
    x.DraftedAll g p
      (bs.foldl (fun out b => (out.1 ++ [(step out.2 b).1], (step out.2 b).2)) out)
      (bs.foldl (fun out b => (out.1 ++ [(step' out.2 b).1], (step' out.2 b).2)) out') := by
  induction bs generalizing out out' with
  | nil => exact start
  | cons b bs ih =>
    rw [List.foldl_cons, List.foldl_cons]
    have first := h b List.mem_cons_self start.programs there
    refine ih (fun c hc => h c (List.mem_cons_of_mem _ hc)) ⟨?_, fun m hm => ?_, first.programs,
      start.fills.trans first.fills⟩ (Nat.lt_of_lt_of_le there first.fills.graphs)
    · rw [List.map_append, List.map_singleton, ← first.id, start.ids]
    · rcases List.mem_append.mp hm with hm | hm
      · exact (start.own m hm).mono first.fills
      · exact List.mem_singleton.mp hm ▸ first.own

end

theorem draftedAll_nil (h : x.Programs p p') : x.DraftedAll g p ([], p) ([], p') :=
  ⟨rfl, by simp, h, .refl p⟩

theorem draftedAll_addNumbered (h : x.Programs p p') (new : x.graphs ≤ g.index)
    (there : g.index < p.graphs.size) (count : Nat) :
    x.DraftedAll g p (p.addNumbered g count) (p'.addNumbered (x.graph g) count) :=
  draftedAll_foldl (fun q n => q.addParameter g ("x" ++ toString n))
    (fun q n => q.addParameter (x.graph g) ("x" ++ toString n))
    (fun _ _ h there => drafted_addParameter h new there _) (draftedAll_nil h) there

theorem draftedAll_addTypes (h : x.Programs p p') (there : g.index < p.graphs.size)
    {types : List Ty}
    (own : ∀ t ∈ types, t.Within x.shows) :
    x.DraftedAll g p (p.addTypes types) (p'.addTypes types) :=
  draftedAll_foldl (fun q t => q.addConstant (.type t)) (fun q t => q.addConstant (.type t))
    (fun t ht h _ => drafted_addConstant h (own t ht) (by simp)) (draftedAll_nil h) there

theorem drafted_addFold (new : x.graphs ≤ g.index) (operator : Primitive) {rest : List NodeId}
    (out out' : NodeId × Program) (start : x.Drafted g p out out')
    (there : g.index < out.2.graphs.size)
    (own : ∀ m ∈ rest, x.Local out.2 g m) :
    x.Drafted g p (out.2.addFold g operator out.1 rest)
      (out'.2.addFold (x.graph g) operator out'.1 (rest.map x.node)) := by
  induction rest generalizing out out' with
  | nil => exact start
  | cons m rest ih =>
    rw [List.forall_mem_cons] at own
    have owns : ∀ k ∈ [out.1, m], x.Local out.2 g k := by simp [start.own, own.1]
    have first := drafted_addOperation start.programs new there operator owns
    rw [List.map_cons, List.map_singleton, ← start.id] at first
    exact ih _ _ (first.later start.fills) (Nat.lt_of_lt_of_le there first.fills.graphs)
      fun k hk => (own.2 k hk).mono first.fills

/-- A graph with as many parameters as a call has arguments. -/
theorem draftedAll_addGenerated (h : x.Programs p p') (name : String) (count : Nat) :
    (p.addGenerated name count).1 = ⟨p.graphs.size⟩
      ∧ (p'.addGenerated name count).1 = x.graph ⟨p.graphs.size⟩
      ∧ p.graphs.size < (p.addGenerated name count).2.2.graphs.size
      ∧ x.DraftedAll ⟨p.graphs.size⟩ p (p.addGenerated name count).2
        (p'.addGenerated name count).2 := by
  have graph := h.addGraph (name ++ toString count)
  have there : p.graphs.size < (p.addGraph (name ++ toString count) none).2.graphs.size := by
    show p.graphs.size < (p.graphs.push _).size
    rw [Array.size_push]
    exact Nat.lt_succ_self _
  have drafted := @draftedAll_addNumbered x ⟨p.graphs.size⟩ _ _ graph h.graphs there count
  rw [h.graph_size] at drafted ⊢
  exact ⟨rfl, rfl, Nat.lt_of_lt_of_le there drafted.fills.graphs,
    { drafted with fills := (Program.fills_addGraph p _).trans drafted.fills }⟩

/-- What a generator makes in two programs. -/
inductive Generated (x : Overlap) :
    Except TypeError (GraphId × Program) → Except TypeError (GraphId × Program) → Prop where
  | refused (e : TypeError) : Generated x (.error e) (.error e)
  | made {g : GraphId} {q q' : Program} (programs : x.Programs q q') (has : x.Has q g) :
      Generated x (.ok (g, q)) (.ok (x.graph g, q'))

theorem Programs.generate (h : x.Programs p p') {m : MetaGraph} (own : ∀ g ∈ m.mentions, x.shows g)
    {types : List Ty} (owns : ∀ t ∈ types, t.Within x.shows) :
    x.Generated (m.generate p types) (m.generate p' types) := by
  obtain ⟨hg, hg', there, drafted⟩ := draftedAll_addGenerated h m.name types.length
  have new : x.graphs ≤ p.graphs.size := h.graphs
  rcases hadd : p.addGenerated m.name types.length with ⟨g, ids, q⟩
  rcases hadd' : p'.addGenerated m.name types.length with ⟨g', ids', q'⟩
  rw [hadd] at hg there drafted
  rw [hadd'] at hg' drafted
  obtain rfl : g = ⟨p.graphs.size⟩ := hg
  obtain rfl : g' = x.graph ⟨p.graphs.size⟩ := hg'
  have has : ∀ {r : Program}, q.graphs.size ≤ r.graphs.size → x.Has r ⟨p.graphs.size⟩ :=
    fun le => .inr ⟨new, Nat.lt_of_lt_of_le there le⟩
  have output : ∀ {out out' : NodeId × Program}, x.Drafted ⟨p.graphs.size⟩ q out out' →
      x.Generated (.ok (⟨p.graphs.size⟩, out.2.setOutput ⟨p.graphs.size⟩ out.1))
        (.ok (x.graph ⟨p.graphs.size⟩, out'.2.setOutput (x.graph ⟨p.graphs.size⟩) out'.1)) := by
    intro out out' drafted
    rw [drafted.id]
    refine .made (programs_setOutput drafted.programs new drafted.own) (has ?_)
    rw [Program.setOutput, Program.modifyGraph, Array.size_modify]
    exact drafted.fills.graphs
  rw [MetaGraph.generate, MetaGraph.generate]
  rw [MetaGraph.mentions] at own
  cases hrecipe : m.recipe with
  | refuse e => exact .refused e
  | existing k =>
    rw [hrecipe] at own
    have shown := own k (List.mem_singleton_self _)
    have made : x.Generated (.ok (k, p)) (.ok (x.graph k, p')) := .made h (.inl shown)
    rwa [graph_eq_of_shows shown] at made
  | empty =>
    simp only [hadd, hadd']
    exact .made drafted.programs (has (Nat.le_refl _))
  | types =>
    simp only [hadd, hadd']
    have ids := draftedAll_addTypes drafted.programs there owns
    have made := drafted_addOperation ids.programs new (Nat.lt_of_lt_of_le there ids.fills.graphs)
      .makeTuple ids.own
    rw [← ids.ids] at made
    exact output (made.later ids.fills)
  | fold operator =>
    obtain rfl : ids' = ids.map x.node := drafted.ids
    cases ids with
    | nil =>
      simp only [hadd, hadd', List.map_nil]
      exact .refused _
    | cons first rest =>
      simp only [hadd, hadd', List.map_cons]
      have owns := List.forall_mem_cons.mp drafted.own
      exact output (drafted_addFold new operator (first, q) (x.node first, q')
        ⟨rfl, owns.1, drafted.programs, .refl q⟩ there owns.2)

end Overlap

end ArrayInference
