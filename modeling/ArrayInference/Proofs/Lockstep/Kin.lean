import ArrayInference.Proofs.Exchange.Operators
import ArrayInference.Proofs.Lockstep.Answers

/-!
# Computations in step

Two computations are in step at an engine if they ask for what belongs together there and, whatever
they learn, go on in step at the engine of that time. So are the computations of every node that
belong together: of a conditional whose condition is known, both look at the same branch.
-/

namespace ArrayInference

namespace Overlap

variable (x : Overlap)

/-- What is known of the callee and the condition of a conditional whose branch is known. -/
structure Learned (e : Engine) (key : Entry) (v : Property) : Prop where
  callee : ∀ {d : Decision}, x.decides d → key.ref.node = d.callee →
    Run.StandsFor e key.track d.use.operator v
  condition : ∀ {d : Decision}, x.decides d → key.ref.node = d.condition → key.track = .value →
    v.toValue = .ok (.known (.bool d.taken))

/-- Computations in step, with what is known of their results. -/
inductive Kin {α : Type} (P : Engine → α → α → Prop) : Engine → Infer α → Infer α → Prop where
  | done {e : Engine} {a a' : α} (same : P e a a') : Kin P e (.done a) (.done a')
  | fail {e : Engine} (err : InferError) : Kin P e (.fail err) (.fail err)
  | forever {e : Engine} : Kin P e .forever .forever
  | ask {e : Engine} {q q' : Query} {R : Engine → q.Answer → q'.Answer → Prop}
      {next : q.Answer → Infer α} {next' : q'.Answer → Infer α} (asks : x.Asks e.program q q' R)
      (later : ∀ e₁, e.Extends e₁ → ∀ a a', R e₁ a a' → Kin P e₁ (next a) (next' a')) :
      Kin P e (.ask q next) (.ask q' next')
  | demand {e : Engine} {r : NodeRef} {track : Track} {next next' : Property → Infer α}
      (knows : x.Knows e.program r)
      (later : ∀ e₁, e.Extends e₁ → ∀ v, v.Within x.shows → x.Learned e₁ ⟨r, track⟩ v →
        Kin P e₁ (next v) (next' v)) :
      Kin P e (.demand ⟨r, track⟩ next) (.demand ⟨x.ref r, track⟩ next')
  | call {e : Engine} {f : Inferrer} {args args' : List Ref} {next next' : Property → Infer α}
      (same : List.Forall₂ (x.Pairs e.program) args args')
      (later : ∀ e₁, e.Extends e₁ → ∀ v, v.Within x.shows → Kin P e₁ (next v) (next' v)) :
      Kin P e (.call f args next) (.call f args' next')
  /-- It is known what is called: an added graph, or a conditional, of whose branches only one has
  to be the same. -/
  | known {e : Engine} {f f' : Inferrer} {args args' : List Ref} {next next' : Property → Infer α}
      {c : Callable} (id : f'.id = f.id) (found : e.callable? f = some c)
      (later : ∀ e₁, e.Extends e₁ → ∀ c', x.SameCallable e₁.program c c' →
        Kin P e₁ ((c.body args).bind next) ((c'.body args').bind next')) :
      Kin P e (.call f args next) (.call f' args' next')
  | unify {e : Engine} {track : Track} {use : BranchUse} {y y' z z' : Ref}
      {next next' : Property → Infer α} (same : x.Pairs e.program y y')
      (same' : x.Pairs e.program z z')
      (later : ∀ e₁, e.Extends e₁ → ∀ v, v.Within x.shows → Kin P e₁ (next v) (next' v)) :
      Kin P e (.unify track use y z next) (.unify track use y' z' next')

/-- The same property. -/
def SameProperty (_ : Engine) (v v' : Property) : Prop :=
  v' = v ∧ v.Within x.shows

variable {x} {α β : Type} {P : Engine → α → α → Prop} {Q : Engine → β → β → Prop} {e e₁ : Engine}
  {p q : Program}

/-! ## Later engines, and one computation after the other -/

theorem Sees.mono {n : NodeId} {c : Context} (h : x.Sees p n c) (later : p.Extends q) :
    x.Sees q n c := by
  cases h with
  | shared own within => exact .shared own within
  | framed own new there count within =>
    exact .framed (own.extends later) new (Nat.lt_of_lt_of_le there (size_le_of_extends later))
      (by rw [later.graph_eq there, count]) within

theorem Kin.bind {b b' : Infer α} {f f' : α → Infer β} (h : x.Kin P e b b')
    (h' : ∀ e₁, e.Extends e₁ → ∀ a a', P e₁ a a' → x.Kin Q e₁ (f a) (f' a')) :
    x.Kin Q e (b.bind f) (b'.bind f') := by
  induction h with
  | done same => exact h' _ (.refl _) _ _ same
  | fail err => exact .fail err
  | forever => exact .forever
  | ask asks _ ih =>
    exact .ask asks fun e₁ later a a' same =>
      ih e₁ later a a' same fun e₂ more => h' e₂ (later.trans more)
  | demand knows _ ih =>
    exact .demand knows fun e₁ later v own learned =>
      ih e₁ later v own learned fun e₂ more => h' e₂ (later.trans more)
  | call same _ ih =>
    exact .call same fun e₁ later v own => ih e₁ later v own fun e₂ more => h' e₂ (later.trans more)
  | known id found _ ih =>
    refine .known id found fun e₁ later c' same => ?_
    have hk := ih e₁ later c' same fun e₂ more => h' e₂ (later.trans more)
    rwa [Infer.bind_assoc, Infer.bind_assoc] at hk
  | unify same same' _ ih =>
    exact .unify same same' fun e₁ later v own =>
      ih e₁ later v own fun e₂ more => h' e₂ (later.trans more)

theorem Kin.seq {b b' : Infer α} {f f' : α → Infer β} (h : x.Kin P e b b')
    (h' : ∀ e₁, e.Extends e₁ → ∀ a a', P e₁ a a' → x.Kin Q e₁ (f a) (f' a')) :
    x.Kin Q e (b >>= f) (b' >>= f') :=
  h.bind h'

/-! ## Computations that run in parallel -/

section

variable {N N' : NodeRef → NodeRef → Prop} {V : GraphId → Prop}

theorem pairs_imp (imp : ∀ r r', N r r' → N' r r') {y y' : Ref} (h : y.Pairs N V y') :
    y.Pairs N' V y' := by
  induction h with
  | node same => exact .node (imp _ _ same)
  | virtual own => exact .virtual own
  | element _ ih => exact .element ih

theorem query_pairs_imp (imp : ∀ r r', N r r' → N' r r') {q q' : Query}
    {R : q.Answer → q'.Answer → Prop} (h : q.Pairs N V q' R) : q.Pairs N' V q' R := by
  cases h with
  | describe same => exact .describe (pairs_imp imp same)
  | note d d' => exact .note d d'
  | intern own => exact .intern own
  | constant own track => exact .constant own track
  | graphInferrer track own => exact .graphInferrer track own
  | bind f same => exact .bind f (same.imp fun _ _ => pairs_imp imp)
  | scalarShape => exact .scalarShape
  | anything => exact .anything

end

theorem kin_of_parallel {P : α → Prop} {b b' : Infer α}
    (h : Infer.Parallel (fun r r' => x.Knows p r ∧ r' = x.ref r) x.shows P b b')
    (later : p.Extends e.program) : x.Kin (fun _ a a' => a' = a ∧ P a) e b b' := by
  have imp : ∀ {e : Engine}, p.Extends e.program → ∀ r r',
      (x.Knows p r ∧ r' = x.ref r) → x.Knows e.program r ∧ r' = x.ref r :=
    fun later r r' same => ⟨same.1.mono later, same.2⟩
  induction h generalizing e with
  | done own => exact .done ⟨rfl, own⟩
  | fail err => exact .fail err
  | forever => exact .forever
  | ask same _ ih =>
    exact .ask (.pairs (query_pairs_imp (imp later) same)) fun e₁ more a a' hr =>
      ih a a' hr (later.trans more.program)
  | demand same _ ih =>
    obtain ⟨knows, rfl⟩ := same
    exact .demand (knows.mono later) fun e₁ more v own _ => ih v own (later.trans more.program)
  | call same _ ih =>
    exact .call (forall_pairs_mono same later) fun e₁ more v own =>
      ih v own (later.trans more.program)
  | unify same same' _ ih =>
    exact .unify (pairs_mono same later) (pairs_mono same' later) fun e₁ more v own =>
      ih v own (later.trans more.program)

theorem kin_of_parallel_property {b b' : Infer Property}
    (h : Infer.Parallel (fun r r' => x.Knows p r ∧ r' = x.ref r) x.shows
      (Property.Within x.shows) b b')
    (later : p.Extends e.program) : x.Kin x.SameProperty e b b' :=
  kin_of_parallel h later

theorem kin_ofExcept (r : Outcome) (own : ∀ v, r = .ok v → v.Within x.shows) :
    x.Kin x.SameProperty e (Infer.ofExcept r) (Infer.ofExcept r) := by
  cases r with
  | ok v => exact .done ⟨rfl, own v rfl⟩
  | error err => exact .fail err

/-- The property of a node. -/
theorem kin_entry {r : NodeRef} (knows : x.Knows e.program r) (track : Track) :
    x.Kin x.SameProperty e (Infer.entry r track) (Infer.entry (x.ref r) track) :=
  .demand knows fun _ _ _ own _ => .done ⟨rfl, own⟩

/-! ## Calls -/

/-- The property of a constant. -/
theorem kin_constant {value : Constant} {c : Context} (own : value.Within x.shows)
    (within : c.Within x.shows) (track : Track) :
    x.Kin x.SameProperty e (.ask (.constant value c track) Infer.ofExcept)
      (.ask (.constant value c track) Infer.ofExcept) := by
  refine .ask (.constant own within track) fun e₁ _ r r' same => ?_
  obtain ⟨rfl, hr⟩ := same
  exact kin_ofExcept _ hr

theorem Frames.enters {g : GraphId} {c : Context} (h : x.Frames p g c) {args : List ArgProps}
    (within : ∀ a ∈ args, a.Within x.shows) : x.Enters g (c.extend g args) := by
  cases h with
  | shown own outer => exact .shown own ⟨outer, own, within⟩
  | added new there => exact .added new

/-- The output of a graph is looked up in a frame for the graph. -/
theorem Frames.sees {g : GraphId} {c : Context} (h : x.Frames p g c) {args : List ArgProps}
    (within : ∀ a ∈ args, a.Within x.shows) (count : args.length = (p.graph g).parameters.length)
    {o : NodeId} (shared : x.shows g → x.shares o) (here : x.graphs ≤ g.index → x.Local p g o) :
    x.Sees p o (c.extend g args) := by
  cases h with
  | shown own outer => exact .shared (shared own) ⟨outer, own, within⟩
  | added new there => exact .framed (here new) new there count within

/-- Graphs that belong together are called on arguments that belong together. -/
theorem kin_callGraph (track : Track) {g : GraphId} {c : Context} (frames : x.Frames e.program g c)
    {args args' : List Ref} (same : List.Forall₂ (x.Pairs e.program) args args') :
    x.Kin x.SameProperty e (Callable.callGraph track g c args)
      (Callable.callGraph track (x.graph g) (x.ctx c) args') := by
  refine .ask (.graph frames.has) fun e₁ later k k' hk => ?_
  obtain ⟨rfl, hname, hparameters, houtput⟩ := hk
  dsimp only [Infer.bind]
  rw [hname, hparameters, same.length_eq]
  split
  · exact .fail _
  · rename_i count
    replace count := not_not.mp count
    have hargs := Infer.parallel_mapM Infer.parallel_argProps (forall_pairs_mono same later.program)
    refine (kin_of_parallel hargs (.refl _)).seq fun e₂ later₂ props props' hprops => ?_
    obtain ⟨rfl, length, owns⟩ := hprops
    have frames₁ := frames.mono later.program
    have frames₂ := frames₁.mono later₂.program
    refine .ask (.specialize frames₂.has (frames₂.enters owns)) fun e₃ later₃ r r' hr => ?_
    obtain rfl : r' = r := hr
    cases r' with
    | error err => exact .fail err
    | ok _ =>
      dsimp only [Infer.bind, Infer.ofExcept]
      generalize (e₁.program.graph g).output = out, k'.output = out' at houtput
      cases houtput with
      | none => exact .fail _
      | @some o o' hout =>
        obtain ⟨shared, here, rfl⟩ := hout
        have sees := frames₁.sees owns (length.trans (same.length_eq.trans count)) shared here
        refine .ask (.locate (sees.mono (later₂.trans later₃).program)) fun e₄ _ r r' hr => ?_
        obtain ⟨⟨knows, rfl⟩, -⟩ := hr
        exact kin_entry knows track

theorem Has.frames {g : GraphId} (h : x.Has p g) : x.Frames p g .empty := by
  rcases h with own | ⟨new, there⟩
  · exact .shown own trivial
  · exact .added new there

/-- What a generator makes for the same types is called on arguments that belong together. -/
theorem kin_callGenerator (track : Track) {m : MetaGraph} (own : ∀ g ∈ m.mentions, x.shows g)
    {args args' : List Ref} (same : List.Forall₂ (x.Pairs e.program) args args') :
    x.Kin x.SameProperty e (Callable.callGenerator track m args)
      (Callable.callGenerator track m args') := by
  have htypes := Infer.parallel_mapM Infer.parallel_typeOf same
  refine (kin_of_parallel htypes (.refl _)).seq fun e₁ later₁ types types' hts => ?_
  obtain ⟨rfl, -, owns⟩ := hts
  refine .ask (.generate own owns) fun e₂ later₂ r r' hr => ?_
  cases hr with
  | error err => exact .fail err
  | @ok g g' hg =>
    obtain ⟨has, rfl⟩ := hg
    refine .ask (.graphInferrer track has.frames) fun e₃ later₃ f f' hf => ?_
    obtain ⟨id, found⟩ := hf
    refine .known id found fun e₄ later₄ c' hc => ?_
    have later := (later₁.trans later₂).trans (later₃.trans later₄)
    cases hc with
    | graph frames =>
      exact (kin_callGraph track frames (forall_pairs_mono same later.program)).bind
        fun _ _ v v' hv => .done hv

/-- What belongs together is called on arguments that belong together. -/
theorem kin_body {c c' : Callable} (h : x.SameCallable e.program c c') {args args' : List Ref}
    (same : List.Forall₂ (x.Pairs e.program) args args') :
    x.Kin x.SameProperty e (c.body args) (c'.body args') := by
  cases h with
  | scalarShape => exact .done ⟨rfl, forall_mem_of_eq_nil rfl⟩
  | anything => exact .done ⟨rfl, forall_mem_of_eq_nil rfl⟩
  | @primitive track operator arity rule uniform =>
    rw [Callable.body, Callable.body, same.length_eq]
    split
    · exact kin_of_parallel_property (uniform _ _ track _ _ same) (.refl _)
    · exact .fail _
  | graph frames => exact kin_callGraph _ frames same
  | metaGraph own => exact kin_callGenerator _ own same
  | bound first =>
    exact .call (List.rel_append first same) fun _ _ v own => .done ⟨rfl, own⟩

/-! ## Nodes -/

/-- Nodes are looked up where nodes that belong to them are. -/
theorem kin_locateAll {ms : List NodeId} {c : Context} (sees : ∀ m ∈ ms, x.Sees e.program m c) :
    x.Kin (fun e => List.Forall₂ (x.Pairs e.program)) e
      (ms.mapM fun m => Infer.ask (.locate m c) fun r => .done (Ref.node r))
      ((ms.map x.node).mapM fun m =>
        Infer.ask (.locate m (x.ctx c)) fun r => .done (Ref.node r)) := by
  induction ms generalizing e with
  | nil => exact .done .nil
  | cons m ms ih =>
    rw [List.forall_mem_cons] at sees
    rw [List.map_cons, List.mapM_cons, List.mapM_cons]
    refine .ask (.locate sees.1) fun e₁ later₁ r r' hr => ?_
    refine (ih fun k hk => (sees.2 k hk).mono later₁.program).seq fun e₂ later₂ rs rs' hrs => ?_
    exact .done (.cons (.node ⟨hr.1.1.mono later₂.program, hr.1.2⟩) hrs)

/-- Nodes that are applied to what belongs together. -/
theorem kin_application {n n' : Node} {inputs : List NodeId} (kind : n.kind = .apply inputs)
    (kind' : n'.kind = .apply (inputs.map x.node)) {r : NodeRef}
    (sees : ∀ m ∈ inputs, x.Sees e.program m r.ctx) (track : Track) :
    x.Kin x.SameProperty e (r.inferAs track n) ((x.ref r).inferAs track n') := by
  rw [NodeRef.inferAs, NodeRef.inferAs, kind, kind']
  cases inputs with
  | nil => exact .fail _
  | cons callee args =>
    rw [List.forall_mem_cons] at sees
    refine .ask (.locate sees.1) fun e₁ later₁ s s' hs => ?_
    obtain ⟨⟨knows, rfl⟩, -⟩ := hs
    refine .demand knows fun e₂ later₂ v own _ => ?_
    dsimp only [Infer.bind]
    cases v.toInferrer with
    | error err => exact .fail err
    | ok f =>
      have later := (later₁.trans later₂).program
      refine (kin_locateAll fun m hm => (sees.2 m hm).mono later).seq fun e₃ _ rs rs' same => ?_
      exact .call same fun _ _ v own => .done ⟨rfl, own⟩

/-- A conditional whose condition is known looks at one of its branches only. -/
theorem kin_conditional {d : Decision} (decides : x.decides d) {r : NodeRef}
    (knows : x.Knows e.program r) (condition : r.node = d.condition) {y y' z z' : Ref}
    (branch : x.Pairs e.program (if d.taken then y else z) (if d.taken then y' else z'))
    (track : Track) :
    x.Kin x.SameProperty e (Infer.conditional d.use track (.node r) y z)
      (Infer.conditional d.use track (.node (x.ref r)) y' z') := by
  refine .demand knows fun e₁ later₁ v own learned => ?_
  have hv := learned.condition decides condition rfl
  dsimp only [Infer.bind]
  rw [hv]
  refine .ask (.pairs (.describe (.node ⟨knows.mono later₁.program, rfl⟩)))
    fun e₂ later₂ _ _ _ => ?_
  refine .ask (.pairs (.note _ _)) fun e₃ later₃ _ _ _ => ?_
  have later := later₁.trans (later₂.trans later₃)
  exact kin_of_parallel_property (Infer.parallel_branch track d.use branch) later.program

theorem SameCallable.conditional_eq {track : Track} {use : BranchUse} {c : Callable}
    (h : x.SameCallable p (.conditional track use) c) : c = .conditional track use := by
  cases use <;> cases h <;> rfl

/-- Conditionals that take the same branch. -/
theorem kin_decided {d : Decision} (decides : x.decides d) (callee : x.shares d.callee)
    (condition : x.shares d.condition) {a b a' b' : NodeId}
    (branch : if d.taken then a' = a ∧ x.shares a else b' = b ∧ x.shares b) {n n' : Node}
    (kind : n.kind = .apply [d.callee, d.condition, a, b])
    (kind' : n'.kind = .apply [d.callee, d.condition, a', b']) {r : NodeRef}
    (within : r.ctx.Within x.shows) (track : Track) :
    x.Kin x.SameProperty e (r.inferAs track n) (r.inferAs track n') := by
  have looked : ∀ {e : Engine} {m : NodeId}, x.shares m →
      x.Asks e.program (.locate m r.ctx) (.locate m r.ctx)
        fun e (s s' : NodeRef) => (x.Knows e.program s ∧ s' = x.ref s) ∧ s.node = m := by
    intro e m own
    have asks := Asks.locate (.shared own within : x.Sees e.program m r.ctx)
    rwa [node_eq_of_shares own, ctx_eq_of_within within] at asks
  rw [NodeRef.inferAs, NodeRef.inferAs, kind, kind']
  refine .ask (looked callee) fun e₁ _ f f' hf => ?_
  obtain ⟨⟨knows, rfl⟩, hcallee⟩ := hf
  refine .demand knows fun e₂ _ v _ learned => ?_
  obtain ⟨g, rfl, stands⟩ := (learned.callee decides hcallee).conditional
  refine .ask (looked condition) fun e₃ later₃ s s' hs => ?_
  obtain ⟨⟨knows', rfl⟩, hcondition⟩ := hs
  -- only the branch that is taken is known to be the same
  have goes : ∀ {e₅ : Engine} {y y' z z' : NodeRef}, e₃.Extends e₅ →
      x.Pairs e₅.program (if d.taken then .node y else .node z)
        (if d.taken then .node y' else .node z') →
      x.Kin x.SameProperty e₅ (.call g [.node s, .node y, .node z] .done)
        (.call g [.node (x.ref s), .node y', .node z'] .done) := by
    intro e₅ y y' z z' later hbranch
    refine .known rfl ((later₃.trans later).callables stands) fun e₆ later₆ c' hc => ?_
    obtain rfl := hc.conditional_eq
    rw [Infer.bind_done, Infer.bind_done, Callable.body_conditional, Callable.body_conditional]
    exact kin_conditional decides (knows'.mono (later.trans later₆).program) hcondition
      (pairs_mono hbranch later₆.program) track
  cases htaken : d.taken with
  | true =>
    rw [htaken, if_pos rfl] at branch
    obtain ⟨rfl, own⟩ := branch
    refine .ask (looked own) fun e₄ later₄ y y' hy =>
      .ask (.elsewhere _ _ _ _) fun e₅ later₅ z z' _ => ?_
    refine goes (later₄.trans later₅) ?_
    rw [htaken]
    exact .node ⟨hy.1.1.mono later₅.program, hy.1.2⟩
  | false =>
    rw [htaken, if_neg Bool.false_ne_true] at branch
    obtain ⟨rfl, own⟩ := branch
    refine .ask (.elsewhere _ _ _ _) fun e₄ later₄ y y' _ =>
      .ask (looked own) fun e₅ later₅ z z' hz => ?_
    refine goes (later₄.trans later₅) ?_
    rw [htaken]
    exact .node hz.1

/-- A parameter that is bound. -/
theorem kin_parameter {n n' : Node} {g : GraphId} {index : Nat} (kind : n.kind = .parameter g index)
    (kind' : n'.kind = .parameter (x.graph g) index) {m : NodeId} {args : List ArgProps}
    (bound : index < args.length) (within : ∀ a ∈ args, a.Within x.shows) (track : Track) :
    x.Kin x.SameProperty e ((⟨m, .frame .empty g args⟩ : NodeRef).inferAs track n)
      ((x.ref ⟨m, .frame .empty g args⟩).inferAs track n') := by
  have argument : ∀ k : GraphId, (Context.frame .empty k args).argument? k index track
      = some (args[index].get track) := by
    intro k
    rw [Context.argument?, Context.dropTo, if_pos rfl, Context.frameArgument?,
      List.getElem?_eq_getElem bound, Option.map_some]
  have own := (within _ (List.getElem_mem bound)).get track
  rw [NodeRef.inferAs, NodeRef.inferAs, kind, kind']
  dsimp only [ref, ctx]
  rw [argument, argument]
  exact .done ⟨rfl, own⟩

/-- A parameter of a shared graph. -/
theorem kin_argument {n : Node} {g : GraphId} {index : Nat} (kind : n.kind = .parameter g index)
    (own : x.shows g) {r : NodeRef} (within : r.ctx.Within x.shows) (track : Track) :
    x.Kin x.SameProperty e (r.inferAs track n) (r.inferAs track n) := by
  rw [NodeRef.inferAs, kind]
  dsimp only
  cases found : r.ctx.argument? g index track with
  | some v => exact .done ⟨rfl, (within.dropTo g).frameArgument? found⟩
  | none =>
    have asks : x.Asks e.program (.graph g) (.graph (x.graph g)) _ := .graph (.inl own)
    rw [graph_eq_of_shows own] at asks
    refine .ask asks fun e₁ _ k k' hk => ?_
    dsimp only [Infer.bind]
    rw [hk.2.name]
    exact .fail _

/-- The computations of nodes that belong together are in step. -/
theorem kin_infer {r : NodeRef} (knows : x.Knows e.program r) (track : Track) :
    x.Kin x.SameProperty e (r.infer track) ((x.ref r).infer track) := by
  rw [NodeRef.infer_eq, NodeRef.infer_eq]
  cases knows with
  | @shared n c own within =>
    rw [ref_eq_of_shares own within]
    refine .ask (.sharedNode own) fun e₁ _ k k' hk => ?_
    cases hk with
    | constant mentioned => exact kin_constant mentioned within track
    | parameter shown => exact kin_argument rfl shown within track
    | @apply inputs owner name inner =>
      have same : inputs.map x.node = inputs :=
        (List.map_congr_left fun m hm => node_eq_of_shares (inner m hm)).trans (List.map_id _)
      have kind' : (⟨.apply inputs, owner, name⟩ : Node).kind = .apply (inputs.map x.node) := by
        rw [same]
      have sees : ∀ m ∈ inputs, x.Sees e₁.program m c := fun m hm => .shared (inner m hm) within
      have h := @kin_application x e₁ ⟨.apply inputs, owner, name⟩ _ inputs rfl kind'
        ⟨n, c⟩ sees track
      rwa [ref_eq_of_shares own within] at h
    | conditional decides callee condition branch =>
      exact kin_decided decides callee condition branch rfl rfl within track
  | @constant n value new there kind =>
    refine .ask (.addedNode new there) fun e₁ _ k k' hk => ?_
    obtain ⟨rfl, added⟩ := hk
    generalize e.program.node n = k at kind added ⊢
    cases added with
    | constant own _ => exact @kin_constant x e₁ _ .empty own trivial track
    | parameter => cases kind
    | apply => cases kind
  | @framed n g args new there owner new' there' count within =>
    refine .ask (.addedNode new there) fun e₁ later k k' hk => ?_
    obtain ⟨rfl, added⟩ := hk
    rw [← later.program.graph_eq there'] at count
    generalize e.program.node n = k at owner added ⊢
    cases added with
    | constant => cases owner
    | parameter _ _ bound =>
      cases owner
      exact kin_parameter rfl rfl (count ▸ bound) within track
    | @apply _ inputs name _ there inner =>
      cases owner
      have sees : ∀ m ∈ inputs, x.Sees e₁.program m (.frame .empty g args) :=
        fun m hm => .framed (inner m hm) new' there count within
      exact kin_application rfl rfl sees track

end Overlap

end ArrayInference
