import ArrayInference.Proofs.Tracks.Shapes

/-!
# Calls agree

Main statements: calls of inferrers that stand for the same thing give properties that agree, and so
do the computations of one node on two tracks.
-/

namespace ArrayInference

namespace Ledger

variable {w : Ledger} {t : Track} {calls calls' : Calls} {p q : Property} {args : List Ref}

theorem Lawful.argProps_unique (lawful : w.Lawful) {x : Ref} {a b : ArgProps}
    (h : w.Yields calls (Infer.argProps x) a) (h' : w.Yields calls' (Infer.argProps x) b) : b = a := by
  simp only [Infer.argProps, yields_seq, yields_done] at h h'
  obtain ⟨v, hv, s, hs, u, hu, rfl⟩ := h
  obtain ⟨v', hv', s', hs', u', hu', rfl⟩ := h'
  rw [lawful.once.get_unique hv hv', lawful.once.get_unique hs hs', lawful.once.get_unique hu hu']

theorem forall₂_unique {α β : Type} {R S : α → β → Prop} (unique : ∀ x a b, R x a → S x b → b = a)
    {xs : List α} {as bs : List β} (h : List.Forall₂ R xs as) (h' : List.Forall₂ S xs bs) : bs = as := by
  induction h generalizing bs with
  | nil =>
    cases h'
    rfl
  | cons first _ ih =>
    cases h' with
    | cons first' rest => rw [unique _ _ _ first first', ih rest]

/-- A call of a graph gives the property of its output in a new frame. -/
theorem yields_callGraph {id : GraphId} {ctx : Context}
    (h : w.Yields calls (Callable.callGraph t id ctx args) p) :
    ∃ props output, List.Forall₂ (fun x a => w.Yields calls (Infer.argProps x) a) args props
      ∧ (w.engine.program.graph id).output = some output
      ∧ w.found { ref := w.engine.locate output (ctx.extend id props), track := t } p := by
  obtain ⟨g, hg, h⟩ := yields_seq.mp h
  split at h
  · exact h.elim
  · obtain ⟨props, hprops, h⟩ := yields_seq.mp h
    obtain ⟨_, -, h⟩ := yields_seq.mp h
    split at h
    · exact h.elim
    · rename_i output houtput
      obtain ⟨r, hr, found⟩ := yields_seq.mp h
      obtain ⟨-, rfl⟩ := yields_ask.mp hr
      rcases yields_ask.mp hg with rfl | blank
      · exact ⟨props, output, yields_mapM.mp hprops, houtput, yields_entry.mp found⟩
      · rw [blank] at houtput
        cases houtput

/-- A call of a generator is a call of the graph that it has made for the types. -/
theorem yields_callGenerator {m : MetaGraph}
    (h : w.Yields calls (Callable.callGenerator t m args) p) :
    ∃ types g f, List.Forall₂ (fun x s => w.Yields calls (Infer.typeOf x) s) args types
      ∧ w.engine.generated.find? { generator := m, types } = some g
      ∧ w.engine.callable? f = some (.graph t g .empty) ∧ calls f args p := by
  obtain ⟨types, htypes, h⟩ := yields_seq.mp h
  obtain ⟨g, ⟨r, answers, hr⟩, h⟩ := yields_seq.mp h
  obtain ⟨f, hf, h⟩ := yields_seq.mp h
  exact ⟨types, g, f, yields_mapM.mp htypes, answers g (yields_ofExcept.mp hr),
    yields_graphInferrer.mp hf, yields_callInferrer.mp h⟩

theorem yields_primitive {operator : Primitive} {arity : Arity} {rule : Rule}
    (h : w.Yields calls ((Callable.primitive t operator arity rule).body args) p) :
    w.Yields calls (rule t args) p := by
  rw [Callable.body] at h
  split at h
  · exact h
  · exact h.elim

/-- Operators agree with themselves. -/
theorem Lawful.agree_operator (lawful : w.Lawful) (agree : w.CallsAgree t calls calls')
    (other : t ≠ .value) (sure : ∀ x ∈ args, w.Sure x) {operator : Primitive} {f g : Inferrer}
    {c c' : Callable} (left : w.Stands operator .value f) (right : w.Stands operator t g)
    (known : w.engine.callable? f = some c) (known' : w.engine.callable? g = some c')
    (hp : w.Yields calls (c.body args) p) (hq : w.Yields calls' (c'.body args) q) : w.Agree t p q := by
  cases left with
  | anything unknown callable =>
    rw [callable, Option.some.injEq] at known
    subst known
    rw [yields_done.mp hp]
    exact agree_anything
  | @rule _ _ arity rule found callable =>
    rw [callable, Option.some.injEq] at known
    subst known
    have hp := yields_primitive hp
    cases right with
    | anything => exact absurd rfl other
    | @rule _ _ arity' rule' found' callable' =>
      rw [callable', Option.some.injEq] at known'
      subst known'
      have hq := yields_primitive hq
      have meets : w.Meets t operator rule ∨ (Registries.builtin.get t).get? operator = none := by
        cases t with
        | value => exact absurd rfl other
        | type => exact .inl (lawful.meets_type operator arity rule found)
        | shape => exact (lawful.meets_shape operator arity rule found).imp_right And.left
      rcases meets with ⟨_, _, same, agrees⟩ | none
      · rw [found', Option.some.injEq, Prod.mk.injEq] at same
        exact agrees agree sure hp (same.2 ▸ hq)
      · rw [found'] at none
        cases none
    | scalarShape unknown callable' =>
      rw [callable', Option.some.injEq] at known'
      subst known'
      rw [yields_done.mp hq]
      refine agree_shape ?_
      rintro c rfl -
      rcases lawful.meets_shape operator arity rule found with ⟨_, _, some, -⟩ | ⟨-, plain⟩
      · have none : (Registries.builtin.get .shape).get? operator = none := unknown
        rw [none] at some
        cases some
      · exact Constant.shaped_of_isPlain (plain hp)

/-- Calls that are nested at most so deep agree with all others. -/
theorem Lawful.agree_callsWithin (lawful : w.Lawful) (other : t ≠ .value) (n : Nat) :
    w.CallsAgree t (w.callsWithin n) w.Gives := by
  induction n with
  | zero => exact fun _ _ _ _ _ _ _ hp _ => hp.elim
  | succ n ih =>
    intro f g args p q same sure hp hq
    obtain ⟨c, known, hp⟩ := hp
    obtain ⟨c', known', hq⟩ := gives_iff.mp hq
    cases same with
    | operator left right => exact lawful.agree_operator ih other sure left right known known' hp hq
    | graph left right =>
      cases left.symm.trans known
      cases right.symm.trans known'
      obtain ⟨props, output, hprops, houtput, hp⟩ := yields_callGraph hp
      obtain ⟨props', output', hprops', houtput', hq⟩ := yields_callGraph hq
      cases houtput.symm.trans houtput'
      cases forall₂_unique (fun x a b h h' => lawful.argProps_unique (x := x) h h') hprops hprops'
      exact lawful.agree hp other hq
    | metaGraph left right =>
      cases left.symm.trans known
      cases right.symm.trans known'
      obtain ⟨types, m, f, htypes, hm, hf, hp⟩ := yields_callGenerator hp
      obtain ⟨types', m', f', htypes', hm', hf', hq⟩ := yields_callGenerator hq
      cases forall₂_unique (fun x s u h h' => lawful.once.typeOf_unique (x := x) h h') htypes htypes'
      cases hm.symm.trans hm'
      exact ih (.graph hf hf') sure hp hq
    | bound left right inner =>
      cases left.symm.trans known
      cases right.symm.trans known'
      refine ih inner (fun x hx => ?_) (yields_callInferrer.mp hp) (yields_callInferrer.mp hq)
      rcases List.mem_append.mp hx with hx | hx
      · exact lawful.sound left x hx
      · exact sure x hx

/-- Calls of inferrers that stand for the same thing agree. -/
theorem Lawful.agree_gives (lawful : w.Lawful) (other : t ≠ .value) :
    w.CallsAgree t w.Gives w.Gives := by
  rintro f g args p q same sure ⟨n, hp⟩ hq
  exact lawful.agree_callsWithin other n same sure hp hq

theorem yields_located {ctx : Context} {ids : List NodeId} {xs : List Ref}
    (h : w.Yields calls
      (ids.mapM fun id => Infer.ask (.locate id ctx) fun r => .done (Ref.node r)) xs) :
    xs = ids.map fun id => .node (w.engine.locate id ctx) := by
  have each := yields_mapM.mp h
  clear h
  induction each with
  | nil => rfl
  | cons first _ ih =>
    obtain ⟨r, ⟨-, rfl⟩, h⟩ := first
    rw [List.map_cons, ← ih, yields_done.mp h]

/-- What the computation of a node gives, by what kind of node it is. -/
theorem yields_infer {r : NodeRef} (h : w.Yields calls (r.infer t) p) :
    (∃ c, (w.engine.program.node r.node).kind = .constant c ∧ w.Holds r.ctx c t p)
      ∨ (∃ id index, (w.engine.program.node r.node).kind = .parameter id index
        ∧ r.ctx.argument? id index t = some p)
      ∨ ∃ callee inputs f, (w.engine.program.node r.node).kind = .apply (callee :: inputs)
        ∧ w.Yields calls (Infer.inferrerOf (.node (w.engine.locate callee r.ctx)) t) f
        ∧ calls f (inputs.map fun id => .node (w.engine.locate id r.ctx)) p := by
  obtain ⟨n, hn, h⟩ := yields_seq.mp h
  have node : n.kind ≠ .apply [] → n = w.engine.program.node r.node := fun blank =>
    (yields_ask.mp hn).resolve_right blank
  cases hkind : n.kind with
  | constant c =>
    rw [hkind] at h
    obtain ⟨_, answers, h⟩ := h
    rw [← node (by simp [hkind])]
    exact .inl ⟨c, hkind, answers p (yields_ofExcept.mp h)⟩
  | parameter id index =>
    rw [hkind] at h
    dsimp only at h
    split at h
    · rename_i found
      rw [← node (by simp [hkind]), yields_done.mp h]
      exact .inr (.inl ⟨id, index, hkind, found⟩)
    · obtain ⟨_, -, h⟩ := yields_seq.mp h
      exact h.elim
  | apply inputs =>
    rw [hkind] at h
    cases inputs with
    | nil => exact h.elim
    | cons callee inputs =>
      obtain ⟨a, ha, h⟩ := yields_seq.mp h
      obtain ⟨f, hf, h⟩ := yields_seq.mp h
      obtain ⟨xs, hxs, h⟩ := yields_seq.mp h
      obtain ⟨-, rfl⟩ := yields_ask.mp ha
      cases yields_located hxs
      rw [← node (by simp [hkind])]
      exact .inr (.inr ⟨callee, inputs, f, hkind, hf, yields_callInferrer.mp h⟩)

/-- The computations of a node on two tracks agree. -/
theorem Lawful.agree_infer (lawful : w.Lawful) (other : t ≠ .value) {r : NodeRef} (good : w.Good r.ctx)
    (left : w.Yields w.Gives (r.infer .value) p) (right : w.Yields w.Gives (r.infer t) q) :
    w.Agree t p q := by
  rcases yields_infer left with ⟨c, hc, hp⟩ | ⟨id, index, hparam, hp⟩ | ⟨callee, inputs, f, happly, hf, hp⟩
  · rcases yields_infer right with ⟨c', hc', hq⟩ | ⟨_, _, hc', -⟩ | ⟨_, _, _, hc', -⟩
    · cases hc.symm.trans hc'
      exact agree_holds other hp hq
    · cases hc.symm.trans hc'
    · cases hc.symm.trans hc'
  · rcases yields_infer right with ⟨_, hc', -⟩ | ⟨id', index', hparam', hq⟩ | ⟨_, _, _, hc', -⟩
    · cases hparam.symm.trans hc'
    · cases hparam.symm.trans hparam'
      exact good.argument hp other hq
    · cases hparam.symm.trans hc'
  · rcases yields_infer right with ⟨_, hc', -⟩ | ⟨_, _, hc', -⟩ | ⟨callee', inputs', g, happly', hg, hq⟩
    · cases happly.symm.trans hc'
    · cases happly.symm.trans hc'
    · cases happly.symm.trans happly'
      simp only [Infer.inferrerOf, yields_seq, yields_ofExcept] at hf hg
      obtain ⟨a, ha, hf⟩ := hf
      obtain ⟨b, hb, hg⟩ := hg
      have sure : ∀ id, w.Sure (.node (w.engine.locate id r.ctx)) := good.locate w.engine
      have same := lawful.agree_get (sure callee) other ha hb
      cases a <;> cases hf
      cases b <;> cases hg
      refine lawful.agree_gives other same (fun x hx => ?_) hp hq
      obtain ⟨id, -, rfl⟩ := List.mem_map.mp hx
      exact sure id

end Ledger

end ArrayInference
