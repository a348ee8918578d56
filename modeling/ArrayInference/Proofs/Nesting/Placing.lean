import ArrayInference.Proofs.Engine.Making
import ArrayInference.Proofs.Exchange.Callables
import ArrayInference.Proofs.Infer.StaysRules
import ArrayInference.Proofs.Nesting.Lexical

/-!
# Contexts of what is asked about

A computation that is placed asks about nodes in contexts that follow the nesting of their graphs,
whatever it is answered with and however much the program has grown when it is answered. Main
statements: a call of an inferrer that is placed is placed, and so is the computation of a node in a
context that follows the nesting.
-/

namespace ArrayInference

namespace Program

variable {p q : Program}

/-- A reference to nothing but a node in a context that follows the nesting. -/
def Places (p : Program) : Ref → Prop
  | .node r => p.Nested r.ctx (p.anchor r.node)
  | .virtual _ => True
  | .element container => p.Places container

/-- An inferrer may stand for this: its context follows the nesting, and so do the arguments that are
bound. -/
def Allows (p : Program) : Callable → Prop
  | .primitive track operator arity rule =>
      (Registries.builtin.get track).get? operator = some (arity, rule)
  | .graph _ g ctx => p.Nested ctx (p.graph g).parent
  | .bound _ args => ∀ x ∈ args, p.Places x
  | _ => True

/-- A question that keeps to the nesting. -/
def Permits (p : Program) : Query → Prop
  | .constant (.graph g) ctx _ => p.Nested ctx (p.graph g).parent
  | .graphInferrer _ g ctx => p.Nested ctx (p.graph g).parent
  | .bind _ bound => ∀ x ∈ bound, p.Places x
  | .locate _ ctx => p.Linked ctx
  | _ => True

/-- What is known of the answer to a question. -/
def Answers (p : Program) : (query : Query) → query.Answer → Prop
  | .locate _ _, r => p.Places (.node r)
  | .node id, n => n = p.node id
  | _, _ => True

theorem places_base {x : Ref} : p.Places x.base ↔ p.Places x := by
  induction x with
  | node r => exact .rfl
  | virtual props => exact .rfl
  | element container ih => exact ih

theorem Places.mono {x : Ref} (h : p.Places x) (later : p.Sprouts q) : q.Places x := by
  induction x with
  | node r => exact Nested.anchor_mono h later
  | virtual props => trivial
  | element container ih => exact ih h

/-- The context of a graph follows the nesting of its parent from then on. -/
theorem Nested.outside_mono {ctx : Context} {g : GraphId} (h : p.Nested ctx (p.graph g).parent)
    (later : p.Sprouts q) : q.Nested ctx (q.graph g).parent :=
  later.parent_eq g ▸ h.mono later.toExtends

theorem Allows.mono {c : Callable} (h : p.Allows c) (later : p.Sprouts q) : q.Allows c := by
  cases c with
  | primitive track operator arity rule => exact h
  | graph track g ctx => exact Nested.outside_mono h later
  | bound inner args => exact fun x hx => (h x hx).mono later
  | _ => trivial

/-- What a permitted question makes is allowed, unless it is a rule that is not built in. -/
theorem Permits.allows {query : Query} {c : Callable} (h : p.Permits query) (makes : query.Makes c)
    (rules : ∀ track operator arity rule, c = .primitive track operator arity rule →
      (Registries.builtin.get track).get? operator = some (arity, rule)) : p.Allows c := by
  cases makes with
  | operator => exact rules _ _ _ _ rfl
  | graphConstant => exact h
  | graph => exact h
  | bind => exact h
  | record =>
    intro x hx
    cases List.mem_singleton.mp hx
    trivial
  | _ => trivial

end Program

namespace Infer

variable {α β γ : Type} {p q : Program} {R : Program → α → Prop} {S : Program → β → Prop}

/-- A computation that keeps to the nesting, with what is known of its result. -/
inductive Placed {α : Type} (R : Program → α → Prop) : Program → Infer α → Prop where
  | done {p : Program} {a : α} (result : R p a) : Placed R p (.done a)
  | fail (p : Program) (e : InferError) : Placed R p (.fail e)
  | forever (p : Program) : Placed R p .forever
  | ask {p : Program} {query : Query} {next : query.Answer → Infer α} (permitted : p.Permits query)
      (later : ∀ q a, p.Sprouts q → q.Answers query a → Placed R q (next a)) :
      Placed R p (.ask query next)
  | demand {p : Program} {key : Entry} {next : Property → Infer α} (places : p.Places (.node key.ref))
      (later : ∀ q v, p.Sprouts q → Placed R q (next v)) : Placed R p (.demand key next)
  | call {p : Program} {callee : Inferrer} {args : List Ref} {next : Property → Infer α}
      (places : ∀ x ∈ args, p.Places x) (later : ∀ q v, p.Sprouts q → Placed R q (next v)) :
      Placed R p (.call callee args next)
  | unify {p : Program} {track : Track} {use : BranchUse} {first second : Ref}
      {next : Property → Infer α} (places : p.Places first) (places' : p.Places second)
      (later : ∀ q v, p.Sprouts q → Placed R q (next v)) :
      Placed R p (.unify track use first second next)

/-- A computation that keeps to the nesting. -/
abbrev Keeps (p : Program) (b : Infer α) : Prop :=
  b.Placed (fun _ _ => True) p

theorem Placed.bind {b : Infer α} {f : α → Infer β} (h : b.Placed R p)
    (h' : ∀ q a, p.Sprouts q → R q a → (f a).Placed S q) : (b.bind f).Placed S p := by
  induction h with
  | done result => exact h' _ _ (.refl _) result
  | fail p e => exact .fail p e
  | forever p => exact .forever p
  | ask permitted _ ih =>
    exact .ask permitted fun q a up answers => ih q a up answers fun r a up' => h' r a (up.trans up')
  | demand places _ ih =>
    exact .demand places fun q v up => ih q v up fun r a up' => h' r a (up.trans up')
  | call places _ ih =>
    exact .call places fun q v up => ih q v up fun r a up' => h' r a (up.trans up')
  | unify places places' _ ih =>
    exact .unify places places' fun q v up => ih q v up fun r a up' => h' r a (up.trans up')

theorem Placed.seq {b : Infer α} {f : α → Infer β} (h : b.Placed R p)
    (h' : ∀ q a, p.Sprouts q → R q a → (f a).Placed S q) : (b >>= f).Placed S p :=
  h.bind h'

theorem Placed.mono {b : Infer α} (h : b.Keeps p) (later : p.Sprouts q) : b.Keeps q := by
  cases h with
  | done result => exact .done trivial
  | fail p e => exact .fail q e
  | forever p => exact .forever q
  | ask permitted next =>
    refine .ask ?_ fun r a up => next r a (later.trans up)
    cases ‹Query› with
    | constant value ctx track =>
      cases value with
      | graph g => exact Program.Nested.outside_mono permitted later
      | _ => trivial
    | graphInferrer track g ctx => exact Program.Nested.outside_mono permitted later
    | bind inner bound => exact fun x hx => (permitted x hx).mono later
    | locate id ctx => exact Program.Linked.mono permitted later.toExtends
    | _ => trivial
  | demand places next => exact .demand (places.mono later) fun r v up => next r v (later.trans up)
  | call places next =>
    exact .call (fun x hx => (places x hx).mono later) fun r v up => next r v (later.trans up)
  | unify places places' next =>
    exact .unify (places.mono later) (places'.mono later) fun r v up => next r v (later.trans up)

theorem keeps_ofExcept (p : Program) (r : Except InferError α) : (ofExcept r).Keeps p := by
  cases r with
  | ok a => exact .done trivial
  | error e => exact .fail p e

/-- A question alone. -/
theorem placed_ask (query : Query) (permitted : p.Permits query) :
    (Infer.ask query .done).Placed (fun q a => q.Answers query a) p :=
  .ask permitted fun _ _ _ answers => .done answers

theorem keeps_callInferrer {f : Inferrer} {args : List Ref} (places : ∀ x ∈ args, p.Places x) :
    (callInferrer f args).Keeps p :=
  .call places fun _ _ _ => .done trivial

/-- What asks about nothing but its arguments keeps to the nesting if they do. -/
theorem keeps_of_stays {P : Ref → Prop} {b : Infer α} (h : b.Stays P)
    (places : ∀ x, P x → p.Places x) : b.Keeps p := by
  induction h generalizing p with
  | done a => exact .done trivial
  | fail e => exact .fail p e
  | forever => exact .forever p
  | @ask query next own _ ih =>
    refine .ask ?_ fun q a up _ => ih a fun x hx => (places x hx).mono up
    cases query with
    | constant value ctx track =>
      cases own
      cases value <;> trivial
    | graphInferrer track g ctx =>
      cases own
      trivial
    | bind inner bound => exact fun x hx => Program.places_base.mp (places _ (own x hx))
    | locate id ctx => exact own.elim
    | _ => trivial
  | demand own _ ih =>
    exact .demand (places _ own) fun q v up => ih v fun x hx => (places x hx).mono up
  | call own _ ih =>
    exact .call (fun x hx => Program.places_base.mp (places _ (own x hx)))
      fun q v up => ih v fun x hx => (places x hx).mono up
  | unify own own' _ ih =>
    exact .unify (Program.places_base.mp (places _ own)) (Program.places_base.mp (places _ own'))
      fun q v up => ih v fun x hx => (places x hx).mono up

/-- The arguments of an application are found in contexts that follow the nesting. -/
theorem placed_located {ctx : Context} (linked : p.Linked ctx) (ids : List NodeId) :
    (ids.mapM fun id => Infer.ask (.locate id ctx) fun r => .done (Ref.node r)).Placed
      (fun q xs => ∀ x ∈ xs, q.Places x) p := by
  induction ids generalizing p with
  | nil => exact .done (by simp)
  | cons id ids ih =>
    rw [List.mapM_cons]
    have first : (Infer.ask (.locate id ctx) fun r => .done (Ref.node r)).Placed
        (fun q x => q.Places x) p := .ask linked fun _ _ _ answers => .done answers
    refine first.seq fun q x up hx => (ih (linked.mono up.toExtends)).seq fun r xs up' hxs => ?_
    exact .done (List.forall_mem_cons.mpr ⟨hx.mono up', hxs⟩)

/-- The computation of a node keeps to the nesting if the context of the node follows it. -/
theorem keeps_infer {r : NodeRef} (track : Track) (places : p.Places (.node r)) :
    (r.infer track).Keeps p := by
  refine (placed_ask (p := p) (.node r.node) trivial).seq fun q n up hn => ?_
  have nested : q.Nested r.ctx (q.anchor r.node) := places.mono up
  obtain rfl : n = q.node r.node := hn
  rw [Program.anchor] at nested
  cases hkind : (q.node r.node).kind with
  | constant value =>
    rw [hkind] at nested
    refine .ask ?_ fun q a _ _ => keeps_ofExcept q a
    cases value with
    | graph g => exact nested
    | _ => trivial
  | parameter g index =>
    dsimp only
    split
    · exact .done trivial
    · exact (placed_ask (p := q) (.graph g) trivial).seq fun q _ _ _ => .fail q _
  | apply inputs =>
    have linked : q.Linked r.ctx := ⟨_, nested⟩
    cases inputs with
    | nil => exact .fail q _
    | cons callee args =>
      refine (placed_ask (.locate callee r.ctx) linked).seq fun q' x up hx => ?_
      have stays : (inferrerOf (.node x) track).Keeps q' :=
        keeps_of_stays (P := q'.Places) (stays_inferrerOf track hx) fun _ h => h
      refine stays.seq fun q'' f up' _ => ?_
      have linked := linked.mono (up.trans up').toExtends
      exact (placed_located linked args).seq fun q''' xs _ hxs => keeps_callInferrer hxs

end Infer

namespace Callable

open Infer

variable {p : Program}

/-- A call of a graph adds a frame for it to a context that follows the nesting of its parent. -/
theorem keeps_callGraph {id : GraphId} {ctx : Context} (track : Track)
    (nested : p.Nested ctx (p.graph id).parent) {args : List Ref} (places : ∀ x ∈ args, p.Places x) :
    (callGraph track id ctx args).Keeps p := by
  refine (placed_ask (p := p) (.graph id) trivial).seq fun q g up _ => ?_
  split
  · exact .fail q _
  have props : (args.mapM argProps).Keeps q :=
    keeps_of_stays (P := q.Places) (stays_mapM fun x hx => stays_argProps
      (Program.places_base.mpr ((places x hx).mono up))) fun _ h => h
  refine props.seq fun q' props up' _ => ?_
  have inner := (nested.outside_mono (up.trans up')).extend props
  have entered : (Infer.ask (.specialize id (ctx.extend id props)) ofExcept).Keeps q' :=
    .ask trivial fun r a _ _ => keeps_ofExcept r a
  refine entered.seq fun q'' _ up'' _ => ?_
  split
  · exact .fail q'' _
  · rename_i output _
    have linked : q''.Linked (ctx.extend id props) := ⟨_, inner.mono up''.toExtends⟩
    refine (placed_ask (.locate output _) linked).seq fun q''' r _ hr => ?_
    exact .demand hr fun _ _ _ => .done trivial

/-- A call keeps to the nesting if what is called does. -/
theorem keeps_body {c : Callable} (allowed : p.Allows c) {args : List Ref}
    (places : ∀ x ∈ args, p.Places x) : (c.body args).Keeps p := by
  have based : ∀ x ∈ args, p.Places x.base := fun x hx => Program.places_base.mpr (places x hx)
  cases c with
  | scalarShape => exact .done trivial
  | anything => exact .done trivial
  | primitive track operator arity rule =>
    rw [body]
    split
    · have stays := Registries.stays_builtin track operator arity rule allowed
      exact keeps_of_stays (stays p.Places track args based) fun _ h => h
    · exact .fail p _
  | graph track id ctx => exact keeps_callGraph track allowed places
  | metaGraph track m => exact keeps_of_stays (stays_callGenerator track m based) fun _ h => h
  | bound inner first =>
    refine keeps_callInferrer fun x hx => ?_
    exact (List.mem_append.mp hx).elim (allowed x) (places x)

end Callable

/-- Either branch of a conditional keeps to the nesting. -/
theorem Infer.keeps_branch {p : Program} (track : Track) (use : BranchUse) {x : Ref}
    (places : p.Places x) : (branch track use x).Keeps p :=
  keeps_of_stays (P := p.Places) (stays_branch track use (Program.places_base.mpr places)) fun _ h => h

end ArrayInference
