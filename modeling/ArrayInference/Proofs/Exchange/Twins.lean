import ArrayInference.Proofs.Exchange.Callables
import ArrayInference.Proofs.Exchange.Swap

/-!
# Twins

When the branches of an application are exchanged, the computation of its node asks for the same
things, until it comes to the branches themselves: these it races in the other order. All other
computations stay as they are. Two computations that differ in no more than this are twins.
-/

namespace ArrayInference

open Infer

/-- The operator of a conditional. -/
def BranchUse.operator : BranchUse → Primitive
  | .call => .ifElse
  | .select => .switch

/-- What the operator of a conditional stands for. -/
def Callable.conditional (track : Track) : BranchUse → Callable
  | .call => .primitive track .ifElse (.exactly 3) Rule.ifElse
  | .select => .primitive track .switch (.exactly 3) Rule.switch

theorem Callable.conditional_registered (track : Track) (use : BranchUse) :
    ∃ rule, (Registries.builtin.get track).get? use.operator = some (.exactly 3, rule)
      ∧ Callable.conditional track use = .primitive track use.operator (.exactly 3) rule := by
  cases use with
  | call => exact ⟨Rule.ifElse, by cases track <;> rfl, rfl⟩
  | select => exact ⟨Rule.switch, by cases track <;> rfl, rfl⟩

theorem Callable.body_conditional (track : Track) (use : BranchUse) (c x y : Ref) :
    (conditional track use).body [c, x, y] = Infer.conditional use track c x y := by
  cases use <;> rfl

/-- An application whose branches are exchanged. -/
structure Exchange where
  id : NodeId
  /-- The application itself. -/
  node : Node
  callee : NodeId
  condition : NodeId
  /-- The engine at the end of the run, which knows what all inferrers of the run stand for. -/
  last : Engine

namespace Exchange

/-- A property that an entry may have: the application calls the operator of a conditional, and the
value of its condition is not known. -/
structure Fits (x : Exchange) (key : Entry) (v : Property) : Prop where
  operator : key.ref.node = x.callee → ∃ f track use, v = .inferrer f
    ∧ x.last.callable? f = some (.conditional track use)
  undecided : key.ref.node = x.condition → key.track = .value → v.toValue = .ok .anything

end Exchange

/-- An answer that a question can have. -/
def Query.Admits : (query : Query) → query.Answer → Prop
  | .locate id _, r => r.node = id
  | _, _ => True

theorem EngineM.admits_answer (query : Query) (e : Engine) :
    query.Admits ((answer query).run e).1 := by
  cases query with
  | locate node ctx => rfl
  | _ => trivial

/-- Two computations of which the second one belongs to the program after the exchange. -/
inductive Twins (x : Exchange) : Infer Property → Infer Property → Prop where
  | done (p : Property) : Twins x (.done p) (.done p)
  | fail (e : InferError) : Twins x (.fail e) (.fail e)
  | forever : Twins x .forever .forever
  | ask {query : Query} {next next' : query.Answer → Infer Property} (other : query ≠ .node x.id)
      (later : ∀ a, query.Admits a → Twins x (next a) (next' a)) :
      Twins x (.ask query next) (.ask query next')
  | node {next next' : Node → Infer Property} (later : Twins x (next x.node) (next' x.node.exchange)) :
      Twins x (.ask (.node x.id) next) (.ask (.node x.id) next')
  /-- The two branches are looked up in the other order. -/
  | locate {first second : NodeId} {ctx : Context} {next next' : NodeRef → NodeRef → Infer Property}
      (later : ∀ a b, Twins x (next a b) (next' a b)) :
      Twins x (.ask (.locate first ctx) fun a => .ask (.locate second ctx) fun b => next a b)
        (.ask (.locate second ctx) fun b => .ask (.locate first ctx) fun a => next' a b)
  | demand {key : Entry} {next next' : Property → Infer Property}
      (later : ∀ v, x.Fits key v → Twins x (next v) (next' v)) :
      Twins x (.demand key next) (.demand key next')
  | call {callee : Inferrer} {args : List Ref} {next next' : Property → Infer Property}
      (later : ∀ v, Twins x (next v) (next' v)) :
      Twins x (.call callee args next) (.call callee args next')
  /-- The arguments of the conditional are the exchanged ones. -/
  | decide {callee : Inferrer} {args args' : List Ref} {next next' : Property → Infer Property}
      {c : Callable} (stands : x.last.callable? callee = some c)
      (later : Twins x ((c.body args).bind next) ((c.body args').bind next')) :
      Twins x (.call callee args next) (.call callee args' next')
  | unify {track : Track} {use : BranchUse} {first second : Ref}
      {next next' : Property → Infer Property} (later : ∀ v, Twins x (next v) (next' v)) :
      Twins x (.unify track use first second next) (.unify track use first second next')
  | race {track : Track} {use : BranchUse} {first second : Ref}
      {next next' : Property → Infer Property} (later : ∀ v, Twins x (next v) (next' v)) :
      Twins x (.unify track use first second next) (.unify track use second first next')

section

variable {x : Exchange}

/-- A computation that asks for no node goes on to twins. -/
theorem Infer.Blind.twins {α : Type} {b : Infer α} (blind : b.Blind) {f f' : α → Infer Property}
    (h : ∀ a, Twins x (f a) (f' a)) : Twins x (b.bind f) (b.bind f') := by
  induction blind with
  | done a => exact h a
  | fail e => exact .fail e
  | forever => exact .forever
  | ask other _ ih => exact .ask (other _) fun a _ => ih a
  | demand _ ih => exact .demand fun v _ => ih v
  | call _ ih => exact .call ih
  | unify _ ih => exact .unify ih

theorem Infer.Blind.twin {b : Infer Property} (blind : b.Blind) : Twins x b b := by
  have h := @Infer.Blind.twins x Property b blind .done .done .done
  rwa [bind_done] at h

/-- A branch is the same computation in both programs. -/
theorem twins_branch (track : Track) (use : BranchUse) (subject : Ref) :
    Twins x (Infer.branch track use subject) (Infer.branch track use subject) :=
  (stays_branch (P := fun _ => True) track use trivial).blind.twin

/-- An undecided conditional races its branches, in whichever order they stand. -/
theorem twins_conditional (use : BranchUse) (track : Track) {c : NodeRef} (hc : c.node = x.condition)
    (first second : Ref) :
    Twins x ((Infer.conditional use track (.node c) first second).bind .done)
      ((Infer.conditional use track (.node c) second first).bind .done) := by
  refine .demand fun v fits => ?_
  have hv := fits.undecided hc rfl
  show Twins x (((ofExcept v.toValue).bind _).bind _) (((ofExcept v.toValue).bind _).bind _)
  rw [hv]
  cases track with
  | value => exact .done _
  | type => exact .race fun v => .done v
  | shape => exact .race fun v => .done v

/-- The application itself: its callee is the operator of a conditional, which gets the condition and
the branches. -/
theorem twins_inferAs {ifTrue ifFalse : NodeId}
    (kind : x.node.kind = .apply [x.callee, x.condition, ifTrue, ifFalse]) (r : NodeRef)
    (track : Track) : Twins x (r.inferAs track x.node) (r.inferAs track x.node.exchange) := by
  have hkind : x.node.exchange.kind = .apply [x.callee, x.condition, ifFalse, ifTrue] := by
    rw [Node.exchange, kind]
  rw [NodeRef.inferAs, NodeRef.inferAs, kind, hkind]
  refine .ask (by simp) fun callee hcallee => ?_
  refine .demand fun v fits => ?_
  have hnode : callee.node = x.callee := hcallee
  obtain ⟨f, t, use, rfl, stands⟩ := fits.operator hnode
  refine .ask (by simp) fun c hc => ?_
  refine .locate fun a b => ?_
  have hcondition : c.node = x.condition := hc
  have h := twins_conditional use t hcondition (.node a) (.node b)
  rw [← Callable.body_conditional, ← Callable.body_conditional] at h
  exact .decide stands h

/-- The computation of every entry is the twin of that in the other program. -/
theorem twins_infer {ifTrue ifFalse : NodeId}
    (kind : x.node.kind = .apply [x.callee, x.condition, ifTrue, ifFalse]) (r : NodeRef)
    (track : Track) : Twins x (r.infer track) (r.infer track) := by
  by_cases h : r.node = x.id
  · rw [NodeRef.infer_eq, h]
    exact .node (twins_inferAs kind r track)
  · rw [NodeRef.infer_eq]
    refine .ask ?_ fun n _ => (NodeRef.blind_inferAs r track n).twin
    intro heq
    exact h (Query.node.inj heq)

end

end ArrayInference
