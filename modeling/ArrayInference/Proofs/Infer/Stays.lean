import ArrayInference.Engine.State
import ArrayInference.Proofs.Infer.Monad
import ArrayInference.Proofs.Plain.Steady
import ArrayInference.Proofs.Table

/-!
# What a computation asks about

A rule sees references and their properties, never the nodes behind them, and it asks about nothing
but its arguments: about the references that it was given, their elements, and what a constant stands
for outside every context. Only a call of a graph and the computation of a node look at the program.
-/

namespace ArrayInference

/-- What a reference is an element of in the end. -/
def Ref.base : Ref → Ref
  | .element container => container.base
  | x => x

/-- Questions about nothing but some references, and for types that every cache of one home makes. -/
def Query.Stays (P : Ref → Prop) : Query → Prop
  | .intern make => make.Steady
  | .constant _ ctx _ => ctx = .empty
  | .graphInferrer _ _ ctx => ctx = .empty
  | .bind _ bound => ∀ x ∈ bound, P x.base
  | .specialize .. | .locate .. | .node _ | .graph _ => False
  | _ => True

namespace Infer

variable {α β γ : Type} {P : Ref → Prop}

/-- A computation that asks about nothing but references of which `P` holds, and their elements. -/
inductive Stays (P : Ref → Prop) {α : Type} : Infer α → Prop where
  | done (a : α) : Stays P (.done a)
  | fail (e : InferError) : Stays P (.fail e)
  | forever : Stays P .forever
  | ask {query : Query} {next : query.Answer → Infer α} (own : query.Stays P)
      (later : ∀ a, Stays P (next a)) : Stays P (.ask query next)
  | demand {key : Entry} {next : Property → Infer α} (own : P (.node key.ref))
      (later : ∀ p, Stays P (next p)) : Stays P (.demand key next)
  | call {callee : Inferrer} {args : List Ref} {next : Property → Infer α}
      (own : ∀ x ∈ args, P x.base) (later : ∀ p, Stays P (next p)) :
      Stays P (.call callee args next)
  | unify {track : Track} {use : BranchUse} {first second : Ref} {next : Property → Infer α}
      (first_own : P first.base) (second_own : P second.base) (later : ∀ p, Stays P (next p)) :
      Stays P (.unify track use first second next)

attribute [simp] Stays.done Stays.fail Stays.forever

theorem Stays.bind {b : Infer α} {f : α → Infer β} (h : b.Stays P) (h' : ∀ a, (f a).Stays P) :
    (b.bind f).Stays P := by
  induction h with
  | done a => exact h' a
  | fail e => exact .fail e
  | forever => exact .forever
  | ask own _ ih => exact .ask own ih
  | demand own _ ih => exact .demand own ih
  | call own _ ih => exact .call own ih
  | unify own own' _ ih => exact .unify own own' ih

/-- One computation after the other. -/
theorem Stays.seq {b : Infer α} {f : α → Infer β} (h : b.Stays P) (h' : ∀ a, (f a).Stays P) :
    (b >>= f).Stays P :=
  h.bind h'

@[simp] theorem stays_ofExcept (r : Except InferError α) : (ofExcept r).Stays P := by
  cases r <;> simp [ofExcept]

@[simp] theorem stays_describe (x : Ref) : (describe x).Stays P :=
  .ask trivial .done

@[simp] theorem stays_note (reason : Diagnostic.Reason) (subject : Option String) :
    (note reason subject).Stays P :=
  .ask trivial .done

theorem stays_intern {make : Interning Ty} (steady : make.Steady) : (intern make).Stays P :=
  .ask steady .done

@[simp] theorem stays_constant (value : Constant) (track : Track) :
    (constant value track).Stays P :=
  .ask rfl stays_ofExcept

@[simp] theorem stays_graphInferrer (track : Track) (graph : GraphId) :
    (graphInferrer track graph .empty).Stays P :=
  .ask rfl .done

theorem stays_bindArguments (f : Inferrer) {bound : List Ref} (own : ∀ x ∈ bound, P x.base) :
    (bindArguments f bound).Stays P :=
  .ask own fun f => .done (Property.inferrer f)

theorem stays_callInferrer (f : Inferrer) {args : List Ref} (own : ∀ x ∈ args, P x.base) :
    (callInferrer f args).Stays P :=
  .call own .done

@[simp] theorem stays_asType (p : Property) : (asType p).Stays P := by
  cases p <;> simp [asType, stays_intern (Interning.steady_generic _)]

variable {x y z : Ref}

theorem stays_typeProperty (own : P x.base) : (typeProperty x).Stays P := by
  induction x with
  | node r => exact .demand own .done
  | virtual props =>
    rw [typeProperty]
    split
    · exact .done _
    · exact (stays_describe _).seq fun _ => .fail _
  | element container ih => exact (ih own).seq fun _ => stays_ofExcept _

theorem stays_typeOf (own : P x.base) : (typeOf x).Stays P :=
  (stays_typeProperty own).seq stays_asType

theorem stays_default (track : Track) (own : P x.base) : (default track x).Stays P := by
  cases track with
  | value => exact .done _
  | type => exact (stays_describe x).seq fun _ => .fail _
  | shape => exact (stays_typeOf own).seq fun _ => (stays_ofExcept _).seq fun _ => .done _

theorem stays_get (track : Track) (own : P x.base) : (get x track).Stays P := by
  induction x with
  | node r => exact .demand own .done
  | virtual props =>
    rw [get]
    split
    · exact .done _
    · exact stays_default track own
  | element container ih => exact (ih own).seq fun _ => stays_ofExcept _

theorem stays_valueOf (own : P x.base) : (valueOf x).Stays P :=
  (stays_get .value own).seq fun _ => stays_ofExcept _

theorem stays_shapeOf (own : P x.base) : (shapeOf x).Stays P := by
  refine (stays_get .shape own).seq fun p => ?_
  cases p <;> simp

theorem stays_inferrerOf (track : Track) (own : P x.base) : (inferrerOf x track).Stays P :=
  (stays_get track own).seq fun _ => stays_ofExcept _

theorem stays_constantOf (what : String) (own : P x.base) : (constantOf x what).Stays P := by
  refine (stays_valueOf own).seq fun v => ?_
  cases v <;> simp

theorem stays_argProps (own : P x.base) : (argProps x).Stays P :=
  (stays_get .value own).seq fun _ => (stays_get .type own).seq fun _ =>
    (stays_get .shape own).seq fun _ => .done _

theorem stays_mapM {f : γ → Infer α} {xs : List γ} (h : ∀ x ∈ xs, (f x).Stays P) :
    (xs.mapM f).Stays P := by
  induction xs with
  | nil => exact .done []
  | cons x xs ih =>
    rw [List.forall_mem_cons] at h
    rw [List.mapM_cons]
    exact h.1.seq fun _ => (ih h.2).seq fun _ => .done _

theorem own_elements {xs : List Ref} (own : ∀ x ∈ xs, P x.base) :
    ∀ x ∈ xs.map Ref.element, P x.base := by
  intro x hx
  obtain ⟨y, hy, rfl⟩ := List.mem_map.mp hx
  exact own y hy

theorem stays_access (how : Access) (track : Track) (own : P x.base) (own' : P y.base) :
    (access how track x y).Stays P := by
  refine (stays_valueOf own').seq fun v => ?_
  cases v with
  | anything => exact .fail _
  | known name =>
    refine (stays_typeOf own).seq fun t => ?_
    cases methodOf? t name with
    | some method =>
      exact (stays_graphInferrer _ _).seq fun _ => stays_bindArguments _ (by simpa using own)
    | none =>
      refine (stays_valueOf own).seq fun v => ?_
      cases v with
      | anything => exact .fail _
      | known value => cases hfound : how.find? value name <;> simp [hfound]

theorem stays_recordAttribute (own : P x.base) (own' : P y.base) :
    (recordAttribute x y).Stays P := by
  refine (stays_typeOf own).seq fun t => ?_
  cases t.class? with
  | none => exact .done _
  | some c =>
    refine (stays_constantOf _ own').seq fun name => ?_
    cases name.str? <;> simp

theorem stays_branch (track : Track) (use : BranchUse) (own : P x.base) :
    (branch track use x).Stays P := by
  refine (stays_get track own).seq fun p => ?_
  cases use with
  | select => exact .done p
  | call => exact (stays_ofExcept _).seq fun f => stays_callInferrer f (by simp)

theorem stays_conditional (use : BranchUse) (track : Track) (own : P x.base) (own' : P y.base)
    (own'' : P z.base) : (conditional use track x y z).Stays P := by
  refine (stays_valueOf own).seq fun v => ?_
  cases v with
  | anything => cases track <;> simp [Stays.unify own' own'']
  | known c =>
    cases c with
    | bool taken =>
      refine (stays_describe _).seq fun _ => (stays_note _ _).seq fun _ => ?_
      cases taken
      · exact stays_branch _ _ own''
      · exact stays_branch _ _ own'
    | _ => exact .fail _

end Infer

theorem Callable.stays_callGenerator {P : Ref → Prop} (track : Track) (generator : MetaGraph)
    {args : List Ref} (own : ∀ x ∈ args, P x.base) :
    (callGenerator track generator args).Stays P := by
  refine (Infer.stays_mapM fun x hx => Infer.stays_typeOf (own x hx)).seq fun types => ?_
  refine .seq (.ask trivial Infer.stays_ofExcept) fun g => ?_
  exact (Infer.stays_graphInferrer _ _).seq fun f => Infer.stays_callInferrer f own

/-- A rule that asks about nothing but its arguments. -/
def Rule.Stays (rule : Rule) : Prop :=
  ∀ (P : Ref → Prop) (track : Track) (args : List Ref), (∀ x ∈ args, P x.base) →
    (rule track args).Stays P

namespace Rule

/-! ## Rules by their number of arguments -/

theorem stays_unary {rule : Track → Ref → Infer Property}
    (h : ∀ {P : Ref → Prop} {x : Ref} (track : Track), P x.base → (rule track x).Stays P) :
    (unary rule).Stays := by
  intro P track args own
  rw [unary.eq_def]
  split
  · exact h track (own _ (by simp))
  · exact .fail _

theorem stays_binary {rule : Track → Ref → Ref → Infer Property}
    (h : ∀ {P : Ref → Prop} {x y : Ref} (track : Track), P x.base → P y.base →
      (rule track x y).Stays P) : (binary rule).Stays := by
  intro P track args own
  rw [binary.eq_def]
  split
  · exact h track (own _ (by simp)) (own _ (by simp))
  · exact .fail _

theorem stays_ternary {rule : Track → Ref → Ref → Ref → Infer Property}
    (h : ∀ {P : Ref → Prop} {x y z : Ref} (track : Track), P x.base → P y.base → P z.base →
      (rule track x y z).Stays P) : (ternary rule).Stays := by
  intro P track args own
  rw [ternary.eq_def]
  split
  · exact h track (own _ (by simp)) (own _ (by simp)) (own _ (by simp))
  · exact .fail _

theorem stays_quaternary {rule : Track → Ref → Ref → Ref → Ref → Infer Property}
    (h : ∀ {P : Ref → Prop} {x y z u : Ref} (track : Track), P x.base → P y.base → P z.base →
      P u.base → (rule track x y z u).Stays P) : (quaternary rule).Stays := by
  intro P track args own
  rw [quaternary.eq_def]
  split
  · exact h track (own _ (by simp)) (own _ (by simp)) (own _ (by simp)) (own _ (by simp))
  · exact .fail _

theorem stays_variadic (missing : String) {rule : Track → Ref → List Ref → Infer Property}
    (h : ∀ {P : Ref → Prop} {x : Ref} {rest : List Ref} (track : Track), P x.base →
      (∀ y ∈ rest, P y.base) → (rule track x rest).Stays P) : (variadic missing rule).Stays := by
  intro P track args own
  cases args with
  | nil => exact .fail _
  | cons x rest =>
    rw [List.forall_mem_cons] at own
    exact h track own.1 own.2

/-! ## The rules of all tracks -/

theorem stays_passThrough : passThrough.Stays :=
  stays_unary fun track own => Infer.stays_get track own

theorem stays_partially : partially.Stays :=
  stays_variadic _ fun track own owns =>
    (Infer.stays_inferrerOf track own).seq fun _ => Infer.stays_bindArguments _ owns

theorem stays_ifElse : ifElse.Stays :=
  stays_ternary fun track own own' own'' => Infer.stays_conditional .call track own own' own''

theorem stays_switch : switch.Stays :=
  stays_ternary fun track own own' own'' => Infer.stays_conditional .select track own own' own''

theorem stays_resolve : resolve.Stays :=
  stays_binary fun track own own' => Infer.stays_access .keyed track own own'

end Rule

namespace Registry

/-- Every rule of a registry has a property. -/
def All (P : Primitive → Rule → Prop) (r : Registry) : Prop :=
  ∀ operator arity rule, r.get? operator = some (arity, rule) → P operator rule

variable {P : Primitive → Rule → Prop}

theorem all_empty : empty.All P := by
  rintro operator arity rule ⟨⟩

theorem All.insert {r : Registry} (h : r.All P) (operator : Primitive) (arity : Arity)
    {rule : Rule} (holds : P operator rule) : (r.insert operator arity rule).All P := by
  intro other arity' rule' found
  replace found : (r.rules.insert operator (arity, rule)).find? other = some (arity', rule') := found
  rw [Table.find?_insert] at found
  split at found
  · rename_i heq
    cases found
    exact heq ▸ holds
  · exact h other arity' rule' found

theorem All.insertAll {r : Registry} (h : r.All P) (operators : List Primitive) (arity : Arity)
    {rule : Rule} (holds : ∀ operator ∈ operators, P operator rule) :
    (r.insertAll operators arity rule).All P := by
  rw [Registry.insertAll]
  induction operators generalizing r with
  | nil => exact h
  | cons operator rest ih =>
    rw [List.forall_mem_cons] at holds
    exact ih (h.insert operator arity holds.1) holds.2

/-- A registry of rules that ask about nothing but their arguments. -/
abbrev Stays (r : Registry) : Prop :=
  r.All fun _ rule => rule.Stays

theorem stays_common : Rule.common.Stays :=
  all_empty
    |>.insert _ _ Rule.stays_ifElse
    |>.insert _ _ Rule.stays_switch
    |>.insert _ _ Rule.stays_partially
    |>.insertAll _ _ (fun _ _ => Rule.stays_passThrough)
    |>.insert _ _ Rule.stays_resolve

end Registry

end ArrayInference
