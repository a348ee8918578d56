import ArrayInference.Infer.Call
import ArrayInference.Proofs.Infer.Monad
import ArrayInference.Proofs.Lockstep.Mentions

/-!
# Parallel computations

Two computations run in parallel if they ask the same questions of references to the same things
and, whatever the answers, go on in parallel. Which nodes are the same is left open here; everything
else that they know is equal, and the graphs that it mentions are of one kind.
-/

namespace ArrayInference

/-- References to the same thing. -/
inductive Ref.Pairs (N : NodeRef → NodeRef → Prop) (V : GraphId → Prop) : Ref → Ref → Prop where
  | node {r r' : NodeRef} (same : N r r') : Pairs N V (.node r) (.node r')
  | virtual {props : VirtualProps} (own : props.Within V) :
      Pairs N V (.virtual props) (.virtual props)
  | element {x x' : Ref} (same : Pairs N V x x') : Pairs N V (.element x) (.element x')

/-- Questions about the same things, and how their answers are related. How a node is named is
nobody's business. -/
inductive Query.Pairs (N : NodeRef → NodeRef → Prop) (V : GraphId → Prop) :
    (q q' : Query) → (q.Answer → q'.Answer → Prop) → Prop where
  | describe {x x' : Ref} (same : x.Pairs N V x') :
      Pairs N V (.describe x) (.describe x') fun a a' => x.node? = none → a' = a
  | note (d d' : Diagnostic) : Pairs N V (.note d) (.note d') fun _ _ => True
  | intern {make : Interning Ty} (own : ∀ cache, (make.run cache).1.Within V) :
      Pairs N V (.intern make) (.intern make) fun (t t' : Ty) => t' = t ∧ t.Within V
  | constant {value : Constant} (own : value.Within V) (track : Track) :
      Pairs N V (.constant value .empty track) (.constant value .empty track)
        fun (r r' : Outcome) => r' = r ∧ ∀ p, r = .ok p → p.Within V
  | graphInferrer (track : Track) {g : GraphId} (own : V g) :
      Pairs N V (.graphInferrer track g .empty) (.graphInferrer track g .empty) fun f f' => f' = f
  | bind (f : Inferrer) {args args' : List Ref} (same : List.Forall₂ (Ref.Pairs N V) args args') :
      Pairs N V (.bind f args) (.bind f args') fun g g' => g' = g
  | scalarShape : Pairs N V .scalarShape .scalarShape fun f f' => f' = f
  | anything : Pairs N V .anything .anything fun f f' => f' = f

/-- All graphs in a value have a property. -/
def Value.Within (V : GraphId → Prop) : Value → Prop
  | known c => c.Within V
  | anything => True

namespace Infer

variable {α β γ : Type} {N : NodeRef → NodeRef → Prop} {V : GraphId → Prop} {P : α → Prop}
  {Q : β → Prop}

/-- Computations that run in parallel, with what is known of the result. -/
inductive Parallel (N : NodeRef → NodeRef → Prop) (V : GraphId → Prop) {α : Type} (P : α → Prop) :
    Infer α → Infer α → Prop where
  | done {a : α} (own : P a) : Parallel N V P (.done a) (.done a)
  | fail (e : InferError) : Parallel N V P (.fail e) (.fail e)
  | forever : Parallel N V P .forever .forever
  | ask {q q' : Query} {R : q.Answer → q'.Answer → Prop} {next : q.Answer → Infer α}
      {next' : q'.Answer → Infer α} (same : q.Pairs N V q' R)
      (later : ∀ a a', R a a' → Parallel N V P (next a) (next' a')) :
      Parallel N V P (.ask q next) (.ask q' next')
  | demand {r r' : NodeRef} {track : Track} {next next' : Property → Infer α} (same : N r r')
      (later : ∀ p, p.Within V → Parallel N V P (next p) (next' p)) :
      Parallel N V P (.demand ⟨r, track⟩ next) (.demand ⟨r', track⟩ next')
  | call {f : Inferrer} {args args' : List Ref} {next next' : Property → Infer α}
      (same : List.Forall₂ (Ref.Pairs N V) args args')
      (later : ∀ p, p.Within V → Parallel N V P (next p) (next' p)) :
      Parallel N V P (.call f args next) (.call f args' next')
  | unify {track : Track} {use : BranchUse} {x x' y y' : Ref} {next next' : Property → Infer α}
      (same : x.Pairs N V x') (same' : y.Pairs N V y')
      (later : ∀ p, p.Within V → Parallel N V P (next p) (next' p)) :
      Parallel N V P (.unify track use x y next) (.unify track use x' y' next')

theorem Parallel.bind {b b' : Infer α} {f f' : α → Infer β} (h : Parallel N V P b b')
    (h' : ∀ a, P a → Parallel N V Q (f a) (f' a)) : Parallel N V Q (b.bind f) (b'.bind f') := by
  induction h with
  | done own => exact h' _ own
  | fail e => exact .fail e
  | forever => exact .forever
  | ask same _ ih => exact .ask same ih
  | demand same _ ih => exact .demand same ih
  | call same _ ih => exact .call same ih
  | unify same same' _ ih => exact .unify same same' ih

/-- One computation after the other. -/
theorem Parallel.seq {b b' : Infer α} {f f' : α → Infer β} (h : Parallel N V P b b')
    (h' : ∀ a, P a → Parallel N V Q (f a) (f' a)) : Parallel N V Q (b >>= f) (b' >>= f') :=
  h.bind h'

theorem parallel_ofExcept {r : Except InferError α} (own : ∀ a, r = .ok a → P a) :
    Parallel N V P (ofExcept r) (ofExcept r) := by
  cases r with
  | ok a => exact .done (own a rfl)
  | error e => exact .fail e

/-- A result of which nothing is known. -/
theorem parallel_ofExcept_true (r : Except InferError α) :
    Parallel N V (fun _ => True) (ofExcept r) (ofExcept r) :=
  parallel_ofExcept fun _ _ => trivial

variable {x x' y y' z z' : Ref} {xs xs' : List Ref}

/-- A note about a reference. -/
theorem parallel_noted (reason : Diagnostic.Reason) (same : x.Pairs N V x') {b b' : Infer α}
    (h : Parallel N V P b b') :
    Parallel N V P (describe x >>= fun d => note reason (some d) >>= fun _ => b)
      (describe x' >>= fun d => note reason (some d) >>= fun _ => b') :=
  .ask (.describe same) fun _ _ _ => .ask (.note _ _) fun _ _ _ => h

theorem parallel_intern {make : Interning Ty} (own : ∀ cache, (make.run cache).1.Within V) :
    Parallel N V (Ty.Within V) (intern make) (intern make) :=
  .ask (.intern own) fun t t' h => by
    obtain ⟨rfl, ht⟩ := h
    exact .done ht

theorem parallel_constant {value : Constant} (own : value.Within V) (track : Track) :
    Parallel N V (Property.Within V) (constant value track) (constant value track) :=
  .ask (.constant own track) fun r r' h => by
    obtain ⟨rfl, hr⟩ := h
    exact parallel_ofExcept hr

theorem parallel_graphInferrer (track : Track) {g : GraphId} (own : V g) :
    Parallel N V (fun _ => True) (graphInferrer track g .empty) (graphInferrer track g .empty) :=
  .ask (.graphInferrer track own) fun f f' h => by
    obtain rfl : f' = f := h
    exact .done trivial

theorem parallel_bindArguments (f : Inferrer) (same : List.Forall₂ (Ref.Pairs N V) xs xs') :
    Parallel N V (Property.Within V) (bindArguments f xs) (bindArguments f xs') :=
  .ask (.bind f same) fun g g' h => by
    obtain rfl : g' = g := h
    exact .done (within_inferrer _)

theorem parallel_callInferrer (f : Inferrer) (same : List.Forall₂ (Ref.Pairs N V) xs xs') :
    Parallel N V (Property.Within V) (callInferrer f xs) (callInferrer f xs') :=
  .call same fun _ own => .done own

theorem parallel_asType {p : Property} (own : p.Within V) :
    Parallel N V (Ty.Within V) (asType p) (asType p) := by
  cases p with
  | inferrer f => exact parallel_intern fun _ => forall_mem_of_eq_nil rfl
  | type t => exact .done own
  | value v => exact .fail _
  | shape s => exact .fail _

theorem parallel_typeProperty (same : x.Pairs N V x') :
    Parallel N V (Property.Within V) (typeProperty x) (typeProperty x') := by
  induction same with
  | node same => exact .demand same fun _ own => .done own
  | @virtual props own =>
    rw [typeProperty]
    split
    · rename_i p hp
      exact .done (own.type p hp)
    · refine .ask (.describe (.virtual own)) fun a a' h => ?_
      rw [h rfl]
      exact .fail _
  | element _ ih =>
    exact ih.seq fun _ own => parallel_ofExcept fun _ => Property.Within.toElement own

theorem parallel_typeOf (same : x.Pairs N V x') :
    Parallel N V (Ty.Within V) (typeOf x) (typeOf x') :=
  (parallel_typeProperty same).seq fun _ => parallel_asType

/-- What is assumed of an argument. -/
theorem parallel_default {props : VirtualProps} (own : props.Within V) (track : Track) :
    Parallel N V (Property.Within V) (default track (.virtual props))
      (default track (.virtual props)) := by
  cases track with
  | value => exact .done (forall_mem_of_eq_nil rfl)
  | type =>
    refine .ask (.describe (.virtual own)) fun a a' h => ?_
    rw [h rfl]
    exact .fail _
  | shape =>
    refine (parallel_typeOf (.virtual own)).seq fun t _ => ?_
    exact (parallel_ofExcept_true _).seq fun s _ => .done (forall_mem_of_eq_nil rfl)

theorem parallel_get (same : x.Pairs N V x') (track : Track) :
    Parallel N V (Property.Within V) (get x track) (get x' track) := by
  induction same with
  | node same => exact .demand same fun _ own => .done own
  | virtual own =>
    rw [get]
    split
    · rename_i p hp
      exact .done (own.get? hp)
    · exact parallel_default own track
  | element _ ih =>
    exact ih.seq fun _ own => parallel_ofExcept fun _ => Property.Within.toElement own

theorem parallel_valueOf (same : x.Pairs N V x') :
    Parallel N V (Value.Within V) (valueOf x) (valueOf x') := by
  refine (parallel_get same .value).seq fun p own => parallel_ofExcept fun v hv => ?_
  cases p with
  | value w =>
    cases hv
    cases v with
    | known c => exact own
    | anything => trivial
  | inferrer f =>
    cases hv
    trivial
  | _ => cases hv

theorem parallel_shapeOf (same : x.Pairs N V x') :
    Parallel N V (fun _ => True) (shapeOf x) (shapeOf x') := by
  refine (parallel_get same .shape).seq fun p _ => ?_
  cases p with
  | inferrer f => exact .done trivial
  | _ => exact parallel_ofExcept_true _

theorem parallel_inferrerOf (same : x.Pairs N V x') (track : Track) :
    Parallel N V (fun _ => True) (inferrerOf x track) (inferrerOf x' track) :=
  (parallel_get same track).seq fun _ _ => parallel_ofExcept_true _

theorem parallel_constantOf (same : x.Pairs N V x') (what : String) :
    Parallel N V (Constant.Within V) (constantOf x what) (constantOf x' what) := by
  refine (parallel_valueOf same).seq fun v own => ?_
  cases v with
  | known c => exact .done own
  | anything => exact .fail _

theorem parallel_argProps (same : x.Pairs N V x') :
    Parallel N V (ArgProps.Within V) (argProps x) (argProps x') :=
  (parallel_get same .value).seq fun _ value => (parallel_get same .type).seq fun _ type =>
    (parallel_get same .shape).seq fun _ shape => .done ⟨value, type, shape⟩

/-- The same computation on references to the same things. -/
theorem parallel_mapM {f : Ref → Infer α}
    (h : ∀ {x x' : Ref}, x.Pairs N V x' → Parallel N V P (f x) (f x'))
    (same : List.Forall₂ (Ref.Pairs N V) xs xs') :
    Parallel N V (fun as => as.length = xs.length ∧ ∀ a ∈ as, P a) (xs.mapM f) (xs'.mapM f) := by
  induction same with
  | nil =>
    rw [List.mapM_nil]
    exact .done (by simp)
  | cons first _ ih =>
    rw [List.mapM_cons, List.mapM_cons]
    refine (h first).seq fun a ha => ih.seq fun as has => .done ⟨congrArg Nat.succ has.1, ?_⟩
    exact List.forall_mem_cons.mpr ⟨ha, has.2⟩

/-- The elements of the same containers. -/
theorem pairs_elements (same : List.Forall₂ (Ref.Pairs N V) xs xs') :
    List.Forall₂ (Ref.Pairs N V) (xs.map .element) (xs'.map .element) := by
  rw [List.forall₂_map_left_iff, List.forall₂_map_right_iff]
  exact same.imp fun _ _ => .element

theorem parallel_access (how : Access) (track : Track) (same : x.Pairs N V x')
    (same' : y.Pairs N V y') :
    Parallel N V (Property.Within V) (access how track x y) (access how track x' y') := by
  refine (parallel_valueOf same').seq fun v _ => ?_
  cases v with
  | anything => exact .fail _
  | known name =>
    refine (parallel_typeOf same).seq fun t own => ?_
    cases hmethod : methodOf? t name with
    | some method =>
      dsimp only
      exact (parallel_graphInferrer track (within_methodOf? own hmethod)).seq fun f _ =>
        parallel_bindArguments f (.cons same .nil)
    | none =>
      dsimp only
      refine (parallel_valueOf same).seq fun v own => ?_
      cases v with
      | anything => exact .fail _
      | known value =>
        cases hfound : how.find? value name with
        | none =>
          simp only [hfound]
          exact .fail _
        | some found =>
          simp only [hfound]
          exact parallel_constant (Access.within_find? own hfound) track

theorem parallel_recordAttribute (same : x.Pairs N V x') (same' : y.Pairs N V y') :
    Parallel N V (fun _ => True) (recordAttribute x y) (recordAttribute x' y') := by
  refine (parallel_typeOf same).seq fun t _ => ?_
  cases t.class? with
  | none => exact .done trivial
  | some c =>
    refine (parallel_constantOf same' _).seq fun name _ => ?_
    cases name.str? with
    | none => exact .fail _
    | some name => exact .done trivial

theorem parallel_branch (track : Track) (use : BranchUse) (same : x.Pairs N V x') :
    Parallel N V (Property.Within V) (branch track use x) (branch track use x') := by
  refine (parallel_get same track).seq fun p own => ?_
  cases use with
  | select => exact .done own
  | call => exact (parallel_ofExcept_true _).seq fun f _ => parallel_callInferrer f .nil

/-- A conditional, of which the branches that may be taken have to be the same. -/
theorem parallel_conditional (use : BranchUse) (track : Track) (same : x.Pairs N V x')
    (same' : y.Pairs N V y') (same'' : z.Pairs N V z') :
    Parallel N V (Property.Within V) (conditional use track x y z)
      (conditional use track x' y' z') := by
  refine (parallel_valueOf same).seq fun v _ => ?_
  cases v with
  | anything =>
    cases track with
    | value => exact .done (forall_mem_of_eq_nil rfl)
    | _ => exact .unify same' same'' fun _ own => .done own
  | known c =>
    cases c with
    | bool taken =>
      refine parallel_noted _ same ?_
      cases taken
      · exact parallel_branch track use same''
      · exact parallel_branch track use same'
    | _ => exact .fail _

end Infer

end ArrayInference
