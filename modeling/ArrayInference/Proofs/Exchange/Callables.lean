import ArrayInference.Proofs.Exchange.Blind
import ArrayInference.Proofs.Engine.Inferrers

/-!
# Calls do not look at nodes

With the built-in rules no call asks for a node, whatever an engine has been asked before. The
computation of a node asks for that node, first of all, and for no other one.
-/

namespace ArrayInference

open Infer

namespace Callable

/-- Something whose calls ask for no node. -/
def Blind (c : Callable) : Prop :=
  ∀ args, (c.body args).Blind

theorem blind_callGraph (track : Track) (id : GraphId) (ctx : Context) (args : List Ref) :
    (callGraph track id ctx args).Blind := by
  refine .seq (.ask (by simp) .done) fun g => ?_
  split
  · exact .fail _
  · refine (blind_mapM (fun x => (stays_argProps (P := fun _ => True) trivial).blind) args).seq
      fun props => ?_
    refine .seq (.ask (by simp) fun r => (stays_ofExcept (P := fun _ => True) r).blind) fun _ => ?_
    split
    · exact .fail _
    · exact .seq (.ask (by simp) .done) fun r => .demand .done

/-- Only a registered rule could ask for a node. -/
theorem blind_of_rule {c : Callable}
    (rules : ∀ track operator arity rule, c = .primitive track operator arity rule → rule.Stays) :
    c.Blind := by
  intro args
  cases c with
  | scalarShape => exact .done _
  | anything => exact .done _
  | primitive track operator arity rule =>
    rw [body]
    split
    · exact (rules track operator arity rule rfl (fun _ => True) track args (by simp)).blind
    · exact .fail _
  | graph track id ctx => exact blind_callGraph track id ctx args
  | metaGraph track generator =>
    exact (stays_callGenerator (P := fun _ => True) track generator (by simp)).blind
  | bound inner first => exact .call .done

end Callable

namespace Engine

/-- An engine with the built-in rules: an inferrer of an operator applies the operator's rule, and the
one that is kept for an operator with a rule is such an inferrer. -/
structure Standard (e : Engine) : Prop where
  rules : e.rules = .builtin
  callables : ∀ {i : Nat} {track : Track} {operator : Primitive} {arity : Arity} {rule : Rule},
    e.callables[i]? = some (.primitive track operator arity rule) →
      (Registries.builtin.get track).get? operator = some (arity, rule)
  kept : ∀ {track : Track} {operator : Primitive} {arity : Arity} {rule : Rule} {f : Inferrer},
    (Registries.builtin.get track).get? operator = some (arity, rule) →
    e.inferrers.find? { track, callee := .primitive operator, ctx := .empty } = some f →
      e.callable? f = some (.primitive track operator arity rule)

theorem standard_new (program : Program) (types : TypeCache) (config : Config) :
    (Engine.new program types config).Standard where
  rules := rfl
  callables := by
    intro i track operator arity rule found
    have hmem : Callable.primitive track operator arity rule ∈ [Callable.anything, .scalarShape] :=
      Array.mem_toList_iff.mpr (Array.mem_of_getElem? found)
    simp at hmem
  kept := by rintro track operator arity rule f - ⟨⟩

namespace Standard

variable {e f : Engine}

/-- No call asks for a node. -/
theorem blind (h : e.Standard) {i : Nat} {c : Callable} (found : e.callables[i]? = some c) :
    c.Blind := by
  refine Callable.blind_of_rule fun track operator arity rule heq => ?_
  subst heq
  exact Registries.stays_builtin track _ _ _ (h.callables found)

theorem congr (h : e.Standard) (rules : f.rules = e.rules) (callables : f.callables = e.callables)
    (inferrers : f.inferrers = e.inferrers) : f.Standard where
  rules := rules.trans h.rules
  callables := fun found => h.callables (callables ▸ found)
  kept := by
    intro track operator arity rule g known found
    rw [callable?, callables]
    exact h.kept known (inferrers ▸ found)

/-- A new inferrer, which is not one of an operator or applies the operator's rule. -/
theorem push (h : e.Standard) {c : Callable}
    (rule : ∀ track operator arity rule, c = .primitive track operator arity rule →
      (Registries.builtin.get track).get? operator = some (arity, rule)) :
    Standard { e with callables := e.callables.push c } where
  rules := h.rules
  callables := by
    intro i track operator arity rule' found
    replace found : (e.callables.push c)[i]? = some _ := found
    rw [Array.getElem?_push] at found
    split at found
    · exact rule _ _ _ _ (Option.some.inj found)
    · exact h.callables found
  kept := fun known found => Program.getElem?_push_of_some (h.kept known found)

/-- An inferrer is kept under another key, or it applies the rule. -/
theorem insert (h : e.Standard) (key : InferrerKey) (g : Inferrer)
    (applies : ∀ track operator arity rule,
      key = { track, callee := .primitive operator, ctx := .empty } →
      (Registries.builtin.get track).get? operator = some (arity, rule) →
        e.callable? g = some (.primitive track operator arity rule)) :
    Standard { e with inferrers := e.inferrers.insert key g } where
  rules := h.rules
  callables := h.callables
  kept := by
    intro track operator arity rule f known found
    replace found : (e.inferrers.insert key g).find? _ = some f := found
    rw [Table.find?_insert] at found
    split at found
    · rename_i heq
      cases found
      exact applies track operator arity rule heq known
    · exact h.kept known found

end Standard

instance : Std.Refl fun e f : Engine => e.Standard → f.Standard :=
  ⟨fun _ h => h⟩

instance : IsTrans Engine fun e f => e.Standard → f.Standard :=
  ⟨fun _ _ _ h h' he => h' (h he)⟩

end Engine

namespace EngineM

variable {α : Type}

/-- A computation that keeps an engine with the built-in rules one. -/
abbrev KeepsStandard (m : EngineM α) : Prop :=
  m.Leaves fun e f => e.Standard → f.Standard

theorem keepsStandard_newInferrer {c : Callable}
    (other : ∀ track operator arity rule, c ≠ .primitive track operator arity rule) :
    KeepsStandard (newInferrer c) :=
  fun _ h => h.push fun _ _ _ _ heq => absurd heq (other _ _ _ _)

theorem keepsStandard_interning {β : Type} (make : Interning β) : KeepsStandard (interning make) :=
  fun _ h => h.congr rfl rfl rfl

theorem keepsStandard_note (d : Diagnostic) : KeepsStandard (note d) :=
  fun _ h => h.congr rfl rfl rfl

theorem keepsStandard_cached {key : InferrerKey} (other : ∀ operator, key.callee ≠ .primitive operator)
    {make : ExceptT InferError EngineM Inferrer} (h : KeepsStandard make.run) :
    KeepsStandard (cached key make).run := by
  intro e he
  rw [cached_run]
  cases e.inferrers.find? key with
  | some f => exact he
  | none =>
    have hmake := h e he
    rcases hout : make.run.run e with ⟨r, e'⟩
    rw [hout] at hmake
    cases r with
    | ok f => exact hmake.insert key f fun _ operator _ _ heq => absurd (by rw [heq]) (other operator)
    | error err => exact hmake

/-- The inferrer of an operator applies its rule. -/
def Applies (track : Track) (operator : Primitive) (out : Except InferError Inferrer × Engine) : Prop :=
  out.2.Standard ∧ ∀ f, out.1 = .ok f → ∀ arity rule,
    (Registries.builtin.get track).get? operator = some (arity, rule) →
      out.2.callable? f = some (.primitive track operator arity rule)

/-- What is done with an engine that was looked at is done with that engine. -/
theorem applies_get {track : Track} {operator : Primitive} {e : Engine}
    {k : Engine → ExceptT InferError EngineM Inferrer} (h : Applies track operator ((k e).run.run e)) :
    Applies track operator (((get : ExceptT InferError EngineM Engine) >>= k).run.run e) :=
  h

theorem applies_cached {track : Track} {operator : Primitive} {e : Engine} (he : e.Standard)
    {make : ExceptT InferError EngineM Inferrer} (h : Applies track operator (make.run.run e)) :
    Applies track operator
      ((cached { track, callee := .primitive operator, ctx := .empty } make).run.run e) := by
  rw [cached_run]
  cases found : e.inferrers.find? { track, callee := .primitive operator, ctx := .empty } with
  | some f =>
    refine ⟨he, fun g hg arity rule known => ?_⟩
    cases hg
    exact he.kept known found
  | none =>
    rcases hout : make.run.run e with ⟨r, e'⟩
    rw [hout] at h
    cases r with
    | error err => exact h
    | ok f =>
      refine ⟨h.1.insert _ f fun _ _ arity rule heq known => ?_, h.2⟩
      cases heq
      exact h.2 f rfl arity rule known

theorem applies_primitiveInferrer {e : Engine} (he : e.Standard) (operator : Primitive)
    (track : Track) : Applies track operator ((primitiveInferrer operator track).run.run e) := by
  refine applies_cached he (applies_get ?_)
  cases found : (e.rules.get track).get? operator with
  | some pair =>
    rw [he.rules] at found
    refine ⟨he.push fun _ _ _ _ heq => ?_, fun f hf arity rule known => ?_⟩
    · cases heq
      exact found
    · cases hf
      rw [found] at known
      cases known
      exact Array.getElem?_push_size
  | none =>
    rw [he.rules] at found
    have later : KeepsStandard (ExceptT.run (ExceptT.mk (pure (fallback track operator)) >>= fun f =>
        ExceptT.lift (note { reason := .fallback operator.name track, subject := none }) >>=
          fun _ => pure f)) :=
      Leaves.tryBind (Leaves.pure _) fun f =>
        Leaves.tryBind (Leaves.lift (keepsStandard_note _)) fun _ => Leaves.pure _
    refine ⟨later e he, fun f _ arity rule known => ?_⟩
    rw [found] at known
    cases known

theorem keepsStandard_primitiveInferrer (operator : Primitive) (track : Track) :
    KeepsStandard (primitiveInferrer operator track).run :=
  fun _ he => (applies_primitiveInferrer he operator track).1

theorem keepsStandard_graphInferrer (track : Track) (graph : GraphId) (ctx : Context) :
    KeepsStandard (graphInferrer track graph ctx) := by
  intro e he
  rw [graphInferrer_run]
  cases e.inferrers.find? { track, callee := .graph graph, ctx } with
  | some f => exact he
  | none =>
    have hpush := he.push (c := .graph track graph ctx) fun _ _ _ _ heq => by cases heq
    exact hpush.insert _ _ fun _ _ _ _ heq => by cases heq

theorem keepsStandard_dataProperty (track : Track) (value : Constant) :
    KeepsStandard (dataProperty track value).run := by
  cases track with
  | value => exact Leaves.pure _
  | type =>
    refine Leaves.tryBind (Leaves.lift (keepsStandard_interning _)) fun r => ?_
    cases r with
    | ok t => exact Leaves.pure _
    | error e => exact Leaves.pure _
  | shape => exact Leaves.tryBind (Leaves.pure _) fun s => Leaves.pure _

theorem keepsStandard_classInferrer (c : RecordClass) (track : Track) :
    KeepsStandard (classInferrer c track).run := by
  refine keepsStandard_cached (fun _ => by rintro ⟨⟩)
    (Leaves.tryBind (keepsStandard_primitiveInferrer _ _) fun make => ?_)
  refine Leaves.tryBind (Leaves.lift (keepsStandard_interning _)) fun declared => ?_
  refine Leaves.tryBind (Leaves.lift (keepsStandard_interning _)) fun type => ?_
  exact Leaves.lift (keepsStandard_newInferrer (by simp))

theorem keepsStandard_constantProperty (value : Constant) (ctx : Context) (track : Track) :
    KeepsStandard (constantProperty value ctx track).run := by
  cases value with
  | primitive operator =>
    exact Leaves.tryBind (keepsStandard_primitiveInferrer _ _) fun _ => Leaves.pure _
  | graph g =>
    exact Leaves.tryBind (Leaves.lift (keepsStandard_graphInferrer _ _ _)) fun _ => Leaves.pure _
  | metaGraph m =>
    refine Leaves.tryBind (keepsStandard_cached (fun _ => by rintro ⟨⟩) ?_) fun _ => Leaves.pure _
    exact Leaves.lift (keepsStandard_newInferrer (by simp))
  | recordType c => exact Leaves.tryBind (keepsStandard_classInferrer c track) fun _ => Leaves.pure _
  | _ => exact keepsStandard_dataProperty track _

theorem keepsStandard_generate (generator : MetaGraph) (types : List Ty) :
    KeepsStandard (generate generator types).run := by
  intro e he
  rw [generate_run]
  cases e.generated.find? { generator, types } with
  | some g => exact he
  | none =>
    cases generator.generate e.program types with
    | error error => exact he
    | ok pair => exact he.congr rfl rfl rfl

theorem keepsStandard_specialize (graph : GraphId) (ctx : Context) :
    KeepsStandard (specialize graph ctx).run := by
  intro e he
  rw [specialize_run]
  split
  · exact he
  · split
    · exact he.congr rfl rfl rfl
    · exact he.congr rfl rfl rfl

theorem keepsStandard_answer (query : Query) : KeepsStandard (answer query) := by
  cases query with
  | describe subject => exact Leaves.get.bind fun _ => Leaves.pure _
  | note d => exact keepsStandard_note d
  | intern make => exact keepsStandard_interning make
  | constant value ctx track => exact keepsStandard_constantProperty value ctx track
  | graphInferrer track graph ctx => exact keepsStandard_graphInferrer track graph ctx
  | bind inner bound => exact keepsStandard_newInferrer (by simp)
  | scalarShape => exact keepsStandard_newInferrer (by simp)
  | anything => exact keepsStandard_newInferrer (by simp)
  | generate generator types => exact keepsStandard_generate generator types
  | specialize graph ctx => exact keepsStandard_specialize graph ctx
  | locate node ctx => exact Leaves.get.bind fun _ => Leaves.pure _
  | node id => exact Leaves.get.bind fun _ => Leaves.pure _
  | graph id => exact Leaves.get.bind fun _ => Leaves.pure _

end EngineM

theorem Engine.Follows.standard {e f : Engine} (h : e.Follows f) (standard : e.Standard) : f.Standard :=
  Follows.invariant Engine.Standard (fun query he => EngineM.keepsStandard_answer query _ he)
    (fun _ _ _ he => Engine.Standard.congr he rfl rfl rfl) h standard

namespace NodeRef

/-- The property of a reference whose node is known. -/
def inferAs (r : NodeRef) (track : Track) (n : Node) : Infer Property := do
  match n.kind with
  | .constant value => Infer.ask (.constant value r.ctx track) Infer.ofExcept
  | .parameter id index =>
    match r.ctx.argument? id index track with
    | some p => .done p
    | none => do
        let g ← Infer.ask (.graph id) .done
        .fail (.inference
          ("parameter " ++ toString index ++ " of '" ++ g.name ++ "' is not bound in "
            ++ r.ctx.text))
  | .apply [] => .fail (.inference "application without a callee")
  | .apply (callee :: args) => do
      let calleeRef ← Infer.ask (.locate callee r.ctx) .done
      let f ← Infer.inferrerOf (.node calleeRef) track
      let argRefs ← args.mapM fun arg => Infer.ask (.locate arg r.ctx) fun a => .done (Ref.node a)
      Infer.callInferrer f argRefs

/-- The computation of a node asks for it, and then goes on from what it is. -/
theorem infer_eq (r : NodeRef) (track : Track) :
    r.infer track = .ask (.node r.node) (r.inferAs track) := rfl

theorem blind_inferAs (r : NodeRef) (track : Track) (n : Node) : (r.inferAs track n).Blind := by
  rw [inferAs]
  split
  · exact .ask (by simp) fun r => (stays_ofExcept (P := fun _ => True) r).blind
  · split
    · exact .done _
    · exact .seq (.ask (by simp) .done) fun g => .fail _
  · exact .fail _
  · refine .seq (.ask (by simp) .done) fun callee => ?_
    refine (stays_inferrerOf (P := fun _ => True) track trivial).blind.seq fun f => ?_
    refine (blind_mapM (fun arg => ?_) _).seq fun args => .call .done
    exact .ask (by simp) fun a => .done _

end NodeRef

end ArrayInference
