import ArrayInference.Constant.Classify

/-!
# What all computations that make types share

Types are made step by step: a type is entered, a tag is given out, and one step goes after the other. The
types that are entered are generic types, numbers of a legal width, and whatever else is no number. So a
property of the steps is one of all computations that make types, that of the type of a constant among
them. The induction is here, once for all properties.
-/

namespace ArrayInference

/-- The width of a number type is one of the legal ones. -/
def Ty.HasLegalWidth : Ty → Prop
  | int _ bits | uint _ bits => bits ∈ integerWidths
  | float _ bits => bits ∈ floatWidths
  | _ => True

namespace Interning

/-- A property that holds of the steps of which types are made. -/
structure Stepwise (Q : (α : Type) → Interning α → Prop) : Prop where
  pure : ∀ {α : Type} (a : α), Q α (pure a)
  bind : ∀ {α β : Type} {make : Interning α} {f : α → Interning β}, Q α make → (∀ a, Q β (f a)) →
    Q β (make >>= f)
  intern : ∀ {make : CacheId → Ty}, (∀ home, (make home).HasLegalWidth) → Q Ty (intern make)
  declaredTag : ∀ (name : String) (host : ObjectId), Q ClassTag (declaredTag name host)

namespace Stepwise

variable {Q : (α : Type) → Interning α → Prop} {α β ε : Type}

/-! ## Computations that may fail -/

theorem tryBind (steps : Stepwise Q) {make : ExceptT ε Interning α} {f : α → ExceptT ε Interning β}
    (h : Q _ make.run) (h' : ∀ a, Q _ (f a).run) : Q _ (make >>= f).run := by
  rw [ExceptT.run_bind]
  apply steps.bind h
  intro r
  cases r with
  | ok a => exact h' a
  | error e => exact steps.pure _

theorem lift (steps : Stepwise Q) {make : Interning α} (h : Q _ make) :
    Q _ (ExceptT.lift make : ExceptT ε Interning α).run := by
  rw [ExceptT.run_lift]
  exact steps.bind h fun _ => steps.pure _

theorem tryCatch (steps : Stepwise Q) {make : ExceptT ε Interning α} {f : ε → ExceptT ε Interning α}
    (h : Q _ make.run) (h' : ∀ e, Q _ (f e).run) : Q _ (tryCatch make f).run := by
  rw [ExceptT.run_tryCatch]
  apply steps.bind h
  intro r
  cases r with
  | ok a => exact steps.pure _
  | error e => exact h' e

theorem succeed (steps : Stepwise Q) (a : α) : Q _ (Pure.pure a : ExceptT ε Interning α).run :=
  steps.pure _

theorem throw (steps : Stepwise Q) (e : ε) : Q _ (throw e : ExceptT ε Interning α).run :=
  steps.pure _

/-! ## Types -/

theorem generic (steps : Stepwise Q) (family : Family) : Q _ (generic family) :=
  steps.intern fun _ => trivial

theorem tuple (steps : Stepwise Q) (elements : List Ty) : Q _ (tuple elements) :=
  steps.intern fun _ => trivial

theorem list (steps : Stepwise Q) (element : Ty) : Q _ (list element) :=
  steps.intern fun _ => trivial

theorem array (steps : Stepwise Q) (element : Ty) : Q _ (array element) :=
  steps.intern fun _ => trivial

theorem function (steps : Stepwise Q) (params : List Ty) (result : Ty) : Q _ (function params result) :=
  steps.intern fun _ => trivial

theorem external (steps : Stepwise Q) (host : String) : Q _ (external host) :=
  steps.intern fun _ => trivial

theorem record (steps : Stepwise Q) (tag : ClassTag) (attributes : List (String × Ty))
    (methods : List (String × GraphId)) : Q _ (record tag attributes methods) :=
  steps.intern fun _ => trivial

theorem declaredType (steps : Stepwise Q) (c : RecordClass) : Q _ (declaredType c) :=
  steps.bind (steps.declaredTag _ _) fun _ => steps.record _ _ _

theorem checkedWidth (steps : Stepwise Q) {legal : List Nat} {width : Nat} {make : CacheId → Ty}
    (sound : width ∈ legal → ∀ home, (make home).HasLegalWidth) (family : Family) :
    Q _ (checkedWidth legal family width make).run := by
  rw [Interning.checkedWidth]
  split
  · exact steps.lift (steps.intern (sound ‹_›))
  · exact steps.throw _

theorem instantiate (steps : Stepwise Q) (g : Ty) (params : TypeParams) :
    Q _ (instantiate g params).run := by
  rw [instantiate.eq_def]
  split
  · exact steps.throw _
  · split
    case h_5 => exact steps.checkedWidth (fun legal _ => legal) .int
    case h_6 => exact steps.checkedWidth (fun legal _ => legal) .uint
    case h_7 => exact steps.checkedWidth (fun legal _ => legal) .float
    case h_8 => exact steps.lift (steps.tuple _)
    case h_9 => exact steps.lift (steps.list _)
    case h_10 => exact steps.lift (steps.array _)
    case h_11 => exact steps.lift (steps.record _ _ _)
    case h_12 => exact steps.lift (steps.function _ _)
    case h_13 => exact steps.lift (steps.external _)
    all_goals exact steps.throw _

theorem int (steps : Stepwise Q) (width : Nat) : Q _ (int width).run :=
  steps.tryBind (steps.lift (steps.generic _)) fun _ => steps.instantiate _ _

theorem uint (steps : Stepwise Q) (width : Nat) : Q _ (uint width).run :=
  steps.tryBind (steps.lift (steps.generic _)) fun _ => steps.instantiate _ _

theorem float (steps : Stepwise Q) (width : Nat) : Q _ (float width).run :=
  steps.tryBind (steps.lift (steps.generic _)) fun _ => steps.instantiate _ _

theorem numberType (steps : Stepwise Q) (family : Family) (width : Nat) :
    Q _ (numberType family width).run := by
  rw [numberType.eq_def]
  split
  · exact steps.uint width
  · exact steps.int width
  · exact steps.float width

theorem ofDtype (steps : Stepwise Q) (name : String) : Q _ (ofDtype name).run := by
  rw [Interning.ofDtype]
  split
  · exact steps.lift (steps.generic _)
  · cases dtypeParts? name with
    | none => exact steps.throw _
    | some pair =>
      obtain ⟨family, rest⟩ := pair
      simp only []
      cases width? rest with
      | none => exact steps.throw _
      | some width => exact steps.tryCatch (steps.numberType family width) fun _ => steps.throw _

/-! ## Types of constants -/

mutual

theorem typeOfConstant (steps : Stepwise Q) (c : Constant) : Q _ (typeOfConstant c).run :=
  match c with
  | .bool _ => steps.lift (steps.generic _)
  | .int _ => steps.int 64
  | .float _ => steps.float 64
  | .str _ => steps.lift (steps.external _)
  | .tuple items =>
      steps.tryBind (steps.typesOfConstants items) fun _ => steps.lift (steps.tuple _)
  | .list [] => steps.tryBind (steps.lift (steps.generic _)) fun _ => steps.lift (steps.list _)
  | .list (first :: rest) =>
      steps.tryBind (steps.typeOfConstant first) fun element =>
        steps.tryBind (steps.requireElements element rest) fun _ => steps.lift (steps.list _)
  | .array value => steps.tryBind (steps.ofDtype value.dtype) fun _ => steps.lift (steps.array _)
  | .record c values => by
      rw [Interning.typeOfConstant]
      split
      · exact steps.pure _
      · exact steps.tryBind (steps.typesOfConstants values) fun _ =>
          steps.tryBind (steps.lift (steps.declaredTag _ _)) fun _ =>
            steps.lift (steps.record _ _ _)
  | .recordType c => steps.lift (steps.declaredType c)
  | .type _ => steps.lift (steps.generic _)
  | .primitive _ => steps.lift (steps.generic _)
  | .graph _ => steps.lift (steps.generic _)
  | .metaGraph _ => steps.lift (steps.generic _)
  | .symbols .. => steps.lift (steps.external _)
  | .host .. => steps.lift (steps.external _)

theorem typesOfConstants (steps : Stepwise Q) (cs : List Constant) : Q _ (typesOfConstants cs).run :=
  match cs with
  | [] => steps.succeed _
  | c :: cs =>
      steps.tryBind (steps.typeOfConstant c) fun _ =>
        steps.tryBind (steps.typesOfConstants cs) fun _ => steps.succeed _

theorem requireElements (steps : Stepwise Q) (element : Ty) (cs : List Constant) :
    Q _ (requireElements element cs).run :=
  match cs with
  | [] => steps.succeed _
  | c :: cs => by
      rw [Interning.requireElements]
      apply steps.tryBind (steps.typeOfConstant c)
      intro other
      dsimp only
      split
      · exact steps.pure _
      · exact steps.requireElements element cs

end

end Stepwise

end Interning

end ArrayInference
