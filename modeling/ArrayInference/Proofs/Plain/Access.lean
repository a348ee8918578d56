import ArrayInference.Proofs.Plain.Similar

/-!
# Asking for properties of the same things

Whatever a rule asks of a reference it learns the same of another one that is the same. What it
learns is data in most cases, and then the two answers are equal.
-/

namespace ArrayInference

/-- Results that are equal. -/
def Equal {α : Type} (_ : World) (a a₀ : α) : Prop :=
  a₀ = a

/-- Values that are equal, and have no graph generator in them. -/
structure SameValue (_ : World) (v v₀ : Value) : Prop where
  eq : v₀ = v
  free : ∀ c, v = .known c → c.isMetaFree = true

/-- Constants that are equal, and have no graph generator in them. -/
structure SameConstant (_ : World) (c c₀ : Constant) : Prop where
  eq : c₀ = c
  free : c.isMetaFree = true

section

variable {w : World} {p p₀ : Property}

theorem SameProperty.toType_eq (h : SameProperty w p p₀) : p₀.toType = p.toType := by
  cases h with
  | inferrer same =>
    rw [Property.toType, Property.toType, (SameProperty.inferrer same).text_eq]
    · simp
    · simp
  | _ => rfl

theorem SameProperty.toShape_eq (h : SameProperty w p p₀) : p₀.toShape = p.toShape := by
  cases h with
  | inferrer same =>
    rw [Property.toShape, Property.toShape, (SameProperty.inferrer same).text_eq]
    · simp
    · simp
  | _ => rfl

theorem SameProperty.toElement (h : SameProperty w p p₀) (track : Track) :
    SameOutcome w (p.toElement track) (p₀.toElement track) := by
  cases track with
  | value => exact .ok .anything
  | type =>
    rw [Property.toElement, Property.toElement, h.toType_eq]
    cases p.toType with
    | error e => exact .error e
    | ok t =>
      simp only [bind, Except.bind]
      cases t.element? with
      | none => exact .error _
      | some e => exact .ok (.type e)
  | shape =>
    rw [Property.toElement, Property.toElement, h.toShape_eq]
    cases p.toShape with
    | error e => exact .error e
    | ok s =>
      show SameOutcome w (s.toElement >>= _) (s.toElement >>= _)
      cases s.toElement with
      | error e => exact .error e
      | ok s => exact .ok (.shape s)

end

section

variable {α β : Type} {w : World} {x x₀ : Ref}

/-- Similar computations with equal results, one after the other. -/
theorem Similar.seqEqual {S : World → β → β → Prop} {b b₀ : Infer α} {f f₀ : α → Infer β}
    (h : Similar Equal w b b₀)
    (h' : ∀ {v : World}, w.Le v → ∀ a : α, Similar S v (f a) (f₀ a)) :
    Similar S w (b >>= f) (b₀ >>= f₀) := by
  refine h.seq ?_
  intro v le a a₀ same
  rw [show a₀ = a from same]
  exact h' le a

theorem similar_ofExcept (r : Except InferError α) :
    Similar Equal w (Infer.ofExcept r) (Infer.ofExcept r) := by
  cases r with
  | ok a => exact .done rfl
  | error e => exact .fail e

theorem similar_ofOutcome {r r₀ : Outcome} (h : SameOutcome w r r₀) :
    Similar SameProperty w (Infer.ofExcept r) (Infer.ofExcept r₀) := by
  cases h with
  | ok same => exact .done same
  | error e => exact .fail e

theorem similar_describe (h : SameRef w x x₀) :
    Similar Equal w (Infer.describe x) (Infer.describe x₀) :=
  .describe h fun _ => .done rfl

theorem similar_note (reason : Diagnostic.Reason) (subject subject₀ : Option String) :
    Similar Equal w (Infer.note reason subject) (Infer.note reason subject₀) :=
  .note (.done rfl)

theorem similar_intern {make : Interning Ty} (steady : make.Steady) :
    Similar Equal w (Infer.intern make) (Infer.intern make) :=
  .intern steady fun _ => .done rfl

theorem similar_entry {r r₀ : NodeRef} (h : SameNode w r r₀) (track : Track) :
    Similar SameProperty w (Infer.entry r track) (Infer.entry r₀ track) :=
  .demand (.mk track h) fun _ _ _ same => .done same

theorem similar_toInferrer {p p₀ : Property} (h : SameProperty w p p₀) :
    Similar SameInferrer w (Infer.ofExcept p.toInferrer) (Infer.ofExcept p₀.toInferrer) := by
  cases h with
  | inferrer same => exact .done same
  | _ => exact .fail _

theorem similar_asType {p p₀ : Property} (h : SameProperty w p p₀) :
    Similar Equal w (Infer.asType p) (Infer.asType p₀) := by
  cases h with
  | inferrer same => exact similar_intern (Interning.steady_intern _)
  | anything => exact similar_ofExcept (Property.toType (.value .anything))
  | known free => exact similar_ofExcept (Property.toType (.value (.known _)))
  | type t => exact similar_ofExcept (Property.toType (.type t))
  | shape s => exact similar_ofExcept (Property.toType (.shape s))

theorem similar_typeProperty (h : SameRef w x x₀) :
    Similar SameProperty w (Infer.typeProperty x) (Infer.typeProperty x₀) := by
  induction h with
  | node same => exact similar_entry same .type
  | @virtual p p₀ same =>
    have htype := same.type
    rw [Infer.typeProperty, Infer.typeProperty]
    generalize p.type = q at htype ⊢
    generalize p₀.type = q₀ at htype ⊢
    cases htype with
    | some known => exact .done known
    | none => exact (similar_describe (.virtual same)).seqEqual fun _ _ => .fail _
  | element _ ih => exact ih.seq fun _ _ _ same => similar_ofOutcome (same.toElement .type)

theorem similar_typeOf (h : SameRef w x x₀) : Similar Equal w (Infer.typeOf x) (Infer.typeOf x₀) :=
  (similar_typeProperty h).seq fun _ _ _ same => similar_asType same

theorem similar_default (track : Track) (h : SameRef w x x₀) :
    Similar SameProperty w (Infer.default track x) (Infer.default track x₀) := by
  cases track with
  | value => exact .done .anything
  | type => exact (similar_describe h).seqEqual fun _ _ => .fail _
  | shape =>
    refine (similar_typeOf h).seqEqual fun _ t => ?_
    exact (similar_ofExcept _).seqEqual fun _ s => .done (.shape s)

theorem similar_get (h : SameRef w x x₀) (track : Track) :
    Similar SameProperty w (Infer.get x track) (Infer.get x₀ track) := by
  induction h with
  | node same => exact similar_entry same track
  | @virtual p p₀ same =>
    have hget := same.get? track
    rw [Infer.get, Infer.get]
    generalize p.get? track = q at hget ⊢
    generalize p₀.get? track = q₀ at hget ⊢
    cases hget with
    | some known => exact .done known
    | none => exact similar_default track (.virtual same)
  | element _ ih => exact ih.seq fun _ _ _ same => similar_ofOutcome (same.toElement track)

theorem similar_valueOf (h : SameRef w x x₀) :
    Similar SameValue w (Infer.valueOf x) (Infer.valueOf x₀) := by
  refine (similar_get h .value).seq fun _ _ _ same => ?_
  cases same with
  | anything => exact .done ⟨rfl, by simp⟩
  | known free => exact .done ⟨rfl, fun c hc => by cases hc; exact free⟩
  | inferrer same => exact .done ⟨rfl, by simp⟩
  | type t => exact .fail _
  | shape s => exact .fail _

theorem similar_shapeOf (h : SameRef w x x₀) :
    Similar Equal w (Infer.shapeOf x) (Infer.shapeOf x₀) := by
  refine (similar_get h .shape).seq fun _ _ _ same => ?_
  cases same with
  | inferrer same => exact .done rfl
  | anything => exact similar_ofExcept (Property.toShape (.value .anything))
  | known free => exact similar_ofExcept (Property.toShape (.value (.known _)))
  | type t => exact similar_ofExcept (Property.toShape (.type t))
  | shape s => exact similar_ofExcept (Property.toShape (.shape s))

theorem similar_inferrerOf (h : SameRef w x x₀) (track : Track) :
    Similar SameInferrer w (Infer.inferrerOf x track) (Infer.inferrerOf x₀ track) :=
  (similar_get h track).seq fun _ _ _ same => similar_toInferrer same

theorem similar_constantOf (h : SameRef w x x₀) (what : String) :
    Similar SameConstant w (Infer.constantOf x what) (Infer.constantOf x₀ what) := by
  refine (similar_valueOf h).seq fun _ v v₀ same => ?_
  rw [same.eq]
  have free := same.free
  cases v with
  | known c => exact .done ⟨rfl, free c rfl⟩
  | anything => exact .fail _

theorem similar_argProps (h : SameRef w x x₀) :
    Similar SameArgs w (Infer.argProps x) (Infer.argProps x₀) := by
  refine (similar_get h .value).seq fun le _ _ value => ?_
  refine (similar_get (h.mono le) .type).seq fun le' _ _ type => ?_
  refine (similar_get (h.mono (le.trans le')) .shape).seq fun le'' _ _ shape => ?_
  exact .done ⟨value.mono (le'.trans le''), type.mono le'', shape⟩

/-- The property of a constant that stands in a context. -/
theorem similar_ofConstant {value : Constant} (free : value.isMetaFree = true) {ctx ctx₀ : Context}
    (h : SameContext w ctx ctx₀) (track : Track) :
    Similar SameProperty w (.ask (.constant value ctx track) Infer.ofExcept)
      (.ask (.constant value ctx₀ track) Infer.ofExcept) :=
  .constant free h fun _ _ _ same => similar_ofOutcome same

theorem similar_constant {value : Constant} (free : value.isMetaFree = true) (track : Track) :
    Similar SameProperty w (Infer.constant value track) (Infer.constant value track) :=
  similar_ofConstant free .empty track

theorem similar_graphInferrer (track : Track) (graph : GraphId) {ctx ctx₀ : Context}
    (h : SameContext w ctx ctx₀) :
    Similar SameInferrer w (Infer.graphInferrer track graph ctx)
      (Infer.graphInferrer track graph ctx₀) :=
  .graphInferrer h fun _ _ _ same => .done same

theorem similar_bindArguments {f f₀ : Inferrer} (h : SameInferrer w f f₀) {args args₀ : List Ref}
    (passed : List.Forall₂ (SameRef w) args args₀) :
    Similar SameProperty w (Infer.bindArguments f args) (Infer.bindArguments f₀ args₀) :=
  .binds h passed fun _ _ _ same => .done (.inferrer same)

theorem similar_callInferrer {f f₀ : Inferrer} (h : SameInferrer w f f₀) {args args₀ : List Ref}
    (passed : List.Forall₂ (SameRef w) args args₀) :
    Similar SameProperty w (Infer.callInferrer f args) (Infer.callInferrer f₀ args₀) :=
  .call h passed fun _ _ _ same => .done same

/-- The same computation on every reference of two lists. -/
theorem similar_mapM {R : World → α → α → Prop} {f f₀ : Ref → Infer α}
    (mono : ∀ {v w : World} {a a₀ : α}, R w a a₀ → w.Le v → R v a a₀)
    (h : ∀ {w : World} {x x₀ : Ref}, SameRef w x x₀ → Similar R w (f x) (f₀ x₀))
    {xs xs₀ : List Ref} (same : List.Forall₂ (SameRef w) xs xs₀) :
    Similar (fun w => List.Forall₂ (R w)) w (xs.mapM f) (xs₀.mapM f₀) := by
  induction xs generalizing w xs₀ with
  | nil =>
    cases same
    rw [List.mapM_nil]
    exact .done .nil
  | cons x xs ih =>
    cases same with
    | cons first rest =>
      rw [List.mapM_cons, List.mapM_cons]
      refine (h first).seq fun le _ _ ha => ?_
      refine (ih (sameRefs_mono rest le)).seq fun le' _ _ has => ?_
      exact .done (.cons (mono ha le') has)

/-- The same with equal results. -/
theorem similar_mapM_equal {f f₀ : Ref → Infer α}
    (h : ∀ {w : World} {x x₀ : Ref}, SameRef w x x₀ → Similar Equal w (f x) (f₀ x₀))
    {xs xs₀ : List Ref} (same : List.Forall₂ (SameRef w) xs xs₀) :
    Similar Equal w (xs.mapM f) (xs₀.mapM f₀) := by
  induction xs generalizing w xs₀ with
  | nil =>
    cases same
    rw [List.mapM_nil]
    exact .done rfl
  | cons x xs ih =>
    cases same with
    | cons first rest =>
      rw [List.mapM_cons, List.mapM_cons]
      refine (h first).seqEqual fun le a => ?_
      exact (ih (sameRefs_mono rest le)).seqEqual fun _ as => .done rfl

end

end ArrayInference
