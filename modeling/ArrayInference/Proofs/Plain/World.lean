import ArrayInference.Infer.Call
import ArrayInference.Proofs.Plain.MetaFree
import Mathlib.Data.List.Forall2

/-!
# Readings of inferrers

An engine numbers its inferrers in the order in which it makes them, so two of them may stand for the
same thing. A reading gives each of these numbers one inferrer of another numbering. What an engine
deals in is then the same as what the other numbering has in its place: two properties, contexts or
references are the same if they agree in everything but in inferrers, and each inferrer is read as the
other one.

A world is what is known of an engine at some time: the inferrers made so far with their reading, and
the contexts that were entered. It only grows, and what is the same stays so.
-/

namespace ArrayInference

/-- What is known of an engine at some time. -/
structure World where
  callables : Array Callable
  contexts : GraphId → List Context
  reading : Nat → Inferrer

namespace World

/-- A later world. -/
structure Le (w v : World) : Prop where
  callables : ∀ {i : Nat} {c : Callable}, w.callables[i]? = some c → v.callables[i]? = some c
  contexts : ∀ {g : GraphId} {ctx : Context}, ctx ∈ w.contexts g → ctx ∈ v.contexts g
  reading : ∀ {i : Nat} {c : Callable}, w.callables[i]? = some c → v.reading i = w.reading i

theorem Le.refl (w : World) : w.Le w :=
  ⟨fun h => h, fun h => h, fun _ => rfl⟩

theorem Le.trans {u v w : World} (h : u.Le v) (h' : v.Le w) : u.Le w where
  callables := fun hc => h'.callables (h.callables hc)
  contexts := fun hc => h'.contexts (h.contexts hc)
  reading := fun hc => (h'.reading (h.callables hc)).trans (h.reading hc)

end World

/-- An inferrer is known and read as another one. -/
structure SameInferrer (w : World) (f f₀ : Inferrer) : Prop where
  known : ∃ c, w.callables[f.id]? = some c
  read : w.reading f.id = f₀
  form : f₀.form = f.form

/-- Two properties agree. -/
inductive SameProperty (w : World) : Property → Property → Prop where
  | anything : SameProperty w (.value .anything) (.value .anything)
  | known {c : Constant} (free : c.isMetaFree = true) :
      SameProperty w (.value (.known c)) (.value (.known c))
  | type (t : Ty) : SameProperty w (.type t) (.type t)
  | shape (s : Shape) : SameProperty w (.shape s) (.shape s)
  | inferrer {f f₀ : Inferrer} (same : SameInferrer w f f₀) :
      SameProperty w (.inferrer f) (.inferrer f₀)

/-- Two outcomes agree. -/
inductive SameOutcome (w : World) : Outcome → Outcome → Prop where
  | ok {p p₀ : Property} (same : SameProperty w p p₀) : SameOutcome w (.ok p) (.ok p₀)
  | error (e : InferError) : SameOutcome w (.error e) (.error e)

/-- The properties of two arguments agree. -/
structure SameArgs (w : World) (a a₀ : ArgProps) : Prop where
  value : SameProperty w a.value a₀.value
  type : SameProperty w a.type a₀.type
  shape : SameProperty w a.shape a₀.shape

/-- Two contexts agree, and all frames of the first one were entered. -/
inductive SameContext (w : World) : Context → Context → Prop where
  | empty : SameContext w .empty .empty
  | frame {parent parent₀ : Context} {graph : GraphId} {args args₀ : List ArgProps}
      (outside : SameContext w parent parent₀) (same : List.Forall₂ (SameArgs w) args args₀)
      (entered : .frame parent graph args ∈ w.contexts graph) :
      SameContext w (.frame parent graph args) (.frame parent₀ graph args₀)

/-- Two nodes in contexts agree. -/
inductive SameNode (w : World) : NodeRef → NodeRef → Prop where
  | mk {node : NodeId} {ctx ctx₀ : Context} (same : SameContext w ctx ctx₀) :
      SameNode w ⟨node, ctx⟩ ⟨node, ctx₀⟩

/-- Two entries agree. -/
inductive SameEntry (w : World) : Entry → Entry → Prop where
  | mk {r r₀ : NodeRef} (track : Track) (same : SameNode w r r₀) :
      SameEntry w ⟨r, track⟩ ⟨r₀, track⟩

/-- Properties given from outside agree. -/
structure SameVirtual (w : World) (p p₀ : VirtualProps) : Prop where
  value : Option.Rel (SameProperty w) p.value p₀.value
  type : Option.Rel (SameProperty w) p.type p₀.type
  shape : Option.Rel (SameProperty w) p.shape p₀.shape

/-- Two references agree. -/
inductive SameRef (w : World) : Ref → Ref → Prop where
  | node {r r₀ : NodeRef} (same : SameNode w r r₀) : SameRef w (.node r) (.node r₀)
  | virtual {p p₀ : VirtualProps} (same : SameVirtual w p p₀) :
      SameRef w (.virtual p) (.virtual p₀)
  | element {x x₀ : Ref} (same : SameRef w x x₀) : SameRef w (.element x) (.element x₀)

/-! ## Later worlds -/

section

variable {v w : World}

theorem SameInferrer.mono {f f₀ : Inferrer} (h : SameInferrer w f f₀) (le : w.Le v) :
    SameInferrer v f f₀ := by
  obtain ⟨⟨c, hc⟩, hread, hform⟩ := h
  exact ⟨⟨c, le.callables hc⟩, (le.reading hc).trans hread, hform⟩

theorem SameProperty.mono {p p₀ : Property} (h : SameProperty w p p₀) (le : w.Le v) :
    SameProperty v p p₀ := by
  cases h with
  | anything => exact .anything
  | known free => exact .known free
  | type t => exact .type t
  | shape s => exact .shape s
  | inferrer same => exact .inferrer (same.mono le)

theorem SameOutcome.mono {r r₀ : Outcome} (h : SameOutcome w r r₀) (le : w.Le v) :
    SameOutcome v r r₀ := by
  cases h with
  | ok same => exact .ok (same.mono le)
  | error e => exact .error e

theorem SameArgs.mono {a a₀ : ArgProps} (h : SameArgs w a a₀) (le : w.Le v) : SameArgs v a a₀ :=
  ⟨h.value.mono le, h.type.mono le, h.shape.mono le⟩

theorem SameContext.mono {c c₀ : Context} (h : SameContext w c c₀) (le : w.Le v) :
    SameContext v c c₀ := by
  induction h with
  | empty => exact .empty
  | frame outside same entered ih =>
    exact .frame ih (same.imp fun _ _ ha => ha.mono le) (le.contexts entered)

theorem SameNode.mono {r r₀ : NodeRef} (h : SameNode w r r₀) (le : w.Le v) : SameNode v r r₀ := by
  cases h with
  | mk same => exact .mk (same.mono le)

theorem SameEntry.mono {k k₀ : Entry} (h : SameEntry w k k₀) (le : w.Le v) : SameEntry v k k₀ := by
  cases h with
  | mk track same => exact .mk track (same.mono le)

theorem Option.Rel.property_mono {p p₀ : Option Property}
    (h : Option.Rel (SameProperty w) p p₀) (le : w.Le v) : Option.Rel (SameProperty v) p p₀ := by
  cases h with
  | some same => exact .some (same.mono le)
  | none => exact .none

theorem SameVirtual.mono {p p₀ : VirtualProps} (h : SameVirtual w p p₀) (le : w.Le v) :
    SameVirtual v p p₀ :=
  ⟨Option.Rel.property_mono h.value le, Option.Rel.property_mono h.type le,
    Option.Rel.property_mono h.shape le⟩

theorem SameRef.mono {x x₀ : Ref} (h : SameRef w x x₀) (le : w.Le v) : SameRef v x x₀ := by
  induction h with
  | node same => exact .node (same.mono le)
  | virtual same => exact .virtual (same.mono le)
  | element _ ih => exact .element ih

theorem sameRefs_mono {xs xs₀ : List Ref} (h : List.Forall₂ (SameRef w) xs xs₀) (le : w.Le v) :
    List.Forall₂ (SameRef v) xs xs₀ :=
  h.imp fun _ _ hx => hx.mono le

end

/-! ## A thing is read in one way -/

section

variable {w : World}

theorem SameInferrer.unique {f f₀ f₁ : Inferrer} (h : SameInferrer w f f₀)
    (h' : SameInferrer w f f₁) : f₀ = f₁ :=
  h.read.symm.trans h'.read

theorem SameProperty.unique {p p₀ p₁ : Property} (h : SameProperty w p p₀)
    (h' : SameProperty w p p₁) : p₀ = p₁ := by
  cases h with
  | inferrer same =>
    cases h' with
    | inferrer same' => rw [same.unique same']
  | _ => cases h'; rfl

theorem SameArgs.unique {a a₀ a₁ : ArgProps} (h : SameArgs w a a₀) (h' : SameArgs w a a₁) :
    a₀ = a₁ := by
  obtain ⟨value, type, shape⟩ := a₀
  obtain ⟨value', type', shape'⟩ := a₁
  have hvalue := h.value.unique h'.value
  have htype := h.type.unique h'.type
  have hshape := h.shape.unique h'.shape
  simp only at hvalue htype hshape
  rw [hvalue, htype, hshape]

theorem sameArgs_unique {as as₀ as₁ : List ArgProps} (h : List.Forall₂ (SameArgs w) as as₀)
    (h' : List.Forall₂ (SameArgs w) as as₁) : as₀ = as₁ := by
  induction h generalizing as₁ with
  | nil =>
    cases h'
    rfl
  | cons same _ ih =>
    cases h' with
    | cons same' rest' => rw [same.unique same', ih rest']

theorem SameContext.unique {c c₀ c₁ : Context} (h : SameContext w c c₀)
    (h' : SameContext w c c₁) : c₀ = c₁ := by
  induction h generalizing c₁ with
  | empty =>
    cases h'
    rfl
  | frame outside same entered ih =>
    cases h' with
    | frame outside' same' entered' => rw [ih outside', sameArgs_unique same same']

theorem SameEntry.unique {k k₀ k₁ : Entry} (h : SameEntry w k k₀) (h' : SameEntry w k k₁) :
    k₀ = k₁ := by
  obtain ⟨track, ⟨hctx⟩⟩ := h
  obtain ⟨_, ⟨hctx'⟩⟩ := h'
  rw [hctx.unique hctx']

end

/-! ## What agrees in its parts -/

section

variable {w : World}

theorem SameProperty.text_eq {p p₀ : Property} (h : SameProperty w p p₀) : p₀.text = p.text := by
  cases h with
  | inferrer same =>
    show Inferrer.text _ = Inferrer.text _
    rw [Inferrer.text, Inferrer.text, same.form]
  | _ => rfl

theorem SameContext.dropTo {c c₀ : Context} (h : SameContext w c c₀) (graph : GraphId) :
    SameContext w (c.dropTo graph) (c₀.dropTo graph) := by
  induction h with
  | empty => exact .empty
  | @frame parent parent₀ g args args₀ outside same entered ih =>
    rw [Context.dropTo, Context.dropTo]
    split
    · exact .frame outside same entered
    · exact ih

theorem SameContext.filter {c c₀ : Context} (h : SameContext w c c₀) (owner : Option GraphId) :
    SameContext w (c.filter owner) (c₀.filter owner) := by
  cases owner with
  | none => exact .empty
  | some graph => exact h.dropTo graph

theorem SameArgs.get {a a₀ : ArgProps} (h : SameArgs w a a₀) (track : Track) :
    SameProperty w (a.get track) (a₀.get track) := by
  cases track with
  | value => exact h.value
  | type => exact h.type
  | shape => exact h.shape

theorem SameContext.frameArgument? {c c₀ : Context} (h : SameContext w c c₀) (index : Nat)
    (track : Track) :
    Option.Rel (SameProperty w) (c.frameArgument? index track) (c₀.frameArgument? index track) := by
  cases h with
  | empty => exact .none
  | @frame parent parent₀ g args args₀ outside same entered =>
    rw [Context.frameArgument?, Context.frameArgument?]
    clear entered
    induction same generalizing index with
    | nil => exact .none
    | cons first _ ih =>
      cases index with
      | zero => exact .some (first.get track)
      | succ index => exact ih index

theorem SameContext.argument? {c c₀ : Context} (h : SameContext w c c₀) (graph : GraphId)
    (index : Nat) (track : Track) :
    Option.Rel (SameProperty w) (c.argument? graph index track) (c₀.argument? graph index track) :=
  (h.dropTo graph).frameArgument? index track

theorem sameArgs_texts {as as₀ : List ArgProps} (h : List.Forall₂ (SameArgs w) as as₀) :
    as₀.map (fun a => a.type.text) = as.map fun a => a.type.text := by
  induction h with
  | nil => rfl
  | cons same _ ih => rw [List.map_cons, List.map_cons, ih, same.type.text_eq]

theorem SameContext.text_eq {c c₀ : Context} (h : SameContext w c c₀) : c₀.text = c.text := by
  induction h with
  | empty => rfl
  | @frame parent parent₀ g args args₀ outside same entered ih =>
    have hempty : parent₀.isEmpty = parent.isEmpty := by
      cases outside <;> rfl
    rw [Context.text, Context.text, sameArgs_texts same, ih, hempty]

theorem SameVirtual.get? {p p₀ : VirtualProps} (h : SameVirtual w p p₀) (track : Track) :
    Option.Rel (SameProperty w) (p.get? track) (p₀.get? track) := by
  cases track with
  | value => exact h.value
  | type => exact h.type
  | shape => exact h.shape

end

end ArrayInference
