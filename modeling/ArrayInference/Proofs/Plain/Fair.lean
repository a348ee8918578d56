import ArrayInference.Proofs.Plain.Access
import ArrayInference.Proofs.Table
import ArrayInference.Rules.Control

/-!
# Fair rules

A rule is fair if it does the same on arguments that are the same, whatever the numbers of their
inferrers. This is shown here for the rules that all tracks share; the rules of each track follow.
-/

namespace ArrayInference

/-- A rule that does the same on the same arguments. -/
def Rule.Fair (rule : Rule) : Prop :=
  ∀ (w : World) (track : Track) (args args₀ : List Ref), List.Forall₂ (SameRef w) args args₀ →
    Similar SameProperty w (rule track args) (rule track args₀)

/-- Constants, if there are any, that are equal and have no graph generator in them. -/
structure SameConstants (_ : World) (cs cs₀ : Option (List Constant)) : Prop where
  eq : cs₀ = cs
  free : ∀ xs, cs = some xs → Constant.areMetaFree xs = true

namespace Similar

variable {α β : Type} {S : World → β → β → Prop} {w : World}

/-- A value and what is done with it. -/
theorem seqValue {b b₀ : Infer Value} {f f₀ : Value → Infer β} (h : Similar SameValue w b b₀)
    (unknown : ∀ {v : World}, w.Le v → Similar S v (f .anything) (f₀ .anything))
    (known : ∀ {v : World}, w.Le v → ∀ c : Constant, c.isMetaFree = true →
      Similar S v (f (.known c)) (f₀ (.known c))) : Similar S w (b >>= f) (b₀ >>= f₀) := by
  refine h.seq fun le x x₀ same => ?_
  rw [same.eq]
  have free := same.free
  cases x with
  | anything => exact unknown le
  | known c => exact known le c (free c rfl)

/-- A constant and what is done with it. -/
theorem seqConstant {b b₀ : Infer Constant} {f f₀ : Constant → Infer β}
    (h : Similar SameConstant w b b₀)
    (h' : ∀ {v : World}, w.Le v → ∀ c : Constant, c.isMetaFree = true →
      Similar S v (f c) (f₀ c)) : Similar S w (b >>= f) (b₀ >>= f₀) := by
  refine h.seq fun le c c₀ same => ?_
  rw [same.eq]
  exact h' le c same.free

end Similar

section

variable {w : World} {x x₀ y y₀ : Ref}

theorem similar_access (how : Access) (track : Track) (hx : SameRef w x x₀) (hy : SameRef w y y₀) :
    Similar SameProperty w (Infer.access how track x y) (Infer.access how track x₀ y₀) := by
  refine (similar_valueOf hy).seqValue (fun _ => .fail _) fun le name _ => ?_
  refine (similar_typeOf (hx.mono le)).seqEqual fun le' t => ?_
  have hx := hx.mono (le.trans le')
  cases Infer.methodOf? t name with
  | some method =>
    exact (similar_graphInferrer track method .empty).seq fun le _ _ same =>
      similar_bindArguments same (.cons (hx.mono le) .nil)
  | none =>
    refine (similar_valueOf hx).seqValue (fun _ => .fail _) fun _ value free => ?_
    have hfind : ∀ found, how.find? value name = some found → found.isMetaFree = true := by
      intro found hfound
      cases how with
      | named =>
        obtain ⟨s, -, hs⟩ := Option.bind_eq_some_iff.mp hfound
        exact Constant.metaFree_attribute? free hs
      | keyed => exact Constant.metaFree_item? free hfound
    cases hfound : how.find? value name with
    | none =>
      simp only [hfound]
      exact .fail _
    | some found =>
      simp only [hfound]
      exact similar_constant (hfind found hfound) track

theorem similar_recordAttribute (hx : SameRef w x x₀) (hy : SameRef w y y₀) :
    Similar Equal w (Infer.recordAttribute x y) (Infer.recordAttribute x₀ y₀) := by
  refine (similar_typeOf hx).seqEqual fun le t => ?_
  cases t.class? with
  | none => exact .done rfl
  | some c =>
    refine (similar_constantOf (hy.mono le) _).seqConstant fun _ name _ => ?_
    cases name.str? with
    | none => exact .fail _
    | some name => exact .done rfl

theorem similar_branch (track : Track) (use : BranchUse) (h : SameRef w x x₀) :
    Similar SameProperty w (Infer.branch track use x) (Infer.branch track use x₀) := by
  refine (similar_get h track).seq fun _ _ _ same => ?_
  cases use with
  | select => exact .done same
  | call => exact (similar_toInferrer same).seq fun _ _ _ hf => similar_callInferrer hf .nil

theorem similar_conditional (use : BranchUse) (track : Track) {c c₀ : Ref} (hc : SameRef w c c₀)
    (hx : SameRef w x x₀) (hy : SameRef w y y₀) :
    Similar SameProperty w (Infer.conditional use track c x y)
      (Infer.conditional use track c₀ x₀ y₀) := by
  refine (similar_valueOf hc).seqValue (fun _ => ?_) fun le value _ => ?_
  · cases track with
    | value => exact .done .anything
    | type => exact .unify _ _ _ _ _ _
    | shape => exact .unify _ _ _ _ _ _
  · cases value with
    | bool taken =>
      refine (similar_describe (hc.mono le)).seqEqual fun le' _ => ?_
      refine (similar_note _ _ _).seqEqual fun le'' _ => ?_
      have le := (le.trans le').trans le''
      cases taken with
      | true => exact similar_branch track use (hx.mono le)
      | false => exact similar_branch track use (hy.mono le)
    | _ => exact .fail _

end

namespace Rule

/-! ## Rules by their number of arguments -/

theorem fair_unary {rule : Track → Ref → Infer Property}
    (h : ∀ {w : World} (track : Track) {x x₀ : Ref}, SameRef w x x₀ →
      Similar SameProperty w (rule track x) (rule track x₀)) : (unary rule).Fair := by
  intro w track args args₀ same
  rcases same with _ | ⟨hx, _ | ⟨hy, rest⟩⟩
  · exact .fail _
  · exact h track hx
  · simp only [unary, List.length_cons, rest.length_eq]
    exact .fail _

theorem fair_binary {rule : Track → Ref → Ref → Infer Property}
    (h : ∀ {w : World} (track : Track) {x x₀ y y₀ : Ref}, SameRef w x x₀ → SameRef w y y₀ →
      Similar SameProperty w (rule track x y) (rule track x₀ y₀)) : (binary rule).Fair := by
  intro w track args args₀ same
  rcases same with _ | ⟨hx, _ | ⟨hy, _ | ⟨hz, rest⟩⟩⟩
  · exact .fail _
  · exact .fail _
  · exact h track hx hy
  · simp only [binary, List.length_cons, rest.length_eq]
    exact .fail _

theorem fair_ternary {rule : Track → Ref → Ref → Ref → Infer Property}
    (h : ∀ {w : World} (track : Track) {x x₀ y y₀ z z₀ : Ref}, SameRef w x x₀ → SameRef w y y₀ →
      SameRef w z z₀ → Similar SameProperty w (rule track x y z) (rule track x₀ y₀ z₀)) :
    (ternary rule).Fair := by
  intro w track args args₀ same
  rcases same with _ | ⟨hx, _ | ⟨hy, _ | ⟨hz, _ | ⟨hu, rest⟩⟩⟩⟩
  · exact .fail _
  · exact .fail _
  · exact .fail _
  · exact h track hx hy hz
  · simp only [ternary, List.length_cons, rest.length_eq]
    exact .fail _

theorem fair_quaternary {rule : Track → Ref → Ref → Ref → Ref → Infer Property}
    (h : ∀ {w : World} (track : Track) {x x₀ y y₀ z z₀ u u₀ : Ref}, SameRef w x x₀ →
      SameRef w y y₀ → SameRef w z z₀ → SameRef w u u₀ →
      Similar SameProperty w (rule track x y z u) (rule track x₀ y₀ z₀ u₀)) :
    (quaternary rule).Fair := by
  intro w track args args₀ same
  rcases same with _ | ⟨hx, _ | ⟨hy, _ | ⟨hz, _ | ⟨hu, _ | ⟨hv, rest⟩⟩⟩⟩⟩
  · exact .fail _
  · exact .fail _
  · exact .fail _
  · exact .fail _
  · exact h track hx hy hz hu
  · simp only [quaternary, List.length_cons, rest.length_eq]
    exact .fail _

theorem fair_variadic (missing : String) {rule : Track → Ref → List Ref → Infer Property}
    (h : ∀ {w : World} (track : Track) {x x₀ : Ref} {rest rest₀ : List Ref}, SameRef w x x₀ →
      List.Forall₂ (SameRef w) rest rest₀ →
      Similar SameProperty w (rule track x rest) (rule track x₀ rest₀)) :
    (variadic missing rule).Fair := by
  intro w track args args₀ same
  cases same with
  | nil => exact .fail _
  | cons hx rest => exact h track hx rest

/-! ## The rules of all tracks -/

theorem fair_passThrough : passThrough.Fair :=
  fair_unary fun track _ _ hx => similar_get hx track

theorem fair_partially : partially.Fair :=
  fair_variadic _ fun track _ _ _ _ hf rest =>
    (similar_inferrerOf hf track).seq fun le _ _ same =>
      similar_bindArguments same (sameRefs_mono rest le)

theorem fair_ifElse : ifElse.Fair :=
  fair_ternary fun track _ _ _ _ _ _ hc hx hy => similar_conditional .call track hc hx hy

theorem fair_switch : switch.Fair :=
  fair_ternary fun track _ _ _ _ _ _ hc hx hy => similar_conditional .select track hc hx hy

theorem fair_resolve : resolve.Fair :=
  fair_binary fun track _ _ _ _ hx hy => similar_access .keyed track hx hy

end Rule

namespace Registry

/-- A registry of fair rules. -/
def Fair (r : Registry) : Prop :=
  ∀ operator arity rule, r.get? operator = some (arity, rule) → rule.Fair

theorem fair_empty : empty.Fair :=
  fun _ _ _ found => nomatch found

theorem Fair.insert {r : Registry} (h : r.Fair) (operator : Primitive) (arity : Arity) {rule : Rule}
    (fair : rule.Fair) : (r.insert operator arity rule).Fair := by
  intro other arity' rule' found
  replace found : (r.rules.insert operator (arity, rule)).find? other = some (arity', rule') := found
  rw [Table.find?_insert] at found
  split at found
  · cases found
    exact fair
  · exact h other arity' rule' found

theorem Fair.insertAll {r : Registry} (h : r.Fair) (operators : List Primitive) (arity : Arity)
    {rule : Rule} (fair : rule.Fair) : (r.insertAll operators arity rule).Fair := by
  rw [Registry.insertAll]
  induction operators generalizing r with
  | nil => exact h
  | cons operator rest ih => exact ih (h.insert operator arity fair)

theorem fair_common : Rule.common.Fair :=
  fair_empty
    |>.insert _ _ Rule.fair_ifElse
    |>.insert _ _ Rule.fair_switch
    |>.insert _ _ Rule.fair_partially
    |>.insertAll _ _ Rule.fair_passThrough
    |>.insert _ _ Rule.fair_resolve

end Registry

end ArrayInference
