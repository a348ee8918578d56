import ArrayInference.Proofs.Plain.Fair

/-!
# Similar calls and nodes

A call of a graph and the property of a node are similar to themselves, in contexts that are the same
and on arguments that are the same.
-/

namespace ArrayInference

section

variable {w : World}

theorem similar_locate (node : NodeId) {ctx ctx₀ : Context} (h : SameContext w ctx ctx₀) :
    Similar SameNode w (.ask (.locate node ctx) .done) (.ask (.locate node ctx₀) .done) :=
  .locate h fun _ _ _ same => .done same

theorem similar_graph (id : GraphId) :
    Similar Equal w (.ask (.graph id) .done) (.ask (.graph id) .done) :=
  .graph fun _ => .done rfl

/-- The entrance into a context leaves no choice but to be in it. -/
theorem similar_specialize (graph : GraphId) {ctx ctx₀ : Context} {args args₀ : List ArgProps}
    (outside : SameContext w ctx ctx₀) (same : List.Forall₂ (SameArgs w) args args₀) :
    Similar (fun v _ _ => SameContext v (ctx.extend graph args) (ctx₀.extend graph args₀)) w
      (.ask (.specialize graph (ctx.extend graph args)) Infer.ofExcept)
      (.ask (.specialize graph (ctx₀.extend graph args₀)) Infer.ofExcept) :=
  .specialize outside same (fun _ => rfl) fun _ entered => .done entered

theorem similar_callGraph (track : Track) (id : GraphId) {ctx ctx₀ : Context}
    (h : SameContext w ctx ctx₀) {args args₀ : List Ref} (passed : List.Forall₂ (SameRef w) args args₀) :
    Similar SameProperty w (Callable.callGraph track id ctx args)
      (Callable.callGraph track id ctx₀ args₀) := by
  refine (similar_graph id).seqEqual fun le g => ?_
  show Similar SameProperty _ (if _ then _ else _) (if _ then _ else _)
  rw [passed.length_eq]
  split
  · exact .fail _
  · refine (similar_mapM (R := SameArgs) (fun ha le => ha.mono le) similar_argProps
      (sameRefs_mono passed le)).seq fun le' props props₀ same => ?_
    refine (similar_specialize id (h.mono (le.trans le')) same).seq fun _ _ _ entered => ?_
    cases g.output with
    | none => exact .fail _
    | some output => exact (similar_locate output entered).seq fun _ _ _ hr => similar_entry hr track

theorem similar_locates (args : List NodeId) {ctx ctx₀ : Context} (h : SameContext w ctx ctx₀) :
    Similar (fun w => List.Forall₂ (SameRef w)) w
      (args.mapM fun arg => Infer.ask (.locate arg ctx) fun a => .done (Ref.node a))
      (args.mapM fun arg => Infer.ask (.locate arg ctx₀) fun a => .done (Ref.node a)) := by
  induction args generalizing w with
  | nil =>
    rw [List.mapM_nil, List.mapM_nil]
    exact .done .nil
  | cons arg args ih =>
    rw [List.mapM_cons, List.mapM_cons]
    have first : Similar SameRef w (.ask (.locate arg ctx) fun a => .done (Ref.node a))
        (.ask (.locate arg ctx₀) fun a => .done (Ref.node a)) :=
      .locate h fun _ _ _ same => .done (.node same)
    refine first.seq fun le _ _ hx => ?_
    refine (ih (h.mono le)).seq fun le' _ _ hxs => ?_
    exact .done (.cons (hx.mono le') hxs)

/-- The property of a node. -/
theorem similar_infer {r r₀ : NodeRef} (h : SameNode w r r₀) (track : Track) :
    Similar SameProperty w (r.infer track) (r₀.infer track) := by
  obtain ⟨hctx⟩ := h
  rename_i id ctx ctx₀
  refine .node fun node free => ?_
  obtain ⟨kind, owner, name⟩ := node
  cases kind with
  | constant value => exact similar_ofConstant (free value rfl) hctx track
  | parameter graph index =>
    have harg := hctx.argument? graph index track
    dsimp only [Infer.bind]
    generalize ctx.argument? graph index track = p at harg ⊢
    generalize ctx₀.argument? graph index track = p₀ at harg ⊢
    cases harg with
    | some same => exact .done same
    | none =>
      refine (similar_graph graph).seqEqual fun _ g => ?_
      rw [hctx.text_eq]
      exact .fail _
  | apply inputs =>
    cases inputs with
    | nil => exact .fail _
    | cons callee args =>
      refine (similar_locate callee hctx).seq fun le _ _ hcallee => ?_
      refine (similar_inferrerOf (.node hcallee) track).seq fun le' _ _ hf => ?_
      refine (similar_locates args (hctx.mono (le.trans le'))).seq fun le'' _ _ hargs => ?_
      exact similar_callInferrer (hf.mono le'') hargs

end

end ArrayInference
