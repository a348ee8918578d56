import ArrayInference.Proofs.Exchange.Callables
import ArrayInference.Proofs.Plain.Transparency
import ArrayInference.Proofs.Run.Attribution

/-!
# Bound arguments

A node that applies `partial`, once or several times, stands for a function with leading arguments. A
call of it passes these on to the function, in front of its own arguments, so what the plain evaluation
finds is what it finds for a direct application. Main statement: in a calm run on a fresh engine, two
applications that come to the same function on the same arguments have the same data, or inferrers of
one form, or they both fail for the same cause, however the arguments are split and nested.
-/

namespace ArrayInference

/-- In a context, a node stands for a function with leading arguments. What is bound is seen from
where it is bound. -/
inductive Program.Binds (p : Program) (ctx : Context) (function : NodeId) :
    NodeId → List NodeId → Prop where
  | itself : Binds p ctx function function []
  | further {node operator inner : NodeId} {xs ys : List NodeId}
      (rest : Binds p ctx function inner xs)
      (application : (p.node node).kind = .apply (operator :: inner :: ys))
      (binds : (p.node operator).kind = .constant (.primitive .applyPartially))
      (seen : ∀ id ∈ inner :: ys, p.locate id (p.locate node ctx).ctx = p.locate id ctx) :
      Binds p ctx function node (xs ++ ys)

namespace Program

/-- The references to nodes from a context. -/
def references (p : Program) (ctx : Context) (ids : List NodeId) : List Ref :=
  ids.map fun id => .node (p.locate id ctx)

theorem references_append (p : Program) (ctx : Context) (xs ys : List NodeId) :
    p.references ctx (xs ++ ys) = p.references ctx xs ++ p.references ctx ys :=
  List.map_append

theorem references_congr {p : Program} {ctx outer : Context} {ids : List NodeId}
    (seen : ∀ id ∈ ids, p.locate id ctx = p.locate id outer) :
    p.references ctx ids = p.references outer ids :=
  List.map_congr_left fun id there => congrArg Ref.node (seen id there)

end Program

/-- Two outcomes match: data is equal, inferrers have one form, errors have one cause. -/
inductive Outcome.Matches : Outcome → Outcome → Prop where
  | data (p : Property) : Matches (.ok p) (.ok p)
  | inferrer {f g : Inferrer} (form : g.form = f.form) :
      Matches (.ok (.inferrer f)) (.ok (.inferrer g))
  | error {e e' : InferError} (cause : e'.cause = e.cause) : Matches (.error e) (.error e')

namespace Plain

variable {P : Plain} {r : Outcome} {key : Entry} {f : Inferrer} {args : List Ref}

/-- A call of the one inferrer that stands for something. -/
theorem callable?_inferrer (i : Identity) : P.callable? (P.names.inferrer i) = P.callable i := by
  rw [callable?, Numbering.inferrer, P.names.meaning_number]
  rfl

/-! ## What was found before a step -/

theorem Finds.of_ask {query : Query} {next : query.Answer → Infer Property}
    (h : P.Finds (.ask query next) r) : ∃ a, P.answer? query = some a ∧ P.Finds (next a) r := by
  obtain ⟨n, h⟩ := h
  cases h with
  | ask known rest => exact ⟨_, known, _, rest⟩

theorem Finds.of_known {query : Query} {next : query.Answer → Infer Property} {a : query.Answer}
    (h : P.Finds (.ask query next) r) (known : P.answer? query = some a) : P.Finds (next a) r := by
  obtain ⟨b, known', rest⟩ := h.of_ask
  rw [known, Option.some.injEq] at known'
  exact known' ▸ rest

theorem Finds.of_call {next : Property → Infer Property} {c : Callable}
    (h : P.Finds (.call f args next) r) (known : P.callable? f = some c) :
    P.Finds ((c.body args).bind next) r := by
  obtain ⟨n, h⟩ := h
  cases h with
  | call known' rest =>
    rw [known, Option.some.injEq] at known'
    exact known' ▸ ⟨_, rest⟩
  | uncallable n unknown =>
    rw [known] at unknown
    cases unknown

theorem Finds.of_demand {next : Property → Infer Property} (h : P.Finds (.demand key next) r) :
    (∃ p, P.FindsEntry key (.ok p) ∧ P.Finds (next p) r)
      ∨ ∃ e, P.FindsEntry key (.error e) ∧ r = .error e := by
  obtain ⟨n, h⟩ := h
  cases h with
  | read entry ok rest => exact .inl ⟨_, ⟨_, ⟨_, entry⟩, ok⟩, _, rest⟩
  | failed entry failed => exact .inr ⟨_, ⟨_, ⟨_, entry⟩, failed⟩, rfl⟩

/-- The inferrer of a node, and what is done with it. -/
theorem Finds.of_inferrerOf {x : NodeRef} {track : Track} {next : Inferrer → Infer Property}
    (h : P.Finds ((Infer.inferrerOf (.node x) track).bind next) r) :
    ∃ v, P.FindsEntry ⟨x, track⟩ v ∧ ((∃ f, v.bind Property.toInferrer = .ok f ∧ P.Finds (next f) r)
      ∨ ∃ e, v.bind Property.toInferrer = .error e ∧ r = .error e) := by
  replace h : P.Finds (.demand ⟨x, track⟩ fun p => (Infer.ofExcept p.toInferrer).bind next) r := h
  rcases h.of_demand with ⟨p, entry, rest⟩ | ⟨e, entry, rfl⟩
  · refine ⟨_, entry, ?_⟩
    cases called : p.toInferrer with
    | ok f =>
      rw [called] at rest
      exact .inl ⟨f, called, rest⟩
    | error e =>
      rw [called] at rest
      obtain ⟨n, rest⟩ := rest
      cases rest
      exact .inr ⟨e, called, rfl⟩
  · exact ⟨_, entry, .inr ⟨e, rfl, rfl⟩⟩

theorem Finds.of_locates {ids : List NodeId} {ctx : Context} {next : List Ref → Infer Property}
    (h : P.Finds ((ids.mapM fun id => Infer.ask (.locate id ctx) fun a => .done (Ref.node a)).bind
      next) r) : P.Finds (next (P.program.references ctx ids)) r := by
  induction ids generalizing next with
  | nil => exact h
  | cons id ids ih =>
    rw [List.mapM_cons] at h
    replace h : P.Finds (.ask (.locate id ctx) fun x => Infer.bind (Infer.bind (ids.mapM _) fun xs =>
      .done (Ref.node x :: xs)) next) r := h
    replace h := h.of_known rfl
    rw [Infer.bind_assoc] at h
    exact ih h

/-! ## Applications -/

/-- The outcome of a call of something that is callable; without a callee there is an error of the same
cause. -/
inductive Calls (P : Plain) (args : List Ref) : Except InferError Inferrer → Outcome → Prop where
  | made {f : Inferrer} {r : Outcome} (finds : P.Finds (Infer.callInferrer f args) r) :
      Calls P args (.ok f) r
  | failed {e e' : InferError} (cause : e'.cause = e.cause) : Calls P args (.error e) (.error e')

theorem Calls.matches {callee : Except InferError Inferrer} {r' : Outcome}
    (h : P.Calls args callee r) (h' : P.Calls args callee r') (node node' : NodeId) :
    Outcome.Matches (Run.attributed node r) (Run.attributed node' r') := by
  cases h with
  | made finds =>
    cases h' with
    | made finds' =>
      cases finds.unique finds'
      cases r with
      | ok p => exact .data p
      | error e => exact .error ((e.cause_attributeTo node').trans (e.cause_attributeTo node).symm)
  | @failed e e₁ cause =>
    cases h' with
    | @failed _ e₂ cause' =>
      refine .error ?_
      rw [InferError.cause_attributeTo, InferError.cause_attributeTo, cause, cause']

/-- What an application finds is what a call of its callee finds. -/
theorem Finds.of_application {node callee : NodeId} {ids : List NodeId} {ctx : Context} {track : Track}
    (h : P.Finds (body ⟨⟨node, ctx⟩, track⟩) r)
    (application : (P.program.node node).kind = .apply (callee :: ids)) :
    ∃ v, P.FindsEntry ⟨P.program.locate callee ctx, track⟩ v
      ∧ P.Calls (P.program.references ctx ids) (v.bind Property.toInferrer) r := by
  rw [body, NodeRef.infer_eq] at h
  replace h : P.Finds (NodeRef.inferAs ⟨node, ctx⟩ track (P.program.node node)) r := h.of_known rfl
  rw [NodeRef.inferAs, application] at h
  replace h := Finds.of_known h rfl
  obtain ⟨v, entry, ⟨f, called, rest⟩ | ⟨e, called, rfl⟩⟩ := h.of_inferrerOf
  · exact ⟨v, entry, called ▸ .made rest.of_locates⟩
  · exact ⟨v, entry, called ▸ .failed rfl⟩

/-! ## Partial applications -/

/-- The first callee does with its arguments, after some others, what the second one does with them
alone; or there is no callee, for the same cause. -/
inductive Forwards (P : Plain) (first : List Ref) :
    Except InferError Inferrer → Except InferError Inferrer → Prop where
  | calls {f g : Inferrer} (passes : ∀ {args : List Ref} {r : Outcome},
      P.Finds (Infer.callInferrer g args) r → P.Finds (Infer.callInferrer f (first ++ args)) r) :
      Forwards P first (.ok f) (.ok g)
  | failed {e e' : InferError} (cause : e'.cause = e.cause) : Forwards P first (.error e) (.error e')

theorem Forwards.calls_of {first : List Ref} {callee callee' : Except InferError Inferrer}
    (h : P.Forwards first callee callee') (h' : P.Calls args callee' r) :
    P.Calls (first ++ args) callee r := by
  cases h with
  | calls passes =>
    cases h' with
    | made finds => exact .made (passes finds)
  | failed cause =>
    cases h' with
    | failed cause' => exact .failed (cause'.trans cause)

/-- One more layer of bound arguments. -/
theorem Forwards.further {first : List Ref} {callee : Except InferError Inferrer}
    (h : P.Forwards first callee (.ok f)) (bound : List Ref) :
    P.Forwards (first ++ bound) callee (.ok (P.names.inferrer (.bound f bound))) := by
  cases h with
  | calls passes =>
    refine .calls fun made => ?_
    replace made := made.of_call (callable?_inferrer _)
    rw [Infer.bind_done] at made
    rw [List.append_assoc]
    exact passes made

theorem Forwards.refused {first later : List Ref} {callee : Except InferError Inferrer} {e : InferError}
    (h : P.Forwards first callee (.error e)) (node : NodeId) :
    P.Forwards later callee (.error (e.attributeTo node)) := by
  cases h with
  | failed cause => exact .failed ((e.cause_attributeTo node).trans cause)

theorem get?_applyPartially (track : Track) :
    (Registries.builtin.get track).get? .applyPartially = some (.atLeast 1, Rule.partially) := by
  cases track <;> rfl

variable {ctx : Context} {function node node' callee callee' : NodeId} {xs xs' ys ys' : List NodeId}
  {track : Track} {v : Outcome}

/-- What a node with an operator has. -/
theorem eq_of_findsEntry_partial (rules : P.rules = .builtin) (h : P.FindsEntry ⟨⟨node, ctx⟩, track⟩ v)
    (operator : (P.program.node node).kind = .constant (.primitive .applyPartially)) :
    v = .ok (.inferrer (P.names.inferrer (.primitive track .applyPartially))) := by
  obtain ⟨r, h, rfl⟩ := h
  rw [body, NodeRef.infer_eq] at h
  replace h : P.Finds (NodeRef.inferAs ⟨node, ctx⟩ track (P.program.node node)) r := h.of_known rfl
  rw [NodeRef.inferAs, operator] at h
  replace h := Finds.of_known h rfl
  have made : P.primitive track .applyPartially
      = .ok (P.names.inferrer (.primitive track .applyPartially)) := by
    rw [primitive.eq_def, rules, get?_applyPartially]
  rw [made] at h
  obtain ⟨n, h⟩ := h
  cases h
  rfl

/-- What a call of `partial` finds. -/
theorem Finds.of_partial (rules : P.rules = .builtin) {x : NodeRef} {bound : List Ref}
    (h : P.Finds (Infer.callInferrer (P.names.inferrer (.primitive track .applyPartially))
      (.node x :: bound)) r) :
    ∃ v, P.FindsEntry ⟨x, track⟩ v
      ∧ ((∃ g, v.bind Property.toInferrer = .ok g
          ∧ r = .ok (.inferrer (P.names.inferrer (.bound g bound))))
        ∨ ∃ e, v.bind Property.toInferrer = .error e ∧ r = .error e) := by
  have known : P.callable? (P.names.inferrer (.primitive track .applyPartially))
      = some (.primitive track .applyPartially (.atLeast 1) Rule.partially) := by
    rw [callable?_inferrer, callable, rules, get?_applyPartially]
    rfl
  replace h := h.of_call known
  rw [Infer.bind_done, Callable.body, if_pos (by simp [Arity.accepts])] at h
  obtain ⟨v, entry, ⟨g, called, rest⟩ | failed⟩ := Finds.of_inferrerOf h
  · obtain ⟨n, rest⟩ := Finds.of_known rest rfl
    cases rest
    exact ⟨v, entry, .inl ⟨g, called, rfl⟩⟩
  · exact ⟨v, entry, .inr failed⟩

/-- A node that stands for a function with leading arguments passes them on to it. -/
theorem forwards_of_binds (rules : P.rules = .builtin)
    (binds : P.program.Binds ctx function callee xs)
    (h : P.FindsEntry ⟨P.program.locate callee ctx, track⟩ v) :
    ∃ w, P.FindsEntry ⟨P.program.locate function ctx, track⟩ w
      ∧ P.Forwards (P.program.references ctx xs) (w.bind Property.toInferrer)
        (v.bind Property.toInferrer) := by
  induction binds generalizing v with
  | itself =>
    refine ⟨v, h, ?_⟩
    cases v.bind Property.toInferrer with
    | ok f => exact .calls id
    | error e => exact .failed rfl
  | @further node operator inner xs ys _ application binds seen ih =>
    obtain ⟨r, h, rfl⟩ := h
    replace h : P.Finds (body ⟨⟨node, (P.program.locate node ctx).ctx⟩, track⟩) r := h
    obtain ⟨v, entry, calls⟩ := h.of_application application
    cases eq_of_findsEntry_partial rules entry binds
    rw [Program.references_congr seen] at calls
    cases calls with
    | made rest =>
      obtain ⟨v, entry, ⟨g, called, rfl⟩ | ⟨e, called, rfl⟩⟩ := rest.of_partial rules
      · obtain ⟨w, found, forwards⟩ := ih entry
        rw [called] at forwards
        rw [Program.references_append]
        exact ⟨w, found, forwards.further _⟩
      · obtain ⟨w, found, forwards⟩ := ih entry
        rw [called] at forwards
        exact ⟨w, found, forwards.refused node⟩

/-- An application of a node that stands for a function finds what a call of the function finds. -/
theorem Finds.of_binds (rules : P.rules = .builtin)
    (binds : P.program.Binds ctx function callee xs)
    (application : (P.program.node node).kind = .apply (callee :: ys))
    (h : P.Finds (body ⟨⟨node, ctx⟩, track⟩) r) :
    ∃ w, P.FindsEntry ⟨P.program.locate function ctx, track⟩ w
      ∧ P.Calls (P.program.references ctx (xs ++ ys)) (w.bind Property.toInferrer) r := by
  obtain ⟨v, entry, calls⟩ := h.of_application application
  obtain ⟨w, found, forwards⟩ := forwards_of_binds rules binds entry
  rw [Program.references_append]
  exact ⟨w, found, forwards.calls_of calls⟩

/-- Applications that come to the same function on the same arguments match. -/
theorem matches_of_binds (rules : P.rules = .builtin)
    (binds : P.program.Binds ctx function callee xs)
    (binds' : P.program.Binds ctx function callee' xs')
    (application : (P.program.node node).kind = .apply (callee :: ys))
    (application' : (P.program.node node').kind = .apply (callee' :: ys'))
    (same : xs ++ ys = xs' ++ ys') {r' : Outcome} (h : P.FindsEntry ⟨⟨node, ctx⟩, track⟩ r)
    (h' : P.FindsEntry ⟨⟨node', ctx⟩, track⟩ r') : r.Matches r' := by
  obtain ⟨r, h, rfl⟩ := h
  obtain ⟨r', h', rfl⟩ := h'
  obtain ⟨w, found, calls⟩ := h.of_binds rules binds application
  obtain ⟨w', found', calls'⟩ := h'.of_binds rules binds' application'
  cases found.unique found'
  rw [same] at calls
  exact calls.matches calls' node node'

end Plain

/-! ## Calm runs -/

section

variable {w : World} {ctx ctx₀ : Context}

theorem SameNode.unique {x x₀ x₁ : NodeRef} (h : SameNode w x x₀) (h' : SameNode w x x₁) : x₀ = x₁ := by
  have same : (⟨x₀, .value⟩ : Entry) = ⟨x₁, .value⟩ :=
    SameEntry.unique (.mk .value h) (.mk .value h')
  exact congrArg Entry.ref same

/-- What a node stands for does not depend on the numbers of inferrers. -/
theorem Program.Binds.same {p : Program} {function node : NodeId} {xs : List NodeId}
    (h : p.Binds ctx function node xs) (same : SameContext w ctx ctx₀) :
    p.Binds ctx₀ function node xs := by
  induction h with
  | itself => exact .itself
  | @further node operator inner xs ys _ application binds seen ih =>
    refine .further ih application binds fun id there => ?_
    have outer : SameContext w (p.locate node ctx).ctx (p.locate node ctx₀).ctx := by
      cases p.sameNode_locate node same with
      | mk same => exact same
    have within := p.sameNode_locate id outer
    rw [seen id there] at within
    exact within.unique (p.sameNode_locate id same)

theorem Outcome.Matches.of_same {r r' r₀ r₀' : Outcome} (h : r₀.Matches r₀')
    (same : SameOutcome w r r₀) (same' : SameOutcome w r' r₀') : r.Matches r' := by
  cases h with
  | data p =>
    cases same with
    | ok same =>
    cases same' with
    | ok same' =>
    cases same with
    | inferrer same =>
      cases same' with
      | inferrer same' => exact .inferrer (same'.form.symm.trans same.form)
    | _ =>
      cases same'
      exact .data _
  | inferrer form =>
    cases same with
    | ok same =>
    cases same' with
    | ok same' =>
    cases same with
    | inferrer same =>
    cases same' with
    | inferrer same' => exact .inferrer (same'.form.symm.trans (form.trans same.form))
  | error cause =>
    cases same
    cases same'
    exact .error cause

end

namespace Run

/-- Partial application cannot be noticed. In a calm run on a fresh engine, in every order of turns,
two applications that come to one function on the same arguments have results that match. -/
theorem applications_match {program : Program} (free : program.MetaFree) (types : TypeCache)
    (config : Config) (graph : GraphId) {args : List ArgSpec} (given : ∀ a ∈ args, a.MetaFree)
    (asked : Track) {log : List Event} {t : Run}
    (polls : Polls (asking (.new program types config) graph args asked) log t) (calm : t.Calm)
    {ctx : Context} {function node node' callee callee' : NodeId} {xs xs' ys ys' : List NodeId}
    (binds : program.Binds ctx function callee xs) (binds' : program.Binds ctx function callee' xs')
    (application : (program.node node).kind = .apply (callee :: ys))
    (application' : (program.node node').kind = .apply (callee' :: ys'))
    (same : xs ++ ys = xs' ++ ys') {track : Track} {r r' : Outcome}
    (found : t.resultOf (.entry ⟨⟨node, ctx⟩, track⟩) = some r)
    (found' : t.resultOf (.entry ⟨⟨node', ctx⟩, track⟩) = some r') : r.Matches r' := by
  obtain ⟨names⟩ := exists_numbering
  obtain ⟨reading, opening⟩ := exists_mirrors_asking program types config names graph given asked
  obtain ⟨later, pos, h⟩ := opening.polls (Plain.fit_standard free types names)
    (tidy_asking program types config graph args asked) polls calm
  obtain ⟨p, there, ready⟩ := exists_promise_of_resultOf found
  obtain ⟨p', there', ready'⟩ := exists_promise_of_resultOf found'
  obtain ⟨key, r₀, ⟨_, ⟨context⟩⟩, read, finds⟩ := h.faithful.results there ready
  obtain ⟨key', r₀', ⟨_, ⟨context'⟩⟩, read', finds'⟩ := h.faithful.results there' ready'
  cases context.unique context'
  have matching := Plain.matches_of_binds rfl (binds.same context) (binds'.same context) application
    application' same finds finds'
  exact matching.of_same read read'

/-- A graph that makes a tuple of three, at once and with two arguments bound one after the other. -/
def nested : Program where
  graphs := #[⟨"main", none, [], some ⟨9⟩⟩]
  nodes :=
    #[⟨.constant (.int 1), none, none⟩, ⟨.constant (.int 2), none, none⟩,
      ⟨.constant (.int 3), none, none⟩, ⟨.constant (.primitive .makeTuple), none, none⟩,
      ⟨.constant (.primitive .applyPartially), none, none⟩, ⟨.apply [⟨4⟩, ⟨3⟩, ⟨0⟩], some ⟨0⟩, none⟩,
      ⟨.apply [⟨4⟩, ⟨5⟩, ⟨1⟩], some ⟨0⟩, none⟩, ⟨.apply [⟨6⟩, ⟨2⟩], some ⟨0⟩, none⟩,
      ⟨.apply [⟨3⟩, ⟨0⟩, ⟨1⟩, ⟨2⟩], some ⟨0⟩, none⟩, ⟨.apply [⟨3⟩, ⟨7⟩, ⟨8⟩], some ⟨0⟩, none⟩]

/-- The partial application and the direct one both have the tuple. -/
theorem applications_match_nested :
    ∃ log t r r', Polls (asking (.new nested (.empty ⟨0⟩) .standard) ⟨0⟩ [] .value) log t ∧ t.Calm
      ∧ t.resultOf (.entry ⟨⟨⟨7⟩, .frame .empty ⟨0⟩ []⟩, .value⟩) = some r
      ∧ t.resultOf (.entry ⟨⟨⟨8⟩, .frame .empty ⟨0⟩ []⟩, .value⟩) = some r'
      ∧ r = .ok (.value (.known (.tuple [.int 1, .int 2, .int 3]))) ∧ r.Matches r' := by
  let result (t : Run) (node : NodeId) : Option Property :=
    (t.resultOf (.entry ⟨⟨node, .frame .empty ⟨0⟩ []⟩, .value⟩)).bind Except.toOption
  have hrun : (driveWithin 10 40
      (asking (.new nested (.empty ⟨0⟩) .standard) ⟨0⟩ [] .value)).map (fun t =>
        (result t ⟨7⟩, result t ⟨8⟩, t.cells.size, t.engine.specializations.all fun entry =>
          entry.2.length ≤ t.engine.config.maxSpecializations))
      = some (some (.value (.known (.tuple [.int 1, .int 2, .int 3]))),
        some (.value (.known (.tuple [.int 1, .int 2, .int 3]))), 0, true) := by
    decide +kernel
  obtain ⟨log, t, polls, -, seen⟩ := exists_polls_of_driveWithin rfl hrun
  simp only [Prod.mk.injEq] at seen
  obtain ⟨seen, seen', decided, limit⟩ := seen
  obtain ⟨r, found, ok⟩ := Option.bind_eq_some_iff.mp seen
  obtain ⟨r', found', -⟩ := Option.bind_eq_some_iff.mp seen'
  have calm : t.Calm := ⟨decided, not_exceeded_of_all limit⟩
  have binds : nested.Binds (.frame .empty ⟨0⟩ []) ⟨3⟩ ⟨6⟩ (([] ++ [⟨0⟩]) ++ [⟨1⟩]) :=
    .further (.further .itself rfl rfl (by decide)) rfl rfl (by decide)
  exact ⟨log, t, r, r', polls, calm, found, found', eq_ok_of_toOption ok,
    applications_match (Program.metaFree_of_all (by decide +kernel)) _ _ _ (by simp) _ polls calm binds
      .itself rfl rfl rfl found found'⟩

end Run

end ArrayInference
