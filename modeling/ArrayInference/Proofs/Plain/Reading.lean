import ArrayInference.Proofs.Engine.Inferrers
import ArrayInference.Proofs.Plain.Calls
import ArrayInference.Proofs.Plain.Evaluator

/-!
# Reading an engine

An engine is read in the numbering of a plain evaluation: what each of its inferrers stands for is
the meaning of the inferrer that it is read as, and every inferrer that is kept is one that the plain
evaluation has in its place. Whatever the engine is asked, it can be read afterwards as well.
-/

namespace ArrayInference

/-- What an inferrer of an engine stands for. -/
inductive SameCallable (P : Plain) (w : World) : Callable → Identity → Prop where
  | scalarShape : SameCallable P w .scalarShape .scalarShape
  | anything : SameCallable P w .anything .anything
  | primitive {track : Track} {operator : Primitive} {arity : Arity} {rule : Rule}
      (known : (P.rules.get track).get? operator = some (arity, rule)) :
      SameCallable P w (.primitive track operator arity rule) (.primitive track operator)
  | graph (track : Track) (graph : GraphId) {ctx ctx₀ : Context} (same : SameContext w ctx ctx₀) :
      SameCallable P w (.graph track graph ctx) (.graph track graph ctx₀)
  | bound {f f₀ : Inferrer} {args args₀ : List Ref} (same : SameInferrer w f f₀)
      (passed : List.Forall₂ (SameRef w) args args₀) :
      SameCallable P w (.bound f args) (.bound f₀ args₀)

/-- An inferrer that is made, and the one that a plain evaluation has in its place. -/
inductive SameMade (w : World) : Except InferError Inferrer → Except InferError Inferrer → Prop where
  | ok {f f₀ : Inferrer} (same : SameInferrer w f f₀) : SameMade w (.ok f) (.ok f₀)
  | error (e : InferError) : SameMade w (.error e) (.error e)

/-- The inferrer that is kept under a key is the one of a plain evaluation. -/
def Cached (P : Plain) (w : World) (key : InferrerKey) (f : Inferrer) : Prop :=
  match key.callee with
  | .primitive operator => SameMade w (.ok f) (P.primitive key.track operator)
  | .graph g => ∃ ctx₀, SameContext w key.ctx ctx₀
      ∧ SameInferrer w f (P.names.inferrer (.graph key.track g ctx₀))
  | .recordType c => SameMade w (.ok f) (P.recordClass key.track c)
  | _ => True

theorem SameCallable.mono {P : Plain} {v w : World} {c : Callable} {i : Identity}
    (h : SameCallable P w c i) (le : w.Le v) : SameCallable P v c i := by
  cases h with
  | scalarShape => exact .scalarShape
  | anything => exact .anything
  | primitive known => exact .primitive known
  | graph track graph same => exact .graph track graph (same.mono le)
  | bound same passed => exact .bound (same.mono le) (sameRefs_mono passed le)

theorem SameCallable.form_eq {P : Plain} {w : World} {c : Callable} {i : Identity}
    (h : SameCallable P w c i) : i.form = c.form := by
  cases h with
  | bound same passed => rw [Identity.form, Callable.form, same.form, passed.length_eq]
  | _ => rfl

theorem SameMade.mono {v w : World} {r r₀ : Except InferError Inferrer} (h : SameMade w r r₀)
    (le : w.Le v) : SameMade v r r₀ := by
  cases h with
  | ok same => exact .ok (same.mono le)
  | error e => exact .error e

theorem sameRef_constant {w : World} {c : Constant} (free : c.isMetaFree = true) (type : Ty) :
    SameRef w (.constant c type) (.constant c type) :=
  .virtual ⟨.some (.known free), .some (.type type), .none⟩

theorem SameMade.outcome {w : World} {r r₀ : Except InferError Inferrer} (h : SameMade w r r₀) :
    SameOutcome w (r.map .inferrer) (r₀.map .inferrer) := by
  cases h with
  | ok same => exact .ok (.inferrer same)
  | error e => exact .error e

theorem Cached.mono {P : Plain} {v w : World} {key : InferrerKey} {f : Inferrer}
    (h : Cached P w key f) (le : w.Le v) : Cached P v key f := by
  rw [Cached] at h ⊢
  split at h
  · exact h.mono le
  · obtain ⟨ctx₀, hctx, hf⟩ := h
    exact ⟨ctx₀, hctx.mono le, hf.mono le⟩
  · exact h.mono le
  · trivial

namespace Engine

/-- What is known of an engine, with a reading of its inferrers. -/
def world (e : Engine) (reading : Nat → Inferrer) : World :=
  { callables := e.callables, contexts := e.contextsOf, reading }

/-- An engine that can be read. -/
structure Reading (P : Plain) (e : Engine) (reading : Nat → Inferrer) : Prop where
  program : e.program = P.program
  rules : e.rules = P.rules
  home : e.types.home = P.types.home
  anything : e.callables[0]? = some .anything
  scalarShape : e.callables[1]? = some .scalarShape
  reads : ∀ {i : Nat} {c : Callable}, e.callables[i]? = some c →
    ∃ j, SameCallable P (e.world reading) c j ∧ reading i = P.names.inferrer j
  kept : ∀ {key : InferrerKey} {f : Inferrer}, e.inferrers.find? key = some f →
    Cached P (e.world reading) key f

namespace Reading

variable {P : Plain} {e f : Engine} {reading : Nat → Inferrer}

theorem world_eq (callables : f.callables = e.callables)
    (contexts : f.specializations = e.specializations) : f.world reading = e.world reading := by
  have hcontexts : f.contextsOf = e.contextsOf := by
    funext graph
    rw [contextsOf, contextsOf, contexts]
  rw [world, world, callables, hcontexts]

/-- Only what can be read matters. -/
theorem congr (h : Reading P e reading) (program : f.program = e.program) (rules : f.rules = e.rules)
    (home : f.types.home = e.types.home) (callables : f.callables = e.callables)
    (inferrers : f.inferrers = e.inferrers) (contexts : f.specializations = e.specializations) :
    Reading P f reading where
  program := program.trans h.program
  rules := rules.trans h.rules
  home := home.trans h.home
  anything := callables ▸ h.anything
  scalarShape := callables ▸ h.scalarShape
  reads := by
    intro i c hc
    rw [world_eq callables contexts]
    exact h.reads (callables ▸ hc)
  kept := by
    intro key g hg
    rw [world_eq callables contexts]
    exact h.kept (inferrers ▸ hg)

theorem sameInferrer_of_read (h : Reading P e reading) {g : Inferrer} {c : Callable}
    (found : e.callables[g.id]? = some c) (form : g.form = c.form) :
    ∃ j, SameCallable P (e.world reading) c j
      ∧ SameInferrer (e.world reading) g (P.names.inferrer j) := by
  obtain ⟨j, same, read⟩ := h.reads found
  exact ⟨j, same, ⟨c, found⟩, read, same.form_eq.trans form.symm⟩

theorem sameInferrer_anything (h : Reading P e reading) :
    SameInferrer (e.world reading) Engine.anything (P.names.inferrer .anything) := by
  obtain ⟨j, same, hf⟩ := h.sameInferrer_of_read (g := Engine.anything) h.anything rfl
  cases same
  exact hf

theorem sameInferrer_scalarShape (h : Reading P e reading) :
    SameInferrer (e.world reading) Engine.scalarShape (P.names.inferrer .scalarShape) := by
  obtain ⟨j, same, hf⟩ := h.sameInferrer_of_read (g := Engine.scalarShape) h.scalarShape rfl
  cases same
  exact hf

/-- An inferrer is kept under a key. -/
theorem keep (h : Reading P e reading) {key : InferrerKey} {g : Inferrer}
    (cached : Cached P (e.world reading) key g) :
    Reading P { e with inferrers := e.inferrers.insert key g } reading where
  program := h.program
  rules := h.rules
  home := h.home
  anything := h.anything
  scalarShape := h.scalarShape
  reads := h.reads
  kept := by
    intro other g' found
    replace found : (e.inferrers.insert key g).find? other = some g' := found
    rw [Table.find?_insert] at found
    split at found
    · rename_i heq
      cases heq
      cases found
      exact cached
    · exact h.kept found

/-- The world after a new inferrer. -/
theorem le_push (e : Engine) (reading : Nat → Inferrer) (c : Callable) (f₀ : Inferrer) :
    (e.world reading).Le (world { e with callables := e.callables.push c }
      (Function.update reading e.callables.size f₀)) where
  callables := fun found => Program.getElem?_push_of_some found
  contexts := fun h => h
  reading := by
    intro i c' found
    refine Function.update_of_ne ?_ _ _
    rintro rfl
    rw [world, Array.getElem?_size] at found
    cases found

theorem push (h : Reading P e reading) {c : Callable} {j : Identity}
    (same : SameCallable P (e.world reading) c j) :
    Reading P { e with callables := e.callables.push c }
      (Function.update reading e.callables.size (P.names.inferrer j)) where
  program := h.program
  rules := h.rules
  home := h.home
  anything := Program.getElem?_push_of_some h.anything
  scalarShape := Program.getElem?_push_of_some h.scalarShape
  reads := by
    have le := le_push e reading c (P.names.inferrer j)
    intro i c' found
    replace found : (e.callables.push c)[i]? = some c' := found
    rw [Array.getElem?_push] at found
    split at found
    · rename_i heq
      cases found
      subst heq
      exact ⟨j, same.mono le, Function.update_self _ _ _⟩
    · obtain ⟨j', same', read⟩ := h.reads found
      exact ⟨j', same'.mono le, (le.reading found).trans read⟩
  kept := fun found => (h.kept found).mono (le_push e reading c (P.names.inferrer j))

end Reading

end Engine

namespace EngineM

open Engine

/-- After a computation the engine can be read as well, and its result is as `R` says. -/
def Reads {α : Type} (P : Plain) (e : Engine) (reading : Nat → Inferrer) (m : EngineM α)
    (R : World → α → Prop) : Prop :=
  ∃ later, (e.world reading).Le ((m.run e).2.world later) ∧ Reading P (m.run e).2 later
    ∧ R ((m.run e).2.world later) (m.run e).1

section

variable {α β : Type} {P : Plain} {e : Engine} {reading : Nat → Inferrer} {R : World → α → Prop}
  {S : World → β → Prop}

theorem reads_pure (h : Reading P e reading) {a : α} (ha : R (e.world reading) a) :
    Reads P e reading (pure a) R :=
  ⟨reading, .refl _, h, ha⟩

theorem Reads.bind {m : EngineM α} {k : α → EngineM β} (h : Reads P e reading m R)
    (h' : ∀ {f : Engine} {later : Nat → Inferrer} (a : α), Reading P f later →
      (e.world reading).Le (f.world later) → R (f.world later) a → Reads P f later (k a) S) :
    Reads P e reading (m >>= k) S := by
  obtain ⟨later, le, hread, ha⟩ := h
  obtain ⟨last, le', hread', hb⟩ := h' _ hread le ha
  exact ⟨last, le.trans le', hread', hb⟩

theorem Reads.imp {m : EngineM α} {R' : World → α → Prop} (h : Reads P e reading m R)
    (imp : ∀ w a, R w a → R' w a) : Reads P e reading m R' := by
  obtain ⟨later, le, hread, ha⟩ := h
  exact ⟨later, le, hread, imp _ _ ha⟩

theorem Reads.tryBind {ε : Type} {m : ExceptT ε EngineM α} {k : α → ExceptT ε EngineM β}
    {R : World → Except ε α → Prop} {S : World → Except ε β → Prop}
    (h : Reads P e reading m.run R)
    (ok : ∀ {f : Engine} {later : Nat → Inferrer} (a : α), Reading P f later →
      (e.world reading).Le (f.world later) → R (f.world later) (.ok a) →
      Reads P f later (k a).run S)
    (error : ∀ w err, R w (.error err) → S w (.error err)) : Reads P e reading (m >>= k).run S := by
  rw [ExceptT.run_bind]
  refine h.bind fun r hread le hr => ?_
  cases r with
  | ok a => exact ok a hread le hr
  | error err => exact reads_pure hread (error _ _ hr)

theorem Reads.lift {ε : Type} {m : EngineM α} (h : Reads P e reading m R) :
    Reads P e reading (ExceptT.lift m : ExceptT ε EngineM α).run fun w r =>
      ∃ a, r = .ok a ∧ R w a := by
  rw [ExceptT.run_lift]
  exact h.bind fun a hread _ ha => reads_pure hread ⟨a, rfl, ha⟩

theorem reads_get {ε : Type} {k : Engine → ExceptT ε EngineM β} {S : World → Except ε β → Prop}
    (h : Reads P e reading (k e).run S) :
    Reads P e reading ((get : ExceptT ε EngineM Engine) >>= k).run S :=
  h

theorem reads_note (h : Reading P e reading) (d : Diagnostic) :
    Reads P e reading (note d) fun _ _ => True :=
  ⟨reading, .refl _, h.congr rfl rfl rfl rfl rfl rfl, trivial⟩

theorem reads_interning (h : Reading P e reading) {make : Interning α} (steady : make.Steady) :
    Reads P e reading (interning make) fun _ a => a = (make.run P.types).1 :=
  ⟨reading, .refl _, h.congr rfl rfl (steady.home e.types) rfl rfl rfl,
    steady.answer _ _ h.home⟩

theorem reads_newInferrer (h : Reading P e reading) {c : Callable} {j : Identity}
    (same : SameCallable P (e.world reading) c j) :
    Reads P e reading (newInferrer c) fun w f => SameInferrer w f (P.names.inferrer j) := by
  refine ⟨_, Reading.le_push e reading c (P.names.inferrer j), h.push same, ?_⟩
  exact ⟨⟨c, Array.getElem?_push_size⟩, Function.update_self _ _ _, same.form_eq⟩

theorem reads_cached (h : Reading P e reading) {key : InferrerKey}
    {make : ExceptT InferError EngineM Inferrer} {made : Except InferError Inferrer}
    (cached_iff : ∀ w f, Cached P w key f ↔ SameMade w (.ok f) made)
    (hmake : Reads P e reading make.run fun w r => SameMade w r made) :
    Reads P e reading (cached key make).run fun w r => SameMade w r made := by
  rw [Reads, cached_run]
  cases found : e.inferrers.find? key with
  | some f => exact ⟨reading, .refl _, h, (cached_iff _ _).mp (h.kept found)⟩
  | none =>
    obtain ⟨later, le, hread, hr⟩ := hmake
    rcases hout : make.run.run e with ⟨r, e'⟩
    rw [hout] at le hread hr
    cases r with
    | error err => exact ⟨later, le, hread, hr⟩
    | ok f => exact ⟨later, le, hread.keep ((cached_iff _ _).mpr hr), hr⟩

theorem reads_primitiveInferrer (h : Reading P e reading) (operator : Primitive) (track : Track) :
    Reads P e reading (primitiveInferrer operator track).run fun w r =>
      SameMade w r (P.primitive track operator) := by
  refine reads_cached h (fun w f => Iff.rfl) ?_
  refine reads_get ?_
  cases found : (e.rules.get track).get? operator with
  | some pair =>
    obtain ⟨arity, rule⟩ := pair
    have known : (P.rules.get track).get? operator = some (arity, rule) := h.rules ▸ found
    have hmade : P.primitive track operator = .ok (P.names.inferrer (.primitive track operator)) := by
      rw [Plain.primitive.eq_def, known]
    refine (Reads.lift (reads_newInferrer h (.primitive known))).imp fun w r hr => ?_
    obtain ⟨f, rfl, hf⟩ := hr
    rw [hmade]
    exact .ok hf
  | none =>
    have known : (P.rules.get track).get? operator = none := h.rules ▸ found
    have hfallback : SameMade (e.world reading) (fallback track operator)
        (P.primitive track operator) := by
      rw [Plain.primitive.eq_def, known]
      cases track with
      | value => exact .ok h.sameInferrer_anything
      | type => exact .error _
      | shape => exact .ok h.sameInferrer_scalarShape
    refine Reads.tryBind (R := fun w r => SameMade w r (P.primitive track operator))
      (m := ExceptT.mk (pure (fallback track operator))) (reads_pure h hfallback) (fun f hread _ hf => ?_) (fun _ _ hr => hr)
    refine Reads.tryBind (reads_note hread _).lift (fun _ hread le _ => ?_) (by simp)
    exact reads_pure hread (hf.mono le)

theorem reads_graphInferrer (h : Reading P e reading) (track : Track) (graph : GraphId)
    {ctx ctx₀ : Context} (same : SameContext (e.world reading) ctx ctx₀) :
    Reads P e reading (graphInferrer track graph ctx) fun w f =>
      SameInferrer w f (P.names.inferrer (.graph track graph ctx₀)) := by
  rw [Reads, graphInferrer_run]
  cases found : e.inferrers.find? { track, callee := .graph graph, ctx } with
  | some f =>
    obtain ⟨ctx₁, hctx, hf⟩ := h.kept found
    rw [same.unique hctx]
    exact ⟨reading, .refl _, h, hf⟩
  | none =>
    obtain ⟨later, le, hread, hf⟩ := reads_newInferrer h (.graph track graph same)
    exact ⟨later, le, hread.keep ⟨ctx₀, same.mono le, hf⟩, hf⟩

theorem reads_classInferrer (h : Reading P e reading) (c : RecordClass) (track : Track) :
    Reads P e reading (classInferrer c track).run fun w r => SameMade w r (P.recordClass track c) := by
  refine reads_cached h (fun w f => Iff.rfl) ?_
  refine Reads.tryBind (reads_primitiveInferrer h .makeRecord track) (fun make hread _ hmake => ?_)
    fun w err hr => ?_
  · refine Reads.tryBind (reads_interning hread (Interning.steady_declaredType c)).lift
      (fun declared hread le hdeclared => ?_) (by simp)
    obtain ⟨_, heq, hdeclared⟩ := hdeclared
    cases heq
    refine Reads.tryBind (reads_interning hread (Interning.steady_intern _)).lift
      (fun type hread le' htype => ?_) (by simp)
    obtain ⟨_, heq, htype⟩ := htype
    cases heq
    rw [Plain.recordClass]
    generalize P.primitive track .makeRecord = made at hmake ⊢
    cases hmake with
    | ok same =>
      refine (Reads.lift (reads_newInferrer hread
        (.bound (same.mono (le.trans le')) (.cons (sameRef_constant rfl type) .nil)))).imp fun w r hr => ?_
      obtain ⟨f, rfl, hf⟩ := hr
      rw [hdeclared, htype] at hf
      exact .ok hf
  · rw [Plain.recordClass]
    generalize P.primitive track .makeRecord = made at hr ⊢
    cases hr
    exact .error err

end

end EngineM

end ArrayInference
