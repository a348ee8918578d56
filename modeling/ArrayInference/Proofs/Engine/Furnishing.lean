import ArrayInference.Proofs.Infer.Steady

/-!
# What is made for constants on the type track

Every engine that comes of a new one keeps, for a record class, an inferrer that constructs records of
the class, and it keeps none for an operator without a type rule. So what the type track answers for a
constant does not depend on what the engine was asked before.
-/

namespace ArrayInference

namespace Engine

/-- The type that a record class declares. -/
def declared (e : Engine) (c : RecordClass) : Ty :=
  ((Interning.declaredType c).run e.types).1

/-- An inferrer constructs records of a class: it calls `make_record` with the class's type. -/
def Constructs (e : Engine) (c : RecordClass) (f : Inferrer) : Prop :=
  ∃ make, e.callable? f = some (.bound make
      [.constant (.type (e.declared c)) ((Interning.generic .type).run e.types).1])
    ∧ e.callable? make = some (.primitive .type .makeRecord (.atLeast 1) TypeRules.makeRecord)

/-- What is kept for constants on the type track is what it has to be. -/
structure Furnished (e : Engine) : Prop where
  classes : ∀ {c : RecordClass} {f : Inferrer},
    e.inferrers.find? { track := .type, callee := .recordType c, ctx := .empty } = some f →
      e.Constructs c f
  operators : ∀ {operator : Primitive} {f : Inferrer},
    e.inferrers.find? { track := .type, callee := .primitive operator, ctx := .empty } = some f →
      TypeRules.registry.get? operator ≠ none

variable {e f : Engine} {c : RecordClass} {i : Inferrer}

theorem declared_of_home (home : f.types.home = e.types.home) (c : RecordClass) :
    f.declared c = e.declared c :=
  (Interning.steady_declaredType c).answer _ _ home

theorem Constructs.mono (h : e.Constructs c i) (home : f.types.home = e.types.home)
    (callables : ∀ {i : Inferrer} {k : Callable}, e.callable? i = some k → f.callable? i = some k) :
    f.Constructs c i := by
  obtain ⟨make, bound, known⟩ := h
  refine ⟨make, ?_, callables known⟩
  rw [declared_of_home home, (Interning.steady_generic .type).answer _ _ home]
  exact callables bound

namespace Furnished

/-- What is kept is the same. -/
theorem congr (h : e.Furnished) (inferrers : f.inferrers = e.inferrers)
    (home : f.types.home = e.types.home)
    (callables : ∀ {i : Inferrer} {k : Callable}, e.callable? i = some k → f.callable? i = some k) :
    f.Furnished where
  classes := fun found => (h.classes (inferrers ▸ found)).mono home callables
  operators := fun found => h.operators (inferrers ▸ found)

/-- One more inferrer is kept. -/
theorem enter (h : e.Furnished) {key : InferrerKey}
    (inferrers : f.inferrers = e.inferrers.insert key i) (home : f.types.home = e.types.home)
    (callables : ∀ {i : Inferrer} {k : Callable}, e.callable? i = some k → f.callable? i = some k)
    (classes : ∀ c, key = { track := .type, callee := .recordType c, ctx := .empty } →
      f.Constructs c i)
    (operators : ∀ operator, key = { track := .type, callee := .primitive operator, ctx := .empty } →
      TypeRules.registry.get? operator ≠ none) : f.Furnished where
  classes := by
    intro c g found
    rw [inferrers, Table.find?_insert] at found
    split at found
    · rename_i same
      cases found
      exact classes c same
    · exact (h.classes found).mono home callables
  operators := by
    intro operator g found
    rw [inferrers, Table.find?_insert] at found
    split at found
    · rename_i same
      exact operators operator same
    · exact h.operators found

end Furnished

end Engine

namespace EngineM

variable {e : Engine}

/-- What asking for the inferrer of an operator does. -/
theorem primitiveInferrer_run (operator : Primitive) (track : Track) (e : Engine) :
    (primitiveInferrer operator track).run.run e
      = match e.inferrers.find? { track, callee := .primitive operator, ctx := .empty } with
        | some f => (.ok f, e)
        | none =>
          match (e.rules.get track).get? operator with
          | some (arity, rule) =>
            let f : Inferrer := { id := e.callables.size, form := .primitive track operator }
            (.ok f, { e with
              callables := e.callables.push (.primitive track operator arity rule)
              inferrers := e.inferrers.insert
                { track, callee := .primitive operator, ctx := .empty } f })
          | none =>
            match fallback track operator with
            | .ok f => (.ok f, { e with
                diagnostics := e.diagnostics.emit
                  { reason := .fallback operator.name track, subject := none }
                inferrers := e.inferrers.insert
                  { track, callee := .primitive operator, ctx := .empty } f })
            | .error err => (.error err, e) := by
  rw [primitiveInferrer, cached_run]
  cases e.inferrers.find? { track, callee := .primitive operator, ctx := .empty } with
  | some f => rfl
  | none =>
    have looked : StateT.run (ExceptT.run (get : ExceptT InferError EngineM Engine)) e
        = (pure (.ok e, e) : Id _) := rfl
    cases known : (e.rules.get track).get? operator with
    | some pair =>
      simp only [ExceptT.run_bind, StateT.run_bind, looked, pure_bind, known]
      rfl
    | none =>
      simp only [ExceptT.run_bind, StateT.run_bind, looked, pure_bind, known]
      cases track <;> rfl

/-- What asking for the inferrer of a record class does. -/
theorem classInferrer_run (c : RecordClass) (track : Track) (e : Engine) :
    (classInferrer c track).run.run e
      = match e.inferrers.find? { track, callee := .recordType c, ctx := .empty } with
        | some f => (.ok f, e)
        | none =>
          match (primitiveInferrer .makeRecord track).run.run e with
          | (.error err, e) => (.error err, e)
          | (.ok make, e) =>
            let (declared, types) := (Interning.declaredType c).run e.types
            let (type, types) := (Interning.generic .type).run types
            let bound : Callable := .bound make [.constant (.type declared) type]
            let f : Inferrer := { id := e.callables.size, form := bound.form }
            (.ok f, { e with
              types
              callables := e.callables.push bound
              inferrers := e.inferrers.insert
                { track, callee := .recordType c, ctx := .empty } f }) := by
  rw [classInferrer, cached_run]
  cases e.inferrers.find? { track, callee := .recordType c, ctx := .empty } with
  | some f => rfl
  | none =>
    rcases made : (primitiveInferrer .makeRecord track).run.run e with ⟨r, e'⟩
    cases r with
    | error err =>
      simp only [ExceptT.run_bind, StateT.run_bind, made]
      rfl
    | ok make =>
      simp only [ExceptT.run_bind, StateT.run_bind, made]
      rfl

end EngineM

namespace Engine

variable {e : Engine}

/-- Every operator with a type rule has an inferrer on the type track, and no other operator. -/
theorem Furnished.primitiveInferrer (h : e.Furnished) (standard : e.Standard) (operator : Primitive)
    (track : Track) :
    Furnished ((EngineM.primitiveInferrer operator track).run.run e).2
      ∧ (track = .type →
        (TypeRules.registry.get? operator ≠ none
            ∧ ∃ f, ((EngineM.primitiveInferrer operator track).run.run e).1 = .ok f)
          ∨ TypeRules.registry.get? operator = none
            ∧ ∃ message, ((EngineM.primitiveInferrer operator track).run.run e).1
              = .error (.inference message)) := by
  have rules : (e.rules.get track).get? operator = (Registries.builtin.get track).get? operator := by
    rw [standard.rules]
  rw [EngineM.primitiveInferrer_run, rules]
  cases found : e.inferrers.find? { track, callee := .primitive operator, ctx := .empty } with
  | some f =>
    refine ⟨h, ?_⟩
    rintro rfl
    exact .inl ⟨h.operators found, f, rfl⟩
  | none =>
    cases known : (Registries.builtin.get track).get? operator with
    | some pair =>
      have there : (Registries.builtin.get track).get? operator ≠ none := by simp [known]
      refine ⟨h.enter rfl rfl Program.getElem?_push_of_some (by rintro c ⟨⟩) ?_, ?_⟩
      · rintro _ ⟨⟩
        exact there
      · rintro rfl
        exact .inl ⟨there, _, rfl⟩
    | none =>
      cases track with
      | type => exact ⟨h, fun _ => .inr ⟨known, _, rfl⟩⟩
      | _ => exact ⟨h.enter rfl rfl id (by rintro c ⟨⟩) (by rintro c ⟨⟩), by rintro ⟨⟩⟩

/-- A record class has an inferrer that constructs its records. -/
theorem Furnished.classInferrer (h : e.Furnished) (standard : e.Standard) (c : RecordClass)
    (track : Track) :
    Furnished ((EngineM.classInferrer c track).run.run e).2
      ∧ (track = .type → ∃ f, ((EngineM.classInferrer c track).run.run e).1 = .ok f
        ∧ ((EngineM.classInferrer c track).run.run e).2.Constructs c f) := by
  rw [EngineM.classInferrer_run]
  cases found : e.inferrers.find? { track, callee := .recordType c, ctx := .empty } with
  | some f =>
    refine ⟨h, ?_⟩
    rintro rfl
    exact ⟨f, rfl, h.classes found⟩
  | none =>
    obtain ⟨furnished, makes⟩ := h.primitiveInferrer standard .makeRecord track
    have applies := EngineM.applies_primitiveInferrer standard .makeRecord track
    rcases made : (EngineM.primitiveInferrer .makeRecord track).run.run e with ⟨r, f⟩
    rw [made] at furnished makes applies
    cases r with
    | error err =>
      refine ⟨furnished, fun type => ?_⟩
      rcases makes type with ⟨-, _, ok⟩ | ⟨absent, -⟩
      · cases ok
      · cases absent
    | ok make =>
      have home :=
        ((Interning.steady_generic .type).home ((Interning.declaredType c).run f.types).2).trans
          ((Interning.steady_declaredType c).home f.types)
      have constructs : ∀ {g : Engine} {i : Inferrer}, track = .type → g.types.home = f.types.home →
          g.callable? i = some (.bound make [.constant
            (.type ((Interning.declaredType c).run f.types).1)
            ((Interning.generic .type).run ((Interning.declaredType c).run f.types).2).1]) →
          (∀ {k : Callable}, f.callable? make = some k → g.callable? make = some k) →
          g.Constructs c i := by
        rintro g i rfl same bound later
        refine ⟨make, ?_, later (applies.2 make rfl (.atLeast 1) TypeRules.makeRecord rfl)⟩
        rw [bound, declared, (Interning.steady_declaredType c).answer _ _ same,
          (Interning.steady_generic .type).answer g.types _
            (same.trans ((Interning.steady_declaredType c).home f.types).symm)]
      refine ⟨furnished.enter rfl home Program.getElem?_push_of_some (fun _ same => ?_)
        (by rintro _ ⟨⟩), fun type => ⟨_, rfl, ?_⟩⟩
      · cases same
        exact constructs rfl home Array.getElem?_push_size Program.getElem?_push_of_some
      · exact constructs type home Array.getElem?_push_size Program.getElem?_push_of_some

/-- What the type track says of a constant: something that can be called has an inferrer, unless it is
an operator without a type rule; anything else has its type, if it has one. -/
inductive Yields (e : Engine) : Constant → Outcome → Prop where
  | callable {value : Constant} {f : Inferrer} (callable : value.isCallable = true)
      (known : ∀ operator, value = .primitive operator → TypeRules.registry.get? operator ≠ none)
      (constructs : ∀ c, value = .recordType c → e.Constructs c f) :
      Yields e value (.ok (.inferrer f))
  | refused {operator : Primitive} {err : InferError} {message : String}
      (unknown : TypeRules.registry.get? operator = none) (cause : err.cause = .inference message) :
      Yields e (.primitive operator) (.error err)
  | data {value : Constant} {t : Ty} (data : value.isCallable = false)
      (made : ((Interning.typeOfConstant value).run.run e.types).1 = .ok t) :
      Yields e value (.ok (.type t))
  | untyped {value : Constant} {err : InferError} {failure : TypeError}
      (data : value.isCallable = false)
      (failed : ((Interning.typeOfConstant value).run.run e.types).1 = .error failure) :
      Yields e value (.error err)

end Engine

namespace EngineM

/-- What can be called has its inferrer for a property. -/
theorem inferrerProperty_run (make : ExceptT InferError EngineM Inferrer) (e : Engine) :
    ((do return .inferrer (← make) : ExceptT InferError EngineM Property).run.run e)
      = ((make.run.run e).1.map .inferrer, (make.run.run e).2) := by
  rcases made : make.run.run e with ⟨r, e'⟩
  simp only [ExceptT.run_bind, StateT.run_bind, made]
  cases r <;> rfl

theorem typeProperty_run (value : Constant) (e : Engine) :
    (dataProperty .type value).run.run e
      = ((match ((Interning.typeOfConstant value).run.run e.types).1 with
        | .ok t => .ok (.type t)
        | .error failure => .error (.ofTypeError failure)),
        { e with types := ((Interning.typeOfConstant value).run.run e.types).2 }) := by
  have interned : StateT.run (ExceptT.run (ExceptT.lift (interning
      (Interning.typeOfConstant value).run) : ExceptT InferError EngineM _)) e
      = (pure (.ok ((Interning.typeOfConstant value).run.run e.types).1,
        { e with types := ((Interning.typeOfConstant value).run.run e.types).2 }) : Id _) := rfl
  rw [dataProperty]
  simp only [ExceptT.run_bind, StateT.run_bind, interned, pure_bind]
  cases ((Interning.typeOfConstant value).run.run e.types).1 <;> rfl

end EngineM

namespace Engine

variable {e : Engine}

theorem Furnished.graphInferrer (h : e.Furnished) (track : Track) (g : GraphId) (ctx : Context) :
    Furnished ((EngineM.graphInferrer track g ctx).run e).2 := by
  rw [EngineM.graphInferrer_run]
  cases e.inferrers.find? { track, callee := .graph g, ctx } with
  | some f => exact h
  | none => exact h.enter rfl rfl Program.getElem?_push_of_some (by rintro _ ⟨⟩) (by rintro _ ⟨⟩)

theorem Furnished.dataProperty (h : e.Furnished) {value : Constant} (data : value.isCallable = false)
    (track : Track) :
    Furnished ((EngineM.dataProperty track value).run.run e).2
      ∧ (track = .type → ((EngineM.dataProperty track value).run.run e).2.Yields value
        ((EngineM.dataProperty track value).run.run e).1) := by
  cases track with
  | value => exact ⟨h, by rintro ⟨⟩⟩
  | shape =>
    have same : ((EngineM.dataProperty .shape value).run.run e).2 = e := by
      rw [EngineM.dataProperty]
      cases Shape.ofConstant value <;> rfl
    refine ⟨?_, by rintro ⟨⟩⟩
    rw [same]
    exact h
  | type =>
    have steady := Interning.steady_typeOfConstant value
    rw [EngineM.typeProperty_run]
    refine ⟨h.congr rfl (steady.home _) id, fun _ => ?_⟩
    cases made : ((Interning.typeOfConstant value).run.run e.types).1 with
    | ok t => exact .data data ((steady.answer _ _ (steady.home _)).trans made)
    | error failure => exact .untyped data ((steady.answer _ _ (steady.home _)).trans made)

theorem Furnished.constantProperty (h : e.Furnished) (standard : e.Standard) (value : Constant)
    (ctx : Context) (track : Track) :
    Furnished ((EngineM.constantProperty value ctx track).run.run e).2
      ∧ (track = .type → ((EngineM.constantProperty value ctx track).run.run e).2.Yields value
        ((EngineM.constantProperty value ctx track).run.run e).1) := by
  cases value with
  | primitive operator =>
    rw [EngineM.constantProperty, EngineM.inferrerProperty_run]
    obtain ⟨furnished, makes⟩ := h.primitiveInferrer standard operator track
    refine ⟨furnished, fun type => ?_⟩
    rcases makes type with ⟨known, f, ok⟩ | ⟨unknown, message, refused⟩
    · rw [ok]
      refine .callable rfl ?_ (by rintro c ⟨⟩)
      rintro _ ⟨⟩
      exact known
    · rw [refused]
      exact .refused unknown rfl
  | graph g =>
    rw [EngineM.constantProperty, EngineM.inferrerProperty_run]
    exact ⟨h.graphInferrer track g ctx, fun _ => .callable rfl (by rintro _ ⟨⟩) (by rintro _ ⟨⟩)⟩
  | metaGraph m =>
    rw [EngineM.constantProperty, EngineM.inferrerProperty_run, EngineM.cached_run]
    cases e.inferrers.find? { track, callee := .metaGraph m, ctx := .empty } with
    | some f => exact ⟨h, fun _ => .callable rfl (by rintro _ ⟨⟩) (by rintro _ ⟨⟩)⟩
    | none =>
      exact ⟨h.enter rfl rfl Program.getElem?_push_of_some (by rintro _ ⟨⟩) (by rintro _ ⟨⟩),
        fun _ => .callable rfl (by rintro _ ⟨⟩) (by rintro _ ⟨⟩)⟩
  | recordType c =>
    rw [EngineM.constantProperty, EngineM.inferrerProperty_run]
    obtain ⟨furnished, makes⟩ := h.classInferrer standard c track
    refine ⟨furnished, fun type => ?_⟩
    obtain ⟨f, ok, constructs⟩ := makes type
    rw [ok]
    refine .callable rfl (by rintro _ ⟨⟩) ?_
    rintro _ ⟨⟩
    exact constructs
  | _ => exact h.dataProperty rfl track

/-- No question changes what is kept for a constant. -/
theorem Furnished.answer (h : e.Furnished) (standard : e.Standard) {query : Query}
    (steady : query.Steady) : Furnished ((EngineM.answer query).run e).2 := by
  have home := EngineM.keepsHome_answer steady e
  have callables : ∀ {i : Inferrer} {k : Callable}, e.callable? i = some k →
      ((EngineM.answer query).run e).2.callable? i = some k :=
    (EngineM.grows_answer query e).callables
  cases query with
  | constant value ctx track => exact (h.constantProperty standard value ctx track).1
  | graphInferrer track g ctx => exact h.graphInferrer track g ctx
  | generate generator types =>
    refine h.congr ?_ home callables
    show (((EngineM.generate generator types).run).run e).2.inferrers = _
    rw [EngineM.generate_run]
    cases e.generated.find? { generator, types } with
    | some g => rfl
    | none => cases generator.generate e.program types <;> rfl
  | specialize graph ctx =>
    refine h.congr ?_ home callables
    show (((EngineM.specialize graph ctx).run).run e).2.inferrers = _
    rw [EngineM.specialize_run]
    split
    · rfl
    · split <;> rfl
  | _ => exact h.congr rfl home callables

theorem Becomes.furnished {f : Engine} (h : e.Becomes f) (standard : e.Standard)
    (furnished : e.Furnished) : f.Furnished :=
  (h.invariant (fun f => f.Standard ∧ f.Furnished)
    (fun steady kept => ⟨EngineM.keepsStandard_answer _ _ kept.1, kept.2.answer kept.1 steady⟩)
    (fun _ _ _ kept => ⟨kept.1.congr rfl rfl rfl, kept.2.congr rfl rfl id⟩)
    ⟨standard, furnished⟩).2

theorem Yields.mono {f : Engine} {value : Constant} {r : Outcome} (h : e.Yields value r)
    (becomes : e.Becomes f) : f.Yields value r := by
  have steady := Interning.steady_typeOfConstant value
  cases h with
  | callable callable known constructs =>
    exact .callable callable known fun c same =>
      (constructs c same).mono becomes.home becomes.callable?
  | refused unknown cause => exact .refused unknown cause
  | data data made => exact .data data ((steady.answer _ _ becomes.home).trans made)
  | untyped data failed => exact .untyped data ((steady.answer _ _ becomes.home).trans failed)

end Engine

end ArrayInference
