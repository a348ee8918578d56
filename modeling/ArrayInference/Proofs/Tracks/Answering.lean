import ArrayInference.Proofs.Engine.Inferrers
import ArrayInference.Proofs.Tracks.Agreeing

/-!
# An engine answers as its ledger says

Main statement: a question about good contexts and sure references leaves an engine that is kept as
before, with a later ledger, and its answer is one that this ledger has.
-/

namespace ArrayInference

namespace Ledger

/-- The ledger with another state of the engine. -/
def after (v : Ledger) (e : Engine) : Ledger :=
  { v with engine := e }

/-- Questions about good contexts and sure references. -/
def Permits (w : Ledger) : Query → Prop
  | .intern make => make.Steady
  | .constant _ ctx _ | .graphInferrer _ _ ctx | .locate _ ctx => w.Good ctx
  | .bind _ bound => ∀ x ∈ bound, w.Sure x
  | _ => True

/-- After a computation the ledger is a later one, the engine is kept, and the result is as `R`
says. -/
def Keeps (v : Ledger) {α : Type} (m : EngineM α) (R : Ledger → α → Prop) : Prop :=
  v.Le (v.after (m.run v.engine).2) ∧ (v.after (m.run v.engine).2).Kept
    ∧ R (v.after (m.run v.engine).2) (m.run v.engine).1

variable {α β ε : Type} {v w : Ledger} {e : Engine} {R : Ledger → α → Prop} {S : Ledger → β → Prop}

/-- Changes to the program, the types and what is not looked at here. -/
theorem le_after (program : v.engine.program.Sprouts e.program)
    (home : e.types.home = v.engine.types.home) (callables : e.callables = v.engine.callables)
    (generated : ∀ {key : GeneratedKey} {g : GraphId},
      v.engine.generated.find? key = some g → e.generated.find? key = some g) : v.Le (v.after e) where
  program := program
  home := home
  callables := by
    intro f c known
    rw [Engine.callable?] at known ⊢
    rw [after, callables]
    exact known
  generated := generated
  found := id
  shapes := .rfl

theorem Kept.congr (kept : v.Kept) (le : v.Le (v.after e)) (rules : e.rules = v.engine.rules)
    (callables : e.callables = v.engine.callables) (inferrers : e.inferrers = v.engine.inferrers) :
    (v.after e).Kept where
  rules := rules.trans kept.rules
  anything := le.callables kept.anything
  scalarShape := le.callables kept.scalarShape
  sound := by
    intro f c known
    rw [Engine.callable?, after, callables] at known
    exact (kept.sound known).mono le
  kept := by
    intro key f known
    rw [after, inferrers] at known
    exact (kept.kept known).mono le

theorem keeps_pure (kept : v.Kept) {a : α} (ha : R v a) : v.Keeps (pure a) R :=
  ⟨.refl v, kept, ha⟩

theorem Keeps.bind {m : EngineM α} {k : α → EngineM β} (h : v.Keeps m R)
    (h' : ∀ {w : Ledger} (a : α), w.Kept → v.Le w → R w a → w.Keeps (k a) S) :
    v.Keeps (m >>= k) S := by
  obtain ⟨le, kept, ha⟩ := h
  obtain ⟨le', kept', hb⟩ := h' _ kept le ha
  exact ⟨le.trans le', kept', hb⟩

theorem Keeps.imp {m : EngineM α} {R' : Ledger → α → Prop} (h : v.Keeps m R)
    (imp : ∀ w a, v.Le w → R w a → R' w a) : v.Keeps m R' :=
  ⟨h.1, h.2.1, imp _ _ h.1 h.2.2⟩

theorem Keeps.tryBind {m : ExceptT ε EngineM α} {k : α → ExceptT ε EngineM β}
    {R : Ledger → Except ε α → Prop} {S : Ledger → Except ε β → Prop} (h : v.Keeps m.run R)
    (ok : ∀ {w : Ledger} (a : α), w.Kept → v.Le w → R w (.ok a) → w.Keeps (k a).run S)
    (error : ∀ w err, R w (.error err) → S w (.error err)) : v.Keeps (m >>= k).run S := by
  rw [ExceptT.run_bind]
  refine h.bind fun r kept le hr => ?_
  cases r with
  | ok a => exact ok a kept le hr
  | error err => exact keeps_pure kept (error _ _ hr)

theorem Keeps.lift {m : EngineM α} (h : v.Keeps m R) :
    v.Keeps (ExceptT.lift m : ExceptT ε EngineM α).run fun w r => ∃ a, r = .ok a ∧ R w a := by
  rw [ExceptT.run_lift]
  exact h.bind fun a kept _ ha => keeps_pure kept ⟨a, rfl, ha⟩

theorem keeps_get {k : Engine → ExceptT ε EngineM β} {S : Ledger → Except ε β → Prop}
    (h : v.Keeps (k v.engine).run S) :
    v.Keeps ((get : ExceptT ε EngineM Engine) >>= k).run S :=
  h

theorem keeps_note (kept : v.Kept) (d : Diagnostic) :
    v.Keeps (EngineM.note d) fun _ _ => True :=
  have le : v.Le (v.after ((EngineM.note d).run v.engine).2) := le_after (.refl _) rfl rfl id
  ⟨le, kept.congr le rfl rfl rfl, trivial⟩

theorem keeps_interning (kept : v.Kept) {make : Interning α} (steady : make.Steady) :
    v.Keeps (EngineM.interning make) fun w a => w.Interns make a :=
  have le : v.Le (v.after ((EngineM.interning make).run v.engine).2) :=
    le_after (.refl _) (steady.home v.engine.types) rfl id
  ⟨le, kept.congr le rfl rfl rfl, v.engine.types, (steady.home v.engine.types).symm, rfl⟩

/-- A new inferrer stands for what it was made for. -/
theorem keeps_newInferrer (kept : v.Kept) {c : Callable} (sound : v.Sound c) :
    v.Keeps (EngineM.newInferrer c) fun w f => w.engine.callable? f = some c := by
  have le : v.Le (v.after { v.engine with callables := v.engine.callables.push c }) :=
    ⟨.refl _, rfl, Program.getElem?_push_of_some, id, id, .rfl⟩
  refine ⟨le, ⟨kept.rules, le.callables kept.anything, le.callables kept.scalarShape, ?_, ?_⟩,
    Array.getElem?_push_size⟩
  · intro f c' known
    replace known : (v.engine.callables.push c)[f.id]? = some c' := known
    rw [Array.getElem?_push] at known
    split at known
    · cases known
      exact sound.mono le
    · exact (kept.sound known).mono le
  · exact fun known => (kept.kept known).mono le

/-- An inferrer is kept under what it stands for. -/
theorem Kept.enter (kept : w.Kept) {key : InferrerKey} {f : Inferrer}
    (holds : w.Holds key.ctx key.callee key.track (.inferrer f)) :
    w.Le (w.after { w.engine with inferrers := w.engine.inferrers.insert key f })
      ∧ (w.after { w.engine with inferrers := w.engine.inferrers.insert key f }).Kept := by
  have le : w.Le (w.after { w.engine with inferrers := w.engine.inferrers.insert key f }) :=
    le_after (.refl _) rfl rfl id
  refine ⟨le, kept.rules, kept.anything, kept.scalarShape, fun known => (kept.sound known).mono le, ?_⟩
  intro other g known
  replace known : (w.engine.inferrers.insert key f).find? other = some g := known
  rw [Table.find?_insert] at known
  split at known
  · rename_i heq
    cases known
    exact heq ▸ holds.mono le
  · exact (kept.kept known).mono le

theorem keeps_cached (kept : v.Kept) {key : InferrerKey}
    {make : ExceptT InferError EngineM Inferrer}
    (makes : v.Keeps make.run fun w r => ∀ f, r = .ok f → w.Holds key.ctx key.callee key.track (.inferrer f)) :
    v.Keeps (EngineM.cached key make).run fun w r =>
      ∀ f, r = .ok f → w.Holds key.ctx key.callee key.track (.inferrer f) := by
  rw [Keeps, EngineM.cached_run]
  cases found : v.engine.inferrers.find? key with
  | some f =>
    refine ⟨.refl v, kept, ?_⟩
    rintro g ⟨⟩
    exact kept.kept found
  | none =>
    obtain ⟨le, kept', holds⟩ := makes
    rcases hout : make.run.run v.engine with ⟨r, e⟩
    rw [hout] at le kept' holds
    cases r with
    | error err => exact ⟨le, kept', by simp⟩
    | ok f =>
      obtain ⟨le', kept''⟩ := kept'.enter (holds f rfl)
      refine ⟨le.trans le', kept'', ?_⟩
      rintro g ⟨⟩
      exact (holds f rfl).mono le'

theorem keeps_primitiveInferrer (kept : v.Kept) (operator : Primitive) (track : Track) :
    v.Keeps (EngineM.primitiveInferrer operator track).run fun w r =>
      ∀ f, r = .ok f → w.Stands operator track f := by
  have stands : v.Keeps (EngineM.primitiveInferrer operator track).run fun w r =>
      ∀ f, r = .ok f → w.Holds .empty (.primitive operator) track (.inferrer f) := by
    refine keeps_cached kept (keeps_get ?_)
    rw [kept.rules]
    cases known : (Registries.builtin.get track).get? operator with
    | some pair =>
      obtain ⟨arity, rule⟩ := pair
      refine (keeps_newInferrer kept (c := .primitive track operator arity rule) known).lift.imp ?_
      rintro w _ - ⟨f, rfl, callable⟩ g ⟨⟩
      exact .operator (.rule known callable)
    | none =>
      have fallback : ∀ f, EngineM.fallback track operator = .ok f → v.Stands operator track f := by
        cases track with
        | value =>
          rintro f ⟨⟩
          exact .anything known kept.anything
        | type => simp [EngineM.fallback]
        | shape =>
          rintro f ⟨⟩
          exact .scalarShape known kept.scalarShape
      refine Keeps.tryBind (R := fun w r => ∀ f, r = .ok f → w.Stands operator track f)
        (m := ExceptT.mk (pure (EngineM.fallback track operator))) (keeps_pure kept fallback)
        (fun f kept _ holds => ?_) (by simp)
      refine Keeps.tryBind (keeps_note kept _).lift (fun _ kept le _ => ?_) (by simp)
      refine keeps_pure kept ?_
      rintro g ⟨⟩
      exact .operator ((holds f rfl).mono le)
  refine stands.imp fun w r _ holds f ok => ?_
  cases holds f ok with
  | operator stands => exact stands

theorem keeps_graphInferrer (kept : v.Kept) (track : Track) (g : GraphId) {ctx : Context}
    (good : v.Good ctx) :
    v.Keeps (EngineM.graphInferrer track g ctx) fun w f =>
      w.engine.callable? f = some (.graph track g ctx) := by
  rw [Keeps, EngineM.graphInferrer_run]
  cases found : v.engine.inferrers.find? { track, callee := .graph g, ctx } with
  | some f =>
    refine ⟨.refl v, kept, ?_⟩
    cases kept.kept found with
    | graph callable => exact callable
  | none =>
    obtain ⟨le, kept', callable⟩ := keeps_newInferrer kept (c := .graph track g ctx) good
    have holds : (v.after _).Holds ctx (.graph g) track (.inferrer _) := .graph callable
    obtain ⟨le', kept''⟩ := @Kept.enter _ kept' { track, callee := .graph g, ctx } _ holds
    exact ⟨le.trans le', kept'', callable⟩

theorem keeps_classInferrer (kept : v.Kept) (cls : RecordClass) (track : Track) :
    v.Keeps (EngineM.classInferrer cls track).run fun w r =>
      ∀ f, r = .ok f → w.Holds .empty (.recordType cls) track (.inferrer f) := by
  refine keeps_cached kept ?_
  refine Keeps.tryBind (keeps_primitiveInferrer kept .makeRecord track)
    (fun make kept _ stands => ?_) (by simp)
  refine Keeps.tryBind (keeps_interning kept (Interning.steady_declaredType cls)).lift
    (fun declared kept le declares => ?_) (by simp)
  refine Keeps.tryBind (keeps_interning kept (Interning.steady_generic .type)).lift
    (fun {u} type kept le' interned => ?_) (by simp)
  obtain ⟨_, ⟨⟩, declares⟩ := declares
  obtain ⟨_, ⟨⟩, interned⟩ := interned
  have sure : u.Sound (.bound make [.constant (.type declared) type]) := by
    intro x hx
    cases List.mem_singleton.mp hx
    rw [interned.of_intern]
    exact sure_typeConstant ⟨.empty _, rfl⟩
  refine (keeps_newInferrer kept sure).lift.imp ?_
  rintro w _ le'' ⟨f, rfl, callable⟩ g ⟨⟩
  exact .recordType ((stands make rfl).mono (le.trans (le'.trans le''))) (declares.mono (le'.trans le''))
    (interned.mono le'') callable

theorem keeps_dataProperty (kept : v.Kept) {c : Constant} (data : c.isCallable = false)
    (ctx : Context) (track : Track) :
    v.Keeps (EngineM.dataProperty track c).run fun w r => ∀ p, r = .ok p → w.Holds ctx c track p := by
  cases track with
  | value =>
    refine keeps_pure kept ?_
    rintro p ⟨⟩
    exact .value data
  | type =>
    refine Keeps.tryBind (keeps_interning kept (Interning.steady_typeOfConstant c)).lift
      (fun r kept _ interned => ?_) (by simp)
    obtain ⟨_, ⟨⟩, interned⟩ := interned
    cases r with
    | error err => exact keeps_pure kept (by simp)
    | ok t =>
      refine keeps_pure kept ?_
      rintro p ⟨⟩
      exact .type data interned
  | shape =>
    refine Keeps.tryBind (R := fun _ r => r = Shape.ofConstant c)
      (m := ExceptT.mk (pure (Shape.ofConstant c))) (keeps_pure kept rfl) (fun s kept _ own => ?_)
      (by simp)
    refine keeps_pure kept ?_
    rintro p ⟨⟩
    exact .shape data own.symm

theorem keeps_inferrerProperty {make : ExceptT InferError EngineM Inferrer} {R : Ledger → Property → Prop}
    (h : v.Keeps make.run fun w r => ∀ f, r = .ok f → R w (.inferrer f)) :
    v.Keeps (do return Property.inferrer (← make) : ExceptT InferError EngineM Property).run
      fun w r => ∀ p, r = .ok p → R w p := by
  refine Keeps.tryBind h (fun f kept _ holds => keeps_pure kept ?_) (by simp)
  rintro p ⟨⟩
  exact holds f rfl

theorem keeps_constantProperty (kept : v.Kept) (c : Constant) {ctx : Context} (good : v.Good ctx)
    (track : Track) :
    v.Keeps (EngineM.constantProperty c ctx track).run fun w r =>
      ∀ p, r = .ok p → w.Holds ctx c track p := by
  cases c with
  | primitive operator =>
    refine keeps_inferrerProperty ((keeps_primitiveInferrer kept operator track).imp ?_)
    exact fun w r _ stands f ok => .operator (stands f ok)
  | graph g =>
    refine keeps_inferrerProperty ((keeps_graphInferrer kept track g good).lift.imp ?_)
    rintro w _ - ⟨f, rfl, callable⟩ _ ⟨⟩
    exact .graph callable
  | metaGraph m =>
    have holds : v.Keeps (EngineM.cached { track, callee := .metaGraph m, ctx := .empty }
        (EngineM.newInferrer (.metaGraph track m))).run fun w r =>
          ∀ f, r = .ok f → w.Holds .empty (.metaGraph m) track (.inferrer f) := by
      refine keeps_cached kept ((keeps_newInferrer kept (c := .metaGraph track m) trivial).lift.imp ?_)
      rintro w _ - ⟨f, rfl, callable⟩ _ ⟨⟩
      exact .metaGraph callable
    refine keeps_inferrerProperty (holds.imp fun w r _ holds f ok => ?_)
    cases holds f ok with
    | metaGraph callable => exact .metaGraph callable
  | recordType cls =>
    refine keeps_inferrerProperty ((keeps_classInferrer kept cls track).imp fun w r _ holds f ok => ?_)
    cases holds f ok with
    | recordType stands declares interned callable =>
      exact .recordType stands declares interned callable
  | _ => exact keeps_dataProperty kept rfl ctx track

theorem keeps_generate (kept : v.Kept) (m : MetaGraph) (types : List Ty) :
    v.Keeps (EngineM.generate m types).run fun w r =>
      ∀ g, r = .ok g → w.engine.generated.find? { generator := m, types } = some g := by
  rw [Keeps, EngineM.generate_run]
  cases found : v.engine.generated.find? { generator := m, types } with
  | some g =>
    refine ⟨.refl v, kept, ?_⟩
    rintro _ ⟨⟩
    exact found
  | none =>
    cases made : m.generate v.engine.program types with
    | error err => exact ⟨.refl v, kept, by simp⟩
    | ok pair =>
      obtain ⟨g, program⟩ := pair
      have le : v.Le (v.after { v.engine with
          program, generated := v.engine.generated.insert { generator := m, types } g }) := by
        refine le_after (Program.sprouts_generate made) rfl rfl fun {key g'} known => ?_
        have other : { generator := m, types } ≠ key := by
          rintro rfl
          rw [found] at known
          cases known
        exact (Table.find?_insert_of_ne _ _ other).trans known
      refine ⟨le, kept.congr le rfl rfl rfl, ?_⟩
      rintro _ ⟨⟩
      exact Table.find?_insert_self _ _ _

theorem keeps_specialize (kept : v.Kept) (graph : GraphId) (ctx : Context) :
    v.Keeps (EngineM.specialize graph ctx).run fun _ _ => True := by
  rw [Keeps, EngineM.specialize_run]
  have entered : ∀ {e : Engine}, e.program = v.engine.program → e.types = v.engine.types →
      e.rules = v.engine.rules → e.callables = v.engine.callables →
      e.inferrers = v.engine.inferrers → e.generated = v.engine.generated →
      v.Le (v.after e) ∧ (v.after e).Kept ∧ True := by
    intro e program types rules callables inferrers generated
    have le : v.Le (v.after e) :=
      le_after (program ▸ .refl _) (congrArg TypeCache.home types) callables (by simp [generated])
    exact ⟨le, kept.congr le rules callables inferrers, trivial⟩
  split
  · exact ⟨.refl v, kept, trivial⟩
  · split <;> exact entered rfl rfl rfl rfl rfl rfl

/-- A permitted question gets an answer that the ledger has from then on. -/
theorem keeps_answer (kept : v.Kept) {query : Query} (permitted : v.Permits query) :
    v.Keeps (EngineM.answer query) fun w a => w.Answers query a := by
  cases query with
  | describe subject => exact ⟨.refl v, kept, trivial⟩
  | note d => exact keeps_note kept d
  | intern make => exact keeps_interning kept permitted
  | constant value ctx track => exact keeps_constantProperty kept value permitted track
  | graphInferrer track graph ctx => exact keeps_graphInferrer kept track graph permitted
  | bind inner bound => exact keeps_newInferrer kept (c := .bound inner bound) permitted
  | scalarShape => exact keeps_newInferrer kept (c := .scalarShape) trivial
  | anything => exact keeps_newInferrer kept (c := .anything) trivial
  | generate generator types => exact keeps_generate kept generator types
  | specialize graph ctx => exact keeps_specialize kept graph ctx
  | locate node ctx => exact ⟨.refl v, kept, Good.below permitted, rfl⟩
  | node id => exact ⟨.refl v, kept, .inl rfl⟩
  | graph id => exact ⟨.refl v, kept, .inl rfl⟩

end Ledger

end ArrayInference
