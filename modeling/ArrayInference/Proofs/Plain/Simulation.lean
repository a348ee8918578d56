import ArrayInference.Proofs.Plain.Answers
import ArrayInference.Proofs.Plain.Paths
import ArrayInference.Proofs.Run.Follows

/-!
# A turn and a plain evaluation

A turn does to a computation what the plain evaluation does to the one that is the same in its place.
What the turn reads from the memo is what the plain evaluation finds, so each step leads from the same
to the same. The plain evaluation comes to an end, and hence the turn does too.
-/

namespace ArrayInference

open Engine

namespace Plain

/-- A program without graph generators, under rules that do not look at the numbers of inferrers. -/
structure Fit (P : Plain) : Prop where
  free : P.program.MetaFree
  fair : ∀ track, (P.rules.get track).Fair

end Plain

/-- A call of an inferrer does the same. -/
theorem similar_body {P : Plain} (fit : P.Fit) {w : World} {c : Callable} {i : Identity}
    (same : SameCallable P w c i) {args args₀ : List Ref} (passed : List.Forall₂ (SameRef w) args args₀) :
    ∃ c₀, P.callable i = some c₀ ∧ Similar SameProperty w (c.body args) (c₀.body args₀) := by
  cases same with
  | scalarShape => exact ⟨_, rfl, .done (.shape _)⟩
  | anything => exact ⟨_, rfl, .done .anything⟩
  | @primitive track operator arity rule known =>
    refine ⟨.primitive track operator arity rule, ?_, ?_⟩
    · rw [Plain.callable, known]
      rfl
    · rw [Callable.body, Callable.body, passed.length_eq]
      split
      · exact fit.fair track operator arity rule known w track args args₀ passed
      · exact .fail _
  | graph track graph same => exact ⟨_, rfl, similar_callGraph track graph same passed⟩
  | bound same first =>
    exact ⟨_, rfl, similar_callInferrer same (List.rel_append first passed)⟩

/-- An engine whose results are those of the plain evaluation. -/
structure Engine.Faithful (P : Plain) (e : Engine) (reading : Nat → Inferrer) : Prop where
  readable : Reading P e reading
  results : ∀ {key : Entry} {p : Promise TaskId} {r : Outcome}, e.memo.find? key = some p →
    p.result = some r → ∃ key₀ r₀, SameEntry (e.world reading) key key₀
      ∧ SameOutcome (e.world reading) r r₀ ∧ P.FindsEntry key₀ r₀

section

variable {α : Type} {P : Plain} {e : Engine} {reading : Nat → Inferrer}

/-- A call that an engine that can be read makes. -/
theorem Similar.call_body (fit : P.Fit) (h : Reading P e reading) {f : Inferrer} {args : List Ref}
    {next : Property → Infer Property} {b : Infer Property}
    (same : Similar SameProperty (e.world reading) (.call f args next) b) :
    ∃ f₀ args₀ next₀ c c₀, b = .call f₀ args₀ next₀ ∧ e.callable? f = some c
      ∧ P.callable? f₀ = some c₀
      ∧ Similar SameProperty (e.world reading) ((c.body args).bind next)
        ((c₀.body args₀).bind next₀) := by
  cases same with
  | @call _ _ f₀ _ args₀ _ next₀ same passed rest =>
    obtain ⟨c, found⟩ := same.known
    obtain ⟨i, hi, read⟩ := h.reads found
    obtain ⟨c₀, known, hbody⟩ := similar_body fit hi passed
    refine ⟨f₀, args₀, next₀, c, c₀, rfl, found, ?_, hbody.seq rest⟩
    rw [Plain.callable?, ← same.read, show (e.world reading).reading f.id = _ from read,
      Numbering.inferrer, P.names.meaning_number]
    exact known

/-- What the memo has for an entry is what the plain evaluation finds. -/
theorem Engine.Faithful.finds (h : Faithful P e reading) {key key₀ : Entry}
    (same : SameEntry (e.world reading) key key₀) {p : Promise TaskId} {r : Outcome}
    (found : e.memo.find? key = some p) (ready : p.result = some r) :
    ∃ r₀, SameOutcome (e.world reading) r r₀ ∧ P.FindsEntry key₀ r₀ := by
  obtain ⟨key₁, r₀, same', hr, finds⟩ := h.results found ready
  rw [same.unique same']
  exact ⟨r₀, hr, finds⟩

/-- The reading of a property that is there. -/
theorem Similar.read (h : Faithful P e reading) {start : Infer Property} {n : Nat} {key : Entry}
    {next : Property → Infer Property} {b : Infer Property}
    (same : Similar SameProperty (e.world reading) (.demand key next) b) (leads : P.Leads start n b)
    {p : Promise TaskId} {v : Property} (found : e.memo.find? key = some p)
    (ready : p.result = some (.ok v)) :
    ∃ b', Similar SameProperty (e.world reading) (next v) b' ∧ P.Leads start (n + 1) b' := by
  cases same with
  | @demand _ _ key₀ _ next₀ same rest =>
    obtain ⟨r₀, hr, finds⟩ := h.finds same found ready
    cases hr with
    | @ok _ v₀ hv => exact ⟨next₀ v₀, rest (.refl _) hv, leads.read finds⟩

/-- Only the results and what can be read matter. -/
theorem Engine.Faithful.congr {f : Engine} (h : Faithful P e reading)
    (program : f.program = e.program) (rules : f.rules = e.rules)
    (home : f.types.home = e.types.home) (callables : f.callables = e.callables)
    (inferrers : f.inferrers = e.inferrers) (contexts : f.specializations = e.specializations)
    (results : ∀ {key p r}, f.memo.find? key = some p → p.result = some r →
      ∃ q, e.memo.find? key = some q ∧ q.result = some r) : Faithful P f reading where
  readable := h.readable.congr program rules home callables inferrers contexts
  results := by
    intro key p r found ready
    obtain ⟨q, hq, hr⟩ := results found ready
    rw [Reading.world_eq callables contexts]
    exact h.results hq hr

theorem Engine.Faithful.answered (h : Faithful P e reading) {query : Query}
    {later : Nat → Inferrer} (le : (e.world reading).Le (((EngineM.answer query).run e).2.world later))
    (hread : Reading P ((EngineM.answer query).run e).2 later) :
    Faithful P ((EngineM.answer query).run e).2 later where
  readable := hread
  results := by
    intro key p r found ready
    rw [(EngineM.grows_answer query e).memo] at found
    obtain ⟨key₀, r₀, same, hr, finds⟩ := h.results found ready
    exact ⟨key₀, r₀, same.mono le, hr.mono le, finds⟩

end

namespace Run

variable {P : Plain} {s t : Run} {reading : Nat → Inferrer} {reader : Option Entry}
  {start b b₀ b' : Infer Property} {log : List Event} {V D : List Entry} {n N : Nat}

theorem faithful_addReader (h : Faithful P s.engine reading) (key : Entry) (reader : Option Entry) :
    Faithful P (s.addReader key reader).engine reading := by
  cases reader with
  | none => exact h
  | some reader => exact h.congr rfl rfl rfl rfl rfl rfl fun found ready => ⟨_, found, ready⟩

theorem world_addReader (s : Run) (key : Entry) (reader : Option Entry) (reading : Nat → Inferrer) :
    (s.addReader key reader).engine.world reading = s.engine.world reading := by
  cases reader <;> rfl

/-- The state of a computation, and the one that is the same in its place after `n` steps. -/
structure Beside (P : Plain) (start : Infer Property) (s : Run) (reading : Nat → Inferrer)
    (b : Infer Property) (n : Nat) (b₀ : Infer Property) : Prop where
  faithful : Faithful P s.engine reading
  same : Similar SameProperty (s.engine.world reading) b b₀
  leads : P.Leads start n b₀

/-- A step of a turn. -/
theorem Beside.step (fit : P.Fit) (h : Beside P start s reading b n b₀)
    (step : Step reader b s log b' t) :
    (∃ later b₀', (s.engine.world reading).Le (t.engine.world later)
      ∧ Beside P start t later b' (n + 1) b₀')
    ∨ (t.engine.Exceeded ∧ ∃ err, b' = .fail err) := by
  cases step with
  | ask query next =>
    rcases h.same.answer fit.free h.faithful.readable with
      ⟨query₀, next₀, a₀, rfl, known, later, le, hread, hsame⟩ | hexceeded
    · exact Or.inl ⟨later, next₀ a₀, le, h.faithful.answered le hread, hsame, h.leads.ask known⟩
    · exact Or.inr hexceeded
  | @read key next _ p v found ready =>
    obtain ⟨b₀', hsame, hleads⟩ := h.same.read h.faithful h.leads found ready
    have hworld := world_addReader s key reader reading
    refine Or.inl ⟨reading, b₀', ?_, faithful_addReader h.faithful key reader, ?_, hleads⟩
    · rw [hworld]
      exact .refl _
    · rw [hworld]
      exact hsame
  | @call callee args next _ c found =>
    obtain ⟨f₀, args₀, next₀, c', c₀, rfl, found', known, hsame⟩ :=
      h.same.call_body fit h.faithful.readable
    rw [found, Option.some.injEq] at found'
    subst found'
    exact Or.inl ⟨reading, _, .refl _, h.faithful, hsame, h.leads.call known⟩

/-- The steps of a turn. -/
theorem Beside.steps (fit : P.Fit) (h : Beside P start s reading b n b₀)
    (steps : Steps reader b s log b' t) :
    (∃ later m b₀', n ≤ m ∧ (s.engine.world reading).Le (t.engine.world later)
      ∧ Beside P start t later b' m b₀')
    ∨ (t.engine.Exceeded ∧ ∃ err, b' = .fail err) := by
  induction steps generalizing reading n b₀ with
  | refl b s => exact Or.inl ⟨reading, n, b₀, Nat.le_refl n, .refl _, h⟩
  | head first rest ih =>
    rcases h.step fit first with ⟨later, b₀', le, h'⟩ | ⟨hexceeded, err, rfl⟩
    · rcases ih h' with ⟨last, m, b₀'', hm, le', h''⟩ | hexceeded
      · exact Or.inl ⟨last, m, b₀'', by omega, le.trans le', h''⟩
      · exact Or.inr hexceeded
    · cases rest with
      | refl => exact Or.inr ⟨hexceeded, err, rfl⟩
      | head first' _ => cases first'

/-- A turn comes to an end if the plain evaluation does. -/
theorem Beside.halts (fit : P.Fit) (loops : P.Loops D) (within : P.Within V D N start)
    (h : Beside P start s reading b n b₀) (self : TaskId) (reader : Option Entry) :
    ∃ log b₁ s₁ log₁ progress s₂, Steps reader b s log b₁ s₁
      ∧ Halt self reader b₁ s₁ log₁ progress s₂ := by
  induction hleft : N - n using Nat.strongRecOn generalizing s reading b n b₀ with
  | ind left ih =>
    rcases step_or_halt self reader b s with ⟨log, b', t, step⟩ | ⟨log, progress, t, halt⟩
    · rcases h.step fit step with ⟨later, b₀', -, h'⟩ | ⟨-, err, rfl⟩
      · have hle := h'.leads.le loops within
        obtain ⟨log', b₁, s₁, log₁, progress, s₂, steps, halt⟩ := ih (N - (n + 1)) (by omega) h' rfl
        exact ⟨_, b₁, s₁, log₁, progress, s₂, .head step steps, halt⟩
      · exact ⟨_, _, _, _, _, _, .head step (.refl _ _), .fail err t⟩
    · exact ⟨_, _, _, _, _, _, .refl _ _, halt⟩

end Run

end ArrayInference
