import ArrayInference.Proofs.Engine.History
import ArrayInference.Proofs.Run.Bounded
import ArrayInference.Proofs.Run.Root
import ArrayInference.Rules.Sample

/-!
# What a registration drops

A rule is registered for an operator that has none on its track. Then the inferrers of the operator
are dropped, and the entries that have one of them as their property, and whatever has read one of
those, directly or not. Everything else stays. Reads that were not recorded are not followed.
-/

namespace ArrayInference

namespace Engine

variable {e : Engine} {track : Track} {operator : Primitive}

/-- An inferrer of an operator, as the engine keeps it on a track. -/
def Keeps (e : Engine) (track : Track) (operator : Primitive) (f : Inferrer) : Prop :=
  ∃ key, (key, f) ∈ e.inferrers ∧ key.track = track ∧ key.callee = .primitive operator

/-- An entry whose property is an inferrer of the operator. -/
def Holds (e : Engine) (track : Track) (operator : Primitive) (key : Entry) : Prop :=
  key.track = track ∧ ∃ p f, e.memo.find? key = some p ∧ p.result = some (.ok (.inferrer f))
    ∧ e.Keeps track operator f

/-- An entry that a registration concerns: it holds an inferrer of the operator, or it has read an
entry that the registration concerns. -/
def Concerned (e : Engine) (track : Track) (operator : Primitive) (key : Entry) : Prop :=
  ∃ start, e.Holds track operator start ∧ Relation.ReflTransGen e.readers.Edge start key

/-- The entries at which a registration begins. -/
def holders (e : Engine) (track : Track) (operator : Primitive) : List Entry :=
  (e.memo.filter fun entry => holdsAny track
    ((e.inferrers.filter fun kept =>
      kept.1.track = track && kept.1.callee = .primitive operator).map (·.2))
    entry.1 entry.2).map (·.1)

theorem mem_stale {f : Inferrer} :
    f ∈ (e.inferrers.filter fun entry =>
        entry.1.track = track && entry.1.callee = .primitive operator).map (·.2)
      ↔ e.Keeps track operator f := by
  simp [Keeps, and_assoc]

theorem holdsAny_iff {stale : List Inferrer} {key : Entry} {p : Promise TaskId} :
    holdsAny track stale key p = true
      ↔ key.track = track ∧ ∃ f ∈ stale, p.result = some (.ok (.inferrer f)) := by
  rw [holdsAny, Bool.and_eq_true, decide_eq_true_iff]
  refine and_congr_right fun _ => ?_
  split
  · rename_i f hresult
    simp [hresult]
  · rename_i other
    refine ⟨by simp, ?_⟩
    rintro ⟨f, -, hresult⟩
    exact absurd hresult (other f)

theorem mem_holders (distinct : e.memo.Distinct) {start : Entry} :
    start ∈ e.holders track operator ↔ e.Holds track operator start := by
  rw [holders, List.mem_map]
  constructor
  · rintro ⟨⟨key, p⟩, hmem, rfl⟩
    obtain ⟨found, holds⟩ := List.mem_filter.mp hmem
    obtain ⟨htrack, f, stale, hresult⟩ := holdsAny_iff.mp holds
    exact ⟨htrack, p, f, Table.find?_of_mem distinct found, hresult, mem_stale.mp stale⟩
  · rintro ⟨htrack, p, f, found, hresult, stale⟩
    refine ⟨(start, p), List.mem_filter.mpr ⟨Table.mem_of_find? found, ?_⟩, rfl⟩
    exact holdsAny_iff.mpr ⟨htrack, f, mem_stale.mpr stale, hresult⟩

/-- What is dropped for an operator that had no rule. -/
theorem registerRule_of_new (settled : e.Settled) (arity : Arity) (rule : Rule)
    (new : (e.rules.get track).contains operator = false) :
    ∃ f, e.registerRule track operator arity rule = (.ok (), f)
      ∧ f.rules = e.rules.set track ((e.rules.get track).insert operator arity rule)
      ∧ (∀ g, ¬ f.Keeps track operator g)
      ∧ ∀ key, (e.Concerned track operator key → f.memo.find? key = none ∧ f.readers.find? key = none)
        ∧ (¬ e.Concerned track operator key →
          f.memo.find? key = e.memo.find? key ∧ f.readers.find? key = e.readers.find? key) := by
  rw [registerRule, Registry.register, if_neg (by simp [new])]
  refine ⟨_, rfl, rfl, ?_, fun key => ?_⟩
  · rintro g ⟨key, hmem, htrack, hcallee⟩
    have hkept := (List.mem_filter.mp hmem).2
    simp [htrack, hcallee] at hkept
  · have dropped := Memo.dropped_dropAll 0 settled.memo settled.readers (e.holders track operator)
    constructor
    · rintro ⟨start, holds, path⟩
      exact dropped.gone_of_reaches ((mem_holders settled.memo).mpr holds) path
    · intro free
      rcases dropped.kept key with kept | ⟨-, start, hstart, path⟩
      · exact kept
      · exact absurd ⟨start, (mem_holders settled.memo).mp hstart, path⟩ free

/-- Whatever the life of an engine was, a second rule of an operator on a track is refused and changes
nothing. The first one is accepted, and what is left of inferrers and entries is exactly what the
registration does not concern. -/
theorem registerRule_drops (arises : e.Arises) (track : Track) (operator : Primitive) (arity : Arity)
    (rule : Rule) :
    ((e.rules.get track).contains operator = true →
        ∃ err, e.registerRule track operator arity rule = (.error err, e))
      ∧ ((e.rules.get track).contains operator = false →
        ∃ f, e.registerRule track operator arity rule = (.ok (), f)
          ∧ f.rules = e.rules.set track ((e.rules.get track).insert operator arity rule)
          ∧ (∀ g, ¬ f.Keeps track operator g)
          ∧ ∀ key,
            (e.Concerned track operator key →
              f.memo.find? key = none ∧ f.readers.find? key = none)
            ∧ (¬ e.Concerned track operator key →
              f.memo.find? key = e.memo.find? key ∧ f.readers.find? key = e.readers.find? key)) := by
  refine ⟨fun known => ?_, fun new => registerRule_of_new arises.settled arity rule new⟩
  rw [registerRule, Registry.register, if_pos known]
  exact ⟨_, rfl⟩

/-- A graph that applies an operator without a rule. -/
def doubling : Program where
  graphs := #[⟨"main", none, [], some ⟨2⟩⟩]
  nodes :=
    #[⟨.constant (.int 1), none, none⟩, ⟨.constant (.primitive ⟨"double_rows"⟩), none, none⟩,
      ⟨.apply [⟨1⟩, ⟨0⟩], some ⟨0⟩, none⟩]

/-- The application of `doubling` has its shape from the fallback, until the operator is given a
rule. -/
theorem registerRule_drops_doubling : ∃ (e f : Engine) (key : Entry), e.Arises
    ∧ (e.memo.find? key).bind (fun p => p.result.bind Except.toOption) = some (.shape .noShape)
    ∧ e.registerRule .shape ⟨"double_rows"⟩ (.exactly 1) SampleRules.doubleRows = (.ok (), f)
    ∧ f.memo.find? key = none := by
  have hrun : (Run.driveWithin 10 30
      (Run.asking (.new doubling (.empty ⟨0⟩) .standard) ⟨0⟩ [] .shape)).map
        (fun t => ((t.close.rules.get .shape).contains ⟨"double_rows"⟩,
          (t.close.memo.find? ⟨⟨⟨2⟩, .frame .empty ⟨0⟩ []⟩, .shape⟩).bind
            fun p => p.result.bind Except.toOption,
          decide (⟨⟨⟨1⟩, .empty⟩, .shape⟩ ∈ t.close.holders .shape ⟨"double_rows"⟩),
          decide (⟨⟨⟨2⟩, .frame .empty ⟨0⟩ []⟩, .shape⟩ ∈
            t.close.readers.of ⟨⟨⟨1⟩, .empty⟩, .shape⟩)))
        = some (false, some (.shape .noShape), true, true) := by
    decide +kernel
  obtain ⟨log, t, polls, finished, hseen⟩ := Run.exists_polls_of_driveWithin rfl hrun
  simp only [Prod.mk.injEq, decide_eq_true_eq] at hseen
  obtain ⟨new, hfallback, hholder, hreader⟩ := hseen
  have arises : t.close.Arises := .ran (.answered (.new _ _ _) (.graphInferrer _ _ _)) _ polls finished
  have concerned : t.close.Concerned .shape ⟨"double_rows"⟩ ⟨⟨⟨2⟩, .frame .empty ⟨0⟩ []⟩, .shape⟩ :=
    ⟨_, (mem_holders arises.settled.memo).mp hholder, .single hreader⟩
  obtain ⟨f, accepted, -, -, left⟩ :=
    (registerRule_drops arises .shape ⟨"double_rows"⟩ (.exactly 1) SampleRules.doubleRows).2 new
  exact ⟨_, f, _, arises, hfallback, accepted, ((left _).1 concerned).1⟩

end Engine

end ArrayInference
