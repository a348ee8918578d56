import ArrayInference.Proofs.Plain.Mirroring

/-!
# What a turn keeps

A turn of a run that mirrors a plain evaluation leaves one that does so too, and its task has come
further than before.
-/

namespace ArrayInference

open Engine

theorem Engine.Exceeded.mono {e f : Engine} (h : e.Exceeded) (ext : e.Extends f) : f.Exceeded := by
  obtain ⟨graph, h⟩ := h
  refine ⟨graph, ?_⟩
  rw [ext.config]
  exact Nat.lt_of_lt_of_le h (ext.contexts graph).length_le

namespace Run

variable {P : Plain} {root start b b₀ : Infer Property} {s t u : Run}
  {reading later : Nat → Inferrer} {pos : TaskId → Nat} {self : TaskId} {goal : Goal} {work : Work}
  {key : Entry} {m n N : Nat} {next : Property → Infer Property} {log : List Event}

namespace Mirrors

/-- A task has ended. -/
theorem ended (h : Mirrors P root s reading pos) (tidy : Tidy [] (some self) s)
    (known : s.tasks.find? self = some ⟨goal, work⟩)
    (starts : Starts P root (s.engine.world reading) goal start) {r r₀ : Outcome}
    (same : SameOutcome (s.engine.world reading) r r₀) (finds : P.Finds start r₀) :
    ∃ pos', Mirrors P root (s.endTask self goal r) reading pos'
      ∧ ∀ N, P.Bounds root N → Nearer N self s (s.endTask self goal r) pos pos' := by
  have ending := (ending_endTask s self goal r).same
  refine ⟨pos, h.endTask tidy.distinct known starts same finds, fun N _ => ?_⟩
  exact nearer_of_erase tidy.distinct (tidy.bounded known) known ending.1 ending.2.1

/-- A task has begun to wait for an entry that is computed already. -/
theorem waits (h : Mirrors P root s reading pos) (tidy : Tidy [] (some self) s)
    (known : s.tasks.find? self = some ⟨goal, work⟩)
    (mirrored : Mirrored P root (s.engine.world reading) ⟨goal, .waiting (.entry key) next⟩ m)
    {p : Promise TaskId} (found : s.engine.memo.find? key = some p) (missing : p.result = none)
    (further : ∀ N, P.Bounds root N → 2 * (N - m) < 2 * (N - pos self) + work.extra) :
    ∃ pos', Mirrors P root
        ((s.waitOn self (.entry key) p).settle self goal (.waiting (.entry key) next)) reading pos'
      ∧ ∀ N, P.Bounds root N → Nearer N self s
        ((s.waitOn self (.entry key) p).settle self goal (.waiting (.entry key) next)) pos pos' := by
  refine ⟨Function.update pos self m, (h.waitOn found missing self).park known mirrored,
    fun N bounds => ?_⟩
  refine nearer_of_wait (tidy.bounded known) known (Nat.le_refl _) (fun x hne _ => ⟨?_, ?_⟩)
    (Table.find?_insert_self _ _ _) ?_
  · exact Table.find?_insert_of_ne _ _ (Ne.symm hne)
  · exact Function.update_of_ne hne _ _
  · rw [Function.update_self]
    exact further N bounds

/-- A task has begun to wait for an entry that nobody has asked for. -/
theorem begins (h : Mirrors P root s reading pos) (tidy : Tidy [] (some self) s)
    (known : s.tasks.find? self = some ⟨goal, work⟩)
    (mirrored : Mirrored P root (s.engine.world reading) ⟨goal, .waiting (.entry key) next⟩ m)
    (absent : s.engine.memo.find? key = none) {key₀ : Entry}
    (same : SameEntry (s.engine.world reading) key key₀) (needs : P.Needs root key₀)
    (further : ∀ N, P.Bounds root N → 2 * (N - m) < 2 * (N - pos self) + work.extra) :
    ∃ pos', Mirrors P root
        ((s.beginEntry self key).settle self goal (.waiting (.entry key) next)) reading pos'
      ∧ ∀ N, P.Bounds root N → Nearer N self s
        ((s.beginEntry self key).settle self goal (.waiting (.entry key) next)) pos pos' := by
  have begun := tidy.bounded known
  have fresh : s.tasks.find? s.nextTask = none := by
    cases hf : s.tasks.find? s.nextTask with
    | none => rfl
    | some task => exact absurd (tidy.bounded hf) (Nat.lt_irrefl _)
  have hself : (s.beginEntry self key).tasks.find? self = some ⟨goal, work⟩ := by
    rw [find?_beginEntry, if_neg (Nat.ne_of_gt begun), known]
  refine ⟨Function.update (Function.update pos s.nextTask 0) self m,
    (h.beginEntry fresh absent same needs self).park hself mirrored, fun N bounds => ?_⟩
  refine nearer_of_wait begun known (Nat.le_succ _) (fun x hne hx => ⟨?_, ?_⟩)
    (Table.find?_insert_self _ _ _) ?_
  · refine (Table.find?_insert_of_ne _ _ (Ne.symm hne)).trans ?_
    rw [find?_beginEntry, if_neg (Nat.ne_of_gt hx)]
  · rw [Function.update_of_ne hne, Function.update_of_ne (Nat.ne_of_lt hx)]
  · rw [Function.update_self]
    exact further N bounds

theorem addReader_tasks (s : Run) (key : Entry) (reader : Option Entry) :
    (s.addReader key reader).tasks = s.tasks := by
  cases reader <;> rfl

theorem nearer_of_addReader {pos' : TaskId → Nat} {reader : Option Entry}
    (h : Nearer N self (s.addReader key reader) t pos pos') : Nearer N self s t pos pos' := by
  cases reader <;> exact h

theorem size_beginRace (s : Run) (self : TaskId) (site : Option Entry) (track : Track)
    (use : BranchUse) (first second : Ref) :
    (s.beginRace self site track use first second).cells.size = s.cells.size + 1 := by
  rw [beginRace, (setPromise_same _ _ _).2.2.2.2.1]
  exact Array.size_push _

/-- The last step of a turn. -/
theorem halted (fit : P.Fit) (h : Mirrors P root s reading pos) (tidy : Tidy [] (some self) s)
    (known : s.tasks.find? self = some ⟨goal, work⟩)
    (starts : Starts P root (s.engine.world reading) goal start)
    (same : Similar SameProperty (s.engine.world reading) b b₀) (leads : P.Leads start m b₀)
    {progress : Progress Property} (halt : Halt self goal.reader b s log progress u)
    (decided : u.cells.size = s.cells.size)
    (further : ∀ N, P.Bounds root N → 2 * (N - m) < 2 * (N - pos self) + work.extra) :
    ∃ pos', Mirrors P root (u.settle self goal progress) reading pos'
      ∧ ∀ N, P.Bounds root N → Nearer N self s (u.settle self goal progress) pos pos' := by
  cases halt with
  | done p =>
    cases same with
    | done hp => exact h.ended tidy known starts (.ok hp) (leads.finds ⟨0, .done 0 _⟩)
  | fail e =>
    cases same with
    | fail => exact h.ended tidy known starts (.error e) (leads.finds ⟨0, .fail 0 e⟩)
  | forever => cases same
  | @readFailed key next _ p e found failed =>
    cases same with
    | demand hkey rest =>
      obtain ⟨r₀, hr, finds⟩ := h.faithful.finds hkey found failed
      cases hr
      have known' := (addReader_tasks s key goal.reader).symm ▸ known
      obtain ⟨pos', hmirrors, hnearer⟩ := (h.addReader key goal.reader).ended
        (tidy.addReader key goal.reader) known' (world_addReader s key goal.reader reading ▸ starts)
        (.error e) (leads.finds (.failed finds))
      exact ⟨pos', hmirrors, fun N bounds => nearer_of_addReader (hnearer N bounds)⟩
  | @wait key next _ p found missing =>
    have mirrored : Mirrored P root (s.engine.world reading) ⟨goal, .waiting (.entry key) next⟩ m :=
      .mk starts (.waiting key next) same leads
    have known' := (addReader_tasks s key goal.reader).symm ▸ known
    have found' := (addReader_memo s key goal.reader).symm ▸ found
    obtain ⟨pos', hmirrors, hnearer⟩ := (h.addReader key goal.reader).waits
      (tidy.addReader key goal.reader) known' (world_addReader s key goal.reader reading ▸ mirrored)
      found' missing further
    exact ⟨pos', hmirrors, fun N bounds => nearer_of_addReader (hnearer N bounds)⟩
  | @begin key next _ absent =>
    have mirrored : Mirrored P root (s.engine.world reading) ⟨goal, .waiting (.entry key) next⟩ m :=
      .mk starts (.waiting key next) same leads
    have known' := (addReader_tasks s key goal.reader).symm ▸ known
    have absent' := (addReader_memo s key goal.reader).symm ▸ absent
    cases same with
    | demand hkey rest =>
      obtain ⟨pos', hmirrors, hnearer⟩ := (h.addReader key goal.reader).begins
        (tidy.addReader key goal.reader) known' (world_addReader s key goal.reader reading ▸ mirrored)
        absent' (world_addReader s key goal.reader reading ▸ hkey) (starts.passes.needs leads) further
      exact ⟨pos', hmirrors, fun N bounds => nearer_of_addReader (hnearer N bounds)⟩
  | uncallable unknown =>
    obtain ⟨_, _, _, c, _, rfl, found, -⟩ := same.call_body fit h.faithful.readable
    rw [unknown] at found
    cases found
  | race track use first second next =>
    rw [size_beginRace] at decided
    exact absurd decided (Nat.succ_ne_self _)

/-- A turn that goes on with a computation. -/
theorem moved (fit : P.Fit) (h : Mirrors P root s reading pos) (tidy : Tidy [] (some self) s)
    (known : s.tasks.find? self = some ⟨goal, work⟩)
    (starts : Starts P root (s.engine.world reading) goal start) (beside : Beside P start s reading b n b₀)
    {b₁ : Infer Property} {s₁ s₂ : Run} {asks : List Event} {progress : Progress Property}
    (steps : Steps goal.reader b s asks b₁ s₁) (halt : Halt self goal.reader b₁ s₁ log progress s₂)
    (decided : (s₂.settle self goal progress).cells.size = s.cells.size)
    (within : ¬ (s₂.settle self goal progress).engine.Exceeded)
    (further : ∀ m N, n ≤ m → m ≤ N → 2 * (N - m) < 2 * (N - pos self) + work.extra) :
    ∃ later pos', Mirrors P root (s₂.settle self goal progress) later pos'
      ∧ ∀ N, P.Bounds root N → Nearer N self s (s₂.settle self goal progress) pos pos' := by
  have quiet := steps.quiet
  have hsettle : s₂.engine.Follows (s₂.settle self goal progress).engine
      ∧ (s₂.settle self goal progress).cells.size = s₂.cells.size := by
    cases progress with
    | ended r =>
      exact ⟨(ending_endTask s₂ self goal r).follows, (ending_endTask s₂ self goal r).same.2.2.1⟩
    | _ => exact ⟨.refl, rfl⟩
  have hcells : s₁.cells = s.cells := by rw [quiet.same]
  have htasks : s₁.tasks = s.tasks := by rw [quiet.same]
  rcases beside.steps fit steps with ⟨later, m, b₁₀, hm, le, beside₁⟩ | ⟨hexceeded, -⟩
  · have h₁ := h.quiet quiet.same quiet.memo beside₁.faithful le
    have starts₁ := starts.mono le
    obtain ⟨pos', hmirrors, hnearer⟩ := h₁.halted fit (tidy.quiet quiet) (htasks ▸ known) starts₁
      beside₁.same beside₁.leads halt (by rw [hcells, ← hsettle.2, decided])
      fun N bounds => further m N hm (bounds starts₁.passes beside₁.leads)
    refine ⟨later, pos', hmirrors, fun N bounds => ?_⟩
    have hlast := hnearer N bounds
    rw [quiet.same] at hlast
    exact hlast
  · exact absurd (hexceeded.mono (halt.follows.trans hsettle.1).extends) within

/-- Every turn keeps this, unless it comes to an undecided conditional or beyond the limit. -/
theorem turned (fit : P.Fit) (h : Mirrors P root s reading pos) (tidy : Tidy [] (some self) s)
    (turn : Turned s self log t) (decided : t.cells.size = s.cells.size)
    (within : ¬ t.engine.Exceeded) :
    ∃ later pos', Mirrors P root t later pos'
      ∧ ∀ N, P.Bounds root N → Nearer N self s t pos pos' := by
  cases turn with
  | absent gone => exact ⟨reading, pos, h, fun _ _ => Or.inl ⟨rfl, fun _ => rfl⟩⟩
  | asleep task => exact ⟨reading, pos, h, fun _ _ => Or.inl ⟨rfl, fun _ => rfl⟩⟩
  | unfounded task missing => exact ⟨reading, pos, h, fun _ _ => Or.inl ⟨rfl, fun _ => rfl⟩⟩
  | @blocked goal source next p task found missing =>
    obtain ⟨starts, pursues, same, leads⟩ := h.tasks task
    cases pursues with
    | waiting key next =>
      exact ⟨reading, pos, h.waitOn found missing self, fun _ _ => Or.inl ⟨rfl, fun _ => rfl⟩⟩
  | @failed goal source next p e task found failed =>
    obtain ⟨starts, pursues, same, leads⟩ := h.tasks task
    cases pursues with
    | waiting key next =>
      cases same with
      | demand hkey rest =>
        obtain ⟨r₀, hr, finds⟩ := h.faithful.finds hkey found failed
        cases hr
        exact ⟨reading, h.ended tidy task starts (.error e) (leads.finds (.failed finds))⟩
  | @moved task body b₁ s₁ s₂ asks log progress found goes steps halt =>
    obtain ⟨starts, pursues, same, leads⟩ := h.tasks found
    cases goes with
    | ready body =>
      cases pursues with
      | ready =>
        refine h.moved fit tidy found starts ⟨h.faithful, same, leads⟩ steps halt decided within ?_
        intro m N hm _
        show 2 * (N - m) < 2 * (N - pos self) + 1
        omega
    | @resumed source next p v promised ready =>
      cases pursues with
      | waiting key next =>
        obtain ⟨b', same', leads'⟩ := same.read h.faithful leads promised ready
        refine h.moved fit tidy found starts ⟨h.faithful, same', leads'⟩ steps halt decided within ?_
        intro m N hm hN
        show 2 * (N - m) < 2 * (N - pos self) + 0
        omega

end Mirrors

end Run

end ArrayInference
