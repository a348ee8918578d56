import ArrayInference.Proofs.Plain.Simulation
import ArrayInference.Proofs.Run.Tidy

/-!
# A run beside a plain evaluation

The invariant that ties a run to a plain evaluation. Every result in the memo is one that the plain
evaluation finds, and every task has come to a computation that is the same as one that the plain
evaluation comes to. Each turn keeps this, as long as no conditional is undecided and no context goes
beyond the limit.
-/

namespace ArrayInference

open Engine

namespace Plain

/-- The evaluation of `root` goes through a computation from its start. -/
inductive Passes (P : Plain) (root : Infer Property) : Infer Property → Prop where
  | root : Passes P root root
  | entry {key : Entry} (needs : P.Needs root key) : Passes P root (body key)

/-- Nothing that the evaluation of `root` goes through takes more than `N` steps. -/
def Bounds (P : Plain) (root : Infer Property) (N : Nat) : Prop :=
  ∀ {start b : Infer Property} {n : Nat}, P.Passes root start → P.Leads start n b → n ≤ N

variable {P : Plain} {root start : Infer Property} {n N : Nat} {V D : List Entry}

theorem Passes.needs (h : P.Passes root start) {key : Entry} {next : Property → Infer Property}
    (leads : P.Leads start n (.demand key next)) : P.Needs root key := by
  cases h with
  | root => exact .root leads
  | entry needs => exact .entry needs leads

theorem Covers.within (h : P.Covers root V D N) (passes : P.Passes root start) :
    P.Within V D N start := by
  cases passes with
  | root => exact h.root
  | entry needs => exact h.entries _ (h.mem needs)

theorem Covers.bounds (h : P.Covers root V D N) : P.Bounds root N :=
  fun passes leads => leads.le h.loops (h.within passes)

end Plain

/-- What a task has still to compute. -/
inductive Pursues : Work → Infer Property → Prop where
  | ready (b : Infer Property) : Pursues (.ready b) b
  | waiting (key : Entry) (next : Property → Infer Property) :
      Pursues (.waiting (.entry key) next) (.demand key next)

/-- What the plain evaluation computes in the place of a task. -/
inductive Starts (P : Plain) (root : Infer Property) (w : World) : Goal → Infer Property → Prop where
  | answer : Starts P root w .answer root
  | entry {key key₀ : Entry} (same : SameEntry w key key₀) (needs : P.Needs root key₀) :
      Starts P root w (.entry key) (Plain.body key₀)

/-- A task has come to what the plain evaluation comes to in `n` steps. -/
inductive Mirrored (P : Plain) (root : Infer Property) (w : World) : Task → Nat → Prop where
  | mk {goal : Goal} {work : Work} {start b b₀ : Infer Property} {n : Nat}
      (starts : Starts P root w goal start) (pursues : Pursues work b)
      (same : Similar SameProperty w b b₀) (leads : P.Leads start n b₀) :
      Mirrored P root w ⟨goal, work⟩ n

section

variable {P : Plain} {root start : Infer Property} {v w : World} {goal : Goal} {n : Nat}

theorem Starts.mono (h : Starts P root w goal start) (le : w.Le v) : Starts P root v goal start := by
  cases h with
  | answer => exact .answer
  | entry same needs => exact .entry (same.mono le) needs

theorem Starts.passes (h : Starts P root w goal start) : P.Passes root start := by
  cases h with
  | answer => exact .root
  | entry same needs => exact .entry needs

theorem Mirrored.mono {task : Task} (h : Mirrored P root w task n) (le : w.Le v) :
    Mirrored P root v task n := by
  obtain ⟨starts, pursues, same, leads⟩ := h
  exact .mk (starts.mono le) pursues (same.mono (fun hp le => hp.mono le) le) leads

theorem SameOutcome.attributed {r r₀ : Outcome} (h : SameOutcome w r r₀) (node : NodeId) :
    SameOutcome w (Run.attributed node r) (Run.attributed node r₀) := by
  cases h with
  | ok same => exact .ok same
  | error e => exact .error _

end

namespace Run

/-- A run that mirrors a plain evaluation. Each task has come as far as `pos` says. -/
structure Mirrors (P : Plain) (root : Infer Property) (s : Run) (reading : Nat → Inferrer)
    (pos : TaskId → Nat) : Prop where
  faithful : Faithful P s.engine reading
  asked : ∀ {key : Entry} {p : Promise TaskId}, s.engine.memo.find? key = some p →
    ∃ key₀, SameEntry (s.engine.world reading) key key₀ ∧ P.Needs root key₀
  pending : ∀ {key : Entry} {p : Promise TaskId}, s.engine.memo.find? key = some p →
    p.result = none → ∃ x work, s.tasks.find? x = some ⟨.entry key, work⟩
  tasks : ∀ {x : TaskId} {task : Task}, s.tasks.find? x = some task →
    Mirrored P root (s.engine.world reading) task (pos x)
  outcome : ∀ {r : Outcome}, s.outcome = some r →
    ∃ r₀, SameOutcome (s.engine.world reading) r r₀ ∧ P.Finds root r₀
  unanswered : s.outcome = none → ∃ x work, s.tasks.find? x = some ⟨.answer, work⟩
  detached : s.detached = []
  /-- No task is made but for an entry, and the one of the call. -/
  made : s.nextTask ≤ s.engine.memo.length + 1

namespace Mirrors

variable {P : Plain} {root start b₀ : Infer Property} {s t : Run} {reading later : Nat → Inferrer}
  {pos : TaskId → Nat} {self : TaskId} {goal : Goal} {work : Work} {key : Entry} {n : Nat}
  {next : Property → Infer Property}

/-- The engine learns something, but not a result. -/
theorem quiet (h : Mirrors P root s reading pos) (same : t = { s with engine := t.engine })
    (memo : t.engine.memo = s.engine.memo) (faithful : Faithful P t.engine later)
    (le : (s.engine.world reading).Le (t.engine.world later)) : Mirrors P root t later pos where
  faithful := faithful
  asked := by
    intro key p found
    obtain ⟨key₀, hkey, needs⟩ := h.asked (memo ▸ found)
    exact ⟨key₀, hkey.mono le, needs⟩
  pending := by
    intro key p found missing
    rw [same]
    exact h.pending (memo ▸ found) missing
  tasks := by
    intro x task found
    rw [same] at found
    exact (h.tasks found).mono le
  outcome := by
    intro r hr
    rw [same] at hr
    obtain ⟨r₀, hsame, finds⟩ := h.outcome hr
    exact ⟨r₀, hsame.mono le, finds⟩
  unanswered := by
    rw [same]
    exact h.unanswered
  detached := by
    rw [same]
    exact h.detached
  made := by
    have hnext : t.nextTask = s.nextTask := by rw [same]
    rw [hnext, memo]
    exact h.made

theorem scheduled (h : Mirrors P root s reading pos) (schedule : Schedule) :
    Mirrors P root (s.scheduled schedule) reading pos :=
  ⟨h.faithful, h.asked, h.pending, h.tasks, h.outcome, h.unanswered, h.detached, h.made⟩

theorem addReader (h : Mirrors P root s reading pos) (key : Entry) (reader : Option Entry) :
    Mirrors P root (s.addReader key reader) reading pos := by
  refine h.quiet (by cases reader <;> rfl) (addReader_memo s key reader)
    (faithful_addReader h.faithful key reader) ?_
  rw [world_addReader]
  exact .refl _

/-- A task waits for an entry without a result. -/
theorem waitOn (h : Mirrors P root s reading pos) {p : Promise TaskId}
    (known : s.engine.memo.find? key = some p) (missing : p.result = none) (self : TaskId) :
    Mirrors P root (s.waitOn self (.entry key) p) reading pos := by
  have hfind : ∀ {other : Entry} {q : Promise TaskId},
      (s.waitOn self (.entry key) p).engine.memo.find? other = some q →
      (other = key ∧ q.result = none) ∨ s.engine.memo.find? other = some q := by
    intro other q found
    replace found : (s.engine.memo.insert key _).find? other = some q := found
    rw [Table.find?_insert] at found
    split at found
    · rename_i heq
      cases found
      exact Or.inl ⟨heq.symm, rfl⟩
    · exact Or.inr found
  refine ⟨?_, ?_, ?_, h.tasks, h.outcome, h.unanswered, h.detached, ?_⟩
  · refine h.faithful.congr rfl rfl rfl rfl rfl rfl fun found ready => ?_
    rcases hfind found with ⟨-, hnone⟩ | hold
    · rw [ready] at hnone
      cases hnone
    · exact ⟨_, hold, ready⟩
  · intro other q found
    rcases hfind found with ⟨rfl, -⟩ | hold
    · exact h.asked known
    · exact h.asked hold
  · intro other q found hq
    rcases hfind found with ⟨rfl, -⟩ | hold
    · exact h.pending known missing
    · exact h.pending hold hq
  · refine Nat.le_trans h.made (Nat.succ_le_succ ?_)
    exact Nat.le_of_eq (Table.length_insert_of_find? known _).symm

/-- A task has its place again after its turn. -/
theorem park (h : Mirrors P root s reading pos) (known : s.tasks.find? self = some ⟨goal, work⟩)
    {after : Work} (mirrored : Mirrored P root (s.engine.world reading) ⟨goal, after⟩ n) :
    Mirrors P root { s with tasks := s.tasks.insert self ⟨goal, after⟩ } reading
      (Function.update pos self n) := by
  have hkeeps : ∀ {g : Goal}, (∃ x w, s.tasks.find? x = some ⟨g, w⟩) →
      ∃ x w, Table.find? (s.tasks.insert self ⟨goal, after⟩) x = some ⟨g, w⟩ := by
    rintro g ⟨x, w, hx⟩
    by_cases hself : self = x
    · subst hself
      rw [known] at hx
      cases hx
      exact ⟨self, after, Table.find?_insert_self _ _ _⟩
    · exact ⟨x, w, (Table.find?_insert_of_ne _ _ hself).trans hx⟩
  refine ⟨h.faithful, h.asked, fun found missing => hkeeps (h.pending found missing), ?_, h.outcome,
    fun hnone => hkeeps (h.unanswered hnone), h.detached, h.made⟩
  intro x task found
  replace found : (s.tasks.insert self ⟨goal, after⟩).find? x = some task := found
  rw [Table.find?_insert] at found
  split at found
  · rename_i heq
    subst heq
    cases found
    rw [Function.update_self]
    exact mirrored
  · rename_i hne
    rw [Function.update_of_ne (Ne.symm hne)]
    exact h.tasks found

/-- The task of an entry that nobody has asked for. -/
theorem beginEntry (h : Mirrors P root s reading pos) (fresh : s.tasks.find? s.nextTask = none)
    (absent : s.engine.memo.find? key = none) {key₀ : Entry}
    (same : SameEntry (s.engine.world reading) key key₀) (needs : P.Needs root key₀) (self : TaskId) :
    Mirrors P root (s.beginEntry self key) reading (Function.update pos s.nextTask 0) := by
  have hfind : ∀ {other : Entry} {q : Promise TaskId},
      (s.beginEntry self key).engine.memo.find? other = some q →
      (other = key ∧ q.result = none) ∨ s.engine.memo.find? other = some q := by
    intro other q found
    replace found : (s.engine.memo.insert key _).find? other = some q := found
    rw [Table.find?_insert] at found
    split at found
    · rename_i heq
      cases found
      exact Or.inl ⟨heq.symm, rfl⟩
    · exact Or.inr found
  have hkeeps : ∀ {g : Goal}, (∃ x w, s.tasks.find? x = some ⟨g, w⟩) →
      ∃ x w, (s.beginEntry self key).tasks.find? x = some ⟨g, w⟩ := by
    rintro g ⟨x, w, hx⟩
    refine ⟨x, w, ?_⟩
    rw [find?_beginEntry, if_neg, hx]
    rintro rfl
    rw [fresh] at hx
    cases hx
  refine ⟨?_, ?_, ?_, ?_, h.outcome, fun hnone => hkeeps (h.unanswered hnone), h.detached, ?_⟩
  · refine h.faithful.congr rfl rfl rfl rfl rfl rfl fun found ready => ?_
    rcases hfind found with ⟨-, hnone⟩ | hold
    · rw [ready] at hnone
      cases hnone
    · exact ⟨_, hold, ready⟩
  · intro other q found
    rcases hfind found with ⟨rfl, -⟩ | hold
    · exact ⟨key₀, same, needs⟩
    · exact h.asked hold
  · intro other q found hq
    rcases hfind found with ⟨rfl, -⟩ | hold
    · exact ⟨s.nextTask, _, by rw [find?_beginEntry, if_pos rfl]⟩
    · exact hkeeps (h.pending hold hq)
  · intro x task found
    rw [find?_beginEntry] at found
    split at found
    · rename_i heq
      subst heq
      cases found
      rw [Function.update_self]
      obtain ⟨track, hnode⟩ := same
      exact .mk (.entry (.mk track hnode) needs) (.ready _) (similar_infer hnode track) .refl
    · rename_i hne
      rw [Function.update_of_ne (Ne.symm hne)]
      exact h.tasks found
  · show s.nextTask + 1 ≤ (s.engine.memo.insert key _).length + 1
    rw [Table.length_insert_of_absent absent]
    exact Nat.succ_le_succ h.made

/-- The other tasks are left when one has gone. -/
theorem left (h : Mirrors P root s reading pos) (distinct : s.tasks.Distinct)
    (known : s.tasks.find? self = some ⟨goal, work⟩) :
    (∀ {g : Goal}, g ≠ goal → (∃ x w, s.tasks.find? x = some ⟨g, w⟩) →
      ∃ x w, (s.tasks.erase self).find? x = some ⟨g, w⟩)
    ∧ ∀ {x : TaskId} {task : Task}, (s.tasks.erase self).find? x = some task →
      Mirrored P root (s.engine.world reading) task (pos x) := by
  refine ⟨?_, ?_⟩
  · rintro g hne ⟨x, w, hx⟩
    refine ⟨x, w, (Table.find?_erase_of_ne _ ?_).trans hx⟩
    rintro rfl
    rw [known] at hx
    cases hx
    exact hne rfl
  · intro x task found
    rw [Table.find?_erase distinct] at found
    split at found
    · cases found
    · exact h.tasks found

/-- The call ends with what the plain evaluation finds. -/
theorem endAnswer (h : Mirrors P root s reading pos) (distinct : s.tasks.Distinct)
    (known : s.tasks.find? self = some ⟨.answer, work⟩) {r r₀ : Outcome}
    (same : SameOutcome (s.engine.world reading) r r₀) (finds : P.Finds root r₀) :
    Mirrors P root (s.endTask self .answer r) reading pos := by
  obtain ⟨others, left⟩ := h.left distinct known
  refine ⟨h.faithful, h.asked, fun found missing => others (by simp) (h.pending found missing), left,
    ?_, ?_, h.detached, h.made⟩
  · intro r' hr
    cases hr
    exact ⟨r₀, same, finds⟩
  · intro hnone
    cases hnone

/-- An entry gets the result that the plain evaluation finds. -/
theorem endEntry (h : Mirrors P root s reading pos) (distinct : s.tasks.Distinct)
    (known : s.tasks.find? self = some ⟨.entry key, work⟩) {key₀ : Entry}
    (hkey : SameEntry (s.engine.world reading) key key₀) {r r₀ : Outcome}
    (same : SameOutcome (s.engine.world reading) r r₀) (finds : P.Finds (Plain.body key₀) r₀) :
    Mirrors P root (s.endTask self (.entry key) r) reading pos := by
  obtain ⟨others, left⟩ := h.left distinct known
  have ending := ending_endTask s self (.entry key) r
  generalize s.endTask self (.entry key) r = t at ending
  have unanswered : s.outcome = none →
      ∃ x w, (s.tasks.erase self).find? x = some ⟨.answer, w⟩ :=
    fun hnone => others (by simp) (h.unanswered hnone)
  cases ending with
  | overtaken r settled =>
    refine ⟨h.faithful, h.asked, fun {k p} found missing => ?_, left, h.outcome, unanswered,
      h.detached, h.made⟩
    refine others ?_ (h.pending found missing)
    rintro ⟨rfl⟩
    have := settled p found
    rw [missing] at this
    cases this
  | @fulfils _ source p r aims found missing =>
    cases aims
    have hnode : key₀.ref.node = key.ref.node := by
      obtain ⟨track, ⟨hctx⟩⟩ := hkey
      rfl
    have hfind : ∀ {k : Entry} {q : Promise TaskId},
        ((s.leave self).fulfil (.entry key) p (attributed key.ref.node r)).engine.memo.find? k = some q →
        (k = key ∧ q.result = some (attributed key.ref.node r))
          ∨ (k ≠ key ∧ s.engine.memo.find? k = some q) := by
      intro k q found
      replace found : (s.engine.memo.insert key _).find? k = some q := found
      rw [Table.find?_insert] at found
      split at found
      · rename_i heq
        cases found
        exact Or.inl ⟨heq.symm, rfl⟩
      · rename_i hne
        exact Or.inr ⟨Ne.symm hne, found⟩
    have hmemo : s.engine.memo.find? key = some p := found
    refine ⟨⟨?_, ?_⟩, ?_, ?_, left, h.outcome, unanswered, h.detached, ?_⟩
    · exact h.faithful.readable.congr rfl rfl rfl rfl rfl rfl
    · intro k q r' found ready
      rcases hfind found with ⟨rfl, hr⟩ | ⟨-, hold⟩
      · rw [hr, Option.some.injEq] at ready
        subst ready
        exact ⟨key₀, attributed k.ref.node r₀, hkey, same.attributed _, r₀, finds, by rw [hnode]⟩
      · exact h.faithful.results hold ready
    · intro k q found
      rcases hfind found with ⟨rfl, -⟩ | ⟨-, hold⟩
      · exact h.asked hmemo
      · exact h.asked hold
    · intro k q found hq
      rcases hfind found with ⟨rfl, hr⟩ | ⟨hne, hold⟩
      · rw [hr] at hq
        cases hq
      · refine others ?_ (h.pending hold hq)
        rintro ⟨rfl⟩
        exact hne rfl
    · refine Nat.le_trans h.made (Nat.succ_le_succ ?_)
      exact Nat.le_of_eq (Table.length_insert_of_find? hmemo _).symm

theorem endTask (h : Mirrors P root s reading pos) (distinct : s.tasks.Distinct)
    (known : s.tasks.find? self = some ⟨goal, work⟩)
    (starts : Starts P root (s.engine.world reading) goal start) {r r₀ : Outcome}
    (same : SameOutcome (s.engine.world reading) r r₀) (finds : P.Finds start r₀) :
    Mirrors P root (s.endTask self goal r) reading pos := by
  cases starts with
  | answer => exact h.endAnswer distinct known same finds
  | entry hkey needs => exact h.endEntry distinct known hkey same finds

end Mirrors

/-! ## What a turn costs -/

end Run

/-- A task that has not begun has one turn more. -/
def Work.extra : Work → Nat
  | .ready _ => 1
  | .waiting .. | .forever => 0

theorem Work.extra_le (work : Work) : work.extra ≤ 1 := by
  cases work <;> simp [extra]

namespace Run

/-- The turns that a task may still take, if nothing takes more than `N` steps. -/
def cost (N : Nat) (s : Run) (pos : TaskId → Nat) (x : TaskId) : Nat :=
  if s.nextTask ≤ x then 2 * N + 3
  else (s.tasks.find? x).elim 0 fun task => 2 * (N - pos x) + task.work.extra + 1

/-- A turn was idle, or its task has fewer turns left. -/
def Nearer (N : Nat) (self : TaskId) (s t : Run) (pos pos' : TaskId → Nat) : Prop :=
  (t.schedule = s.schedule ∧ ∀ x, t.cost N pos' x = s.cost N pos x)
    ∨ (self < s.nextTask ∧ (∀ x, t.cost N pos' x ≤ s.cost N pos x)
      ∧ t.cost N pos' self < s.cost N pos self)

section

variable {N m : Nat} {self : TaskId} {s t u : Run} {pos pos' : TaskId → Nat} {goal : Goal}
  {work : Work}

theorem cost_le (N : Nat) (s : Run) (pos : TaskId → Nat) (x : TaskId) : s.cost N pos x ≤ 2 * N + 3 := by
  rw [cost]
  split
  · exact Nat.le_refl _
  · cases s.tasks.find? x with
    | none => exact Nat.zero_le _
    | some task =>
      have := task.work.extra_le
      simp only [Option.elim_some]
      omega

theorem cost_of_find? {x : TaskId} {task : Task} (begun : x < s.nextTask)
    (found : s.tasks.find? x = some task) :
    s.cost N pos x = 2 * (N - pos x) + task.work.extra + 1 := by
  rw [cost, if_neg (Nat.not_le_of_lt begun), found, Option.elim_some]

theorem cost_of_absent {x : TaskId} (begun : x < s.nextTask) (absent : s.tasks.find? x = none) :
    s.cost N pos x = 0 := by
  rw [cost, if_neg (Nat.not_le_of_lt begun), absent, Option.elim_none]

/-- A turn changes the cost of its own task alone, and new tasks cost no more than was foreseen. -/
theorem nearer_of_less (begun : self < s.nextTask) (next : s.nextTask ≤ t.nextTask)
    (others : ∀ x, x ≠ self → x < s.nextTask →
      t.tasks.find? x = s.tasks.find? x ∧ pos' x = pos x)
    (less : t.cost N pos' self < s.cost N pos self) : Nearer N self s t pos pos' := by
  refine Or.inr ⟨begun, fun x => ?_, less⟩
  by_cases hself : x = self
  · rw [hself]
    exact Nat.le_of_lt less
  · by_cases hx : x < s.nextTask
    · obtain ⟨htasks, hpos⟩ := others x hself hx
      rw [cost, cost, if_neg (Nat.not_le_of_lt hx),
        if_neg (Nat.not_le_of_lt (Nat.lt_of_lt_of_le hx next)), htasks, hpos]
    · rw [cost.eq_def N s, if_pos (Nat.le_of_not_lt hx)]
      exact cost_le N t pos' x

theorem nearer_of_erase (distinct : s.tasks.Distinct) (begun : self < s.nextTask)
    (known : s.tasks.find? self = some ⟨goal, work⟩) (tasks : t.tasks = s.tasks.erase self)
    (next : t.nextTask = s.nextTask) : Nearer N self s t pos pos := by
  refine nearer_of_less begun (Nat.le_of_eq next.symm) (fun x hne _ => ⟨?_, rfl⟩) ?_
  · rw [tasks, Table.find?_erase_of_ne _ (Ne.symm hne)]
  · have habsent : t.tasks.find? self = none := by
      rw [tasks, Table.find?_erase distinct, if_pos rfl]
    rw [cost_of_absent (next ▸ begun) habsent, cost_of_find? begun known]
    exact Nat.succ_pos _

theorem nearer_of_wait (begun : self < s.nextTask)
    (known : s.tasks.find? self = some ⟨goal, work⟩) {source : Source}
    {later : Property → Infer Property} (next : s.nextTask ≤ t.nextTask)
    (others : ∀ x, x ≠ self → x < s.nextTask → t.tasks.find? x = s.tasks.find? x ∧ pos' x = pos x)
    (waits : t.tasks.find? self = some ⟨goal, .waiting source later⟩)
    (further : 2 * (N - pos' self) < 2 * (N - pos self) + work.extra) :
    Nearer N self s t pos pos' := by
  refine nearer_of_less begun next others ?_
  rw [cost_of_find? (Nat.lt_of_lt_of_le begun next) waits, cost_of_find? begun known]
  show 2 * (N - pos' self) + 0 + 1 < 2 * (N - pos self) + work.extra + 1
  omega

end

end Run

end ArrayInference
