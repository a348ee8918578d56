import Mathlib
import ArrayInference.Proofs.Plain.Keeping

/-!
# A run beside an evaluation that ends

A plain evaluation that ends goes through finitely many entries, each in finitely many steps. A run
that mirrors it makes at most one task for each entry in each context of its graph, and every turn of
a task leaves fewer turns to it or is idle. So the run ends as well.
-/

namespace ArrayInference

open Engine

namespace Run

/-- A state that the run comes to in the order of turns of the engine. -/
inductive Driven : Run → Run → Prop where
  | rest (s : Run) : Driven s s
  | turn {s t u : Run} {self : TaskId} {schedule : Schedule}
      (offered : s.schedule.next? = some (self, schedule))
      (turned : turn (s.scheduled schedule) self = some t) (later : Driven t u) : Driven s u

/-- No conditional was undecided so far, and no graph went beyond its contexts. -/
structure Calm (s : Run) : Prop where
  decided : s.cells.size = 0
  within : ¬ s.engine.Exceeded

variable {P : Plain} {root start : Infer Property} {s t u : Run} {reading later : Nat → Inferrer}
  {pos pos' : TaskId → Nat} {self : TaskId} {V D : List Entry} {log : List Event} {N T : Nat}

/-! ## How many tasks there are -/

/-- The contexts of an engine that may stand for a context of the plain evaluation. -/
def contextsLike (e : Engine) : Context → List Context
  | .empty => [.empty]
  | .frame _ graph _ => e.contextsOf graph

/-- The entries of an engine that may stand for an entry of the plain evaluation. -/
def candidates (e : Engine) (key₀ : Entry) : List Entry :=
  (contextsLike e key₀.ref.ctx).map fun ctx =>
    { ref := { node := key₀.ref.node, ctx }, track := key₀.track }

theorem mem_candidates {e : Engine} {key key₀ : Entry} (same : SameEntry (e.world reading) key key₀) :
    key ∈ candidates e key₀ := by
  obtain ⟨track, ⟨hctx⟩⟩ := same
  refine List.mem_map.mpr ⟨_, ?_, rfl⟩
  cases hctx with
  | empty => exact List.mem_singleton.mpr rfl
  | frame outside args entered => exact entered

theorem length_candidates_le {e : Engine} (within : ¬ e.Exceeded) (key₀ : Entry) :
    (candidates e key₀).length ≤ e.config.maxSpecializations + 1 := by
  rw [candidates, List.length_map]
  cases key₀.ref.ctx with
  | empty => exact Nat.succ_le_succ (Nat.zero_le _)
  | frame parent graph args =>
    exact Nat.le_succ_of_le (Nat.le_of_not_lt fun hlt => within ⟨graph, hlt⟩)

/-- There are at most as many tasks as there are entries in contexts within the limit. -/
theorem Mirrors.nextTask_le (h : Mirrors P root s reading pos) (covers : P.Covers root V D N)
    (distinct : s.engine.memo.Distinct) (within : ¬ s.engine.Exceeded) :
    s.nextTask ≤ V.length * (s.engine.config.maxSpecializations + 1) + 1 := by
  have hsub : s.engine.memo.map Prod.fst ⊆ V.flatMap (candidates s.engine) := by
    intro key hmem
    obtain ⟨⟨k, p⟩, hpair, rfl⟩ := List.mem_map.mp hmem
    obtain ⟨key₀, same, needs⟩ := h.asked (Table.find?_of_mem distinct hpair)
    exact List.mem_flatMap.mpr ⟨key₀, covers.mem needs, mem_candidates same⟩
  have hlength := (distinct.subperm hsub).length_le
  rw [List.length_map, List.length_flatMap] at hlength
  refine Nat.le_trans h.made (Nat.succ_le_succ (Nat.le_trans hlength ?_))
  have hsum := List.sum_le_card_nsmul (V.map fun key₀ => (candidates s.engine key₀).length)
    (s.engine.config.maxSpecializations + 1) ?_
  · rwa [List.length_map, smul_eq_mul] at hsum
  · intro n hn
    obtain ⟨key₀, -, rfl⟩ := List.mem_map.mp hn
    exact length_candidates_le within key₀

/-! ## Every turn ends -/

theorem Mirrors.exists_turned (fit : P.Fit) (covers : P.Covers root V D N)
    (h : Mirrors P root s reading pos) (self : TaskId) : ∃ log t, Turned s self log t := by
  cases known : s.tasks.find? self with
  | none => exact ⟨_, _, .absent known⟩
  | some task =>
    have goes : ∀ {start b b₀ : Infer Property} {n : Nat}, P.Passes root start →
        Beside P start s reading b n b₀ → GoesOn s task.work b → ∃ log t, Turned s self log t := by
      intro start b b₀ n passes beside goes
      obtain ⟨_, b₁, s₁, _, progress, s₂, steps, halt⟩ :=
        beside.halts fit covers.loops (covers.within passes) self task.goal.reader
      exact ⟨_, _, .moved known goes steps halt⟩
    obtain ⟨starts, pursues, same, leads⟩ := h.tasks known
    cases pursues with
    | ready => exact goes starts.passes ⟨h.faithful, same, leads⟩ (.ready _)
    | waiting key next =>
      cases found : s.promise? (.entry key) with
      | none => exact ⟨_, _, .unfounded known found⟩
      | some p =>
        cases ready : p.result with
        | none => exact ⟨_, _, .blocked known found ready⟩
        | some r =>
          cases r with
          | error e => exact ⟨_, _, .failed known found ready⟩
          | ok v =>
            obtain ⟨b', same', leads'⟩ := same.read h.faithful leads found ready
            exact goes starts.passes ⟨h.faithful, same', leads'⟩ (.resumed found ready)

/-! ## The run ends -/

/-- The turns that the first `T` tasks may still take. -/
def budget (N T : Nat) (s : Run) (pos : TaskId → Nat) : Nat :=
  ∑ x ∈ Finset.range T, s.cost N pos x

theorem Nearer.budget (near : Nearer N self s t pos pos') (bound : s.nextTask ≤ T) :
    (t.schedule = s.schedule ∧ t.budget N T pos' = s.budget N T pos)
      ∨ t.budget N T pos' < s.budget N T pos := by
  rcases near with ⟨hschedule, hsame⟩ | ⟨hlt, hle, hless⟩
  · exact Or.inl ⟨hschedule, Finset.sum_congr rfl fun x _ => hsame x⟩
  · refine Or.inr (Finset.sum_lt_sum (fun x _ => hle x) ⟨self, ?_, hless⟩)
    exact Finset.mem_range.mpr (Nat.lt_of_lt_of_le hlt bound)

/-- A run that mirrors an evaluation that ends comes to an end. -/
theorem Mirrors.exists_drive (fit : P.Fit) (covers : P.Covers root V D N) {limit : Nat}
    (h : Mirrors P root s reading pos) (tidy : Tidy [] none s) (distinct : s.Distinct)
    (limited : s.engine.config.maxSpecializations = limit) (calm : ∀ u, Driven s u → u.Calm) :
    ∃ t, drive s = some t := by
  -- each turn lowers the budget, or it is idle and the queue gets shorter
  induction hbudget : s.budget N (V.length * (limit + 1) + 1) pos using Nat.strongRecOn
    generalizing s reading pos with
  | ind B ihB =>
    induction hqueue : s.schedule.queue.length using Nat.strongRecOn
      generalizing s reading pos with
    | ind q ihq =>
      cases hnext : s.schedule.next? with
      | none => exact ⟨s, by rw [drive.eq_def, hnext]⟩
      | some pair =>
        obtain ⟨self, schedule⟩ := pair
        have offers := Schedule.offers_of_next? hnext
        obtain ⟨log, u, turned⟩ := (h.scheduled schedule).exists_turned fit covers self
        have hturn := turn_of_turned (s := s.scheduled schedule) tidy.active turned
        have hcalm : u.Calm := calm u (.turn hnext hturn (.rest u))
        have hdrive : drive s = drive u := by
          rw [drive.eq_def, hnext]
          simp only
          rw [show turn { s with schedule } self = some u from hturn]
        have tidy' := tidy.offered offers
        obtain ⟨later, pos', hu, near⟩ := (h.scheduled schedule).turned fit tidy' turned
          (hcalm.decided.trans (calm s (.rest s)).decided.symm) hcalm.within
        have limited' : u.engine.config.maxSpecializations = limit := by
          rw [turned.follows.extends.config]
          exact limited
        have hbound : s.nextTask ≤ V.length * (limit + 1) + 1 := by
          rw [← limited]
          exact h.nextTask_le covers distinct.1 (calm s (.rest s)).within
        have distinct' : u.Distinct := Distinct.turned (s := s.scheduled schedule) distinct turned
        have calm' : ∀ v, Driven u v → v.Calm := fun v hv => calm v (.turn hnext hturn hv)
        rw [hdrive]
        rcases (near N covers.bounds).budget hbound with ⟨hschedule, hsame⟩ | hless
        · refine ihq u.schedule.queue.length ?_ hu (tidy'.turned turned) distinct' limited' calm'
            (hsame.trans hbudget) rfl
          have hlength := List.Perm.length_eq offers
          rw [hschedule, ← hqueue, ← hlength]
          exact Nat.lt_succ_self _
        · exact ihB _ (hbudget ▸ hless) hu (tidy'.turned turned) distinct' limited' calm' rfl

end Run

end ArrayInference
