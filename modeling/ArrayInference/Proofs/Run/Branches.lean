import ArrayInference.Proofs.Run.Results
import Mathlib.Logic.Function.Basic

/-!
# Both branches of a conditional

An undecided conditional has a cell and two tasks, one for each branch. The branch that ends first
gives the cell its result. The branch that ends second is compared with it, so a pair of branches
that do not agree makes the run fail, together with the entry that the conditional is a part of.
-/

namespace ArrayInference

namespace Run

variable {before : Memo} {s t : Run} {self : TaskId} {past log : List Event}

/-- What is known of two branches of one cell, in the order in which they end. -/
def Compared (s : Run) (a b : Event) : Prop :=
  ∀ c r c' r', a = .ended (.branch c) r → b = .ended (.branch c') r' → c.cell = c'.cell →
    s.resultOf (.cell c.cell) = some r ∧ ∀ first, r = .ok first →
      (∃ second, r' = .ok second ∧ agree c'.track first second = true)
        ∨ (s.detached ≠ [] ∧ (∃ e, Clash c' first r' e)
            ∧ ∀ k, c'.site = some k → s.FailedAt (.entry k))

/-- The task of a branch is one of two, and gone when the branch has ended. `base` is the number of
the first one. -/
structure Paired (base : Nat → TaskId) (past : List Event) (s : Run) : Prop where
  pair : ∀ {t : TaskId} {c : BranchCheck} {w : Work}, s.tasks.find? t = some ⟨.branch c, w⟩ →
    t = base c.cell ∨ t = base c.cell + 1
  made : ∀ id < s.cells.size, base id + 1 < s.nextTask
  begun : ∀ id, s.resultOf (.cell id) ≠ none →
    s.tasks.find? (base id) = none ∨ s.tasks.find? (base id + 1) = none
  ended : ∀ {c : BranchCheck} {r : Outcome}, .ended (.branch c) r ∈ past →
    c.cell < s.cells.size ∧ s.resultOf (.cell c.cell) ≠ none
      ∧ (s.resultOf (.cell c.cell) = some r
        ∨ (s.tasks.find? (base c.cell) = none ∧ s.tasks.find? (base c.cell + 1) = none))
  compared : past.Pairwise (Compared s)

theorem Compared.mono {a b : Event} (h : Compared s a b) (detached : s.detached <+: t.detached)
    (cells : ∀ id r, s.resultOf (.cell id) = some r → t.resultOf (.cell id) = some r)
    (failed : ∀ k, s.FailedAt (.entry k) → t.FailedAt (.entry k)) : Compared t a b := by
  intro c r c' r' ha hb hcell
  obtain ⟨hresult, hfirst⟩ := h c r c' r' ha hb hcell
  refine ⟨cells _ _ hresult, fun first hok => ?_⟩
  rcases hfirst first hok with hagree | ⟨hne, hclash, hsite⟩
  · exact Or.inl hagree
  · refine Or.inr ⟨fun hnil => hne ?_, hclash, fun k hk => failed k (hsite k hk)⟩
    rw [hnil] at detached
    exact List.prefix_nil.mp detached

theorem Ending.cell_result {goal : Goal} {r r' : Outcome} (ending : Ending s goal r t) {id : Nat}
    (h : s.resultOf (.cell id) = some r') : t.resultOf (.cell id) = some r' := by
  rcases ending.resultOf (.cell id) with hsame | ⟨-, hnone, -⟩ | ⟨_, _, _, _, _, -, -, -, hentry, -⟩
  · exact hsame.trans h
  · rw [h] at hnone
    cases hnone
  · cases hentry

/-- The entry that a late failure is found in fails. -/
theorem failedAt_failBranch (e : InferError) {k : Entry} (present : s.promise? (.entry k) ≠ none) :
    (s.failBranch (some k) e).FailedAt (.entry k) := by
  have poisoned := Memo.poisoned_poison s.engine.memo s.engine.readers k e
  obtain ⟨p, e', found, failed⟩ := poisoned.start k (List.mem_singleton.mpr rfl)
    (Option.isSome_iff_ne_none.mpr present)
  have found : (s.failBranch (some k) e).promise? (.entry k) = some p := found
  exact ⟨e', (resultOf_of_promise? found).trans failed⟩

namespace Paired

variable {base : Nat → TaskId}

/-- What was asked for makes no difference. -/
theorem asks (h : Paired base past s) {asks : List Event}
    (hasks : ∀ event ∈ asks, ∃ reader key, event = .asked reader key) :
    Paired base (past ++ asks) s := by
  refine ⟨h.pair, h.made, h.begun, ?_, ?_⟩
  · intro c r hmem
    rcases List.mem_append.mp hmem with hmem | hmem
    · exact h.ended hmem
    · obtain ⟨_, _, heq⟩ := hasks _ hmem
      cases heq
  · rw [List.pairwise_append]
    refine ⟨h.compared, ?_, ?_⟩
    · refine List.Pairwise.imp_of_mem (R := fun _ _ => True) ?_ (List.pairwise_of_forall fun _ _ => trivial)
      intro a b ha _ _ c r c' r' heq
      obtain ⟨_, _, hask⟩ := hasks a ha
      rw [hask] at heq
      cases heq
    · intro a _ b hb c r c' r' _ heq
      obtain ⟨_, _, hask⟩ := hasks b hb
      rw [hask] at heq
      cases heq

theorem alike (h : Paired base past s) (alike : Alike s t) : Paired base past t := by
  refine ⟨?_, ?_, ?_, ?_, ?_⟩
  · rw [alike.tasks]
    exact h.pair
  · rw [alike.cells, alike.nextTask]
    exact h.made
  · intro id
    rw [alike.results, alike.tasks]
    exact h.begun id
  · intro c r hmem
    rw [alike.cells, alike.results, alike.tasks]
    exact h.ended hmem
  · refine h.compared.imp fun hab => hab.mono (alike.detached ▸ List.prefix_refl _) ?_ ?_
    · intro id r hr
      rw [alike.results]
      exact hr
    · intro k hk
      rw [FailedAt, alike.results]
      exact hk

/-- The end of a task that is no branch. -/
theorem endOther (h : Paired base past s) {goal : Goal} {r : Outcome}
    (other : ∀ c, goal ≠ .branch c)
    (tasks : ∀ {x : TaskId} {task : Task}, t.tasks.find? x = some task →
      s.tasks.find? x = some task)
    (nextTask : t.nextTask = s.nextTask) (cells : t.cells.size = s.cells.size)
    (detached : s.detached <+: t.detached)
    (results : ∀ id, t.resultOf (.cell id) = s.resultOf (.cell id))
    (failed : ∀ k, s.FailedAt (.entry k) → t.FailedAt (.entry k)) :
    Paired base (past ++ [.ended goal r]) t := by
  have hgone : ∀ x, s.tasks.find? x = none → t.tasks.find? x = none := by
    intro x hx
    cases hf : t.tasks.find? x with
    | none => rfl
    | some task =>
      rw [tasks hf] at hx
      cases hx
  refine ⟨fun hf => h.pair (tasks hf), ?_, ?_, ?_, ?_⟩
  · rw [cells, nextTask]
    exact h.made
  · intro id hr
    rw [results] at hr
    exact (h.begun id hr).imp (hgone _) (hgone _)
  · intro c r' hmem
    rcases List.mem_append.mp hmem with hmem | hmem
    · obtain ⟨hlt, hne, hor⟩ := h.ended hmem
      rw [cells, results]
      exact ⟨hlt, hne, hor.imp id fun hb => ⟨hgone _ hb.1, hgone _ hb.2⟩⟩
    · cases List.mem_singleton.mp hmem
      exact absurd rfl (other c)
  · rw [List.pairwise_append]
    refine ⟨h.compared.imp fun hab => hab.mono detached (fun id r' hr => (results id).trans hr) failed,
      List.pairwise_singleton _ _, ?_⟩
    intro a _ b hb c r₁ c' r₂ _ heq
    rw [List.mem_singleton.mp hb] at heq
    cases heq
    exact absurd rfl (other c')

/-- The end of a branch. Its own task is one of the two and has been there until now, so an end of the
same cell that came before was the first one. -/
theorem endBranch (h : Paired base past s) (tidy : Tidy before (some self) s) {c : BranchCheck}
    {w : Work} (known : s.tasks.find? self = some ⟨.branch c, w⟩) {r : Outcome}
    (ending : Ending (s.leave self) (.branch c) r t) :
    Paired base (past ++ [.ended (.branch c) r]) t := by
  have hleave : ∀ source, (s.leave self).resultOf source = s.resultOf source :=
    fun source => resultOf_congr (promise?_leave s self source)
  have hself : t.tasks.find? self = none := by
    rw [ending.same.1, show (s.leave self).tasks = s.tasks.erase self from rfl,
      Table.find?_erase tidy.distinct, if_pos rfl]
  have hold : ∀ {x : TaskId} {task : Task}, t.tasks.find? x = some task →
      s.tasks.find? x = some task := by
    intro x task hf
    rw [ending.same.1, show (s.leave self).tasks = s.tasks.erase self from rfl,
      Table.find?_erase tidy.distinct] at hf
    split at hf
    · cases hf
    · exact hf
  have hgone : ∀ x, s.tasks.find? x = none → t.tasks.find? x = none := by
    intro x hx
    cases hf : t.tasks.find? x with
    | none => rfl
    | some task =>
      rw [hold hf] at hx
      cases hx
  have hkeeps : ∀ id r', s.resultOf (.cell id) = some r' →
      t.resultOf (.cell id) = some r' :=
    fun id r' hr => ending.cell_result ((hleave _).trans hr)
  have hfailed : ∀ k, s.FailedAt (.entry k) → t.FailedAt (.entry k) := by
    intro k hk
    refine ending.failedAt ?_
    rw [FailedAt, hleave]
    exact hk
  have hlt : c.cell < s.cells.size := by
    obtain ⟨p, found⟩ := Option.ne_none_iff_exists'.mp (tidy.branches known).1
    exact (Array.getElem?_eq_some_iff.mp found).1
  have hpair := h.pair known
  -- Once there is a result, the other branch has ended already.
  have hboth : s.resultOf (.cell c.cell) ≠ none →
      t.tasks.find? (base c.cell) = none ∧ t.tasks.find? (base c.cell + 1) = none := by
    intro hne
    rcases h.begun c.cell hne with hb | hb
    · rcases hpair with rfl | rfl
      · exact absurd known (by simp [hb])
      · exact ⟨hgone _ hb, hself⟩
    · rcases hpair with rfl | rfl
      · exact ⟨hself, hgone _ hb⟩
      · exact absurd known (by simp [hb])
  have hfirst : s.resultOf (.cell c.cell) = none →
      t.resultOf (.cell c.cell) = some r := by
    intro hnone
    have hnone' := (hleave (.cell c.cell)).trans hnone
    cases ending with
    | @fulfils _ source p _ aims found missing =>
      cases aims
      rw [resultOf_fulfil found, if_pos rfl]
      rfl
    | second _ first =>
      rw [hnone'] at first
      cases first
    | agrees first _ _ =>
      rw [hnone'] at first
      cases first
    | late first _ =>
      rw [hnone'] at first
      cases first
    | lost _ gone =>
      rw [promise?_leave] at gone
      exact absurd gone (tidy.branches known).1
  have hearlier : ∀ {c' : BranchCheck} {r' : Outcome}, .ended (.branch c') r' ∈ past →
      c'.cell = c.cell → s.resultOf (.cell c.cell) = some r' := by
    intro c' r' hmem hcell
    obtain ⟨-, -, hor⟩ := h.ended hmem
    rw [hcell] at hor
    rcases hor with hr | ⟨hb, hb'⟩
    · exact hr
    · rcases hpair with rfl | rfl
      · exact absurd known (by simp [hb])
      · exact absurd known (by simp [hb'])
  refine ⟨fun hf => h.pair (hold hf), ?_, ?_, ?_, ?_⟩
  · rw [ending.same.2.2.1, ending.same.2.1]
    exact h.made
  · intro id hr
    by_cases hnone : s.resultOf (.cell id) = none
    · by_cases hid : id = c.cell
      · rw [hid]
        rcases hpair with rfl | rfl
        · exact Or.inl hself
        · exact Or.inr hself
      · refine absurd ?_ hr
        rcases ending.resultOf (.cell id) with hsame | ⟨hgoal, -⟩ | ⟨_, _, _, _, _, -, -, -, hentry, -⟩
        · exact hsame.trans ((hleave _).trans hnone)
        · cases hgoal
          exact absurd rfl hid
        · cases hentry
    · exact (h.begun id hnone).imp (hgone _) (hgone _)
  · intro c' r' hmem
    rw [ending.same.2.2.1]
    rcases List.mem_append.mp hmem with hmem | hmem
    · obtain ⟨hlt', hne, hor⟩ := h.ended hmem
      obtain ⟨r'', hr⟩ := Option.ne_none_iff_exists'.mp hne
      refine ⟨hlt', by simp [hkeeps _ _ hr], ?_⟩
      exact hor.imp (hkeeps _ _) fun hb => ⟨hgone _ hb.1, hgone _ hb.2⟩
    · cases List.mem_singleton.mp hmem
      by_cases hnone : s.resultOf (.cell c.cell) = none
      · exact ⟨hlt, by simp [hfirst hnone], Or.inl (hfirst hnone)⟩
      · obtain ⟨r'', hr⟩ := Option.ne_none_iff_exists'.mp hnone
        exact ⟨hlt, by simp [hkeeps _ _ hr], Or.inr (hboth hnone)⟩
  · rw [List.pairwise_append]
    refine ⟨h.compared.imp fun hab => hab.mono ending.same.2.2.2.2 hkeeps hfailed,
      List.pairwise_singleton _ _, ?_⟩
    intro a ha b hb c₁ r₁ c₂ r₂ ha' hb' hcell
    subst ha'
    rw [List.mem_singleton.mp hb] at hb'
    cases hb'
    have hr₁ := hearlier ha hcell
    refine ⟨by rw [hcell]; exact hkeeps _ _ hr₁, fun first hok => ?_⟩
    subst hok
    have hr₁ := (hleave (.cell c.cell)).trans hr₁
    cases ending with
    | @fulfils _ source p _ aims found missing =>
      cases aims
      rw [resultOf_of_promise? found, missing] at hr₁
      cases hr₁
    | second _ first =>
      rw [hr₁] at first
      cases first
    | agrees first same d =>
      rw [hr₁] at first
      cases first
      exact Or.inl ⟨_, rfl, same⟩
    | @late _ _ _ e first clash =>
      rw [hr₁] at first
      cases first
      refine Or.inr ⟨?_, ⟨e, clash⟩, ?_⟩
      · rw [(failBranch_same _ _ _).2.2.2.2.1]
        simp
      · intro k hk
        rw [hk]
        refine failedAt_failBranch e ?_
        rw [promise?_leave]
        exact ((tidy.branches known).2 k hk).2
    | lost _ gone =>
      rw [promise?_leave] at gone
      exact absurd gone (tidy.branches known).1

/-- New tasks have new numbers. -/
theorem grow (h : Paired base past s) (tidy : Tidy before (some self) s) {base' : Nat → TaskId}
    (same : ∀ id < s.cells.size, base' id = base id)
    (old : ∀ x < s.nextTask, t.tasks.find? x = s.tasks.find? x)
    (new : ∀ {x : TaskId} {c : BranchCheck} {w : Work}, t.tasks.find? x = some ⟨.branch c, w⟩ →
      s.nextTask ≤ x → x = base' c.cell ∨ x = base' c.cell + 1)
    (size : s.cells.size ≤ t.cells.size)
    (made : ∀ id < t.cells.size, s.cells.size ≤ id → base' id + 1 < t.nextTask)
    (nextTask : s.nextTask ≤ t.nextTask) (detached : t.detached = s.detached)
    (results : ∀ source, t.resultOf source = s.resultOf source) : Paired base' past t := by
  have hinside : ∀ id, s.resultOf (.cell id) ≠ none → id < s.cells.size := by
    intro id hr
    obtain ⟨r, hr⟩ := Option.ne_none_iff_exists'.mp hr
    obtain ⟨p, found, -⟩ := exists_promise_of_resultOf hr
    exact (Array.getElem?_eq_some_iff.mp found).1
  have hgone : ∀ id < s.cells.size,
      t.tasks.find? (base' id) = s.tasks.find? (base id)
        ∧ t.tasks.find? (base' id + 1) = s.tasks.find? (base id + 1) := by
    intro id hlt
    have hmade := h.made id hlt
    rw [same id hlt]
    exact ⟨old _ (Nat.lt_of_succ_lt hmade), old _ hmade⟩
  refine ⟨?_, ?_, ?_, ?_, ?_⟩
  · intro x c w hf
    by_cases hx : x < s.nextTask
    · rw [old x hx] at hf
      obtain ⟨p, found⟩ := Option.ne_none_iff_exists'.mp (tidy.branches hf).1
      rw [same _ (Array.getElem?_eq_some_iff.mp found).1]
      exact h.pair hf
    · exact new hf (Nat.le_of_not_lt hx)
  · intro id hlt
    by_cases hid : id < s.cells.size
    · rw [same id hid]
      exact Nat.lt_of_lt_of_le (h.made id hid) nextTask
    · exact made id hlt (Nat.le_of_not_lt hid)
  · intro id hr
    rw [results] at hr
    rw [(hgone id (hinside id hr)).1, (hgone id (hinside id hr)).2]
    exact h.begun id hr
  · intro c r hmem
    obtain ⟨hlt, hne, hor⟩ := h.ended hmem
    rw [results, (hgone _ hlt).1, (hgone _ hlt).2]
    exact ⟨Nat.lt_of_lt_of_le hlt size, hne, hor⟩
  · refine h.compared.imp fun hab => hab.mono (detached ▸ List.prefix_refl _) ?_ ?_
    · intro id r hr
      rw [results]
      exact hr
    · intro k hk
      rw [FailedAt, results]
      exact hk

theorem park (h : Paired base past s) {goal : Goal} {w : Work}
    (known : s.tasks.find? self = some ⟨goal, w⟩) (after : Work) :
    Paired base past { s with tasks := s.tasks.insert self { goal, work := after } } := by
  have hresult : ∀ source, Run.resultOf
      { s with tasks := s.tasks.insert self { goal, work := after } } source
        = s.resultOf source := fun source => resultOf_congr (by cases source <;> rfl)
  have hgone : ∀ x, Table.find? (s.tasks.insert self ⟨goal, after⟩) x = none ↔
      s.tasks.find? x = none := by
    intro x
    rw [Table.find?_insert]
    split
    · rename_i heq
      rw [← heq, known]
      exact ⟨by simp, by simp⟩
    · rfl
  refine ⟨?_, h.made, ?_, ?_, ?_⟩
  · intro x c v hf
    rw [Table.find?_insert] at hf
    split at hf
    · rename_i heq
      cases hf
      exact heq ▸ h.pair known
    · exact h.pair hf
  · intro id hr
    rw [hresult] at hr
    rw [hgone, hgone]
    exact h.begun id hr
  · intro c r hmem
    rw [hresult, hgone, hgone]
    exact h.ended hmem
  · refine h.compared.imp fun hab => hab.mono (List.prefix_refl _) ?_ ?_
    · exact fun id r hr => (hresult _).trans hr
    · rintro k ⟨e, he⟩
      exact ⟨e, (hresult _).trans he⟩

/-- Every turn keeps the pairs. -/
theorem turned (h : Paired base past s) (tidy : Tidy before (some self) s)
    (turn : Turned s self log t) : ∃ base', Paired base' (past ++ log) t := by
  cases turn.move with
  | idle alike =>
    rw [List.append_nil]
    exact ⟨base, h.alike alike⟩
  | @ends goal asks s₀ r ends =>
    obtain ⟨w, known⟩ := ends.known
    have known₀ : s₀.tasks.find? self = some ⟨goal, w⟩ := by
      rw [ends.same]
      exact known
    have tidy₀ := tidy.alike_engine ends.same ends.memo
    have h₀ : Paired base (past ++ asks) s₀ := by
      refine (h.alike (alike_of_engine ends.same ends.memo)).asks fun event hevent => ?_
      obtain ⟨key, hk, -⟩ := ends.asked event hevent
      exact ⟨_, key, hk⟩
    have ending := ending_endTask s₀ self goal r
    refine ⟨base, ?_⟩
    rw [← List.append_assoc]
    by_cases hgoal : ∃ c, goal = .branch c
    · obtain ⟨c, rfl⟩ := hgoal
      exact h₀.endBranch tidy₀ known₀ ending
    · have hleave : ∀ source, (s₀.leave self).resultOf source = s₀.resultOf source :=
        fun source => resultOf_congr (promise?_leave s₀ self source)
      refine h₀.endOther (fun c hc => hgoal ⟨c, hc⟩) ?_ ending.same.2.1 ending.same.2.2.1
        ending.same.2.2.2.2 ?_ ?_
      · intro x task hf
        rw [ending.same.1, show (s₀.leave self).tasks = s₀.tasks.erase self from rfl,
          Table.find?_erase tidy₀.distinct] at hf
        split at hf
        · cases hf
        · exact hf
      · intro id
        rcases ending.resultOf (.cell id) with
          hsame | ⟨haims, -⟩ | ⟨c, _, _, _, _, hc, -⟩
        · exact hsame.trans (hleave _)
        · cases goal with
          | answer => cases haims
          | entry key => cases haims
          | branch c => exact absurd ⟨c, rfl⟩ hgoal
        · exact absurd ⟨c, hc⟩ hgoal
      · intro k hk
        refine ending.failedAt ?_
        rw [FailedAt, hleave]
        exact hk
  | @stays goal w asks log s₁ s₂ b progress known waited quiet halt unended =>
    have known₁ : s₁.tasks.find? self = some ⟨goal, w⟩ := by
      rw [quiet.same]
      exact known
    have tidy₁ := tidy.quiet quiet
    have known₂ := tidy₁.halt_find? known₁ halt
    have h₁ : Paired base (past ++ (asks ++ log)) s₁ := by
      refine (h.alike (alike_of_engine quiet.same quiet.memo)).asks fun event hevent => ?_
      rcases List.mem_append.mp hevent with hmem | hmem
      · obtain ⟨key, -, -, hk, -⟩ := quiet.asked event hmem
        exact ⟨_, key, hk⟩
      · cases halt with
        | wait found missing => exact ⟨_, _, List.mem_singleton.mp hmem⟩
        | begin absent => exact ⟨_, _, List.mem_singleton.mp hmem⟩
        | readFailed found failed => exact ⟨_, _, List.mem_singleton.mp hmem⟩
        | _ => cases hmem
    cases halt with
    | done a => exact absurd rfl (unended _)
    | fail e => exact absurd rfl (unended _)
    | uncallable unknown => exact absurd rfl (unended _)
    | readFailed found failed => exact absurd rfl (unended _)
    | forever => exact ⟨base, h₁.park known₂ .forever⟩
    | @wait key next _ p found missing =>
      have hfound : (s₁.addReader key goal.reader).promise? (.entry key) = some p := by
        rw [promise?_addReader]
        exact found
      have h₂ := (h₁.alike (alike_addReader s₁ key goal.reader)).alike
        (alike_waitOn hfound missing self)
      exact ⟨base, h₂.park known₂ (.waiting (.entry key) next)⟩
    | @begin key next _ absent =>
      have hreader := alike_addReader s₁ key goal.reader
      have tidy' := tidy₁.addReader key goal.reader
      have halt : Halt self goal.reader (.demand key next) s₁ _ _ _ := .begin absent
      have h₂ : Paired base (past ++ (asks ++ [.asked goal.reader key]))
          ((s₁.addReader key goal.reader).beginEntry self key) := by
        refine (h₁.alike hreader).grow tidy' (fun _ _ => rfl) ?_ ?_ (Nat.le_refl _) ?_
          (Nat.le_succ _) rfl ?_
        · intro x hx
          rw [find?_beginEntry, if_neg (Nat.ne_of_gt hx)]
        · intro x c v hf hle
          rw [find?_beginEntry] at hf
          split at hf
          · cases hf
          · exact absurd (tidy'.bounded hf) (Nat.not_lt_of_le hle)
        · exact fun id hlt hle => absurd hlt (Nat.not_lt_of_le hle)
        · intro source
          rw [halt.resultOf, resultOf_addReader]
      exact ⟨base, h₂.park known₂ (.waiting (.entry key) next)⟩
    | race track use first second next =>
      have halt : Halt self goal.reader (.unify track use first second next) s₁ _ _ _ :=
        .race track use first second next s₁
      obtain ⟨-, -, -, hnext, hcells, hdetached, -⟩ := setPromise_same
        (s₁.race goal.reader track use first second).2 (.cell s₁.cells.size)
        { result := none, waiters := [self] }
      have hnext : (s₁.beginRace self goal.reader track use first second).nextTask
        = s₁.nextTask + 2 := hnext
      have hsize : (s₁.beginRace self goal.reader track use first second).cells.size
        = s₁.cells.size + 1 := hcells.trans (Array.size_push _)
      have h₂ : Paired (Function.update base s₁.cells.size s₁.nextTask) (past ++ (asks ++ []))
          (s₁.beginRace self goal.reader track use first second) := by
        refine h₁.grow tidy₁ ?_ ?_ ?_ (by omega) ?_ (by rw [hnext]; exact Nat.le_add_right _ _)
          hdetached halt.resultOf
        · exact fun id hlt => Function.update_of_ne (Nat.ne_of_lt hlt) _ _
        · intro x hx
          rw [find?_beginRace, if_neg (Nat.ne_of_gt (Nat.lt_succ_of_lt hx)),
            if_neg (Nat.ne_of_gt hx)]
        · intro x c v hf hle
          rw [find?_beginRace] at hf
          split at hf
          · rename_i heq
            cases hf
            rw [newCheck, Function.update_self]
            exact Or.inr heq.symm
          · split at hf
            · rename_i heq
              cases hf
              rw [newCheck, Function.update_self]
              exact Or.inl heq.symm
            · exact absurd (tidy₁.bounded hf) (Nat.not_lt_of_le hle)
        · intro id hlt hle
          have hid : id = s₁.cells.size := by omega
          rw [hid, Function.update_self, hnext]
          exact Nat.lt_succ_self _
      exact ⟨_, h₂.park known₂ (.waiting (.cell s₁.cells.size) next)⟩

end Paired

end Run

end ArrayInference
