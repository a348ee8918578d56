import ArrayInference.Proofs.Exchange.Renaming

/-!
# What tasks begin and end, in both runs

Tasks that belong together end in the same way and begin the same tasks. Only at the conditional whose
branches are exchanged the two runs make the tasks of the branches in different orders, and from then
on each of these tasks has the number of the other one.
-/

namespace ArrayInference

variable {x : Exchange} {σ τ : Equiv.Perm TaskId} {n : Nat}

namespace Memo

section

variable {readers : Readers} {m : Memo} {key : Entry} {p : Promise TaskId}

theorem poisonAll_of_absent (absent : m.find? key = none) (e : InferError) (woken : List TaskId)
    (rest : List Entry) :
    poisonAll readers e m woken (key :: rest) = poisonAll readers e m woken rest := by
  rw [poisonAll]
  split
  · rfl
  · rename_i found
    rw [absent] at found
    cases found

theorem poisonAll_of_failed (found : m.find? key = some p) (failed : p.hasFailed = true)
    (e : InferError) (woken : List TaskId) (rest : List Entry) :
    poisonAll readers e m woken (key :: rest) = poisonAll readers e m woken rest := by
  rw [poisonAll]
  split
  · rfl
  · rename_i found'
    obtain rfl := Option.some.inj (found.symm.trans found')
    split
    · rfl
    · rename_i failing
      rw [Promise.poison?_of_failed failed] at failing
      cases failing

theorem poisonAll_of_sound (found : m.find? key = some p) (sound : p.hasFailed = false)
    (e : InferError) (woken : List TaskId) (rest : List Entry) :
    poisonAll readers e m woken (key :: rest)
      = poisonAll readers e (m.insert key { result := some (.error e), waiters := [] })
          (woken ++ p.waiters) (readers.of key ++ rest) := by
  rw [poisonAll]
  split
  · rename_i absent
    rw [found] at absent
    cases absent
  · rename_i found'
    obtain rfl := Option.some.inj (found.symm.trans found')
    split <;> rename_i failing <;> rw [Promise.poison?_of_not_failed sound] at failing <;> cases failing
    rfl

end

/-- A late failure reaches the same entries in both runs. -/
theorem same_poisonAll (readers : Readers) (e e' : InferError) (m m' : Memo) (woken : List TaskId)
    (pending : List Entry)
    (same : ∀ key, Option.Rel (SamePromise σ n) (m.find? key) (m'.find? key))
    (bounded : ∀ i ∈ woken, i < n) :
    (poisonAll readers e' m' (woken.map σ) pending).1 = (poisonAll readers e m woken pending).1.map σ
      ∧ (∀ i ∈ (poisonAll readers e m woken pending).1, i < n)
      ∧ ∀ key, Option.Rel (SamePromise σ n) ((poisonAll readers e m woken pending).2.find? key)
          ((poisonAll readers e' m' (woken.map σ) pending).2.find? key) := by
  fun_induction poisonAll readers e m woken pending generalizing m' with
  | case1 m woken =>
    rw [poisonAll]
    exact ⟨rfl, bounded, same⟩
  | case2 m woken key rest absent ih =>
    rw [poisonAll_of_absent (eq_none_of_rel (absent ▸ same key))]
    exact ih m' same bounded
  | case3 m woken key rest p found failed ih =>
    obtain ⟨q, found', hsame⟩ := exists_of_rel_some (found ▸ same key)
    have hfailed : p.hasFailed = true := by
      by_contra sound
      rw [Promise.poison?_of_not_failed (Bool.not_eq_true _ ▸ sound)] at failed
      cases failed
    rw [poisonAll_of_failed found' (hsame.hasFailed_eq.trans hfailed)]
    exact ih m' same bounded
  | case4 m woken key rest p found waiters q failing ih =>
    have sound := (Promise.hasFailed_of_poison? failing).1
    rw [Promise.poison?_of_not_failed sound] at failing
    cases failing
    obtain ⟨q, found', hsame⟩ := exists_of_rel_some (found ▸ same key)
    rw [poisonAll_of_sound found' (hsame.hasFailed_eq.trans sound), hsame.waiters, ← List.map_append]
    refine ih _ (fun other => ?_) fun i hi => ?_
    · rw [Table.find?_insert, Table.find?_insert]
      split
      · exact .some (.settled rfl)
      · exact same other
    · rcases List.mem_append.mp hi with hi | hi
      · exact bounded i hi
      · exact hsame.bounded i hi

end Memo

namespace Run

namespace Exchanged

variable {s t : Run} {self : TaskId} {source : Source}

/-- A source gets its result, unless it has one. -/
theorem resolve (h : Exchanged x σ s t) (source : Source) {r r' : Outcome}
    (same : r'.toOption = r.toOption) : Exchanged x σ (s.resolve source r) (t.resolve source r') := by
  cases found : s.promise? source with
  | none =>
    have found' := h.promise_of_none _ found
    rw [Run.resolve, found, Run.resolve, found']
    exact h
  | some p =>
    obtain ⟨q, found', hsame⟩ := h.promise_of_some _ found
    cases missing : p.result with
    | none =>
      rw [resolve_of_pending found missing, resolve_of_pending found' (hsame.missing_iff.mpr missing),
        fulfil, fulfil, hsame.waiters]
      refine (h.setFound found found' (.settled same)).wake fun i hi => ?_
      rw [(setPromise_same s source _).2.2.2.1]
      exact hsame.bounded i hi
    | some first =>
      have settled : ∀ p', s.promise? source = some p' → p'.result.isSome := by
        intro p' hp'
        rw [found, Option.some.injEq] at hp'
        rw [← hp', missing]
        rfl
      have settled' : ∀ q', t.promise? source = some q' → q'.result.isSome := by
        intro q' hq'
        rw [found', Option.some.injEq] at hq'
        rw [← hq', Option.isSome_iff_ne_none]
        exact fun hq => by rw [hsame.missing_iff.mp hq] at missing; cases missing
      rw [resolve_of_settled settled, resolve_of_settled settled']
      exact h

/-- A branch that ended second makes the conditional fail. -/
theorem failBranch (h : Exchanged x σ s t) (site : Option Entry) (e e' : InferError) :
    Exchanged x σ (s.failBranch site e) (t.failBranch site e') := by
  have detached : ∀ {u v : Run}, Exchanged x σ u v →
      Exchanged x σ { u with detached := u.detached ++ [e] }
        { v with detached := v.detached ++ [e'] } := by
    intro u v huv
    exact { huv with detached := by simp }
  cases site with
  | none => exact detached h
  | some key =>
    refine detached ?_
    have hreaders : t.engine.readers = s.engine.readers := by
      rw [h.engine]
      rfl
    obtain ⟨hwoken, hbounded, hmemo⟩ := Memo.same_poisonAll s.engine.readers e e' s.engine.memo
      t.engine.memo [] [key] (fun key => h.promises (.entry key)) (by simp)
    rw [List.map_nil] at hwoken hmemo
    show Exchanged x σ
      ((s.setMemo (s.engine.memo.poison s.engine.readers key e).2).wake
        (s.engine.memo.poison s.engine.readers key e).1)
      ((t.setMemo (t.engine.memo.poison t.engine.readers key e').2).wake
        (t.engine.memo.poison t.engine.readers key e').1)
    rw [hreaders, Memo.poison, Memo.poison, hwoken]
    refine @wake x σ (s.setMemo _) (t.setMemo _) ?_ _ hbounded
    refine { h with engine := ?_, promises := fun source => ?_ }
    · exact congrArg (fun f : Engine => { f with memo := (Memo.poisonAll s.engine.readers e'
        t.engine.memo [] [key]).2 }) h.engine
    · cases source with
      | entry k => exact hmemo k
      | cell id => exact h.promises (.cell id)

/-- A branch ends. -/
theorem endBranch (h : Exchanged x σ s t) {c c' : BranchCheck} (cell : c'.cell = c.cell)
    (track : c'.track = c.track) (site : c'.site = c.site) {r r' : Outcome}
    (same : r'.toOption = r.toOption) : Exchanged x σ (s.endBranch c r) (t.endBranch c' r') := by
  rw [Run.endBranch, Run.endBranch, cell, track, site]
  cases found : s.promise? (.cell c.cell) with
  | none =>
    rw [h.promise_of_none _ found]
    exact h.resolve _ same
  | some p =>
    obtain ⟨q, found', hsame⟩ := h.promise_of_some _ found
    rw [found', Option.bind_some, Option.bind_some]
    rcases hp : p.result with _ | first | first
    · rw [hsame.missing_iff.mpr hp]
      exact h.resolve _ same
    · obtain ⟨e', he'⟩ := hsame.failed hp
      rw [he']
      exact h
    · rw [hsame.ok_iff.mpr hp]
      cases r with
      | error e =>
        cases r' with
        | error e' => exact h.failBranch _ _ _
        | ok second => cases same
      | ok second =>
        cases r' with
        | error e' => cases same
        | ok second' =>
          cases Option.some.inj same
          simp only []
          split
          · exact h.note _ _
          · exact h.failBranch _ _ _

/-- A task ends. -/
theorem endTask (h : Exchanged x σ s t) (self : TaskId) {goal goal' : Goal}
    (belongs : SameGoal goal goal') {r r' : Outcome} (same : r'.toOption = r.toOption) :
    Exchanged x σ (s.endTask self goal r) (t.endTask (σ self) goal' r') := by
  have left := h.leave self
  cases belongs with
  | answer => exact { left with outcome := congrArg some same }
  | entry key =>
    refine left.resolve (.entry key) ?_
    cases r <;> cases r' <;> exact same
  | branch cell track site => exact left.endBranch cell track site same

/-- The task of an entry that nobody has asked for. -/
theorem beginEntry (h : Exchanged x σ s t) (own : self < s.nextTask) (key : Entry)
    (twins : Twins x (key.ref.infer key.track) (key.ref.infer key.track)) :
    Exchanged x σ (s.beginEntry self key) (t.beginEntry (σ self) key) := by
  have entered : ∀ (u : Run) (p : Promise TaskId) (other : Source),
      (u.setPromise (.entry key) p).promise? other
        = if Source.entry key = other then some p else u.promise? other := by
    intro u p other
    cases other with
    | entry k =>
      show (u.engine.memo.insert key p).find? k = _
      rw [Table.find?_insert]
      simp only [Source.entry.injEq, promise?]
    | cell id => rfl
  refine (h.setPromise (.entry key) ?_ (entered s _) (entered t _)).spawn (.entry key) twins
  exact ⟨rfl, rfl, fun i hi => List.mem_singleton.mp hi ▸ own⟩

/-- How the numbers of the tasks of two branches belong together: straight, or crosswise if the
branches stand in the other order. -/
def Numbered (σ τ : Equiv.Perm TaskId) (new : TaskId) (first second first' second' : Ref) : Prop :=
  (∀ i, i ≠ new → i ≠ new + 1 → τ i = σ i)
    ∧ (τ new = new ∧ τ (new + 1) = new + 1 ∧ first' = first ∧ second' = second
      ∨ τ new = new + 1 ∧ τ (new + 1) = new ∧ first' = second ∧ second' = first)

/-- The tasks of the two branches belong together. -/
theorem tasks_beginRace (h : Exchanged x σ s t) (reader : Option Entry) (track : Track)
    (use : BranchUse) {first second first' second' : Ref}
    (numbered : Numbered σ τ s.nextTask first second first' second') (i : TaskId) :
    Option.Rel (SameTask x) ((s.beginRace self reader track use first second).tasks.find? i)
      ((t.beginRace (σ self) reader track use first' second').tasks.find? (τ i)) := by
  obtain ⟨old, made⟩ := numbered
  have hcheck : ∀ {a b a' b' subject : Ref},
      SameTask x ⟨.branch (s.newCheck reader track a b subject), .ready (Infer.branch track use subject)⟩
        ⟨.branch (t.newCheck reader track a' b' subject), .ready (Infer.branch track use subject)⟩ :=
    ⟨.branch h.cells rfl rfl, .ready (twins_branch _ _ _)⟩
  rw [find?_beginRace, find?_beginRace, h.nextTask]
  by_cases hi : s.nextTask + 1 = i
  · subst hi
    rw [if_pos rfl]
    rcases made with ⟨-, hτ, rfl, rfl⟩ | ⟨-, hτ, rfl, rfl⟩
    · rw [if_pos hτ.symm]
      exact .some hcheck
    · rw [hτ, if_neg (Nat.succ_ne_self _), if_pos rfl]
      exact .some hcheck
  · rw [if_neg hi]
    by_cases hi' : s.nextTask = i
    · subst hi'
      rw [if_pos rfl]
      rcases made with ⟨hτ, -, rfl, rfl⟩ | ⟨hτ, -, rfl, rfl⟩
      · rw [hτ, if_neg (Nat.succ_ne_self _), if_pos rfl]
        exact .some hcheck
      · rw [if_pos hτ.symm]
        exact .some hcheck
    · rw [if_neg hi', old i (Ne.symm hi') (Ne.symm hi), if_neg (h.fresh_ne (Nat.le_succ _) hi),
        if_neg (h.fresh_ne (Nat.le_refl _) hi')]
      exact h.tasks i

/-- The two tasks of a conditional. In the second run they may be made in another order, if they are
numbered accordingly. -/
theorem beginRace (h : Exchanged x σ s t) (own : self < s.nextTask) (reader : Option Entry)
    (track : Track) (use : BranchUse) {first second first' second' : Ref} {incoming : List TaskId}
    (numbered : Numbered σ τ s.nextTask first second first' second')
    (order : incoming = t.schedule.incoming ++ [τ s.nextTask, τ (s.nextTask + 1)]) :
    Exchanged x τ (s.beginRace self reader track use first second)
      ((t.beginRace (σ self) reader track use first' second').scheduled
        { t.schedule with incoming }) := by
  have agree : ∀ i < s.nextTask, τ i = σ i := fun i hi =>
    numbered.1 i (Nat.ne_of_lt hi) (Nat.ne_of_lt (Nat.lt_succ_of_lt hi))
  refine
    { engine := h.engine, active := h.active, ready := ?_, incoming := ?_, queued := ?_
      tasks := h.tasks_beginRace reader track use numbered
      distinct := (h.distinct.insert _ _).insert _ _
      distinct' := (h.distinct'.insert _ _).insert _ _, bounded := ?_
      nextTask := congrArg (· + 2) h.nextTask, fresh := ?_, promises := fun source => ?_
      cells := ?_, detached := h.detached, outcome := h.outcome }
  · refine h.ready.trans (List.map_congr_left fun i hi => (agree i ?_).symm)
    exact h.queued i (List.mem_append_left _ hi)
  · show incoming = (s.schedule.incoming ++ [s.nextTask] ++ [s.nextTask + 1]).map τ
    rw [order, h.incoming, List.append_assoc, List.map_append]
    congr 1
    refine List.map_congr_left fun i hi => (agree i ?_).symm
    exact h.queued i (List.mem_append_right _ hi)
  · intro i hi
    show i < s.nextTask + 2
    replace hi : i ∈ ((s.schedule.spawn s.nextTask).spawn (s.nextTask + 1)).queue := hi
    rw [Schedule.mem_spawn, Schedule.mem_spawn] at hi
    rcases hi with (hi | rfl) | rfl
    · exact Nat.lt_add_right 2 (h.queued i hi)
    · exact Nat.lt_add_of_pos_right (by decide)
    · exact Nat.lt_succ_self _
  · intro i task found
    show i < s.nextTask + 2
    rw [find?_beginRace] at found
    split at found
    · rename_i heq
      exact heq ▸ Nat.lt_succ_self _
    · split at found
      · rename_i heq
        exact heq ▸ Nat.lt_add_of_pos_right (by decide)
      · exact Nat.lt_add_right 2 (h.bounded i task found)
  · intro i hi
    have hlt : s.nextTask + 1 < i := hi
    rw [numbered.1 i (Nat.ne_of_gt (Nat.lt_of_succ_lt hlt)) (Nat.ne_of_gt hlt)]
    exact h.fresh i (Nat.le_of_lt (Nat.lt_of_succ_lt hlt))
  · rw [promise?_scheduled, promise?_beginRace, promise?_beginRace, h.cells]
    split
    · refine .some ⟨rfl, ?_, fun i hi => ?_⟩
      · rw [List.map_singleton, agree self own]
      · obtain rfl := List.mem_singleton.mp hi
        exact Nat.lt_add_right 2 own
    · exact rel_imp (h.promises source) fun _ _ same => same.mono (Nat.le_add_right _ 2) agree
  · show ((t.cells.push _).setIfInBounds _ _).size = ((s.cells.push _).setIfInBounds _ _).size
    rw [Array.size_setIfInBounds, Array.size_setIfInBounds, Array.size_push, Array.size_push, h.cells]

end Exchanged

end Run

end ArrayInference
