import ArrayInference.Proofs.Run.Rerun

/-!
# Which node an error belongs to

The task of an entry attributes the error that it ends with to its node, unless the error belongs to
one already. A late failure is not attributed: it is what the task of a branch has ended with. Main
statement: at the end of a run the error of every new entry names a node, or is that of a late
failure; and where no late failure is involved, an entry that has asked for a failed one holds the
same error, with the same nodes.
-/

namespace ArrayInference

namespace InferError

/-- The error names a node, or it is one of the configuration and belongs to none. -/
def Placed (e : InferError) : Prop :=
  e.nodes ≠ [] ∨ ∃ message, e.cause = .config message

theorem cause_attributeTo (e : InferError) (node : NodeId) :
    (e.attributeTo node).cause = e.cause := by
  rw [attributeTo]
  split <;> rfl

theorem placed_attributeTo (e : InferError) (node : NodeId) : (e.attributeTo node).Placed := by
  rw [attributeTo]
  split
  · rename_i cause
    exact .inr ⟨_, cause⟩
  · exact .inl (by simp)
  · rename_i nodes _
    exact .inl (by simp [nodes])

theorem attributeTo_of_placed {e : InferError} (h : e.Placed) (node : NodeId) :
    e.attributeTo node = e := by
  rw [attributeTo]
  split
  · rfl
  · rename_i nodes other
    rcases h with named | ⟨message, cause⟩
    · exact absurd nodes named
    · exact absurd cause (other message)
  · rfl

end InferError

namespace Run

variable {before : Memo} {s t : Run} {self : TaskId} {past log : List Event}

/-- What the errors of entries come from, in the middle of a run. -/
structure Attributed (before : Memo) (past : List Event) (s : Run) : Prop where
  placed : ∀ {key : Entry} {e : InferError}, s.resultOf (.entry key) = some (.error e) →
    before.find? key = none → e.Placed ∨ ReachedBy past key e
  handed : ∀ {key reader : Entry}, AskedBy past key reader →
    (∃ v, s.resultOf (.entry key) = some (.ok v))
      ∨ (∃ e, s.resultOf (.entry key) = some (.error e)
        ∧ s.resultOf (.entry reader) = some (.error (e.attributeTo reader.ref.node)))
      ∨ (∃ t next, s.tasks.find? t = some ⟨.entry reader, .waiting (.entry key) next⟩)
      ∨ Reached past key ∨ Reached past reader
  overtaken : ∀ {t : TaskId} {key : Entry} {w : Work}, s.tasks.find? t = some ⟨.entry key, w⟩ →
    s.resultOf (.entry key) ≠ none → Reached past key

/-- What the end of a task does to an entry, with the error of a late failure. -/
theorem Ends.changed {goal : Goal} {asks : List Event} {s₀ : Run} {r : Outcome}
    (ends : Ends s self goal asks s₀ r) (tidy : Tidy before (some self) s)
    (traced : Traced before past s) (key : Entry) :
    (s₀.endTask self goal r).resultOf (.entry key) = s.resultOf (.entry key)
      ∨ (goal = .entry key ∧ s.resultOf (.entry key) = none
        ∧ (s₀.endTask self goal r).resultOf (.entry key) = some (attributed key.ref.node r))
      ∨ ∃ e, (s₀.endTask self goal r).resultOf (.entry key) = some (.error e)
        ∧ ReachedBy (past ++ (asks ++ [.ended goal r])) key e := by
  obtain ⟨w, known⟩ := ends.known
  have alike := alike_of_engine ends.same ends.memo
  have hresult : ∀ source, (s₀.leave self).resultOf source = s.resultOf source :=
    fun source => (resultOf_leave s₀ self source).trans (alike.results source)
  rcases (ending_endTask s₀ self goal r).resultOf (.entry key) with
    hsame | ⟨aims, hnone, hnew⟩ | ⟨c, first, e, site, k, rfl, hfirst, clash, hk, -, hnew, hsite, path⟩
  · exact .inl (hsame.trans (hresult _))
  · rw [hresult] at hnone
    cases goal with
    | answer => cases aims
    | branch c => cases aims
    | entry k =>
      cases aims
      exact .inr (.inl ⟨rfl, hnone, hnew⟩)
  · cases hk
    rw [hresult] at hfirst
    have hpath := Relation.ReflTransGen.mono (fun _ _ => ends.mem_readers_of_branch) _ _ path
    exact .inr (.inr ⟨e, hnew, reachedBy_of_path tidy traced known hfirst clash hsite hpath asks⟩)

namespace Attributed

theorem alike (h : Attributed before past s) (alike : Alike s t) : Attributed before past t := by
  refine ⟨?_, ?_, ?_⟩
  · intro key e failed
    rw [alike.results] at failed
    exact h.placed failed
  · intro key reader asked
    simp only [alike.results, alike.tasks]
    exact h.handed asked
  · intro x key w found
    rw [alike.results]
    exact h.overtaken (alike.tasks ▸ found)

/-- Whoever ends with the failure of an entry hands it on, unless a late failure was faster. -/
theorem handed_on (h : Attributed before past s) (traced : Traced before past s)
    (tidy : Tidy before (some self) s) {key reader : Entry} {asks : List Event} {s₀ : Run}
    {e : InferError} (ends : Ends s self (.entry reader) asks s₀ (.error e))
    (failed : s.resultOf (.entry key) = some (.error e))
    (kept : (s₀.endTask self (.entry reader) (.error e)).resultOf (.entry key)
      = s.resultOf (.entry key)) :
    (∃ e', (s₀.endTask self (.entry reader) (.error e)).resultOf (.entry key) = some (.error e')
        ∧ (s₀.endTask self (.entry reader) (.error e)).resultOf (.entry reader)
          = some (.error (e'.attributeTo reader.ref.node)))
      ∨ Reached (past ++ (asks ++ [.ended (.entry reader) (.error e)])) reader := by
  obtain ⟨w, known⟩ := ends.known
  rcases ends.changed tidy traced reader with same | ⟨-, -, new⟩ | ⟨e', -, late⟩
  · refine .inr ((h.overtaken known fun none => ?_).append _)
    have alike := alike_of_engine ends.same ends.memo
    obtain ⟨e', fail⟩ := failedAt_of_error (tidy.alike_engine ends.same ends.memo)
      (by rw [alike.tasks]; exact known) (fun some => absurd ((alike.results _).trans none) some)
      (ending_endTask s₀ self (.entry reader) (.error e)) rfl
    rw [same, none] at fail
    cases fail
  · exact .inl ⟨e, kept.trans failed, new⟩
  · exact .inr late.reached

theorem ends (h : Attributed before past s) (traced : Traced before past s)
    (tidy : Tidy before (some self) s) {goal : Goal} {asks : List Event} {s₀ : Run} {r : Outcome}
    (ends : Ends s self goal asks s₀ r) :
    Attributed before (past ++ (asks ++ [.ended goal r])) (s₀.endTask self goal r) := by
  obtain ⟨w, known⟩ := ends.known
  have alike := alike_of_engine ends.same ends.memo
  have changed := ends.changed tidy traced
  have htasks : (s₀.endTask self goal r).tasks = s.tasks.erase self := by
    rw [(ending_endTask s₀ self goal r).same.1, ← alike.tasks]
    rfl
  -- A result that is there stays, unless a late failure reaches the entry.
  have stays : ∀ {key : Entry} {r' : Outcome}, s.resultOf (.entry key) = some r' →
      (s₀.endTask self goal r).resultOf (.entry key) = s.resultOf (.entry key)
        ∨ Reached (past ++ (asks ++ [.ended goal r])) key := by
    intro key r' there
    rcases changed key with same | ⟨-, none, -⟩ | ⟨e, -, late⟩
    · exact .inl same
    · rw [there] at none
      cases none
    · exact .inr late.reached
  refine ⟨?_, ?_, ?_⟩
  · intro key e failed new
    rcases changed key with same | ⟨-, -, given⟩ | ⟨e', given, late⟩
    · exact (h.placed (same ▸ failed) new).imp_right fun late => late.append _
    · rw [given] at failed
      cases r with
      | ok p => cases failed
      | error e' =>
        cases failed
        exact .inl (e'.placed_attributeTo key.ref.node)
    · rw [given] at failed
      cases failed
      exact .inr late
  · intro key reader asked
    -- What the task that ends has read is there, or it is what the task hands on.
    have read : goal = .entry reader → ((∃ v, s.resultOf (.entry key) = some (.ok v))
        ∨ ∃ e, s.resultOf (.entry key) = some (.error e) ∧ r = .error e) →
        (∃ v, (s₀.endTask self goal r).resultOf (.entry key) = some (.ok v))
          ∨ (∃ e, (s₀.endTask self goal r).resultOf (.entry key) = some (.error e)
            ∧ (s₀.endTask self goal r).resultOf (.entry reader)
              = some (.error (e.attributeTo reader.ref.node)))
          ∨ Reached (past ++ (asks ++ [.ended goal r])) key
          ∨ Reached (past ++ (asks ++ [.ended goal r])) reader := by
      rintro rfl (⟨v, ok⟩ | ⟨e, failed, rfl⟩)
      · rcases stays ok with same | late
        · exact .inl ⟨v, same.trans ok⟩
        · exact .inr (.inr (.inl late))
      · rcases stays failed with same | late
        · rcases h.handed_on traced tidy ends failed same with handed | late
          · exact .inr (.inl handed)
          · exact .inr (.inr (.inr late))
        · exact .inr (.inr (.inl late))
    rcases List.mem_append.mp asked with asked | asked
    · rcases h.handed asked with ⟨v, ok⟩ | ⟨e, failed, handed⟩ | ⟨x, next, waits⟩ | late | late
      · rcases stays ok with same | late
        · exact .inl ⟨v, same.trans ok⟩
        · exact .inr (.inr (.inr (.inl late)))
      · rcases stays failed with same | late
        · rcases stays handed with same' | late
          · exact .inr (.inl ⟨e, same.trans failed, same'.trans handed⟩)
          · exact .inr (.inr (.inr (.inr late)))
        · exact .inr (.inr (.inr (.inl late)))
      · by_cases own : x = self
        · subst own
          rw [known] at waits
          cases waits
          rcases read rfl (ends.waited (.entry key) ⟨_, next, known⟩) with ok | handed | late
          · exact .inl ok
          · exact .inr (.inl handed)
          · exact .inr (.inr (.inr late))
        · refine .inr (.inr (.inl ⟨x, next, ?_⟩))
          rw [htasks, Table.find?_erase_of_ne _ (Ne.symm own), waits]
      · exact .inr (.inr (.inr (.inl (late.append _))))
      · exact .inr (.inr (.inr (.inr (late.append _))))
    · rcases List.mem_append.mp asked with asked | ended
      · obtain ⟨k, same, found⟩ := ends.asked _ asked
        rw [Event.asked.injEq] at same
        obtain ⟨reads, rfl⟩ := same
        rcases read (Goal.eq_entry_of_reader reads.symm) found with ok | handed | late
        · exact .inl ok
        · exact .inr (.inl handed)
        · exact .inr (.inr (.inr late))
      · cases List.mem_singleton.mp ended
  · intro x key w' found there
    rw [htasks, Table.find?_erase tidy.distinct] at found
    split at found
    · cases found
    · rename_i other
      rcases changed key with same | ⟨rfl, -, -⟩ | ⟨e, -, late⟩
      · exact (h.overtaken found (same ▸ there)).append _
      · exact absurd (tidy.alone known found (by simp)) other
      · exact late.reached

theorem stays (h : Attributed before past s) (tidy : Tidy before (some self) s) {goal : Goal}
    {w : Work} {asks log : List Event} {s₁ s₂ : Run} {b : Infer Property}
    {progress : Progress Property} (known : s.tasks.find? self = some ⟨goal, w⟩)
    (waited : ∀ source, s.Waits self source → ∃ v, s.resultOf source = some (.ok v))
    (quiet : Quiet goal.reader s asks s₁) (halt : Halt self goal.reader b s₁ log progress s₂)
    (unended : ∀ r, progress ≠ .ended r) :
    Attributed before (past ++ (asks ++ log)) (s₂.settle self goal progress) := by
  have results := resultOf_settle quiet halt unended
  refine ⟨?_, ?_, ?_⟩
  · intro key e failed new
    rw [results] at failed
    exact (h.placed failed new).imp_right fun late => late.append _
  · intro key reader asked
    simp only [results]
    rcases List.mem_append.mp asked with asked | asked
    · rcases h.handed asked with ok | handed | ⟨x, next, waits⟩ | late | late
      · exact .inl ok
      · exact .inr (.inl handed)
      · by_cases own : x = self
        · subst own
          exact .inl (waited _ ⟨_, next, waits⟩)
        · exact .inr (.inr (.inl ⟨x, next, find?_settle_of_ne tidy quiet halt unended own waits⟩))
      · exact .inr (.inr (.inr (.inl (late.append _))))
      · exact .inr (.inr (.inr (.inr (late.append _))))
    · obtain ⟨-, ok | ⟨next, waits⟩⟩ := asked_of_settle quiet halt unended asked
      · exact .inl ok
      · exact .inr (.inr (.inl ⟨self, next, waits⟩))
  · intro x key w' found there
    rw [results] at there
    rcases find?_of_settle quiet halt unended found with ⟨-, rfl⟩ | found | ⟨source, aims, absent⟩
    · exact (h.overtaken known there).append _
    · exact (h.overtaken found there).append _
    · cases aims
      rw [resultOf, absent] at there
      exact absurd rfl there

theorem turned (h : Attributed before past s) (traced : Traced before past s)
    (tidy : Tidy before (some self) s) (turn : Turned s self log t) :
    Attributed before (past ++ log) t := by
  cases turn.move with
  | idle alike readers =>
    rw [List.append_nil]
    exact h.alike alike
  | ends ends => exact h.ends traced tidy ends
  | stays known waited quiet halt unended => exact h.stays tidy known waited quiet halt unended

end Attributed

/-! ## Runs -/

section

variable {e : Engine} {graph : GraphId} {args : List ArgSpec} {track : Track}

theorem attributed_asking (e : Engine) (graph : GraphId) (args : List ArgSpec) (track : Track) :
    Attributed e.memo [] (asking e graph args track) := by
  have hmemo : ((EngineM.graphInferrer track graph .empty).run e).2.memo = e.memo :=
    (EngineM.grows_graphInferrer track graph .empty e).memo
  refine ⟨?_, by rintro _ _ ⟨⟩, ?_⟩
  · intro key err failed new
    obtain ⟨p, found, -⟩ := exists_promise_of_resultOf failed
    replace found : ((EngineM.graphInferrer track graph .empty).run e).2.memo.find? key = some p :=
      found
    rw [hmemo, new] at found
    cases found
  · intro x key w found
    cases (opening_find? found).2

theorem attributed_polls (arises : e.Arises) (polls : Polls (asking e graph args track) log s) :
    Tidy e.memo none s ∧ Attributed e.memo log s := by
  obtain ⟨kept, traced, -⟩ := stands_polls arises (.rest (asking e graph args track))
  have all := Polls.invariant (fun past s => Tidy e.memo none s ∧ Traced e.memo past s
    ∧ Attributed e.memo past s) ?_ [] polls ⟨kept.tidy, traced, attributed_asking e graph args track⟩
  · exact ⟨all.1, all.2.2⟩
  · rintro past log s t self schedule ⟨tidy, traced, attributed⟩ offers turn
    have alike := alike_scheduled s schedule
    have tidy' := tidy.offered offers
    exact ⟨tidy'.turned turn, (traced.alike alike rfl).turned tidy' turn,
      (attributed.alike alike).turned (traced.alike alike rfl) tidy' turn⟩

/-- The errors at the end of a run, whatever the order of its turns. That of an entry which the run has
made names a node, unless it belongs to the configuration or is that of a late failure. An entry that
has asked for one that has failed has failed too, and if neither was reached by a late failure, the
error is the same and names the same nodes; only an error without nodes is attributed on the way. -/
theorem error_attributed (arises : e.Arises) (polls : Polls (asking e graph args track) log s)
    (finished : s.Finished) :
    (∀ key err, s.resultOf (.entry key) = some (.error err) → e.memo.find? key = none →
        err.Placed ∨ ReachedBy log key err)
      ∧ ∀ key reader err, AskedBy log key reader → s.resultOf (.entry key) = some (.error err) →
        ¬ Reached log key → ¬ Reached log reader →
        ∃ err', s.resultOf (.entry reader) = some (.error err')
          ∧ err' = err.attributeTo reader.ref.node ∧ (err.Placed → err' = err) := by
  obtain ⟨tidy, attributed⟩ := attributed_polls arises polls
  refine ⟨fun key err failed new => attributed.placed failed new, ?_⟩
  intro key reader err asked failed sound sound'
  rcases attributed.handed asked with ⟨v, ok⟩ | ⟨e', failed', handed⟩ | ⟨x, next, waits⟩ | late | late
  · rw [failed] at ok
    cases ok
  · rw [failed] at failed'
    cases failed'
    exact ⟨_, handed, rfl, fun placed => InferError.attributeTo_of_placed placed _⟩
  · -- Nobody waits for a result that is there once the run is over.
    obtain ⟨p, found, -, queued⟩ := tidy.waiting waits
    rw [resultOf_of_promise? found] at failed
    have queued := queued (by simp [failed]) (by simp)
    rw [finished] at queued
    cases queued
  · exact absurd late sound
  · exact absurd late sound'

end

/-- A graph that hands on the item of a tuple, which has no such item. -/
def missing : Program :=
  let (g, p) := Program.empty.addGraph "main" none
  let (items, p) := p.addConstant (.tuple [.int 1])
  let (index, p) := p.addConstant (.int 5)
  let (item, p) := p.addOperation g .tupleGetItem [items, index]
  let (output, p) := p.addOperation g .identity [item]
  p.setOutput g output

/-- The error that an entry has, if it has failed. -/
def errorOf? (s : Run) (r : NodeRef) (track : Track) : Option InferError :=
  (s.resultOf (.entry { ref := r, track })).bind fun
    | .ok _ => none
    | .error e => some e

theorem error_attributed_missing :
    ∃ log s err, Polls (asking (.new missing (.empty ⟨0⟩) .standard) ⟨0⟩ [] .type) log s
      ∧ s.Finished ∧ s.errorOf? ⟨⟨5⟩, .frame .empty ⟨0⟩ []⟩ .type = some err ∧ err.nodes = [⟨3⟩]
      ∧ (∀ key err, s.resultOf (.entry key) = some (.error err) →
          (Engine.new missing (.empty ⟨0⟩) .standard).memo.find? key = none →
          err.Placed ∨ ReachedBy log key err)
      ∧ ∀ key reader err, AskedBy log key reader → s.resultOf (.entry key) = some (.error err) →
        ¬ Reached log key → ¬ Reached log reader →
        ∃ err', s.resultOf (.entry reader) = some (.error err')
          ∧ err' = err.attributeTo reader.ref.node ∧ (err.Placed → err' = err) := by
  have hrun : (driveWithin 10 30
      (asking (.new missing (.empty ⟨0⟩) .standard) ⟨0⟩ [] .type)).map
        (fun t => (t.errorOf? ⟨⟨5⟩, .frame .empty ⟨0⟩ []⟩ .type).map InferError.nodes)
      = some (some [⟨3⟩]) := by
    decide +kernel
  obtain ⟨log, s, polls, finished, seen⟩ := exists_polls_of_driveWithin rfl hrun
  obtain ⟨err, failed, nodes⟩ := Option.map_eq_some_iff.mp seen
  exact ⟨log, s, err, polls, finished, failed, nodes,
    error_attributed (.new _ _ _) polls finished⟩

end Run

end ArrayInference
