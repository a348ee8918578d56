import ArrayInference.Proofs.Run.Alone
import ArrayInference.Proofs.Run.Enclave

/-!
# Entries that keep to themselves get their results

Entries of an enclave ask for entries of lower ranks only, so a task that asks for one of them never
waits for itself. Main statement: a run that is asked for such an entry comes to an end, with a result
of which is true what is said of the entry.
-/

namespace ArrayInference

namespace Enclave

open Run

variable {v : Enclave} {n : Nat} {R : Engine → Outcome → Prop} {e e₀ : Engine} {key : Entry}
  {b : Infer Property} {s t u : Run} {i : TaskId} {goal : Goal} {r : Outcome}

/-- A run in which no entry of a rank below `n` is at work, and what is said of the entries is true. -/
structure Ready (v : Enclave) (n : Nat) (s : Run) : Prop where
  idle : ∀ {key : Entry} {p : Promise TaskId}, v.holds key → v.rank key < n →
    s.engine.memo.find? key = some p → p.result ≠ none
  found : ∀ {key : Entry} {r : Outcome}, v.holds key → s.resultOf (.entry key) = some r →
    v.tells key s.engine r

/-- The work of a task comes to its end, and all that it has begun has ended. -/
structure Reaches (v : Enclave) (R : Engine → Outcome → Prop) (i : TaskId) (goal : Goal)
    (b : Infer Property) (s : Run) (r : Outcome) (t : Run) : Prop extends
    Returns i goal b s r t where
  becomes : s.engine.Becomes t.engine
  result : R t.engine r
  fresh : ∀ {key : Entry} {p : Promise TaskId}, t.engine.memo.find? key = some p →
    s.engine.memo.find? key = some p ∨ p.result ≠ none
  found : ∀ {key : Entry} {r : Outcome}, v.holds key → t.resultOf (.entry key) = some r →
    v.tells key t.engine r

theorem Ready.of_fresh (h : v.Ready n s)
    (fresh : ∀ {key : Entry} {p : Promise TaskId}, t.engine.memo.find? key = some p →
      s.engine.memo.find? key = some p ∨ p.result ≠ none)
    (found : ∀ {key : Entry} {r : Outcome}, v.holds key → t.resultOf (.entry key) = some r →
      v.tells key t.engine r) : v.Ready n t where
  idle := fun held below there => (fresh there).elim (h.idle held below) id
  found := found

/-- Neither results nor promises have changed. -/
theorem Ready.same (h : v.Ready n s) (becomes : s.engine.Becomes t.engine)
    (memo : t.engine.memo = s.engine.memo) : v.Ready n t :=
  h.of_fresh (fun there => .inl (memo ▸ there)) fun {key r} held known => by
    have same : t.resultOf (.entry key) = s.resultOf (.entry key) :=
      resultOf_congr (congrArg (Table.find? · key) memo)
    exact v.mono (h.found held (same ▸ known)) becomes

/-- A first step that leaves the results as they are. -/
theorem Reaches.after {b₁ : Infer Property} (h : v.Reaches R i goal b₁ t r u)
    (becomes : s.engine.Becomes t.engine) (memo : t.engine.memo = s.engine.memo)
    (returns : Returns i goal b s r u) : v.Reaches R i goal b s r u where
  toReturns := returns
  becomes := becomes.trans h.becomes
  result := h.result
  fresh := fun there => memo ▸ h.fresh there
  found := h.found

/-! ## Entries that nobody has asked for -/

theorem becomes_descend (s : Run) (i : TaskId) (goal : Goal) (key : Entry)
    (next : Property → Infer Property) : s.engine.Becomes (s.descend i goal key next).engine :=
  (recorded_addReader s key goal.reader).becomes.trans (Engine.Becomes.refl.results _ _ _)

/-- When the task of an entry begins, it is the only one of its rank. -/
theorem Ready.descend (h : v.Ready n s) (below : v.rank key < n) (i : TaskId) (goal : Goal)
    (next : Property → Infer Property) : v.Ready (v.rank key) (s.descend i goal key next) where
  idle := by
    intro k p held lower there
    rw [memo_descend] at there
    rw [Table.find?_insert_of_ne _ _ (by rintro rfl; exact Nat.lt_irrefl _ lower)] at there
    exact h.idle held (Nat.lt_trans lower below) there
  found := by
    intro k r held known
    refine v.mono (h.found held ?_) (becomes_descend s i goal key next)
    replace known : ((s.descend i goal key next).engine.memo.find? k).bind (·.result) = some r :=
      known
    rw [memo_descend, Table.find?_insert] at known
    split at known
    · cases known
    · exact known

variable {next : Property → Infer Property}

theorem becomes_ascend (u : Run) (child : TaskId) (key : Entry) (r : Outcome) :
    u.engine.Becomes (u.ascend child key r).engine :=
  ((ending_endTask u child (.entry key) r).recorded : u.engine.Recorded _).becomes

/-- The task of an entry has ended, and its result is what is said of the entry. -/
theorem Reaches.ascend (child : v.Reaches (v.Aim key) s.nextTask (.entry key)
      (key.ref.infer key.track) (s.descend i goal key next) r u) :
    (∀ {k : Entry} {p : Promise TaskId},
        (u.ascend s.nextTask key r).engine.memo.find? k = some p →
        s.engine.memo.find? k = some p ∨ p.result ≠ none)
      ∧ ∀ {k : Entry} {r' : Outcome}, v.holds k →
        (u.ascend s.nextTask key r).resultOf (.entry k) = some r' →
        v.tells k (u.ascend s.nextTask key r).engine r' := by
  have pending : u.engine.memo.find? key = some { result := none, waiters := [i] } := by
    refine child.memo ?_
    rw [memo_descend, Table.find?_insert_self]
  have memo : (u.ascend s.nextTask key r).engine.memo
      = u.engine.memo.insert key { result := some (attributed key.ref.node r), waiters := [] } :=
    memo_ascend pending rfl
  refine ⟨fun {k p} there => ?_, fun {k r'} held' known => ?_⟩
  · rw [memo, Table.find?_insert] at there
    split at there
    · cases there
      exact .inr (by simp)
    · rename_i other
      rcases child.fresh there with there | ready
      · rw [memo_descend, Table.find?_insert_of_ne _ _ other] at there
        exact .inl there
      · exact .inr ready
  · refine v.mono ?_ (becomes_ascend u s.nextTask key r)
    replace known : ((u.ascend s.nextTask key r).engine.memo.find? k).bind (·.result) = some r' :=
      known
    rw [memo, Table.find?_insert] at known
    split at known
    · rename_i same
      cases known
      exact same ▸ child.result
    · exact child.found held' known

/-! ## Whole computations -/

/-- A computation comes to its end if what it asks for is said to have a result. -/
theorem Ends.reaches (closed : v.Closed e₀) (standard : e₀.Standard) (n : Nat)
    (ends : v.Ends n R e b) (steady : b.Steady) (alone : Alone i s) (becomes : e.Becomes s.engine)
    (start : e₀.Becomes s.engine) (ready : v.Ready n s) :
    ∃ r t, v.Reaches R i goal b s r t := by
  induction n using Nat.strongRecOn generalizing R e b s i goal with
  | ind n lower =>
  induction ends generalizing s with
  | @done e p result =>
    exact ⟨_, _, returns_done alone p, .refl, result _ becomes, .inl, ready.found⟩
  | @fail e err result =>
    exact ⟨_, _, returns_fail alone err, .refl, result _ becomes, .inl, ready.found⟩
  | @ask e query next later ih =>
    cases steady with
    | ask asks steady =>
      have asked : Step goal.reader (.ask query next) s [] _ (s.afterAnswer query) := .ask query next s
      have made : s.engine.Becomes (s.afterAnswer query).engine := Engine.Becomes.refl.answer asks
      have memo := afterAnswer_memo s query
      obtain ⟨r, t, reaches⟩ := ih _ becomes (steady _)
        (alone.spares_step asked).toAlone .refl (start.trans made) (ready.same made memo)
      exact ⟨r, t, reaches.after made memo (reaches.toReturns.ask alone)⟩
  | @call e callee args next c known later ih =>
    cases steady with
    | call steady =>
      have known := becomes.callable? known
      have body := Callable.steady_body (start.standard standard) known args
      obtain ⟨r, t, reaches⟩ := ih (body.bind steady) alone becomes start ready
      exact ⟨r, t, reaches.after .refl rfl (reaches.toReturns.call alone known)⟩
  | @demand e key next held below later failed ih =>
    cases steady with
    | demand steady =>
      have reading := (recorded_addReader s key goal.reader).becomes
      have memo := addReader_memo s key goal.reader
      cases there : s.engine.memo.find? key with
      | some p =>
        cases result : p.result with
        | none => exact absurd result (ready.idle held below there)
        | some r =>
          have known : s.promise? (.entry key) = some p := there
          have tells := v.mono (ready.found held ((resultOf_of_promise? known).trans result)) reading
          have up := becomes.trans reading
          cases r with
          | ok q =>
            obtain ⟨r, t, reaches⟩ := ih _ q up tells (steady q)
              (alone.spares_addReader key goal.reader).toAlone .refl (start.trans reading)
              (ready.same reading memo)
            exact ⟨r, t, reaches.after reading memo (reaches.toReturns.read alone there result)⟩
          | error err =>
            exact ⟨_, _, returns_of_failed alone there result, reading, failed _ err up tells,
              fun there => .inl (memo ▸ there), (ready.same reading memo).found⟩
      | none =>
        have down := becomes_descend s i goal key next
        obtain ⟨r, u, child⟩ : ∃ r u, v.Reaches (v.Aim key) s.nextTask (.entry key)
            (key.ref.infer key.track) (s.descend i goal key next) r u :=
          lower (v.rank key) below (closed held (start.trans down))
            (key.ref.steady_infer key.track) (alone.descend goal key next) .refl (start.trans down)
            (ready.descend below i goal next)
        obtain ⟨fresh, found⟩ := child.ascend
        have up := (down.trans child.becomes).trans (becomes_ascend u s.nextTask key r)
        have tells := v.mono child.result (becomes_ascend u s.nextTask key r)
        cases r with
        | ok q =>
          obtain ⟨r, t, reaches⟩ := ih _ q (becomes.trans up) tells (steady q)
            (alone.spares_ascend there child.toSpares).1.toAlone .refl (start.trans up)
            (ready.of_fresh fresh found)
          refine ⟨r, t, Returns.begin alone there child.toReturns rfl reaches.toReturns,
            up.trans reaches.becomes, reaches.result, fun there => ?_, reaches.found⟩
          exact (reaches.fresh there).elim fresh .inr
        | error err =>
          exact ⟨_, _, Returns.beginFailed alone there child.toReturns, up,
            failed _ _ (becomes.trans up) tells, fresh, found⟩

/-- A run that is asked for one of the entries finds a result of which is true what is said of it. -/
theorem Guards.run? (h : v.Guards e₀ (start e true)) (closed : v.Closed e₀) (standard : e₀.Standard)
    (settled : e.Settled) (held : v.holds key) :
    ∃ r e', e.run? (Infer.entry key.ref key.track) = some (r, e') ∧ e.Becomes e'
      ∧ v.tells key e' r := by
  have ends : v.Ends (v.rank key + 1) (v.tells key) e (.demand key .done) :=
    .demand held (Nat.lt_succ_self _) (fun _ _ _ tells => .done fun _ up => v.mono tells up)
      fun _ _ _ tells => tells
  have ready : v.Ready (v.rank key + 1) (opening e (.demand key .done)).taken :=
    ⟨fun _ _ there => settled.resolved there, h.found⟩
  obtain ⟨r, t, reaches⟩ : ∃ r t, v.Reaches (v.tells key) 0 .answer (.demand key .done)
      (opening e (.demand key .done)).taken r t :=
    ends.reaches closed standard _ (.demand .done) (alone_opening e _) .refl h.becomes ready
  exact ⟨r, _, run?_of_returns reaches.toReturns, reaches.becomes.results _ _ _,
    v.mono reaches.result (Engine.Becomes.refl.results _ _ _)⟩

end Enclave

end ArrayInference
