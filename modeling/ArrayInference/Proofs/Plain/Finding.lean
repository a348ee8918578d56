import ArrayInference.Proofs.Plain.Evaluator
import Mathlib.Data.Nat.Find

/-!
# What a plain evaluation finds

An evaluation that ends has looked at finitely many entries. Either it finds a result, and then every
entry on the way has one, or it comes to entries that need one another and have none.
-/

namespace ArrayInference

namespace Plain

/-- A computation finds a result. What leads to it has at most height `n`. -/
inductive FindsIn (P : Plain) : Nat → Infer Property → Outcome → Prop where
  | done (n : Nat) (p : Property) : FindsIn P n (.done p) (.ok p)
  | fail (n : Nat) (e : InferError) : FindsIn P n (.fail e) (.error e)
  | ask {n : Nat} {query : Query} {next : query.Answer → Infer Property} {a : query.Answer}
      {r : Outcome} (known : P.answer? query = some a) (rest : FindsIn P n (next a) r) :
      FindsIn P (n + 1) (.ask query next) r
  | call {n : Nat} {callee : Inferrer} {args : List Ref} {next : Property → Infer Property}
      {c : Callable} {r : Outcome} (known : P.callable? callee = some c)
      (rest : FindsIn P n ((c.body args).bind next) r) : FindsIn P (n + 1) (.call callee args next) r
  | uncallable (n : Nat) {callee : Inferrer} {args : List Ref} {next : Property → Infer Property}
      (unknown : P.callable? callee = none) :
      FindsIn P n (.call callee args next)
        (.error (.inference (callee.text ++ " is not callable")))
  | read {n : Nat} {key : Entry} {next : Property → Infer Property} {r r' : Outcome} {p : Property}
      (entry : FindsIn P n (body key) r) (ok : Run.attributed key.ref.node r = .ok p)
      (rest : FindsIn P n (next p) r') : FindsIn P (n + 1) (.demand key next) r'
  | failed {n : Nat} {key : Entry} {next : Property → Infer Property} {r : Outcome} {e : InferError}
      (entry : FindsIn P n (body key) r) (failed : Run.attributed key.ref.node r = .error e) :
      FindsIn P (n + 1) (.demand key next) (.error e)

/-- A computation finds a result. -/
def Finds (P : Plain) (b : Infer Property) (r : Outcome) : Prop :=
  ∃ n, P.FindsIn n b r

/-- An entry has a result. -/
def FindsEntry (P : Plain) (key : Entry) (r : Outcome) : Prop :=
  ∃ r', P.Finds (body key) r' ∧ Run.attributed key.ref.node r' = r

/-- A computation comes to one of some entries. -/
inductive Meets (P : Plain) (D : List Entry) : Infer Property → Prop where
  | here {key : Entry} {next : Property → Infer Property} (mem : key ∈ D) :
      Meets P D (.demand key next)
  | ask {query : Query} {next : query.Answer → Infer Property} {a : query.Answer}
      (known : P.answer? query = some a) (rest : Meets P D (next a)) : Meets P D (.ask query next)
  | call {callee : Inferrer} {args : List Ref} {next : Property → Infer Property} {c : Callable}
      (known : P.callable? callee = some c) (rest : Meets P D ((c.body args).bind next)) :
      Meets P D (.call callee args next)
  | read {key : Entry} {next : Property → Infer Property} {p : Property}
      (entry : P.FindsEntry key (.ok p)) (rest : Meets P D (next p)) : Meets P D (.demand key next)

/-- A computation ends within `n` steps, or comes to one of the entries `D`. All entries that it asks
for are among `V`. -/
inductive Within (P : Plain) (V D : List Entry) : Nat → Infer Property → Prop where
  | done (n : Nat) (p : Property) : Within P V D n (.done p)
  | fail (n : Nat) (e : InferError) : Within P V D n (.fail e)
  | ask {n : Nat} {query : Query} {next : query.Answer → Infer Property} {a : query.Answer}
      (known : P.answer? query = some a) (rest : Within P V D n (next a)) :
      Within P V D (n + 1) (.ask query next)
  | call {n : Nat} {callee : Inferrer} {args : List Ref} {next : Property → Infer Property}
      {c : Callable} (known : P.callable? callee = some c)
      (rest : Within P V D n ((c.body args).bind next)) :
      Within P V D (n + 1) (.call callee args next)
  | uncallable (n : Nat) {callee : Inferrer} {args : List Ref} {next : Property → Infer Property}
      (unknown : P.callable? callee = none) : Within P V D n (.call callee args next)
  | stop (n : Nat) {key : Entry} {next : Property → Infer Property} (mem : key ∈ V)
      (doomed : key ∈ D) : Within P V D (n + 1) (.demand key next)
  | read {n : Nat} {key : Entry} {next : Property → Infer Property} {p : Property} (mem : key ∈ V)
      (entry : P.FindsEntry key (.ok p)) (rest : Within P V D n (next p)) :
      Within P V D (n + 1) (.demand key next)
  | failed (n : Nat) {key : Entry} {next : Property → Infer Property} {e : InferError}
      (mem : key ∈ V) (entry : P.FindsEntry key (.error e)) :
      Within P V D (n + 1) (.demand key next)

variable {P : Plain} {b : Infer Property} {r r' : Outcome} {n m : Nat} {stack V D : List Entry}

/-! ## One result at most -/

theorem FindsIn.mono (h : P.FindsIn n b r) (le : n ≤ m) : P.FindsIn m b r := by
  induction h generalizing m with
  | done n p => exact .done m p
  | fail n e => exact .fail m e
  | ask known _ ih =>
    obtain ⟨k, rfl⟩ := Nat.exists_eq_add_of_le le
    rw [Nat.add_right_comm]
    exact .ask known (ih (by omega))
  | call known _ ih =>
    obtain ⟨k, rfl⟩ := Nat.exists_eq_add_of_le le
    rw [Nat.add_right_comm]
    exact .call known (ih (by omega))
  | uncallable n unknown => exact .uncallable m unknown
  | read _ ok _ ih ih' =>
    obtain ⟨k, rfl⟩ := Nat.exists_eq_add_of_le le
    rw [Nat.add_right_comm]
    exact .read (ih (by omega)) ok (ih' (by omega))
  | failed _ failed ih =>
    obtain ⟨k, rfl⟩ := Nat.exists_eq_add_of_le le
    rw [Nat.add_right_comm]
    exact .failed (ih (by omega)) failed

theorem FindsIn.unique (h : P.FindsIn n b r) (h' : P.FindsIn m b r') : r' = r := by
  induction h generalizing m r' with
  | done n p =>
    cases h'
    rfl
  | fail n e =>
    cases h'
    rfl
  | ask known _ ih =>
    cases h' with
    | ask known' rest' =>
      rw [known, Option.some.injEq] at known'
      subst known'
      exact ih rest'
  | call known _ ih =>
    cases h' with
    | call known' rest' =>
      rw [known, Option.some.injEq] at known'
      subst known'
      exact ih rest'
    | uncallable m unknown =>
      rw [known] at unknown
      cases unknown
  | uncallable n unknown =>
    cases h' with
    | call known' rest' =>
      rw [unknown] at known'
      cases known'
    | uncallable m unknown' => rfl
  | read _ ok _ ih ih' =>
    cases h' with
    | read entry' ok' rest' =>
      rw [ih entry', ok, Except.ok.injEq] at ok'
      subst ok'
      exact ih' rest'
    | failed entry' failed' =>
      rw [ih entry', ok] at failed'
      cases failed'
  | failed _ failed ih =>
    cases h' with
    | read entry' ok' rest' =>
      rw [ih entry', failed] at ok'
      cases ok'
    | failed entry' failed' =>
      rw [ih entry', failed] at failed'
      exact failed'.symm

theorem Finds.unique (h : P.Finds b r) (h' : P.Finds b r') : r' = r := by
  obtain ⟨n, h⟩ := h
  obtain ⟨m, h'⟩ := h'
  exact h.unique h'

theorem FindsEntry.unique {key : Entry} (h : P.FindsEntry key r) (h' : P.FindsEntry key r') :
    r' = r := by
  obtain ⟨q, h, rfl⟩ := h
  obtain ⟨q', h', rfl⟩ := h'
  rw [h.unique h']

/-! ## What a computation finds after a step -/

theorem Finds.ask {query : Query} {next : query.Answer → Infer Property} {a : query.Answer}
    (known : P.answer? query = some a) (rest : P.Finds (next a) r) : P.Finds (.ask query next) r := by
  obtain ⟨n, rest⟩ := rest
  exact ⟨n + 1, .ask known rest⟩

theorem Finds.call {callee : Inferrer} {args : List Ref} {next : Property → Infer Property}
    {c : Callable} (known : P.callable? callee = some c)
    (rest : P.Finds ((c.body args).bind next) r) : P.Finds (.call callee args next) r := by
  obtain ⟨n, rest⟩ := rest
  exact ⟨n + 1, .call known rest⟩

theorem Finds.read {key : Entry} {next : Property → Infer Property} {p : Property}
    (entry : P.FindsEntry key (.ok p)) (rest : P.Finds (next p) r) :
    P.Finds (.demand key next) r := by
  obtain ⟨q, ⟨n, entry⟩, ok⟩ := entry
  obtain ⟨m, rest⟩ := rest
  exact ⟨max n m + 1, .read (entry.mono (by omega)) ok (rest.mono (by omega))⟩

theorem Finds.failed {key : Entry} {next : Property → Infer Property} {e : InferError}
    (entry : P.FindsEntry key (.error e)) : P.Finds (.demand key next) (.error e) := by
  obtain ⟨q, ⟨n, entry⟩, failed⟩ := entry
  exact ⟨n + 1, .failed entry failed⟩

/-! ## Entries that need one another -/

theorem Meets.mono {D' : List Entry} (h : P.Meets D b) (sub : D ⊆ D') : P.Meets D' b := by
  induction h with
  | here mem => exact .here (sub mem)
  | ask known _ ih => exact .ask known ih
  | call known _ ih => exact .call known ih
  | read entry _ ih => exact .read entry ih

/-- What comes to entries that need one another finds nothing. -/
theorem not_meets_of_finds (loops : ∀ key ∈ D, P.Meets D (body key)) (h : P.FindsIn n b r) :
    ¬ P.Meets D b := by
  induction h with
  | done n p => rintro ⟨⟩
  | fail n e => rintro ⟨⟩
  | ask known _ ih =>
    rintro (_ | ⟨known', rest'⟩)
    rw [known, Option.some.injEq] at known'
    subst known'
    exact ih rest'
  | call known _ ih =>
    rintro (_ | _ | ⟨known', rest'⟩)
    rw [known, Option.some.injEq] at known'
    subst known'
    exact ih rest'
  | uncallable n unknown =>
    rintro (_ | _ | ⟨known', rest'⟩)
    rw [unknown] at known'
    cases known'
  | @read n key next r r' p entry ok _ ih ih' =>
    intro h'
    cases h' with
    | here mem => exact ih (loops _ mem)
    | read entry' rest' =>
      have heq := FindsEntry.unique ⟨r, ⟨n, entry⟩, ok⟩ entry'
      cases heq
      exact ih' rest'
  | @failed n key next r e entry failed ih =>
    intro h'
    cases h' with
    | here mem => exact ih (loops _ mem)
    | read entry' rest' => cases FindsEntry.unique ⟨r, ⟨n, entry⟩, failed⟩ entry'

/-! ## From a result to an evaluation -/

theorem evaluate_ask {query : Query} {next : query.Answer → Infer Property} {a : query.Answer}
    (known : P.answer? query = some a) :
    P.evaluate stack (.ask query next) = P.evaluate stack (next a) := by
  rw [evaluate, known]

theorem evaluate_call {callee : Inferrer} {args : List Ref} {next : Property → Infer Property}
    {c : Callable} (known : P.callable? callee = some c) :
    P.evaluate stack (.call callee args next) = P.evaluate stack ((c.body args).bind next) := by
  rw [evaluate, known]

/-- The result of a computation at the least height. -/
theorem exists_least (h : ∃ n r, P.FindsIn n b r) :
    ∃ n, (∀ r, P.Finds b r → P.FindsIn n b r) ∧ ∀ m, m < n → ∀ r, ¬ P.FindsIn m b r := by
  classical
  obtain ⟨r, hr⟩ := Nat.find_spec h
  refine ⟨Nat.find h, fun r' hr' => ?_, fun m hm r hmr => Nat.find_min h hm ⟨r, hmr⟩⟩
  rw [Finds.unique ⟨_, hr⟩ hr']
  exact hr

/-- The evaluation of what has a result finds it, if no entry on the stack is needed for it. -/
theorem evaluate_of_findsIn (h : P.FindsIn n b r)
    (clear : ∀ key ∈ stack, ∀ m, m < n → ∀ r, ¬ P.FindsIn m (body key) r) :
    P.evaluate stack b = some (.found r) := by
  induction n using Nat.strongRecOn generalizing b r stack with
  | ind n ih =>
    have inner : ∀ {n' : Nat} {key : Entry} {r : Outcome}, n' + 1 = n → P.FindsIn n' (body key) r →
        key ∉ stack ∧ P.evaluate (key :: stack) (body key) = some (.found r) := by
      intro n' key r hn hentry
      refine ⟨fun hmem => clear key hmem n' (by omega) r hentry, ?_⟩
      -- the least height, so that the entry is not needed for its own result
      obtain ⟨k, hk, hmin⟩ := exists_least ⟨n', r, hentry⟩
      have hle : k ≤ n' := Nat.le_of_not_lt fun hlt => hmin n' hlt r hentry
      refine ih k (by omega) (hk r ⟨n', hentry⟩) ?_
      intro other hmem m hm
      rcases List.mem_cons.mp hmem with rfl | hmem
      · exact hmin m hm
      · exact clear other hmem m (by omega)
    cases h with
    | done n p => rw [evaluate]
    | fail n e => rw [evaluate]
    | @ask n' _ _ _ _ known rest =>
      rw [evaluate_ask known]
      exact ih n' (by omega) rest fun key hmem m hm => clear key hmem m (by omega)
    | @call n' _ _ _ _ _ known rest =>
      rw [evaluate_call known]
      exact ih n' (by omega) rest fun key hmem m hm => clear key hmem m (by omega)
    | uncallable n unknown => rw [evaluate, unknown]
    | @read n' key next r r' p entry ok rest =>
      obtain ⟨hmem, heval⟩ := inner rfl entry
      rw [evaluate, if_neg hmem, heval]
      simp only [Option.bind_eq_bind, Option.bind_some, ok]
      exact ih n' (by omega) rest fun key hmem m hm => clear key hmem m (by omega)
    | @failed n' key next r e entry failed =>
      obtain ⟨hmem, heval⟩ := inner rfl entry
      rw [evaluate, if_neg hmem, heval]
      simp only [Option.bind_eq_bind, Option.bind_some, failed]

theorem evaluate_of_finds (h : P.Finds b r) (clear : ∀ key ∈ stack, ∀ r, ¬ P.Finds (body key) r) :
    P.evaluate stack b = some (.found r) := by
  obtain ⟨n, h⟩ := h
  exact evaluate_of_findsIn h fun key hmem m _ r h => clear key hmem r ⟨m, h⟩

end Plain

end ArrayInference
