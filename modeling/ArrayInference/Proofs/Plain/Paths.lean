import ArrayInference.Proofs.Plain.Exploring

/-!
# The way of a plain evaluation

How far a computation has come, and which entries it needs on the way. There is one way only, so the
bounds of a computation that ends hold for everything that it comes to.
-/

namespace ArrayInference

namespace Plain

/-- A computation comes to another one in `n` steps. -/
inductive Leads (P : Plain) (start : Infer Property) : Nat → Infer Property → Prop where
  | refl : Leads P start 0 start
  | ask {n : Nat} {query : Query} {next : query.Answer → Infer Property} {a : query.Answer}
      (before : Leads P start n (.ask query next)) (known : P.answer? query = some a) :
      Leads P start (n + 1) (next a)
  | call {n : Nat} {callee : Inferrer} {args : List Ref} {next : Property → Infer Property}
      {c : Callable} (before : Leads P start n (.call callee args next))
      (known : P.callable? callee = some c) : Leads P start (n + 1) ((c.body args).bind next)
  | read {n : Nat} {key : Entry} {next : Property → Infer Property} {p : Property}
      (before : Leads P start n (.demand key next)) (entry : P.FindsEntry key (.ok p)) :
      Leads P start (n + 1) (next p)

/-- The entries that a computation needs, or that are needed for these. -/
inductive Needs (P : Plain) (root : Infer Property) : Entry → Prop where
  | root {n : Nat} {key : Entry} {next : Property → Infer Property}
      (leads : P.Leads root n (.demand key next)) : Needs P root key
  | entry {n : Nat} {key other : Entry} {next : Property → Infer Property}
      (needs : Needs P root key) (leads : P.Leads (body key) n (.demand other next)) :
      Needs P root other

/-- No computation of the entries `D` ends, because they need one another. -/
def Loops (P : Plain) (D : List Entry) : Prop :=
  ∀ key ∈ D, P.Meets D (body key)

/-- What a plain evaluation goes through: the entries `V`, each within `N` steps, and among them
entries `D` that need one another. -/
structure Covers (P : Plain) (root : Infer Property) (V D : List Entry) (N : Nat) : Prop where
  loops : P.Loops D
  root : P.Within V D N root
  entries : ∀ key ∈ V, P.Within V D N (body key)

variable {P : Plain} {root start b : Infer Property} {V D : List Entry} {n m N : Nat}

/-! ## One way -/

theorem Leads.finds {r : Outcome} (h : P.Leads start n b) (found : P.Finds b r) :
    P.Finds start r := by
  induction h with
  | refl => exact found
  | ask before known ih => exact ih (.ask known found)
  | call before known ih => exact ih (.call known found)
  | read before entry ih => exact ih (.read entry found)

theorem Leads.meets (h : P.Leads start n b) (met : P.Meets D b) : P.Meets D start := by
  induction h with
  | refl => exact met
  | ask before known ih => exact ih (.ask known met)
  | call before known ih => exact ih (.call known met)
  | read before entry ih => exact ih (.read entry met)

theorem Loops.not_finds {key : Entry} {r : Outcome} (loops : P.Loops D) (mem : key ∈ D) :
    ¬ P.FindsEntry key r := by
  rintro ⟨r', ⟨n, h⟩, -⟩
  exact not_meets_of_finds loops h (loops key mem)

/-- What a computation comes to needs as many steps less. -/
theorem Leads.within (loops : P.Loops D) (h : P.Leads start n b) (within : P.Within V D N start) :
    ∃ m, m + n = N ∧ P.Within V D m b := by
  induction h with
  | refl => exact ⟨N, rfl, within⟩
  | ask before known ih =>
    obtain ⟨m, hm, hwithin⟩ := ih
    cases hwithin with
    | ask known' rest =>
      rw [known, Option.some.injEq] at known'
      subst known'
      exact ⟨_, by omega, rest⟩
  | call before known ih =>
    obtain ⟨m, hm, hwithin⟩ := ih
    cases hwithin with
    | call known' rest =>
      rw [known, Option.some.injEq] at known'
      subst known'
      exact ⟨_, by omega, rest⟩
    | uncallable _ unknown =>
      rw [known] at unknown
      cases unknown
  | read before entry ih =>
    obtain ⟨m, hm, hwithin⟩ := ih
    cases hwithin with
    | stop _ mem doomed => exact absurd entry (loops.not_finds doomed)
    | read mem entry' rest =>
      cases entry.unique entry'
      exact ⟨_, by omega, rest⟩
    | failed _ mem entry' => cases entry.unique entry'

theorem Leads.le (loops : P.Loops D) (h : P.Leads start n b) (within : P.Within V D N start) :
    n ≤ N := by
  obtain ⟨m, hm, -⟩ := h.within loops within
  omega

theorem Within.mem {key : Entry} {next : Property → Infer Property}
    (h : P.Within V D n (.demand key next)) : key ∈ V := by
  cases h with
  | stop m mem doomed => exact mem
  | read mem entry rest => exact mem
  | failed m mem entry => exact mem

/-- Every entry that is needed is one of those that the evaluation goes through. -/
theorem Covers.mem (h : P.Covers root V D N) {key : Entry} (needs : P.Needs root key) : key ∈ V := by
  induction needs with
  | root leads =>
    obtain ⟨m, -, hwithin⟩ := leads.within h.loops h.root
    exact hwithin.mem
  | entry needs leads ih =>
    obtain ⟨m, -, hwithin⟩ := leads.within h.loops (h.entries _ ih)
    exact hwithin.mem

/-- An evaluation that ends goes through finitely many entries. -/
theorem exists_covers_of_evaluate {v : Verdict} (h : P.evaluate [] root = some v) :
    ∃ V D N, P.Covers root V D N := by
  have hseen := seen_of_evaluate h
  cases v with
  | found r =>
    obtain ⟨found, V, n, explored⟩ := hseen
    exact ⟨_, [], n, List.forall_mem_nil _, explored.within, fun key mem => explored.entries key (by simpa using mem)⟩
  | reentered =>
    obtain ⟨V, D, n, explored, met, loops⟩ := hseen
    rw [List.append_nil] at explored met loops
    exact ⟨_, D, n, loops, explored.within,
      fun key mem => explored.entries key (by simpa using mem)⟩

end Plain

end ArrayInference
