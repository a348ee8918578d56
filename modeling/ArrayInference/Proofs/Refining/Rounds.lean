import ArrayInference.Proofs.Lattice.Meet
import ArrayInference.Proofs.Tracks.Serving

/-!
# Evaluation in rounds

What a run finds can be told without its tasks. An entry evaluates to what its computation gives, a
call to what the body gives, and an undecided conditional to what one of its branches gives, and all
that a computation asks for was evaluated in an earlier round. Which conditionals may come out how is
left to the one who evaluates: these are the verdicts of a run.

Main statement: what is evaluated in finitely many rounds is what the computations give that may ask
for all of it.
-/

namespace ArrayInference

namespace Ledger

/-! ## What depends on the engine alone -/

variable {u v : Ledger}

theorem Stands.congr (same : u.engine = v.engine) {operator : Primitive} {track : Track}
    {f : Inferrer} (h : u.Stands operator track f) : v.Stands operator track f := by
  cases h with
  | rule known callable => exact .rule known (same ▸ callable)
  | anything unknown callable => exact .anything unknown (same ▸ callable)
  | scalarShape unknown callable => exact .scalarShape unknown (same ▸ callable)

theorem Interns.congr (same : u.engine = v.engine) {α : Type} {make : Interning α} {a : α}
    (h : u.Interns make a) : v.Interns make a := by
  obtain ⟨cache, home, made⟩ := h
  exact ⟨cache, same ▸ home, made⟩

theorem Holds.congr (same : u.engine = v.engine) {ctx : Context} {c : Constant} {track : Track}
    {p : Property} (h : u.Holds ctx c track p) : v.Holds ctx c track p := by
  cases h with
  | operator stands => exact .operator (stands.congr same)
  | graph callable => exact .graph (same ▸ callable)
  | metaGraph callable => exact .metaGraph (same ▸ callable)
  | recordType stands declares interned callable =>
    exact .recordType (stands.congr same) (declares.congr same) (interned.congr same)
      (same ▸ callable)
  | value data => exact .value data
  | type data own => exact .type data (own.congr same)
  | shape data own => exact .shape data own

theorem Answers.congr (same : u.engine = v.engine) {query : Query} {a : query.Answer}
    (h : u.Answers query a) : v.Answers query a := by
  cases query with
  | intern make => exact Interns.congr same h
  | constant value ctx track => exact fun p ok => (h p ok).congr same
  | describe | note | specialize => trivial
  | _ =>
    rw [Answers] at h ⊢
    rwa [← same]

end Ledger

/-- How undecided conditionals come out. -/
abbrev Verdicts := Track → BranchUse → Ref → Ref → Property → Prop

/-- A ledger with the results of calls and of conditionals. -/
structure Book extends Ledger where
  calls : Ledger.Calls
  verdicts : Verdicts

namespace Book

/-- A computation can have a result if everything that it asks is answered as a book says. -/
def Finds (k : Book) {α : Type} : Infer α → α → Prop
  | .done a, r => r = a
  | .fail _, _ | .forever, _ => False
  | .ask query next, r => ∃ a, k.Answers query a ∧ k.Finds (next a) r
  | .demand key next, r => ∃ p, k.found key p ∧ k.Finds (next p) r
  | .call callee args next, r => ∃ p, k.calls callee args p ∧ k.Finds (next p) r
  | .unify track use first second next, r =>
      ∃ p, k.verdicts track use first second p ∧ k.Finds (next p) r

/-- A book that says more. -/
structure Le (k l : Book) : Prop where
  ledger : k.toLedger.Le l.toLedger
  calls : ∀ {f : Inferrer} {args : List Ref} {p : Property}, k.calls f args p → l.calls f args p
  verdicts : ∀ {track : Track} {use : BranchUse} {x y : Ref} {p : Property},
    k.verdicts track use x y p → l.verdicts track use x y p

variable {α β : Type} {k l : Book} {b : Infer α} {r : α}

theorem Le.refl (k : Book) : k.Le k :=
  ⟨.refl _, id, id⟩

theorem Le.trans {m : Book} (h : k.Le l) (h' : l.Le m) : k.Le m :=
  ⟨h.ledger.trans h'.ledger, fun calls => h'.calls (h.calls calls),
    fun verdict => h'.verdicts (h.verdicts verdict)⟩

theorem Finds.mono (h : k.Finds b r) (le : k.Le l) : l.Finds b r := by
  induction b with
  | done a => exact h
  | fail e => exact h
  | forever => exact h
  | ask query next ih =>
    obtain ⟨a, answers, h⟩ := h
    exact ⟨a, answers.mono le.ledger, ih a h⟩
  | demand key next ih =>
    obtain ⟨p, found, h⟩ := h
    exact ⟨p, le.ledger.found found, ih p h⟩
  | call callee args next ih =>
    obtain ⟨p, calls, h⟩ := h
    exact ⟨p, le.calls calls, ih p h⟩
  | unify track use first second next ih =>
    obtain ⟨p, verdict, h⟩ := h
    exact ⟨p, le.verdicts verdict, ih p h⟩

/-- Whoever knows less of conditionals finds as much. -/
theorem Finds.yields (h : k.Finds b r) : k.Yields k.calls b r := by
  induction b with
  | done a => exact h
  | fail e => exact h
  | forever => exact h
  | ask query next ih =>
    obtain ⟨a, answers, h⟩ := h
    exact ⟨a, answers, ih a h⟩
  | demand key next ih =>
    obtain ⟨p, found, h⟩ := h
    exact ⟨p, found, ih p h⟩
  | call callee args next ih =>
    obtain ⟨p, calls, h⟩ := h
    exact ⟨p, calls, ih p h⟩
  | unify track use first second next ih =>
    obtain ⟨p, -, h⟩ := h
    exact ⟨p, ih p h⟩

theorem finds_bind {f : α → Infer β} {r : β} :
    k.Finds (b.bind f) r ↔ ∃ a, k.Finds b a ∧ k.Finds (f a) r := by
  induction b with
  | done a => simp [Infer.bind, Finds]
  | fail e => simp [Infer.bind, Finds]
  | forever => simp [Infer.bind, Finds]
  | ask query next ih => simp only [Infer.bind, Finds, ih]; grind
  | demand key next ih => simp only [Infer.bind, Finds, ih]; grind
  | call callee args next ih => simp only [Infer.bind, Finds, ih]; grind
  | unify track use first second next ih => simp only [Infer.bind, Finds, ih]; grind

theorem finds_seq {f : α → Infer β} {r : β} :
    k.Finds (b >>= f) r ↔ ∃ a, k.Finds b a ∧ k.Finds (f a) r :=
  finds_bind

end Book

/-- The first property says all that the second one says. -/
inductive Property.Below : Property → Property → Prop where
  | same (p : Property) : Below p p
  | shape {a b : Shape} (le : a.AtMost b) : Below (.shape a) (.shape b)

/-- Nothing is added to a shape by one that says no more. -/
theorem Property.below_iff {p q : Property} :
    p.Below q ↔ p = q ∨ (p.merge .shape q).toOption = some p := by
  constructor
  · rintro (_ | le)
    · exact .inl rfl
    · simp [merge, Shape.merge_eq_left_iff.mpr le, bind, Except.bind, pure, Except.pure,
        Except.toOption]
  · rintro (rfl | same)
    · exact .same p
    · cases p <;> cases q <;> try cases same
      rename_i a b
      cases merged : a.merge b with
      | error e => simp [merge, merged, bind, Except.bind, Except.toOption] at same
      | ok m =>
        have same : m = a := by
          simpa [merge, merged, bind, Except.bind, pure, Except.pure, Except.toOption] using same
        exact .shape (Shape.merge_eq_left_iff.mp (same ▸ merged))

instance (p q : Property) : Decidable (p.Below q) :=
  decidable_of_iff _ Property.below_iff.symm

/-- A branch comes to something that says all that a property says. -/
def Book.Covers (k : Book) (track : Track) (use : BranchUse) (x : Ref) (p : Property) : Prop :=
  ∃ q, k.Finds (Infer.branch track use x) q ∧ q.Below p

namespace Engine

/-- What can be evaluated in so many rounds. -/
def round (e : Engine) (verdicts : Verdicts) : Nat → Book
  | 0 =>
    { engine := e
      found := fun _ _ => False
      shapes := False
      calls := fun _ _ _ => False
      verdicts := fun _ _ _ _ _ => False }
  | n + 1 =>
    let k := e.round verdicts n
    { engine := e
      found := fun key p => k.Finds (key.ref.infer key.track) p
      shapes := False
      calls := fun f args p => ∃ c, e.callable? f = some c ∧ k.Finds (c.body args) p
      verdicts := fun track use x y p => verdicts track use x y p
        ∧ (k.Finds (Infer.branch track use x) p ∨ k.Finds (Infer.branch track use y) p) }

/-- What can be evaluated. -/
def evaluates (e : Engine) (verdicts : Verdicts) : Book where
  engine := e
  found := fun key p => ∃ n, (e.round verdicts n).found key p
  shapes := False
  calls := fun f args p => ∃ n, (e.round verdicts n).calls f args p
  verdicts := fun track use x y p => ∃ n, (e.round verdicts n).verdicts track use x y p

/-- A later state of an engine, as far as evaluations look at it. -/
def Later (e f : Engine) : Prop :=
  (Ledger.opening e False).Le (Ledger.opening f False)

variable {e f g : Engine} {v w : Verdicts} {α : Type} {b : Infer α} {r : α}

theorem Later.refl (e : Engine) : e.Later e :=
  Ledger.Le.refl _

theorem Later.trans (h : e.Later f) (h' : f.Later g) : e.Later g :=
  Ledger.Le.trans h h'

/-- A later ledger is one of a later engine. -/
theorem later_of_le {u x : Ledger} (h : u.Le x) : u.engine.Later x.engine :=
  ⟨h.program, h.home, h.callables, h.generated, False.elim, .rfl⟩

theorem engine_round (e : Engine) (v : Verdicts) (n : Nat) : (e.round v n).engine = e := by
  cases n <;> rfl

theorem le_of_later {k l : Book} (engine : k.engine = e) (engine' : l.engine = f) (h : e.Later f)
    (found : ∀ {key : Entry} {p : Property}, k.found key p → l.found key p)
    (shapes : l.shapes ↔ k.shapes) : k.toLedger.Le l.toLedger := by
  subst engine engine'
  exact ⟨h.program, h.home, h.callables, h.generated, found, shapes⟩

/-- What is evaluated stays so, in later rounds, in later states of the engine, and when more
conditionals have come out. -/
theorem round_mono (later : e.Later f)
    (sub : ∀ {track : Track} {use : BranchUse} {x y : Ref} {p : Property},
      v track use x y p → w track use x y p) {m n : Nat} (le : m ≤ n) :
    (e.round v m).Le (f.round w n) := by
  induction m generalizing n with
  | zero =>
    refine ⟨le_of_later rfl (engine_round f w n) later False.elim ?_, False.elim, False.elim⟩
    cases n <;> exact .rfl
  | succ m ih =>
    obtain ⟨n, rfl⟩ : ∃ k, n = k + 1 := ⟨n - 1, by omega⟩
    have before : (e.round v m).Le (f.round w n) := ih (by omega)
    refine ⟨le_of_later rfl rfl later (fun h => h.mono before) .rfl, ?_, ?_⟩
    · rintro callee args p ⟨c, callable, h⟩
      exact ⟨c, later.callables callable, h.mono before⟩
    · rintro track use x y p ⟨verdict, h⟩
      exact ⟨sub verdict, h.imp (·.mono before) (·.mono before)⟩

theorem round_le_evaluates (e : Engine) (v : Verdicts) (n : Nat) :
    (e.round v n).Le (e.evaluates v) :=
  ⟨le_of_later (engine_round e v n) rfl (.refl e) (fun h => ⟨n, h⟩) (by cases n <;> exact .rfl),
    fun h => ⟨n, h⟩, fun h => ⟨n, h⟩⟩

theorem evaluates_mono (later : e.Later f)
    (sub : ∀ {track : Track} {use : BranchUse} {x y : Ref} {p : Property},
      v track use x y p → w track use x y p) : (e.evaluates v).Le (f.evaluates w) where
  ledger := le_of_later rfl rfl later
    (fun ⟨n, h⟩ => ⟨n, (round_mono later sub (Nat.le_refl n)).ledger.found h⟩) .rfl
  calls := fun ⟨n, h⟩ => ⟨n, (round_mono later sub (Nat.le_refl n)).calls h⟩
  verdicts := fun ⟨n, h⟩ => ⟨n, (round_mono later sub (Nat.le_refl n)).verdicts h⟩

/-- A result is reached in finitely many rounds. -/
theorem exists_round (h : (e.evaluates v).Finds b r) : ∃ n, (e.round v n).Finds b r := by
  have later : ∀ {m n : Nat}, m ≤ n → (e.round v m).Le (e.round v n) := round_mono (.refl e) id
  -- the rounds in which a question and the rest of the computation were answered
  have join : ∀ {β : Type} {P : Book → Prop} {b : Infer β} {r : β},
      (∀ {k l : Book}, k.Le l → P k → P l) → (∃ n, P (e.round v n)) →
      (∃ n, (e.round v n).Finds b r) → ∃ n, P (e.round v n) ∧ (e.round v n).Finds b r := by
    rintro β P b r mono ⟨m, hm⟩ ⟨n, hn⟩
    exact ⟨max m n, mono (later (Nat.le_max_left m n)) hm, hn.mono (later (Nat.le_max_right m n))⟩
  induction b with
  | done a => exact ⟨0, h⟩
  | fail e => exact h.elim
  | forever => exact h.elim
  | ask query next ih =>
    obtain ⟨a, answers, h⟩ := h
    obtain ⟨n, h⟩ := ih a h
    exact ⟨n, a, answers.congr (engine_round e v n).symm, h⟩
  | demand key next ih =>
    obtain ⟨p, found, h⟩ := h
    obtain ⟨n, found, h⟩ := join (P := fun k => k.found key p) (fun le => le.ledger.found) found (ih p h)
    exact ⟨n, p, found, h⟩
  | call callee args next ih =>
    obtain ⟨p, calls, h⟩ := h
    obtain ⟨n, calls, h⟩ := join (P := fun k => k.calls callee args p) (fun le => le.calls) calls (ih p h)
    exact ⟨n, p, calls, h⟩
  | unify track use first second next ih =>
    obtain ⟨p, verdict, h⟩ := h
    obtain ⟨n, verdict, h⟩ := join (P := fun k => k.verdicts track use first second p)
      (fun le => le.verdicts) verdict (ih p h)
    exact ⟨n, p, verdict, h⟩

/-- What is evaluated of an entry is what its computation gives. -/
theorem found_iff {key : Entry} {p : Property} :
    (e.evaluates v).found key p ↔ (e.evaluates v).Finds (key.ref.infer key.track) p := by
  constructor
  · rintro ⟨n, h⟩
    cases n with
    | zero => exact h.elim
    | succ n => exact Book.Finds.mono h (round_le_evaluates e v n)
  · intro h
    obtain ⟨n, h⟩ := exists_round h
    exact ⟨n + 1, h⟩

/-- What is evaluated of a call is what the body gives. -/
theorem calls_iff {f : Inferrer} {args : List Ref} {p : Property} :
    (e.evaluates v).calls f args p
      ↔ ∃ c, e.callable? f = some c ∧ (e.evaluates v).Finds (c.body args) p := by
  constructor
  · rintro ⟨n, h⟩
    cases n with
    | zero => exact h.elim
    | succ n =>
      obtain ⟨c, callable, h⟩ := h
      exact ⟨c, callable, h.mono (round_le_evaluates e v n)⟩
  · rintro ⟨c, callable, h⟩
    obtain ⟨n, h⟩ := exists_round h
    exact ⟨n + 1, c, callable, h⟩

/-- What is evaluated of a conditional is a verdict that one of its branches gives. -/
theorem verdicts_iff {track : Track} {use : BranchUse} {x y : Ref} {p : Property} :
    (e.evaluates v).verdicts track use x y p ↔ v track use x y p
      ∧ ((e.evaluates v).Finds (Infer.branch track use x) p
        ∨ (e.evaluates v).Finds (Infer.branch track use y) p) := by
  constructor
  · rintro ⟨n, h⟩
    cases n with
    | zero => exact h.elim
    | succ n =>
      have le := round_le_evaluates e v n
      exact ⟨h.1, h.2.imp (·.mono le) (·.mono le)⟩
  · rintro ⟨verdict, h | h⟩
    all_goals obtain ⟨n, h⟩ := exists_round h
    · exact ⟨n + 1, verdict, .inl h⟩
    · exact ⟨n + 1, verdict, .inr h⟩

end Engine

end ArrayInference
