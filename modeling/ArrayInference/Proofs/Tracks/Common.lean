import ArrayInference.Proofs.Tracks.Agreeing
import ArrayInference.Rules.Control

/-!
# Rules that agree

The value rule of an operator agrees with its rule on another track if what they find for the same
arguments agrees, as long as the calls do that they make. The rules that all tracks share agree with
themselves.
-/

namespace ArrayInference

namespace Ledger

/-- Calls of inferrers that stand for the same thing agree. -/
def CallsAgree (w : Ledger) (t : Track) (calls calls' : Calls) : Prop :=
  ∀ ⦃f g : Inferrer⦄ ⦃args : List Ref⦄ ⦃p q : Property⦄, w.Corresponds t f g →
    (∀ x ∈ args, w.Sure x) → calls f args p → calls' g args q → w.Agree t p q

/-- A value rule and the rule of another track agree on all arguments. -/
def RulesAgree (w : Ledger) (t : Track) (rule rule' : Rule) : Prop :=
  ∀ ⦃calls calls' : Calls⦄ ⦃args : List Ref⦄ ⦃p q : Property⦄, w.CallsAgree t calls calls' →
    (∀ x ∈ args, w.Sure x) → w.Yields calls (rule .value args) p →
    w.Yields calls' (rule' t args) q → w.Agree t p q

variable {w : Ledger} {t : Track} {calls calls' : Calls} {p q : Property}

/-! ## Rules by their number of arguments -/

theorem yields_unary {rule : Track → Ref → Infer Property} {args : List Ref} :
    w.Yields calls (Rule.unary rule t args) p ↔ ∃ x, args = [x] ∧ w.Yields calls (rule t x) p := by
  rw [Rule.unary.eq_def]
  split
  · simp
  · rename_i other
    refine ⟨fun h => h.elim, ?_⟩
    rintro ⟨x, hx, -⟩
    exact (other x hx).elim

theorem yields_binary {rule : Track → Ref → Ref → Infer Property} {args : List Ref} :
    w.Yields calls (Rule.binary rule t args) p
      ↔ ∃ x y, args = [x, y] ∧ w.Yields calls (rule t x y) p := by
  rw [Rule.binary.eq_def]
  split
  · simp
  · rename_i other
    refine ⟨fun h => h.elim, ?_⟩
    rintro ⟨x, y, hxy, -⟩
    exact (other x y hxy).elim

theorem yields_ternary {rule : Track → Ref → Ref → Ref → Infer Property} {args : List Ref} :
    w.Yields calls (Rule.ternary rule t args) p
      ↔ ∃ x y z, args = [x, y, z] ∧ w.Yields calls (rule t x y z) p := by
  rw [Rule.ternary.eq_def]
  split
  · simp
  · rename_i other
    refine ⟨fun h => h.elim, ?_⟩
    rintro ⟨x, y, z, hxyz, -⟩
    exact (other x y z hxyz).elim

theorem yields_variadic {missing : String} {rule : Track → Ref → List Ref → Infer Property}
    {args : List Ref} :
    w.Yields calls (Rule.variadic missing rule t args) p
      ↔ ∃ x rest, args = x :: rest ∧ w.Yields calls (rule t x rest) p := by
  cases args with
  | nil => simp [Rule.variadic]
  | cons x rest => simp [Rule.variadic]

/-! ## What the rules share -/

/-- The tracks agree on constants. -/
theorem agree_holds {ctx : Context} {c : Constant} (other : t ≠ .value)
    (left : w.Holds ctx c .value p) (right : w.Holds ctx c t q) : w.Agree t p q := by
  cases left with
  | operator stands =>
    cases right with
    | operator stands' => exact .operator stands stands'
    | value data => cases data
    | type data own => cases data
    | shape data own => cases data
  | graph callable =>
    cases right with
    | graph callable' => exact .graph callable callable'
    | value data => cases data
    | type data own => cases data
    | shape data own => cases data
  | metaGraph callable =>
    cases right with
    | metaGraph callable' => exact .metaGraph callable callable'
    | value data => cases data
    | type data own => cases data
    | shape data own => cases data
  | recordType stands declares interned callable =>
    cases right with
    | recordType stands' declares' interned' callable' =>
      rw [declares.unique (Interning.steady_declaredType _) declares',
        interned.unique (Interning.steady_generic _) interned'] at callable'
      exact .bound callable callable' (.operator stands stands')
    | value data => cases data
    | type data own => cases data
    | shape data own => cases data
  | value data =>
    cases right with
    | value _ => exact absurd rfl other
    | type _ own => exact Constant.inhabits_of_hasType _ _ own.hasType
    | shape _ own => exact fun _ => Constant.shaped_of_eq own
    | _ => cases data

variable {x y z : Ref}

/-- What is found in a constant, or for a method. -/
theorem yields_access {how : Access} {track : Track} :
    w.Yields calls (Infer.access how track x y) p
      ↔ ∃ name, w.Knows calls y name
          ∧ ∃ s, w.Yields calls (Infer.typeOf x) s
          ∧ ((∃ method f g, Infer.methodOf? s name = some method
              ∧ w.engine.callable? f = some (.graph track method .empty)
              ∧ w.engine.callable? g = some (.bound f [x]) ∧ p = .inferrer g)
            ∨ (Infer.methodOf? s name = none ∧ ∃ c found,
              w.Knows calls x c
              ∧ how.find? c name = some found ∧ w.Holds .empty found track p)) := by
  rw [Infer.access, yields_seq]
  constructor
  · rintro ⟨a, ha, h⟩
    cases a with
    | anything => exact h.elim
    | known name =>
      obtain ⟨s, hs, h⟩ := yields_seq.mp h
      refine ⟨name, yields_known.mp ha, s, hs, ?_⟩
      cases hmethod : Infer.methodOf? s name with
      | some method =>
        rw [hmethod] at h
        obtain ⟨f, hf, h⟩ := yields_seq.mp h
        obtain ⟨g, hg, rfl⟩ := yields_bindArguments.mp h
        exact .inl ⟨method, f, g, rfl, yields_graphInferrer.mp hf, hg, rfl⟩
      | none =>
        rw [hmethod] at h
        obtain ⟨b, hb, h⟩ := yields_seq.mp h
        cases b with
        | anything => exact h.elim
        | known c =>
          dsimp only at h
          split at h
          · rename_i found hfound
            exact .inr ⟨rfl, c, found, yields_known.mp hb, hfound, yields_constant.mp h⟩
          · exact h.elim
  · rintro ⟨name, ha, s, hs, h⟩
    refine ⟨_, yields_known.mpr ha, yields_seq.mpr ⟨s, hs, ?_⟩⟩
    rcases h with ⟨method, f, g, hmethod, hf, hg, rfl⟩ | ⟨hmethod, c, found, hc, hfound, holds⟩
    · rw [hmethod]
      exact yields_seq.mpr ⟨f, yields_graphInferrer.mpr hf, yields_bindArguments.mpr ⟨g, hg, rfl⟩⟩
    · rw [hmethod]
      refine yields_seq.mpr ⟨_, yields_known.mpr hc, ?_⟩
      simp only [hfound]
      exact yields_constant.mpr holds

theorem Lawful.agree_access (lawful : w.Lawful) (other : t ≠ .value) {how : Access}
    (left : w.Yields calls (Infer.access how .value x y) p)
    (right : w.Yields calls' (Infer.access how t x y) q) : w.Agree t p q := by
  obtain ⟨name, hname, s, hs, left⟩ := yields_access.mp left
  obtain ⟨name', hname', s', hs', right⟩ := yields_access.mp right
  cases lawful.once.known_unique hname hname'
  cases lawful.once.typeOf_unique hs hs'
  rcases left with ⟨method, f, g, hmethod, hf, hg, rfl⟩ | ⟨hmethod, c, found, hc, hfound, holds⟩
  · rcases right with ⟨method', f', g', hmethod', hf', hg', rfl⟩ | ⟨hmethod', -⟩
    · rw [hmethod, Option.some.injEq] at hmethod'
      cases hmethod'
      exact .bound hg hg' (.graph hf hf')
    · rw [hmethod] at hmethod'
      cases hmethod'
  · rcases right with ⟨method', f', g', hmethod', -⟩ | ⟨-, c', found', hc', hfound', holds'⟩
    · rw [hmethod] at hmethod'
      cases hmethod'
    · cases lawful.once.known_unique hc hc'
      rw [hfound, Option.some.injEq] at hfound'
      cases hfound'
      exact agree_holds other holds holds'

/-- The attribute that a known name names in a record. -/
theorem yields_recordAttribute {found : Option (String × Ty)} :
    w.Yields calls (Infer.recordAttribute x y) found
      ↔ ∃ s, w.Yields calls (Infer.typeOf x) s
          ∧ ((s.class? = none ∧ found = none)
            ∨ ∃ c name, s.class? = some c
              ∧ w.Knows calls y (.str name)
              ∧ found = (c.attribute? name).map fun u => (name, u)) := by
  rw [Infer.recordAttribute, yields_seq]
  refine exists_congr fun s => and_congr_right fun hs => ?_
  cases hclass : s.class? with
  | none => simp
  | some c =>
    simp only [yields_seq, yields_constantOf, reduceCtorEq, false_and, false_or, Option.some.injEq]
    constructor
    · rintro ⟨key, hkey, h⟩
      cases key with
      | str name => exact ⟨c, name, rfl, hkey, yields_done.mp h⟩
      | _ => exact h.elim
    · rintro ⟨_, name, rfl, hkey, rfl⟩
      exact ⟨_, hkey, yields_done.mpr rfl⟩

theorem Functional.recordAttribute_unique (once : w.Functional)
    {found found' : Option (String × Ty)} (h : w.Yields calls (Infer.recordAttribute x y) found)
    (h' : w.Yields calls' (Infer.recordAttribute x y) found') : found' = found := by
  obtain ⟨s, hs, h⟩ := yields_recordAttribute.mp h
  obtain ⟨s', hs', h'⟩ := yields_recordAttribute.mp h'
  cases once.typeOf_unique hs hs'
  rcases h with ⟨hclass, rfl⟩ | ⟨c, name, hclass, hname, rfl⟩
  · rcases h' with ⟨-, rfl⟩ | ⟨c', name', hclass', -⟩
    · rfl
    · rw [hclass] at hclass'
      cases hclass'
  · rcases h' with ⟨hclass', -⟩ | ⟨c', name', hclass', hname', rfl⟩
    · rw [hclass] at hclass'
      cases hclass'
    · rw [hclass, Option.some.injEq] at hclass'
      cases hclass'
      cases once.known_unique hname hname'
      rfl

/-! ## Conditionals -/

theorem Lawful.agree_branch (lawful : w.Lawful) (agree : w.CallsAgree t calls calls') (sure : w.Sure x)
    (other : t ≠ .value) {use : BranchUse} (left : w.Yields calls (Infer.branch .value use x) p)
    (right : w.Yields calls' (Infer.branch t use x) q) : w.Agree t p q := by
  rw [Infer.branch, yields_seq] at left right
  obtain ⟨a, ha, left⟩ := left
  obtain ⟨b, hb, right⟩ := right
  have same := lawful.agree_get sure other ha hb
  cases use with
  | select =>
    rw [yields_done.mp left, yields_done.mp right]
    exact same
  | call =>
    simp only [yields_seq, yields_ofExcept, yields_callInferrer] at left right
    obtain ⟨f, hf, left⟩ := left
    obtain ⟨g, hg, right⟩ := right
    cases a <;> cases hf
    cases b <;> cases hg
    exact agree same (by simp) left right

/-- The branch that a known condition takes. -/
theorem yields_conditional {use : BranchUse} {taken : Bool}
    (known : w.Knows calls x (.bool taken)) (lawful : w.Lawful)
    (h : w.Yields calls' (Infer.conditional use t x y z) p) :
    w.Yields calls' (Infer.branch t use (if taken then y else z)) p := by
  obtain ⟨a, ha, h⟩ := yields_seq.mp h
  cases lawful.once.valueOf_unique (yields_known.mpr known) ha
  simpa using h

theorem Lawful.agree_conditional (lawful : w.Lawful) (agree : w.CallsAgree t calls calls')
    (sure : w.Sure y) (sure' : w.Sure z) (other : t ≠ .value) {use : BranchUse}
    (left : w.Yields calls (Infer.conditional use .value x y z) p)
    (right : w.Yields calls' (Infer.conditional use t x y z) q) : w.Agree t p q := by
  obtain ⟨a, ha, rest⟩ := yields_seq.mp left
  cases a with
  | anything =>
    rw [yields_done.mp rest]
    exact agree_anything
  | known c =>
    cases c with
    | bool taken =>
      have known := yields_known.mp ha
      have left := yields_conditional known lawful left
      have right := yields_conditional known lawful right
      cases taken
      · exact lawful.agree_branch agree sure' other left right
      · exact lawful.agree_branch agree sure other left right
    | _ => exact rest.elim

/-! ## The rules of all tracks -/

theorem Lawful.agree_passThrough (lawful : w.Lawful) (other : t ≠ .value) :
    w.RulesAgree t Rule.passThrough Rule.passThrough := by
  intro calls calls' args p q _ sure left right
  obtain ⟨x, rfl, left⟩ := yields_unary.mp left
  exact lawful.agree_get (sure x (by simp)) other left right

theorem Lawful.agree_partially (lawful : w.Lawful) (other : t ≠ .value) :
    w.RulesAgree t Rule.partially Rule.partially := by
  intro calls calls' args p q _ sure left right
  obtain ⟨x, rest, rfl, hp⟩ := yields_variadic.mp left
  obtain ⟨_, _, ⟨⟩, hq⟩ := yields_variadic.mp right
  simp only [Infer.inferrerOf, yields_seq, yields_ofExcept, yields_bindArguments] at hp hq
  obtain ⟨f, ⟨a, ha, hf⟩, f', hf', rfl⟩ := hp
  obtain ⟨g, ⟨b, hb, hg⟩, g', hg', rfl⟩ := hq
  have same := lawful.agree_get (sure x (by simp)) other ha hb
  cases a <;> cases hf
  cases b <;> cases hg
  exact .bound hf' hg' same

theorem Lawful.agree_ifElse (lawful : w.Lawful) (other : t ≠ .value) :
    w.RulesAgree t Rule.ifElse Rule.ifElse := by
  intro calls calls' args p q agree sure left right
  obtain ⟨x, y, z, rfl, left⟩ := yields_ternary.mp left
  exact lawful.agree_conditional agree (sure y (by simp)) (sure z (by simp)) other left right

theorem Lawful.agree_switch (lawful : w.Lawful) (other : t ≠ .value) :
    w.RulesAgree t Rule.switch Rule.switch := by
  intro calls calls' args p q agree sure left right
  obtain ⟨x, y, z, rfl, left⟩ := yields_ternary.mp left
  exact lawful.agree_conditional agree (sure y (by simp)) (sure z (by simp)) other left right

theorem Lawful.agree_resolve (lawful : w.Lawful) (other : t ≠ .value) :
    w.RulesAgree t Rule.resolve Rule.resolve := by
  intro calls calls' args p q _ _ left right
  obtain ⟨x, y, rfl, left⟩ := yields_binary.mp left
  exact lawful.agree_access other left right

/-- The operator has a rule on the other track, and the value rule agrees with it. -/
def Meets (w : Ledger) (t : Track) (operator : Primitive) (rule : Rule) : Prop :=
  ∃ arity rule', (Registries.builtin.get t).get? operator = some (arity, rule')
    ∧ w.RulesAgree t rule rule'

/-- The rules of all tracks agree with themselves. -/
theorem Lawful.meets_common (lawful : w.Lawful) (other : t ≠ .value)
    (known : Rule.common.All fun operator rule =>
      ∃ arity, (Registries.builtin.get t).get? operator = some (arity, rule)) :
    Rule.common.All (w.Meets t) := by
  have all : Rule.common.All fun _ rule => w.RulesAgree t rule rule :=
    Registry.all_empty (P := fun _ rule => w.RulesAgree t rule rule)
      |>.insert _ _ (lawful.agree_ifElse other)
      |>.insert _ _ (lawful.agree_switch other)
      |>.insert _ _ (lawful.agree_partially other)
      |>.insertAll _ _ (fun _ _ => lawful.agree_passThrough other)
      |>.insert _ _ (lawful.agree_resolve other)
  intro operator arity rule found
  obtain ⟨arity', found'⟩ := known operator arity rule found
  exact ⟨arity', rule, found', all operator arity rule found⟩

end Ledger

end ArrayInference
