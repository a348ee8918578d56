import ArrayInference.Proofs.Infer.Monad
import ArrayInference.Rules.Registry

/-!
# Rules that check their accesses

A rule takes its arguments apart into a fixed number of references, reads lists at positions, cuts
slices and subtracts lengths. Here each of these steps is checked: where it is not in range the
computation ends in a fault. A checked rule shadows a rule of an arity if on every number of arguments
that the arity accepts it is the same computation, which never meets a fault, whatever it is answered,
and if it finds a wrong number of arguments only where the rule complains about that.
-/

namespace ArrayInference

/-- A step that is not in range. -/
inductive Fault where
  /-- A position that holds no item, or a slice that starts beyond the end. -/
  | outOfRange (position length : Nat)
  /-- A difference that is less than zero. -/
  | belowZero (minuend subtrahend : Nat)
  /-- Arguments that are taken apart into another number of references. -/
  | wrongCount (expected actual : Nat)
deriving DecidableEq, Repr

/-- A computation that may meet a fault. -/
abbrev Checked := ExceptT Fault Infer

/-- A rule that checks its accesses. -/
abbrev CheckedRule := Track → List Ref → Checked Property

namespace Checked

variable {α : Type}

/-- A computation that has nothing to check. -/
def plain (b : Infer α) : Checked α :=
  liftM b

/-- The item at a position. -/
def item (xs : List α) (position : Nat) : Checked α :=
  match xs[position]? with
  | some x => pure x
  | none => throw (.outOfRange position xs.length)

/-- The items from a position on. -/
def slice (xs : List α) (start : Nat) : Checked (List α) :=
  if start ≤ xs.length then pure (xs.drop start) else throw (.outOfRange start xs.length)

/-- The list with another item at a position. -/
def replace (xs : List α) (position : Nat) (x : α) : Checked (List α) :=
  if position < xs.length then pure (xs.set position x)
  else throw (.outOfRange position xs.length)

/-- What is left of a number. -/
def difference (m n : Nat) : Checked Nat :=
  if n ≤ m then pure (m - n) else throw (.belowZero m n)

theorem item_of_getElem? {xs : List α} {position : Nat} {x : α} (h : xs[position]? = some x) :
    item xs position = pure x := by
  rw [item, h]

theorem slice_of_le {xs : List α} {start : Nat} (h : start ≤ xs.length) :
    slice xs start = pure (xs.drop start) :=
  if_pos h

theorem replace_of_lt {xs : List α} {position : Nat} (h : position < xs.length) (x : α) :
    replace xs position x = pure (xs.set position x) :=
  if_pos h

theorem difference_of_le {m n : Nat} (h : n ≤ m) : difference m n = pure (m - n) :=
  if_pos h

end Checked

namespace Infer

variable {α β : Type} {P : α → Prop} {Q : β → Prop}

/-- Whatever a computation is answered, its result has a property. -/
inductive Ends (P : α → Prop) : Infer α → Prop where
  | done {a : α} (h : P a) : Ends P (done a)
  | fail (e : InferError) : Ends P (fail e)
  | ask (query : Query) {next : query.Answer → Infer α} (h : ∀ answer, Ends P (next answer)) :
      Ends P (ask query next)
  | demand (entry : Entry) {next : Property → Infer α} (h : ∀ p, Ends P (next p)) :
      Ends P (demand entry next)
  | call (callee : Inferrer) (args : List Ref) {next : Property → Infer α}
      (h : ∀ p, Ends P (next p)) : Ends P (call callee args next)
  | unify (track : Track) (use : BranchUse) (first second : Ref) {next : Property → Infer α}
      (h : ∀ p, Ends P (next p)) : Ends P (unify track use first second next)
  | forever : Ends P forever

theorem Ends.bind {b : Infer α} {g : α → Infer β} (h : b.Ends P) (rest : ∀ a, P a → (g a).Ends Q) :
    (b >>= g).Ends Q := by
  induction h with
  | done h => exact rest _ h
  | fail e => exact .fail e
  | ask query _ ih => exact .ask query ih
  | demand entry _ ih => exact .demand entry ih
  | call callee args _ ih => exact .call callee args ih
  | unify track use first second _ ih => exact .unify track use first second ih
  | forever => exact .forever

theorem ends_true (b : Infer α) : b.Ends fun _ => True := by
  induction b with
  | done a => exact .done trivial
  | fail e => exact .fail e
  | ask query next ih => exact .ask query ih
  | demand entry next ih => exact .demand entry ih
  | call callee args next ih => exact .call callee args ih
  | unify track use first second next ih => exact .unify track use first second ih
  | forever => exact .forever

/-- A computation of which nothing is known stands before one that ends well. -/
theorem ends_bind (b : Infer α) {g : α → Infer β} (rest : ∀ a, (g a).Ends Q) : (b >>= g).Ends Q :=
  (ends_true b).bind fun a _ => rest a

end Infer

/-- A checked computation is another one, without faults. -/
def Faultless {α : Type} (checked : Checked α) (plain : Infer α) : Prop :=
  checked = .plain plain

namespace Faultless

open Checked

variable {α β : Type}

theorem plain {b : Infer α} : Faultless (plain b) b :=
  rfl

theorem pure (a : α) : Faultless (pure a) (pure a) :=
  (liftM_pure (m := Infer) (n := Checked) a).symm

theorem bind {checked : Checked α} {b : Infer α} {f : α → Checked β} {g : α → Infer β}
    (h : Faultless checked b) (rest : ∀ a, Faultless (f a) (g a)) :
    Faultless (checked >>= f) (b >>= g) := by
  rw [Faultless, h, Checked.plain, Checked.plain, liftM_bind, funext rest]
  rfl

/-- A computation that has nothing to check stands before one that is in range for its results. -/
theorem ends {P : α → Prop} {b : Infer α} {f : α → Checked β} {g : α → Infer β} (h : b.Ends P)
    (rest : ∀ a, P a → Faultless (f a) (g a)) : Faultless (Checked.plain b >>= f) (b >>= g) := by
  induction h with
  | @done a h => exact (pure_bind a f).trans (rest a h)
  | fail e => rfl
  | ask query _ ih => exact congrArg (Infer.ask query) (funext ih)
  | demand entry _ ih => exact congrArg (Infer.demand entry) (funext ih)
  | call callee args _ ih => exact congrArg (Infer.call callee args) (funext ih)
  | unify track use first second _ ih =>
    exact congrArg (Infer.unify track use first second) (funext ih)
  | forever => rfl

/-- A computation that has nothing to check stands before one in range. -/
theorem ask {b : Infer α} {f : α → Checked β} {g : α → Infer β} (rest : ∀ a, Faultless (f a) (g a)) :
    Faultless (Checked.plain b >>= f) (b >>= g) :=
  bind plain rest

/-- What is there already is followed only if it is not a failure. -/
theorem ofExcept {r : Except InferError α} {f : α → Checked β} {g : α → Infer β}
    (rest : ∀ a, r = .ok a → Faultless (f a) (g a)) :
    Faultless (Checked.plain (Infer.ofExcept r) >>= f) (Infer.ofExcept r >>= g) := by
  cases r with
  | ok a => exact (pure_bind a f).trans (rest a rfl)
  | error e => rfl

/-- An access in range. -/
theorem access {step : Checked α} {a : α} {f : α → Checked β} {b : Infer β} (h : step = Pure.pure a)
    (rest : Faultless (f a) b) : Faultless (step >>= f) b := by
  subst h
  exact (pure_bind a f).trans rest

theorem mapM {f : α → Checked β} {g : α → Infer β} {xs : List α}
    (h : ∀ x ∈ xs, Faultless (f x) (g x)) : Faultless (xs.mapM f) (xs.mapM g) := by
  induction xs with
  | nil => exact pure []
  | cons x xs ih =>
    rw [List.mapM_cons, List.mapM_cons]
    refine bind (h x List.mem_cons_self) fun y => ?_
    exact bind (ih fun z hz => h z (List.mem_cons_of_mem _ hz)) fun ys => pure (y :: ys)

/-- A computation in range does not end in a fault. -/
theorem ends_ok {checked : Checked α} {b : Infer α} (h : Faultless checked b) :
    checked.run.Ends fun result => ∃ a, result = .ok a := by
  rw [show checked = Checked.plain b from h]
  exact (Infer.ends_true b).bind fun a _ => .done ⟨a, rfl⟩

/-- A computation in range does not begin with a fault. -/
theorem ne_throw {checked : Checked α} {b : Infer α} (h : Faultless checked b) (fault : Fault) :
    checked ≠ throw fault := by
  rintro rfl
  cases b <;> exact nomatch h

end Faultless

namespace CheckedRule

/-- A checked rule of one argument. -/
def unary (rule : Track → Ref → Checked Property) : CheckedRule := fun track args =>
  match args with
  | [x] => rule track x
  | _ => throw (.wrongCount 1 args.length)

/-- A checked rule of two arguments. -/
def binary (rule : Track → Ref → Ref → Checked Property) : CheckedRule := fun track args =>
  match args with
  | [x, y] => rule track x y
  | _ => throw (.wrongCount 2 args.length)

/-- A checked rule of three arguments. -/
def ternary (rule : Track → Ref → Ref → Ref → Checked Property) : CheckedRule := fun track args =>
  match args with
  | [x, y, z] => rule track x y z
  | _ => throw (.wrongCount 3 args.length)

/-- A rule that takes its arguments apart and has no other access to check. -/
def counted (count : Nat) (rule : Rule) : CheckedRule := fun track args =>
  if args.length = count then .plain (rule track args) else throw (.wrongCount count args.length)

/-- A rule that has no access to check, since it goes through its arguments one by one. -/
def free (rule : Rule) : CheckedRule := fun track args =>
  .plain (rule track args)

end CheckedRule

/-- A rule that complains about every other number of arguments. -/
def Rule.Counts (rule : Rule) (count : Nat) : Prop :=
  ∀ (track : Track) (args : List Ref), args.length ≠ count →
    rule track args = .fail (wrongCount count args.length)

namespace Rule

theorem counts_unary (rule : Track → Ref → Infer Property) : (unary rule).Counts 1 := by
  intro track args other
  rcases args with _ | ⟨x, _ | ⟨y, rest⟩⟩ <;> first | rfl | exact absurd rfl other

theorem counts_binary (rule : Track → Ref → Ref → Infer Property) : (binary rule).Counts 2 := by
  intro track args other
  rcases args with _ | ⟨x, _ | ⟨y, _ | ⟨z, rest⟩⟩⟩ <;> first | rfl | exact absurd rfl other

theorem counts_ternary (rule : Track → Ref → Ref → Ref → Infer Property) :
    (ternary rule).Counts 3 := by
  intro track args other
  rcases args with _ | ⟨x, _ | ⟨y, _ | ⟨z, _ | ⟨w, rest⟩⟩⟩⟩ <;> first | rfl | exact absurd rfl other

theorem counts_quaternary (rule : Track → Ref → Ref → Ref → Ref → Infer Property) :
    (quaternary rule).Counts 4 := by
  intro track args other
  rcases args with _ | ⟨x, _ | ⟨y, _ | ⟨z, _ | ⟨w, _ | ⟨v, rest⟩⟩⟩⟩⟩ <;>
    first | rfl | exact absurd rfl other

end Rule

/-- A checked rule is a rule whose accesses are in range on every number of arguments that the arity
accepts, and which takes its arguments apart as the rule does. -/
structure Shadows (arity : Arity) (rule : Rule) (checked : CheckedRule) : Prop where
  faultless : ∀ (track : Track) (args : List Ref), arity.accepts args.length = true →
    Faultless (checked track args) (rule track args)
  complains : ∀ (track : Track) (args : List Ref) (expected actual : Nat),
    checked track args = throw (.wrongCount expected actual) →
      rule track args = .fail (Rule.wrongCount expected actual)

namespace Shadows

open CheckedRule

theorem free {arity : Arity} {rule : Rule} : Shadows arity rule (free rule) where
  faultless _ _ _ := .plain
  complains _ _ _ _ h := absurd h (Faultless.plain.ne_throw _)

/-- A rule of a fixed number of arguments is in range on that number, and complains about every other
one. -/
theorem exactly {count : Nat} {rule : Rule} {checked : CheckedRule}
    (h : ∀ (track : Track) (args : List Ref),
      args.length = count ∧ Faultless (checked track args) (rule track args)
      ∨ args.length ≠ count ∧ checked track args = throw (.wrongCount count args.length)
        ∧ rule track args = .fail (Rule.wrongCount count args.length)) :
    Shadows (.exactly count) rule checked where
  faultless track args accepted := by
    rcases h track args with ⟨-, faultless⟩ | ⟨other, -⟩
    · exact faultless
    · exact absurd (of_decide_eq_true accepted) other
  complains track args expected actual hthrow := by
    rcases h track args with ⟨-, faultless⟩ | ⟨-, hthrow', hfail⟩
    · exact absurd hthrow (faultless.ne_throw _)
    · obtain ⟨rfl, rfl⟩ := Fault.wrongCount.inj
        (Except.error.inj (Infer.done.inj (hthrow'.symm.trans hthrow)))
      exact hfail

theorem counted {count : Nat} {rule : Rule} (counts : rule.Counts count) :
    Shadows (.exactly count) rule (counted count rule) := by
  refine exactly fun track args => ?_
  by_cases same : args.length = count
  · exact .inl ⟨same, if_pos same⟩
  · exact .inr ⟨same, if_neg same, counts track args same⟩

theorem unary {plain : Track → Ref → Infer Property} {checked : Track → Ref → Checked Property}
    (h : ∀ track x, Faultless (checked track x) (plain track x)) :
    Shadows (.exactly 1) (Rule.unary plain) (unary checked) := by
  refine exactly fun track args => ?_
  rcases args with _ | ⟨x, _ | ⟨y, rest⟩⟩ <;>
    first | exact .inr ⟨by simp, rfl, rfl⟩ | exact .inl ⟨rfl, h track x⟩

theorem binary {plain : Track → Ref → Ref → Infer Property}
    {checked : Track → Ref → Ref → Checked Property}
    (h : ∀ track x y, Faultless (checked track x y) (plain track x y)) :
    Shadows (.exactly 2) (Rule.binary plain) (binary checked) := by
  refine exactly fun track args => ?_
  rcases args with _ | ⟨x, _ | ⟨y, _ | ⟨z, rest⟩⟩⟩ <;>
    first | exact .inr ⟨by simp, rfl, rfl⟩ | exact .inl ⟨rfl, h track x y⟩

theorem ternary {plain : Track → Ref → Ref → Ref → Infer Property}
    {checked : Track → Ref → Ref → Ref → Checked Property}
    (h : ∀ track x y z, Faultless (checked track x y z) (plain track x y z)) :
    Shadows (.exactly 3) (Rule.ternary plain) (ternary checked) := by
  refine exactly fun track args => ?_
  rcases args with _ | ⟨x, _ | ⟨y, _ | ⟨z, _ | ⟨w, rest⟩⟩⟩⟩ <;>
    first | exact .inr ⟨by simp, rfl, rfl⟩ | exact .inl ⟨rfl, h track x y z⟩

end Shadows

end ArrayInference
